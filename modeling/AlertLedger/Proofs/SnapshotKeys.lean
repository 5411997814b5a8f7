import AlertLedger.Snapshot
import Mathlib.Data.List.Pairwise

namespace AlertLedger

theorem chainHash_inj {parent other : String} (h : chainHash parent = chainHash other) :
    parent = other := by
  have same := congrArg String.toList h
  rw [chainHash, chainHash, String.toList_append, String.toList_append] at same
  exact String.toList_inj.mp (List.append_cancel_left same)

theorem chainHashStem_prefix_iff {hash : String} :
    chainHashStem.toList <+: hash.toList ↔ ∃ parent, hash = chainHash parent := by
  simp only [← String.toList_inj, chainHash, String.toList_append]
  constructor
  · rintro ⟨rest, split⟩
    exact ⟨.ofList rest, by simp [← split]⟩
  · rintro ⟨parent, split⟩
    exact ⟨parent.toList, split.symm⟩

namespace Metric

theorem mem_all (m : Metric) : m ∈ all := by
  cases m <;> decide

/-- There is no clash between two entries when neither stem starts the other. -/
theorem stemClash?_eq_none_iff {a b : String × String} : stemClash? a b = none ↔
    ¬ a.2.toList <+: b.2.toList ∧ ¬ b.2.toList <+: a.2.toList := by
  by_cases same : a.2 = b.2
  · simp [stemClash?, same]
  · by_cases first : a.2.toList <+: b.2.toList
    · simp [stemClash?, same, first, List.isPrefixOf_iff_prefix.mpr first]
    · by_cases second : b.2.toList <+: a.2.toList <;>
        simp [stemClash?, same, first, second, List.isPrefixOf_iff_prefix]

theorem firstStemClash?_eq_none_iff {table : List (String × String)} :
    firstStemClash? table = none ↔ table.Pairwise fun a b => stemClash? a b = none := by
  induction table with
  | nil => simp [firstStemClash?]
  | cons a rest ih =>
    rw [firstStemClash?, Option.or_eq_none_iff, List.findSome?_eq_none_iff, ih,
      List.pairwise_cons]

theorem pairwise_of_checkTable {table : List (String × String)}
    (accepted : checkTable table = .ok ()) : table.Pairwise fun a b =>
      ¬ a.2.toList <+: b.2.toList ∧ ¬ b.2.toList <+: a.2.toList := by
  unfold checkTable at accepted
  split at accepted
  · cases accepted
  split at accepted
  · cases accepted
  next clash => exact (firstStemClash?_eq_none_iff.mp clash).imp stemClash?_eq_none_iff.mp

/-- The table of all metrics passes its own check. -/
theorem checkAll_eq_ok : checkAll = .ok () := rfl

/-- No stem of a key starts another one, since the check would find it. -/
theorem eq_of_keyStem_starts {m n : Metric} (h : m.keyStem.toList <+: n.keyStem.toList) :
    m = n := by
  by_contra different
  have apart := pairwise_of_checkTable checkAll_eq_ok
  rw [List.pairwise_map] at apart
  have symm : Std.Symm fun m n : Metric =>
      ¬ m.keyStem.toList <+: n.keyStem.toList ∧ ¬ n.keyStem.toList <+: m.keyStem.toList :=
    ⟨fun _ _ => And.symm⟩
  exact (apart.forall (mem_all m) (mem_all n) different).1 h

/-- A snapshot field belongs to one metric and one origin, since one of two stems in the same field
starts the other. -/
theorem fieldKey_inj {m n : Metric} {origin other : String}
    (h : m.fieldKey origin = n.fieldKey other) : m = n ∧ origin = other := by
  have same := congrArg String.toList h
  simp only [fieldKey, String.toList_append] at same
  have stems : m = n := by
    have hm : m.keyStem.toList <+: m.keyStem.toList ++ "_".toList ++ origin.toList :=
      ⟨"_".toList ++ origin.toList, by rw [List.append_assoc]⟩
    have hn : n.keyStem.toList <+: m.keyStem.toList ++ "_".toList ++ origin.toList :=
      ⟨"_".toList ++ other.toList, by rw [same, List.append_assoc]⟩
    rcases List.prefix_or_prefix_of_prefix hm hn with h | h
    · exact eq_of_keyStem_starts h
    · exact (eq_of_keyStem_starts h).symm
  subst stems
  exact ⟨rfl, String.toList_inj.mp (List.append_cancel_left same)⟩

end Metric

end AlertLedger
