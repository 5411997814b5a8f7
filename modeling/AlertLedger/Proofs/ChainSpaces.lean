import AlertLedger.Proofs.RedisMirror
import AlertLedger.Proofs.SnapshotKeys

namespace AlertLedger

/-- The call is about hashes of chains only. -/
def SnapshotCall.OnChains (c : SnapshotCall) : Prop :=
  ∀ hash, c.IsAbout hash → ∃ parent, hash = chainHash parent

/-- The part of a snapshot that is about chains. -/
def Snapshot.ofChains (s : Snapshot) : Snapshot :=
  s.keepCells fun hash _ => chainHashStem.toList.isPrefixOf hash.toList

namespace Snapshot

theorem get?_ofChains (s : Snapshot) (hash field : String) :
    s.ofChains.get? hash field =
      if chainHashStem.toList <+: hash.toList then s.get? hash field else none := by
  simp [ofChains, List.isPrefixOf_iff_prefix]

theorem get?_ofChains_chainHash (s : Snapshot) (parent field : String) :
    s.ofChains.get? (chainHash parent) field = s.get? (chainHash parent) field := by
  rw [get?_ofChains, if_pos (chainHashStem_prefix_iff.mpr ⟨parent, rfl⟩)]

theorem ofChains_answer {c : SnapshotCall} (onChains : c.OnChains) (s : Snapshot) :
    (s.answer c).2.ofChains = (s.ofChains.answer c).2 := by
  apply ext_get?
  intro h f
  cases c with
  | setField hash field value =>
    have chain := chainHashStem_prefix_iff.mpr (onChains hash rfl)
    simp only [answer_setField, get?_ofChains, get?_set]
    by_cases same : h = hash
    · simp [same, chain]
    · simp [same]
  | removeFields hash fields =>
    have chain := chainHashStem_prefix_iff.mpr (onChains hash rfl)
    simp only [answer_removeFields, get?_ofChains, get?_remove]
    by_cases same : h = hash
    · simp [same, chain]
    · simp [same]
  | fieldsOf hash => rfl
  | hashesStarting start => rfl

/-- A call about chains is answered from the part that is about chains. -/
theorem agree_ofChains {c : SnapshotCall} (onChains : c.OnChains) {s : Snapshot} {a : c.Answer}
    (agree : c.Agree a (s.answer c).1) : c.Agree a (s.ofChains.answer c).1 := by
  cases c with
  | setField hash field value => trivial
  | fieldsOf hash =>
    obtain ⟨parent, rfl⟩ := onChains hash rfl
    refine List.Perm.trans agree ?_
    rw [answer_fieldsOf, answer_fieldsOf,
      List.perm_ext_iff_of_nodup (nodup_fields _ _) (nodup_fields _ _)]
    intro field
    rw [mem_fields_iff, mem_fields_iff, get?_ofChains_chainHash]
  | removeFields hash fields =>
    obtain ⟨parent, rfl⟩ := onChains hash rfl
    have counted : s.ofChains.removed (chainHash parent) fields =
        s.removed (chainHash parent) fields := by
      simp only [removed_eq_card, get?_ofChains_chainHash]
    rw [answer_removeFields, counted]
    exact agree
  | hashesStarting start =>
    refine List.Perm.trans agree ?_
    rw [answer_hashesStarting, answer_hashesStarting,
      List.perm_ext_iff_of_nodup (nodup_hashesStarting _ _) (nodup_hashesStarting _ _)]
    intro hash
    rw [mem_hashesStarting_iff, mem_hashesStarting_iff]
    refine and_congr_right fun front => ?_
    obtain ⟨parent, rfl⟩ := onChains hash front
    simp only [get?_ofChains_chainHash]

end Snapshot

namespace RedisStore

theorem space_of_front {a b : RedisStore} (same : a.front = b.front) : a.space = b.space := by
  unfold front at same
  cases ha : a.space <;> cases hb : b.space <;> simp_all [String.toList_inj]

/-- The name of the space has the start of all chains' hashes in it. -/
def NamesChains (r : RedisStore) : Prop :=
  ∃ space, r.space = some space ∧ chainHashStem.toList <:+: space.toList

/-- The start of all chains' hashes has no colon, so it ends before the first one. -/
theorem chainHashStem_prefix_of_colon {cs back rest : List Char}
    (h : chainHashStem.toList ++ rest = cs ++ ':' :: back) : chainHashStem.toList <+: cs := by
  rcases List.append_eq_append_iff.mp h with ⟨more, split, _⟩ | ⟨more, split, behind⟩
  · exact ⟨more, split.symm⟩
  · cases more with
    | nil => exact ⟨[], by rw [List.append_nil, split, List.append_nil]⟩
    | cons c more =>
      obtain ⟨rfl, _⟩ := List.cons.inj behind
      have colon : ':' ∈ chainHashStem.toList := by simp [split]
      exact absurd colon (by decide)

/-- If a key of a chain is one in a space with a longer name as well, then the start of the chain's
hash stands in what the longer name has more. -/
theorem namesChains_of_longer {a b : RedisStore} {more : List Char} {p q : String}
    (longer : b.front = a.front ++ more)
    (same : (chainHash p).toList = more ++ (chainHash q).toList) : more = [] ∨ b.NamesChains := by
  rcases List.eq_nil_or_concat more with none | ⟨name, last, rfl⟩
  · exact .inl none
  · right
    obtain ⟨space⟩ := b
    cases space with
    | none => simp [front] at longer
    | some space =>
      rw [List.concat_eq_append] at longer same
      rw [← List.append_assoc] at longer
      obtain ⟨named, ends⟩ := List.append_inj' longer rfl
      obtain rfl := List.singleton_inj.mp ends
      simp only [chainHash, String.toList_append, List.append_assoc, List.cons_append,
        List.nil_append] at same
      have stem := chainHashStem_prefix_of_colon same
      exact ⟨space, rfl, stem.isInfix.trans ⟨a.front, [], by simp [named]⟩⟩

/-- Different spaces have a key of a chain in common only if one of them has the start of all
chains' hashes in its name. -/
theorem namesChains_of_key_eq {a b : RedisStore} {p q : String} (other : a.space ≠ b.space)
    (same : a.key (chainHash p) = b.key (chainHash q)) : a.NamesChains ∨ b.NamesChains := by
  have same := congrArg String.toList same
  rw [toList_key, toList_key] at same
  rcases List.append_eq_append_iff.mp same with ⟨more, longer, behind⟩ | ⟨more, longer, behind⟩
  · refine .inr ((namesChains_of_longer longer behind).resolve_left ?_)
    rintro rfl
    exact other (space_of_front (by simp [longer]))
  · refine .inl ((namesChains_of_longer longer behind).resolve_left ?_)
    rintro rfl
    exact other (space_of_front (by simp [longer]))

/-- What a server keeps of chains in the space. -/
def chainsAt (r : RedisStore) (server : RedisServer) : Snapshot := (r.mirror server).ofChains

/-- No key of a chain is one in both spaces. -/
def Apart (a b : RedisStore) : Prop := ∀ p q, a.key (chainHash p) ≠ b.key (chainHash q)

theorem apart_of_ne {a b : RedisStore} (other : a.space ≠ b.space) (ha : ¬ a.NamesChains)
    (hb : ¬ b.NamesChains) : a.Apart b := by
  intro p q same
  exact (namesChains_of_key_eq other same).elim ha hb

section

variable {ρ : Type} {send : RedisCommand → ρ → RedisReply × ρ} {contents : ρ → RedisServer}
  {c : SnapshotCall}

theorem chainsAt_answer (served : RedisServer.Serves send contents) (r : RedisStore)
    (onChains : c.OnChains) (s : ρ) :
    r.chainsAt (contents (r.answer send c s).2) = ((r.chainsAt (contents s)).answer c).2 := by
  rw [contents_answer served, chainsAt, mirror_answer, Snapshot.ofChains_answer onChains, chainsAt]

theorem chainsAt_answer_of_apart (served : RedisServer.Serves send contents) {a b : RedisStore}
    (apart : a.Apart b) (onChains : c.OnChains) (s : ρ) :
    b.chainsAt (contents (a.answer send c s).2) = b.chainsAt (contents s) := by
  rw [contents_answer served]
  apply Snapshot.ext_get?
  intro hash field
  rw [chainsAt, chainsAt, Snapshot.get?_ofChains, Snapshot.get?_ofChains]
  split
  next front =>
    obtain ⟨p, rfl⟩ := chainHashStem_prefix_iff.mp front
    have outside (h : String) (about : c.IsAbout h) : b.key (chainHash p) ≠ a.key h := by
      obtain ⟨q, rfl⟩ := onChains h about
      exact (apart q p).symm
    rw [get?_mirror, get?_mirror, RedisServer.hash, RedisServer.hash,
      get?_answer_of_ne a c (contents s) outside]
  next => rfl

end

end RedisStore

/-- The command reads or changes the hash of this key, or lists the key. -/
def RedisCommand.Reaches (key : String) : RedisCommand → Prop
  | .hset k _ _ | .hkeys k | .hdel k _ => key = k
  | .keys pattern => matchesGlob pattern key

theorem RedisServer.get?_execute_of_not_reaches {c : RedisCommand} {key : String}
    (unreached : ¬ c.Reaches key) (s : RedisServer) :
    (execute c s).2.hashes.get? key = s.hashes.get? key := by
  cases c with
  | hset k field value => exact (get?_put _ _ _ _).trans (if_neg unreached)
  | hkeys k => rfl
  | hdel k fields =>
    cases fields with
    | nil => rfl
    | cons f fs => exact (get?_put _ _ _ _).trans (if_neg unreached)
  | keys pattern => rfl

end AlertLedger
