import AlertLedger.Proofs.SnapshotCells
import AlertLedger.Proofs.SnapshotKeys

namespace AlertLedger

/-- An occurrence of `part` may start in this text, depending on what comes behind it. -/
def mayStartIn (part : List Char) : List Char → Bool
  | [] => false
  | c :: cs => part.isPrefixOf (c :: cs) || (c :: cs).isPrefixOf part || mayStartIn part cs

/-- Where no occurrence starts in the front, all of them lie behind it. -/
theorem infix_append_iff {part front : List Char} (apart : ¬ mayStartIn part front)
    (back : List Char) : part <:+: front ++ back ↔ part <:+: back := by
  induction front with
  | nil => rfl
  | cons c front ih =>
    simp only [mayStartIn, Bool.or_eq_true, not_or, List.isPrefixOf_iff_prefix] at apart
    obtain ⟨⟨inside, across⟩, later⟩ := apart
    rw [List.cons_append, List.infix_cons_iff, ih later]
    refine ⟨?_, .inr⟩
    rintro (first | behind)
    · -- of two fronts of the same text one starts the other
      have own : c :: front <+: c :: (front ++ back) := List.prefix_append (c :: front) back
      rcases List.prefix_or_prefix_of_prefix first own with h | h
      · exact absurd h inside
      · exact absurd h across
    · exact behind

def systemMetrics : List Metric := [
  .openFileDescriptors, .systemCpuUsage, .systemStorageUsage, .systemRamUsage, .systemIsDown,
  .metricNotFound, .invalidUrl]

namespace Metric

/-- The marker is part of the stems of these metrics. In the other stems none of its occurrences
starts, nor in the character that joins a stem to an origin. -/
def MarkedBy (marker : String) (metrics : List Metric) : Prop :=
  ∀ m ∈ all, if m ∈ metrics then marker.toList.isPrefixOf m.keyStem.toList
    else ¬ mayStartIn marker.toList (m.keyStem.toList ++ ['_'])

theorem markedBy_system : MarkedBy "alert_system" systemMetrics := by
  unfold MarkedBy
  decide

theorem markedBy_github : MarkedBy "alert_github2" [.cannotAccessGithub] := by
  unfold MarkedBy
  decide

theorem MarkedBy.fieldKey_iff {marker : String} {metrics : List Metric}
    (h : MarkedBy marker metrics) (m : Metric) (origin : String) :
    marker.toList <:+: (m.fieldKey origin).toList ↔
      m ∈ metrics ∨ marker.toList <:+: origin.toList := by
  have joined : (m.fieldKey origin).toList = (m.keyStem.toList ++ ['_']) ++ origin.toList := by
    simp [fieldKey]
  have entry := h m (mem_all m)
  rw [joined]
  split at entry
  next own =>
    have stem : marker.toList <+: m.keyStem.toList := List.isPrefixOf_iff_prefix.mp entry
    have key := stem.trans (List.prefix_append m.keyStem.toList (['_'] ++ origin.toList))
    rw [← List.append_assoc] at key
    exact ⟨fun _ => .inl own, fun _ => key.isInfix⟩
  next foreign =>
    rw [infix_append_iff entry]
    exact ⟨.inr, fun h => h.resolve_left foreign⟩

end Metric

/-- What a reset leaves of a cell. -/
def Reset.leaves (r : Reset) (s : Stores) (hash field : String) : Option String :=
  ((Plan.reset r).evaluate s).2.snapshot.get? hash field

/-- Of the hashes that it covers, a reset takes the fields that it marks. -/
theorem Reset.leaves_of_covers {r : Reset} {hash : String} (covered : r.Covers hash) (s : Stores)
    (field : String) : (r.Marks field → r.leaves s hash field = none) ∧
      (¬ r.Marks field → r.leaves s hash field = s.snapshot.get? hash field) := by
  rw [leaves, Plan.evaluate_reset, Snapshot.get?_sweep, ← drops_iff_marks]
  have reached := reaches_iff_covers.mpr covered
  exact ⟨fun dropped => if_pos ⟨reached, dropped⟩, fun kept => if_neg fun h => kept h.2⟩

theorem Plan.exists_update {a : Alert} {m : Metric} (known : a.metric = m.identifier) :
    ∃ p, update a = .ok p ∧ ∀ s : Stores, (p.evaluate s).2 =
      ⟨s.history, s.snapshot.set ("hash_p1_" ++ a.parent) (m.fieldKey a.origin)
        (stateText a.severity.name a.message)⟩ := by
  rw [update, known, Metric.fieldKeyOf_identifier, ← LatestState.toJson_ofAlert]
  exact ⟨_, rfl, fun s => rfl⟩

/-- Resets hit exactly their metrics, whatever the origins are: a marker is in the fields of its own
metrics and of origins that have it in themselves. So a reset drops these from the states that
alerts left in the chains that it covers, and keeps all others. -/
theorem resets_hit_their_metrics (m : Metric) (origin : String) :
    ("alert_system".toList <:+: (m.fieldKey origin).toList ↔
      m ∈ systemMetrics ∨ "alert_system".toList <:+: origin.toList) ∧
    ("alert_github2".toList <:+: (m.fieldKey origin).toList ↔
      m = .cannotAccessGithub ∨ "alert_github2".toList <:+: origin.toList) ∧
    (∀ a : Alert, a.metric = m.identifier → a.origin = origin →
      ∃ p, Plan.update a = .ok p ∧ ∀ s : Stores, (p.evaluate s).2 =
        ⟨s.history, s.snapshot.set ("hash_p1_" ++ a.parent) (m.fieldKey origin)
          (stateText a.severity.name a.message)⟩) ∧
    ∀ (chain : String) (s : Stores),
      (∀ r ∈ [Reset.systemOfAllChains, .systemOfChain chain],
        (m ∈ systemMetrics ∨ "alert_system".toList <:+: origin.toList →
          r.leaves s ("hash_p1_" ++ chain) (m.fieldKey origin) = none) ∧
        (¬ (m ∈ systemMetrics ∨ "alert_system".toList <:+: origin.toList) →
          r.leaves s ("hash_p1_" ++ chain) (m.fieldKey origin) =
            s.snapshot.get? ("hash_p1_" ++ chain) (m.fieldKey origin))) ∧
      (m = .cannotAccessGithub ∨ "alert_github2".toList <:+: origin.toList →
        Reset.githubOfAllChains.leaves s ("hash_p1_" ++ chain) (m.fieldKey origin) = none) ∧
      (¬ (m = .cannotAccessGithub ∨ "alert_github2".toList <:+: origin.toList) →
        Reset.githubOfAllChains.leaves s ("hash_p1_" ++ chain) (m.fieldKey origin) =
          s.snapshot.get? ("hash_p1_" ++ chain) (m.fieldKey origin)) := by
  have system := Metric.markedBy_system.fieldKey_iff m origin
  have github : "alert_github2".toList <:+: (m.fieldKey origin).toList ↔
      m = .cannotAccessGithub ∨ "alert_github2".toList <:+: origin.toList := by
    rw [Metric.markedBy_github.fieldKey_iff, List.mem_singleton]
  refine ⟨system, github, ?_, ?_⟩
  · rintro a known rfl
    exact Plan.exists_update known
  · intro chain s
    have start : "hash_p1_".toList <+: ("hash_p1_" ++ chain).toList := by
      rw [String.toList_append]
      exact List.prefix_append _ _
    rw [← system, ← github]
    refine ⟨?_, Reset.leaves_of_covers (r := .githubOfAllChains) start s (m.fieldKey origin)⟩
    intro r listed
    simp only [List.mem_cons, List.not_mem_nil, or_false] at listed
    rcases listed with rfl | rfl
    · exact Reset.leaves_of_covers (r := .systemOfAllChains) start s (m.fieldKey origin)
    · exact Reset.leaves_of_covers (r := .systemOfChain chain) rfl s (m.fieldKey origin)

/-- An origin with the marker in it falls to a reset that is not about its metric. -/
example : .slashed ∉ systemMetrics ∧ (Reset.systemOfChain "chainX").leaves ⟨.empty,
    Snapshot.empty.set "hash_p1_chainX" "alert_node5_alert_system" "old"⟩ "hash_p1_chainX"
      "alert_node5_alert_system" = none := by
  decide +kernel

end AlertLedger
