import AlertLedger.Proofs.MessageRun
import AlertLedger.Proofs.ResetRules

namespace AlertLedger

/-- The compact JSON of a severity and a message. -/
def stateText (severity message : String) : String :=
  .ofList ('{' :: Json.commaSeparated [
    Json.textChars "severity" ++ ':' :: Json.textChars severity,
    Json.textChars "message" ++ ':' :: Json.textChars message] ++ ['}'])

/-- What an alert leaves in the cells that it touches: its state in the cell of its metric and
origin, or nothing in those that it resets. -/
inductive Alert.Leaves (a : Alert) : (hash field : String) → Option String → Prop
  | state {m : Metric} (ordinary : a.severity ≠ .internal) (known : m.identifier = a.metric) :
      a.Leaves ("hash_p1_" ++ a.parent) (m.fieldKey a.origin)
        (some (stateText a.severity.name a.message))
  | nothing {r : Reset} {hash field : String} (orders : a.Orders r) (covered : r.Covers hash)
      (marked : r.Marks field) : a.Leaves hash field none

/-- A message touches a cell through the alert that it brings. -/
def Touches (body : Bytes) (hash field : String) : Prop :=
  ∃ a v, Alert.decode body = .ok a ∧ a.Leaves hash field v

/-- A message that asks nothing of the snapshot: it is no alert, or it is one about a metric that is
not known, or an internal one that orders no reset. -/
inductive Idle (body : Bytes) : Prop
  | undecodable (broken : ∀ a, Alert.decode body ≠ .ok a)
  | unknown {a : Alert} (decoded : Alert.decode body = .ok a) (ordinary : a.severity ≠ .internal)
      (unknown : ∀ m : Metric, m.identifier ≠ a.metric)
  | unrecognised {a : Alert} (decoded : Alert.decode body = .ok a)
      (internal : a.severity = .internal) (other : (a.code.number, a.origin) ∉ resetPairs)

theorem LatestState.toJson_ofAlert (a : Alert) :
    (LatestState.ofAlert a).toJson = stateText a.severity.name a.message := by
  simp only [LatestState.toJson, Json.recordChars, LatestState.shape, List.map]
  rfl

theorem Alert.severity_ne_internal_iff {a : Alert} :
    a.severity ≠ .internal ↔ a.isInternal = false := by
  simp [isInternal]

namespace Snapshot

variable {s : Snapshot} {a : Alert} {hash field : String}

theorem get?_afterAlert_of_leaves {v : Option String} (h : a.Leaves hash field v) :
    (s.afterAlert a).get? hash field = v := by
  unfold afterAlert
  cases h with
  | state ordinary known =>
    rw [Alert.severity_ne_internal_iff] at ordinary
    simp only [ordinary, Bool.false_eq_true, if_false]
    rw [← known, Metric.fieldKeyOf_identifier, LatestState.toJson_ofAlert]
    simp [chainHash, chainHashStem]
  | nothing orders covered marked =>
    have asked := Reset.ofAlert?_eq_some_iff.mpr orders
    rw [if_pos (Reset.isInternal_of_ofAlert? asked), asked]
    simp [Reset.reaches_iff_covers.mpr covered, Reset.drops_iff_marks.mpr marked]

theorem get?_afterAlert_of_not_leaves (h : ∀ v, ¬ a.Leaves hash field v) :
    (s.afterAlert a).get? hash field = s.get? hash field := by
  unfold afterAlert
  split
  next internal =>
    split
    next r orders =>
      rw [get?_sweep, if_neg]
      rintro ⟨reached, dropped⟩
      exact h none (.nothing (Reset.ofAlert?_eq_some_iff.mp orders)
        (Reset.reaches_iff_covers.mp reached) (Reset.drops_iff_marks.mp dropped))
    next => rfl
  next ordinary =>
    split
    next key hk =>
      rw [get?_set, if_neg]
      rintro ⟨rfl, rfl⟩
      obtain ⟨m, known, rfl⟩ := Metric.fieldKeyOf_eq_ok_iff.mp hk
      exact h _ (.state (by simpa [Alert.isInternal] using ordinary) known)
    next => rfl

end Snapshot

namespace Stores

variable {capacity : UInt32} {s : Stores} {body : Bytes} {bodies : List Bytes}
  {hash field : String}

theorem get?_afterMessage_of_leaves {a : Alert} {v : Option String}
    (decoded : Alert.decode body = .ok a) (h : a.Leaves hash field v) :
    (s.afterMessage capacity body).snapshot.get? hash field = v := by
  rw [afterMessage_eq, decoded]
  exact Snapshot.get?_afterAlert_of_leaves h

theorem get?_afterMessage_of_not_touches (h : ¬ Touches body hash field) :
    (s.afterMessage capacity body).snapshot.get? hash field = s.snapshot.get? hash field := by
  rw [afterMessage_eq]
  cases decoded : Alert.decode body with
  | error e => rfl
  | ok a =>
    apply Snapshot.get?_afterAlert_of_not_leaves
    intro v leaves
    exact h ⟨a, v, decoded, leaves⟩

theorem get?_afterMessages_of_not_touches (h : ∀ body ∈ bodies, ¬ Touches body hash field) :
    (s.afterMessages capacity bodies).snapshot.get? hash field = s.snapshot.get? hash field := by
  induction bodies generalizing s with
  | nil => rfl
  | cons body rest ih =>
    show ((s.afterMessage capacity body).afterMessages capacity rest).snapshot.get? hash field = _
    rw [ih fun b hb => h b (List.mem_cons_of_mem _ hb)]
    exact get?_afterMessage_of_not_touches (h body List.mem_cons_self)

end Stores

theorem Idle.not_touches {body : Bytes} (idle : Idle body) (hash field : String) :
    ¬ Touches body hash field := by
  rintro ⟨a, v, decoded, leaves⟩
  cases idle with
  | undecodable broken => exact broken a decoded
  | unknown decoded' ordinary unknown =>
    obtain rfl := Except.ok.inj (decoded.symm.trans decoded')
    cases leaves with
    | state _ known => exact unknown _ known
    | nothing orders => exact ordinary orders.pair_mem.1
  | unrecognised decoded' internal other =>
    obtain rfl := Except.ok.inj (decoded.symm.trans decoded')
    cases leaves with
    | state ordinary => exact ordinary internal
    | nothing orders => exact other orders.pair_mem.2

/-- The snapshot is exact: each cell holds what the last message that touches it left there, and
its first value if there is no such message. -/
theorem snapshot_exact (capacity : UInt32) (s : Stores) (bodies : List Bytes) :
    (∀ before body after a hash field v, bodies = before ++ body :: after →
      Alert.decode body = .ok a → a.Leaves hash field v →
      (∀ later ∈ after, ¬ Touches later hash field) →
      (s.afterMessages capacity bodies).snapshot.get? hash field = v) ∧
    (∀ hash field, (∀ body ∈ bodies, ¬ Touches body hash field) →
      (s.afterMessages capacity bodies).snapshot.get? hash field = s.snapshot.get? hash field) ∧
    (∀ body, Idle body → (s.afterMessage capacity body).snapshot = s.snapshot) ∧
    ∀ start hash, hash ∈ (s.afterMessages capacity bodies).snapshot.hashesStarting start ↔
      start.toList <+: hash.toList ∧
        ∃ field v, (s.afterMessages capacity bodies).snapshot.get? hash field = some v := by
  refine ⟨?_, ?_, ?_, ?_⟩
  · rintro before body after a hash field v rfl decoded leaves untouched
    rw [Stores.afterMessages_append]
    show (((s.afterMessages capacity before).afterMessage capacity body).afterMessages capacity
      after).snapshot.get? hash field = v
    rw [Stores.get?_afterMessages_of_not_touches untouched]
    exact Stores.get?_afterMessage_of_leaves decoded leaves
  · intro hash field untouched
    exact Stores.get?_afterMessages_of_not_touches untouched
  · intro body idle
    apply Snapshot.ext_get?
    intro hash field
    exact Stores.get?_afterMessage_of_not_touches (idle.not_touches hash field)
  · intro start hash
    simp only [Snapshot.mem_hashesStarting_iff, Option.isSome_iff_exists]

end AlertLedger
