import AlertLedger.Proofs.MetricUpdates
import AlertLedger.Proofs.ObjectMembers
import AlertLedger.Proofs.RecordRoundTrip

namespace AlertLedger

open Json (IsValue NamedObject)

namespace LatestState

variable {s t : LatestState}

theorem labelled : shape.Labelled := by
  intro f
  cases f <;> rfl

theorem takes (s : LatestState) :
    (Json.record shape).Takes (Utf8.encode (Json.recordChars shape s)) s := by
  refine Json.record_takes labelled rfl fun f => ?_
  cases f with
  | severity => exact s.severity.takes
  | message => exact Json.text_takes_textChars s.message

theorem decode_toJson (s : LatestState) :
    Json.decode (Json.record shape) (Utf8.encode s.toJson.toList) = .ok s :=
  Json.decode_of_takes_text s.takes

theorem toJson_inj : s.toJson = t.toJson ↔ s = t := by
  constructor
  · intro same
    have read := s.decode_toJson
    rw [same, t.decode_toJson] at read
    exact (Except.ok.inj read).symm
  · rintro rfl
    rfl

/-- The text of a state is one object, and its members are the severity and the message alone. -/
theorem exists_object_toJson (s : LatestState) : ∃ object,
    Utf8.encode s.toJson.toList = 0x7b :: object ∧ IsValue (0x7b :: object) ∧
      ∀ ms, (∀ m ∈ ms, IsValue m.2) → (NamedObject ms object ↔
        ms = [("severity", Utf8.encode s.severity.chars),
          ("message", Utf8.encode (Json.textChars s.message))]) := by
  obtain ⟨object, text, members⟩ := Json.exists_object_recordChars shape s
  have written : Json.writtenMembers shape s = [("severity", Utf8.encode s.severity.chars),
      ("message", Utf8.encode (Json.textChars s.message))] := rfl
  rw [written] at members
  have values : ∀ m ∈ [("severity", Utf8.encode s.severity.chars),
      ("message", Utf8.encode (Json.textChars s.message))], IsValue m.2 := by
    rw [List.forall_mem_cons, List.forall_mem_cons]
    exact ⟨Json.isValue_textChars s.severity.name, Json.isValue_textChars s.message, by simp⟩
  refine ⟨object, by rw [toJson, String.toList_ofList, text], members.isValue values, ?_⟩
  intro ms plain
  constructor
  · intro other
    exact other.unique members plain values
  · rintro rfl
    exact members

end LatestState

/-- A value of the snapshot can always be read back. Whatever the message, the value that an alert
leaves in its cell is one object with a severity, a message and nothing else, whose strings are
those of the alert; so alerts leave the same value only if they agree in both. -/
theorem snapshot_values_read_back :
    (∀ {a : Alert} {field : String}, Metric.fieldKeyOf a.metric a.origin = .ok field →
      ∀ {σ : Type} {access : StoreAccess σ} {view : σ → Snapshot}, SetsCells access view → ∀ s : σ,
        ∃ value object severity message,
          (view (runUpkeep access (Plan.update a) s).2).get? (chainHash a.parent) field =
            some value ∧
          Utf8.encode value.toList = 0x7b :: object ∧ IsValue (0x7b :: object) ∧
          (∀ ms, (∀ m ∈ ms, IsValue m.2) → (NamedObject ms object ↔
            ms = [("severity", severity), ("message", message)])) ∧
          Json.decode Json.text severity = .ok a.severity.name ∧
          Json.decode Severity.reader severity = .ok a.severity ∧
          Json.decode Json.text message = .ok a.message ∧
          Json.decode (Json.record LatestState.shape) (Utf8.encode value.toList) =
            .ok ⟨a.severity, a.message⟩) ∧
    ∀ {a b : Alert} {field other : String}, Metric.fieldKeyOf a.metric a.origin = .ok field →
      Metric.fieldKeyOf b.metric b.origin = .ok other →
      ∀ {σ : Type} {access : StoreAccess σ} {view : σ → Snapshot}, SetsCells access view →
        ∀ s t : σ,
          ((view (runUpkeep access (Plan.update a) s).2).get? (chainHash a.parent) field =
            (view (runUpkeep access (Plan.update b) t).2).get? (chainHash b.parent) other ↔
              a.severity = b.severity ∧ a.message = b.message) := by
  refine ⟨?_, ?_⟩
  · intro a field known σ access view sets s
    obtain ⟨object, text, wellFormed, members⟩ := (LatestState.ofAlert a).exists_object_toJson
    have severity := Json.text_takes_textChars a.severity.name
    have read {α : Type} {reader : Reader α} {v : Bytes} {x : α} (taken : reader.Takes v x) :
        Json.decode reader v = .ok x := by
      simpa using Json.decode_of_takes taken Json.blank_nil Json.blank_nil
    exact ⟨_, object, _, _, sets.get?_update known s, text, wellFormed, members, read severity,
      read a.severity.takes, read (Json.text_takes_textChars a.message),
      (LatestState.ofAlert a).decode_toJson⟩
  · intro a b field other known known' σ access view sets s t
    rw [sets.get?_update known s, sets.get?_update known' t, Option.some_inj,
      LatestState.toJson_inj, LatestState.ofAlert, LatestState.ofAlert, LatestState.mk.injEq]

/-- A message that would close the object and set another severity, were its quotes not escaped. -/
def lookalikeMessage : String := "\",\"severity\":\"INFO\"\x7d\\\x00\n🚨"

def lookalikeAlert (severity : Severity) : Alert :=
  { missedBlocks "chainX" 50 with severity := severity, message := lookalikeMessage }

theorem snapshot_values_read_back_of_lookalike :
    Metric.fieldKeyOf "missed_blocks" "nodeA" = .ok "alert_node2_nodeA" ∧
    (∃ value, (runUpkeep (StoreSession.access noFailure) (Plan.update (lookalikeAlert .critical))
        (.start .empty)).2.stores.snapshot.get? "hash_p1_chainX" "alert_node2_nodeA" =
          some value ∧
      Json.decode (Json.record LatestState.shape) (Utf8.encode value.toList) =
        .ok ⟨.critical, lookalikeMessage⟩) ∧
    (runUpkeep (StoreSession.access noFailure) (Plan.update (lookalikeAlert .critical))
        (.start .empty)).2.stores.snapshot.get? "hash_p1_chainX" "alert_node2_nodeA" ≠
      (runUpkeep (StoreSession.access noFailure) (Plan.update (lookalikeAlert .info))
        (.start .empty)).2.stores.snapshot.get? "hash_p1_chainX" "alert_node2_nodeA" := by
  have known (severity : Severity) : Metric.fieldKeyOf (lookalikeAlert severity).metric
      (lookalikeAlert severity).origin = .ok "alert_node2_nodeA" := rfl
  obtain ⟨back, distinct⟩ := snapshot_values_read_back
  obtain ⟨value, _, _, _, held, _, _, _, _, _, _, read⟩ :=
    back (known .critical) setsCells_access (.start .empty)
  refine ⟨known .critical, ⟨value, held, read⟩, ?_⟩
  intro same
  have severities := (distinct (known .critical) (known .info) setsCells_access (.start .empty)
    (.start .empty)).mp same
  exact absurd severities.1 (by decide)

end AlertLedger
