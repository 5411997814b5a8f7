import AlertLedger.Intake
import AlertLedger.Proofs.PlanEvaluation

namespace AlertLedger

/-- The stores after a message was taken in, when they take every call. -/
def Stores.afterMessage (capacity : UInt32) (s : Stores) (body : Bytes) : Stores :=
  (takeIn (StoreSession.access noFailure) capacity body (.start s)).2.stores

/-- The stores after messages were taken in one after the other. Those that fail do not keep the
others out. -/
def Stores.afterMessages (capacity : UInt32) (s : Stores) (bodies : List Bytes) : Stores :=
  bodies.foldl (Stores.afterMessage capacity) s

def decodedAlerts (bodies : List Bytes) : List Alert :=
  bodies.filterMap fun body => (Alert.decode body).toOption

/-- The history keeps this alert: it is not internal, and its metric is known. -/
def Alert.isRecorded (a : Alert) : Bool :=
  !a.isInternal && Metric.all.any fun m => m.identifier == a.metric

/-- The alerts that messages bring into the history of a chain, in their order. -/
def recordedAlerts (chain : String) (bodies : List Bytes) : List Alert :=
  (decodedAlerts bodies).filter fun a => a.isRecorded && a.parent == chain

def History.afterAlert (capacity : UInt32) (h : History) (a : Alert) : History :=
  if a.isRecorded then h.push a.parent (.ofAlert a) a.timestamp capacity else h

def Snapshot.afterAlert (s : Snapshot) (a : Alert) : Snapshot :=
  if a.isInternal then
    match Reset.ofAlert? a with
    | some r => s.sweep r
    | none => s
  else
    match Metric.fieldKeyOf a.metric a.origin with
    | .ok field => s.set (chainHash a.parent) field (LatestState.ofAlert a).toJson
    | .error _ => s

@[simp] theorem decodedAlerts_append (front back : List Bytes) :
    decodedAlerts (front ++ back) = decodedAlerts front ++ decodedAlerts back :=
  List.filterMap_append

@[simp] theorem recordedAlerts_append (chain : String) (front back : List Bytes) :
    recordedAlerts chain (front ++ back) =
      recordedAlerts chain front ++ recordedAlerts chain back := by
  simp [recordedAlerts]

@[simp] theorem Stores.afterMessages_append (capacity : UInt32) (s : Stores)
    (front back : List Bytes) :
    s.afterMessages capacity (front ++ back) =
      (s.afterMessages capacity front).afterMessages capacity back :=
  List.foldl_append

theorem Alert.isRecorded_iff {a : Alert} :
    a.isRecorded ↔ a.isInternal = false ∧
      ∃ field, Metric.fieldKeyOf a.metric a.origin = .ok field := by
  have known : (Metric.all.any fun m => m.identifier == a.metric) ↔
      ∃ m : Metric, m.identifier = a.metric := by
    simp only [List.any_eq_true, beq_iff_eq]
    constructor
    · rintro ⟨m, _, hm⟩
      exact ⟨m, hm⟩
    · rintro ⟨m, hm⟩
      exact ⟨m, by cases m <;> decide, hm⟩
  simp only [isRecorded, Bool.and_eq_true, Bool.not_eq_true', known, Metric.fieldKeyOf_eq_ok_iff]
  refine and_congr_right fun _ => ⟨?_, ?_⟩
  · rintro ⟨m, hm⟩
    exact ⟨m.fieldKey a.origin, m, hm, rfl⟩
  · rintro ⟨_, m, hm, _⟩
    exact ⟨m, hm⟩

/-- What an alert asks of the snapshot, by the kind of the alert. -/
inductive UpkeepOf (a : Alert) : Except MetricError (Plan Change) → Prop
  | reset {r : Reset} (internal : a.isInternal = true) (orders : Reset.ofAlert? a = some r) :
      UpkeepOf a (.ok (Plan.reset r))
  | ignored (internal : a.isInternal = true) (orders : Reset.ofAlert? a = none) :
      UpkeepOf a (.ok (pure .none))
  | update {field : String} (ordinary : a.isInternal = false)
      (known : Metric.fieldKeyOf a.metric a.origin = .ok field) :
      UpkeepOf a (.ok (do
        Plan.call (.snapshot (.setField (chainHash a.parent) field (LatestState.ofAlert a).toJson))
        pure (.updated (chainHash a.parent) field)))
  | unknown {e : MetricError} (ordinary : a.isInternal = false)
      (unknown : Metric.fieldKeyOf a.metric a.origin = .error e) : UpkeepOf a (.error e)

theorem upkeepOf (a : Alert) : UpkeepOf a (Plan.upkeep a) := by
  unfold Plan.upkeep
  split
  next internal =>
    split
    next orders => exact .reset internal orders
    next orders => exact .ignored internal orders
  next ordinary =>
    have ordinary : a.isInternal = false := by simpa using ordinary
    unfold Plan.update
    split
    next unknown => exact .unknown ordinary unknown
    next known => exact .update ordinary known

theorem takeIn_noFailure {body : Bytes} {a : Alert} {p : Plan Change}
    (decoded : Alert.decode body = .ok a) (asked : Plan.upkeep a = .ok p) (capacity : UInt32)
    (s : StoreSession) :
    (takeIn (StoreSession.access noFailure) capacity body s).1 = .ok a ∧
      (takeIn (StoreSession.access noFailure) capacity body s).2.stores =
        ((Plan.record capacity a).evaluate (p.evaluate s.stores).2).2 := by
  obtain ⟨result, stores⟩ := p.perform_noFailure s
  simp only [takeIn, decoded, asked, runUpkeep]
  cases hp : p.perform (StoreSession.access noFailure) s with
  | mk taken after =>
    rw [hp] at result stores
    subst result
    obtain ⟨result', stores'⟩ := (Plan.record capacity a).perform_noFailure after
    simp only
    cases hr : (Plan.record capacity a).perform (StoreSession.access noFailure) after with
    | mk recorded final =>
      rw [hr] at result' stores'
      subst result'
      exact ⟨rfl, by rw [← stores]; exact stores'⟩

/-- Of stores that take every call, each is changed by the decoded alert on its own. -/
theorem Stores.afterMessage_eq (capacity : UInt32) (s : Stores) (body : Bytes) :
    s.afterMessage capacity body =
      match Alert.decode body with
      | .error _ => s
      | .ok a => ⟨s.history.afterAlert capacity a, s.snapshot.afterAlert a⟩ := by
  unfold afterMessage
  cases decoded : Alert.decode body with
  | error e => simp [takeIn, decoded, StoreSession.start]
  | ok a =>
    have kind := upkeepOf a
    cases asked : Plan.upkeep a with
    | error e =>
      rw [asked] at kind
      cases kind with
      | unknown ordinary unknown =>
        have unrecorded : a.isRecorded = false := by
          rw [Bool.eq_false_iff, ne_eq, Alert.isRecorded_iff]
          simp [unknown]
        simp [takeIn, decoded, asked, runUpkeep, StoreSession.start, History.afterAlert,
          Snapshot.afterAlert, unrecorded, ordinary, unknown]
    | ok p =>
      rw [(takeIn_noFailure decoded asked capacity (.start s)).2]
      rw [asked] at kind
      cases kind with
      | reset internal orders =>
        have unrecorded : a.isRecorded = false := by simp [Alert.isRecorded, internal]
        simp [Plan.evaluate_reset, Plan.record, internal, orders, StoreSession.start,
          History.afterAlert, Snapshot.afterAlert, unrecorded]
      | ignored internal orders =>
        have unrecorded : a.isRecorded = false := by simp [Alert.isRecorded, internal]
        simp [Plan.record, internal, orders, StoreSession.start, History.afterAlert,
          Snapshot.afterAlert, unrecorded]
      | update ordinary known =>
        have recorded : a.isRecorded = true := Alert.isRecorded_iff.mpr ⟨ordinary, _, known⟩
        simp only [Plan.record, ordinary, known, History.afterAlert, Snapshot.afterAlert, recorded,
          Bool.false_eq_true, if_true, if_false]
        rfl

theorem Stores.afterMessages_eq (capacity : UInt32) (s : Stores) (bodies : List Bytes) :
    s.afterMessages capacity bodies =
      ⟨(decodedAlerts bodies).foldl (History.afterAlert capacity) s.history,
        (decodedAlerts bodies).foldl Snapshot.afterAlert s.snapshot⟩ := by
  induction bodies generalizing s with
  | nil => rfl
  | cons body rest ih =>
    rw [afterMessages, List.foldl_cons, ← afterMessages, ih, afterMessage_eq]
    cases hd : Alert.decode body <;> simp [decodedAlerts, hd, Except.toOption]

end AlertLedger
