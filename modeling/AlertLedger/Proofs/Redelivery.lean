import AlertLedger.Proofs.HistoryBlocks
import AlertLedger.Proofs.SnapshotCells
import AlertLedger.Proofs.WorkerCourse

namespace AlertLedger

/-- What a broker knows of its messages: those that were acknowledged, each with the number of
acknowledgements that failed before, and those that wait. The first of these may have failed too. -/
structure Backlog where
  settled : List (Bytes × Nat)
  failures : Nat
  waiting : List Bytes

namespace Backlog

def ofMessages (messages : List Bytes) : Backlog := ⟨[], 0, messages⟩

/-- A message is delivered again exactly if its acknowledgement failed. -/
def follow (b : Backlog) : WorkerEvent → Backlog
  | .acked => ⟨b.settled ++ b.waiting.head?.toList.map (·, b.failures), 0, b.waiting.tail⟩
  | .ackFailed => { b with failures := b.failures + 1 }
  | .store _ | .published _ => b

def followAll (b : Backlog) (events : List WorkerEvent) : Backlog := events.foldl follow b

def messages (b : Backlog) : List Bytes := b.settled.map (·.1) ++ b.waiting

/-- The settled messages, each repeated once more for every failed acknowledgement. -/
def repeated (b : Backlog) : List Bytes :=
  b.settled.flatMap fun m => List.replicate (m.2 + 1) m.1

/-- The messages as workers came to see them. -/
def attempts (b : Backlog) : List Bytes :=
  b.repeated ++ b.waiting.head?.toList.flatMap (List.replicate b.failures)

end Backlog

def Arrival.body? : Arrival → Option Bytes
  | .delivery d => some d.body
  | .broken _ | .silence => none

/-- Workers that take messages from one broker to the same stores, each started after the one before
has stopped for whatever reason. A worker is offered the waiting messages in their order. -/
inductive Restarts (capacity : UInt32) (messages : List Bytes) : Backlog → Stores → Prop
  | start : Restarts capacity messages (.ofMessages messages) .empty
  | next {b : Backlog} {s : Stores} {w : Worker} {arrivals : List Arrival} (stopping : Bool) :
      Restarts capacity messages b s → w.capacity = capacity →
      arrivals.filterMap Arrival.body? <+: b.waiting →
      (∀ d, .delivery d ∈ arrivals → d.fails = noFailure) →
      Restarts capacity messages (b.followAll (w.run stopping arrivals s).events)
        (w.run stopping arrivals s).stores

/-- Nothing fails at this delivery, and no stop is requested. -/
structure Delivery.Undisturbed (d : Delivery) : Prop where
  fails : d.fails = noFailure
  acked : d.ackError = none
  answered : ∀ e, d.publication ≠ .broken e
  unstopped : ∀ m, d.stops m = false

/-- The stores are as the attempts so far leave them, and no message is missing. -/
structure Backlog.Accounts (capacity : UInt32) (messages : List Bytes) (b : Backlog) (s : Stores) :
    Prop where
  complete : b.messages = messages
  stores : s = Stores.empty.afterMessages capacity b.attempts

namespace Backlog

variable {b : Backlog} {w : Worker} {d : Delivery} {s : Stores} {more : List Bytes}

theorem followAll_append (b : Backlog) (front back : List WorkerEvent) :
    b.followAll (front ++ back) = (b.followAll front).followAll back :=
  List.foldl_append

theorem followAll_calls (b : Backlog) (records : List CallRecord) :
    b.followAll (records.map .store) = b := by
  induction records with
  | nil => rfl
  | cons r rs ih => exact ih

theorem followAll_handle (b : Backlog) (d : Delivery) (s : Stores) :
    b.followAll (w.handle d s).events =
      b.follow (if d.ackError = none then .acked else .ackFailed) := by
  rw [Worker.handle_events, Worker.eventsOf, followAll_append, followAll_calls]
  show (b.follow _).followAll _ = _
  split <;> split <;> rfl

theorem messages_follow {event : WorkerEvent} (b : Backlog) :
    (b.follow event).messages = b.messages := by
  cases event with
  | acked => cases h : b.waiting <;> simp [messages, follow, h]
  | _ => rfl

/-- Whether it succeeds or not, an acknowledgement makes one more attempt of the first message. -/
theorem attempts_follow (waits : b.waiting = d.body :: more) :
    (b.follow (if d.ackError = none then .acked else .ackFailed)).attempts =
      b.attempts ++ [d.body] := by
  split
  next acked =>
    simp [attempts, repeated, follow, waits, List.replicate_succ']
  next failed =>
    simp [attempts, repeated, follow, waits, List.replicate_succ']

theorem waiting_follow_acked : (b.follow .acked).waiting = b.waiting.tail :=
  rfl

end Backlog

namespace Worker

variable {w : Worker} {b : Backlog} {d : Delivery} {s : Stores} {more messages : List Bytes}

theorem handle_stores_of_noFailure (sound : d.fails = noFailure) :
    (w.handle d s).stores = s.afterMessage w.capacity d.body := by
  rw [handle_stores, intake, sound]
  rfl

theorem accounts_handle (h : b.Accounts w.capacity messages s)
    (waits : b.waiting = d.body :: more) (sound : d.fails = noFailure) :
    (b.followAll (w.handle d s).events).Accounts w.capacity messages (w.handle d s).stores := by
  rw [Backlog.followAll_handle]
  constructor
  · rw [Backlog.messages_follow]
    exact h.complete
  · rw [Backlog.attempts_follow waits, Stores.afterMessages_append, ← h.stores,
      handle_stores_of_noFailure sound]
    rfl

theorem waiting_handle (harmless : w.Harmless ⟨d, s⟩) (waits : b.waiting = d.body :: more) :
    (b.followAll (w.handle d s).events).waiting = more := by
  rw [Backlog.followAll_handle, if_pos harmless.1, Backlog.waiting_follow_acked, waits]
  rfl

/-- Wherever a run ends, its stores and the broker's messages agree. -/
theorem accounts_run {stopping : Bool} {arrivals : List Arrival}
    (h : b.Accounts w.capacity messages s)
    (offered : arrivals.filterMap Arrival.body? <+: b.waiting)
    (sound : ∀ d, .delivery d ∈ arrivals → d.fails = noFailure) :
    (b.followAll (w.run stopping arrivals s).events).Accounts w.capacity messages
      (w.run stopping arrivals s).stores := by
  induction arrivals generalizing stopping b s with
  | nil => cases stopping <;> exact h
  | cons arrival arrivals ih =>
    cases stopping with
    | true =>
      rw [run_stopping]
      exact h
    | false =>
      cases arrival with
      | broken e => exact h
      | silence => exact h
      | delivery d =>
        obtain ⟨unoffered, split⟩ := offered
        have waits : b.waiting = d.body :: (arrivals.filterMap Arrival.body? ++ unoffered) :=
          split.symm
        have handled := accounts_handle (w := w) h waits (sound d List.mem_cons_self)
        -- the offer still fits the backlog if the worker goes on, which it does behind an
        -- acknowledgement only
        rcases handle_result (w := w) d s with
          ⟨_, result, harmless⟩ | ⟨_, result, _⟩ | ⟨_, result, _⟩
        · rw [run_of_ok result]
          show (b.followAll ((w.handle d s).events ++ _)).Accounts _ _ _
          rw [Backlog.followAll_append]
          apply ih handled
          · rw [waiting_handle harmless waits]
            exact ⟨unoffered, rfl⟩
          · intro e he
            exact sound e (List.mem_cons_of_mem _ he)
        · rw [run_of_error result]
          exact handled
        · rw [run_of_error result]
          exact handled

theorem run_undisturbed {deliveries : List Delivery} (h : ∀ d ∈ deliveries, d.Undisturbed) :
    (w.run false (deliveries.map .delivery) s).stores =
      s.afterMessages w.capacity (deliveries.map Delivery.body) := by
  induction deliveries generalizing s with
  | nil => rfl
  | cons d ds ih =>
    have calm := h d List.mem_cons_self
    have unstopped : w.stopRequested ⟨d, s⟩ = false := by
      simp [stopRequested, Delivery.requestsStop, calm.unstopped]
    rw [List.map_cons]
    rcases handle_result (w := w) d s with
      ⟨_, result, _⟩ | ⟨e, _, failed⟩ | ⟨e, _, _, _, broke⟩
    · rw [run_of_ok result, unstopped]
      show (w.run false (ds.map .delivery) (w.handle d s).stores).stores = _
      rw [ih fun u hu => h u (List.mem_cons_of_mem _ hu), handle_stores_of_noFailure calm.fails]
      rfl
    · simp [calm.acked] at failed
    · exact absurd broke (calm.answered e)

end Worker

theorem Restarts.accounts {capacity : UInt32} {messages : List Bytes} {b : Backlog} {s : Stores}
    (series : Restarts capacity messages b s) : b.Accounts capacity messages s := by
  induction series with
  | start => exact ⟨rfl, by cases messages <;> rfl⟩
  | next stopping _ sized offered sound ih =>
    subst sized
    exact Worker.accounts_run ih offered sound

namespace Stores

variable {capacity : UInt32} {s t : Stores}

theorem snapshot_afterMessage_congr (same : s.snapshot = t.snapshot) (body : Bytes) :
    (s.afterMessage capacity body).snapshot = (t.afterMessage capacity body).snapshot := by
  rw [afterMessage_eq, afterMessage_eq]
  cases Alert.decode body with
  | error e => exact same
  | ok a => exact congrArg (Snapshot.afterAlert · a) same

theorem snapshot_afterMessages_congr (same : s.snapshot = t.snapshot) (bodies : List Bytes) :
    (s.afterMessages capacity bodies).snapshot = (t.afterMessages capacity bodies).snapshot := by
  induction bodies generalizing s t with
  | nil => exact same
  | cons body rest ih => exact ih (snapshot_afterMessage_congr same body)

/-- A message that comes again leaves every cell as it is. -/
theorem snapshot_afterMessage_again (s : Stores) (body : Bytes) :
    ((s.afterMessage capacity body).afterMessage capacity body).snapshot =
      (s.afterMessage capacity body).snapshot := by
  apply Snapshot.ext_get?
  intro hash field
  by_cases touched : Touches body hash field
  · obtain ⟨a, v, decoded, leaves⟩ := touched
    rw [get?_afterMessage_of_leaves decoded leaves, get?_afterMessage_of_leaves decoded leaves]
  · exact get?_afterMessage_of_not_touches touched

theorem snapshot_afterMessages_replicate (s : Stores) (body : Bytes) (n : Nat) :
    (s.afterMessages capacity (List.replicate (n + 1) body)).snapshot =
      (s.afterMessage capacity body).snapshot := by
  induction n with
  | zero => rfl
  | succ n ih =>
    rw [List.replicate_succ', afterMessages_append]
    exact (snapshot_afterMessage_congr ih body).trans (snapshot_afterMessage_again s body)

theorem snapshot_afterMessages_repeated (s : Stores) (settled : List (Bytes × Nat)) :
    (s.afterMessages capacity (settled.flatMap fun m => List.replicate (m.2 + 1) m.1)).snapshot =
      (s.afterMessages capacity (settled.map (·.1))).snapshot := by
  induction settled generalizing s with
  | nil => rfl
  | cons m ms ih =>
    rw [List.flatMap_cons, afterMessages_append, ih]
    exact snapshot_afterMessages_congr (snapshot_afterMessages_replicate s m.1 m.2) _

end Stores

theorem recordedAlerts_replicate (chain : String) (body : Bytes) (n : Nat) :
    recordedAlerts chain (List.replicate n body) =
      (List.replicate n (recordedAlerts chain [body])).flatten := by
  induction n with
  | zero => rfl
  | succ n ih => rw [List.replicate_succ', List.replicate_succ', recordedAlerts_append, ih,
      List.flatten_concat]

theorem recordedAlerts_repeated (chain : String) (settled : List (Bytes × Nat)) :
    recordedAlerts chain (settled.flatMap fun m => List.replicate (m.2 + 1) m.1) =
      settled.flatMap fun m =>
        (List.replicate (m.2 + 1) (recordedAlerts chain [m.1])).flatten := by
  induction settled with
  | nil => rfl
  | cons m ms ih =>
    rw [List.flatMap_cons, List.flatMap_cons, recordedAlerts_append, ih, recordedAlerts_replicate]

theorem Backlog.attempts_of_drained {b : Backlog} (drained : b.waiting = []) :
    b.attempts = b.repeated := by
  simp [attempts, drained]

theorem Backlog.messages_of_drained {b : Backlog} (drained : b.waiting = []) :
    b.messages = b.settled.map (·.1) := by
  simp [messages, drained]

/-- Restarts and redelivery are safe: once all messages are settled, the snapshot is that of one
undisturbed run over them, and the history that of one undisturbed run in which every message comes
once more for each acknowledgement that failed. -/
theorem redelivery_safe {capacity : UInt32} (positive : 0 < capacity) {messages : List Bytes}
    {b : Backlog} {s : Stores} (series : Restarts capacity messages b s)
    (drained : b.waiting = []) :
    b.settled.map (·.1) = messages ∧
      (∀ (w : Worker) (deliveries : List Delivery), w.capacity = capacity →
        (∀ d ∈ deliveries, d.Undisturbed) → deliveries.map Delivery.body = messages →
        (w.run false (deliveries.map .delivery) .empty).stores.snapshot = s.snapshot) ∧
      (∀ (w : Worker) (deliveries : List Delivery), w.capacity = capacity →
        (∀ d ∈ deliveries, d.Undisturbed) → deliveries.map Delivery.body = b.repeated →
        (w.run false (deliveries.map .delivery) .empty).stores.history = s.history) ∧
      ∀ chain, (s.history.pages chain).flatMap (·.alerts) =
        (b.settled.flatMap fun m =>
          (List.replicate (m.2 + 1) (recordedAlerts chain [m.1])).flatten).map
            Summary.ofAlert := by
  obtain ⟨complete, stores⟩ := series.accounts
  rw [Backlog.messages_of_drained drained] at complete
  rw [Backlog.attempts_of_drained drained] at stores
  refine ⟨complete, ?_, ?_, ?_⟩
  · intro w deliveries sized calm bodies
    rw [Worker.run_undisturbed calm, sized, bodies, stores, ← complete]
    exact (Stores.snapshot_afterMessages_repeated .empty b.settled).symm
  · intro w deliveries sized calm bodies
    rw [Worker.run_undisturbed calm, sized, bodies, stores]
  · intro chain
    rw [stores, alerts_afterMessages positive, Backlog.repeated, recordedAlerts_repeated]

def alertWorker : Worker := ⟨"alert store", 2⟩

def calmDelivery (ackError : Option BrokerError) (body : Bytes) : Delivery :=
  ⟨body, noFailure, ackError, .confirmed, .ofInt 0, fun _ => false⟩

def twoMessages : List Bytes := [
  missedBlocksMessage "WARNING" "chainX" "missed_blocks" "50",
  missedBlocksMessage "WARNING" "chainX" "missed_blocks" "10"]

/-- A worker whose first acknowledgement fails. -/
def failedRun : Work Unit :=
  alertWorker.run false ((twoMessages.map (calmDelivery (some .cancelled))).map .delivery) .empty

def drainingRun : Work Unit :=
  alertWorker.run false ((twoMessages.map (calmDelivery none)).map .delivery) failedRun.stores

def drainedBacklog : Backlog :=
  ((Backlog.ofMessages twoMessages).followAll failedRun.events).followAll drainingRun.events

theorem restarts_drained : Restarts 2 twoMessages drainedBacklog drainingRun.stores := by
  have failed : Restarts 2 twoMessages
      ((Backlog.ofMessages twoMessages).followAll failedRun.events) failedRun.stores := by
    refine Restarts.next (w := alertWorker) false .start rfl ?_ ?_
    · decide +kernel
    · simp [calmDelivery]
  refine Restarts.next (w := alertWorker) false failed rfl ?_ ?_
  · decide +kernel
  · simp [calmDelivery]

theorem settled_drainedBacklog : drainedBacklog.settled =
    [(missedBlocksMessage "WARNING" "chainX" "missed_blocks" "50", 1),
      (missedBlocksMessage "WARNING" "chainX" "missed_blocks" "10", 0)] := by
  decide +kernel

/-- The alert of the message that came twice is recorded twice. -/
theorem redelivery_safe_after_failed_acknowledgement :
    (0 : UInt32) < 2 ∧ Restarts 2 twoMessages drainedBacklog drainingRun.stores ∧
      drainedBacklog.waiting = [] ∧
      (drainingRun.stores.history.pages "chainX").flatMap (·.alerts) =
        [missedBlocks "chainX" 50, missedBlocks "chainX" 50, missedBlocks "chainX" 10].map
          Summary.ofAlert := by
  have positive : (0 : UInt32) < 2 := by decide
  have drained : drainedBacklog.waiting = [] := by decide +kernel
  obtain ⟨_, _, _, alerts⟩ := redelivery_safe positive restarts_drained drained
  refine ⟨positive, restarts_drained, drained, ?_⟩
  rw [alerts, settled_drainedBacklog]
  decide +kernel

end AlertLedger
