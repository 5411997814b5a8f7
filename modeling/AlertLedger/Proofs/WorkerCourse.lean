import AlertLedger.Confirmation
import AlertLedger.Worker

namespace AlertLedger

/-- A delivery that a worker took, with the stores as it found them. -/
structure Visit where
  delivery : Delivery
  found : Stores

namespace Worker

variable (w : Worker)

def intake (v : Visit) : Except IntakeError Alert × StoreSession :=
  takeIn (StoreSession.access v.delivery.fails) w.capacity v.delivery.body (.start v.found)

/-- All that is seen of a delivery: the store calls for its message, one acknowledgement, and then a
heartbeat exactly if the message was taken in and the acknowledgement succeeded. -/
def eventsOf (v : Visit) : List WorkerEvent :=
  (w.intake v).2.calls.map .store ++
    (if v.delivery.ackError = none then .acked else .ackFailed) ::
      if (w.intake v).1.isOk ∧ v.delivery.ackError = none then
        [.published (heartbeatPayload w.component v.delivery.clock)]
      else []

/-- Nothing happened at this delivery that stops the worker. Neither a message that fails nor a
heartbeat that is refused does. -/
def Harmless (v : Visit) : Prop :=
  v.delivery.ackError = none ∧ ((w.intake v).1.isOk → ∀ e, v.delivery.publication ≠ .broken e)

def stopRequested (v : Visit) : Bool := v.delivery.requestsStop (w.eventsOf v)

/-- What the worker sees when it looks for a request to stop, behind these deliveries. -/
def stopSeen (stopping : Bool) (visits : List Visit) : Bool :=
  (visits.getLast?.map w.stopRequested).getD stopping

/-- Each delivery finds the stores as the one before left them. -/
def Successive : Stores → List Visit → Stores → Prop
  | s, [], final => final = s
  | s, v :: vs, final => v.found = s ∧ Successive (w.intake v).2.stores vs final

/-- Why a worker stops behind the deliveries that it took. -/
inductive Ending (stopping : Bool) (visits : List Visit) (rest : List Arrival) :
    Except WorkerError Unit → Prop
  | stopped (harmless : ∀ v ∈ visits, w.Harmless v) (seen : w.stopSeen stopping visits = true) :
      Ending stopping visits rest (.ok ())
  | silence {more : List Arrival} (harmless : ∀ v ∈ visits, w.Harmless v)
      (unseen : w.stopSeen stopping visits = false) (next : rest = .silence :: more) :
      Ending stopping visits rest (.ok ())
  | broken {e : BrokerError} {more : List Arrival} (harmless : ∀ v ∈ visits, w.Harmless v)
      (unseen : w.stopSeen stopping visits = false) (next : rest = .broken e :: more) :
      Ending stopping visits rest (.error (.broker e))
  | closed (harmless : ∀ v ∈ visits, w.Harmless v)
      (unseen : w.stopSeen stopping visits = false) (next : rest = []) :
      Ending stopping visits rest (.error .subscriptionClosed)
  | ackFailed {v : Visit} {e : BrokerError} (last : visits.getLast? = some v)
      (failed : v.delivery.ackError = some e) : Ending stopping visits rest (.error (.ack e))
  | heartbeatBroken {v : Visit} {e : BrokerError} (last : visits.getLast? = some v)
      (acked : v.delivery.ackError = none) (takenIn : (w.intake v).1.isOk)
      (broke : v.delivery.publication = .broken e) :
      Ending stopping visits rest (.error (.heartbeat (.publish e)))

/-- The course of work that was done on what arrived: the deliveries that were taken, and what was
left. -/
structure Course (stopping : Bool) (arrivals : List Arrival) (s : Stores) (done : Work Unit)
    (visits : List Visit) (rest : List Arrival) : Prop where
  inOrder : arrivals = visits.map (fun v => .delivery v.delivery) ++ rest
  successive : w.Successive s visits done.stores
  events : done.events = visits.flatMap w.eventsOf
  began : visits ≠ [] → stopping = false
  wentOn : ∀ v ∈ visits.dropLast, w.Harmless v ∧ w.stopRequested v = false
  ending : w.Ending stopping visits rest done.result

variable {w}

theorem handle_stores (d : Delivery) (s : Stores) :
    (w.handle d s).stores = (w.intake ⟨d, s⟩).2.stores := by
  unfold handle
  dsimp only
  split <;> rfl

theorem handle_events (d : Delivery) (s : Stores) :
    (w.handle d s).events = w.eventsOf ⟨d, s⟩ := by
  unfold handle eventsOf
  dsimp only
  split
  next e failed => simp [intake, failed]
  next acked =>
    unfold report
    cases taken : (w.intake ⟨d, s⟩).1.isOk with
    | false => simp_all [intake]
    | true =>
      cases hp : d.publication <;> simp_all [intake, Publication.result]

/-- A delivery ends the run in exactly three ways, or not at all. -/
theorem handle_result (d : Delivery) (s : Stores) :
    (∃ h, (w.handle d s).result = .ok h ∧ w.Harmless ⟨d, s⟩) ∨
      (∃ e, (w.handle d s).result = .error (.ack e) ∧ d.ackError = some e) ∨
      ∃ e, (w.handle d s).result = .error (.heartbeat (.publish e)) ∧ d.ackError = none ∧
        (w.intake ⟨d, s⟩).1.isOk ∧ d.publication = .broken e := by
  unfold handle Harmless
  dsimp only
  split
  next e failed => exact .inr (.inl ⟨e, rfl, failed⟩)
  next acked =>
    unfold report
    cases taken : (w.intake ⟨d, s⟩).1.isOk with
    | false => exact .inl ⟨.failed, by simp_all [intake], acked, by simp⟩
    | true =>
      cases hp : d.publication with
      | confirmed =>
        exact .inl ⟨.processed true, by simp_all [intake, Publication.result], acked, by simp⟩
      | refused reason =>
        exact .inl ⟨.processed false, by simp_all [intake, Publication.result], acked, by simp⟩
      | broken e =>
        exact .inr (.inr ⟨e, by simp_all [intake, Publication.result], acked, rfl, rfl⟩)

theorem stopSeen_cons (stopping : Bool) (v : Visit) (visits : List Visit) :
    w.stopSeen stopping (v :: visits) = w.stopSeen (w.stopRequested v) visits := by
  rw [stopSeen, stopSeen, List.getLast?_cons]
  cases visits.getLast? <;> rfl

theorem getLast?_visit_cons {v u : Visit} {visits : List Visit} (h : visits.getLast? = some u) :
    (v :: visits).getLast? = some u := by
  rw [List.getLast?_cons, h]
  rfl

theorem Ending.cons {v : Visit} {visits : List Visit} {rest : List Arrival}
    {result : Except WorkerError Unit} (harmless : w.Harmless v) (stopping : Bool)
    (later : w.Ending (w.stopRequested v) visits rest result) :
    w.Ending stopping (v :: visits) rest result := by
  cases later with
  | stopped others seen =>
    exact .stopped (List.forall_mem_cons.mpr ⟨harmless, others⟩) (by rwa [stopSeen_cons])
  | silence others unseen next =>
    exact .silence (List.forall_mem_cons.mpr ⟨harmless, others⟩) (by rwa [stopSeen_cons]) next
  | broken others unseen next =>
    exact .broken (List.forall_mem_cons.mpr ⟨harmless, others⟩) (by rwa [stopSeen_cons]) next
  | closed others unseen next =>
    exact .closed (List.forall_mem_cons.mpr ⟨harmless, others⟩) (by rwa [stopSeen_cons]) next
  | ackFailed last failed => exact .ackFailed (getLast?_visit_cons last) failed
  | heartbeatBroken last acked takenIn broke =>
    exact .heartbeatBroken (getLast?_visit_cons last) acked takenIn broke

theorem Course.ended {stopping : Bool} {arrivals : List Arrival} {s : Stores}
    {result : Except WorkerError Unit} (ending : w.Ending stopping [] arrivals result) :
    w.Course stopping arrivals s ⟨result, s, []⟩ [] arrivals :=
  ⟨rfl, rfl, rfl, by simp, by simp, ending⟩

theorem Course.single {d : Delivery} {rest : List Arrival} {s : Stores}
    {result : Except WorkerError Unit} (ending : w.Ending false [⟨d, s⟩] rest result) :
    w.Course false (.delivery d :: rest) s
      ⟨result, (w.handle d s).stores, (w.handle d s).events⟩ [⟨d, s⟩] rest :=
  ⟨rfl, ⟨rfl, handle_stores d s⟩, by simp [handle_events], by simp, by simp, ending⟩

theorem Course.cons {d : Delivery} {arrivals rest : List Arrival} {s : Stores} {more : Work Unit}
    {visits : List Visit} (harmless : w.Harmless ⟨d, s⟩)
    (later : w.Course (w.stopRequested ⟨d, s⟩) arrivals (w.handle d s).stores more visits rest) :
    w.Course false (.delivery d :: arrivals) s
      ⟨more.result, more.stores, (w.handle d s).events ++ more.events⟩ (⟨d, s⟩ :: visits) rest := by
  refine ⟨by simp [later.inOrder], ⟨rfl, ?_⟩, by simp [handle_events, later.events], by simp, ?_,
    later.ending.cons harmless false⟩
  · rw [← handle_stores]
    exact later.successive
  · intro v hv
    cases hvs : visits with
    | nil => simp [hvs] at hv
    | cons u us =>
      -- there was a next delivery, so no stop was requested before it
      have unseen := later.began (by simp [hvs])
      rw [hvs, List.dropLast_cons_of_ne_nil (by simp), ← hvs] at hv
      rcases List.mem_cons.mp hv with rfl | hv
      · exact ⟨harmless, unseen⟩
      · exact later.wentOn v hv

theorem run_stopping (arrivals : List Arrival) (s : Stores) :
    w.run true arrivals s = ⟨.ok (), s, []⟩ := by
  rw [run.eq_def]
  rfl

theorem run_of_ok {d : Delivery} {s : Stores} {h : Handled} (result : (w.handle d s).result = .ok h)
    (rest : List Arrival) :
    w.run false (.delivery d :: rest) s =
      let more := w.run (w.stopRequested ⟨d, s⟩) rest (w.handle d s).stores
      ⟨more.result, more.stores, (w.handle d s).events ++ more.events⟩ := by
  rw [run.eq_def, stopRequested, ← handle_events]
  simp [result]

theorem run_of_error {d : Delivery} {s : Stores} {e : WorkerError}
    (result : (w.handle d s).result = .error e) (rest : List Arrival) :
    w.run false (.delivery d :: rest) s =
      ⟨.error e, (w.handle d s).stores, (w.handle d s).events⟩ := by
  rw [run.eq_def]
  simp [result]

theorem run_course (stopping : Bool) (arrivals : List Arrival) (s : Stores) :
    ∃ visits rest, w.Course stopping arrivals s (w.run stopping arrivals s) visits rest := by
  induction arrivals generalizing stopping s with
  | nil =>
    cases stopping with
    | true => exact ⟨[], [], .ended (.stopped (by simp) rfl)⟩
    | false => exact ⟨[], [], .ended (.closed (by simp) rfl rfl)⟩
  | cons arrival arrivals ih =>
    cases stopping with
    | true =>
      rw [run_stopping]
      exact ⟨[], arrival :: arrivals, .ended (.stopped (by simp) rfl)⟩
    | false =>
      cases arrival with
      | broken e => exact ⟨[], _, .ended (.broken (by simp) rfl rfl)⟩
      | silence => exact ⟨[], _, .ended (.silence (by simp) rfl rfl)⟩
      | delivery d =>
        rcases handle_result d s with
          ⟨h, result, harmless⟩ | ⟨e, result, failed⟩ | ⟨e, result, acked, takenIn, broke⟩
        · obtain ⟨visits, rest, later⟩ := ih (w.stopRequested ⟨d, s⟩) (w.handle d s).stores
          rw [run_of_ok result]
          exact ⟨⟨d, s⟩ :: visits, rest, .cons harmless later⟩
        · rw [run_of_error result]
          exact ⟨[⟨d, s⟩], arrivals, .single (.ackFailed rfl failed)⟩
        · rw [run_of_error result]
          exact ⟨[⟨d, s⟩], arrivals, .single (.heartbeatBroken rfl acked takenIn broke)⟩

/-- A heartbeat that an exchange does not take in full is let go. -/
theorem handle_result_of_confirmation {v : Visit} {exchange : String} {c : Confirmation}
    (acked : v.delivery.ackError = none) (takenIn : (w.intake v).1.isOk)
    (answered : v.delivery.publication = c.publication exchange) :
    (w.handle v.delivery v.found).result = .ok (.processed (decide (c = .taken))) := by
  have takenIn : (takeIn (StoreSession.access v.delivery.fails) w.capacity v.delivery.body
      (.start v.found)).1.isOk = true := takenIn
  unfold handle report
  simp only [acked, takenIn, answered]
  cases c <;> rfl

variable (w)

end Worker

end AlertLedger
