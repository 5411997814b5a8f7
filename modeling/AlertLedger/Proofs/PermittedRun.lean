import AlertLedger.Proofs.FailedIntake
import AlertLedger.Proofs.Redelivery
import AlertLedger.Proofs.SnapshotKeys
import Mathlib.Algebra.GroupWithZero.Nat

namespace AlertLedger

namespace Metric

/-- Stores that take every call would turn away an alert of this name that is not internal. -/
def TurnsAway (name : String) : Prop :=
  ∃ (a : Alert) (s : StoreSession) (e : UpkeepError), a.isInternal = false ∧ a.metric = name ∧
    (runUpkeep (StoreSession.access noFailure) (Plan.upkeep a) s).1 = .error e

theorem find_eq_error_iff {name : String} {e : MetricError} :
    find name = .error e ↔ e = .unknown name ∧ ∀ m : Metric, m.identifier ≠ name := by
  have keyed : find name = .error e ↔ fieldKeyOf name "" = .error e := by
    rw [fieldKeyOf]
    cases find name <;> simp [Except.map]
  rw [keyed, fieldKeyOf_eq_error_iff]

theorem turnsAway_iff {name : String} : TurnsAway name ↔ ∀ m : Metric, m.identifier ≠ name := by
  constructor
  · rintro ⟨a, s, e, ordinary, rfl, failed⟩
    have kind := upkeepOf a
    cases asked : Plan.upkeep a with
    | error e =>
      rw [asked] at kind
      cases kind with
      | unknown _ unknown => exact (fieldKeyOf_eq_error_iff.mp unknown).2
    | ok p =>
      have taken := (p.perform_noFailure s).1
      rw [asked, runUpkeep] at failed
      split at failed
      next performed => simp [performed] at taken
      next => cases failed
  · intro none
    let a : Alert := ⟨.warning, ⟨1, ""⟩, "", "", "", name, .zero⟩
    have unknown : fieldKeyOf name "" = .error (.unknown name) :=
      fieldKeyOf_eq_error_iff.mpr ⟨rfl, none⟩
    have asked : Plan.upkeep a = .error (.unknown name) := by
      show Plan.update a = _
      rw [Plan.update, unknown]
    exact ⟨a, .start .empty, .metric (.unknown name), rfl, rfl, by rw [asked]; rfl⟩

theorem checkPermitted_eq_checkNames (names : List String) :
    checkPermitted names = checkNames names := by
  unfold checkPermitted
  rw [checkAll_eq_ok]

theorem checkNames_eq_ok_iff {names : List String} :
    checkNames names = .ok () ↔ ∀ name ∈ names, ∃ m : Metric, m.identifier = name := by
  induction names with
  | nil => simp [checkNames]
  | cons name names ih =>
    rw [checkNames, List.forall_mem_cons]
    cases found : find name with
    | error e =>
      have none := (find_eq_error_iff.mp found).2
      simp [none]
    | ok m =>
      have known := find_eq_ok_iff.mp found
      simpa [ih] using fun _ => ⟨m, known⟩

/-- The check reports the first name that it does not know. -/
theorem checkNames_eq_error_iff {names : List String} {e : MetricError} :
    checkNames names = .error e ↔ ∃ before name after, names = before ++ name :: after ∧
      (∀ n ∈ before, ∃ m : Metric, m.identifier = n) ∧ (∀ m : Metric, m.identifier ≠ name) ∧
        e = .unknown name := by
  induction names with
  | nil => simp [checkNames]
  | cons name names ih =>
    rw [checkNames]
    cases found : find name with
    | error f =>
      obtain ⟨rfl, none⟩ := find_eq_error_iff.mp found
      constructor
      · intro h
        cases h
        exact ⟨[], name, names, rfl, by simp, none, rfl⟩
      · rintro ⟨before, first, after, split, known, _, rfl⟩
        cases before with
        | nil =>
          cases split
          rfl
        | cons n before =>
          cases split
          obtain ⟨m, hm⟩ := known name List.mem_cons_self
          exact absurd hm (none m)
    | ok m =>
      have known := find_eq_ok_iff.mp found
      show checkNames names = .error e ↔ _
      rw [ih]
      constructor
      · rintro ⟨before, first, after, rfl, others, none, rfl⟩
        exact ⟨name :: before, first, after, rfl,
          List.forall_mem_cons.mpr ⟨⟨m, known⟩, others⟩, none, rfl⟩
      · rintro ⟨before, first, after, split, others, none, rfl⟩
        cases before with
        | nil =>
          cases split
          exact absurd known (none m)
        | cons n before =>
          cases split
          exact ⟨before, first, after, rfl, (List.forall_mem_cons.mp others).2, none, rfl⟩

end Metric

theorem OrderedTable.sum_setEntry {κ α : Type} [KeyOrder κ] [DecidableEq κ] (f : α → Nat) (k : κ)
    (v : α) {es : List (κ × α)} (ascending : es.Pairwise fun a b => a.1 < b.1) :
    ((setEntry k v es).map fun e => f e.2).sum + ((es.lookup k).map f).getD 0 =
      (es.map fun e => f e.2).sum + f v := by
  induction es with
  | nil => simp [setEntry]
  | cons d ds ih =>
    obtain ⟨first, ascending⟩ := List.pairwise_cons.mp ascending
    have later := ih ascending
    rw [setEntry, lookup_cons_eq_ite]
    split
    next before =>
      have fresh : ds.lookup k = none := by
        rw [List.lookup_eq_none_iff]
        intro e he
        rw [bne_iff_ne]
        rintro rfl
        exact KeyOrder.irrefl _ (KeyOrder.trans before (first e he))
      have other : k ≠ d.1 := by
        rintro rfl
        exact KeyOrder.irrefl _ before
      simp only [if_neg other, fresh, List.map_cons, List.sum_cons, Option.map_none,
        Option.getD_none]
      omega
    next =>
      split
      next same =>
        simp only [List.map_cons, List.sum_cons, Option.map_some, Option.getD_some]
        omega
      next =>
        simp only [List.map_cons, List.sum_cons]
        omega

namespace History

/-- A sum over all pages of all chains. -/
def total (weight : Page → Nat) (h : History) : Nat :=
  (h.chains.entries.map fun e => (e.2.map weight).sum).sum

variable {weight : Page → Nat} {capacity : UInt32} {s : Summary} {t : Binary64}

theorem sum_pushPage (opening : weight (.opening s t) = 1)
    (push : ∀ p : Page, p.isOpen capacity → weight (p.push s t) = weight p + 1)
    (pages : List Page) :
    ((pushPage capacity s t pages).map weight).sum = (pages.map weight).sum + 1 := by
  induction pages with
  | nil => simp [pushPage, opening]
  | cons p ps ih =>
    rw [pushPage]
    split
    next isOpen =>
      simp only [List.map_cons, List.sum_cons, push p isOpen]
      omega
    next =>
      simp only [List.map_cons, List.sum_cons, ih]
      omega

theorem total_push (opening : weight (.opening s t) = 1)
    (push : ∀ p : Page, p.isOpen capacity → weight (p.push s t) = weight p + 1) (h : History)
    (chain : String) : (h.push chain s t capacity).total weight = h.total weight + 1 := by
  have replaced := OrderedTable.sum_setEntry (fun ps => (ps.map weight).sum) chain
    (pushPage capacity s t (h.pages chain)) h.chains.ascending
  have added := sum_pushPage opening push (h.pages chain)
  have before : ((h.chains.entries.lookup chain).map fun ps => (ps.map weight).sum).getD 0 =
      ((h.pages chain).map weight).sum := by
    unfold pages OrderedTable.get?
    cases h.chains.entries.lookup chain <;> rfl
  show ((OrderedTable.setEntry chain _ h.chains.entries).map _).sum = _
  rw [total]
  omega

end History

/-- A weight that grows by one with every alert on a page. -/
structure Page.Counts (weight : Page → Nat) : Prop where
  opening : ∀ s t, weight (.opening s t) = 1
  push : ∀ (p : Page) s t capacity, p.isOpen capacity → weight (p.push s t) = weight p + 1

theorem Page.counts_length : Counts fun p => p.alerts.length :=
  ⟨fun _ _ => rfl, fun p s _ _ _ => by simp [Page.push]⟩

/-- The number on a page that takes one more alert is below the capacity, so it does not pass 32
bits. -/
theorem Page.counts_count : Counts fun p => p.count.toNat := by
  refine ⟨fun _ _ => rfl, ?_⟩
  intro p s t capacity isOpen
  simp only [Page.isOpen, Bool.and_eq_true, decide_eq_true_eq, UInt32.lt_iff_toNat_lt] at isOpen
  have limit := capacity.toNat_lt
  have one : (1 : UInt32).toNat = 1 := rfl
  rw [Page.push, UInt32.toNat_add]
  omega

theorem History.total_afterAlerts {weight : Page → Nat} (counts : Page.Counts weight)
    (capacity : UInt32) (h : History) (alerts : List Alert) :
    (alerts.foldl (History.afterAlert capacity) h).total weight =
      h.total weight + alerts.countP (·.isRecorded) := by
  induction alerts generalizing h with
  | nil => rfl
  | cons a rest ih =>
    rw [List.foldl_cons, ih, List.countP_cons, afterAlert]
    split
    next recorded =>
      rw [total_push (counts.opening _ _) (fun p => counts.push p _ _ _)]
      omega
    next => rw [Nat.add_zero]

/-- The message brings an internal alert, or one about a metric of the list. -/
def Permits (names : List String) (body : Bytes) : Prop :=
  ∃ a, Alert.decode body = .ok a ∧ (a.isInternal ∨ a.metric ∈ names)

/-- The number of the messages that bring an alert which is not internal. -/
def ordinaryCount (bodies : List Bytes) : Nat := (decodedAlerts bodies).countP (!·.isInternal)

section

variable {names : List String}

theorem Alert.isRecorded_of_permitted {a : Alert} (accepted : Metric.checkPermitted names = .ok ())
    (permitted : a.isInternal ∨ a.metric ∈ names) : a.isRecorded = !a.isInternal := by
  rw [Metric.checkPermitted_eq_checkNames, Metric.checkNames_eq_ok_iff] at accepted
  cases internal : a.isInternal with
  | true => simp [isRecorded, internal]
  | false =>
    obtain ⟨m, hm⟩ := accepted a.metric (permitted.resolve_left (by simp [internal]))
    rw [Bool.not_false, isRecorded_iff, ← hm]
    exact ⟨internal, _, Metric.fieldKeyOf_identifier m a.origin⟩

theorem countP_isRecorded_of_permits (accepted : Metric.checkPermitted names = .ok ())
    {bodies : List Bytes} (permitted : ∀ body ∈ bodies, Permits names body) :
    (decodedAlerts bodies).countP (·.isRecorded) = ordinaryCount bodies := by
  apply List.countP_congr
  intro a ha
  obtain ⟨body, hb, decoded⟩ := List.mem_filterMap.mp ha
  obtain ⟨b, decoded', permitted⟩ := permitted body hb
  rw [decoded'] at decoded
  cases decoded
  rw [Alert.isRecorded_of_permitted accepted permitted]

namespace Worker

variable {w : Worker} {v : Visit}

theorem intake_of_permits (accepted : Metric.checkPermitted names = .ok ())
    (permitted : Permits names v.delivery.body) (sound : v.delivery.fails = noFailure) :
    (w.intake v).1.isOk := by
  obtain ⟨a, decoded, permitted⟩ := permitted
  have recorded := Alert.isRecorded_of_permitted accepted permitted
  have kind := upkeepOf a
  cases asked : Plan.upkeep a with
  | error e =>
    rw [asked] at kind
    cases kind with
    | unknown ordinary unknown =>
      rw [ordinary, Bool.not_false, Alert.isRecorded_iff] at recorded
      simp [unknown] at recorded
  | ok p =>
    have taken := (takeIn_noFailure decoded asked w.capacity (.start v.found)).1
    rw [intake, sound, taken]
    rfl

/-- A worker that nothing keeps from its deliveries takes all of them. -/
theorem Course.of_undisturbed {deliveries : List Delivery} {rest : List Arrival}
    {visits : List Visit} {s : Stores} {done : Work Unit}
    (calm : ∀ d ∈ deliveries, d.Undisturbed)
    (course : w.Course false (deliveries.map .delivery) s done visits rest) :
    visits.map (·.delivery) = deliveries ∧ rest = [] := by
  have arrived : ∀ arrival ∈ visits.map (fun v => Arrival.delivery v.delivery) ++ rest,
      ∃ d ∈ deliveries, .delivery d = arrival := by
    intro arrival ha
    rw [← course.inOrder] at ha
    exact List.mem_map.mp ha
  have undisturbed : ∀ v, visits.getLast? = some v → v.delivery.Undisturbed := by
    intro v last
    obtain ⟨d, hd, same⟩ := arrived (.delivery v.delivery)
      (List.mem_append_left _ (List.mem_map_of_mem (List.mem_of_getLast? last)))
    cases same
    exact calm v.delivery hd
  have empty : rest = [] := by
    have ending := course.ending
    generalize done.result = result at ending
    cases ending with
    | stopped _ seen =>
      unfold stopSeen at seen
      cases last : visits.getLast? with
      | none => simp [last] at seen
      | some v =>
        simp [last, stopRequested, Delivery.requestsStop, (undisturbed v last).unstopped] at seen
    | silence _ _ next =>
      obtain ⟨d, _, same⟩ := arrived .silence (by simp [next])
      cases same
    | @broken e _ _ _ next =>
      obtain ⟨d, _, same⟩ := arrived (.broken e) (by simp [next])
      cases same
    | closed _ _ next => exact next
    | ackFailed last failed => simp [(undisturbed _ last).acked] at failed
    | heartbeatBroken last _ _ broke => exact absurd broke ((undisturbed _ last).answered _)
  have order := course.inOrder
  rw [empty, List.append_nil] at order
  refine ⟨List.map_injective_iff.mpr (fun _ _ => Arrival.delivery.inj) ?_, empty⟩
  rw [order, List.map_map]
  rfl

end Worker

end

/-- Once the list of permitted metrics is accepted, no message that keeps to it fails: each is taken
in and reported by one heartbeat, and the history grows by one alert for each message that is not
internal. A list is refused for the first of its names that would have messages turned away. -/
theorem permitted_run_succeeds (w : Worker) (names : List String) :
    (Metric.checkPermitted names = .ok () → ∀ (s : Stores) (deliveries : List Delivery),
      (∀ d ∈ deliveries, d.Undisturbed ∧ d.publication = .confirmed ∧ Permits names d.body) →
      ∃ visits,
        w.Course false (deliveries.map .delivery) s (w.run false (deliveries.map .delivery) s)
          visits [] ∧
        visits.map (·.delivery) = deliveries ∧
        (∀ v ∈ visits, (w.intake v).1.isOk ∧
          (w.handle v.delivery v.found).result = .ok (.processed true) ∧
          w.eventsOf v = (w.intake v).2.calls.map .store ++
            [.acked, .published (heartbeatPayload w.component v.delivery.clock)]) ∧
        (w.run false (deliveries.map .delivery) s).stores.history.total (·.alerts.length) =
          s.history.total (·.alerts.length) + ordinaryCount (deliveries.map (·.body)) ∧
        (w.run false (deliveries.map .delivery) s).stores.history.total (·.count.toNat) =
          s.history.total (·.count.toNat) + ordinaryCount (deliveries.map (·.body))) ∧
    ∀ e, Metric.checkPermitted names = .error e ↔
      ∃ before name after, names = before ++ name :: after ∧
        (∀ n ∈ before, ¬ Metric.TurnsAway n) ∧ Metric.TurnsAway name ∧ e = .unknown name := by
  constructor
  · intro accepted s deliveries h
    obtain ⟨visits, rest, course⟩ := Worker.run_course (w := w) false (deliveries.map .delivery) s
    have calm : ∀ d ∈ deliveries, d.Undisturbed := fun d hd => (h d hd).1
    obtain ⟨all, rfl⟩ := course.of_undisturbed calm
    have grown {weight : Page → Nat} (counts : Page.Counts weight) :
        (w.run false (deliveries.map .delivery) s).stores.history.total weight =
          s.history.total weight + ordinaryCount (deliveries.map (·.body)) := by
      have permitted : ∀ body ∈ deliveries.map (·.body), Permits names body := by
        intro body hb
        obtain ⟨d, hd, rfl⟩ := List.mem_map.mp hb
        exact (h d hd).2.2
      rw [Worker.run_undisturbed calm, Stores.afterMessages_eq,
        ← countP_isRecorded_of_permits accepted permitted]
      exact History.total_afterAlerts counts w.capacity s.history _
    refine ⟨visits, course, all, ?_, grown Page.counts_length, grown Page.counts_count⟩
    intro v hv
    obtain ⟨calm, confirmed, permitted⟩ := h v.delivery (all ▸ List.mem_map_of_mem hv)
    have taken := Worker.intake_of_permits (w := w) accepted permitted calm.fails
    have answered : v.delivery.publication = Confirmation.taken.publication "" := confirmed
    refine ⟨taken, Worker.handle_result_of_confirmation calm.acked taken answered, ?_⟩
    rw [Worker.eventsOf, if_pos calm.acked, if_pos ⟨taken, calm.acked⟩]
  · intro e
    rw [Metric.checkPermitted_eq_checkNames, Metric.checkNames_eq_error_iff]
    simp only [Metric.turnsAway_iff, not_forall, not_not]

/-- An alert about a metric of the list, and an internal one of an unknown code and metric. -/
def permittedMessages : List Bytes := [
  missedBlocksMessage "WARNING" "chainX" "missed_blocks" "50",
  missedBlocksMessage "INTERNAL" "chainX" "no_metric" "11"]

/-- Stores that have alerts already take in both messages and record one of them. -/
theorem permitted_run_succeeds_beside_internal :
    Metric.checkPermitted ["slashed", "missed_blocks"] = .ok () ∧
      (∀ d ∈ permittedMessages.map (calmDelivery none), d.Undisturbed ∧
        d.publication = .confirmed ∧ Permits ["slashed", "missed_blocks"] d.body) ∧
      (alertWorker.run false ((permittedMessages.map (calmDelivery none)).map .delivery)
        (Stores.empty.afterMessages 2 twoMessages)).stores.history.total (·.alerts.length) =
          (Stores.empty.afterMessages 2 twoMessages).history.total (·.alerts.length) + 1 ∧
      Metric.checkPermitted ["slashed", "no_metric", "other"] = .error (.unknown "no_metric") := by
  have accepted : Metric.checkPermitted ["slashed", "missed_blocks"] = .ok () := by
    decide +kernel
  have permitted : ∀ d ∈ permittedMessages.map (calmDelivery none), d.Undisturbed ∧
      d.publication = .confirmed ∧ Permits ["slashed", "missed_blocks"] d.body := by
    have decoded : ∀ body ∈ permittedMessages, Permits ["slashed", "missed_blocks"] body := by
      have bring : ∀ body ∈ permittedMessages, (Alert.decode body).toOption.any fun a =>
          a.isInternal || decide (a.metric ∈ ["slashed", "missed_blocks"]) := by decide +kernel
      intro body hb
      have found := bring body hb
      cases decoded : Alert.decode body with
      | error e => simp [decoded, Except.toOption] at found
      | ok a => exact ⟨a, decoded, by simpa [decoded, Except.toOption] using found⟩
    intro d hd
    obtain ⟨body, hb, rfl⟩ := List.mem_map.mp hd
    exact ⟨⟨rfl, rfl, by simp [calmDelivery], fun _ => rfl⟩, rfl, decoded body hb⟩
  obtain ⟨_, _, _, _, grown, _⟩ := (permitted_run_succeeds alertWorker _).1 accepted
    (Stores.empty.afterMessages 2 twoMessages) _ permitted
  have ordinary : ordinaryCount ((permittedMessages.map (calmDelivery none)).map (·.body)) = 1 := by
    decide +kernel
  rw [ordinary] at grown
  refine ⟨accepted, permitted, grown, ?_⟩
  refine ((permitted_run_succeeds alertWorker _).2 _).mpr
    ⟨["slashed"], "no_metric", ["other"], rfl, ?_, ?_, rfl⟩
  · rw [List.forall_mem_singleton, Metric.turnsAway_iff]
    exact fun none => none .slashed rfl
  · rw [Metric.turnsAway_iff]
    intro m
    cases m <;> decide

end AlertLedger
