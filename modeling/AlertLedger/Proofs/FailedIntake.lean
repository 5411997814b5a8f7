import AlertLedger.Proofs.SnapshotCells
import AlertLedger.Proofs.SweepCalls

namespace AlertLedger

/-- Takes in a message at stores where some calls fail. -/
def Stores.intake (fails : Nat → StoreCall → Bool) (capacity : UInt32) (body : Bytes) (s : Stores) :
    Except IntakeError Alert × StoreSession :=
  takeIn (StoreSession.access fails) capacity body (.start s)

def takenCalls (calls : List StoreCall) : List CallRecord := calls.map (⟨·, true⟩)

def Alert.stateCall (a : Alert) (field : String) : StoreCall :=
  .snapshot (.setField (chainHash a.parent) field (LatestState.ofAlert a).toJson)

def Alert.historyCall (a : Alert) (capacity : UInt32) : StoreCall :=
  .history ⟨a.parent, .ofAlert a, a.timestamp, capacity⟩

/-- A plan at stores that may fail: they take all its calls, or the first that they do not take ends
it. -/
inductive Plan.Ends {α : Type} (p : Plan α) (t : StoreSession) :
    Except StoreError α → StoreSession → Prop
  | done : Ends p t (.ok (p.evaluate t.stores).1)
      ⟨(p.evaluate t.stores).2, t.calls ++ takenCalls (p.calls t.stores)⟩
  | cut {front back : List StoreCall} {c : StoreCall}
      (split : p.calls t.stores = front ++ c :: back) :
      Ends p t (.error .lock)
        ⟨t.stores.afterCalls front, t.calls ++ takenCalls front ++ [⟨c, false⟩]⟩

theorem Plan.perform_ends {α : Type} (fails : Nat → StoreCall → Bool) (p : Plan α)
    (t : StoreSession) :
    p.Ends t (p.perform (StoreSession.access fails) t).1
      (p.perform (StoreSession.access fails) t).2 := by
  induction p generalizing t with
  | done a =>
    have ends := Ends.done (p := .done a) (t := t)
    rw [Plan.calls, takenCalls, List.map_nil, List.append_nil] at ends
    exact ends
  | ask c next ih =>
    by_cases failed : fails t.calls.length c = true
    · have split : (Plan.ask c next).calls t.stores =
          [] ++ c :: (next (t.stores.answer c).1).calls (t.stores.answer c).2 := rfl
      have ends := Ends.cut split
      simp only [perform, StoreSession.access, failed, if_true]
      simpa [takenCalls, Stores.afterCalls] using ends
    · have later := ih (t.stores.answer c).1 ⟨(t.stores.answer c).2, t.calls ++ [⟨c, true⟩]⟩
      simp only [perform, StoreSession.access, failed, Bool.false_eq_true, if_false]
      generalize (next (t.stores.answer c).1).perform _ _ = ended at later ⊢
      obtain ⟨result, after⟩ := ended
      cases later with
      | done =>
        have ends := Ends.done (p := .ask c next) (t := t)
        simpa [Plan.calls, Plan.evaluate, takenCalls] using ends
      | @cut front back d split =>
        have whole : (Plan.ask c next).calls t.stores = (c :: front) ++ d :: back :=
          congrArg (c :: ·) split
        have ends := Ends.cut whole
        simpa [takenCalls, Stores.afterCalls] using ends

theorem Plan.Ends.of_call {β : Type} {c : StoreCall} {f : c.Answer → β} {t : StoreSession}
    {result : Except StoreError β} {after : StoreSession}
    (h : (Plan.call c >>= fun answer => pure (f answer)).Ends t result after) :
    (∃ b, result = .ok b ∧ after = ⟨(t.stores.answer c).2, t.calls ++ [⟨c, true⟩]⟩) ∨
      result = .error .lock ∧ after = ⟨t.stores, t.calls ++ [⟨c, false⟩]⟩ := by
  cases h with
  | done => exact .inl ⟨_, rfl, rfl⟩
  | cut split =>
    have split : [c] = _ ++ _ :: _ := split
    rcases List.singleton_eq_append_iff.mp split with ⟨rfl, hc⟩ | ⟨_, hc⟩
    · obtain ⟨rfl, _⟩ := List.cons.inj hc
      exact .inr ⟨rfl, by simp [takenCalls, Stores.afterCalls]⟩
    · simp at hc

/-- All that may become of an alert at stores that may fail: what the snapshot's part comes to, the
result, and the stores with the calls that were made. -/
inductive IntakeEnds (capacity : UInt32) (a : Alert) (s : Stores) :
    Except UpkeepError Change → Except IntakeError Alert → StoreSession → Prop
  | unknown {e : MetricError} (ordinary : a.isInternal = false)
      (unknown : Metric.fieldKeyOf a.metric a.origin = .error e) :
      IntakeEnds capacity a s (.error (.metric e)) (.error (.snapshot (.metric e))) ⟨s, []⟩
  | ignored (internal : a.isInternal = true) (orders : Reset.ofAlert? a = none) :
      IntakeEnds capacity a s (.ok .none) (.ok a) ⟨s, []⟩
  | swept {r : Reset} {change : Change} (orders : Reset.ofAlert? a = some r) :
      IntakeEnds capacity a s (.ok change) (.ok a)
        ⟨{ s with snapshot := s.snapshot.sweep r }, takenCalls ((Plan.reset r).calls s)⟩
  | sweepCut {r : Reset} {front back : List StoreCall} {c : StoreCall}
      (orders : Reset.ofAlert? a = some r) (split : (Plan.reset r).calls s = front ++ c :: back) :
      IntakeEnds capacity a s (.error (.store .lock)) (.error (.snapshot (.store .lock)))
        ⟨s.afterCalls front, takenCalls front ++ [⟨c, false⟩]⟩
  | unsaved {field : String} (ordinary : a.isInternal = false)
      (known : Metric.fieldKeyOf a.metric a.origin = .ok field) :
      IntakeEnds capacity a s (.error (.store .lock)) (.error (.snapshot (.store .lock)))
        ⟨s, [⟨a.stateCall field, false⟩]⟩
  | unrecorded {field : String} {change : Change} (ordinary : a.isInternal = false)
      (known : Metric.fieldKeyOf a.metric a.origin = .ok field) :
      IntakeEnds capacity a s (.ok change) (.error (.history .lock))
        ⟨(s.answer (a.stateCall field)).2,
          [⟨a.stateCall field, true⟩, ⟨a.historyCall capacity, false⟩]⟩
  | recorded {field : String} {change : Change} (ordinary : a.isInternal = false)
      (known : Metric.fieldKeyOf a.metric a.origin = .ok field) :
      IntakeEnds capacity a s (.ok change) (.ok a)
        ⟨(((s.answer (a.stateCall field)).2).answer (a.historyCall capacity)).2,
          [⟨a.stateCall field, true⟩, ⟨a.historyCall capacity, true⟩]⟩

theorem intake_ends (fails : Nat → StoreCall → Bool) (capacity : UInt32) {body : Bytes} {a : Alert}
    (decoded : Alert.decode body = .ok a) (s : Stores) :
    IntakeEnds capacity a s
      (runUpkeep (StoreSession.access fails) (Plan.upkeep a) (.start s)).1
      (s.intake fails capacity body).1 (s.intake fails capacity body).2 := by
  have kind := upkeepOf a
  simp only [Stores.intake, takeIn, decoded]
  cases asked : Plan.upkeep a with
  | error e =>
    rw [asked] at kind
    cases kind with
    | unknown ordinary unknown => exact .unknown ordinary unknown
  | ok p =>
    rw [asked] at kind
    simp only [runUpkeep]
    have upkeep := p.perform_ends fails (.start s)
    generalize p.perform _ _ = ended at upkeep ⊢
    obtain ⟨result, after⟩ := ended
    dsimp only at upkeep
    have record := (Plan.record capacity a).perform_ends fails after
    cases kind with
    | ignored internal orders =>
      simp only [Plan.record, internal, if_true]
      cases upkeep with
      | done => exact .ignored internal orders
      | cut split => exact absurd split (by simp [Plan.calls, pure])
    | @reset r internal orders =>
      simp only [Plan.record, internal, if_true]
      cases upkeep with
      | done =>
        rw [Plan.evaluate_reset]
        exact .swept orders
      | cut split => exact .sweepCut orders split
    | @update field ordinary known =>
      rcases upkeep.of_call with ⟨change, rfl, rfl⟩ | ⟨rfl, rfl⟩
      · dsimp only
        generalize (Plan.record capacity a).perform _ _ = ended at record ⊢
        obtain ⟨result, final⟩ := ended
        simp only [Plan.record, ordinary, Bool.false_eq_true, if_false] at record
        rcases record.of_call with ⟨_, rfl, rfl⟩ | ⟨rfl, rfl⟩
        · exact .recorded ordinary known
        · exact .unrecorded ordinary known
      · exact .unsaved ordinary known

/-- The place of the call that ends a sweep: what was called before it, which hashes were visited,
and which were not. -/
inductive Reset.StopsAt (r : Reset) (s : Snapshot) :
    List StoreCall → StoreCall → (visited later : List String) → Prop
  | search {failing : StoreCall} (searching : r.search = [failing]) :
      StopsAt r s [] failing [] (r.hashes s)
  | visit {visited later : List String} {hash : String} {tried : List StoreCall}
      {failing : StoreCall} (order : r.hashes s = visited ++ hash :: later)
      (partly : tried ++ [failing] <+: r.visit s hash) :
      StopsAt r s (r.search ++ visited.flatMap (r.visit s) ++ tried) failing visited (hash :: later)

theorem exists_of_flatMap_eq {α β : Type} {f : α → List β} {xs : List α} {front back : List β}
    {c : β} (h : xs.flatMap f = front ++ c :: back) :
    ∃ visited x later tried, xs = visited ++ x :: later ∧ front = visited.flatMap f ++ tried ∧
      tried ++ [c] <+: f x := by
  induction xs generalizing front with
  | nil => simp at h
  | cons x xs ih =>
    rw [List.flatMap_cons] at h
    rcases List.append_eq_append_iff.mp h with ⟨rest, rfl, later⟩ | ⟨rest, hx, hrest⟩
    · obtain ⟨visited, y, others, tried, rfl, rfl, inside⟩ := ih later
      exact ⟨x :: visited, y, others, tried, rfl, by simp, inside⟩
    · cases rest with
      | nil =>
        have next : xs.flatMap f = [] ++ c :: back := hrest.symm
        obtain ⟨visited, y, others, tried, rfl, hf, inside⟩ := ih next
        have hv := List.append_eq_nil_iff.mp hf.symm
        refine ⟨x :: visited, y, others, tried, rfl, ?_, inside⟩
        rw [List.flatMap_cons, hv.1, hv.2, hx]
        simp
      | cons d rest =>
        obtain ⟨rfl, _⟩ := List.cons.inj hrest
        exact ⟨[], x, xs, front, rfl, rfl, rest, by rw [hx]; simp⟩

namespace Reset

variable {r : Reset} {s : Stores} {tried : List StoreCall} {failing : StoreCall}
  {visited later : List String}

theorem stopsAt_of_split {front back : List StoreCall} {c : StoreCall}
    (split : (Plan.reset r).calls s = front ++ c :: back) :
    ∃ visited later, r.StopsAt s.snapshot front c visited later := by
  rw [Plan.calls_reset] at split
  rcases List.append_eq_append_iff.mp split with ⟨rest, rfl, inside⟩ | ⟨rest, searching, hrest⟩
  · obtain ⟨visited, hash, later, tried, order, rfl, partly⟩ := exists_of_flatMap_eq inside
    refine ⟨visited, hash :: later, ?_⟩
    rw [← List.append_assoc]
    exact .visit order partly
  · cases rest with
    | nil =>
      have first : (r.hashes s.snapshot).flatMap (r.visit s.snapshot) = [] ++ c :: back :=
        hrest.symm
      obtain ⟨visited, hash, later, tried, order, hf, partly⟩ := exists_of_flatMap_eq first
      refine ⟨visited, hash :: later, ?_⟩
      have stops := StopsAt.visit order partly
      rw [List.append_assoc, ← hf, searching] at stops
      simpa using stops
    | cons d rest =>
      obtain ⟨rfl, _⟩ := List.cons.inj hrest
      have short : r.search.length ≤ 1 := by
        unfold search
        cases r.scope <;> simp
      have length := congrArg List.length searching
      rw [List.length_append, List.length_cons] at length
      obtain rfl := List.eq_nil_of_length_eq_zero (by omega : front.length = 0)
      obtain rfl := List.eq_nil_of_length_eq_zero (by omega : rest.length = 0)
      exact ⟨[], r.hashes s.snapshot, .search searching⟩

theorem covers_of_mem_hashes {hash : String} (h : hash ∈ r.hashes s.snapshot) :
    r.scope.Covers hash := by
  unfold hashes at h
  cases hs : r.scope with
  | allChains =>
    rw [hs] at h
    exact (Snapshot.mem_hashesStarting_iff.mp h).1
  | chain parent =>
    rw [hs] at h
    exact List.mem_singleton.mp h

theorem StopsAt.order (h : r.StopsAt s.snapshot tried failing visited later) :
    r.hashes s.snapshot = visited ++ later := by
  cases h with
  | search => rfl
  | visit order => exact order

theorem StopsAt.afterCalls (h : r.StopsAt s.snapshot tried failing visited later) :
    s.afterCalls tried = ((Plan.sweepHashes r visited).evaluate s).2 := by
  have distinct := r.nodup_hashes s.snapshot
  rw [h.order] at distinct
  rw [Plan.evaluate_stores, Plan.calls_sweepHashes r distinct.of_append_left]
  cases h with
  | search => rfl
  | @visit _ later hash tried failing order partly =>
    have searched : s.afterCalls r.search = s := by
      unfold Reset.search
      cases r.scope <;> rfl
    -- before the last call of a visit there is at most the question for its fields
    have reading (t : Stores) : t.afterCalls tried = t := by
      obtain ⟨rest, hr⟩ := partly
      cases tried with
      | nil => rfl
      | cons d ds =>
        obtain ⟨rfl, hds⟩ := List.cons.inj hr
        cases ds with
        | nil => rfl
        | cons e es => simp at hds
    calc s.afterCalls (r.search ++ visited.flatMap (r.visit s.snapshot) ++ tried)
      _ = ((s.afterCalls r.search).afterCalls (visited.flatMap (r.visit s.snapshot))).afterCalls
          tried := by simp only [Stores.afterCalls, List.foldl_append]
      _ = s.afterCalls (visited.flatMap (r.visit s.snapshot)) := by rw [searched, reading]

/-- A hash that was visited has lost what the reset is about, and no other hash has changed. -/
theorem StopsAt.get?_afterCalls (h : r.StopsAt s.snapshot tried failing visited later)
    (hash field : String) :
    (s.afterCalls tried).snapshot.get? hash field =
      if hash ∈ visited ∧ r.drops field then none else s.snapshot.get? hash field := by
  rw [h.afterCalls]
  exact (Plan.evaluate_sweepHashes r visited s).2 hash field

theorem StopsAt.history_afterCalls (h : r.StopsAt s.snapshot tried failing visited later) :
    (s.afterCalls tried).history = s.history := by
  rw [h.afterCalls]
  exact (Plan.evaluate_sweepHashes r visited s).1

theorem StopsAt.not_visited (h : r.StopsAt s.snapshot tried failing visited later) :
    ∀ hash ∈ later, hash ∉ visited := by
  have distinct := r.nodup_hashes s.snapshot
  rw [h.order] at distinct
  intro hash hl hv
  exact List.disjoint_of_nodup_append distinct hv hl

end Reset

/-- To sweep what is already swept in part comes to the same as to sweep it all. -/
theorem Snapshot.sweep_eq_of_partly {r : Reset} {s now : Snapshot}
    (h : ∀ hash field, now.get? hash field = s.get? hash field ∨
      r.reaches hash ∧ r.drops field) : now.sweep r = s.sweep r := by
  apply Snapshot.ext_get?
  intro hash field
  rw [get?_sweep, get?_sweep]
  rcases h hash field with same | about
  · rw [same]
  · rw [if_pos about, if_pos about]

theorem Stores.snapshot_afterMessage_of_reset {body : Bytes} {a : Alert} {r : Reset}
    (decoded : Alert.decode body = .ok a) (orders : Reset.ofAlert? a = some r)
    (capacity : UInt32) (s : Stores) :
    (s.afterMessage capacity body).snapshot = s.snapshot.sweep r := by
  rw [afterMessage_eq, decoded]
  simp [Snapshot.afterAlert, Reset.isInternal_of_ofAlert? orders, orders]

theorem Metric.fieldKeyOf_eq_error_iff {name origin : String} {e : MetricError} :
    Metric.fieldKeyOf name origin = .error e ↔
      e = .unknown name ∧ ∀ m : Metric, m.identifier ≠ name := by
  constructor
  · intro h
    unfold fieldKeyOf find at h
    split at h
    next => simp [Except.map] at h
    next missing =>
      refine ⟨(Except.error.inj h).symm, ?_⟩
      intro m hm
      have found := find_identifier m
      rw [hm, find, missing] at found
      simp at found
  · rintro ⟨rfl, missing⟩
    unfold fieldKeyOf find
    split
    next m found =>
      have same : m.identifier = name := by simpa using List.find?_some found
      exact absurd same (missing m)
    next => rfl

theorem Plan.snapshot_of_mem_calls_reset {r : Reset} {s : Stores} {c : StoreCall}
    (h : c ∈ (Plan.reset r).calls s) : ∃ d, c = .snapshot d := by
  rw [Plan.calls_reset, List.mem_append, List.mem_flatMap] at h
  rcases h with searching | ⟨hash, _, visiting⟩
  · unfold Reset.search at searching
    cases hs : r.scope with
    | allChains =>
      rw [hs] at searching
      exact ⟨_, List.mem_singleton.mp searching⟩
    | chain parent => simp [hs] at searching
  · simp only [Reset.visit, List.mem_cons, List.not_mem_nil, or_false] at visiting
    exact visiting.elim (fun h => ⟨_, h⟩) fun h => ⟨_, h⟩

theorem mem_takenCalls {calls : List StoreCall} {record : CallRecord} :
    record ∈ takenCalls calls ↔ record.call ∈ calls ∧ record.taken = true := by
  obtain ⟨c, taken⟩ := record
  simp only [takenCalls, List.mem_map, CallRecord.mk.injEq]
  constructor
  · rintro ⟨_, hc, rfl, rfl⟩
    exact ⟨hc, rfl⟩
  · rintro ⟨hc, rfl⟩
    exact ⟨c, hc, rfl, rfl⟩

namespace IntakeEnds

variable {capacity : UInt32} {a : Alert} {s : Stores} {upkeep : Except UpkeepError Change}
  {result : Except IntakeError Alert} {after : StoreSession}

theorem historyTried (h : IntakeEnds capacity a s upkeep result after) :
    (∃ e taken, ⟨.history e, taken⟩ ∈ after.calls) ↔ a.severity ≠ .internal ∧ upkeep.isOk := by
  rw [Alert.severity_ne_internal_iff]
  cases h with
  | unknown ordinary unknown => simp [Except.isOk, Except.toBool]
  | ignored internal orders => simp [internal]
  | @swept r change orders =>
    have internal := Reset.isInternal_of_ofAlert? orders
    refine iff_of_false ?_ (by simp [internal])
    rintro ⟨e, taken, he⟩
    obtain ⟨d, hd⟩ := Plan.snapshot_of_mem_calls_reset (mem_takenCalls.mp he).1
    simp at hd
  | @sweepCut r front back c orders split =>
    have internal := Reset.isInternal_of_ofAlert? orders
    refine iff_of_false ?_ (by simp [internal])
    rintro ⟨e, taken, he⟩
    have called : StoreCall.history e ∈ (Plan.reset r).calls s := by
      rw [split]
      rcases List.mem_append.mp he with he | he
      · exact List.mem_append_left _ (mem_takenCalls.mp he).1
      · simp only [List.mem_singleton, CallRecord.mk.injEq] at he
        simp [he.1]
    obtain ⟨d, hd⟩ := Plan.snapshot_of_mem_calls_reset called
    simp at hd
  | unsaved ordinary known => simp [Alert.stateCall, Except.isOk, Except.toBool]
  | unrecorded ordinary known =>
    simp [ordinary, Alert.stateCall, Alert.historyCall, Except.isOk, Except.toBool]
  | recorded ordinary known =>
    simp [ordinary, Alert.stateCall, Alert.historyCall, Except.isOk, Except.toBool]

theorem historyFailed (h : IntakeEnds capacity a s upkeep result after) {e : HistoryEntry}
    (failed : ⟨.history e, false⟩ ∈ after.calls) :
    result = .error (.history .lock) ∧ after.stores.history = s.history ∧
      ∃ m : Metric, m.identifier = a.metric ∧
        after.stores.snapshot = s.snapshot.set (chainHash a.parent) (m.fieldKey a.origin)
          (LatestState.ofAlert a).toJson := by
  have tried := h.historyTried.mp ⟨e, false, failed⟩
  cases h with
  | unknown => simp at failed
  | ignored => simp at failed
  | swept orders =>
    have internal := Reset.isInternal_of_ofAlert? orders
    simp [Alert.severity_ne_internal_iff.mp tried.1] at internal
  | sweepCut => simp [Except.isOk, Except.toBool] at tried
  | unsaved => simp [Except.isOk, Except.toBool] at tried
  | unrecorded ordinary known =>
    obtain ⟨m, hm, rfl⟩ := Metric.fieldKeyOf_eq_ok_iff.mp known
    exact ⟨rfl, rfl, m, hm, rfl⟩
  | recorded ordinary known => simp at failed

/-- A reset is swept as a whole, or it is cut. -/
theorem of_reset (h : IntakeEnds capacity a s upkeep result after) {r : Reset}
    (orders : Reset.ofAlert? a = some r) :
    after = ⟨{ s with snapshot := s.snapshot.sweep r }, takenCalls ((Plan.reset r).calls s)⟩ ∨
      ∃ front c back, (Plan.reset r).calls s = front ++ c :: back ∧
        result = .error (.snapshot (.store .lock)) ∧
        after = ⟨s.afterCalls front, takenCalls front ++ [⟨c, false⟩]⟩ := by
  have internal := Reset.isInternal_of_ofAlert? orders
  cases h with
  | unknown ordinary => simp [internal] at ordinary
  | ignored internal none => simp [orders] at none
  | swept same =>
    obtain rfl := Option.some.inj (same.symm.trans orders)
    exact .inl rfl
  | sweepCut same split =>
    obtain rfl := Option.some.inj (same.symm.trans orders)
    exact .inr ⟨_, _, _, split, rfl, rfl⟩
  | unsaved ordinary => simp [internal] at ordinary
  | unrecorded ordinary => simp [internal] at ordinary
  | recorded ordinary => simp [internal] at ordinary

theorem sweepFailed (h : IntakeEnds capacity a s upkeep result after) {r : Reset}
    (orders : Reset.ofAlert? a = some r) (failed : ∃ record ∈ after.calls, record.taken = false) :
    result = .error (.snapshot (.store .lock)) ∧
      ∃ tried failing visited later, r.StopsAt s.snapshot tried failing visited later ∧
        after = ⟨s.afterCalls tried, takenCalls tried ++ [⟨failing, false⟩]⟩ := by
  rcases h.of_reset orders with rfl | ⟨front, c, back, split, failing, cut⟩
  · obtain ⟨record, member, lost⟩ := failed
    simp [(mem_takenCalls.mp member).2] at lost
  · obtain ⟨visited, later, stops⟩ := Reset.stopsAt_of_split split
    exact ⟨failing, front, c, visited, later, stops, cut⟩

/-- However a reset ends, each cell is as before, or the reset is about it. -/
theorem partly_swept (h : IntakeEnds capacity a s upkeep result after) {r : Reset}
    (orders : Reset.ofAlert? a = some r) (hash field : String) :
    after.stores.snapshot.get? hash field = s.snapshot.get? hash field ∨
      r.reaches hash ∧ r.drops field := by
  rcases h.of_reset orders with rfl | ⟨front, c, back, split, _, rfl⟩
  · rw [Snapshot.get?_sweep]
    split
    next about => exact .inr about
    next => exact .inl rfl
  · obtain ⟨visited, later, stops⟩ := Reset.stopsAt_of_split split
    rw [stops.get?_afterCalls]
    by_cases visiting : hash ∈ visited ∧ r.drops field
    · have listed : hash ∈ r.hashes s.snapshot := by
        rw [stops.order]
        exact List.mem_append_left later visiting.1
      exact .inr ⟨Reset.reaches_iff.mpr (Reset.covers_of_mem_hashes listed), visiting.2⟩
    · exact .inl (if_neg visiting)

theorem ok_iff (h : IntakeEnds capacity a s upkeep result after) :
    result = .ok a ↔ (a.severity = .internal ∨ ∃ m : Metric, m.identifier = a.metric) ∧
      ∀ record ∈ after.calls, record.taken = true := by
  have kind : a.severity = .internal ↔ a.isInternal = true := by simp [Alert.isInternal]
  rw [kind]
  cases h with
  | unknown ordinary unknown =>
    have none := (Metric.fieldKeyOf_eq_error_iff.mp unknown).2
    simp [ordinary, none]
  | ignored internal => simp [internal]
  | swept orders =>
    have internal := Reset.isInternal_of_ofAlert? orders
    simp only [internal, true_or, true_and, true_iff]
    intro record member
    exact (mem_takenCalls.mp member).2
  | sweepCut => simp
  | unsaved => simp
  | unrecorded => simp
  | recorded ordinary known =>
    obtain ⟨m, hm, _⟩ := Metric.fieldKeyOf_eq_ok_iff.mp known
    simp only [List.mem_cons, List.not_mem_nil, or_false, true_iff]
    refine ⟨.inr ⟨m, hm⟩, ?_⟩
    rintro record (rfl | rfl) <;> rfl

theorem eq_of_ok (h : IntakeEnds capacity a s upkeep result after) {b : Alert}
    (hb : result = .ok b) : b = a := by
  cases h with
  | ignored => exact (Except.ok.inj hb).symm
  | swept => exact (Except.ok.inj hb).symm
  | recorded => exact (Except.ok.inj hb).symm
  | unknown => simp at hb
  | sweepCut => simp at hb
  | unsaved => simp at hb
  | unrecorded => simp at hb

theorem of_unregistered (h : IntakeEnds capacity a s upkeep result after)
    (ordinary : a.severity ≠ .internal) (none : ∀ m : Metric, m.identifier ≠ a.metric) :
    result = .error (.snapshot (.metric (.unknown a.metric))) ∧ after = .start s := by
  have failing : Metric.fieldKeyOf a.metric a.origin = .error (.unknown a.metric) :=
    Metric.fieldKeyOf_eq_error_iff.mpr ⟨rfl, none⟩
  rw [Alert.severity_ne_internal_iff] at ordinary
  cases h with
  | unknown _ unknown =>
    obtain rfl := Except.error.inj (unknown.symm.trans failing)
    exact ⟨rfl, rfl⟩
  | ignored internal => simp [ordinary] at internal
  | swept orders => simp [Reset.isInternal_of_ofAlert? orders] at ordinary
  | sweepCut orders => simp [Reset.isInternal_of_ofAlert? orders] at ordinary
  | unsaved _ known => simp [failing] at known
  | unrecorded _ known => simp [failing] at known
  | recorded _ known => simp [failing] at known

end IntakeEnds

/-- What becomes of the stores when a message is taken in and some of their calls fail. -/
structure FailuresContained (fails : Nat → StoreCall → Bool) (capacity : UInt32) (body : Bytes)
    (s : Stores) (result : Except IntakeError Alert) (after : StoreSession) : Prop where
  undecodable : ∀ e, Alert.decode body = .error e →
    result = .error (.undecodable e) ∧ after = .start s
  unregistered : ∀ a, Alert.decode body = .ok a → a.severity ≠ .internal →
    (∀ m : Metric, m.identifier ≠ a.metric) →
    result = .error (.snapshot (.metric (.unknown a.metric))) ∧ after = .start s
  historyTried : ∀ a, Alert.decode body = .ok a →
    ((∃ e taken, ⟨.history e, taken⟩ ∈ after.calls) ↔ a.severity ≠ .internal ∧
      (runUpkeep (StoreSession.access fails) (Plan.upkeep a) (.start s)).1.isOk)
  historyFailed : ∀ e, ⟨.history e, false⟩ ∈ after.calls →
    result = .error (.history .lock) ∧ after.stores.history = s.history ∧
      ∃ (a : Alert) (m : Metric), Alert.decode body = .ok a ∧ m.identifier = a.metric ∧
        after.stores.snapshot =
          s.snapshot.set (chainHash a.parent) (m.fieldKey a.origin) (LatestState.ofAlert a).toJson
  sweepFailed : ∀ a r, Alert.decode body = .ok a → Reset.ofAlert? a = some r →
    (∃ record ∈ after.calls, record.taken = false) →
    result = .error (.snapshot (.store .lock)) ∧ after.stores.history = s.history ∧
      ∃ tried failing visited later,
        r.StopsAt s.snapshot tried failing visited later ∧
        after.calls = takenCalls tried ++ [⟨failing, false⟩] ∧
        (∀ hash ∈ visited, ∀ field, r.marker.toList <:+: field.toList →
          after.stores.snapshot.get? hash field = none) ∧
        (∀ hash ∈ later, ∀ field,
          after.stores.snapshot.get? hash field = s.snapshot.get? hash field) ∧
        ∀ hash field, hash ∉ visited ∨ ¬ r.marker.toList <:+: field.toList →
          after.stores.snapshot.get? hash field = s.snapshot.get? hash field
  repeated : ∀ a r, Alert.decode body = .ok a → Reset.ofAlert? a = some r →
    (after.stores.afterMessage capacity body).snapshot = (s.afterMessage capacity body).snapshot
  ok_iff : ∀ a, result = .ok a ↔ Alert.decode body = .ok a ∧
    (a.severity = .internal ∨ ∃ m : Metric, m.identifier = a.metric) ∧
      ∀ record ∈ after.calls, record.taken = true

/-- Failures leave a well-defined state, whichever calls fail, and however the stores begin. -/
theorem failures_contained (fails : Nat → StoreCall → Bool) (capacity : UInt32) (body : Bytes)
    (s : Stores) : FailuresContained fails capacity body s (s.intake fails capacity body).1
      (s.intake fails capacity body).2 := by
  cases decoded : Alert.decode body with
  | error e =>
    have lost : s.intake fails capacity body = (.error (.undecodable e), .start s) := by
      simp [Stores.intake, takeIn, decoded]
    rw [lost]
    constructor
    case undecodable =>
      intro d hd
      obtain rfl := Except.error.inj (decoded.symm.trans hd)
      exact ⟨rfl, rfl⟩
    case historyFailed => simp [StoreSession.start]
    all_goals simp [decoded]
  | ok a =>
    have ends := intake_ends fails capacity decoded s
    constructor
    case undecodable => simp [decoded]
    case unregistered =>
      intro b hb
      obtain rfl := Except.ok.inj (decoded.symm.trans hb)
      exact ends.of_unregistered
    case historyTried =>
      intro b hb
      obtain rfl := Except.ok.inj (decoded.symm.trans hb)
      exact ends.historyTried
    case historyFailed =>
      intro e failed
      obtain ⟨result, history, m, hm, saved⟩ := ends.historyFailed failed
      exact ⟨result, history, a, m, decoded, hm, saved⟩
    case sweepFailed =>
      intro b r hb orders failed
      obtain rfl := Except.ok.inj (decoded.symm.trans hb)
      obtain ⟨result, tried, failing, visited, later, stops, left⟩ := ends.sweepFailed orders failed
      rw [left]
      refine ⟨result, stops.history_afterCalls, tried, failing, visited, later, stops, rfl,
        ?_, ?_, ?_⟩
      · intro hash visiting field marked
        rw [stops.get?_afterCalls, if_pos ⟨visiting, Reset.drops_iff.mpr marked⟩]
      · intro hash waiting field
        rw [stops.get?_afterCalls, if_neg fun h => stops.not_visited hash waiting h.1]
      · intro hash field unrelated
        rw [stops.get?_afterCalls, if_neg]
        rintro ⟨visiting, drops⟩
        exact unrelated.elim (· visiting) (· (Reset.drops_iff.mp drops))
    case repeated =>
      intro b r hb orders
      obtain rfl := Except.ok.inj (decoded.symm.trans hb)
      rw [Stores.snapshot_afterMessage_of_reset decoded orders,
        Stores.snapshot_afterMessage_of_reset decoded orders]
      exact Snapshot.sweep_eq_of_partly (ends.partly_swept orders)
    case ok_iff =>
      intro b
      constructor
      · intro hb
        obtain rfl := ends.eq_of_ok hb
        exact ⟨decoded, ends.ok_iff.mp hb⟩
      · rintro ⟨hb, rest⟩
        obtain rfl := Except.ok.inj (decoded.symm.trans hb)
        exact ends.ok_iff.mpr rest

end AlertLedger
