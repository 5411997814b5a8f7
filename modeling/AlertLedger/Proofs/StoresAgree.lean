import AlertLedger.Proofs.HistoryBlocks
import AlertLedger.Proofs.SnapshotCells
import AlertLedger.Proofs.SnapshotKeys

namespace AlertLedger

/-- The last summary of a metric and an origin in a history. -/
def lastSummary? (metric origin : String) (summaries : List Summary) : Option Summary :=
  (summaries.filter fun x => x.metric == metric && x.origin == origin).getLast?

/-- The state of a summary as compact JSON, with the text of its severity. -/
def Summary.stateText (x : Summary) : String := AlertLedger.stateText x.severity x.message

/-- All that a history keeps of a chain. -/
def History.summaries (h : History) (chain : String) : List Summary :=
  (h.pages chain).flatMap (·.alerts)

theorem exists_last {α : Type} {p : α → Prop} {xs : List α} (h : ∃ x ∈ xs, p x) :
    ∃ front x back, xs = front ++ x :: back ∧ p x ∧ ∀ y ∈ back, ¬ p y := by
  induction xs with
  | nil => simp at h
  | cons x xs ih =>
    by_cases later : ∃ y ∈ xs, p y
    · obtain ⟨front, y, back, rfl, hy, none⟩ := ih later
      exact ⟨x :: front, y, back, rfl, hy, none⟩
    · obtain ⟨y, hy, py⟩ := h
      have none : ∀ z ∈ xs, ¬ p z := fun z hz pz => later ⟨z, hz, pz⟩
      rcases List.mem_cons.mp hy with rfl | hy
      · exact ⟨[], y, xs, rfl, py, none⟩
      · exact absurd py (none y hy)

theorem mem_recordedAlerts {chain : String} {bodies : List Bytes} {a : Alert} :
    a ∈ recordedAlerts chain bodies ↔
      ∃ body ∈ bodies, Alert.decode body = .ok a ∧ a.isRecorded ∧ a.parent = chain := by
  simp only [recordedAlerts, decodedAlerts, List.mem_filter, List.mem_filterMap, Bool.and_eq_true,
    beq_iff_eq]
  constructor
  · rintro ⟨⟨body, hb, decoded⟩, kept⟩
    refine ⟨body, hb, ?_, kept⟩
    cases h : Alert.decode body <;> simp_all [Except.toOption]
  · rintro ⟨body, hb, decoded, kept⟩
    exact ⟨⟨body, hb, by rw [decoded]; rfl⟩, kept⟩

theorem recordedAlerts_cons {chain : String} {body : Bytes} {a : Alert}
    (decoded : Alert.decode body = .ok a) (recorded : a.isRecorded) (parent : a.parent = chain)
    (rest : List Bytes) :
    recordedAlerts chain (body :: rest) = a :: recordedAlerts chain rest := by
  simp [recordedAlerts, decodedAlerts, decoded, recorded, parent, Except.toOption]

theorem Alert.isRecorded_of_metric {a : Alert} {m : Metric} (ordinary : a.severity ≠ .internal)
    (known : m.identifier = a.metric) : a.isRecorded := by
  rw [isRecorded_iff, ← known]
  exact ⟨severity_ne_internal_iff.mp ordinary, _, Metric.fieldKeyOf_identifier m a.origin⟩

theorem Alert.Leaves.of_some {a : Alert} {hash field v : String}
    (h : a.Leaves hash field (some v)) :
    a.isRecorded ∧ chainHash a.parent = hash ∧ (Summary.ofAlert a).stateText = v ∧
      ∃ m : Metric, m.identifier = a.metric ∧ m.fieldKey a.origin = field := by
  cases h with
  | state ordinary known =>
    exact ⟨Alert.isRecorded_of_metric ordinary known, rfl, rfl, _, known, rfl⟩

/-- A value in the cell of a metric and an origin is the state of an alert that the history keeps
under the same metric and origin. -/
theorem Alert.leaves_some_iff {a : Alert} {m : Metric} {chain origin v : String} :
    a.Leaves (chainHash chain) (m.fieldKey origin) (some v) ↔
      a.isRecorded ∧ a.parent = chain ∧ a.metric = m.identifier ∧ a.origin = origin ∧
        (Summary.ofAlert a).stateText = v := by
  constructor
  · intro h
    obtain ⟨recorded, parent, written, n, known, key⟩ := h.of_some
    obtain ⟨rfl, same⟩ := Metric.fieldKey_inj key
    exact ⟨recorded, chainHash_inj parent, known.symm, same, written⟩
  · rintro ⟨recorded, rfl, known, rfl, rfl⟩
    exact .state (severity_ne_internal_iff.mpr (isRecorded_iff.mp recorded).1) known.symm

theorem lastSummary?_of_last {before after : List Alert} {a : Alert}
    (none : ∀ c ∈ after, ¬ (c.metric = a.metric ∧ c.origin = a.origin)) :
    lastSummary? a.metric a.origin ((before ++ a :: after).map Summary.ofAlert) =
      some (.ofAlert a) := by
  have later : (after.map Summary.ofAlert).filter
      (fun x => x.metric == a.metric && x.origin == a.origin) = [] := by
    rw [List.filter_eq_nil_iff]
    intro x hx
    obtain ⟨c, hc, rfl⟩ := List.mem_map.mp hx
    simpa [Summary.ofAlert] using none c hc
  have own : ((Summary.ofAlert a).metric == a.metric && (Summary.ofAlert a).origin == a.origin) =
      true := by
    simp [Summary.ofAlert]
  rw [lastSummary?, List.map_append, List.map_cons, List.filter_append, List.filter_cons,
    if_pos own, later, List.getLast?_concat]

namespace Stores

variable {capacity : UInt32} {s : Stores} {hash field : String}

theorem get?_afterMessages_of_last {before after : List Bytes} {body : Bytes} {a : Alert}
    {v : Option String} (decoded : Alert.decode body = .ok a) (leaves : a.Leaves hash field v)
    (untouched : ∀ later ∈ after, ¬ Touches later hash field) :
    (s.afterMessages capacity (before ++ body :: after)).snapshot.get? hash field = v := by
  rw [afterMessages_append]
  show (((s.afterMessages capacity before).afterMessage capacity body).afterMessages capacity
    after).snapshot.get? hash field = v
  rw [get?_afterMessages_of_not_touches untouched]
  exact get?_afterMessage_of_leaves decoded leaves

theorem exists_writer {bodies : List Bytes} {v : String}
    (h : (empty.afterMessages capacity bodies).snapshot.get? hash field = some v) :
    ∃ before body after a, bodies = before ++ body :: after ∧ Alert.decode body = .ok a ∧
      a.Leaves hash field (some v) ∧ ∀ later ∈ after, ¬ Touches later hash field := by
  by_cases touched : ∃ body ∈ bodies, Touches body hash field
  · obtain ⟨before, body, after, rfl, ⟨a, w, decoded, leaves⟩, untouched⟩ := exists_last touched
    rw [get?_afterMessages_of_last decoded leaves untouched] at h
    exact ⟨before, body, after, a, rfl, decoded, h ▸ leaves, untouched⟩
  · rw [get?_afterMessages_of_not_touches fun body hb ht => touched ⟨body, hb, ht⟩] at h
    simp [empty] at h

/-- A cell that is empty behind a message that wrote it was reset in between. -/
theorem exists_reset {before rest : List Bytes} {body : Bytes} {a : Alert} {v : String}
    (decoded : Alert.decode body = .ok a) (leaves : a.Leaves hash field (some v))
    (h : (s.afterMessages capacity (before ++ body :: rest)).snapshot.get? hash field = none)
    (rewritten : ∀ later ∈ rest, ∀ c w, Alert.decode later = .ok c →
      ¬ c.Leaves hash field (some w)) :
    ∃ between order after b r, rest = between ++ order :: after ∧ Alert.decode order = .ok b ∧
      Reset.ofAlert? b = some r ∧ r.scope.Covers hash ∧ r.marker.toList <:+: field.toList := by
  by_cases touched : ∃ later ∈ rest, Touches later hash field
  · obtain ⟨between, order, after, rfl, ⟨b, w, ordered, left⟩, _⟩ := exists_last touched
    cases left with
    | state ordinary known =>
      exact absurd (.state ordinary known) (rewritten order (by simp) b _ ordered)
    | nothing orders covered marked =>
      exact ⟨between, order, after, b, _, rfl, ordered, Reset.ofAlert?_eq_some_iff.mpr orders,
        Reset.covers_iff.mp covered, Reset.marks_iff.mp marked⟩
  · rw [get?_afterMessages_of_last decoded leaves fun later hl ht => touched ⟨later, hl, ht⟩] at h
    simp at h

end Stores

/-- The stores agree. What the snapshot holds of a chain is the last that the history has of its
metric and origin, and what it lacks was reset behind the last that the history has of it. -/
theorem stores_agree {capacity : UInt32} (positive : 0 < capacity) (bodies : List Bytes)
    (chain : String) :
    (∀ field v, (Stores.empty.afterMessages capacity bodies).snapshot.get? (chainHash chain) field =
        some v →
      (∃ (m : Metric) (origin : String), m.fieldKey origin = field) ∧
      ∀ (m : Metric) (origin : String), m.fieldKey origin = field →
        (lastSummary? m.identifier origin
          ((Stores.empty.afterMessages capacity bodies).history.summaries chain)).map
            Summary.stateText = some v) ∧
    ∀ x ∈ (Stores.empty.afterMessages capacity bodies).history.summaries chain,
      ∃ m : Metric, m.identifier = x.metric ∧
        ((Stores.empty.afterMessages capacity bodies).snapshot.get? (chainHash chain)
            (m.fieldKey x.origin) = none →
          ∃ before body between order after a b r,
            bodies = before ++ body :: (between ++ order :: after) ∧
            recordedAlerts chain [body] = [a] ∧ a.metric = x.metric ∧ a.origin = x.origin ∧
            (∀ c ∈ recordedAlerts chain (between ++ order :: after),
              ¬ (c.metric = x.metric ∧ c.origin = x.origin)) ∧
            Alert.decode order = .ok b ∧ Reset.ofAlert? b = some r ∧
            r.scope.Covers (chainHash chain) ∧
            r.marker.toList <:+: (m.fieldKey x.origin).toList) := by
  have kept : (Stores.empty.afterMessages capacity bodies).history.summaries chain =
      (recordedAlerts chain bodies).map Summary.ofAlert :=
    alerts_afterMessages positive bodies chain
  rw [kept]
  refine ⟨?_, ?_⟩
  · intro field v held
    obtain ⟨before, body, after, a, rfl, decoded, leaves, untouched⟩ := Stores.exists_writer held
    obtain ⟨_, _, _, n, _, rfl⟩ := leaves.of_some
    obtain ⟨recorded, parent, known, _, written⟩ := Alert.leaves_some_iff.mp leaves
    have unwritten : ∀ c ∈ recordedAlerts chain after,
        ¬ (c.metric = a.metric ∧ c.origin = a.origin) := by
      intro c hc same
      obtain ⟨later, hl, decoded, recorded, parent⟩ := mem_recordedAlerts.mp hc
      have leaves := Alert.leaves_some_iff.mpr
        ⟨recorded, parent, same.1.trans known, same.2, rfl⟩
      exact untouched later hl ⟨c, _, decoded, leaves⟩
    refine ⟨⟨n, a.origin, rfl⟩, ?_⟩
    intro m origin same
    obtain ⟨rfl, rfl⟩ := Metric.fieldKey_inj same
    rw [← known, recordedAlerts_append, recordedAlerts_cons decoded recorded parent,
      lastSummary?_of_last unwritten, ← written]
    rfl
  · intro x hx
    obtain ⟨a, ha, rfl⟩ := List.mem_map.mp hx
    obtain ⟨body, hb, decoded, recorded, parent⟩ := mem_recordedAlerts.mp ha
    obtain ⟨field, hf⟩ := (Alert.isRecorded_iff.mp recorded).2
    obtain ⟨m, known, rfl⟩ := Metric.fieldKeyOf_eq_ok_iff.mp hf
    refine ⟨m, known, ?_⟩
    intro absent
    have written : ∃ body ∈ bodies, ∃ c v, Alert.decode body = .ok c ∧
        c.Leaves (chainHash chain) (m.fieldKey a.origin) (some v) :=
      ⟨body, hb, a, _, decoded,
        Alert.leaves_some_iff.mpr ⟨recorded, parent, known.symm, rfl, rfl⟩⟩
    obtain ⟨before, body, rest, rfl, ⟨c, v, decoded, leaves⟩, last⟩ := exists_last written
    have rewritten : ∀ later ∈ rest, ∀ d w, Alert.decode later = .ok d →
        ¬ d.Leaves (chainHash chain) (m.fieldKey a.origin) (some w) := by
      intro later hl d w decoded leaves
      exact last later hl ⟨d, w, decoded, leaves⟩
    obtain ⟨between, order, after, b, r, rfl, ordered, orders, covered, marked⟩ :=
      Stores.exists_reset decoded leaves absent rewritten
    obtain ⟨recorded, parent, metric, origin, _⟩ := Alert.leaves_some_iff.mp leaves
    refine ⟨before, body, between, order, after, c, b, r, rfl,
      recordedAlerts_cons decoded recorded parent [], metric.trans known, origin, ?_, ordered,
      orders, covered, marked⟩
    intro d hd same
    obtain ⟨later, hl, decoded, recorded, parent⟩ := mem_recordedAlerts.mp hd
    have leaves := Alert.leaves_some_iff.mpr
      ⟨recorded, parent, same.1.trans known.symm, same.2, rfl⟩
    exact rewritten later hl d _ decoded leaves

def resetMessage : Bytes :=
  Utf8.encode "[\"INTERNAL\",[5000,\"Reset\"],\"SystemAlertersManager\",\"\",\"\",\"\",60]".toList

/-- A message about missed blocks and one about a system that is down, and then a reset of the
systems of all chains. -/
def messagesWithReset : List Bytes := [
  missedBlocksMessage "WARNING" "chainX" "missed_blocks" "50",
  missedBlocksMessage "WARNING" "chainX" "system_is_down" "55", resetMessage]

def systemDown : Alert := { missedBlocks "chainX" 55 with metric := "system_is_down" }

theorem decodedAlerts_messagesWithReset : decodedAlerts messagesWithReset =
    [missedBlocks "chainX" 50, systemDown,
      ⟨.internal, ⟨5000, "Reset"⟩, "SystemAlertersManager", "", "", "", .ofInt 60⟩] := by
  decide +kernel

theorem recordedAlerts_messagesWithReset : recordedAlerts "chainX" messagesWithReset =
    [missedBlocks "chainX" 50, systemDown] := by
  rw [recordedAlerts, decodedAlerts_messagesWithReset]
  decide +kernel

/-- The state of the missed blocks is still there, and that of the system fell to the reset. -/
theorem stores_agree_behind_reset :
    (0 : UInt32) < 2 ∧
      (∃ v, (Stores.empty.afterMessages 2 messagesWithReset).snapshot.get? "hash_p1_chainX"
          "alert_node2_nodeA" = some v ∧
        (lastSummary? "missed_blocks" "nodeA" ((Stores.empty.afterMessages 2
          messagesWithReset).history.summaries "chainX")).map Summary.stateText = some v) ∧
      ∃ order b r, order ∈ messagesWithReset ∧ Alert.decode order = .ok b ∧
        Reset.ofAlert? b = some r ∧ r.marker.toList <:+: "alert_system5_nodeA".toList := by
  have positive : (0 : UInt32) < 2 := by decide
  obtain ⟨holds, lacks⟩ := stores_agree positive messagesWithReset "chainX"
  have held : ((Stores.empty.afterMessages 2 messagesWithReset).snapshot.get? "hash_p1_chainX"
      "alert_node2_nodeA").isSome := by
    rw [Stores.afterMessages_eq, decodedAlerts_messagesWithReset]
    decide +kernel
  have absent : (Stores.empty.afterMessages 2 messagesWithReset).snapshot.get? "hash_p1_chainX"
      "alert_system5_nodeA" = none := by
    rw [Stores.afterMessages_eq, decodedAlerts_messagesWithReset]
    decide +kernel
  have down : Summary.ofAlert systemDown ∈
      (Stores.empty.afterMessages 2 messagesWithReset).history.summaries "chainX" := by
    rw [History.summaries, alerts_afterMessages positive, recordedAlerts_messagesWithReset]
    simp
  obtain ⟨v, hv⟩ := Option.isSome_iff_exists.mp held
  obtain ⟨m, known, reset⟩ := lacks _ down
  have system : m = .systemIsDown := Except.ok.inj
    ((Metric.find_eq_ok_iff.mpr known).symm.trans (Metric.find_identifier .systemIsDown))
  subst system
  obtain ⟨before, body, between, order, after, a, b, r, split, _, _, _, _, ordered, orders, _,
    marked⟩ := reset absent
  refine ⟨positive, ⟨v, hv, (holds _ v hv).2 .missedBlocks "nodeA" rfl⟩, order, b, r, ?_, ordered,
    orders, marked⟩
  rw [split]
  simp

end AlertLedger
