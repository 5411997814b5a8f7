import AlertLedger.Proofs.MessageRun
import Mathlib.Data.List.Forall2
import Mathlib.Data.List.Induction

namespace AlertLedger

theorem exists_split_of_forall₂ {α β : Type} {R : α → β → Prop} {front back : List α} {a : α}
    {ys : List β} (h : List.Forall₂ R (front ++ a :: back) ys) :
    ∃ before y after, ys = before ++ y :: after ∧ List.Forall₂ R front before ∧ R a y ∧
      List.Forall₂ R back after := by
  induction front generalizing ys with
  | nil =>
    cases h with
    | cons first rest => exact ⟨[], _, _, rfl, .nil, first, rest⟩
  | cons c front ih =>
    cases h with
    | cons first rest =>
      obtain ⟨before, y, after, rfl, hfront, hy, hback⟩ := ih rest
      exact ⟨_ :: before, y, after, rfl, .cons first hfront, hy, hback⟩

theorem exists_of_forall₂ {α β : Type} {R : α → β → Prop} {xs : List α} {ys : List β}
    (h : List.Forall₂ R xs ys) : ∀ x ∈ xs, ∃ y ∈ ys, R x y := by
  intro x hx
  obtain ⟨front, back, rfl⟩ := List.append_of_mem hx
  obtain ⟨before, y, after, rfl, _, hy, _⟩ := exists_split_of_forall₂ h
  exact ⟨y, by simp, hy⟩

/-- Consecutive blocks of a list: none is empty, none is longer than `size`, and all but the last
have that length. -/
structure CutInto {α : Type} (size : Nat) (xs : List α) (blocks : List (List α)) : Prop where
  joined : blocks.flatten = xs
  bounded : ∀ b ∈ blocks, 0 < b.length ∧ b.length ≤ size
  full : ∀ b ∈ blocks.dropLast, b.length = size

namespace CutInto

variable {α : Type} {size : Nat} {xs : List α} {x : α} {blocks : List (List α)} {b : List α}

theorem nil : CutInto size ([] : List α) [] :=
  ⟨rfl, by simp, by simp⟩

theorem begin_block (positive : 0 < size) (h : CutInto size xs blocks)
    (allFull : ∀ b ∈ blocks, b.length = size) : CutInto size (xs ++ [x]) (blocks ++ [[x]]) := by
  refine ⟨by simp [h.joined], ?_, ?_⟩
  · intro b hb
    rcases List.mem_append.mp hb with hb | hb
    · exact h.bounded b hb
    · rw [List.mem_singleton.mp hb, List.length_singleton]
      omega
  · rw [List.dropLast_concat]
    exact allFull

theorem extend_block (h : CutInto size xs (blocks ++ [b])) (room : b.length < size) :
    CutInto size (xs ++ [x]) (blocks ++ [b ++ [x]]) := by
  have full := h.full
  rw [List.dropLast_concat] at full
  refine ⟨?_, ?_, ?_⟩
  · rw [← h.joined]
    simp
  · intro c hc
    rcases List.mem_append.mp hc with hc | hc
    · exact h.bounded c (by simp [hc])
    · rw [List.mem_singleton.mp hc, List.length_append, List.length_singleton]
      omega
  · rw [List.dropLast_concat]
    exact full

end CutInto

/-- A page of the history as it should be: it holds these summaries with their timestamps, in this
order, beside their number and the bounds of the timestamps. -/
structure Page.Holds (p : Page) (entries : List (Summary × Binary64)) : Prop where
  kind : p.kind = alertPageKind
  count : p.count.toNat = entries.length
  alerts : p.alerts = entries.map (·.1)
  bounds : ∃ t ts, entries.map (·.2) = t :: ts ∧ p.first = ts.foldl Binary64.min t ∧
    p.last = ts.foldl Binary64.max t

namespace Page

theorem holds_opening (s : Summary) (t : Binary64) : (opening s t).Holds [(s, t)] :=
  ⟨rfl, rfl, rfl, t, [], rfl, rfl, rfl⟩

theorem Holds.isOpen_iff {p : Page} {entries : List (Summary × Binary64)} (h : p.Holds entries)
    {capacity : UInt32} : p.isOpen capacity ↔ entries.length < capacity.toNat := by
  simp [isOpen, h.kind, UInt32.lt_iff_toNat_lt, h.count]

/-- An open page has room, so that its count does not pass the largest of 32 bits. -/
theorem Holds.push {p : Page} {entries : List (Summary × Binary64)} (h : p.Holds entries)
    {capacity : UInt32} (isOpen : p.isOpen capacity) (s : Summary) (t : Binary64) :
    (p.push s t).Holds (entries ++ [(s, t)]) := by
  have room := h.isOpen_iff.mp isOpen
  have limit := capacity.toNat_lt
  obtain ⟨u, us, times, first, last⟩ := h.bounds
  refine ⟨h.kind, ?_, by simp [Page.push, h.alerts], u, us ++ [t], by simp [times], ?_, ?_⟩
  · have hc := h.count
    simp only [Page.push, UInt32.toNat_add, List.length_append, List.length_singleton]
    have one : (1 : UInt32).toNat = 1 := rfl
    omega
  · simp [Page.push, first]
  · simp [Page.push, last]

end Page

theorem closed_of_full {capacity : UInt32} {pages : List Page}
    {blocks : List (List (Summary × Binary64))} (held : List.Forall₂ Page.Holds pages blocks)
    (full : ∀ b ∈ blocks, b.length = capacity.toNat) : ∀ p ∈ pages, p.isOpen capacity = false := by
  intro p hp
  obtain ⟨b, hb, holds⟩ := exists_of_forall₂ held p hp
  have length := full b hb
  rw [Bool.eq_false_iff, ne_eq, holds.isOpen_iff]
  omega

theorem pushPage_append {capacity : UInt32} {s : Summary} {t : Binary64} {front back : List Page}
    (closed : ∀ p ∈ front, p.isOpen capacity = false) :
    pushPage capacity s t (front ++ back) = front ++ pushPage capacity s t back := by
  induction front with
  | nil => rfl
  | cons p ps ih =>
    have hp := closed p (by simp)
    simp only [List.cons_append, pushPage, hp, Bool.false_eq_true, if_false]
    rw [ih fun q hq => closed q (by simp [hq])]

theorem getElem?_pushPage_of_closed {capacity : UInt32} {s : Summary} {t : Binary64}
    {pages : List Page} {i : Nat} {p : Page} (hp : pages[i]? = some p)
    (closed : p.isOpen capacity = false) : (pushPage capacity s t pages)[i]? = some p := by
  induction pages generalizing i with
  | nil => simp at hp
  | cons q qs ih =>
    unfold pushPage
    split
    next isOpen =>
      cases i with
      | zero =>
        simp only [List.getElem?_cons_zero, Option.some.injEq] at hp
        simp [hp, closed] at isOpen
      | succ i => exact hp
    next =>
      cases i with
      | zero => exact hp
      | succ i => exact ih hp

/-- The pages hold these entries, cut into blocks of the capacity. -/
def PagesHold (capacity : UInt32) (entries : List (Summary × Binary64)) (pages : List Page) :
    Prop :=
  ∃ blocks, CutInto capacity.toNat entries blocks ∧ List.Forall₂ Page.Holds pages blocks

/-- All pages but the last are full, so that a new entry goes to the last page or behind it. -/
theorem PagesHold.push {capacity : UInt32} (positive : 0 < capacity)
    {entries : List (Summary × Binary64)} {pages : List Page}
    (h : PagesHold capacity entries pages) (s : Summary) (t : Binary64) :
    PagesHold capacity (entries ++ [(s, t)]) (pushPage capacity s t pages) := by
  have positive : 0 < capacity.toNat := UInt32.lt_iff_toNat_lt.mp positive
  obtain ⟨blocks, cut, held⟩ := h
  rcases List.eq_nil_or_concat' blocks with rfl | ⟨full, b, rfl⟩
  · obtain rfl := List.forall₂_nil_right_iff.mp held
    exact ⟨[] ++ [[(s, t)]], cut.begin_block positive (by simp),
      .cons (Page.holds_opening s t) .nil⟩
  · have allFull := cut.full
    rw [List.dropLast_concat] at allFull
    obtain ⟨p, none, hp, hnone, hback⟩ :=
      List.forall₂_cons_right_iff.mp (List.forall₂_drop_append pages full [b] held)
    obtain rfl := List.forall₂_nil_right_iff.mp hnone
    have front := List.forall₂_take_append pages full [b] held
    have hpages : pages = pages.take full.length ++ [p] := by
      rw [← hback, List.take_append_drop]
    rw [hpages, pushPage_append (closed_of_full front allFull)]
    -- the last page alone may be open; its count is the length of the last block
    by_cases isOpen : p.isOpen capacity
    · refine ⟨full ++ [b ++ [(s, t)]], cut.extend_block (hp.isOpen_iff.mp isOpen), ?_⟩
      rw [pushPage, if_pos isOpen]
      exact List.rel_append front (.cons (hp.push isOpen s t) .nil)
    · have length := (cut.bounded b (by simp)).2
      have closed := mt hp.isOpen_iff.mpr isOpen
      refine ⟨(full ++ [b]) ++ [[(s, t)]], cut.begin_block positive ?_, ?_⟩
      · intro c hc
        rcases List.mem_append.mp hc with hc | hc
        · exact allFull c hc
        · rw [List.mem_singleton.mp hc]
          omega
      · rw [pushPage, if_neg isOpen, List.append_assoc]
        exact List.rel_append front (.cons hp (.cons (Page.holds_opening s t) .nil))

theorem PagesHold.alerts {capacity : UInt32} {entries : List (Summary × Binary64)}
    {pages : List Page} (h : PagesHold capacity entries pages) :
    pages.flatMap (·.alerts) = entries.map (·.1) := by
  obtain ⟨blocks, cut, held⟩ := h
  rw [← cut.joined]
  clear cut
  induction held with
  | nil => rfl
  | cons hp _ ih => simp [ih, hp.alerts]

theorem PagesHold.count_le {capacity : UInt32} {entries : List (Summary × Binary64)}
    {pages : List Page} (h : PagesHold capacity entries pages) :
    ∀ p ∈ pages, p.count ≤ capacity := by
  obtain ⟨blocks, cut, held⟩ := h
  intro p hp
  obtain ⟨b, hb, holds⟩ := exists_of_forall₂ held p hp
  have bounded := (cut.bounded b hb).2
  rw [UInt32.le_iff_toNat_le, holds.count]
  exact bounded

def Alert.entry (a : Alert) : Summary × Binary64 := (.ofAlert a, a.timestamp)

def pushAlerts (capacity : UInt32) (pages : List Page) (alerts : List Alert) : List Page :=
  alerts.foldl (fun ps a => pushPage capacity (.ofAlert a) a.timestamp ps) pages

def History.afterEntries (h : History) (entries : List HistoryEntry) : History :=
  entries.foldl (fun h e => h.push e.chain e.summary e.timestamp e.capacity) h

theorem PagesHold.push_all {capacity : UInt32} (positive : 0 < capacity)
    {entries : List (Summary × Binary64)} {pages : List Page}
    (h : PagesHold capacity entries pages) (alerts : List Alert) :
    PagesHold capacity (entries ++ alerts.map Alert.entry) (pushAlerts capacity pages alerts) := by
  induction alerts generalizing entries pages with
  | nil => simpa [pushAlerts] using h
  | cons a rest ih =>
    have pushed := ih (h.push positive (.ofAlert a) a.timestamp)
    rw [List.append_assoc] at pushed
    exact pushed

theorem getElem?_pushAlerts_of_closed {capacity : UInt32} {pages : List Page} {i : Nat} {p : Page}
    (hp : pages[i]? = some p) (closed : p.isOpen capacity = false) (alerts : List Alert) :
    (pushAlerts capacity pages alerts)[i]? = some p := by
  induction alerts generalizing pages with
  | nil => exact hp
  | cons a rest ih => exact ih (getElem?_pushPage_of_closed hp closed)

theorem History.pages_afterAlert (capacity : UInt32) (h : History) (a : Alert) (chain : String) :
    (h.afterAlert capacity a).pages chain =
      if a.isRecorded && a.parent == chain then
        pushPage capacity (.ofAlert a) a.timestamp (h.pages chain)
      else h.pages chain := by
  unfold afterAlert
  by_cases recorded : a.isRecorded
  · by_cases hc : a.parent = chain
    · simp [recorded, hc]
    · simp [recorded, hc, Ne.symm hc]
  · simp [recorded]

theorem History.mem_names_afterAlert {capacity : UInt32} {h : History} {a : Alert}
    {chain : String} :
    chain ∈ (h.afterAlert capacity a).names ↔
      (a.isRecorded && a.parent == chain) = true ∨ chain ∈ h.names := by
  unfold afterAlert
  by_cases recorded : a.isRecorded
  · simp [recorded, eq_comm (a := chain)]
  · simp [recorded]

/-- Messages change the pages of a chain through the alerts that are recorded for it, and through
nothing else. -/
theorem Stores.pages_afterMessages (capacity : UInt32) (s : Stores) (bodies : List Bytes)
    (chain : String) :
    (s.afterMessages capacity bodies).history.pages chain =
      pushAlerts capacity (s.history.pages chain) (recordedAlerts chain bodies) := by
  rw [afterMessages_eq, recordedAlerts, pushAlerts, List.foldl_filter]
  show ((decodedAlerts bodies).foldl (History.afterAlert capacity) s.history).pages chain = _
  generalize s.history = h
  induction decodedAlerts bodies generalizing h with
  | nil => rfl
  | cons a rest ih => rw [List.foldl_cons, List.foldl_cons, ih, History.pages_afterAlert]

theorem Stores.mem_names_afterMessages {capacity : UInt32} {s : Stores} {bodies : List Bytes}
    {chain : String} :
    chain ∈ (s.afterMessages capacity bodies).history.names ↔
      recordedAlerts chain bodies ≠ [] ∨ chain ∈ s.history.names := by
  rw [afterMessages_eq, recordedAlerts]
  show chain ∈ ((decodedAlerts bodies).foldl (History.afterAlert capacity) s.history).names ↔ _
  generalize s.history = h
  induction decodedAlerts bodies generalizing h with
  | nil => simp
  | cons a rest ih =>
    rw [List.foldl_cons, ih, History.mem_names_afterAlert, List.filter_cons]
    cases a.isRecorded && a.parent == chain <;> simp

theorem pagesHold_afterMessages {capacity : UInt32} (positive : 0 < capacity)
    (bodies : List Bytes) (chain : String) :
    PagesHold capacity ((recordedAlerts chain bodies).map Alert.entry)
      ((Stores.empty.afterMessages capacity bodies).history.pages chain) := by
  have begin : PagesHold capacity [] (Stores.empty.history.pages chain) := ⟨[], .nil, .nil⟩
  have pushed := begin.push_all positive (recordedAlerts chain bodies)
  rw [← Stores.pages_afterMessages, List.nil_append] at pushed
  exact pushed

/-- What the pages of a chain keep altogether, whatever blocks it is cut into. -/
theorem alerts_afterMessages {capacity : UInt32} (positive : 0 < capacity)
    (bodies : List Bytes) (chain : String) :
    ((Stores.empty.afterMessages capacity bodies).history.pages chain).flatMap (·.alerts) =
      (recordedAlerts chain bodies).map Summary.ofAlert := by
  rw [(pagesHold_afterMessages positive bodies chain).alerts, List.map_map]
  rfl

/-- The history is exact: the pages of a chain are the alerts that were recorded for it, cut into
blocks of the capacity, and a page that is full is never changed again. -/
theorem history_exact {capacity : UInt32} (positive : 0 < capacity) (bodies : List Bytes)
    (chain : String) :
    PagesHold capacity ((recordedAlerts chain bodies).map Alert.entry)
        ((Stores.empty.afterMessages capacity bodies).history.pages chain) ∧
      (chain ∈ (Stores.empty.afterMessages capacity bodies).history.names ↔
        recordedAlerts chain bodies ≠ []) ∧
      ((Stores.empty.afterMessages capacity bodies).history.pages chain).flatMap (·.alerts) =
        (recordedAlerts chain bodies).map Summary.ofAlert ∧
      (∀ p ∈ (Stores.empty.afterMessages capacity bodies).history.pages chain,
        p.count ≤ capacity) ∧
      ∀ (later : List Bytes) (i : Nat) (p : Page),
        ((Stores.empty.afterMessages capacity bodies).history.pages chain)[i]? = some p →
        p.count = capacity →
        ((Stores.empty.afterMessages capacity (bodies ++ later)).history.pages chain)[i]? =
          some p := by
  have exact := pagesHold_afterMessages positive bodies chain
  refine ⟨exact, ?_, alerts_afterMessages positive bodies chain, exact.count_le, ?_⟩
  · rw [Stores.mem_names_afterMessages]
    simp [Stores.empty, History.names, History.empty, OrderedTable.keys, OrderedTable.empty]
  · intro later i p hp full
    have closed : p.isOpen capacity = false := by simp [Page.isOpen, full]
    rw [Stores.afterMessages_append, Stores.pages_afterMessages]
    exact getElem?_pushAlerts_of_closed hp closed _

def missedBlocksMessage (severity chain metric seconds : String) : Bytes :=
  Utf8.encode ("[\"" ++ severity ++ "\",[1,\"MissedBlocks\"],\"nodeA\",\"" ++ chain ++
    "\",\"missed\",\"" ++ metric ++ "\"," ++ seconds ++ "]").toList

def missedBlocks (chain : String) (seconds : Int) : Alert :=
  ⟨.warning, ⟨1, "MissedBlocks"⟩, "nodeA", chain, "missed", "missed_blocks", .ofInt seconds⟩

/-- Messages of two chains, with one that is no text, one that is internal, and one about a metric
that is not known. -/
def mixedMessages : List Bytes := [
  missedBlocksMessage "WARNING" "chainX" "missed_blocks" "50", [0xff],
  missedBlocksMessage "WARNING" "chainY" "missed_blocks" "20",
  missedBlocksMessage "WARNING" "chainX" "missed_blocks" "10",
  missedBlocksMessage "INTERNAL" "chainX" "missed_blocks" "11",
  missedBlocksMessage "WARNING" "chainX" "no_metric" "12",
  missedBlocksMessage "WARNING" "chainX" "missed_blocks" "90"]

/-- With a capacity of two, the third alert of a chain opens its second page. -/
theorem history_exact_mixed :
    (0 : UInt32) < 2 ∧
      PagesHold 2
        ([missedBlocks "chainX" 50, missedBlocks "chainX" 10, missedBlocks "chainX" 90].map
          Alert.entry)
        ((Stores.empty.afterMessages 2 mixedMessages).history.pages "chainX") ∧
      "chainX" ∈ (Stores.empty.afterMessages 2 mixedMessages).history.names := by
  have positive : (0 : UInt32) < 2 := by decide
  have recorded : recordedAlerts "chainX" mixedMessages =
      [missedBlocks "chainX" 50, missedBlocks "chainX" 10, missedBlocks "chainX" 90] := by
    decide +kernel
  obtain ⟨pages, names, _⟩ := history_exact positive mixedMessages "chainX"
  rw [recorded] at pages names
  exact ⟨positive, pages, names.mpr (by simp)⟩

end AlertLedger
