import AlertLedger.Proofs.HistoryBlocks

namespace AlertLedger

/-- Blocks that share a list out: each of its members is in one block, and every block has its
members in the order of the list. -/
structure SharedOut {α : Type} (xs : List α) (blocks : List (List α)) : Prop where
  all : blocks.flatten.Perm xs
  inOrder : ∀ b ∈ blocks, b.Sublist xs

namespace SharedOut

variable {α : Type} {xs : List α} {x : α} {blocks front back : List (List α)} {b : List α}

theorem nil : SharedOut ([] : List α) [] := ⟨.nil, by simp⟩

theorem begin_block (h : SharedOut xs blocks) : SharedOut (xs ++ [x]) (blocks ++ [[x]]) := by
  refine ⟨?_, ?_⟩
  · rw [List.flatten_append, List.flatten_singleton]
    exact h.all.append_right [x]
  · intro c hc
    rcases List.mem_append.mp hc with hc | hc
    · exact (h.inOrder c hc).trans (List.sublist_append_left xs [x])
    · rw [List.mem_singleton.mp hc]
      exact List.sublist_append_right xs [x]

theorem extend_block (h : SharedOut xs (front ++ b :: back)) :
    SharedOut (xs ++ [x]) (front ++ (b ++ [x]) :: back) := by
  refine ⟨?_, ?_⟩
  · have moved : (back.flatten ++ [x]).Perm ([x] ++ back.flatten) := List.perm_append_comm
    have joined := ((moved.append_left b).append_left front.flatten).symm.trans
      (List.Perm.of_eq (by simp : _ = (front ++ b :: back).flatten ++ [x]))
    have all := joined.trans (h.all.append_right [x])
    simpa using all
  · intro c hc
    have grown (d : List α) (hd : d ∈ front ++ b :: back) : d.Sublist (xs ++ [x]) :=
      (h.inOrder d hd).trans (List.sublist_append_left xs [x])
    rcases List.mem_append.mp hc with hc | hc
    · exact grown c (List.mem_append_left _ hc)
    rcases List.mem_cons.mp hc with rfl | hc
    · exact (h.inOrder b (by simp)).append (List.Sublist.refl [x])
    · exact grown c (by simp [hc])

end SharedOut

/-- What an entry leaves in a page. -/
def HistoryEntry.content (e : HistoryEntry) : Summary × Binary64 := (e.summary, e.timestamp)

def entriesOf (chain : String) (entries : List HistoryEntry) : List HistoryEntry :=
  entries.filter fun e => e.chain == chain

/-- The largest capacity of these entries, and at least one. -/
def largestCapacity (entries : List HistoryEntry) : Nat :=
  entries.foldl (fun n e => max n e.capacity.toNat) 1

/-- What a push makes of the pages of its chain. It writes on one page alone, behind what is there:
on the first page whose count is below the capacity, or on a new one. A count that grows is below
the largest of 32 bits. -/
inductive PushedOnto (e : HistoryEntry) : List Page → List Page → Prop
  | extended (front back : List Page) (p : Page) (closed : ∀ q ∈ front, e.capacity ≤ q.count)
      (room : p.count < e.capacity) (fits : p.count.toNat < 4294967295) :
      PushedOnto e (front ++ p :: back) (front ++ p.push e.summary e.timestamp :: back)
  | begun {pages : List Page} (closed : ∀ q ∈ pages, e.capacity ≤ q.count) :
      PushedOnto e pages (pages ++ [.opening e.summary e.timestamp])

/-- The pages share out these entries. None holds more of them than the largest capacity. -/
def PagesShare (entries : List HistoryEntry) (pages : List Page) : Prop :=
  ∃ blocks, SharedOut entries blocks ∧
    List.Forall₂ (fun p b => p.Holds (b.map HistoryEntry.content)) pages blocks ∧
    ∀ b ∈ blocks, b.length ≤ largestCapacity entries

theorem largestCapacity_concat (entries : List HistoryEntry) (e : HistoryEntry) :
    largestCapacity (entries ++ [e]) = max (largestCapacity entries) e.capacity.toNat := by
  rw [largestCapacity, List.foldl_append]
  rfl

theorem one_le_largestCapacity (entries : List HistoryEntry) : 1 ≤ largestCapacity entries := by
  induction entries using List.reverseRecOn with
  | nil => exact Nat.le_refl 1
  | append_singleton entries e ih =>
    rw [largestCapacity_concat]
    omega

theorem pushedOnto_pushPage {pages : List Page} (kinds : ∀ p ∈ pages, p.kind = alertPageKind)
    (e : HistoryEntry) : PushedOnto e pages (pushPage e.capacity e.summary e.timestamp pages) := by
  induction pages with
  | nil => exact .begun (by simp)
  | cons p ps ih =>
    obtain ⟨kind, kinds⟩ := List.forall_mem_cons.mp kinds
    rw [pushPage]
    split
    next isOpen =>
      have room : p.count < e.capacity := by simpa [Page.isOpen, kind] using isOpen
      have limit := e.capacity.toNat_lt
      rw [UInt32.lt_iff_toNat_lt] at room
      exact .extended [] ps p (by simp) (UInt32.lt_iff_toNat_lt.mpr room) (by omega)
    next closed =>
      have full : e.capacity ≤ p.count := by simpa [Page.isOpen, kind] using closed
      generalize pushPage e.capacity e.summary e.timestamp ps = after at ih
      cases ih kinds with
      | extended front back q others room fits =>
        exact .extended (p :: front) back q (List.forall_mem_cons.mpr ⟨full, others⟩) room fits
      | begun others => exact .begun (List.forall_mem_cons.mpr ⟨full, others⟩)

theorem PagesShare.pushed {entries : List HistoryEntry} {pages after : List Page}
    (h : PagesShare entries pages) {e : HistoryEntry} (pushed : PushedOnto e pages after) :
    PagesShare (entries ++ [e]) after := by
  obtain ⟨blocks, shared, held, bound⟩ := h
  have grown : largestCapacity entries ≤ largestCapacity (entries ++ [e]) := by
    rw [largestCapacity_concat]
    exact Nat.le_max_left _ _
  cases pushed with
  | extended front back p closed room fits =>
    obtain ⟨before, b, later, rfl, hfront, hp, hback⟩ := exists_split_of_forall₂ held
    have isOpen := hp.isOpen_iff.mpr (hp.count ▸ UInt32.lt_iff_toNat_lt.mp room)
    have written := hp.push isOpen e.summary e.timestamp
    have content : (b ++ [e]).map HistoryEntry.content =
        b.map HistoryEntry.content ++ [(e.summary, e.timestamp)] := List.map_append
    rw [← content] at written
    refine ⟨before ++ (b ++ [e]) :: later, shared.extend_block,
      List.rel_append hfront (.cons written hback), ?_⟩
    intro c hc
    rcases List.mem_append.mp hc with hc | hc
    · exact Nat.le_trans (bound c (List.mem_append_left _ hc)) grown
    rcases List.mem_cons.mp hc with rfl | hc
    · have count := hp.count
      rw [UInt32.lt_iff_toNat_lt, count, List.length_map] at room
      rw [largestCapacity_concat, List.length_append, List.length_singleton]
      omega
    · exact Nat.le_trans (bound c (by simp [hc])) grown
  | begun closed =>
    refine ⟨blocks ++ [[e]], shared.begin_block,
      List.rel_append held (.cons (Page.holds_opening e.summary e.timestamp) .nil), ?_⟩
    intro c hc
    rcases List.mem_append.mp hc with hc | hc
    · exact Nat.le_trans (bound c hc) grown
    · rw [List.mem_singleton.mp hc]
      exact one_le_largestCapacity _

theorem PagesShare.exists_block {entries : List HistoryEntry} {pages : List Page}
    (h : PagesShare entries pages) {p : Page} (hp : p ∈ pages) :
    ∃ b : List HistoryEntry, p.Holds (b.map HistoryEntry.content) ∧
      b.length ≤ largestCapacity entries := by
  obtain ⟨blocks, _, held, bound⟩ := h
  obtain ⟨front, back, rfl⟩ := List.append_of_mem hp
  obtain ⟨before, b, after, rfl, _, holds, _⟩ := exists_split_of_forall₂ held
  exact ⟨b, holds, bound b (by simp)⟩

theorem PagesShare.kinds {entries : List HistoryEntry} {pages : List Page}
    (h : PagesShare entries pages) : ∀ p ∈ pages, p.kind = alertPageKind := by
  intro p hp
  obtain ⟨b, holds, _⟩ := h.exists_block hp
  exact holds.kind

theorem PagesShare.alerts {entries : List HistoryEntry} {pages : List Page}
    (h : PagesShare entries pages) :
    (pages.flatMap (·.alerts)).Perm (entries.map (·.summary)) := by
  obtain ⟨blocks, shared, held, bound⟩ := h
  have joined : pages.flatMap (·.alerts) = blocks.flatten.map (·.summary) := by
    clear shared bound
    induction held with
    | nil => rfl
    | cons hp _ ih =>
      rw [List.flatMap_cons, List.flatten_cons, List.map_append, ih, hp.alerts, List.map_map]
      rfl
  rw [joined]
  exact shared.all.map _

theorem History.afterEntries_concat (h : History) (entries : List HistoryEntry)
    (e : HistoryEntry) : h.afterEntries (entries ++ [e]) =
      (h.afterEntries entries).push e.chain e.summary e.timestamp e.capacity := by
  rw [afterEntries, List.foldl_append]
  rfl

theorem entriesOf_concat (chain : String) (entries : List HistoryEntry) (e : HistoryEntry) :
    entriesOf chain (entries ++ [e]) =
      if e.chain = chain then entriesOf chain entries ++ [e] else entriesOf chain entries := by
  by_cases own : e.chain = chain <;> simp [entriesOf, own]

theorem pagesShare_afterEntries (entries : List HistoryEntry) (chain : String) :
    PagesShare (entriesOf chain entries) ((History.empty.afterEntries entries).pages chain) := by
  induction entries using List.reverseRecOn with
  | nil => exact ⟨[], .nil, .nil, by simp⟩
  | append_singleton entries e ih =>
    rw [entriesOf_concat, History.afterEntries_concat, History.pages_push]
    by_cases own : e.chain = chain
    · subst own
      rw [if_pos rfl, if_pos rfl]
      exact ih.pushed (pushedOnto_pushPage ih.kinds e)
    · rw [if_neg own, if_neg (Ne.symm own)]
      exact ih

/-- The history is kept with whatever capacities alerts are pushed. The pages of a chain share out
its alerts, none of them beyond the largest capacity so far, and each push writes on one page alone,
which is not full. -/
theorem history_kept_under_changing_capacities (entries : List HistoryEntry) :
    (∀ chain, PagesShare (entriesOf chain entries)
        ((History.empty.afterEntries entries).pages chain) ∧
      (((History.empty.afterEntries entries).pages chain).flatMap (·.alerts)).Perm
        ((entriesOf chain entries).map (·.summary)) ∧
      ∀ p ∈ (History.empty.afterEntries entries).pages chain,
        p.kind = "alert" ∧ p.count.toNat = p.alerts.length ∧ 1 ≤ p.alerts.length ∧
          p.count.toNat ≤ largestCapacity (entriesOf chain entries)) ∧
    ∀ e : HistoryEntry,
      PushedOnto e ((History.empty.afterEntries entries).pages e.chain)
        ((History.empty.afterEntries (entries ++ [e])).pages e.chain) ∧
      (∀ (i : Nat) (p : Page), ((History.empty.afterEntries entries).pages e.chain)[i]? = some p →
        e.capacity ≤ p.count →
        ((History.empty.afterEntries (entries ++ [e])).pages e.chain)[i]? = some p) ∧
      ∀ other, other ≠ e.chain → (History.empty.afterEntries (entries ++ [e])).pages other =
        (History.empty.afterEntries entries).pages other := by
  refine ⟨?_, ?_⟩
  · intro chain
    have share := pagesShare_afterEntries entries chain
    refine ⟨share, share.alerts, ?_⟩
    intro p hp
    obtain ⟨b, holds, bound⟩ := share.exists_block hp
    have length : p.alerts.length = b.length := by
      rw [holds.alerts, List.length_map, List.length_map]
    have count := holds.count
    obtain ⟨t, ts, times, _⟩ := holds.bounds
    have filled := congrArg List.length times
    simp only [List.length_map, List.length_cons] at count filled
    exact ⟨holds.kind, by omega, by omega, by omega⟩
  · intro e
    have share := pagesShare_afterEntries entries e.chain
    rw [History.afterEntries_concat]
    refine ⟨?_, ?_, ?_⟩
    · rw [History.pages_push, if_pos rfl]
      exact pushedOnto_pushPage share.kinds e
    · intro i p hp full
      have closed : p.isOpen e.capacity = false := by simp [Page.isOpen, UInt32.not_lt.mpr full]
      rw [History.pages_push, if_pos rfl]
      exact getElem?_pushPage_of_closed hp closed
    · intro other ho
      rw [History.pages_push, if_neg ho]

/-- A page that was full takes alerts again when the capacity grows. -/
example : ((History.empty.afterEntries ([1, 1, 3, 0].map fun capacity =>
    ⟨"chainX", .ofAlert (missedBlocks "chainX" 50), .ofInt 50, capacity⟩)).pages "chainX").map
      (·.count) = [2, 1, 1] := by
  decide +kernel

end AlertLedger
