import AlertLedger.StoreCall
import Mathlib.Data.Finset.Card
import Mathlib.Data.List.Pairwise

namespace AlertLedger

namespace OrderedTable

variable {κ α β : Type} [KeyOrder κ]

theorem nodup_keys (t : OrderedTable κ α) : t.keys.Nodup := by
  refine t.keys_ascending.imp ?_
  intro a b hlt same
  exact KeyOrder.irrefl b (same ▸ hlt)

/-- The table with `f` of each entry as its new value, without the entries where that is none. -/
def filterMap (f : κ → α → Option β) (t : OrderedTable κ α) : OrderedTable κ β where
  entries := t.entries.filterMap fun e => (f e.1 e.2).map (e.1, ·)
  ascending := by
    refine t.ascending.filterMap _ ?_
    intro a b less c hc d hd
    obtain ⟨v, _, rfl⟩ := Option.map_eq_some_iff.mp hc
    obtain ⟨w, _, rfl⟩ := Option.map_eq_some_iff.mp hd
    exact less

@[simp] theorem get?_filterMap [DecidableEq κ] (f : κ → α → Option β) (t : OrderedTable κ α)
    (k : κ) : (t.filterMap f).get? k = (t.get? k).bind (f k) := by
  ext v
  rw [← mem_entries_iff, Option.bind_eq_some_iff]
  simp only [filterMap, List.mem_filterMap, Option.map_eq_some_iff, Prod.mk.injEq,
    ← mem_entries_iff, Prod.exists]
  constructor
  · rintro ⟨_, a, there, w, made, rfl, rfl⟩
    exact ⟨a, there, made⟩
  · rintro ⟨a, there, made⟩
    exact ⟨k, a, there, v, made, rfl, rfl⟩

end OrderedTable

namespace FieldTables

/-- The loop goes over the caller's list: a field counts where it comes up first, as it is gone
after that. -/
theorem takeOut_count (fields : List String) (n : Nat) (h : OrderedTable String String) :
    (takeOut fields n h).1 = n + {f ∈ fields.toFinset | (h.get? f).isSome}.card := by
  induction fields generalizing n h with
  | nil => simp [takeOut]
  | cons f fs ih =>
    have later : {g ∈ fs.toFinset | ((h.erase f).get? g).isSome} =
        {g ∈ (f :: fs).toFinset | (h.get? g).isSome}.erase f := by
      ext g
      by_cases hg : g = f <;> simp [hg]
    rw [takeOut, ih, later]
    by_cases there : (h.get? f).isSome
    · have own : f ∈ ({g ∈ (f :: fs).toFinset | (h.get? g).isSome} : Finset String) := by
        simp [there]
      have positive := Finset.card_pos.mpr ⟨f, own⟩
      rw [if_pos there, Finset.card_erase_of_mem own]
      omega
    · rw [if_neg there, Finset.erase_eq_of_notMem (by simp [there])]

theorem remove_count (t : FieldTables) (hash : String) (fields : List String) :
    (t.remove hash fields).1 = {f ∈ fields.toFinset | (t.get? hash f).isSome}.card := by
  cases there : t.tables.get? hash with
  | none => simp [remove_of_none there, get?, there]
  | some w =>
    rw [(remove_of_some there fields).1, takeOut_count, Nat.zero_add]
    simp only [get?, there, Option.bind_some]

theorem tables_remove_of_ne (t : FieldTables) {hash other : String} (fields : List String)
    (h : other ≠ hash) : (t.remove hash fields).2.tables.get? other = t.tables.get? other := by
  cases there : t.tables.get? hash with
  | none => rw [remove_of_none there]
  | some w => rw [(remove_of_some there fields).2, if_neg h]

/-- The tables without the cells that fail `p`. -/
def keepCells (p : String → String → Bool) (t : FieldTables) : FieldTables where
  tables := t.tables.filterMap fun hash h =>
    let kept := h.keep (p hash)
    if kept.entries = [] then none else some kept

theorem get?_keepCells (p : String → String → Bool) (t : FieldTables) (hash field : String) :
    (t.keepCells p).get? hash field = if p hash field then t.get? hash field else none := by
  simp only [get?, keepCells, OrderedTable.get?_filterMap]
  cases t.tables.get? hash with
  | none => simp
  | some h =>
    rw [Option.bind_some, Option.bind_some, ← OrderedTable.get?_keep]
    split
    next emptied => exact (OrderedTable.get?_of_entries_eq_nil emptied field).symm
    next => rfl

theorem fielded_keepCells (p : String → String → Bool) (t : FieldTables) :
    (t.keepCells p).Fielded := by
  intro hash h there
  simp only [keepCells, OrderedTable.get?_filterMap, Option.bind_eq_some_iff] at there
  obtain ⟨w, _, kept⟩ := there
  split at kept
  next => cases kept
  next stays =>
    cases kept
    exact stays

/-- The cells that have a value, one hash after the other. -/
def cells (t : FieldTables) : List Cell :=
  t.tables.entries.flatMap fun e => e.2.keys.map (Cell.mk e.1)

theorem mem_cells_iff {t : FieldTables} {c : Cell} :
    c ∈ t.cells ↔ (t.get? c.hash c.field).isSome := by
  obtain ⟨hash, field⟩ := c
  simp only [cells, List.mem_flatMap, List.mem_map, OrderedTable.mem_keys_iff, Cell.mk.injEq,
    Prod.exists, OrderedTable.mem_entries_iff, get?]
  constructor
  · rintro ⟨_, h, there, _, held, rfl, rfl⟩
    rwa [there]
  · intro held
    cases there : t.tables.get? hash with
    | none => simp [there] at held
    | some h => exact ⟨hash, h, there, field, by simpa [there] using held, rfl, rfl⟩

end FieldTables

namespace Snapshot

theorem removed_eq_card (s : Snapshot) (hash : String) (fields : List String) :
    s.removed hash fields = {f ∈ fields.toFinset | (s.get? hash f).isSome}.card :=
  s.tables.remove_count hash fields

theorem fields_remove_of_ne (s : Snapshot) {hash other : String} (fields : List String)
    (h : other ≠ hash) : (s.remove hash fields).fields other = s.fields other := by
  have kept := s.tables.tables_remove_of_ne fields h
  simp only [Snapshot.fields, FieldTables.fields, FieldTables.table, remove, kept]

theorem nodup_fields (s : Snapshot) (hash : String) : (s.fields hash).Nodup :=
  (s.tables.table hash).nodup_keys

theorem nodup_hashesStarting (s : Snapshot) (start : String) : (s.hashesStarting start).Nodup :=
  s.tables.tables.nodup_keys.filter _

/-- The snapshot without the cells that fail `p`. -/
def keepCells (p : String → String → Bool) (s : Snapshot) : Snapshot :=
  ⟨s.tables.keepCells p, s.tables.fielded_keepCells p⟩

@[simp] theorem get?_keepCells (p : String → String → Bool) (s : Snapshot) (hash field : String) :
    (s.keepCells p).get? hash field = if p hash field then s.get? hash field else none :=
  s.tables.get?_keepCells p hash field

end Snapshot

end AlertLedger
