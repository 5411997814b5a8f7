import AlertLedger.OrderedTable

namespace AlertLedger

/-- Hashes by their names, each of them a table of fields with their values. -/
structure FieldTables where
  tables : OrderedTable String (OrderedTable String String)

namespace FieldTables

def empty : FieldTables := ⟨.empty⟩

/-- The fields of a hash, none if it is not there. -/
def table (t : FieldTables) (hash : String) : OrderedTable String String :=
  (t.tables.get? hash).getD .empty

def get? (t : FieldTables) (hash field : String) : Option String :=
  (t.tables.get? hash).bind (·.get? field)

def set (t : FieldTables) (hash field value : String) : FieldTables :=
  ⟨t.tables.set hash ((t.table hash).set field value)⟩

def entries (t : FieldTables) (hash : String) : List (String × String) := (t.table hash).entries

def fields (t : FieldTables) (hash : String) : List String := (t.table hash).keys

/-- Takes fields out of a table one after the other. Those that were there are counted on from
`removed`. -/
def takeOut : List String → Nat → OrderedTable String String → Nat × OrderedTable String String
  | [], removed, h => (removed, h)
  | f :: fs, removed, h =>
    takeOut fs (if (h.get? f).isSome then removed + 1 else removed) (h.erase f)

/-- Removes fields of a hash, and the hash with its last field. The count is that of the fields
that were there. -/
def remove (t : FieldTables) (hash : String) (fields : List String) : Nat × FieldTables :=
  match t.tables.get? hash with
  | none => (0, t)
  | some h =>
    let left := takeOut fields 0 h
    let tables := t.tables.set hash left.2
    (left.1, ⟨if left.2.entries.isEmpty then tables.erase hash else tables⟩)

/-- The hashes that are there, ascending. -/
def hashes (t : FieldTables) : List String := t.tables.keys

def hashesStarting (t : FieldTables) (start : String) : List String :=
  t.hashes.filter fun h => start.toList.isPrefixOf h.toList

/-- No hash is without fields. -/
def Fielded (t : FieldTables) : Prop := ∀ hash h, t.tables.get? hash = some h → h.entries ≠ []

theorem get?_eq_table (t : FieldTables) (hash field : String) :
    t.get? hash field = (t.table hash).get? field := by
  unfold get? table
  cases t.tables.get? hash <;> rfl

@[simp] theorem get?_empty (hash field : String) : empty.get? hash field = none := rfl

@[simp] theorem get?_set (t : FieldTables) (hash field value h f : String) :
    (t.set hash field value).get? h f =
      if h = hash ∧ f = field then some value else t.get? h f := by
  by_cases hh : h = hash
  · subst hh
    simp only [get?_eq_table, table, set, OrderedTable.get?_set, if_true, Option.getD_some,
      true_and]
  · simp [get?, set, hh]

theorem get?_takeOut (fields : List String) (n : Nat) (h : OrderedTable String String)
    (f : String) : (takeOut fields n h).2.get? f = if f ∈ fields then none else h.get? f := by
  induction fields generalizing n h with
  | nil => simp [takeOut]
  | cons g gs ih =>
    rw [takeOut, ih]
    by_cases hg : f = g <;> by_cases hm : f ∈ gs <;> simp [hg, hm]

section

variable {t : FieldTables} {hash : String} {w : OrderedTable String String}

theorem remove_of_none (absent : t.tables.get? hash = none) (fields : List String) :
    t.remove hash fields = (0, t) := by
  simp only [remove, absent]

/-- What a removal counts, and what it leaves at each name: of the hash the fields that stay, if
any do. -/
theorem remove_of_some (there : t.tables.get? hash = some w) (fields : List String) :
    (t.remove hash fields).1 = (takeOut fields 0 w).1 ∧
      ∀ h, (t.remove hash fields).2.tables.get? h =
        if h = hash then
          if (takeOut fields 0 w).2.entries = [] then none else some (takeOut fields 0 w).2
        else t.tables.get? h := by
  simp only [remove, there]
  refine ⟨trivial, ?_⟩
  intro h
  by_cases emptied : (takeOut fields 0 w).2.entries = [] <;>
    by_cases same : h = hash <;> simp [emptied, same]

end

@[simp] theorem get?_remove (t : FieldTables) (hash : String) (fields : List String)
    (h f : String) :
    (t.remove hash fields).2.get? h f = if h = hash ∧ f ∈ fields then none else t.get? h f := by
  cases there : t.tables.get? hash with
  | none =>
    rw [remove_of_none there]
    by_cases same : h = hash
    · simp [get?, same, there]
    · simp [same]
  | some w =>
    rw [get?, (remove_of_some there fields).2]
    by_cases same : h = hash
    · subst same
      have left := get?_takeOut fields 0 w f
      have before : t.get? h f = w.get? f := by simp [get?, there]
      simp only [if_true, true_and, before, ← left]
      split
      next emptied => exact (OrderedTable.get?_of_entries_eq_nil emptied f).symm
      next => rfl
    · rw [if_neg same, if_neg fun both => same both.1]
      rfl

theorem Fielded.empty : FieldTables.empty.Fielded := by
  intro hash h there
  cases there

theorem Fielded.set {t : FieldTables} (fielded : t.Fielded) (hash field value : String) :
    (t.set hash field value).Fielded := by
  intro other h there
  rw [FieldTables.set, OrderedTable.get?_set] at there
  split at there
  next =>
    cases there
    exact OrderedTable.entries_set_ne_nil _ field value
  next => exact fielded other h there

theorem Fielded.remove {t : FieldTables} (fielded : t.Fielded) (hash : String)
    (fields : List String) : (t.remove hash fields).2.Fielded := by
  cases there : t.tables.get? hash with
  | none =>
    rw [remove_of_none there]
    exact fielded
  | some w =>
    intro other h found
    rw [(remove_of_some there fields).2] at found
    split at found
    next =>
      split at found
      next => cases found
      next stays =>
        cases found
        exact stays
    next => exact fielded other h found

theorem mem_entries_iff {t : FieldTables} {hash field value : String} :
    (field, value) ∈ t.entries hash ↔ t.get? hash field = some value := by
  rw [get?_eq_table]
  exact OrderedTable.mem_entries_iff

theorem mem_fields_iff {t : FieldTables} {hash field : String} :
    field ∈ t.fields hash ↔ (t.get? hash field).isSome := by
  rw [get?_eq_table]
  exact OrderedTable.mem_keys_iff

theorem fields_ascending (t : FieldTables) (hash : String) :
    (t.fields hash).Pairwise (· < ·) :=
  (t.table hash).keys_ascending

theorem hashes_ascending (t : FieldTables) : t.hashes.Pairwise (· < ·) :=
  t.tables.keys_ascending

theorem entries_ne_nil_of_mem {t : FieldTables} (fielded : t.Fielded) {hash : String}
    (there : hash ∈ t.hashes) : t.entries hash ≠ [] := by
  obtain ⟨h, found⟩ := Option.isSome_iff_exists.mp (OrderedTable.mem_keys_iff.mp there)
  rw [entries, table, found]
  exact fielded hash h found

theorem mem_hashes_of_get? {t : FieldTables} {hash field : String}
    (held : (t.get? hash field).isSome) : hash ∈ t.hashes := by
  rw [hashes, OrderedTable.mem_keys_iff]
  unfold get? at held
  cases found : t.tables.get? hash with
  | none => simp [found] at held
  | some h => rfl

theorem mem_hashes_iff {t : FieldTables} (fielded : t.Fielded) {hash : String} :
    hash ∈ t.hashes ↔ ∃ field, (t.get? hash field).isSome := by
  constructor
  · intro there
    obtain ⟨e, _, first⟩ := List.exists_cons_of_ne_nil (entries_ne_nil_of_mem fielded there)
    have held : (e.1, e.2) ∈ t.entries hash := by simp [first]
    exact ⟨e.1, by simp [mem_entries_iff.mp held]⟩
  · rintro ⟨field, held⟩
    exact mem_hashes_of_get? held

theorem mem_hashesStarting_iff {t : FieldTables} (fielded : t.Fielded) {start hash : String} :
    hash ∈ t.hashesStarting start ↔
      start.toList <+: hash.toList ∧ ∃ field, (t.get? hash field).isSome := by
  simp only [hashesStarting, List.mem_filter, mem_hashes_iff fielded, List.isPrefixOf_iff_prefix,
    and_comm]

/-- Tables with the same cells are the same: a hash without fields would be all that the cells do
not show. -/
theorem ext_get? {t u : FieldTables} (ht : t.Fielded) (hu : u.Fielded)
    (same : ∀ hash field, t.get? hash field = u.get? hash field) : t = u := by
  have there (hash : String) :
      (t.tables.get? hash).isSome ↔ (u.tables.get? hash).isSome := by
    have listed : hash ∈ t.hashes ↔ hash ∈ u.hashes := by
      simp only [mem_hashes_iff ht, mem_hashes_iff hu, same]
    simpa only [hashes, OrderedTable.mem_keys_iff] using listed
  have tables (hash : String) : t.tables.get? hash = u.tables.get? hash := by
    have present := there hash
    have fields := same hash
    unfold get? at fields
    cases found : t.tables.get? hash with
    | none =>
      have absent : u.tables.get? hash = none := by simpa [found] using present
      exact absent.symm
    | some h =>
      obtain ⟨w, found'⟩ := Option.isSome_iff_exists.mp (present.mp (by simp [found]))
      rw [found, found'] at fields
      rw [found']
      exact congrArg some (OrderedTable.ext_get? fields)
  cases t; cases u
  exact congrArg FieldTables.mk (OrderedTable.ext_get? tables)

end FieldTables

end AlertLedger
