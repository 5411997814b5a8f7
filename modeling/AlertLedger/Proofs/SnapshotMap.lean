import AlertLedger.Proofs.TableCells
import AlertLedger.Proofs.Utf8Text

namespace AlertLedger

/-- All that tables of fields are asked: the calls of their store, and to read a cell or a whole
hash. -/
inductive SnapshotUse
  | call (c : SnapshotCall)
  | read (hash field : String)
  | readAll (hash : String)
deriving DecidableEq

@[reducible] def SnapshotUse.Answer : SnapshotUse → Type
  | .call c => c.Answer
  | .read _ _ => Option String
  | .readAll _ => List (String × String)

namespace FieldTables

def reply : (u : SnapshotUse) → FieldTables → u.Answer × FieldTables
  | .call c, t => t.answer c
  | .read hash field, t => (t.get? hash field, t)
  | .readAll hash, t => (t.entries hash, t)

def afterUses (t : FieldTables) (uses : List SnapshotUse) : FieldTables :=
  uses.foldl (fun t u => (t.reply u).2) t

theorem afterUses_append (t : FieldTables) (front back : List SnapshotUse) :
    t.afterUses (front ++ back) = (t.afterUses front).afterUses back :=
  List.foldl_append

theorem Fielded.reply {t : FieldTables} (fielded : t.Fielded) (u : SnapshotUse) :
    (t.reply u).2.Fielded := by
  cases u with
  | call c => exact fielded.answer c
  | read hash field => exact fielded
  | readAll hash => exact fielded

/-- No use leaves a hash without fields, so none of them ever comes about. -/
theorem Fielded.afterUses {t : FieldTables} (fielded : t.Fielded) (uses : List SnapshotUse) :
    (t.afterUses uses).Fielded := by
  induction uses generalizing t with
  | nil => exact fielded
  | cons u uses ih => exact ih (fielded.reply u)

end FieldTables

/-- Cells with their values, as a function and nothing else. -/
abbrev CellValues := String → String → Option String

namespace CellValues

def empty : CellValues := fun _ _ => none

def after (f : CellValues) : SnapshotUse → CellValues
  | .call (.setField hash field value) => fun h g =>
    if h = hash ∧ g = field then some value else f h g
  | .call (.removeFields hash fields) => fun h g =>
    if h = hash ∧ g ∈ fields then none else f h g
  | .call (.fieldsOf _) | .call (.hashesStarting _) | .read _ _ | .readAll _ => f

def afterUses (f : CellValues) (uses : List SnapshotUse) : CellValues := uses.foldl after f

/-- Texts in strictly ascending order of their UTF-8 bytes. -/
def Ascending (texts : List String) : Prop :=
  texts.Pairwise fun a b => Utf8.encode a.toList < Utf8.encode b.toList

/-- The answers that are right for these cells. -/
def Answers (f : CellValues) : (u : SnapshotUse) → u.Answer → Prop
  | .call (.setField _ _ _), _ => True
  | .call (.fieldsOf hash), fields => Ascending fields ∧ ∀ g, g ∈ fields ↔ ∃ v, f hash g = some v
  | .call (.removeFields hash fields), n => n = {g ∈ fields.toFinset | (f hash g).isSome}.card
  | .call (.hashesStarting start), hashes => Ascending hashes ∧
    ∀ h, h ∈ hashes ↔ start.toList <+: h.toList ∧ ∃ g v, f h g = some v
  | .read hash field, value => value = f hash field
  | .readAll hash, entries => Ascending (entries.map (·.1)) ∧
    ∀ g v, (g, v) ∈ entries ↔ f hash g = some v

theorem ascending_of_pairwise {texts : List String} (h : texts.Pairwise (· < ·)) :
    Ascending texts :=
  h.imp Utf8.encode_lt_encode_iff.mpr

end CellValues

namespace FieldTables

/-- The values of the cells. -/
def values (t : FieldTables) : CellValues := t.get?

theorem values_reply (t : FieldTables) (u : SnapshotUse) :
    (t.reply u).2.values = t.values.after u := by
  funext h g
  cases u with
  | call c =>
    cases c with
    | setField hash field value => exact t.get?_set hash field value h g
    | removeFields hash fields => exact t.get?_remove hash fields h g
    | fieldsOf hash => rfl
    | hashesStarting start => rfl
  | read hash field => rfl
  | readAll hash => rfl

theorem values_afterUses (t : FieldTables) (uses : List SnapshotUse) :
    (t.afterUses uses).values = t.values.afterUses uses := by
  induction uses generalizing t with
  | nil => rfl
  | cons u uses ih =>
    refine (ih (t.reply u).2).trans ?_
    rw [values_reply]
    rfl

/-- Without hashes that have no fields, the tables answer as their cells say. -/
theorem Fielded.answers {t : FieldTables} (fielded : t.Fielded) (u : SnapshotUse) :
    t.values.Answers u (t.reply u).1 := by
  cases u with
  | call c =>
    cases c with
    | setField hash field value => trivial
    | fieldsOf hash =>
      refine ⟨CellValues.ascending_of_pairwise (t.fields_ascending hash), ?_⟩
      intro g
      exact mem_fields_iff.trans Option.isSome_iff_exists
    | removeFields hash fields => exact t.remove_count hash fields
    | hashesStarting start =>
      refine ⟨CellValues.ascending_of_pairwise (t.hashes_ascending.filter _), ?_⟩
      intro h
      show h ∈ t.hashesStarting start ↔ _
      simp only [mem_hashesStarting_iff fielded, Option.isSome_iff_exists, values]
  | read hash field => rfl
  | readAll hash =>
    refine ⟨CellValues.ascending_of_pairwise (t.fields_ascending hash), ?_⟩
    intro g v
    exact mem_entries_iff

/-- Behind a removal of all its fields a hash is not there. -/
theorem not_mem_hashes_remove {t : FieldTables} (fielded : t.Fielded) {hash : String}
    {fields : List String} (listed : ∀ field ∈ t.fields hash, field ∈ fields) :
    hash ∉ (t.remove hash fields).2.hashes := by
  rw [mem_hashes_iff (fielded.remove hash fields)]
  rintro ⟨field, held⟩
  rw [get?_remove] at held
  split at held
  next => cases held
  next stays => exact stays ⟨rfl, listed field (mem_fields_iff.mpr held)⟩

end FieldTables

namespace CellValues

variable {f : CellValues} {hash field value : String}

theorem set_of_after {u : SnapshotUse} (h : f.after u hash field = some value) :
    f hash field = some value ∨ u = .call (.setField hash field value) := by
  cases u with
  | call c =>
    cases c with
    | setField other g v =>
      simp only [after] at h
      split at h
      next own =>
        obtain ⟨rfl, rfl⟩ := own
        exact .inr (by rw [Option.some.inj h])
      next => exact .inl h
    | removeFields other fields =>
      simp only [after] at h
      split at h
      next => cases h
      next => exact .inl h
    | fieldsOf other => exact .inl h
    | hashesStarting start => exact .inl h
  | read other g => exact .inl h
  | readAll other => exact .inl h

/-- A value behind some uses is one from before, or one of these uses set it. -/
theorem set_of_afterUses {uses : List SnapshotUse}
    (h : f.afterUses uses hash field = some value) :
    f hash field = some value ∨ .call (.setField hash field value) ∈ uses := by
  induction uses generalizing f with
  | nil => exact .inl h
  | cons u uses ih =>
    rcases ih h with before | later
    · exact (set_of_after before).imp_right fun same => List.mem_cons.mpr (.inl same.symm)
    · exact .inr (List.mem_cons_of_mem u later)

/-- Uses that set values of `w` only, and one at this cell unless it has its value already. -/
theorem afterUses_of_writes {w : CellValues} {uses : List SnapshotUse}
    (sets : ∀ u ∈ uses, ∃ h g v, u = .call (.setField h g v) ∧ w h g = some v)
    (reached : f hash field = w hash field ∨ ∃ v, .call (.setField hash field v) ∈ uses) :
    f.afterUses uses hash field = w hash field := by
  induction uses generalizing f with
  | nil => exact reached.resolve_right (by simp)
  | cons u uses ih =>
    obtain ⟨h, g, v, rfl, own⟩ := sets u List.mem_cons_self
    refine ih (fun u hu => sets u (List.mem_cons_of_mem _ hu)) ?_
    by_cases here : hash = h ∧ field = g
    · obtain ⟨rfl, rfl⟩ := here
      exact .inl (by simp [after, own])
    · rcases reached with before | ⟨v', listed⟩
      · exact .inl (by simp [after, here, before])
      · rcases List.mem_cons.mp listed with same | later
        · cases same
          exact absurd ⟨rfl, rfl⟩ here
        · exact .inr ⟨v', later⟩

end CellValues

namespace FieldTables

/-- A hash that is not there holds later what was set since. -/
theorem set_of_absent {t : FieldTables} {hash field value : String} (absent : hash ∉ t.hashes)
    {uses : List SnapshotUse} (held : (field, value) ∈ (t.afterUses uses).entries hash) :
    .call (.setField hash field value) ∈ uses := by
  have before : t.get? hash field ≠ some value := by
    intro there
    have held : (t.get? hash field).isSome := by simp [there]
    exact absent (mem_hashes_of_get? held)
  have later : t.values.afterUses uses hash field = some value := by
    rw [← values_afterUses]
    exact mem_entries_iff.mp held
  exact (CellValues.set_of_afterUses later).resolve_left before

/-- The uses that write these cells. -/
def writes (t : FieldTables) : List SnapshotUse :=
  t.tables.entries.flatMap fun e => e.2.entries.map fun x => .call (.setField e.1 x.1 x.2)

theorem mem_writes_iff {t : FieldTables} {u : SnapshotUse} : u ∈ t.writes ↔
    ∃ hash field value, u = .call (.setField hash field value) ∧
      t.get? hash field = some value := by
  simp only [writes, List.mem_flatMap, List.mem_map, Prod.exists, OrderedTable.mem_entries_iff,
    get?, Option.bind_eq_some_iff]
  constructor
  · rintro ⟨hash, h, there, field, value, held, rfl⟩
    exact ⟨hash, field, value, rfl, h, there, held⟩
  · rintro ⟨hash, field, value, rfl, h, there, held⟩
    exact ⟨hash, h, there, field, value, held, rfl⟩

/-- The tables that come about are those of snapshots: every hash in them has a field. -/
theorem fielded_iff_reached {t : FieldTables} :
    t.Fielded ↔ ∃ uses, FieldTables.empty.afterUses uses = t := by
  constructor
  · intro fielded
    refine ⟨t.writes, ext_get? (Fielded.empty.afterUses _) fielded fun hash field => ?_⟩
    have run := congrFun (congrFun (FieldTables.empty.values_afterUses t.writes) hash) field
    refine run.trans (CellValues.afterUses_of_writes (fun u => mem_writes_iff.mp) ?_)
    cases held : t.get? hash field with
    | none => exact .inl rfl
    | some value => exact .inr ⟨value, mem_writes_iff.mpr ⟨hash, field, value, rfl, held⟩⟩
  · rintro ⟨uses, rfl⟩
    exact Fielded.empty.afterUses uses

end FieldTables

/-- Tables of tables are a finite map: whatever they were asked before, they answer as a plain
function from cells to values does. No hash is ever without fields, and one that was dropped holds,
when it comes back, what was set since. -/
theorem snapshot_is_finite_map (uses : List SnapshotUse) :
    (∀ u, (CellValues.empty.afterUses uses).Answers u
      ((FieldTables.empty.afterUses uses).reply u).1) ∧
    (∀ hash ∈ (FieldTables.empty.afterUses uses).hashes,
      (FieldTables.empty.afterUses uses).entries hash ≠ []) ∧
    ∀ hash fields, (∀ field ∈ (FieldTables.empty.afterUses uses).fields hash, field ∈ fields) →
      hash ∉ (FieldTables.empty.afterUses (uses ++ [.call (.removeFields hash fields)])).hashes ∧
      ∀ later field value, (field, value) ∈ (FieldTables.empty.afterUses
          (uses ++ .call (.removeFields hash fields) :: later)).entries hash →
        .call (.setField hash field value) ∈ later := by
  have fielded := FieldTables.Fielded.empty.afterUses uses
  have values : (FieldTables.empty.afterUses uses).values = CellValues.empty.afterUses uses :=
    FieldTables.empty.values_afterUses uses
  refine ⟨?_, fun hash => FieldTables.entries_ne_nil_of_mem fielded, ?_⟩
  · intro u
    rw [← values]
    exact fielded.answers u
  · intro hash fields listed
    have dropped := FieldTables.not_mem_hashes_remove fielded listed
    refine ⟨?_, ?_⟩
    · rw [FieldTables.afterUses_append]
      exact dropped
    · intro later field value held
      rw [FieldTables.afterUses_append] at held
      exact FieldTables.set_of_absent dropped held

/-- Fields that are listed twice, or are not there, do not count. -/
example : ((FieldTables.empty.afterUses [.call (.setField "h" "a" "1"),
    .call (.setField "h" "b" "2")]).reply (.call (.removeFields "h" ["a", "x", "a"]))).1 = 1 := by
  decide +kernel

end AlertLedger
