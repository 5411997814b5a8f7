import AlertLedger.FieldTables
import AlertLedger.Metric
import AlertLedger.Reset

namespace AlertLedger

/-- A place of the snapshot: a field of a hash. -/
structure Cell where
  hash : String
  field : String
deriving DecidableEq

/-- The latest states: hashes of fields, each with its value. A hash is there as long as it has a
field, which every change keeps so. -/
structure Snapshot where
  tables : FieldTables
  fielded : tables.Fielded

namespace Snapshot

def empty : Snapshot := ⟨.empty, .empty⟩

def get? (s : Snapshot) (hash field : String) : Option String := s.tables.get? hash field

def set (s : Snapshot) (hash field value : String) : Snapshot :=
  ⟨s.tables.set hash field value, s.fielded.set hash field value⟩

def entries (s : Snapshot) (hash : String) : List (String × String) := s.tables.entries hash

def fields (s : Snapshot) (hash : String) : List String := s.tables.fields hash

def remove (s : Snapshot) (hash : String) (fields : List String) : Snapshot :=
  ⟨(s.tables.remove hash fields).2, s.fielded.remove hash fields⟩

/-- How many fields a removal finds. -/
def removed (s : Snapshot) (hash : String) (fields : List String) : Nat :=
  (s.tables.remove hash fields).1

def hashes (s : Snapshot) : List String := s.tables.hashes

def hashesStarting (s : Snapshot) (start : String) : List String := s.tables.hashesStarting start

@[simp] theorem get?_empty (hash field : String) : empty.get? hash field = none := rfl

@[simp] theorem get?_set (s : Snapshot) (hash field value h f : String) :
    (s.set hash field value).get? h f =
      if h = hash ∧ f = field then some value else s.get? h f :=
  s.tables.get?_set hash field value h f

@[simp] theorem get?_remove (s : Snapshot) (hash : String) (fields : List String)
    (h f : String) :
    (s.remove hash fields).get? h f = if h = hash ∧ f ∈ fields then none else s.get? h f :=
  s.tables.get?_remove hash fields h f

theorem mem_fields_iff {s : Snapshot} {hash field : String} :
    field ∈ s.fields hash ↔ (s.get? hash field).isSome :=
  FieldTables.mem_fields_iff

theorem fields_ascending (s : Snapshot) (hash : String) : (s.fields hash).Pairwise (· < ·) :=
  s.tables.fields_ascending hash

theorem mem_hashes_iff {s : Snapshot} {hash : String} :
    hash ∈ s.hashes ↔ ∃ field, (s.get? hash field).isSome :=
  FieldTables.mem_hashes_iff s.fielded

theorem mem_hashesStarting_iff {s : Snapshot} {start hash : String} :
    hash ∈ s.hashesStarting start ↔
      start.toList <+: hash.toList ∧ ∃ field, (s.get? hash field).isSome :=
  FieldTables.mem_hashesStarting_iff s.fielded

theorem ext_get? {s u : Snapshot} (h : ∀ hash field, s.get? hash field = u.get? hash field) :
    s = u := by
  have same : s.tables = u.tables := FieldTables.ext_get? s.fielded u.fielded h
  cases s; cases u; cases same; rfl

end Snapshot

/-- What every chain's hash starts with, and no other hash. -/
def chainHashStem : String := "hash_p1_"

def chainHash (parent : String) : String := chainHashStem ++ parent

/-- The latest state of a metric, as the snapshot holds it. -/
structure LatestState where
  severity : Severity
  message : String
deriving DecidableEq

inductive LatestState.Field
  | severity
  | message
deriving DecidableEq

@[reducible] def LatestState.Field.Value : LatestState.Field → Type
  | .severity => Severity
  | .message => String

namespace LatestState

def shape : RecordShape LatestState where
  title := "LatestState"
  Field := LatestState.Field
  decEq := inferInstance
  fields := [.severity, .message]
  complete f := by cases f <;> simp
  label
    | .severity => "severity"
    | .message => "message"
  Value := LatestState.Field.Value
  read
    | .severity => Severity.reader
    | .message => Json.text
  write
    | .severity, v => v.chars
    | .message, v => Json.textChars v
  build v := ⟨v .severity, v .message⟩
  get s
    | .severity => s.severity
    | .message => s.message

def ofAlert (a : Alert) : LatestState := ⟨a.severity, a.message⟩

def toJson (s : LatestState) : String := String.ofList (Json.recordChars shape s)

end LatestState

end AlertLedger
