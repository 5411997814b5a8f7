import AlertLedger.JsonValue

namespace AlertLedger

/-- How the records of a type are written: their fields in order, each with its label, its reader
and its writer. -/
structure RecordShape (α : Type) where
  title : String
  Field : Type
  decEq : DecidableEq Field
  fields : List Field
  complete : ∀ f, f ∈ fields
  label : Field → String
  Value : Field → Type
  read : (f : Field) → Reader (Value f)
  write : (f : Field) → Value f → List Char
  build : ((f : Field) → Value f) → α
  get : α → (f : Field) → Value f

/-- A refusal inside a record. One that the record itself raises has no place until the record was
left. -/
inductive RecordFault
  | placed (fault : Fault)
  | inside (cause : FaultCause) (rest : Bytes)

namespace RecordShape

abbrev Slots (S : RecordShape α) : Type := (f : S.Field) → Option (S.Value f)

variable (S : RecordShape α)

def emptySlots : S.Slots := fun _ => none

variable {S} in
def Slots.fill (slots : S.Slots) (f : S.Field) (v : S.Value f) : S.Slots :=
  fun g => match S.decEq f g with
    | .isTrue h => some (h ▸ v)
    | .isFalse _ => slots g

def fieldLabelled? (name : String) : Option S.Field := S.fields.find? fun f => S.label f == name

/-- The record of the slots, or the first field that is missing. -/
def ofSlots (slots : S.Slots) : Except S.Field α :=
  match h : S.fields.find? fun f => (slots f).isNone with
  | some f => .error f
  | none =>
    have all (f : S.Field) : (slots f).isSome := by
      have := List.find?_eq_none.mp h f (S.complete f)
      cases hf : slots f <;> simp_all
    .ok (S.build fun f => (slots f).get (all f))

end RecordShape

namespace Json

/-- Where the members of an object go on. -/
inductive NextKey
  /-- at the brace that closes the object -/
  | close (rest : Bytes)
  /-- behind the quote that opens a key -/
  | key (rest : Bytes)

def nextKey (first : Bool) (s : Bytes) : Except Fault NextKey :=
  match skipBlank s with
  | [] => .error (.ahead .objectNotClosed [])
  | c :: r =>
    if c = 0x7d then .ok (.close (c :: r))
    else if first then
      if c = 0x22 then .ok (.key r) else .error (.ahead .keyNotText (c :: r))
    else if c = 0x2c then
      match skipBlank r with
      | [] => .error (.ahead .valueMissing [])
      | d :: t =>
        if d = 0x22 then .ok (.key t)
        else if d = 0x7d then .error (.ahead .trailingComma (d :: t))
        else .error (.ahead .keyNotText (d :: t))
    else .error (.ahead .objectCommaWanted (c :: r))

theorem length_nextKey_key {first : Bool} {s r : Bytes} (h : nextKey first s = .ok (.key r)) :
    r.length < s.length := by
  grind [nextKey, length_skipBlank]

theorem length_nextKey_close {first : Bool} {s r : Bytes}
    (h : nextKey first s = .ok (.close r)) : r.length ≤ s.length := by
  grind [nextKey, length_skipBlank]

/-- The members of an object up to its closing brace. Members with other labels are skipped. -/
def readMembers (S : RecordShape α) (first : Bool) (slots : S.Slots) (s : Bytes) :
    Except RecordFault (S.Slots × Bytes) :=
  match hk : nextKey first s with
  | .error f => .error (.placed f)
  | .ok (.close r) => .ok (slots, r)
  | .ok (.key r) =>
    have := length_nextKey_key hk
    match ht : readText r with
    | .error f => .error (.placed f)
    | .ok (name, r) =>
      have := length_readText ht
      match S.fieldLabelled? name with
      | none =>
        match hc : readColon r with
        | .error f => .error (.placed f)
        | .ok r =>
          have := length_readColon hc
          match hv : skipValue [] r with
          | .error f => .error (.placed f)
          | .ok r =>
            have := length_skipValue_skipAfter.1 _ _ _ hv
            readMembers S false slots r
      | some f =>
        if (slots f).isSome then .error (.inside (.repeatedField (S.label f)) r)
        else
          match hc : readColon r with
          | .error f => .error (.placed f)
          | .ok r =>
            have := length_readColon hc
            match hv : (S.read f).run r with
            | .error f => .error (.placed f)
            | .ok (v, r) =>
              have := (S.read f).shrinks hv
              readMembers S false (slots.fill f v) r
termination_by s.length

/-- Where the items of a list go on: at the next item, or nothing at the closing bracket. -/
def nextItem (first : Bool) (s : Bytes) : Except Fault (Option Bytes) :=
  match skipBlank s with
  | [] => .error (.ahead .listNotClosed [])
  | c :: r =>
    if c = 0x5d then .ok none
    else if first then .ok (some (c :: r))
    else if c = 0x2c then
      match skipBlank r with
      | [] => .error (.ahead .valueMissing [])
      | d :: t =>
        if d = 0x5d then .error (.ahead .trailingComma (d :: t)) else .ok (some (d :: t))
    else .error (.ahead .listCommaWanted (c :: r))

/-- The fields of a record as the items of a list, in order; `done` of them are read. -/
def readItems (S : RecordShape α) (done : Nat) (slots : S.Slots) :
    List S.Field → Bytes → Except RecordFault (S.Slots × Bytes)
  | [], s => .ok (slots, s)
  | f :: fs, s =>
    match nextItem (done == 0) s with
    | .error f => .error (.placed f)
    | .ok none => .error (.inside (.tooFewItems done S.title S.fields.length) s)
    | .ok (some r) =>
      match (S.read f).run r with
      | .error f => .error (.placed f)
      | .ok (v, r) => readItems S (done + 1) (slots.fill f v) fs r

def closeObject (s : Bytes) : Except Fault Bytes :=
  match skipBlank s with
  | [] => .error (.ahead .objectNotClosed [])
  | c :: r =>
    if c = 0x7d then .ok r
    else if c = 0x2c then .error (.ahead .trailingComma (c :: r))
    else .error (.ahead .trailingCharacters (c :: r))

def closeList (s : Bytes) : Except Fault Bytes :=
  match skipBlank s with
  | [] => .error (.ahead .listNotClosed [])
  | c :: r =>
    if c = 0x5d then .ok r
    else if c = 0x2c then
      match skipBlank r with
      | [] => .error (.ahead .trailingCharacters [])
      | d :: t =>
        .error (.ahead (if d = 0x5d then .trailingComma else .trailingCharacters) (d :: t))
    else .error (.ahead .trailingCharacters (c :: r))

/-- Where the reading of an object stands after an attempt to leave it. -/
def behindObject (s : Bytes) : Bytes :=
  match skipBlank s with
  | [] => []
  | c :: r => if c = 0x7d then r else c :: r

/-- Where the reading of a list stands after an attempt to leave it. -/
def behindList (s : Bytes) : Bytes :=
  match skipBlank s with
  | [] => []
  | c :: r => if c = 0x5d then r else if c = 0x2c then skipBlank r else c :: r

/-- The record of the slots behind its members or items, `leave` being the way out. -/
def finishRecord (S : RecordShape α) (leave : Bytes → Except Fault Bytes) (behind : Bytes → Bytes)
    (members : Except RecordFault (S.Slots × Bytes)) : Except Fault (α × Bytes) :=
  match members with
  | .error (.placed f) => .error f
  | .error (.inside cause r) => .error (.behind cause (behind r))
  | .ok (slots, r) =>
    match S.ofSlots slots with
    | .error f => .error (.behind (.missingField (S.label f)) (behind r))
    | .ok a =>
      match leave r with
      | .error f => .error f
      | .ok r => .ok (a, r)

/-- A record, as an object or as the list of its fields. -/
def readRecord (S : RecordShape α) (c : UInt8) (r : Bytes) : Except Fault (α × Bytes) :=
  if c = 0x5b then finishRecord S closeList behindList (readItems S 0 S.emptySlots S.fields r)
  else if c = 0x7b then
    finishRecord S closeObject behindObject (readMembers S true S.emptySlots r)
  else .error (mismatch (.record S.title) (c :: r))

theorem length_readMembers {S : RecordShape α} {first : Bool} {slots out : S.Slots} {s r : Bytes}
    (h : readMembers S first slots s = .ok (out, r)) : r.length ≤ s.length := by
  fun_induction readMembers S first slots s <;> grind [→ length_nextKey_close]

theorem length_nextItem {first : Bool} {s r : Bytes} (h : nextItem first s = .ok (some r)) :
    r.length ≤ s.length := by
  grind [nextItem, length_skipBlank]

theorem length_readItems {S : RecordShape α} {done : Nat} {slots out : S.Slots}
    {fs : List S.Field} {s r : Bytes} (h : readItems S done slots fs s = .ok (out, r)) :
    r.length ≤ s.length := by
  induction fs generalizing done slots s with
  | nil => simp only [readItems, Except.ok.injEq, Prod.mk.injEq] at h; simp [h.2]
  | cons f fs ih =>
    rw [readItems] at h
    split at h
    · simp at h
    · simp at h
    next hn =>
      split at h
      · simp at h
      next hv =>
        have := length_nextItem hn
        have := (S.read f).shrinks hv
        have := ih h
        omega

theorem length_closeObject {s r : Bytes} (h : closeObject s = .ok r) : r.length ≤ s.length := by
  grind [closeObject, length_skipBlank]

theorem length_closeList {s r : Bytes} (h : closeList s = .ok r) : r.length ≤ s.length := by
  grind [closeList, length_skipBlank]

theorem finishRecord_eq_ok {S : RecordShape α} {leave : Bytes → Except Fault Bytes}
    {behind : Bytes → Bytes} {members : Except RecordFault (S.Slots × Bytes)} {a : α} {r : Bytes}
    (h : finishRecord S leave behind members = .ok (a, r)) :
    ∃ slots q, members = .ok (slots, q) ∧ S.ofSlots slots = .ok a ∧ leave q = .ok r := by
  unfold finishRecord at h
  grind

theorem length_readRecord {S : RecordShape α} {c : UInt8} {t r : Bytes} {a : α}
    (h : readRecord S c t = .ok (a, r)) : r.length ≤ t.length + 1 := by
  unfold readRecord at h
  split at h
  · obtain ⟨slots, q, hm, _, hl⟩ := finishRecord_eq_ok h
    have := length_readItems hm
    have := length_closeList hl
    omega
  split at h
  · obtain ⟨slots, q, hm, _, hl⟩ := finishRecord_eq_ok h
    have := length_readMembers hm
    have := length_closeObject hl
    omega
  · simp at h

def record (S : RecordShape α) : Reader α where
  run := atValue (readRecord S)
  shrinks := length_atValue length_readRecord

/-- A whole text is one value, with blanks around it. -/
def decode (reader : Reader α) (body : Bytes) : Except DecodeError α :=
  match reader.run body with
  | .error f => .error (f.locate body)
  | .ok (a, r) =>
    match skipBlank r with
    | [] => .ok a
    | c :: t => .error ((Fault.ahead .trailingCharacters (c :: t)).locate body)

def commaSeparated (items : List (List Char)) : List Char := [','].intercalate items

/-- A record as an object with its fields in order and without blanks. -/
def recordChars (S : RecordShape α) (a : α) : List Char :=
  '{' :: commaSeparated (S.fields.map fun f => textChars (S.label f) ++ ':' :: S.write f (S.get a f))
    ++ ['}']

def listChars (item : α → List Char) (as : List α) : List Char :=
  '[' :: commaSeparated (as.map item) ++ [']']

def flagChars (b : Bool) : List Char := (if b then "true" else "false").toList

end Json

end AlertLedger
