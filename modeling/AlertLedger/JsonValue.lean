import AlertLedger.JsonSkip

namespace AlertLedger.Json

/-- The refusal of a value of another type. It stands behind a word, a number or a string, each of
which has to be well formed, and before a list or an object. `s` starts with the value. -/
def mismatch (wanted : WantedValue) (s : Bytes) : Fault :=
  match s with
  | [] => .ahead .valueWanted []
  | c :: r =>
    let word (letters : String) (found : FoundValue) : Fault :=
      match readWord (ascii letters) r with
      | .error f => f
      | .ok r => .behind (.wrongType found wanted) r
    let number (read : Except Fault (JsonNumber × Bytes)) : Fault :=
      match read with
      | .error f => f
      | .ok (.integer i, r) => .behind (.wrongType (.integer i) wanted) r
      | .ok (.real x, r) => .behind (.wrongType (.real x) wanted) r
    if c = 0x6e then word "ull" .null
    else if c = 0x74 then word "rue" (.flag true)
    else if c = 0x66 then word "alse" (.flag false)
    else if c = 0x2d then number (readNumber true r)
    else if isDigit c then number (readNumber false s)
    else if c = 0x22 then
      match readText r with
      | .error f => f
      | .ok (t, r) => .behind (.wrongType (.text t) wanted) r
    else if c = 0x5b then .behind (.wrongType .sequence wanted) s
    else if c = 0x7b then .behind (.wrongType .object wanted) s
    else .ahead .valueWanted s

/-- Reads the text in front of which blanks are dropped; there has to be some. -/
def atValue (read : UInt8 → Bytes → Except Fault (α × Bytes)) (s : Bytes) :
    Except Fault (α × Bytes) :=
  match skipBlank s with
  | [] => .error (.ahead .valueMissing [])
  | c :: r => read c r

theorem length_atValue {read : UInt8 → Bytes → Except Fault (α × Bytes)}
    (hread : ∀ {c : UInt8} {t r : Bytes} {a : α}, read c t = .ok (a, r) → r.length ≤ t.length + 1)
    {s r : Bytes} {a : α} (h : atValue read s = .ok (a, r)) : r.length ≤ s.length := by
  have hb := length_skipBlank s
  unfold atValue at h
  split at h
  · simp at h
  next ht =>
    have := hread h
    rw [ht, List.length_cons] at hb
    omega

def readString (c : UInt8) (r : Bytes) : Except Fault (String × Bytes) :=
  if c = 0x22 then readText r else .error (mismatch .text (c :: r))

theorem length_readString {c : UInt8} {t r : Bytes} {a : String}
    (h : readString c t = .ok (a, r)) : r.length ≤ t.length + 1 := by
  unfold readString at h
  split at h
  · have := length_readText h; omega
  · simp at h

def text : Reader String where
  run := atValue readString
  shrinks := length_atValue length_readString

/-- A number that `accept` takes. A number it refuses is refused behind its last digit. -/
def readNumeric (wanted : WantedValue) (accept : JsonNumber → Except FaultCause α) (c : UInt8)
    (r : Bytes) : Except Fault (α × Bytes) :=
  if c = 0x2d || isDigit c then
    match readNumber (c == 0x2d) (if c = 0x2d then r else c :: r) with
    | .error f => .error f
    | .ok (n, r) =>
      match accept n with
      | .ok a => .ok (a, r)
      | .error cause => .error (.behind cause r)
  else .error (mismatch wanted (c :: r))

theorem length_readNumeric {wanted : WantedValue} {accept : JsonNumber → Except FaultCause α}
    {c : UInt8} {t r : Bytes} {a : α} (h : readNumeric wanted accept c t = .ok (a, r)) :
    r.length ≤ t.length + 1 := by
  unfold readNumeric at h
  split at h
  · split at h
    · simp at h
    next hn =>
      have hl := length_readNumber hn
      split at h
      · cases h
        split at hl
        · omega
        · simp only [List.length_cons] at hl; omega
      · simp at h
  · simp at h

def acceptSigned64 : JsonNumber → Except FaultCause Int64
  | .integer i =>
    if -Nat.pow 2 63 ≤ i ∧ i < Nat.pow 2 63 then .ok (Int64.ofInt i)
    else .error (.outOfBounds i .signed64)
  | .real x => .error (.wrongType (.real x) .signed64)

def acceptUnsigned32 : JsonNumber → Except FaultCause UInt32
  | .integer i =>
    if 0 ≤ i ∧ i < Nat.pow 2 32 then .ok (UInt32.ofNat i.toNat)
    else .error (.outOfBounds i .unsigned32)
  | .real x => .error (.wrongType (.real x) .unsigned32)

/-- An integer is a double too, the nearest one. -/
def acceptReal : JsonNumber → Except FaultCause Binary64
  | .integer i => .ok (.ofInt i)
  | .real x => .ok x

def signed64 : Reader Int64 where
  run := atValue (readNumeric .signed64 acceptSigned64)
  shrinks := length_atValue length_readNumeric

def unsigned32 : Reader UInt32 where
  run := atValue (readNumeric .unsigned32 acceptUnsigned32)
  shrinks := length_atValue length_readNumeric

def real : Reader Binary64 where
  run := atValue (readNumeric .real acceptReal)
  shrinks := length_atValue length_readNumeric

def readFlag (c : UInt8) (r : Bytes) : Except Fault (Bool × Bytes) :=
  if c = 0x74 then (readWord (ascii "rue") r).map fun r => (true, r)
  else if c = 0x66 then (readWord (ascii "alse") r).map fun r => (false, r)
  else .error (mismatch .flag (c :: r))

theorem length_readFlag {c : UInt8} {t r : Bytes} {b : Bool}
    (h : readFlag c t = .ok (b, r)) : r.length ≤ t.length + 1 := by
  have hmap {word : Bytes} {v : Bool}
      (hw : (readWord word t).map (fun r => (v, r)) = .ok (b, r)) : r.length ≤ t.length := by
    cases hx : readWord word t with
    | error f => simp [hx, Except.map] at hw
    | ok q =>
      simp only [hx, Except.map, Except.ok.injEq, Prod.mk.injEq] at hw
      rw [← hw.2]
      exact length_readWord hx
  unfold readFlag at h
  split at h
  · have := hmap h; omega
  split at h
  · have := hmap h; omega
  · simp at h

def flag : Reader Bool where
  run := atValue readFlag
  shrinks := length_atValue length_readFlag

def readNull (c : UInt8) (r : Bytes) : Except Fault (Unit × Bytes) :=
  if c = 0x6e then (readWord (ascii "ull") r).map fun r => ((), r)
  else .error (mismatch .null (c :: r))

theorem length_readNull {c : UInt8} {t r : Bytes} {u : Unit}
    (h : readNull c t = .ok (u, r)) : r.length ≤ t.length + 1 := by
  unfold readNull at h
  split at h
  · cases hx : readWord (ascii "ull") t with
    | error f => simp [hx, Except.map] at h
    | ok q =>
      simp only [hx, Except.map, Except.ok.injEq, Prod.mk.injEq] at h
      have := length_readWord hx
      rw [← h.2]
      omega
  · simp at h

/-- One of the names of `known`, as a string whose opening quote is read. -/
def readVariantName (known : List (String × α)) (s : Bytes) : Except Fault (α × Bytes) :=
  match readText s with
  | .error f => .error f
  | .ok (name, r) =>
    match known.lookup name with
    | some a => .ok (a, r)
    | none => .error (.behind (.unknownVariant name (known.map (·.1))) r)

theorem length_readVariantName {known : List (String × α)} {s r : Bytes} {a : α}
    (h : readVariantName known s = .ok (a, r)) : r.length < s.length := by
  unfold readVariantName at h
  split at h
  · simp at h
  next hs =>
    split at h
    · cases h; exact length_readText hs
    · simp at h

/-- One of the names of `known`, as the key of an object whose brace is read. -/
def readVariantKey (known : List (String × α)) (s : Bytes) : Except Fault (α × Bytes) :=
  match skipBlank s with
  | [] => .error (.ahead .objectNotClosed [])
  | c :: r =>
    if c = 0x22 then readVariantName known r
    else if c = 0x7d then .error (.ahead .valueWanted (c :: r))
    else .error (.ahead .keyNotText (c :: r))

theorem length_readVariantKey {known : List (String × α)} {s r : Bytes} {a : α}
    (h : readVariantKey known s = .ok (a, r)) : r.length < s.length := by
  grind [readVariantKey, length_skipBlank, → length_readVariantName]

/-- One of the names of `known`, as a string or as the one key of an object that gives it null. -/
def readVariant (known : List (String × α)) (c : UInt8) (r : Bytes) : Except Fault (α × Bytes) :=
  if c = 0x22 then readVariantName known r
  else if c = 0x7b then
    match readVariantKey known r with
    | .error f => .error f
    | .ok (a, r) =>
      match readColon r with
      | .error f => .error f
      | .ok r =>
        match atValue readNull r with
        | .error f => .error f
        | .ok ((), r) =>
          match skipBlank r with
          | [] => .error (.behind .objectNotClosed [])
          | d :: t => if d = 0x7d then .ok (a, t) else .error (.behind .valueWanted (d :: t))
  else .error (.ahead .valueWanted (c :: r))

theorem length_readVariant {known : List (String × α)} {c : UInt8} {t r : Bytes} {a : α}
    (h : readVariant known c t = .ok (a, r)) : r.length ≤ t.length + 1 := by
  unfold readVariant at h
  split at h
  · have := length_readVariantName h; omega
  split at h
  · split at h
    · simp at h
    next hn =>
    have := length_readVariantKey hn
    split at h
    · simp at h
    next hc =>
    have := length_readColon hc
    split at h
    · simp at h
    next u hu =>
    have := length_atValue length_readNull hu
    split at h
    · simp at h
    next d v hb =>
    have hl := length_skipBlank u
    rw [hb, List.length_cons] at hl
    split at h
    · cases h; omega
    · simp at h
  · simp at h

def variant (known : List (String × α)) : Reader α where
  run := atValue (readVariant known)
  shrinks := length_atValue length_readVariant

/-- The items of a list after the first one, up to the closing bracket. -/
def readMoreItems (item : Reader α) (done : List α) (s : Bytes) : Except Fault (List α × Bytes) :=
  match hb : skipBlank s with
  | [] => .error (.ahead .listNotClosed [])
  | c :: r =>
    if c = 0x5d then .ok (done.reverse, r)
    else if c = 0x2c then
      match skipBlank r with
      | [] => .error (.ahead .valueMissing [])
      | d :: t =>
        if d = 0x5d then .error (.ahead .trailingComma (d :: t))
        else
          match hi : item.run r with
          | .error f => .error f
          | .ok (a, q) =>
            have := item.shrinks hi
            have : r.length < s.length := by
              have := length_skipBlank s
              rw [hb, List.length_cons] at this; omega
            readMoreItems item (a :: done) q
    else .error (.ahead .listCommaWanted (c :: r))
termination_by s.length

theorem length_readMoreItems {item : Reader α} {done : List α} {s r : Bytes} {as : List α}
    (h : readMoreItems item done s = .ok (as, r)) : r.length ≤ s.length := by
  fun_induction readMoreItems item done s <;> grind [length_skipBlank]

def readList (item : Reader α) (c : UInt8) (r : Bytes) : Except Fault (List α × Bytes) :=
  if c = 0x5b then
    match skipBlank r with
    | [] => .error (.ahead .listNotClosed [])
    | d :: t =>
      if d = 0x5d then .ok ([], t)
      else
        match item.run (d :: t) with
        | .error f => .error f
        | .ok (a, r) => readMoreItems item [a] r
  else .error (mismatch .sequence (c :: r))

theorem length_readList {item : Reader α} {c : UInt8} {t r : Bytes} {as : List α}
    (h : readList item c t = .ok (as, r)) : r.length ≤ t.length + 1 := by
  unfold readList at h
  split at h
  · have hb := length_skipBlank t
    split at h
    · simp at h
    next d u ht =>
    rw [ht, List.length_cons] at hb
    split at h
    · cases h; omega
    · split at h
      · simp at h
      next hi =>
        have := item.shrinks hi
        have := length_readMoreItems h
        simp only [List.length_cons] at *
        omega
  · simp at h

def list (item : Reader α) : Reader (List α) where
  run := atValue (readList item)
  shrinks := length_atValue length_readList

end AlertLedger.Json
