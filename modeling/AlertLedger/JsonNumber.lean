import AlertLedger.JsonReader
import AlertLedger.Rounding

namespace AlertLedger

/-- A number as JSON text gives it: an integer of 64 bits, or a double. -/
inductive JsonNumber
  | integer (i : Int)
  | real (x : Binary64)
deriving DecidableEq

namespace Json

/-- The digits of a number without their signs and marks. -/
structure NumberText where
  whole : List Nat
  fraction : List Nat
  /-- whether the exponent is negative, and its digits -/
  exponent : Option (Bool × List Nat)

def digitsOf (s : Bytes) : List Nat := s.map fun c => c.toNat - 0x30

def startsWithDigit : Bytes → Bool
  | [] => false
  | c :: _ => isDigit c

/-- The digits before the point, without a zero in front of others. -/
def scanWhole (atEnd : FaultCause) : Bytes → Except Fault (List Nat × Bytes)
  | [] => .error (.behind atEnd [])
  | c :: r =>
    if c = 0x30 then
      if startsWithDigit r then .error (.ahead .invalidNumber r) else .ok ([0], r)
    else if isDigit c then .ok (digitsOf (c :: r.takeWhile isDigit), r.dropWhile isDigit)
    else .error (.behind .invalidNumber r)

/-- The point and at least one digit after it, if there is a point. -/
def scanFraction (atEnd : FaultCause) (s : Bytes) : Except Fault (List Nat × Bytes) :=
  match s with
  | [] => .ok ([], [])
  | c :: r =>
    if c ≠ 0x2e then .ok ([], s)
    else if startsWithDigit r then .ok (digitsOf (r.takeWhile isDigit), r.dropWhile isDigit)
    else .error (.ahead (if r.isEmpty then atEnd else .invalidNumber) r)

def scanSign (s : Bytes) : Bool × Bytes :=
  match s with
  | [] => (false, [])
  | c :: r => if c = 0x2d then (true, r) else if c = 0x2b then (false, r) else (false, s)

/-- The mark, the sign and at least one digit of an exponent, if there is a mark. -/
def scanExponent (atEnd : FaultCause) (s : Bytes) :
    Except Fault (Option (Bool × List Nat) × Bytes) :=
  match s with
  | [] => .ok (none, [])
  | c :: r =>
    if c ≠ 0x65 && c ≠ 0x45 then .ok (none, s)
    else
      let signed := scanSign r
      match signed.2 with
      | [] => .error (.behind atEnd [])
      | d :: t =>
        if isDigit d then
          .ok (some (signed.1, digitsOf (d :: t.takeWhile isDigit)), t.dropWhile isDigit)
        else .error (.behind .invalidNumber t)

/-- A number after its sign. `atEnd` is the cause to give where the text ends too early. -/
def scanNumber (atEnd : FaultCause) (s : Bytes) : Except Fault (NumberText × Bytes) :=
  match scanWhole atEnd s with
  | .error f => .error f
  | .ok (whole, s) =>
    match scanFraction atEnd s with
    | .error f => .error f
    | .ok (fraction, s) =>
      match scanExponent atEnd s with
      | .error f => .error f
      | .ok (exponent, s) => .ok (⟨whole, fraction, exponent⟩, s)

theorem length_scanWhole {atEnd : FaultCause} {s r : Bytes} {ds : List Nat}
    (h : scanWhole atEnd s = .ok (ds, r)) : r.length < s.length := by
  unfold scanWhole at h
  split at h
  · simp at h
  split at h
  · split at h
    · simp at h
    · cases h; simp
  split at h
  next t _ _ =>
    simp only [Except.ok.injEq, Prod.mk.injEq] at h
    have := (List.dropWhile_sublist (l := t) isDigit).length_le
    simp only [List.length_cons, ← h.2]; omega
  · simp at h

theorem length_scanFraction {atEnd : FaultCause} {s r : Bytes} {ds : List Nat}
    (h : scanFraction atEnd s = .ok (ds, r)) : r.length ≤ s.length := by
  unfold scanFraction at h
  split at h
  · cases h; simp
  split at h
  · cases h; simp
  split at h
  next t _ _ =>
    simp only [Except.ok.injEq, Prod.mk.injEq] at h
    have := (List.dropWhile_sublist (l := t) isDigit).length_le
    simp only [List.length_cons, ← h.2]; omega
  · simp at h

theorem length_scanSign (s : Bytes) : (scanSign s).2.length ≤ s.length := by
  unfold scanSign
  split
  · simp
  split
  · simp
  split <;> simp

theorem length_scanExponent {atEnd : FaultCause} {s r : Bytes} {e : Option (Bool × List Nat)}
    (h : scanExponent atEnd s = .ok (e, r)) : r.length ≤ s.length := by
  unfold scanExponent at h
  split at h
  · cases h; simp
  split at h
  · cases h; simp
  next t _ =>
    dsimp only at h
    split at h
    · simp at h
    next d u hu =>
      split at h
      · simp only [Except.ok.injEq, Prod.mk.injEq] at h
        have hs := length_scanSign t
        have := (List.dropWhile_sublist (l := u) isDigit).length_le
        rw [hu] at hs
        simp only [List.length_cons, ← h.2] at hs ⊢; omega
      · simp at h

theorem length_scanNumber {atEnd : FaultCause} {s r : Bytes} {n : NumberText}
    (h : scanNumber atEnd s = .ok (n, r)) : r.length < s.length := by
  unfold scanNumber at h
  split at h
  · simp at h
  next hw =>
    split at h
    · simp at h
    next hf =>
      split at h
      · simp at h
      next he =>
        cases h
        have := length_scanWhole hw
        have := length_scanFraction hf
        have := length_scanExponent he
        omega

/-- Appends digits to a number while it stays below `2 ^ 64`, and counts those that are left. -/
def gather (n : Nat) : List Nat → Nat × Nat
  | [] => (n, 0)
  | d :: ds => if n * 10 + d < Nat.pow 2 64 then gather (n * 10 + d) ds else (n, ds.length + 1)

/-- The exponent that the digits give, unless it passes `2 ^ 31 - 1`: then the number of digits
after the one that did. -/
def gatherExponent (e : Nat) : List Nat → Except Nat Nat
  | [] => .ok e
  | d :: ds =>
    if e * 10 + d < Nat.pow 2 31 then gatherExponent (e * 10 + d) ds else .error ds.length

/-- The double nearest to a power of ten, up to the largest that is finite. -/
def powerOfTen (e : Nat) : Magnitude := (Magnitude.ofNat? (Nat.pow 10 e)).getD .zero

/-- Divides by a power of ten, by `10 ^ 308` at a time. -/
def overPowerOfTen (x : Magnitude) (e : Nat) : Magnitude :=
  if e ≤ 308 then (x.over? (powerOfTen e)).getD .zero
  else if x = .zero then .zero
  else overPowerOfTen ((x.over? (powerOfTen 308)).getD .zero) (e - 308)
termination_by e

/-- Multiplies or divides by a power of ten, rounding after each step. Nothing when the result is
too large. -/
def scaleByTen (x : Magnitude) (e : Int) : Option Magnitude :=
  if e < 0 then some (overPowerOfTen x e.natAbs)
  else if e ≤ 308 then x.times? (powerOfTen e.natAbs)
  else if x = .zero then some .zero
  else none

/-- The value of a number. Its digits are gathered into 64 bits as far as they fit; an integer
stays exact where it has a type of its own, and anything else becomes a double in one scaling
step, which is not always the nearest one. -/
def NumberText.value (negative : Bool) (n : NumberText) (rest : Bytes) :
    Except Fault JsonNumber :=
  let whole := gather 0 n.whole
  let all := gather whole.1 n.fraction
  let significand := all.1
  if n.fraction.isEmpty && n.exponent.isNone && whole.2 == 0 &&
      (!negative || (0 < significand && significand ≤ Nat.pow 2 63)) then
    .ok (.integer (if negative then -(significand : Int) else significand))
  else
    let point : Int := whole.2 - (n.fraction.length - all.2 : Nat)
    let scaled (e : Int) : Except Fault JsonNumber :=
      match (Magnitude.ofNat? significand).bind fun x => scaleByTen x e with
      | some x => .ok (.real (.finite negative x))
      | none => .error (.behind .numberOutOfRange rest)
    match n.exponent with
    | none => scaled point
    | some (down, digits) =>
      match gatherExponent 0 digits with
      | .ok e => scaled (if down then point - e else point + e)
      | .error unread =>
        if significand ≠ 0 && !down then .error ⟨.numberOutOfRange, rest.length + unread⟩
        else .ok (.real (.finite negative .zero))

/-- A number that starts here, or behind its minus sign. -/
def readNumber (negative : Bool) (s : Bytes) : Except Fault (JsonNumber × Bytes) :=
  match scanNumber .valueMissing s with
  | .error f => .error f
  | .ok (n, r) =>
    match n.value negative r with
    | .error f => .error f
    | .ok v => .ok (v, r)

theorem length_readNumber {negative : Bool} {s r : Bytes} {v : JsonNumber}
    (h : readNumber negative s = .ok (v, r)) : r.length < s.length := by
  unfold readNumber at h
  split at h
  · simp at h
  next hs =>
    split at h
    · simp at h
    · cases h; exact length_scanNumber hs

def intChars (i : Int) : List Char :=
  if i < 0 then '-' :: Nat.toDigits 10 i.natAbs else Nat.toDigits 10 i.natAbs

def realChars (x : Binary64) : List Char := jsonNumberStyle.chars x

end Json

end AlertLedger
