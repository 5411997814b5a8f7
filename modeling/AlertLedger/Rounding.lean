import AlertLedger.Binary64

namespace AlertLedger

/-- The whole number nearest to `num / den`; of two equally near ones the even one. -/
def roundHalfEven (num den : Nat) : Nat :=
  let below := num / den
  let twice := 2 * (num % den)
  if twice < den then below
  else if den < twice then below + 1
  else if below % 2 = 0 then below else below + 1

namespace Magnitude

/-- How many low bits of a quotient fall below the 53 that a significand keeps. -/
def droppedBits (quotient : Nat) : Nat := quotient.log2 - 52

/-- The number of the magnitude nearest to `num / den` if the exponent had no upper limit. A
significand that rounds up to the next power of two carries into the exponent by itself. -/
def nearestCode (num den : Nat) : Nat :=
  let scaled := num * unitsPerOne
  let dropped := droppedBits (scaled / den)
  dropped * Nat.pow 2 52 + roundHalfEven scaled (den * Nat.pow 2 dropped)

/-- The magnitude nearest to `num / den`, ties to the even significand; nothing when that lies
beyond the largest finite double. -/
def nearest? (num den : Nat) : Option Magnitude :=
  if h : nearestCode num den < 2047 * Nat.pow 2 52 then some ⟨nearestCode num den, h⟩ else none

def ofNat? (n : Nat) : Option Magnitude := nearest? n 1

def times? (x y : Magnitude) : Option Magnitude :=
  nearest? (x.units * y.units) (unitsPerOne * unitsPerOne)

def over? (x y : Magnitude) : Option Magnitude := nearest? x.units y.units

def plus? (x y : Magnitude) : Option Magnitude := nearest? (x.units + y.units) unitsPerOne

end Magnitude

namespace Binary64

/-- A rounded result; one that is too large is infinite. -/
def ofRounded (negative : Bool) : Option Magnitude → Binary64
  | some x => .finite negative x
  | none => .infinity negative

/-- The double nearest to a whole number. -/
def ofInt (i : Int) : Binary64 := ofRounded (decide (i < 0)) (Magnitude.ofNat? i.natAbs)

end Binary64

end AlertLedger
