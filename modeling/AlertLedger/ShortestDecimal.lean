import AlertLedger.Binary64

namespace AlertLedger

/-- The number `digits * 10 ^ exponent`. -/
structure Decimal where
  digits : Nat
  exponent : Int
deriving DecidableEq

/-- Which of two equally near decimals is taken. -/
inductive Tie
  | toEven
  | upward
deriving DecidableEq

namespace Magnitude

/-- The gap to the next smaller double is half of the gap to the next larger one. -/
def narrowBelow (x : Magnitude) : Bool := x.fraction == 0 && decide (1 < x.exponent)

/-- Four times the lower end of the interval of reals that round to `x`, in units. -/
def lowerEnd (x : Magnitude) : Nat :=
  4 * x.units - (if x.narrowBelow then 1 else 2) * Nat.pow 2 x.shift

/-- Four times the upper end of the interval of reals that round to `x`, in units. -/
def upperEnd (x : Magnitude) : Nat := 4 * x.units + 2 * Nat.pow 2 x.shift

/-- `d` lies among the reals whose nearest double is `x`. The ends of the interval round to the
even significand of the two doubles that they separate. -/
def readsBack (x : Magnitude) (d : Decimal) : Bool :=
  let num := 4 * (d.digits * Nat.pow 10 d.exponent.toNat * unitsPerOne)
  let den := Nat.pow 10 (-d.exponent).toNat
  if x.significand % 2 = 0 then decide (x.lowerEnd * den ≤ num) && decide (num ≤ x.upperEnd * den)
  else decide (x.lowerEnd * den < num) && decide (num < x.upperEnd * den)

/-- The first number from `start` on that satisfies `p`, looking at `steps` of them. -/
def firstFrom (p : Nat → Bool) : (steps start : Nat) → Nat
  | 0, start => start
  | steps + 1, start => if p start then start else firstFrom p steps (start + 1)

/-- The least `k` with `x < 10 ^ k`, for a magnitude that is not zero. -/
def decimalPlace (x : Magnitude) : Int :=
  if unitsPerOne ≤ x.units then
    firstFrom (fun k => decide (x.units < Nat.pow 10 k * unitsPerOne)) 310 0
  else 1 - (firstFrom (fun k => decide (unitsPerOne ≤ x.units * Nat.pow 10 k)) 325 0 : Int)

/-- The multiple of `10 ^ exponent` that reads back as `x`, if one of the two around `x` does. -/
def onGrid? (tie : Tie) (x : Magnitude) (exponent : Int) : Option Decimal :=
  let num := x.units * Nat.pow 10 (-exponent).toNat
  let den := unitsPerOne * Nat.pow 10 exponent.toNat
  let below : Decimal := ⟨num / den, exponent⟩
  let above : Decimal := ⟨num / den + 1, exponent⟩
  let twice := 2 * (num % den)
  let nearer := if twice < den then below else if den < twice then above else
    match tie with
    | .toEven => if below.digits % 2 = 0 then below else above
    | .upward => above
  match x.readsBack below, x.readsBack above with
  | true, true => some nearer
  | true, false => some below
  | false, true => some above
  | false, false => none

/-- The value of `x` itself, written out. -/
def exactDecimal (x : Magnitude) : Decimal := ⟨x.units * Nat.pow 5 1074, -1074⟩

end Magnitude

/-- Moves up to `steps` final zeros of the digits into the exponent. -/
def Decimal.dropZeros : (steps : Nat) → Decimal → Decimal
  | 0, d => d
  | steps + 1, d =>
    if d.digits % 10 = 0 then dropZeros steps ⟨d.digits / 10, d.exponent + 1⟩ else d

/-- The decimal of fewest digits that reads back as `x`, and of those the nearest. -/
def Magnitude.shortest (tie : Tie) (x : Magnitude) : Decimal :=
  if x.units = 0 then ⟨0, 0⟩
  else
    let place := x.decimalPlace
    match (List.range 17).findSome? fun (n : Nat) => x.onGrid? tie (place - (n + 1)) with
    | some d => d.dropZeros 17
    | none => x.exactDecimal

end AlertLedger
