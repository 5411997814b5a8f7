namespace AlertLedger

/-- The magnitudes of the finite doubles, numbered from zero upwards. Consecutive numbers are
neighbouring doubles, so the order of the numbers is the order of the magnitudes. -/
abbrev Magnitude := Fin (2047 * Nat.pow 2 52)

namespace Magnitude

def zero : Magnitude := ⟨0, by decide⟩

/-- The 52 bits after the leading one. -/
def fraction (x : Magnitude) : Nat := x.val % Nat.pow 2 52

/-- The biased exponent; zero for the subnormal doubles. -/
def exponent (x : Magnitude) : Nat := x.val / Nat.pow 2 52

def significand (x : Magnitude) : Nat :=
  if x.exponent = 0 then x.fraction else Nat.pow 2 52 + x.fraction

/-- How far the significand is shifted above the smallest positive double. -/
def shift (x : Magnitude) : Nat := x.exponent - 1

/-- The value in units of `2 ^ (-1074)`, the smallest positive double. -/
def units (x : Magnitude) : Nat := x.significand * Nat.pow 2 x.shift

end Magnitude

/-- How many units of the smallest positive double make one. -/
def unitsPerOne : Nat := Nat.pow 2 1074

/-- A double of IEEE 754. All its NaNs are one value. -/
inductive Binary64
  | nan
  | infinity (negative : Bool)
  | finite (negative : Bool) (magnitude : Magnitude)
deriving DecidableEq

namespace Binary64

def zero : Binary64 := .finite false .zero

def negate : Binary64 → Binary64
  | .nan => .nan
  | .infinity s => .infinity (!s)
  | .finite s x => .finite (!s) x

def isFinite : Binary64 → Bool
  | .finite _ _ => true
  | _ => false

/-- The double that is written with these 64 bits. -/
def ofBits (bits : UInt64) : Binary64 :=
  let negative := bits.toNat / Nat.pow 2 63 == 1
  let code := bits.toNat % Nat.pow 2 63
  if h : code < 2047 * Nat.pow 2 52 then .finite negative ⟨code, h⟩
  else if code = 2047 * Nat.pow 2 52 then .infinity negative
  else .nan

/-- The bits of a double; for a NaN those of the quiet positive one. -/
def toBits : Binary64 → UInt64
  | .nan => 0x7ff8000000000000
  | .infinity s => UInt64.ofNat (s.toNat * Nat.pow 2 63 + 2047 * Nat.pow 2 52)
  | .finite s x => UInt64.ofNat (s.toNat * Nat.pow 2 63 + x.val)

/-- The place of a double on the number line, in units of the smallest positive one. Both zeros
stand at zero, and an infinity stands beyond every finite double. -/
def position : Binary64 → Option Int
  | .nan => none
  | .infinity s => some (if s then -(Nat.pow 2 2098 : Nat) else (Nat.pow 2 2098 : Nat))
  | .finite s x => some (if s then -(x.units : Int) else x.units)

/-- The smaller of two doubles. A NaN loses against a number, and of two equal doubles the second
is taken, which tells the zeros apart. -/
def min (x y : Binary64) : Binary64 :=
  match x.position, y.position with
  | none, _ => y
  | some _, none => x
  | some p, some q => if p < q then x else y

/-- The larger of two doubles. A NaN loses against a number, and of two equal doubles the second
is taken, which tells the zeros apart. -/
def max (x y : Binary64) : Binary64 :=
  match x.position, y.position with
  | none, _ => y
  | some _, none => x
  | some p, some q => if q < p then x else y

end Binary64

end AlertLedger
