import AlertLedger.ShortestDecimal

namespace AlertLedger

/-- How a format writes the shortest decimal of a double. The exponent that the two tests see is
that of the first digit. -/
structure NumberStyle where
  tie : Tie
  /-- written without an exponent -/
  positional : Int → Bool
  /-- a whole number written without an exponent ends in `.0` -/
  pointZero : Int → Bool
  nan : String
  infinity : String
  negativeInfinity : String

namespace Decimal

def digitChars (d : Decimal) : List Char := Nat.toDigits 10 d.digits

def leadingExponent (d : Decimal) : Int := d.digitChars.length - 1 + d.exponent

/-- The decimal with all its places, and nothing after a whole number. -/
def positionalChars (d : Decimal) : List Char :=
  let cs := d.digitChars
  let places := (-d.exponent).toNat
  if 0 ≤ d.exponent then cs ++ List.replicate d.exponent.toNat '0'
  else if places < cs.length then
    cs.take (cs.length - places) ++ '.' :: cs.drop (cs.length - places)
  else '0' :: '.' :: List.replicate (places - cs.length) '0' ++ cs

/-- One digit, the others after a point, and a signed exponent without padding. -/
def scientificChars (d : Decimal) : List Char :=
  let e := d.leadingExponent
  let mantissa := match d.digitChars with
    | c :: r@(_ :: _) => c :: '.' :: r
    | cs => cs
  mantissa ++ 'e' :: (if e < 0 then '-' else '+') :: Nat.toDigits 10 e.natAbs

end Decimal

namespace NumberStyle

def magnitudeChars (style : NumberStyle) (x : Magnitude) : List Char :=
  let d := x.shortest style.tie
  let e := d.leadingExponent
  if style.positional e then
    d.positionalChars ++ (if decide (0 ≤ d.exponent) && style.pointZero e then ['.', '0'] else [])
  else d.scientificChars

def chars (style : NumberStyle) : Binary64 → List Char
  | .nan => style.nan.toList
  | .infinity s => (if s then style.negativeInfinity else style.infinity).toList
  | .finite s x => (if s then ['-'] else []) ++ style.magnitudeChars x

end NumberStyle

end AlertLedger
