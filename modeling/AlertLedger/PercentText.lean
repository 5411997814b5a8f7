import AlertLedger.Utf8

namespace AlertLedger

def hexValue? (c : Char) : Option Nat :=
  if '0' ≤ c && c ≤ '9' then some (c.toNat - '0'.toNat)
  else if 'a' ≤ c && c ≤ 'f' then some (c.toNat - 'a'.toNat + 10)
  else if 'A' ≤ c && c ≤ 'F' then some (c.toNat - 'A'.toNat + 10)
  else none

/-- The bytes of a text in which a percent sign and two hexadecimal digits stand for a byte. A
percent sign without them stands for itself. -/
def percentBytes : List Char → Bytes
  | '%' :: a :: b :: cs =>
    match hexValue? a, hexValue? b with
    | some high, some low => (high * 16 + low).toUInt8 :: percentBytes cs
    | _, _ => 0x25 :: percentBytes (a :: b :: cs)
  | c :: cs => Utf8.encodeChar c ++ percentBytes cs
  | [] => []

def percentsComplete : List Char → Bool
  | '%' :: a :: b :: cs => (hexValue? a).isSome && (hexValue? b).isSome && percentsComplete cs
  | c :: cs => c ≠ '%' && percentsComplete cs
  | [] => true

/-- Reads a text with percent signs, whose bytes have to be UTF-8. -/
def percentText? (cs : List Char) : Option String :=
  match Utf8.decode [] (percentBytes cs) with
  | .ok cs => some (.ofList cs)
  | .error _ => none

/-- Reads a text with percent signs. A byte that is no UTF-8 becomes a replacement character. -/
def percentText (cs : List Char) : String := .ofList (Utf8.decodeMending (percentBytes cs))

end AlertLedger
