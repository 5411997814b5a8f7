namespace AlertLedger

/-- Why a text is not an integer of the range that is wanted. -/
inductive IntegerFault
  | empty
  | notDigit
  | tooLarge
  | tooSmall
deriving DecidableEq

def IntegerFault.message : IntegerFault → String
  | .empty => "cannot parse integer from empty string"
  | .notDigit => "invalid digit found in string"
  | .tooLarge => "number too large to fit in target type"
  | .tooSmall => "number too small to fit in target type"

/-- Reads digits behind those that make `n`, with a `beyond` as soon as the number is above
`limit`. -/
def readDigits (limit : Nat) (beyond : IntegerFault) : Nat → List Char → Except IntegerFault Nat
  | n, [] => .ok n
  | n, c :: cs =>
    if c.isDigit then
      let m := n * 10 + (c.toNat - '0'.toNat)
      if limit < m then .error beyond else readDigits limit beyond m cs
    else .error .notDigit

def readNumber (limit : Nat) (beyond : IntegerFault) : List Char → Except IntegerFault Nat
  | [] => .error .notDigit
  | cs => readDigits limit beyond 0 cs

/-- Reads a number below 2^64, which a plus may stand before. -/
def readWord (text : String) : Except IntegerFault UInt64 :=
  let number (cs : List Char) : Except IntegerFault UInt64 :=
    (readNumber (Nat.pow 2 64 - 1) .tooLarge cs).map .ofNat
  match text.toList with
  | [] => .error .empty
  | '+' :: cs => number cs
  | cs => number cs

/-- Reads a number from -2^63 to 2^63 - 1, which a sign may stand before. -/
def readSignedWord (text : String) : Except IntegerFault Int :=
  match text.toList with
  | [] => .error .empty
  | '+' :: cs => (readNumber (Nat.pow 2 63 - 1) .tooLarge cs).map .ofNat
  | '-' :: cs => (readNumber (Nat.pow 2 63) .tooSmall cs).map fun n => -Int.ofNat n
  | cs => (readNumber (Nat.pow 2 63 - 1) .tooLarge cs).map .ofNat

end AlertLedger
