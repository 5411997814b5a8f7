import AlertLedger.PercentText

namespace AlertLedger.Ipv6Text

/-- Skips a number below 256 in decimal digits, without a zero in front. -/
def octet? (cs : List Char) : Option (List Char) :=
  let digits := cs.takeWhile Char.isDigit
  let value := digits.foldl (fun n c => n * 10 + (c.toNat - '0'.toNat)) 0
  if digits.length = 0 ∨ 3 < digits.length ∨ 255 < value then none
  else if 1 < digits.length ∧ digits.head? = some '0' then none
  else some (cs.dropWhile Char.isDigit)

/-- Skips one more octet behind a point. -/
def pointOctet? : List Char → Option (List Char)
  | '.' :: cs => octet? cs
  | _ => none

/-- Skips a number of four octets. -/
def quad? (cs : List Char) : Option (List Char) :=
  ((octet? cs).bind pointOctet?).bind fun cs => (pointOctet? cs).bind pointOctet?

/-- Skips a group of one to four hexadecimal digits. -/
def group? (cs : List Char) : Option (List Char) :=
  let isHex (c : Char) : Bool := (hexValue? c).isSome
  let count := (cs.takeWhile isHex).length
  if count = 0 ∨ 4 < count then none else some (cs.dropWhile isHex)

/-- What was skipped of a number: how many of its groups, and whether the last two of them were
written as four octets; and the rest. -/
structure Progress where
  groups : Nat
  octets : Bool
  rest : List Char

/-- Skips groups with colons between them, as many as there are up to a limit. Four octets take the
place of two groups and end them. -/
def groups (first : Bool) : Nat → List Char → Progress
  | 0, cs => ⟨0, false, cs⟩
  | limit + 1, cs =>
    let start := match first, cs with
      | true, cs => some cs
      | false, ':' :: cs => some cs
      | false, _ => none
    match start with
    | none => ⟨0, false, cs⟩
    | some start =>
      match if 0 < limit then quad? start else none with
      | some rest => ⟨2, true, rest⟩
      | none =>
        match group? start with
        | none => ⟨0, false, cs⟩
        | some rest =>
          let more := groups false limit rest
          { more with groups := more.groups + 1 }

end Ipv6Text

/-- A text writes a number of eight groups. Two colons may stand for one or more groups of zeros,
and four octets for the last two groups. -/
def isIpv6 (cs : List Char) : Bool :=
  let front := Ipv6Text.groups true 8 cs
  if front.groups = 8 then front.rest.isEmpty
  else
    match front.octets, front.rest with
    | false, ':' :: ':' :: rest => (Ipv6Text.groups true (7 - front.groups) rest).rest.isEmpty
    | _, _ => false

end AlertLedger
