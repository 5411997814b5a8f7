namespace AlertLedger

abbrev Bytes := List UInt8

namespace Utf8

/-- The bytes of a character: six bits in each byte after the first, and the first one tells how
many of these there are. -/
def encodeChar (c : Char) : Bytes :=
  let n := c.toNat
  if n < 0x80 then [n.toUInt8]
  else if n < 0x800 then [(0xc0 + n / 0x40).toUInt8, (0x80 + n % 0x40).toUInt8]
  else if n < 0x10000 then
    [(0xe0 + n / 0x1000).toUInt8, (0x80 + n / 0x40 % 0x40).toUInt8, (0x80 + n % 0x40).toUInt8]
  else
    [(0xf0 + n / 0x40000).toUInt8, (0x80 + n / 0x1000 % 0x40).toUInt8,
      (0x80 + n / 0x40 % 0x40).toUInt8, (0x80 + n % 0x40).toUInt8]

def encode (cs : List Char) : Bytes := cs.flatMap encodeChar

/-- The six bits of a byte after the first. -/
def tailBits? (b : UInt8) : Option Nat :=
  if 0x80 ≤ b.toNat ∧ b.toNat < 0xc0 then some (b.toNat - 0x80) else none

/-- The character with this code point, if it is one and is not below `least`. -/
def charFrom? (least n : Nat) : Option Char :=
  if h : least ≤ n ∧ n.isValidChar then some (Char.ofNatAux n h.2) else none

/-- The character in front, in the shortest of its forms, and the rest. -/
def next? : Bytes → Option (Char × Bytes)
  | [] => none
  | a :: s =>
    if a.toNat < 0x80 then (charFrom? 0 a.toNat).map (·, s)
    else if a.toNat < 0xc0 then none
    else if a.toNat < 0xe0 then
      match s with
      | b :: s => do
        let b ← tailBits? b
        let c ← charFrom? 0x80 ((a.toNat - 0xc0) * 0x40 + b)
        pure (c, s)
      | _ => none
    else if a.toNat < 0xf0 then
      match s with
      | b :: c :: s => do
        let b ← tailBits? b
        let c ← tailBits? c
        let d ← charFrom? 0x800 ((a.toNat - 0xe0) * 0x1000 + b * 0x40 + c)
        pure (d, s)
      | _ => none
    else
      match s with
      | b :: c :: d :: s => do
        let b ← tailBits? b
        let c ← tailBits? c
        let d ← tailBits? d
        let e ← charFrom? 0x10000 ((a.toNat - 0xf0) * 0x40000 + b * 0x1000 + c * 0x40 + d)
        pure (e, s)
      | _ => none

theorem length_next? {s r : Bytes} {c : Char} (h : next? s = some (c, r)) :
    r.length < s.length := by
  unfold next? at h
  split at h
  · simp at h
  repeat' split at h
  all_goals
    simp only [Option.map_eq_some_iff, Option.bind_eq_bind, Option.bind_eq_some_iff,
      Option.pure_def, Option.some.injEq, Prod.mk.injEq, reduceCtorEq] at h
  · grind
  · grind
  · grind
  · grind

/-- The characters of a text, or what is left from the first byte on that starts none. `done`
holds those that are read already, the last one first. -/
def decode (done : List Char) (s : Bytes) : Except Bytes (List Char) :=
  match s with
  | [] => .ok done.reverse
  | a :: t =>
    match h : next? (a :: t) with
    | none => .error (a :: t)
    | some (c, r) =>
      have := length_next? h
      decode (c :: done) r
termination_by s.length
decreasing_by assumption

/-- The characters of a text. A byte that starts none becomes a replacement character. -/
def decodeMending (s : Bytes) : List Char :=
  match s with
  | [] => []
  | a :: t =>
    match h : next? (a :: t) with
    | none => '\ufffd' :: decodeMending t
    | some (c, r) =>
      have := length_next? h
      c :: decodeMending r
termination_by s.length
decreasing_by
  · simp
  · assumption

end Utf8

end AlertLedger
