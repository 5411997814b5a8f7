import AlertLedger.JsonReader

namespace AlertLedger.Json

/-- The character that a text writes with a backslash and this one byte. -/
def shortEscape? (c : UInt8) : Option Char :=
  if c = 0x22 then some '"'
  else if c = 0x5c then some '\\'
  else if c = 0x2f then some '/'
  else if c = 0x62 then some '\x08'
  else if c = 0x66 then some '\x0c'
  else if c = 0x6e then some '\n'
  else if c = 0x72 then some '\r'
  else if c = 0x74 then some '\t'
  else none

def hexDigit? (c : UInt8) : Option Nat :=
  if isDigit c then some (c.toNat - 0x30)
  else if 0x61 ≤ c && c ≤ 0x66 then some (c.toNat - 0x61 + 10)
  else if 0x41 ≤ c && c ≤ 0x46 then some (c.toNat - 0x41 + 10)
  else none

/-- Four digits, whose value is below `2 ^ 16`. -/
def readHex4 : Bytes → Except Fault (Nat × Bytes)
  | a :: b :: c :: d :: r =>
    match hexDigit? a, hexDigit? b, hexDigit? c, hexDigit? d with
    | some a, some b, some c, some d => .ok (((a * 16 + b) * 16 + c) * 16 + d, r)
    | _, _, _, _ => .error (.behind .invalidEscape r)
  | _ => .error (.behind .stringNotClosed [])

def isHighSurrogate (n : Nat) : Bool := 0xd800 ≤ n && n ≤ 0xdbff

def isLowSurrogate (n : Nat) : Bool := 0xdc00 ≤ n && n ≤ 0xdfff

/-- The second half of a surrogate pair, with its backslash and `u`. -/
def readLowSurrogate (high : Nat) : Bytes → Except Fault (Char × Bytes)
  | [] => .error (.behind .stringNotClosed [])
  | b :: r =>
    if b ≠ 0x5c then .error (.behind .unpairedSurrogate r)
    else match r with
    | [] => .error (.behind .stringNotClosed [])
    | u :: r =>
      if u ≠ 0x75 then .error (.behind .unpairedSurrogate r)
      else match readHex4 r with
      | .error f => .error f
      | .ok (low, r) =>
        if isLowSurrogate low then
          .ok (Char.ofNat ((high - 0xd800) * 0x400 + (low - 0xdc00) + 0x10000), r)
        else .error (.behind .loneSurrogate r)

/-- What follows a backslash and `u`. A code point beyond 16 bits is written as two of these. -/
def readUnicodeEscape (s : Bytes) : Except Fault (Char × Bytes) :=
  match readHex4 s with
  | .error f => .error f
  | .ok (n, r) =>
    if isLowSurrogate n then .error (.behind .loneSurrogate r)
    else if isHighSurrogate n then readLowSurrogate n r
    else .ok (Char.ofNat n, r)

def readEscape : Bytes → Except Fault (Char × Bytes)
  | [] => .error (.behind .stringNotClosed [])
  | c :: r =>
    match shortEscape? c with
    | some d => .ok (d, r)
    | none => if c = 0x75 then readUnicodeEscape r else .error (.behind .invalidEscape r)

theorem length_readHex4 {s r : Bytes} {n : Nat} (h : readHex4 s = .ok (n, r)) :
    r.length < s.length := by
  unfold readHex4 at h
  split at h
  · split at h
    · cases h; simp only [List.length_cons]; omega
    · simp at h
  · simp at h

theorem length_readLowSurrogate {high : Nat} {s r : Bytes} {c : Char}
    (h : readLowSurrogate high s = .ok (c, r)) : r.length < s.length := by
  unfold readLowSurrogate at h
  split at h
  · simp at h
  split at h
  · simp at h
  split at h
  · simp at h
  split at h
  · simp at h
  split at h
  · simp at h
  next hx =>
    split at h
    · simp only [Except.ok.injEq, Prod.mk.injEq] at h
      have := length_readHex4 hx
      simp only [List.length_cons, ← h.2]; omega
    · simp at h

theorem length_readUnicodeEscape {s r : Bytes} {c : Char}
    (h : readUnicodeEscape s = .ok (c, r)) : r.length < s.length := by
  unfold readUnicodeEscape at h
  split at h
  · simp at h
  next hx =>
    have hl := length_readHex4 hx
    split at h
    · simp at h
    split at h
    · have := length_readLowSurrogate h; omega
    · cases h; exact hl

theorem length_readEscape {s r : Bytes} {c : Char} (h : readEscape s = .ok (c, r)) :
    r.length < s.length := by
  unfold readEscape at h
  split at h
  · simp at h
  split at h
  · cases h; simp
  split at h
  · have := length_readUnicodeEscape h
    simp only [List.length_cons]; omega
  · simp at h

def isPlain (c : UInt8) : Bool := 0x20 ≤ c && c != 0x22 && c != 0x5c

/-- The bytes of a string up to its closing quote, its escapes as the bytes of their characters;
`done` holds those that are read already, the last one first. -/
def readContents (done : Bytes) (s : Bytes) : Except Fault (Bytes × Bytes) :=
  match hr : s.dropWhile isPlain with
  | [] => .error (.behind .stringNotClosed [])
  | c :: r =>
    if c < 0x20 then .error (.behind .controlCharacter r)
    else
      let read := (s.takeWhile isPlain).reverse ++ done
      if c = 0x22 then .ok (read.reverse, r)
      else
        match h : readEscape r with
        | .error f => .error f
        | .ok (d, r') =>
          have := length_readEscape h
          have : r.length < s.length := by
            have := (List.dropWhile_sublist (l := s) isPlain).length_le
            rw [hr, List.length_cons] at this
            omega
          readContents ((Utf8.encodeChar d).reverse ++ read) r'
termination_by s.length

theorem length_readContents {done cs s r : Bytes}
    (h : readContents done s = .ok (cs, r)) : r.length < s.length := by
  have hl (t : Bytes) := (List.dropWhile_sublist (l := t) isPlain).length_le
  fun_induction readContents done s <;> grind

/-- A string whose opening quote is read. Its bytes have to be UTF-8 as a whole; a refusal counts
those from the first bad one on back from the closing quote, an escape as the bytes it stands
for. -/
def readText (s : Bytes) : Except Fault (String × Bytes) :=
  match readContents [] s with
  | .error f => .error f
  | .ok (bs, r) =>
    match Utf8.decode [] bs with
    | .error bad => .error (.behind .invalidUtf8 (bad ++ r))
    | .ok cs => .ok (String.ofList cs, r)

theorem length_readText {s r : Bytes} {t : String} (h : readText s = .ok (t, r)) :
    r.length < s.length := by
  unfold readText at h
  split at h
  · simp at h
  next hc =>
    split at h
    · simp at h
    · cases h; exact length_readContents hc

/-- Escapes need their form alone where the text is not wanted. -/
def skipEscape : Bytes → Except Fault Bytes
  | [] => .error (.behind .stringNotClosed [])
  | c :: r =>
    if (shortEscape? c).isSome then .ok r
    else if c = 0x75 then (readHex4 r).map (·.2)
    else .error (.behind .invalidEscape r)

theorem length_skipEscape {s r : Bytes} (h : skipEscape s = .ok r) : r.length < s.length := by
  unfold skipEscape at h
  split at h
  · simp at h
  split at h
  · cases h; simp
  split at h
  next c t _ _ =>
    cases hx : readHex4 t with
    | error f => simp [hx, Except.map] at h
    | ok p =>
      obtain ⟨n, q⟩ := p
      simp only [hx, Except.map, Except.ok.injEq] at h
      subst h
      have := length_readHex4 hx
      simp only [List.length_cons]; omega
  · simp at h

/-- A string that is not wanted, up to its closing quote. -/
def skipContents (s : Bytes) : Except Fault Bytes :=
  match s with
  | [] => .error (.behind .stringNotClosed [])
  | c :: r =>
    if c = 0x22 then .ok r
    else if c = 0x5c then
      match h : skipEscape r with
      | .error f => .error f
      | .ok r' =>
        have := length_skipEscape h
        skipContents r'
    else if c < 0x20 then .error (.behind .controlCharacter (c :: r))
    else skipContents r
termination_by s.length
decreasing_by all_goals simp only [List.length_cons]; omega

theorem length_skipContents {s r : Bytes} (h : skipContents s = .ok r) :
    r.length < s.length := by
  fun_induction skipContents s with
  | case1 => simp at h
  | case2 => cases h; simp
  | case3 => simp at h
  | case4 rest _ r' he hl ih =>
    have := ih h
    simp only [List.length_cons]; omega
  | case5 => simp at h
  | case6 c rest _ _ _ ih =>
    have := ih h
    simp only [List.length_cons]; omega

def textChar (c : Char) : List Char :=
  if c = '"' then ['\\', '"']
  else if c = '\\' then ['\\', '\\']
  else if c.toNat = 0x08 then ['\\', 'b']
  else if c = '\t' then ['\\', 't']
  else if c = '\n' then ['\\', 'n']
  else if c.toNat = 0x0c then ['\\', 'f']
  else if c = '\r' then ['\\', 'r']
  else if c.toNat < 0x20 then
    ['\\', 'u', '0', '0', Nat.digitChar (c.toNat / 16), Nat.digitChar (c.toNat % 16)]
  else [c]

def textChars (s : String) : List Char := '"' :: s.toList.flatMap textChar ++ ['"']

end AlertLedger.Json
