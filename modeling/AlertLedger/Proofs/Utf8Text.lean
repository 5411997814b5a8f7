import AlertLedger.Utf8

namespace AlertLedger.Utf8

theorem toNat_toUInt8 {n : Nat} (h : n < 0x100) : n.toUInt8.toNat = n :=
  UInt8.toNat_ofNat_of_lt' h

theorem charFrom?_toNat {c : Char} {least : Nat} (h : least ≤ c.toNat) :
    charFrom? least c.toNat = some c := by
  unfold charFrom?
  rw [dif_pos ⟨h, c.valid⟩]
  rfl

theorem tailBits?_toUInt8 {n : Nat} (h : n < 0x40) : tailBits? (0x80 + n).toUInt8 = some n := by
  unfold tailBits?
  rw [toNat_toUInt8 (by omega), if_pos (by omega)]
  simp

theorem toNat_lt (c : Char) : c.toNat < 0x110000 := by
  have := c.valid
  unfold UInt32.isValidChar Nat.isValidChar at this
  change c.val.toNat < 0x110000
  omega

section Next

variable {a b c d : UInt8} {x y z : Nat} {e : Char}

theorem next?_one (ha : a.toNat < 0x80) (he : charFrom? 0 a.toNat = some e) (s : Bytes) :
    next? (a :: s) = some (e, s) := by
  unfold next?
  simp only [if_pos ha, he, Option.map_some]

theorem next?_two (ha : 0xc0 ≤ a.toNat ∧ a.toNat < 0xe0) (hb : tailBits? b = some x)
    (he : charFrom? 0x80 ((a.toNat - 0xc0) * 0x40 + x) = some e) (s : Bytes) :
    next? (a :: b :: s) = some (e, s) := by
  unfold next?
  simp only [if_neg (show ¬a.toNat < 0x80 by omega), if_neg (show ¬a.toNat < 0xc0 by omega),
    if_pos ha.2, Option.bind_eq_bind, Option.bind_eq_some_iff]
  exact ⟨x, hb, e, he, rfl⟩

theorem next?_three (ha : 0xe0 ≤ a.toNat ∧ a.toNat < 0xf0) (hb : tailBits? b = some x)
    (hc : tailBits? c = some y)
    (he : charFrom? 0x800 ((a.toNat - 0xe0) * 0x1000 + x * 0x40 + y) = some e) (s : Bytes) :
    next? (a :: b :: c :: s) = some (e, s) := by
  unfold next?
  simp only [if_neg (show ¬a.toNat < 0x80 by omega), if_neg (show ¬a.toNat < 0xc0 by omega),
    if_neg (show ¬a.toNat < 0xe0 by omega), if_pos ha.2, Option.bind_eq_bind,
    Option.bind_eq_some_iff]
  exact ⟨x, hb, y, hc, e, he, rfl⟩

theorem next?_four (ha : 0xf0 ≤ a.toNat) (hb : tailBits? b = some x)
    (hc : tailBits? c = some y) (hd : tailBits? d = some z)
    (he : charFrom? 0x10000 ((a.toNat - 0xf0) * 0x40000 + x * 0x1000 + y * 0x40 + z) = some e)
    (s : Bytes) : next? (a :: b :: c :: d :: s) = some (e, s) := by
  unfold next?
  simp only [if_neg (show ¬a.toNat < 0x80 by omega), if_neg (show ¬a.toNat < 0xc0 by omega),
    if_neg (show ¬a.toNat < 0xe0 by omega), if_neg (show ¬a.toNat < 0xf0 by omega),
    Option.bind_eq_bind, Option.bind_eq_some_iff]
  exact ⟨x, hb, y, hc, z, hd, e, he, rfl⟩

end Next

/-- The six bits of each byte add up to the code point again. -/
theorem next?_encodeChar (c : Char) (r : Bytes) : next? (encodeChar c ++ r) = some (c, r) := by
  have hc := toNat_lt c
  have back {least n : Nat} (hn : n = c.toNat) (hl : least ≤ c.toNat) :
      charFrom? least n = some c := by rw [hn, charFrom?_toNat hl]
  unfold encodeChar
  dsimp only
  split
  next h =>
    have first := toNat_toUInt8 (show c.toNat < 0x100 by omega)
    exact next?_one (by omega) (back first (by omega)) r
  split
  next h₁ h =>
    have first := toNat_toUInt8 (show 0xc0 + c.toNat / 0x40 < 0x100 by omega)
    exact next?_two (by omega) (tailBits?_toUInt8 (by omega)) (back (by omega) (by omega)) r
  split
  next h₂ h =>
    have first := toNat_toUInt8 (show 0xe0 + c.toNat / 0x1000 < 0x100 by omega)
    exact next?_three (by omega) (tailBits?_toUInt8 (by omega)) (tailBits?_toUInt8 (by omega))
      (back (by omega) (by omega)) r
  next h₂ h =>
    have first := toNat_toUInt8 (show 0xf0 + c.toNat / 0x40000 < 0x100 by omega)
    exact next?_four (by omega) (tailBits?_toUInt8 (by omega)) (tailBits?_toUInt8 (by omega))
      (tailBits?_toUInt8 (by omega)) (back (by omega) (by omega)) r

theorem encodeChar_ne_nil (c : Char) : encodeChar c ≠ [] := by
  unfold encodeChar
  dsimp only
  split
  · simp
  split
  · simp
  split <;> simp

theorem encode_append (cs ds : List Char) : encode (cs ++ ds) = encode cs ++ encode ds := by
  simp [encode]

theorem encode_cons (c : Char) (cs : List Char) : encode (c :: cs) = encodeChar c ++ encode cs := by
  simp [encode]

theorem decode_append_encodeChar (done : List Char) (c : Char) (r : Bytes) :
    decode done (encodeChar c ++ r) = decode (c :: done) r := by
  obtain ⟨a, t, ht⟩ := List.exists_cons_of_ne_nil (encodeChar_ne_nil c)
  have hn := next?_encodeChar c r
  rw [ht, List.cons_append] at hn ⊢
  rw [decode.eq_def]
  split
  next => contradiction
  next => grind

theorem decode_encode (done cs : List Char) :
    decode done (encode cs) = .ok (done.reverse ++ cs) := by
  induction cs generalizing done with
  | nil => simp [encode, decode]
  | cons c cs ih =>
    rw [encode_cons, decode_append_encodeChar, ih]
    simp

theorem toNat_of_charFrom? {least n : Nat} {c : Char} (h : charFrom? least n = some c) :
    c.toNat = n ∧ least ≤ n := by
  by_cases hn : least ≤ n ∧ n.isValidChar
  · rw [charFrom?, dif_pos hn] at h
    cases h
    exact ⟨rfl, hn.1⟩
  · rw [charFrom?, dif_neg hn] at h
    cases h

theorem toNat_of_tailBits? {b : UInt8} {n : Nat} (h : tailBits? b = some n) :
    b.toNat = 0x80 + n ∧ n < 0x40 := by
  unfold tailBits? at h
  split at h
  next hb =>
    have := Option.some.inj h
    omega
  next => simp at h

theorem toUInt8_eq {b : UInt8} {n : Nat} (h : b.toNat = n) : n.toUInt8 = b :=
  h ▸ UInt8.ofNat_toNat

/-- Only the shortest form of a character is read as one. -/
theorem eq_encodeChar_of_next? {s r : Bytes} {c : Char} (h : next? s = some (c, r)) :
    s = encodeChar c ++ r := by
  unfold next? at h
  split at h
  · simp at h
  next a s =>
  have ha := a.toNat_lt
  unfold encodeChar
  dsimp only
  split at h
  next h₁ =>
    obtain ⟨d, hd, he⟩ := Option.map_eq_some_iff.mp h
    cases he
    have hc := toNat_of_charFrom? hd
    rw [if_pos (by omega), toUInt8_eq hc.1.symm]
    rfl
  split at h
  next => simp at h
  split at h
  next h₂ h₃ =>
    split at h
    next b s =>
      obtain ⟨x, hx, d, hd, he⟩ := by
        simpa only [Option.bind_eq_bind, Option.bind_eq_some_iff] using h
      cases he
      have hb := toNat_of_tailBits? hx
      have hc := toNat_of_charFrom? hd
      rw [if_neg (by omega), if_pos (by omega), toUInt8_eq (show a.toNat = _ by omega),
        toUInt8_eq (show b.toNat = _ by omega)]
      rfl
    next => simp at h
  split at h
  next h₃ h₄ =>
    split at h
    next b b' s =>
      obtain ⟨x, hx, y, hy, d, hd, he⟩ := by
        simpa only [Option.bind_eq_bind, Option.bind_eq_some_iff] using h
      cases he
      have hb := toNat_of_tailBits? hx
      have hb' := toNat_of_tailBits? hy
      have hc := toNat_of_charFrom? hd
      rw [if_neg (by omega), if_neg (by omega), if_pos (by omega),
        toUInt8_eq (show a.toNat = _ by omega), toUInt8_eq (show b.toNat = _ by omega),
        toUInt8_eq (show b'.toNat = _ by omega)]
      rfl
    next => simp at h
  next h₄ =>
    split at h
    next b b' b'' s =>
      obtain ⟨x, hx, y, hy, z, hz, d, hd, he⟩ := by
        simpa only [Option.bind_eq_bind, Option.bind_eq_some_iff] using h
      cases he
      have hb := toNat_of_tailBits? hx
      have hb' := toNat_of_tailBits? hy
      have hb'' := toNat_of_tailBits? hz
      have hc := toNat_of_charFrom? hd
      rw [if_neg (by omega), if_neg (by omega), if_neg (by omega),
        toUInt8_eq (show a.toNat = _ by omega), toUInt8_eq (show b.toNat = _ by omega),
        toUInt8_eq (show b'.toNat = _ by omega), toUInt8_eq (show b''.toNat = _ by omega)]
      rfl
    next => simp at h

theorem eq_of_decode {done cs : List Char} {s : Bytes} (h : decode done s = .ok cs) :
    ∃ ds, s = encode ds ∧ cs = done.reverse ++ ds := by
  fun_induction decode done s with
  | case1 done =>
    cases h
    exact ⟨[], rfl, by simp⟩
  | case2 => simp at h
  | case3 done a t c r hn hl ih =>
    obtain ⟨ds, hr, hcs⟩ := ih h
    refine ⟨c :: ds, ?_, ?_⟩
    · rw [eq_encodeChar_of_next? hn, hr, encode_cons]
    · simp [hcs]

theorem decode_eq_ok_iff {s : Bytes} {cs : List Char} : decode [] s = .ok cs ↔ s = encode cs := by
  constructor
  · intro h
    obtain ⟨ds, rfl, rfl⟩ := eq_of_decode h
    simp
  · rintro rfl
    simpa using decode_encode [] cs

theorem encodeChar_ascii {c : Char} (h : c.toNat < 0x80) : encodeChar c = [c.toNat.toUInt8] := by
  unfold encodeChar
  simp [h]

theorem encode_ascii {cs : List Char} (h : ∀ c ∈ cs, c.toNat < 0x80) :
    encode cs = cs.map fun c => c.toNat.toUInt8 := by
  induction cs with
  | nil => rfl
  | cons c cs ih =>
    rw [encode_cons, encodeChar_ascii (h c (by simp)), ih fun d hd => h d (by simp [hd])]
    rfl

/-- Beyond ASCII the bytes of a character are no ASCII either. -/
theorem le_of_mem_encodeChar {c : Char} (h : 0x80 ≤ c.toNat) {b : UInt8} (hb : b ∈ encodeChar c) :
    0x80 ≤ b.toNat := by
  have hc := toNat_lt c
  have large (n : Nat) (hn : 0x80 ≤ n ∧ n < 0x100) : 0x80 ≤ n.toUInt8.toNat := by
    rw [toNat_toUInt8 hn.2]; exact hn.1
  unfold encodeChar at hb
  dsimp only at hb
  split at hb
  · omega
  split at hb
  · simp only [List.mem_cons, List.not_mem_nil, or_false] at hb
    obtain rfl | rfl := hb <;> exact large _ (by omega)
  split at hb
  · simp only [List.mem_cons, List.not_mem_nil, or_false] at hb
    obtain rfl | rfl | rfl := hb <;> exact large _ (by omega)
  · simp only [List.mem_cons, List.not_mem_nil, or_false] at hb
    obtain rfl | rfl | rfl | rfl := hb <;> exact large _ (by omega)

theorem toUInt8_lt_iff {m n : Nat} (hm : m < 0x100) (hn : n < 0x100) :
    m.toUInt8 < n.toUInt8 ↔ m < n := by
  rw [UInt8.lt_iff_toNat_lt, toNat_toUInt8 hm, toNat_toUInt8 hn]

theorem toUInt8_inj {m n : Nat} (hm : m < 0x100) (hn : n < 0x100) :
    m.toUInt8 = n.toUInt8 ↔ m = n := by
  rw [← UInt8.toNat_inj, toNat_toUInt8 hm, toNat_toUInt8 hn]

/-- Of two characters the smaller one has the smaller bytes, whatever follows them. -/
theorem encodeChar_append_lt {c d : Char} (h : c < d) (s t : Bytes) :
    encodeChar c ++ s < encodeChar d ++ t := by
  have hc := toNat_lt c
  have hd := toNat_lt d
  have less : c.toNat < d.toNat := h
  unfold encodeChar
  dsimp only
  -- fewer bytes start with a smaller one; as many bytes are compared like digits
  repeat' split
  all_goals
    simp only [List.cons_append, List.nil_append, List.cons_lt_cons_iff]
    simp (disch := omega) only [toUInt8_lt_iff, toUInt8_inj]
    omega

theorem encode_lt_encode {cs ds : List Char} (h : cs < ds) : encode cs < encode ds := by
  induction h with
  | @nil d ds =>
    obtain ⟨a, t, first⟩ := List.exists_cons_of_ne_nil (encodeChar_ne_nil d)
    rw [encode_cons, first]
    exact List.Lex.nil
  | @rel c cs d ds less =>
    rw [encode_cons, encode_cons]
    exact encodeChar_append_lt less _ _
  | @cons c cs ds _ ih =>
    rw [encode_cons, encode_cons]
    exact List.append_left_lt ih

/-- Texts are in the order of their UTF-8 bytes. -/
theorem encode_lt_encode_iff {a b : String} : encode a.toList < encode b.toList ↔ a < b := by
  constructor
  · intro h
    by_cases less : a < b
    · exact less
    by_cases greater : b < a
    · exact absurd (encode_lt_encode (String.lt_iff.mp greater)) (List.lt_asymm h)
    · have same := String.le_antisymm (String.not_lt.mp greater) (String.not_lt.mp less)
      subst same
      exact absurd h (List.lt_irrefl _)
  · intro h
    exact encode_lt_encode (String.lt_iff.mp h)

end AlertLedger.Utf8
