import AlertLedger.JsonText
import AlertLedger.Proofs.Utf8Text

namespace AlertLedger.Json

/-- The four digits of an escape and their value. -/
inductive IsHex4 : Bytes → Nat → Prop
  | digits {a b c d : UInt8} {w x y z : Nat} (ha : hexDigit? a = some w)
      (hb : hexDigit? b = some x) (hc : hexDigit? c = some y) (hd : hexDigit? d = some z) :
      IsHex4 [a, b, c, d] (((w * 16 + x) * 16 + y) * 16 + z)

/-- What follows the backslash of an escape and the character that it stands for. -/
inductive IsEscape : Bytes → Char → Prop
  | short {e : UInt8} {c : Char} (named : shortEscape? e = some c) : IsEscape [e] c
  | single {ds : Bytes} {n : Nat} (digits : IsHex4 ds n) (high : isHighSurrogate n = false)
      (low : isLowSurrogate n = false) : IsEscape (0x75 :: ds) (Char.ofNat n)
  | pair {ds es : Bytes} {m n : Nat} (digits : IsHex4 ds m) (high : isHighSurrogate m = true)
      (digits' : IsHex4 es n) (low : isLowSurrogate n = true) :
      IsEscape (0x75 :: (ds ++ 0x5c :: 0x75 :: es))
        (Char.ofNat ((m - 0xd800) * 0x400 + (n - 0xdc00) + 0x10000))

/-- What stands between the quotes of a string and the bytes that it holds, an escape being the
bytes of its character. -/
inductive Holds : Bytes → Bytes → Prop
  | nil : Holds [] []
  | plain {c : UInt8} {t bs : Bytes} (plain : isPlain c = true) (rest : Holds t bs) :
      Holds (c :: t) (c :: bs)
  | escape {p t bs : Bytes} {c : Char} (escape : IsEscape p c) (rest : Holds t bs) :
      Holds (0x5c :: (p ++ t)) (Utf8.encodeChar c ++ bs)

/-- `t` between quotes is the string of this text. -/
def Spells (t : Bytes) (name : String) : Prop := Holds t (Utf8.encode name.toList)

/-- What stands between the quotes of a string as far as its form goes, whatever its bytes and its
surrogates stand for. -/
inductive StringForm : Bytes → Prop
  | nil : StringForm []
  | plain {c : UInt8} {t : Bytes} (plain : isPlain c = true) (rest : StringForm t) :
      StringForm (c :: t)
  | short {e : UInt8} {c : Char} {t : Bytes} (named : shortEscape? e = some c)
      (rest : StringForm t) : StringForm (0x5c :: e :: t)
  | unicode {ds t : Bytes} {n : Nat} (digits : IsHex4 ds n) (rest : StringForm t) :
      StringForm (0x5c :: 0x75 :: (ds ++ t))

theorem Holds.stringForm {t bs : Bytes} (h : Holds t bs) : StringForm t := by
  induction h with
  | nil => exact .nil
  | plain plain _ ih => exact .plain plain ih
  | @escape p t bs c escape _ ih =>
    cases escape with
    | short named => exact .short named ih
    | single digits _ _ => exact .unicode digits ih
    | @pair ds es _ _ digits _ digits' _ =>
      have text : 0x75 :: (ds ++ 0x5c :: 0x75 :: es) ++ t =
          0x75 :: (ds ++ 0x5c :: 0x75 :: (es ++ t)) := by simp
      rw [text]
      exact .unicode digits (.unicode digits' ih)

theorem Holds.append {t u bs cs : Bytes} (h : Holds t bs) (h' : Holds u cs) :
    Holds (t ++ u) (bs ++ cs) := by
  induction h with
  | nil => exact h'
  | plain plain _ ih => exact .plain plain ih
  | escape escape _ ih => simpa using Holds.escape escape ih

theorem Holds.of_plain {p : Bytes} (h : ∀ c ∈ p, isPlain c = true) : Holds p p := by
  induction p with
  | nil => exact .nil
  | cons c p ih => exact .plain (h c (by simp)) (ih fun d hd => h d (by simp [hd]))

theorem isPlain_iff {b : UInt8} :
    isPlain b = true ↔ 0x20 ≤ b.toNat ∧ b ≠ 0x22 ∧ b ≠ 0x5c := by
  simp [isPlain, UInt8.le_iff_toNat_le, and_assoc]

section Reading

variable {s t r ds bs done p : Bytes} {c : Char} {n : Nat}

theorem readHex4_eq_ok_iff : readHex4 s = .ok (n, r) ↔ ∃ ds, IsHex4 ds n ∧ s = ds ++ r := by
  constructor
  · intro h
    unfold readHex4 at h
    split at h
    next a b c d t =>
      split at h
      next w x y z ha hb hc hd =>
        cases h
        exact ⟨[a, b, c, d], .digits ha hb hc hd, rfl⟩
      next => simp at h
    next => simp at h
  · rintro ⟨_, ⟨ha, hb, hc, hd⟩, rfl⟩
    simp [readHex4, ha, hb, hc, hd]

theorem IsHex4.read (h : IsHex4 ds n) (r : Bytes) : readHex4 (ds ++ r) = .ok (n, r) :=
  readHex4_eq_ok_iff.mpr ⟨ds, h, rfl⟩

theorem not_shortEscape_u : shortEscape? 0x75 = none := by decide

theorem not_low_of_high (h : isHighSurrogate n = true) : isLowSurrogate n = false := by
  unfold isHighSurrogate at h
  unfold isLowSurrogate
  simp only [Bool.and_eq_true, decide_eq_true_eq, Bool.and_eq_false_iff, decide_eq_false_iff_not]
    at h ⊢
  omega

theorem exists_low_of_readLowSurrogate {high : Nat} (h : readLowSurrogate high s = .ok (c, r)) :
    ∃ es n, IsHex4 es n ∧ isLowSurrogate n = true ∧ s = 0x5c :: 0x75 :: (es ++ r) ∧
      c = Char.ofNat ((high - 0xd800) * 0x400 + (n - 0xdc00) + 0x10000) := by
  unfold readLowSurrogate at h
  split at h
  · simp at h
  split at h
  · simp at h
  next backslash =>
  split at h
  · simp at h
  split at h
  · simp at h
  next mark =>
  split at h
  · simp at h
  next n _ hn =>
  obtain ⟨es, digits, rfl⟩ := readHex4_eq_ok_iff.mp hn
  split at h
  next low =>
    simp only [Except.ok.injEq, Prod.mk.injEq] at h
    obtain ⟨value, rfl⟩ := h
    refine ⟨es, n, digits, low, ?_, value.symm⟩
    rw [Decidable.not_not.mp backslash, Decidable.not_not.mp mark]
  next => simp at h

theorem exists_isEscape_of_readUnicodeEscape (h : readUnicodeEscape s = .ok (c, r)) :
    ∃ p, IsEscape (0x75 :: p) c ∧ s = p ++ r := by
  unfold readUnicodeEscape at h
  split at h
  · simp at h
  next m _ hm =>
  obtain ⟨ds, digits, rfl⟩ := readHex4_eq_ok_iff.mp hm
  split at h
  · simp at h
  next low =>
  split at h
  next high =>
    obtain ⟨es, n, digits', low', rfl, value⟩ := exists_low_of_readLowSurrogate h
    rw [value]
    exact ⟨_, .pair digits high digits' low', by simp⟩
  next high =>
    cases h
    exact ⟨ds, .single digits (by simpa using high) (by simpa using low), rfl⟩

theorem readEscape_eq_ok_iff :
    readEscape s = .ok (c, r) ↔ ∃ p, IsEscape p c ∧ s = p ++ r := by
  constructor
  · intro h
    unfold readEscape at h
    split at h
    · simp at h
    next e s =>
    split at h
    next named =>
      cases h
      exact ⟨[e], .short named, rfl⟩
    split at h
    next mark =>
      obtain ⟨p, escape, rfl⟩ := exists_isEscape_of_readUnicodeEscape h
      exact ⟨0x75 :: p, escape, by rw [mark]; rfl⟩
    next => simp at h
  · rintro ⟨p, escape, rfl⟩
    cases escape with
    | short named => simp [readEscape, named]
    | single digits high low =>
      simp [readEscape, not_shortEscape_u, readUnicodeEscape, digits.read, high, low]
    | pair digits high digits' low =>
      simp [readEscape, not_shortEscape_u, readUnicodeEscape, digits.read, high,
        not_low_of_high high, readLowSurrogate, digits'.read, low]

theorem readContents_quote (done r : Bytes) :
    readContents done (0x22 :: r) = .ok (done.reverse, r) := by
  have stop : (0x22 :: r).dropWhile isPlain = 0x22 :: r := by simp [isPlain]
  have none : (0x22 :: r).takeWhile isPlain = [] := by simp [isPlain]
  rw [readContents.eq_def]
  split
  next h => simp [stop] at h
  next h =>
    rw [stop] at h
    cases h
    simp [none]

theorem readContents_plain {c : UInt8} (h : isPlain c = true) (done s : Bytes) :
    readContents done (c :: s) = readContents (c :: done) s := by
  have drop : (c :: s).dropWhile isPlain = s.dropWhile isPlain := by simp [h]
  have take : (c :: s).takeWhile isPlain = c :: s.takeWhile isPlain := by simp [h]
  rw [readContents.eq_def, readContents.eq_def (c :: done)]
  grind

theorem readContents_escape (h : readEscape s = .ok (c, r)) (done : Bytes) :
    readContents done (0x5c :: s) = readContents ((Utf8.encodeChar c).reverse ++ done) r := by
  have stop : (0x5c :: s).dropWhile isPlain = 0x5c :: s := by simp [isPlain]
  have none : (0x5c :: s).takeWhile isPlain = [] := by simp [isPlain]
  rw [readContents.eq_def]
  grind

theorem Holds.read (h : Holds t bs) (done r : Bytes) :
    readContents done (t ++ 0x22 :: r) = .ok (done.reverse ++ bs, r) := by
  induction h generalizing done with
  | nil => simpa using readContents_quote done r
  | plain plain _ ih =>
    rw [List.cons_append, readContents_plain plain, ih]
    simp
  | @escape p t bs c escape _ ih =>
    rw [List.cons_append, List.append_assoc,
      readContents_escape (readEscape_eq_ok_iff.mpr ⟨p, escape, rfl⟩), ih]
    simp

/-- A run of plain bytes stops at the end, at a quote, at a backslash or at a control character. -/
theorem not_plain_of_dropWhile {e : UInt8} (h : s.dropWhile isPlain = e :: r) :
    isPlain e = false := by
  have stop := List.head?_dropWhile_not isPlain s
  rwa [h] at stop

theorem exists_holds_of_readContents (h : readContents done s = .ok (bs, r)) :
    ∃ t us, Holds t us ∧ s = t ++ 0x22 :: r ∧ bs = done.reverse ++ us := by
  have front (s : Bytes) : Holds (s.takeWhile isPlain) (s.takeWhile isPlain) :=
    .of_plain (List.all_eq_true.mp List.all_takeWhile)
  have parts (s : Bytes) : s.takeWhile isPlain ++ s.dropWhile isPlain = s :=
    List.takeWhile_append_dropWhile
  fun_induction readContents done s with
  | case1 => simp at h
  | case2 => simp at h
  | case3 done s t read hs control =>
    cases h
    exact ⟨_, _, front s, by rw [← hs, parts], by simp [read]⟩
  | case4 => simp at h
  | case5 done s e t hs control read quote d q he hl hl' ih =>
    obtain ⟨u, us, held, rfl, rfl⟩ := ih h
    obtain ⟨p, escape, rfl⟩ := readEscape_eq_ok_iff.mp he
    have backslash : e = 0x5c := by
      have stop := mt isPlain_iff.mpr (by simpa using not_plain_of_dropWhile hs)
      have high : ¬e.toNat < 0x20 := fun h => control (UInt8.lt_iff_toNat_lt.mpr h)
      exact Decidable.byContradiction fun hb => stop ⟨by omega, quote, hb⟩
    refine ⟨_, _, (front s).append (.escape escape held), ?_, by simp [read]⟩
    calc
      s = s.takeWhile isPlain ++ s.dropWhile isPlain := (parts s).symm
      _ = _ := by rw [hs, backslash]; simp

theorem readText_eq_ok_iff {name : String} :
    readText s = .ok (name, r) ↔ ∃ t, Spells t name ∧ s = t ++ 0x22 :: r := by
  unfold readText Spells
  constructor
  · intro h
    split at h
    · simp at h
    next bs q hc =>
    split at h
    · simp at h
    next cs hd =>
      cases h
      obtain ⟨t, us, held, rfl, rfl⟩ := exists_holds_of_readContents hc
      have same := Utf8.decode_eq_ok_iff.mp hd
      exact ⟨t, by simpa [← same] using held, rfl⟩
  · rintro ⟨t, held, rfl⟩
    have back := Utf8.decode_eq_ok_iff.mpr (Eq.refl (Utf8.encode name.toList))
    rw [held.read]
    simp [back]

theorem Spells.read {name : String} (h : Spells t name) (r : Bytes) :
    readText (t ++ 0x22 :: r) = .ok (name, r) :=
  readText_eq_ok_iff.mpr ⟨t, h, rfl⟩

/-- A string spells one text only. -/
theorem Spells.inj {name other : String} (h : Spells t name) (h' : Spells t other) :
    name = other := by
  have same := (h.read []).symm.trans (h'.read [])
  simpa using same

theorem StringForm.skip (h : StringForm t) (r : Bytes) : skipContents (t ++ 0x22 :: r) = .ok r := by
  induction h with
  | nil => simp [skipContents]
  | @plain c t plain _ ih =>
    obtain ⟨high, quote, backslash⟩ := isPlain_iff.mp plain
    have control : ¬c < 0x20 := fun h => by
      have := UInt8.lt_iff_toNat_lt.mp h
      simp at this
      omega
    rw [List.cons_append, skipContents.eq_def]
    simp [quote, backslash, control, ih]
  | @short e c t named _ ih =>
    have escape : skipEscape (e :: (t ++ 0x22 :: r)) = .ok (t ++ 0x22 :: r) := by
      simp [skipEscape, named]
    rw [List.cons_append, skipContents.eq_def]
    grind
  | @unicode ds t n digits _ ih =>
    have escape : skipEscape (0x75 :: (ds ++ (t ++ 0x22 :: r))) = .ok (t ++ 0x22 :: r) := by
      simp [skipEscape, not_shortEscape_u, digits.read, Except.map]
    rw [List.cons_append, skipContents.eq_def]
    grind

theorem StringForm.append_inj {u q : Bytes} (h : StringForm t) (h' : StringForm u)
    (same : t ++ 0x22 :: q = u ++ 0x22 :: r) : t = u ∧ q = r := by
  have rests : q = r := by
    have := (h.skip q).symm.trans (same ▸ h'.skip r)
    simpa using this
  subst rests
  exact ⟨List.append_cancel_right same, rfl⟩

end Reading

section Writing

theorem isPlain_encodeChar {c : Char} (printable : 0x20 ≤ c.toNat) (quote : c ≠ '"')
    (backslash : c ≠ '\\') : ∀ b ∈ Utf8.encodeChar c, isPlain b = true := by
  intro b hb
  rw [isPlain_iff]
  by_cases h : c.toNat < 0x80
  · rw [Utf8.encodeChar_ascii h, List.mem_singleton] at hb
    have hn : b.toNat = c.toNat := by rw [hb, Utf8.toNat_toUInt8 (by omega)]
    refine ⟨by omega, ?_, ?_⟩
    · rintro rfl
      exact quote (Char.toNat_inj.mp hn.symm)
    · rintro rfl
      exact backslash (Char.toNat_inj.mp hn.symm)
  · have hn := Utf8.le_of_mem_encodeChar (by omega) hb
    refine ⟨by omega, ?_, ?_⟩ <;> rintro rfl <;> simp at hn

theorem hexDigit?_digitChar : ∀ d < 16, hexDigit? (Nat.digitChar d).toNat.toUInt8 = some d := by
  decide

theorem digitChar_ascii : ∀ d < 16, (Nat.digitChar d).toNat < 0x80 := by decide

/-- Below `0x20` two of the four digits are enough. -/
theorem isHex4_control {n : Nat} (h : n < 0x20) :
    IsHex4 (Utf8.encode ['0', '0', Nat.digitChar (n / 16), Nat.digitChar (n % 16)]) n := by
  have high : n / 16 < 16 := by omega
  have low : n % 16 < 16 := by omega
  have zero : hexDigit? 0x30 = some 0 := by decide
  have bytes : Utf8.encode ['0', '0', Nat.digitChar (n / 16), Nat.digitChar (n % 16)] =
      [0x30, 0x30, (Nat.digitChar (n / 16)).toNat.toUInt8,
        (Nat.digitChar (n % 16)).toNat.toUInt8] := by
    have ascii : ∀ c ∈ ['0', '0', Nat.digitChar (n / 16), Nat.digitChar (n % 16)],
        c.toNat < 0x80 := by
      simp [digitChar_ascii _ high, digitChar_ascii _ low]
    rw [Utf8.encode_ascii ascii]
    rfl
  have digits := IsHex4.digits zero zero (hexDigit?_digitChar _ high) (hexDigit?_digitChar _ low)
  have value : ((0 * 16 + 0) * 16 + n / 16) * 16 + n % 16 = n := by omega
  rw [bytes]
  rwa [value] at digits

theorem holds_textChar (c : Char) : Holds (Utf8.encode (textChar c)) (Utf8.encodeChar c) := by
  have short {e : UInt8} {d : Char} (named : shortEscape? e = some d) :
      Holds [0x5c, e] (Utf8.encodeChar d) := by
    simpa using Holds.escape (.short named) .nil
  have named {n : Nat} (h : c.toNat = n) : c = Char.ofNat n := by rw [← h, Char.ofNat_toNat]
  unfold textChar
  split
  next h => rw [h]; exact short (e := 0x22) (by decide)
  split
  next h => rw [h]; exact short (e := 0x5c) (by decide)
  split
  next h => rw [named h]; exact short (e := 0x62) (by decide)
  split
  next h => rw [h]; exact short (e := 0x74) (by decide)
  split
  next h => rw [h]; exact short (e := 0x6e) (by decide)
  split
  next h => rw [named h]; exact short (e := 0x66) (by decide)
  split
  next h => rw [h]; exact short (e := 0x72) (by decide)
  split
  next control =>
    have digits := isHex4_control control
    have single : IsEscape _ (Char.ofNat c.toNat) :=
      .single digits (by simp [isHighSurrogate]; omega) (by simp [isLowSurrogate]; omega)
    rw [Char.ofNat_toNat] at single
    have held := Holds.escape single .nil
    simpa [Utf8.encode, Utf8.encodeChar_ascii] using held
  next quote backslash _ _ _ _ _ printable =>
    have held := Holds.of_plain (isPlain_encodeChar (by omega) quote backslash)
    simpa [Utf8.encode] using held

theorem holds_flatMap_textChar (cs : List Char) :
    Holds (Utf8.encode (cs.flatMap textChar)) (Utf8.encode cs) := by
  induction cs with
  | nil => exact .nil
  | cons c cs ih =>
    rw [List.flatMap_cons, Utf8.encode_append, Utf8.encode_cons]
    exact (holds_textChar c).append ih

/-- What is written for a text is a string that spells it. -/
theorem exists_spells_textChars (s : String) :
    ∃ t, Spells t s ∧ Utf8.encode (textChars s) = 0x22 :: (t ++ [0x22]) := by
  refine ⟨_, holds_flatMap_textChar s.toList, ?_⟩
  have quote : Utf8.encodeChar '"' = [0x22] := by decide
  unfold textChars
  rw [List.cons_append, Utf8.encode_cons, Utf8.encode_append, quote]
  rfl

end Writing

end AlertLedger.Json
