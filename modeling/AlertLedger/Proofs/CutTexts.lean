import AlertLedger.Proofs.DecimalReading
import AlertLedger.Proofs.JsonReaders

namespace AlertLedger

/-- `p` is `s` cut off somewhere before its end. -/
def CutOff (p s : Bytes) : Prop := ∃ q, q ≠ [] ∧ s = p ++ q

namespace CutOff

variable {p s t : Bytes} {c : UInt8}

theorem of_isPrefix (h : p <+: s) (strict : p ≠ s) : CutOff p s := by
  obtain ⟨q, rfl⟩ := h
  exact ⟨q, fun none => strict (by simp [none]), rfl⟩

theorem not_nil : ¬CutOff p [] := by
  rintro ⟨q, some, whole⟩
  exact some (List.append_eq_nil_iff.mp whole.symm).2

theorem isPrefix (h : CutOff p s) : p <+: s := by
  obtain ⟨q, _, rfl⟩ := h
  exact List.prefix_append p q

/-- The cut falls into the first part or into the second. -/
theorem append (h : CutOff p (s ++ t)) : CutOff p s ∨ ∃ q, p = s ++ q ∧ CutOff q t := by
  obtain ⟨q, some, whole⟩ := h
  obtain ⟨m, behind, rest⟩ | ⟨m, inside, rest⟩ := List.append_eq_append_iff.mp whole
  · exact .inr ⟨m, behind, q, some, rest⟩
  · cases m with
    | nil =>
      rw [List.append_nil] at inside
      rw [List.nil_append] at rest
      exact .inr ⟨[], by rw [inside, List.append_nil], t, rest ▸ some, rfl⟩
    | cons c m => exact .inl ⟨c :: m, by simp, inside⟩

theorem cons (h : CutOff p (c :: s)) : p = [] ∨ ∃ q, p = c :: q ∧ CutOff q s := by
  obtain inside | behind := append (s := [c]) h
  · obtain ⟨q, some, whole⟩ := inside
    cases p with
    | nil => exact .inl rfl
    | cons d p => simp_all
  · exact .inr behind

end CutOff

/-- A refusal because the text ends. -/
def EndsText (result : Except Fault α) : Prop :=
  ∃ f, result = .error f ∧ f.cause.category = .eof

/-- A cut text of this value is refused for its end, or it is read as a value of its own. -/
def Reader.MeetsEnd (reader : Reader α) (v : Bytes) : Prop :=
  ∀ b p, Json.Blank b → CutOff p (b ++ v) →
    EndsText (reader.run p) ∨ ∃ a, reader.run p = .ok (a, [])

/-- A cut text of this value is refused for its end. -/
def Reader.MissesEnd (reader : Reader α) (v : Bytes) : Prop :=
  ∀ b p, Json.Blank b → CutOff p (b ++ v) → EndsText (reader.run p)

theorem Reader.MissesEnd.meetsEnd {reader : Reader α} {v : Bytes} (h : reader.MissesEnd v) :
    reader.MeetsEnd v := fun b p blank cut => .inl (h b p blank cut)

namespace Json

variable {p s t v bs done ds : Bytes} {c : Char} {n : Nat}

section Strings

theorem IsHex4.cutOff (h : IsHex4 ds n) (cut : CutOff p ds) :
    readHex4 p = .error (.behind .stringNotClosed []) := by
  obtain ⟨ha, hb, hc, hd⟩ := h
  obtain rfl | ⟨_, rfl, cut₁⟩ := cut.cons
  · rfl
  obtain rfl | ⟨_, rfl, cut₂⟩ := cut₁.cons
  · rfl
  obtain rfl | ⟨_, rfl, cut₃⟩ := cut₂.cons
  · rfl
  obtain rfl | ⟨_, rfl, cut₄⟩ := cut₃.cons
  · rfl
  · exact absurd cut₄ CutOff.not_nil

theorem IsEscape.cutOff (h : IsEscape s c) (cut : CutOff p s) :
    readEscape p = .error (.behind .stringNotClosed []) := by
  cases h with
  | short _ =>
    obtain rfl | ⟨q, rfl, rest⟩ := cut.cons
    · rfl
    · exact absurd rest CutOff.not_nil
  | single digits _ _ =>
    obtain rfl | ⟨q, rfl, rest⟩ := cut.cons
    · rfl
    · simp [readEscape, not_shortEscape_u, readUnicodeEscape, digits.cutOff rest]
  | @pair ds es m n digits high digits' _ =>
    have second (q : Bytes) : readEscape (0x75 :: (ds ++ q)) = readLowSurrogate m q := by
      simp [readEscape, not_shortEscape_u, readUnicodeEscape, digits.read, high,
        not_low_of_high high]
    obtain rfl | ⟨_, rfl, cut₁⟩ := cut.cons
    · rfl
    obtain inside | ⟨_, rfl, cut₂⟩ := cut₁.append
    · simp [readEscape, not_shortEscape_u, readUnicodeEscape, digits.cutOff inside]
    rw [second]
    obtain rfl | ⟨_, rfl, cut₃⟩ := cut₂.cons
    · rfl
    obtain rfl | ⟨_, rfl, cut₄⟩ := cut₃.cons
    · rfl
    · simp [readLowSurrogate, digits'.cutOff cut₄]

theorem readContents_nil (done : Bytes) :
    readContents done [] = .error (.behind .stringNotClosed []) := by
  rw [readContents.eq_def]
  rfl

theorem readContents_escape_error {f : Fault} (h : readEscape s = .error f) (done : Bytes) :
    readContents done (0x5c :: s) = .error f := by
  have stop : (0x5c :: s).dropWhile isPlain = 0x5c :: s := by simp [isPlain]
  rw [readContents.eq_def]
  grind

/-- Wherever a string is cut, inside a character or an escape too, its quote is missed first. -/
theorem Holds.readContents_cutOff (h : Holds t bs) (cut : CutOff p (t ++ [0x22])) (done : Bytes) :
    readContents done p = .error (.behind .stringNotClosed []) := by
  induction h generalizing p done with
  | nil =>
    obtain rfl | ⟨q, rfl, rest⟩ := cut.cons
    · exact readContents_nil done
    · exact absurd rest CutOff.not_nil
  | plain plain _ ih =>
    obtain rfl | ⟨q, rfl, rest⟩ := cut.cons
    · exact readContents_nil done
    · rw [readContents_plain plain]
      exact ih rest _
  | @escape s t bs c escape _ ih =>
    rw [List.cons_append, List.append_assoc] at cut
    obtain rfl | ⟨q, rfl, rest⟩ := cut.cons
    · exact readContents_nil done
    obtain inside | ⟨u, rfl, behind⟩ := rest.append
    · exact readContents_escape_error (escape.cutOff inside) done
    · rw [readContents_escape (readEscape_eq_ok_iff.mpr ⟨s, escape, rfl⟩)]
      exact ih behind _

theorem Spells.readText_cutOff {name : String} (h : Spells t name)
    (cut : CutOff p (t ++ [0x22])) : readText p = .error (.behind .stringNotClosed []) := by
  rw [readText, h.readContents_cutOff cut]

end Strings

/-- The parts of a number whose text was cut somewhere before its end. -/
structure NumberText.CutFrom (n' n : NumberText) : Prop where
  nonempty : n'.whole ≠ []
  whole : n'.whole <+: n.whole
  fraction : n'.fraction <+: n.fraction
  exponent : ∀ e' ∈ n'.exponent, ∃ e ∈ n.exponent, e'.2 <+: e.2 ∧ e'.2 ≠ e.2

section Numbers

variable {w f e u : Bytes} {fs : List Nat} {x : Option (Bool × List Nat)} {n : NumberText}

theorem digitsOf_isPrefix (h : s <+: t) : digitsOf s <+: digitsOf t := h.map _

theorem AreDigits.of_isPrefix (h : AreDigits t) (cut : p <+: t) : AreDigits p :=
  fun c hc => h c (cut.subset hc)

theorem IsWhole.of_isPrefix (h : IsWhole w) (cut : p <+: w) : p = [] ∨ IsWhole p := by
  cases h with
  | zero =>
    obtain rfl | ⟨q, rfl, rest⟩ := List.prefix_cons_iff.mp cut
    · exact .inl rfl
    · rw [List.prefix_nil.mp rest]
      exact .inr .zero
  | digits first nonzero rest =>
    obtain rfl | ⟨q, rfl, inside⟩ := List.prefix_cons_iff.mp cut
    · exact .inl rfl
    · exact .inr (.digits first nonzero (rest.of_isPrefix inside))

theorem IsFraction.of_isPrefix (h : IsFraction f fs) (cut : p <+: f) :
    p = [0x2e] ∨ ∃ fs', IsFraction p fs' ∧ fs' <+: fs := by
  cases h with
  | none =>
    rw [List.prefix_nil.mp cut]
    exact .inr ⟨[], .none, List.prefix_rfl⟩
  | digits first rest =>
    obtain rfl | ⟨q, rfl, inside⟩ := List.prefix_cons_iff.mp cut
    · exact .inr ⟨[], .none, List.nil_prefix⟩
    obtain rfl | ⟨q, rfl, inside'⟩ := List.prefix_cons_iff.mp inside
    · exact .inl rfl
    · exact .inr ⟨_, .digits first (rest.of_isPrefix inside'), digitsOf_isPrefix inside⟩

theorem ne_of_cutOff (cut : CutOff p s) : digitsOf p ≠ digitsOf s := by
  obtain ⟨q, some, rfl⟩ := cut
  intro same
  have length := congrArg List.length same
  simp only [digitsOf, List.length_map, List.length_append] at length
  exact some (List.length_eq_zero_iff.mp (by omega))

/-- An exponent that loses digits, but not all of them, has a smaller one left. -/
theorem IsExponent.of_cutOff (h : IsExponent e x) (atEnd : FaultCause) (cut : CutOff p e) :
    scanExponent atEnd p = .error (.behind atEnd []) ∨
      ∃ x', IsExponent p x' ∧ ∀ e' ∈ x', ∃ e ∈ x, e'.2 <+: e.2 ∧ e'.2 ≠ e.2 := by
  cases h with
  | none => exact absurd cut CutOff.not_nil
  | @digits m d sign ds down mark signed first rest =>
    have bare {sign : Bytes} {down : Bool} (signed : IsSign sign down) :
        scanExponent atEnd (m :: sign) = .error (.behind atEnd []) := by
      obtain rfl | rfl := mark <;> cases signed <;> simp [scanExponent, scanSign]
    obtain rfl | ⟨q, rfl, cut₁⟩ := cut.cons
    · exact .inr ⟨Option.none, .none, by simp⟩
    obtain inside | ⟨q, rfl, cut₂⟩ := cut₁.append
    · have nothing : q = [] := by
        cases signed with
        | none => exact absurd inside CutOff.not_nil
        | plus | minus =>
          obtain rfl | ⟨_, rfl, beyond⟩ := inside.cons
          · rfl
          · exact absurd beyond CutOff.not_nil
      rw [nothing]
      exact .inl (bare .none)
    obtain rfl | ⟨q, rfl, cut₃⟩ := cut₂.cons
    · rw [List.append_nil]
      exact .inl (bare signed)
    · refine .inr ⟨_, .digits mark signed first (rest.of_isPrefix cut₃.isPrefix), ?_⟩
      simp only [Option.mem_def, Option.some.injEq, forall_eq', exists_eq_left']
      exact ⟨digitsOf_isPrefix cut₂.isPrefix, ne_of_cutOff cut₂⟩

theorem IsWhole.digitsOf_ne_nil (h : IsWhole w) : digitsOf w ≠ [] := by
  cases h <;> simp [digitsOf]

theorem IsExponent.follows_of_isPrefix (h : IsExponent e x) (cut : p <+: e) :
    startsWithDigit p = false ∧ p.head? ≠ some 0x2e := by
  have follows := h.follows endsNumber_nil
  rw [List.append_nil] at follows
  cases p with
  | nil => exact ⟨rfl, by simp⟩
  | cons c p =>
    obtain ⟨q, rfl⟩ := cut
    exact follows

/-- A cut number misses digits, or it is a number. -/
theorem IsUnsigned.of_cutOff (h : IsUnsigned u n) (cut : CutOff p u) :
    EndsText (scanNumber .valueMissing p) ∨ ∃ n', IsUnsigned p n' ∧ n'.CutFrom n := by
  obtain ⟨whole, fraction, exponent⟩ := h
  have nonempty := whole.digitsOf_ne_nil
  obtain inside | ⟨q, rfl, cut₁⟩ := cut.append
  · obtain rfl | whole' := whole.of_isPrefix inside.isPrefix
    · exact .inl ⟨_, rfl, rfl⟩
    have form := IsUnsigned.parts whole' .none .none
    rw [List.append_nil, List.append_nil] at form
    exact .inr ⟨_, form, whole'.digitsOf_ne_nil, digitsOf_isPrefix inside.isPrefix, List.nil_prefix,
      by simp⟩
  obtain inside | ⟨r, rfl, cut₂⟩ := cut₁.append
  · obtain rfl | ⟨fs', fraction', less⟩ := fraction.of_isPrefix inside.isPrefix
    · refine .inl ⟨.ahead .valueMissing [], ?_, rfl⟩
      rw [scanNumber, whole.scan rfl]
      rfl
    have form := IsUnsigned.parts whole fraction' .none
    rw [List.append_nil] at form
    exact .inr ⟨_, form, nonempty, List.prefix_rfl, less, by simp⟩
  obtain missing | ⟨x', exponent', less⟩ := exponent.of_cutOff .valueMissing cut₂
  · obtain ⟨digit, point⟩ := exponent.follows_of_isPrefix cut₂.isPrefix
    refine .inl ⟨.behind .valueMissing [], ?_, rfl⟩
    rw [scanNumber, whole.scan (fraction.follows digit)]
    simp only [fraction.scan digit point, missing]
  · exact .inr ⟨_, .parts whole fraction exponent', nonempty, List.prefix_rfl, List.prefix_rfl,
      less⟩

theorem digitsValue_append (ds es : List Nat) :
    digitsValue (ds ++ es) = es.foldl (fun n d => n * 10 + d) (digitsValue ds) :=
  List.foldl_append

theorem digitsValue_le_of_isPrefix {ds es : List Nat} (h : ds <+: es) :
    digitsValue ds ≤ digitsValue es := by
  obtain ⟨q, rfl⟩ := h
  rw [digitsValue_append]
  exact le_foldl_digits q _

theorem digitsValue_mul_ten_le {ds es : List Nat} (h : ds <+: es) (strict : ds ≠ es) :
    digitsValue ds * 10 ≤ digitsValue es := by
  obtain ⟨q, rfl⟩ := h
  cases q with
  | nil => exact absurd (List.append_nil ds).symm strict
  | cons d q =>
    rw [digitsValue_append, List.foldl_cons]
    exact (Nat.le_add_right _ d).trans (le_foldl_digits q _)

/-- Digits that fit and a small exponent cannot get out of range. -/
theorem exists_readDecimal_of_small {d : Decimal} (fits : d.digits < Nat.pow 2 64)
    (small : d.exponent < 100) : ∃ y, readDecimal d = some y := by
  refine exists_readDecimal fits fun whole => ⟨by omega, ?_⟩
  have room : 10 ^ 130 * unitsPerOne ≤ Magnitude.largest.units := by decide +kernel
  have room' : (10 ^ 130 : ℚ) ≤ Magnitude.largest.value := by
    rw [Magnitude.value, le_div_iff₀ (Nat.cast_pos.mpr unitsPerOne_pos)]
    exact_mod_cast room
  have digits : (d.digits : ℚ) ≤ 2 ^ 64 := by exact_mod_cast fits.le
  have power : (10 : ℚ) ^ d.exponent.natAbs ≤ 10 ^ 100 :=
    pow_le_pow_right₀ (by norm_num) (by omega)
  have value : d.value ≤ 2 ^ 64 * 10 ^ 100 := by
    rw [Decimal.value_of_nonneg whole]
    exact mul_le_mul digits power (by positivity) (by positivity)
  refine le_trans ?_ room'
  norm_num [roundoff] at value ⊢
  linarith

theorem NumberText.exists_value (whole : digitsValue n.whole < Nat.pow 2 64)
    (small : ∀ e ∈ n.exponent, digitsValue e.2 < 100) (negative : Bool) (r : Bytes) :
    ∃ v, n.value negative r = .ok v := by
  have fits : gather 0 n.whole = (digitsValue n.whole, 0) := gather_eq_foldl whole
  have all := gather_lt whole n.fraction
  have read {k : Nat} {e : Int} (hk : k < Nat.pow 2 64) (he : e < 100) :
      ∃ y, (Magnitude.ofNat? k).bind (fun x => scaleByTen x e) = some y :=
    exists_readDecimal_of_small (d := ⟨k, e⟩) hk he
  have gathered (ds : List Nat) (hd : digitsValue ds < 100) :
      gatherExponent 0 ds = .ok (digitsValue ds) :=
    gatherExponent_eq_foldl (Nat.lt_trans hd (by decide))
  obtain ⟨nearest, hn⟩ : ∃ f, f = Magnitude.ofNat? := ⟨_, rfl⟩
  obtain ⟨scaled, hs⟩ : ∃ f, f = scaleByTen := ⟨_, rfl⟩
  unfold NumberText.value
  rw [← hn, ← hs] at read ⊢
  simp only [fits]
  generalize gather (digitsValue n.whole) n.fraction = g at all ⊢
  split
  · exact ⟨_, rfl⟩
  cases he : n.exponent with
  | none =>
    obtain ⟨y, hy⟩ := read all (e := ((0 : Nat) : Int) - (n.fraction.length - g.2 : Nat)) (by omega)
    simp only [hy]
    exact ⟨_, rfl⟩
  | some e =>
    have few := small e he
    obtain ⟨down, ds⟩ := e
    simp only [gathered ds few]
    obtain ⟨y, hy⟩ := read all (e := if down then
        ((0 : Nat) : Int) - (n.fraction.length - g.2 : Nat) - digitsValue ds
      else ((0 : Nat) : Int) - (n.fraction.length - g.2 : Nat) + digitsValue ds)
      (by dsimp only at few; split <;> omega)
    simp only [hy]
    exact ⟨_, rfl⟩

end Numbers

section Readers

variable {reader : Reader α} {wanted : WantedValue} {accept : JsonNumber → Except FaultCause α}
  {u : Bytes} {n : NumberText} {read : UInt8 → Bytes → Except Fault (α × Bytes)}

theorem Blank.of_cutOff {b : Bytes} (h : Blank b) (cut : CutOff p b) : Blank p :=
  fun c hc => h c (cut.isPrefix.subset hc)

/-- What is so where the text ends is so at a cut, if it is so at every cut behind the first
byte. -/
theorem run_of_cutOff {P : Except Fault (α × Bytes) → Prop} (run : reader.run = atValue read)
    {c : UInt8} (hc : isBlank c = false) (ends : ∀ {result}, EndsText result → P result)
    (h : ∀ p, CutOff p t → P (read c p)) (b p : Bytes) (blank : Blank b)
    (cut : CutOff p (b ++ c :: t)) : P (reader.run p) := by
  have missing {p : Bytes} (blank : Blank p) : P (reader.run p) := by
    refine ends ⟨.ahead .valueMissing [], ?_, rfl⟩
    rw [run, atValue, blank.skip_all]
  obtain inside | ⟨q, rfl, behind⟩ := cut.append
  · exact missing (blank.of_cutOff inside)
  obtain rfl | ⟨q, rfl, rest⟩ := behind.cons
  · rw [List.append_nil]
    exact missing blank
  · rw [run, atValue_append blank hc]
    exact h q rest

theorem meetsEnd_of_read (run : reader.run = atValue read) {c : UInt8} (hc : isBlank c = false)
    (h : ∀ p, CutOff p t → EndsText (read c p) ∨ ∃ a, read c p = .ok (a, [])) :
    reader.MeetsEnd (c :: t) :=
  run_of_cutOff (P := fun result => EndsText result ∨ ∃ a, result = .ok (a, [])) run hc .inl h

theorem missesEnd_of_read (run : reader.run = atValue read) {c : UInt8} (hc : isBlank c = false)
    (h : ∀ p, CutOff p t → EndsText (read c p)) : reader.MissesEnd (c :: t) :=
  run_of_cutOff run hc id h

theorem text_missesEnd {name : String} (h : Spells t name) :
    text.MissesEnd (0x22 :: (t ++ [0x22])) :=
  missesEnd_of_read rfl (by decide) fun q cut => ⟨_, h.readText_cutOff cut, rfl⟩

theorem variant_missesEnd {known : List (String × α)} {name : String} (h : Spells t name) :
    (variant known).MissesEnd (0x22 :: (t ++ [0x22])) := by
  refine missesEnd_of_read rfl (by decide) fun q cut => ⟨.behind .stringNotClosed [], ?_, rfl⟩
  rw [readVariant, if_pos rfl, readVariantName, h.readText_cutOff cut]

theorem readNumber_of_cutOff (form : IsUnsigned u n) (negative : Bool)
    (value : ∀ n' : NumberText, n'.CutFrom n →
      ∃ v, n'.value negative [] = .ok v ∧ ∃ a, accept v = .ok a)
    (cut : CutOff p u) :
    EndsText (readNumber negative p) ∨
      ∃ v a, readNumber negative p = .ok (v, []) ∧ accept v = .ok a := by
  obtain ⟨f, missing, ends⟩ | ⟨n', form', less⟩ := form.of_cutOff cut
  · refine .inl ⟨f, ?_, ends⟩
    rw [readNumber, missing]
  · obtain ⟨v, hv, a, ha⟩ := value n' less
    have scan : scanNumber .valueMissing (p ++ []) = .ok (n', []) := form'.scan endsNumber_nil
    rw [List.append_nil] at scan
    refine .inr ⟨v, a, ?_, ha⟩
    rw [readNumber, scan]
    simp only [hv]

theorem readNumeric_of_cutOff {c : UInt8} {q : Bytes} (first : c = 0x2d ∨ isDigit c = true)
    (h : EndsText (readNumber (c == 0x2d) (if c = 0x2d then q else c :: q)) ∨
      ∃ v a, readNumber (c == 0x2d) (if c = 0x2d then q else c :: q) = .ok (v, []) ∧
        accept v = .ok a) :
    EndsText (readNumeric wanted accept c q) ∨
      ∃ a, readNumeric wanted accept c q = .ok (a, []) := by
  unfold readNumeric
  rw [if_pos (by simpa using first)]
  obtain ⟨f, missing, ends⟩ | ⟨v, a, number, accepted⟩ := h
  · exact .inl ⟨f, by rw [missing], ends⟩
  · exact .inr ⟨a, by rw [number]; simp only [accepted]⟩

/-- A number is read as a number wherever it is cut, or its end is missed. -/
theorem numeric_meetsEnd (run : reader.run = atValue (readNumeric wanted accept))
    (form : IsUnsigned u n) (negative : Bool)
    (value : ∀ n' : NumberText, n'.CutFrom n →
      ∃ v, n'.value negative [] = .ok v ∧ ∃ a, accept v = .ok a) :
    reader.MeetsEnd ((if negative then [0x2d] else []) ++ u) := by
  cases negative with
  | true =>
    exact meetsEnd_of_read run (by decide) fun q cut =>
      readNumeric_of_cutOff (.inl rfl) (readNumber_of_cutOff form true value cut)
  | false =>
    obtain ⟨c, t, rfl, first⟩ := form.exists_cons
    refine meetsEnd_of_read run (isBlank_of_isDigit first) fun q cut => ?_
    have minus : c ≠ 0x2d := ne_of_isDigit first (by decide)
    have sign : (c == 0x2d) = false := by simpa using minus
    have behind : CutOff (c :: q) (c :: t) := by
      obtain ⟨m, some, rfl⟩ := cut
      exact ⟨m, some, rfl⟩
    refine readNumeric_of_cutOff (.inr first) ?_
    rw [sign, if_neg minus]
    exact readNumber_of_cutOff form false value behind

/-- The numbers in the text of a double are in range, wherever it is cut. -/
theorem real_meetsEnd (s : Bool) (x : Magnitude) :
    real.MeetsEnd (Utf8.encode (realChars (.finite s x))) := by
  obtain ⟨n, form, spells⟩ := exists_spells_magnitudeChars x
  rw [encode_realChars]
  refine numeric_meetsEnd rfl form s fun n' cut => ?_
  have whole : digitsValue n'.whole < Nat.pow 2 64 := by
    have prefixes := cut.whole.trans (List.prefix_append n.whole n.fraction)
    refine (digitsValue_le_of_isPrefix prefixes).trans_lt ?_
    rw [spells.digits]
    exact spells.fits
  have small : ∀ e' ∈ n'.exponent, digitsValue e'.2 < 100 := by
    intro e' he'
    obtain ⟨e, he, less, strict⟩ := cut.exponent e' he'
    have tenth := digitsValue_mul_ten_le less strict
    have modest := spells.modest e he
    omega
  obtain ⟨v, value⟩ := n'.exists_value whole small s []
  refine ⟨v, value, ?_⟩
  cases v <;> exact ⟨_, rfl⟩

/-- The first digits of a positive number are not all zero. -/
theorem digitsValue_pos {k : Nat} {ds : List Nat} (positive : 0 < k) (nonempty : ds ≠ [])
    (cut : ds <+: digitsOf (Utf8.encode (Nat.toDigits 10 k))) : 0 < digitsValue ds := by
  obtain ⟨c, cs, hc, nonzero⟩ := exists_toDigits_cons positive
  have digit := isDigit_toDigits (n := k)
  rw [hc] at cut digit
  rw [encode_digits digit] at cut
  obtain rfl | ⟨es, rfl, _⟩ := List.prefix_cons_iff.mp cut
  · exact absurd rfl nonempty
  have range := toNat_of_isDigit (digit c (by simp))
  have above : c.toNat ≠ 0x30 := fun h => nonzero (Char.toNat_inj.mp h)
  have first : 0 < c.toNat.toUInt8.toNat - 0x30 := by
    rw [Utf8.toNat_toUInt8 (by omega)]
    omega
  refine lt_of_lt_of_le first ?_
  rw [digitsValue, List.foldl_cons]
  exact (Nat.le_add_left _ _).trans (le_foldl_digits es _)

theorem signed64_meetsEnd (i : Int64) : signed64.MeetsEnd (Utf8.encode (intChars i.toInt)) := by
  have lower := i.le_toInt
  have upper := i.toInt_lt
  have bound : ((Nat.pow 2 63 : Nat) : Int) = 2 ^ 63 := rfl
  rw [encode_intChars]
  refine numeric_meetsEnd rfl (isUnsigned_toDigits _) _ fun n' cut => ?_
  obtain ⟨ds, fs, e⟩ := n'
  obtain ⟨nonempty, whole, fraction, exponent⟩ := cut
  obtain rfl := List.prefix_nil.mp fraction
  obtain rfl : e = none := by
    cases e with
    | none => rfl
    | some e => simpa using exponent e rfl
  have less : digitsValue ds ≤ i.toInt.natAbs := by
    rw [← digitsValue_toDigits i.toInt.natAbs]
    exact digitsValue_le_of_isPrefix whole
  have below (negative : decide (i.toInt < 0) = true) : 0 < digitsValue ds ∧
      digitsValue ds ≤ Nat.pow 2 63 := by
    have minus := of_decide_eq_true negative
    exact ⟨digitsValue_pos (by omega) nonempty whole, by omega⟩
  have room : Nat.pow 2 63 < Nat.pow 2 64 := by decide
  refine ⟨_, NumberText.value_whole rfl (by rw [← digitsValue]; omega) below [], _, if_pos ?_⟩
  rw [bound, ← digitsValue]
  split
  next minus =>
    have minus := of_decide_eq_true minus
    omega
  next plus =>
    have plus := of_decide_eq_false (Bool.eq_false_of_not_eq_true plus)
    omega

end Readers

end Json

end AlertLedger
