import AlertLedger.Timestamp
import AlertLedger.Proofs.WholeDoubles

namespace AlertLedger

/-- A number in plain notation: a sign, digits, and a point with more digits if it has places behind
the point. It has no exponent. -/
structure PlainNumber where
  negative : Bool
  whole : List Char
  fraction : List Char
  some_digit : whole ≠ []
  digit : ∀ c ∈ whole ++ fraction, c.isDigit = true

namespace PlainNumber

open Json

variable {m n : PlainNumber} {w f f' : List Char}

def chars (n : PlainNumber) : List Char :=
  (if n.negative then ['-'] else []) ++ (n.whole ++ fractionChars n.fraction)

/-- The number that is written, without its sign. -/
def decimal (n : PlainNumber) : Decimal :=
  ⟨Nat.ofDigitChars 10 (n.whole ++ n.fraction) 0, -n.fraction.length⟩

/-- The double nearest to the number that is written. -/
def double (n : PlainNumber) : Binary64 := .ofRounded n.negative n.decimal.nearest?

/-- A whole number, with some zeros behind its point. -/
def ofWhole (negative : Bool) (whole zeros : Nat) : PlainNumber where
  negative := negative
  whole := Nat.toDigits 10 whole
  fraction := List.replicate zeros '0'
  some_digit := Nat.toDigits_ne_nil
  digit c hc := (List.mem_append.mp hc).elim (isDigit_toDigits c) (isDigit_replicate_zero c)

theorem value_ofWhole (s : Bool) (whole zeros : Nat) :
    (ofWhole s whole zeros).decimal.value = whole := by
  have number : (ofWhole s whole zeros).decimal = ⟨whole * 10 ^ zeros, -zeros⟩ := by
    rw [decimal, ofWhole, ofDigitChars_toDigits_append_zeros, List.length_replicate]
  rw [number, Decimal.value, zpow_neg, zpow_natCast]
  push_cast
  field_simp

/-- The places of a decimal are written as they are. -/
theorem exists_of_splits {d : Decimal} (h : d.Splits w f) (s : Bool) : ∃ n : PlainNumber,
    n.chars = (if s then ['-'] else []) ++ d.positionalChars ∧ n.negative = s ∧
      n.decimal = d := by
  obtain ⟨text, form, digit, number, places⟩ := h
  have some : w ≠ [] := by
    rintro rfl
    cases form
  have exponent : -(f.length : Int) = d.exponent := by omega
  refine ⟨⟨s, w, f, some, digit⟩, ?_, rfl, ?_⟩
  · rw [text]
    rfl
  · rw [decimal, number, exponent]

/-- One zero behind the point is the last of the digits. -/
theorem digits_mod_of_fraction (h : n.fraction = ['0']) : n.decimal.digits % 10 = 0 := by
  rw [decimal, h, Nat.ofDigitChars_append]
  exact Nat.mul_mod_right 10 _

theorem fractionChars_inj (h : fractionChars f = fractionChars f') : f = f' := by
  cases f <;> cases f' <;> simp_all [fractionChars]

theorem takeWhile_append_fractionChars (digit : ∀ c ∈ w, c.isDigit = true) :
    (w ++ fractionChars f).takeWhile (·.isDigit) = w := by
  have behind : (fractionChars f).takeWhile (·.isDigit) = [] := by
    cases f with
    | nil => rfl
    | cons c f => rfl
  rw [List.takeWhile_append_of_pos digit, behind, List.append_nil]

theorem digit_whole (n : PlainNumber) : ∀ c ∈ n.whole, c.isDigit = true :=
  fun c hc => n.digit c (List.mem_append_left _ hc)

theorem negative_iff : n.negative = true ↔ n.chars.head? = some '-' := by
  obtain ⟨c, cs, hc⟩ := List.exists_cons_of_ne_nil n.some_digit
  have digit := n.digit_whole c (by simp [hc])
  unfold chars
  cases n.negative with
  | true => simp
  | false =>
    have other : c ≠ '-' := by
      rintro rfl
      cases digit
    simp [hc, other]

/-- A text is one number in plain notation at most. -/
theorem chars_inj (h : m.chars = n.chars) : m = n := by
  have sign : m.negative = n.negative := by
    rw [Bool.eq_iff_iff, negative_iff, negative_iff, h]
  unfold chars at h
  rw [sign] at h
  have body := List.append_cancel_left h
  have whole : m.whole = n.whole := by
    rw [← takeWhile_append_fractionChars m.digit_whole, body,
      takeWhile_append_fractionChars n.digit_whole]
  rw [whole] at body
  have fraction := fractionChars_inj (List.append_cancel_left body)
  cases m
  cases n
  simp_all

theorem mem_chars {c : Char} (h : c ∈ n.chars) : c = '-' ∨ c = '.' ∨ c.isDigit = true := by
  unfold chars at h
  obtain sign | body := List.mem_append.mp h
  · split at sign
    · exact .inl (List.mem_singleton.mp sign)
    · cases sign
  obtain whole | behind := List.mem_append.mp body
  · exact .inr (.inr (n.digit_whole c whole))
  by_cases none : n.fraction = []
  · rw [none] at behind
    cases behind
  rw [fractionChars_eq none] at behind
  obtain point | digit := List.mem_cons.mp behind
  · exact .inr (.inl point)
  · exact .inr (.inr (n.digit c (List.mem_append_right _ digit)))

/-- A text ends in a point and a zero where the zero is all that stands behind the point. -/
theorem suffix_chars_iff : ['.', '0'] <:+ n.chars ↔ n.fraction = ['0'] := by
  obtain ⟨sign, hs⟩ : ∃ sign, sign = if n.negative then ['-'] else [] := ⟨_, rfl⟩
  have text : n.chars = sign ++ n.whole ++ fractionChars n.fraction := by
    rw [hs, List.append_assoc, chars]
  have front : '.' ∉ sign ++ n.whole := by
    intro point
    obtain here | here := List.mem_append.mp point
    · rw [hs] at here
      split at here <;> simp at here
    · cases n.digit_whole '.' here
  have behind : '.' ∉ n.fraction := fun point =>
    absurd (n.digit '.' (List.mem_append_right _ point)) (by decide)
  rw [text]
  constructor
  · rintro ⟨t, ht⟩
    by_cases none : n.fraction = []
    · rw [none, fractionChars, List.append_nil] at ht
      rw [← ht] at front
      simp at front
    · rw [fractionChars_eq none] at ht
      exact ((List.append_cons_inj_of_notMem front behind).mp ht.symm).2.2
  · intro zero
    rw [zero]
    exact ⟨_, rfl⟩

end PlainNumber

namespace Magnitude

variable {x : Magnitude} {s : Bool}

theorem toList_timestampText (s : Bool) (x : Magnitude) :
    (timestampText (.finite s x)).toList = (if s then ['-'] else []) ++
      ((x.shortest .upward).positionalChars ++
        if 0 ≤ (x.shortest .upward).exponent ∧ (x.shortest .upward).leadingExponent < 16 then
          ['.', '0'] else []) := by
  rw [timestampText, String.toList_ofList, NumberStyle.chars, NumberStyle.magnitudeChars]
  generalize shortest_eq : x.shortest .upward = d
  have same : x.shortest timestampStyle.tie = d := shortest_eq
  rw [same]
  simp only [timestampStyle, if_true, Bool.and_eq_true, decide_eq_true_eq]

/-- Whole numbers below `10 ^ 16` are written with all their digits. -/
theorem toList_timestampText_whole {k : Nat} (small : k < 10 ^ 16) (whole : x.value = k) :
    (timestampText (.finite s x)).toList =
      (if s then ['-'] else []) ++ (Nat.toDigits 10 k ++ ['.', '0']) := by
  have point := (shortest_whole_iff .upward).mpr ⟨k, small, whole⟩
  obtain ⟨j, exponent, number⟩ :=
    number_shortest_of_whole (value_eq_natCast_iff.mp whole) .upward small
  rw [toList_timestampText, if_pos point,
    Decimal.positionalChars_whole (digits_shortest_pos_or .upward x) point.1, exponent,
    Int.toNat_natCast, number]

/-- The text of a finite double is its shortest decimal in plain notation. -/
theorem exists_plain_shortest (s : Bool) (x : Magnitude) : ∃ n : PlainNumber,
    n.chars = (timestampText (.finite s x)).toList ∧ n.negative = s ∧
      n.decimal.value = (x.shortest .upward).value ∧
      (n.fraction = ['0'] ↔ ∃ k < 10 ^ 16, x.value = (k : Nat)) := by
  have digits := digits_shortest_pos_or .upward x
  have final (below : (x.shortest .upward).exponent < 0) :
      (x.shortest .upward).digits % 10 ≠ 0 := by
    refine digits_shortest_mod .upward (Nat.pos_of_ne_zero fun zero => ?_)
    rw [shortest_of_units_eq_zero .upward zero] at below
    exact absurd below (by decide)
  rw [toList_timestampText, ← shortest_whole_iff .upward]
  generalize x.shortest .upward = d at digits final ⊢
  by_cases whole : 0 ≤ d.exponent
  · obtain ⟨m, text, value⟩ : ∃ m : Nat, d.positionalChars = Nat.toDigits 10 m ∧ d.value = m :=
      ⟨_, Decimal.positionalChars_whole digits whole, Decimal.value_whole whole⟩
    by_cases leading : d.leadingExponent < 16
    · refine ⟨.ofWhole s m 1, ?_, rfl, ?_, iff_of_true rfl ⟨whole, leading⟩⟩
      · rw [if_pos (And.intro whole leading), text]
        rfl
      · rw [value, PlainNumber.value_ofWhole]
    · have short : ¬ (0 ≤ d.exponent ∧ d.leadingExponent < 16) := fun h => leading h.2
      refine ⟨.ofWhole s m 0, ?_, rfl, ?_, iff_of_false (List.cons_ne_nil _ _).symm short⟩
      · rw [if_neg short, text]
        rfl
      · rw [value, PlainNumber.value_ofWhole]
  · have below : d.exponent < 0 := by omega
    have short : ¬ (0 ≤ d.exponent ∧ d.leadingExponent < 16) := fun h => whole h.1
    obtain ⟨w, f, splits⟩ := Decimal.exists_splits (digits.resolve_right below.ne) below
    obtain ⟨n, text, sign, same⟩ := PlainNumber.exists_of_splits splits s
    refine ⟨n, ?_, sign, by rw [same], iff_of_false ?_ short⟩
    · rw [if_neg short, List.append_nil, text]
    · intro zero
      have last := PlainNumber.digits_mod_of_fraction zero
      rw [same] at last
      exact final below last

/-- It is rounded to the double. -/
theorem exists_plainNumber (s : Bool) (x : Magnitude) : ∃ n : PlainNumber,
    n.chars = (timestampText (.finite s x)).toList ∧ n.decimal.nearest? = some x ∧
      n.double = .finite s x ∧ (n.fraction = ['0'] ↔ ∃ k < 10 ^ 16, x.value = (k : Nat)) := by
  obtain ⟨n, text, sign, value, point⟩ := exists_plain_shortest s x
  have nearest : n.decimal.nearest? = some x := by
    rw [Decimal.nearest?_congr value]
    exact nearest?_shortest .upward x
  refine ⟨n, text, nearest, ?_, point⟩
  rw [PlainNumber.double, sign, nearest]
  rfl

end Magnitude

theorem timestampText_whole_iff {s : Bool} {x : Magnitude} {k : Nat} :
    (timestampText (.finite s x)).toList =
        (if s then ['-'] else []) ++ (Nat.toDigits 10 k ++ ['.', '0']) ↔
      k < 10 ^ 16 ∧ x.value = k := by
  constructor
  · intro text
    obtain ⟨n, chars, _, _, point⟩ := Magnitude.exists_plainNumber s x
    have ends : ['.', '0'] <:+ n.chars := by
      rw [chars, text, ← List.append_assoc]
      exact List.suffix_append _ _
    obtain ⟨j, small, whole⟩ := point.mp (PlainNumber.suffix_chars_iff.mp ends)
    rw [Magnitude.toList_timestampText_whole small whole] at text
    have digits := List.append_cancel_right (List.append_cancel_left text)
    have same : j = k := by
      rw [← Nat.ofDigitChars_toDigits (b := 10) (n := j) (by decide) (by decide), digits,
        Nat.ofDigitChars_toDigits (by decide) (by decide)]
    exact same ▸ ⟨small, whole⟩
  · rintro ⟨small, whole⟩
    exact Magnitude.toList_timestampText_whole small whole

/-- No other double has the text of a finite one. -/
theorem timestampText_inj {t : Binary64} {s : Bool} {x : Magnitude}
    (h : timestampText t = timestampText (.finite s x)) : t = .finite s x := by
  obtain ⟨n, text, _, double, _⟩ := Magnitude.exists_plainNumber s x
  rw [← h] at text
  have letter {c : Char} (hc : c ∈ (timestampText t).toList) :
      c = '-' ∨ c = '.' ∨ c.isDigit = true := by
    rw [← text] at hc
    exact PlainNumber.mem_chars hc
  cases t with
  | nan => exact absurd (letter (c := 'N') (by decide)) (by decide)
  | infinity s =>
    have named : 'n' ∈ (timestampText (.infinity s)).toList := by
      cases s <;> decide
    exact absurd (letter named) (by decide)
  | finite s' x' =>
    obtain ⟨n', text', _, double', _⟩ := Magnitude.exists_plainNumber s' x'
    obtain rfl := PlainNumber.chars_inj (text'.trans text.symm)
    exact double'.symm.trans double

/-- The text of a timestamp keeps it. It is one number in plain notation, which is rounded to the
timestamp itself, sign included, and no double is nearer to it; it ends in a point and a zero for
the whole numbers below `10 ^ 16`, of which it has all the digits, and no other double has the same
text. -/
theorem timestamp_text_is_lossless (s : Bool) (x : Magnitude) : ∃ n : PlainNumber,
    (∀ m : PlainNumber, m.chars = (timestampText (.finite s x)).toList ↔ m = n) ∧
      n.double = .finite s x ∧
      (∀ z : Magnitude, |x.value - n.decimal.value| ≤ |z.value - n.decimal.value|) ∧
      (['.', '0'] <:+ (timestampText (.finite s x)).toList ↔
        ∃ k < 10 ^ 16, x.value = (k : Nat)) ∧
      (∀ k : Nat, (timestampText (.finite s x)).toList =
          (if s then ['-'] else []) ++ (Nat.toDigits 10 k ++ ['.', '0']) ↔
        k < 10 ^ 16 ∧ x.value = k) ∧
      ∀ t, timestampText t = timestampText (.finite s x) ↔ t = .finite s x := by
  obtain ⟨n, text, nearest, double, point⟩ := Magnitude.exists_plainNumber s x
  refine ⟨n, fun m => ⟨fun h => PlainNumber.chars_inj (h.trans text.symm), ?_⟩, double, ?_, ?_,
    fun k => timestampText_whole_iff, ?_⟩
  · rintro rfl
    exact text
  · intro z
    rw [Decimal.value_eq_div]
    exact Magnitude.nearest?_nearest (by positivity) nearest z
  · rw [← text, PlainNumber.suffix_chars_iff, point]
  · exact fun t => ⟨timestampText_inj, fun h => h ▸ rfl⟩

/-- The two doubles on either side of the border. -/
example : timestampText (.ofBits 0x4341c37937e07fff) = "9999999999999998.0" ∧
    timestampText (.ofBits 0x4341c37937e08000) = "10000000000000000" := by
  decide +kernel

end AlertLedger
