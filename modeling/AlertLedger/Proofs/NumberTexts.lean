import AlertLedger.Proofs.JsonNumbers
import AlertLedger.Proofs.ShortestDecimals

namespace AlertLedger

section Digits

variable {n k : Nat}

theorem toDigits_mul_pow (h : 0 < n ∨ k = 0) :
    Nat.toDigits 10 (n * 10 ^ k) = Nat.toDigits 10 n ++ List.replicate k '0' := by
  induction k with
  | zero => simp
  | succ k ih =>
    have positive : 0 < n := h.resolve_right (by simp)
    have last : n * 10 ^ (k + 1) = 10 * (n * 10 ^ k) + 0 := by ring
    have zero : Nat.toDigits 10 0 = ['0'] := rfl
    rw [last, ← Nat.toDigits_append_toDigits (by decide) (by positivity) (by decide),
      ih (.inl positive), zero, List.append_assoc, ← List.replicate_succ']

theorem ofDigitChars_toDigits_append_zeros (n k : Nat) :
    Nat.ofDigitChars 10 (Nat.toDigits 10 n ++ List.replicate k '0') 0 = n * 10 ^ k := by
  rw [Nat.ofDigitChars_append, Nat.ofDigitChars_toDigits (by decide) (by decide),
    Nat.ofDigitChars_replicate_zero, Nat.mul_comm]

theorem isDigit_replicate_zero : ∀ c ∈ List.replicate k '0', c.isDigit = true := by
  intro c hc
  rw [(List.mem_replicate.mp hc).2]
  rfl

end Digits

namespace Decimal

variable {d : Decimal} {n j k : Nat}

theorem length_digitChars_le (positive : 0 < k) : d.digitChars.length ≤ k ↔ d.digits < 10 ^ k :=
  Nat.length_toDigits_le_iff (by decide) positive

theorem digits_lt (d : Decimal) : d.digits < 10 ^ d.digitChars.length :=
  (length_digitChars_le Nat.length_toDigits_pos).mp le_rfl

/-- The digits of a decimal are counted from its value. -/
theorem length_digitChars_add (low : 10 ^ n ≤ d.digits * 10 ^ j)
    (high : d.digits * 10 ^ j ≤ 10 ^ (n + 1)) :
    n + 1 ≤ d.digitChars.length + j ∧ d.digitChars.length + j ≤ n + 2 := by
  have positive : 0 < d.digits := by
    refine Nat.pos_of_ne_zero fun zero => ?_
    rw [zero, Nat.zero_mul] at low
    exact absurd low (Nat.not_le.mpr (by positivity))
  constructor
  · have room : 10 ^ n < 10 ^ (d.digitChars.length + j) := by
      rw [Nat.pow_add]
      exact low.trans_lt (Nat.mul_lt_mul_of_pos_right d.digits_lt (by positivity))
    exact (Nat.pow_lt_pow_iff_right (by decide)).mp room
  · have power : 10 ^ j ≤ 10 ^ (n + 1) := (Nat.le_mul_of_pos_left _ positive).trans high
    have le : j ≤ n + 1 := (Nat.pow_le_pow_iff_right (by decide)).mp power
    have few : d.digitChars.length ≤ n + 2 - j := by
      rw [length_digitChars_le (by omega)]
      refine Nat.lt_of_mul_lt_mul_right (a := 10 ^ j) (high.trans_lt ?_)
      rw [← Nat.pow_add]
      exact Nat.pow_lt_pow_right (by decide) (by omega)
    omega

end Decimal

namespace Magnitude

variable {x : Magnitude} (tie : Tie)

theorem shortest_of_units_eq_zero (zero : x.units = 0) : x.shortest tie = ⟨0, 0⟩ := if_pos zero

/-- The first digit of the shortest decimal stands at the decimal place of the double, or at the
next one. -/
theorem leadingExponent_shortest (positive : 0 < x.units) :
    x.decimalPlace - 1 ≤ (x.shortest tie).leadingExponent ∧
      (x.shortest tie).leadingExponent ≤ x.decimalPlace := by
  obtain ⟨n, j, _, _, low, high, exponent⟩ := shortest_spec tie positive
  have := Decimal.length_digitChars_add low high
  unfold Decimal.leadingExponent
  omega

theorem digits_shortest_pos (positive : 0 < x.units) : 0 < (x.shortest tie).digits := by
  obtain ⟨n, j, _, _, low, _, _⟩ := shortest_spec tie positive
  refine Nat.pos_of_ne_zero fun zero => ?_
  rw [zero, Nat.zero_mul] at low
  exact absurd low (Nat.not_le.mpr (by positivity))

theorem digits_shortest_pos_or (x : Magnitude) :
    0 < (x.shortest tie).digits ∨ (x.shortest tie).exponent = 0 := by
  obtain zero | positive := Nat.eq_zero_or_pos x.units
  · rw [shortest_of_units_eq_zero tie zero]
    exact .inr rfl
  · exact .inl (digits_shortest_pos tie positive)

theorem digits_shortest_le (x : Magnitude) : (x.shortest tie).digits ≤ 10 ^ 17 := by
  obtain zero | positive := Nat.eq_zero_or_pos x.units
  · rw [shortest_of_units_eq_zero tie zero]
    exact Nat.zero_le _
  · obtain ⟨n, j, few, _, _, high, _⟩ := shortest_spec tie positive
    refine (Nat.le_mul_of_pos_right _ (by positivity)).trans (high.trans ?_)
    exact Nat.pow_le_pow_right (by decide) few

end Magnitude

namespace Json

/-- The number that digits spell. -/
def digitsValue (ds : List Nat) : Nat := ds.foldl (fun n d => n * 10 + d) 0

namespace NumberText

/-- The exponent after the mark, with its sign. -/
def signedExponent (n : NumberText) : Int :=
  match n.exponent with
  | none => 0
  | some (down, ds) => if down then -(digitsValue ds : Int) else digitsValue ds

/-- A text with a point or an exponent that spells this decimal, in digits that a reader gathers
whole. -/
structure Spells (n : NumberText) (d : Decimal) : Prop where
  digits : digitsValue (n.whole ++ n.fraction) = d.digits
  fits : d.digits < Nat.pow 2 64
  scale : n.signedExponent - n.fraction.length = d.exponent
  modest : ∀ e ∈ n.exponent, digitsValue e.2 < 1000
  marked : n.fraction ≠ [] ∨ n.exponent ≠ none

end NumberText

/-- The double that digits and an exponent are read as. -/
def readDecimal (d : Decimal) : Option Magnitude :=
  (Magnitude.ofNat? d.digits).bind fun x => scaleByTen x d.exponent

section Reading

variable {n : NumberText} {d : Decimal} {ds es : List Nat} {negative : Bool} {r : Bytes}

theorem gather_lt {n : Nat} (h : n < Nat.pow 2 64) (ds : List Nat) :
    (gather n ds).1 < Nat.pow 2 64 := by
  induction ds generalizing n with
  | nil => exact h
  | cons d ds ih =>
    rw [gather]
    split
    next fits => exact ih fits
    next => exact h

theorem gatherExponent_eq_foldl {e : Nat}
    (h : ds.foldl (fun n d => n * 10 + d) e < Nat.pow 2 31) :
    gatherExponent e ds = .ok (ds.foldl (fun n d => n * 10 + d) e) := by
  induction ds generalizing e with
  | nil => rfl
  | cons d ds ih =>
    rw [List.foldl_cons] at h ⊢
    rw [gatherExponent, if_pos (Nat.lt_of_le_of_lt (le_foldl_digits ds _) h), ih h]

/-- Digits that fit are read as the decimal that they spell, with the rounding of its digits and of
one scaling. -/
theorem NumberText.Spells.value (h : n.Spells d) : n.value negative r =
    match readDecimal d with
    | some x => .ok (.real (.finite negative x))
    | none => .error (.behind .numberOutOfRange r) := by
  obtain ⟨digits, fits, scale, modest, marked⟩ := h
  rw [digitsValue, List.foldl_append] at digits
  have all : gather (digitsValue n.whole) n.fraction = (d.digits, 0) := by
    rw [gather_eq_foldl (by rw [digitsValue, digits]; exact fits), digitsValue, digits]
  have whole : gather 0 n.whole = (digitsValue n.whole, 0) := by
    refine gather_eq_foldl (Nat.lt_of_le_of_lt ?_ fits)
    rw [← digits]
    exact le_foldl_digits _ _
  have real : (n.fraction.isEmpty && n.exponent.isNone) = false := by
    cases hf : n.fraction <;> cases he : n.exponent <;> simp_all
  have read (e : Int) (he : e = d.exponent) :
      (Magnitude.ofNat? d.digits).bind (fun x => scaleByTen x e) = readDecimal d := by
    rw [he, readDecimal]
  -- under names of their own the roundings are not computed when the cases are compared
  obtain ⟨result, hr⟩ : ∃ q, q = readDecimal d := ⟨_, rfl⟩
  obtain ⟨nearest, hn⟩ : ∃ f, f = Magnitude.ofNat? := ⟨_, rfl⟩
  obtain ⟨scaled, hs⟩ : ∃ f, f = scaleByTen := ⟨_, rfl⟩
  unfold NumberText.value
  unfold signedExponent at scale
  rw [← hr, ← hn, ← hs] at read
  rw [← hr, ← hn, ← hs]
  simp only [whole, all, real, Bool.false_and, Bool.false_eq_true, if_false]
  cases he : n.exponent with
  | none =>
    rw [he] at scale
    have point : ((0 : Nat) : Int) - (n.fraction.length - 0 : Nat) = d.exponent := by
      rw [← scale]
      rfl
    cases result <;> simp only [read _ point]
  | some e =>
    obtain ⟨down, ds⟩ := e
    have small : digitsValue ds < 1000 := modest (down, ds) he
    have gathered : gatherExponent 0 ds = .ok (digitsValue ds) :=
      gatherExponent_eq_foldl (Nat.lt_trans small (by decide))
    rw [he] at scale
    have point : (if down then ((0 : Nat) : Int) - (n.fraction.length - 0 : Nat) - digitsValue ds
        else ((0 : Nat) : Int) - (n.fraction.length - 0 : Nat) + digitsValue ds) = d.exponent := by
      rw [← scale]
      cases down <;> simp <;> omega
    cases result <;> simp only [gathered, read _ point]

end Reading

section Writing

variable {w f : List Char} {e : Option (Bool × Nat)} {d : Decimal} {x : Magnitude}

def fractionChars : List Char → List Char
  | [] => []
  | c :: cs => '.' :: c :: cs

theorem fractionChars_eq (h : f ≠ []) : fractionChars f = '.' :: f := by
  obtain ⟨c, cs, rfl⟩ := List.exists_cons_of_ne_nil h
  rfl

def exponentChars : Option (Bool × Nat) → List Char
  | none => []
  | some (down, k) => 'e' :: (if down then '-' else '+') :: Nat.toDigits 10 k

theorem isFraction_encode (digit : ∀ c ∈ f, c.isDigit = true) :
    IsFraction (Utf8.encode (fractionChars f)) (digitsOf (Utf8.encode f)) := by
  cases f with
  | nil => exact .none
  | cons c cs =>
    have digits := areDigits_encode digit
    have point : Utf8.encodeChar '.' = [0x2e] := by decide
    rw [fractionChars, Utf8.encode_cons, point, List.singleton_append]
    rw [encode_digits digit] at digits ⊢
    exact .digits (digits _ (by simp)) fun b hb => digits b (by simp [hb])

theorem isExponent_encode (e : Option (Bool × Nat)) :
    IsExponent (Utf8.encode (exponentChars e))
      (e.map fun e => (e.1, digitsOf (Utf8.encode (Nat.toDigits 10 e.2)))) := by
  cases e with
  | none => exact .none
  | some e =>
    obtain ⟨down, k⟩ := e
    have digits := areDigits_encode (isDigit_toDigits (n := k))
    have mark : Utf8.encodeChar 'e' = [0x65] := by decide
    have sign : ∃ s, Utf8.encodeChar (if down then '-' else '+') = s ∧ IsSign s down := by
      cases down
      · exact ⟨[0x2b], by decide, .plus⟩
      · exact ⟨[0x2d], by decide, .minus⟩
    obtain ⟨s, hs, signed⟩ := sign
    obtain ⟨c, cs, hc⟩ := List.exists_cons_of_ne_nil (Nat.toDigits_ne_nil (n := k) (b := 10))
    rw [exponentChars, Utf8.encode_cons, Utf8.encode_cons, mark, hs, Option.map_some]
    dsimp only
    rw [encode_digits isDigit_toDigits, hc] at digits ⊢
    exact .digits (.inl rfl) signed (digits _ (by simp)) fun b hb => digits b (by simp [hb])

theorem digitsOf_append (s t : Bytes) : digitsOf (s ++ t) = digitsOf s ++ digitsOf t :=
  List.map_append

theorem digitsValue_encode (digit : ∀ c ∈ f, c.isDigit = true) :
    digitsValue (digitsOf (Utf8.encode f)) = Nat.ofDigitChars 10 f 0 :=
  foldl_digitsOf digit 0

theorem digitsValue_toDigits (n : Nat) :
    digitsValue (digitsOf (Utf8.encode (Nat.toDigits 10 n))) = n :=
  foldl_digitsOf_toDigits n

/-- The parts of a number spell a decimal. -/
theorem exists_spells (whole : IsWhole (Utf8.encode w)) (digit : ∀ c ∈ w ++ f, c.isDigit = true)
    (digits : Nat.ofDigitChars 10 (w ++ f) 0 = d.digits) (fits : d.digits < Nat.pow 2 64)
    (scale : (e.elim 0 fun e => if e.1 then -(e.2 : Int) else e.2) - f.length = d.exponent)
    (modest : ∀ k ∈ e, k.2 < 1000) (marked : f ≠ [] ∨ e ≠ none) :
    ∃ n, IsUnsigned (Utf8.encode (w ++ (fractionChars f ++ exponentChars e))) n ∧ n.Spells d := by
  have fraction : ∀ c ∈ f, c.isDigit = true := fun c hc => digit c (List.mem_append_right w hc)
  have length : (digitsOf (Utf8.encode f)).length = f.length := by
    rw [encode_digits fraction]
    simp [digitsOf]
  have form := IsUnsigned.parts whole (isFraction_encode fraction) (isExponent_encode e)
  rw [← Utf8.encode_append, ← Utf8.encode_append] at form
  refine ⟨_, form, ?_, fits, ?_, ?_, ?_⟩
  · rw [← digitsOf_append, ← Utf8.encode_append, digitsValue_encode digit, digits]
  · rw [← scale, length]
    cases e with
    | none => rfl
    | some e =>
      simp only [NumberText.signedExponent, Option.map_some, Option.elim_some, digitsValue_toDigits]
  · intro e' he
    obtain ⟨k, hk, rfl⟩ := Option.map_eq_some_iff.mp he
    rw [digitsValue_toDigits]
    exact modest k hk
  · refine marked.imp (fun some none => some ?_) fun some none =>
      some (Option.map_eq_none_iff.mp none)
    rw [← List.length_eq_zero_iff, ← length, List.length_eq_zero_iff]
    exact none

end Writing

end Json

section Forms

open Json

variable {d : Decimal}

/-- The decimal that stands in JSON text: a whole number gets a point and a zero. -/
def Decimal.pointed (d : Decimal) : Decimal :=
  if jsonNumberStyle.positional d.leadingExponent && decide (0 ≤ d.exponent) then
    ⟨d.digits * 10 ^ (d.exponent.toNat + 1), -1⟩
  else d

theorem digitChars_digit (d : Decimal) : ∀ c ∈ d.digitChars, c.isDigit = true := isDigit_toDigits

theorem ofDigitChars_digitChars (d : Decimal) : Nat.ofDigitChars 10 d.digitChars 0 = d.digits :=
  Nat.ofDigitChars_toDigits (by decide) (by decide)

/-- A decimal without places behind the point is written as its number. -/
theorem Decimal.positionalChars_whole (h : 0 < d.digits ∨ d.exponent = 0)
    (whole : 0 ≤ d.exponent) :
    d.positionalChars = Nat.toDigits 10 (d.digits * 10 ^ d.exponent.toNat) := by
  rw [toDigits_mul_pow (h.imp_right fun zero => by rw [zero]; rfl)]
  unfold positionalChars
  dsimp only
  rw [if_pos whole]
  rfl

theorem Decimal.number_lt (whole : 0 ≤ d.exponent) {k : Nat} (leading : d.leadingExponent < k) :
    d.digits * 10 ^ d.exponent.toNat < 10 ^ k := by
  calc d.digits * 10 ^ d.exponent.toNat
      < 10 ^ d.digitChars.length * 10 ^ d.exponent.toNat :=
        Nat.mul_lt_mul_of_pos_right d.digits_lt (by positivity)
    _ = 10 ^ (d.digitChars.length + d.exponent.toNat) := (Nat.pow_add ..).symm
    _ ≤ 10 ^ k := by
        unfold leadingExponent at leading
        exact Nat.pow_le_pow_right (by decide) (by omega)

/-- A whole number without an exponent. -/
theorem exists_spells_whole (positive : 0 < d.digits ∨ d.exponent = 0) (whole : 0 ≤ d.exponent)
    (leading : d.leadingExponent ≤ 15) :
    ∃ n, IsUnsigned (Utf8.encode (d.positionalChars ++ ['.', '0'])) n ∧
      n.Spells ⟨d.digits * 10 ^ (d.exponent.toNat + 1), -1⟩ := by
  have room := Decimal.number_lt whole (k := 16) (by omega)
  rw [Decimal.positionalChars_whole positive whole, Nat.pow_succ, ← Nat.mul_assoc]
  generalize d.digits * 10 ^ d.exponent.toNat = m at room ⊢
  refine exists_spells (f := ['0']) (e := none) (isWhole_toDigits m) ?_
    (ofDigitChars_toDigits_append_zeros m 1) ?_ rfl (by simp) (.inl (by simp))
  · intro c hc
    obtain hc | hc := List.mem_append.mp hc
    · exact isDigit_toDigits c hc
    · rw [List.mem_singleton.mp hc]
      rfl
  · have fits : 10 ^ 17 < Nat.pow 2 64 := by decide
    show m * 10 < _
    omega

/-- The places of a decimal before its point and those behind it. -/
structure Decimal.Splits (d : Decimal) (w f : List Char) : Prop where
  text : d.positionalChars = w ++ fractionChars f
  whole : IsWhole (Utf8.encode w)
  digit : ∀ c ∈ w ++ f, c.isDigit = true
  digits : Nat.ofDigitChars 10 (w ++ f) 0 = d.digits
  places : (f.length : Int) = -d.exponent

/-- A point among the digits. -/
theorem Decimal.exists_splits_within (positive : 0 < d.digits) (below : d.exponent < 0)
    (within : 0 ≤ d.leadingExponent) : ∃ w f, d.Splits w f := by
  unfold leadingExponent at within
  obtain ⟨places, hplaces⟩ : ∃ places, places = (-d.exponent).toNat := ⟨_, rfl⟩
  obtain ⟨k, hk⟩ : ∃ k, d.digitChars.length = k + 1 + places :=
    ⟨d.digitChars.length - places - 1, by omega⟩
  refine ⟨d.digitChars.take (k + 1), d.digitChars.drop (k + 1), ?_, ?_, ?_, ?_, ?_⟩
  · have rest : d.digitChars.drop (k + 1) ≠ [] := by
      rw [ne_eq, List.drop_eq_nil_iff]
      omega
    rw [fractionChars_eq rest, positionalChars, if_neg (by omega), ← hplaces, if_pos (by omega),
      hk, Nat.add_sub_cancel]
  · obtain ⟨c, cs, hc, nonzero⟩ := exists_toDigits_cons positive
    have first : d.digitChars = c :: cs := hc
    have digit := digitChars_digit d
    rw [first] at digit ⊢
    rw [List.take_succ_cons]
    refine isWhole_encode_cons (fun c' hc' => digit c' ?_) nonzero
    exact List.mem_of_mem_take (i := k + 1) (by rwa [List.take_succ_cons])
  · rw [List.take_append_drop]
    exact digitChars_digit d
  · rw [List.take_append_drop, ofDigitChars_digitChars]
  · rw [List.length_drop, hk, Nat.add_sub_cancel_left]
    omega

/-- A point in front of the digits. -/
theorem Decimal.exists_splits_below (below : d.exponent < 0) (within : d.leadingExponent < 0) :
    ∃ w f, d.Splits w f := by
  unfold leadingExponent at within
  obtain ⟨k, hk⟩ : ∃ k, (-d.exponent).toNat = d.digitChars.length + k :=
    ⟨(-d.exponent).toNat - d.digitChars.length, by omega⟩
  have zeros : ['0'] ++ (List.replicate k '0' ++ d.digitChars) =
      List.replicate (k + 1) '0' ++ d.digitChars := by
    rw [← List.append_assoc, List.singleton_append, List.replicate_succ]
  refine ⟨['0'], List.replicate k '0' ++ d.digitChars, ?_, .zero, ?_, ?_, ?_⟩
  · have rest : List.replicate k '0' ++ d.digitChars ≠ [] :=
      List.append_ne_nil_of_right_ne_nil _ Nat.toDigits_ne_nil
    rw [fractionChars_eq rest, positionalChars, if_neg (by omega), if_neg (by omega), hk,
      Nat.add_sub_cancel_left]
    rfl
  · rw [zeros]
    intro c hc
    exact (List.mem_append.mp hc).elim (isDigit_replicate_zero c) (digitChars_digit d c)
  · rw [zeros, Nat.ofDigitChars_append, Nat.ofDigitChars_replicate_zero, Nat.mul_zero,
      ofDigitChars_digitChars]
  · rw [List.length_append, List.length_replicate]
    omega

theorem Decimal.exists_splits (positive : 0 < d.digits) (below : d.exponent < 0) :
    ∃ w f, d.Splits w f := by
  by_cases within : 0 ≤ d.leadingExponent
  · exact exists_splits_within positive below within
  · exact exists_splits_below below (by omega)

theorem exists_spells_point (positive : 0 < d.digits) (below : d.exponent < 0)
    (fits : d.digits < Nat.pow 2 64) :
    ∃ n, IsUnsigned (Utf8.encode d.positionalChars) n ∧ n.Spells d := by
  obtain ⟨w, f, text, whole, digit, digits, places⟩ := Decimal.exists_splits positive below
  have some : f ≠ [] := by
    rintro rfl
    simp at places
    omega
  have scale : 0 - (f.length : Int) = d.exponent := by omega
  have spells := exists_spells (e := none) whole digit digits fits scale (by simp) (.inl some)
  rwa [text, ← List.append_nil (fractionChars f)]

theorem exists_spells_scientific (positive : 0 < d.digits) (fits : d.digits < Nat.pow 2 64)
    (modest : d.leadingExponent.natAbs < 1000) :
    ∃ n, IsUnsigned (Utf8.encode d.scientificChars) n ∧ n.Spells d := by
  obtain ⟨c, cs, hc, nonzero⟩ := exists_toDigits_cons positive
  have first : d.digitChars = c :: cs := hc
  have text : d.scientificChars = [c] ++ (fractionChars cs ++
      exponentChars (some (decide (d.leadingExponent < 0), d.leadingExponent.natAbs))) := by
    rw [Decimal.scientificChars, first]
    cases cs <;> simp [fractionChars, exponentChars]
  have digit := digitChars_digit d
  have value := ofDigitChars_digitChars d
  have leading : d.leadingExponent = d.digitChars.length - 1 + d.exponent := rfl
  rw [first] at digit value leading
  rw [text]
  refine exists_spells ?_ digit value fits ?_ ?_ (.inr (by simp))
  · exact isWhole_encode_cons (fun c' hc' => digit c' (by simp_all)) nonzero
  · simp only [Option.elim_some, decide_eq_true_eq, List.length_cons] at leading ⊢
    split <;> omega
  · simpa using modest

end Forms

namespace Json

variable {x : Magnitude}

/-- The decimal in the JSON text of a double. -/
def writtenDecimal (x : Magnitude) : Decimal := (x.shortest jsonNumberStyle.tie).pointed

/-- The text of a finite double is a number, which spells the shortest decimal. -/
theorem exists_spells_magnitudeChars (x : Magnitude) :
    ∃ n, IsUnsigned (Utf8.encode (jsonNumberStyle.magnitudeChars x)) n ∧
      n.Spells (writtenDecimal x) := by
  have positional (e : Int) : jsonNumberStyle.positional e = true ↔ -5 ≤ e ∧ e ≤ 15 := by
    simp [jsonNumberStyle]
  have pointZero (e : Int) : jsonNumberStyle.pointZero e = true := rfl
  have fits : (x.shortest jsonNumberStyle.tie).digits < Nat.pow 2 64 :=
    (Magnitude.digits_shortest_le _ x).trans_lt (by decide)
  unfold writtenDecimal Decimal.pointed NumberStyle.magnitudeChars
  dsimp only
  obtain zero | positive := Nat.eq_zero_or_pos x.units
  · rw [Magnitude.shortest_of_units_eq_zero _ zero]
    exact exists_spells_whole (.inr rfl) le_rfl (by decide)
  · have leading := Magnitude.leadingExponent_shortest jsonNumberStyle.tie positive
    have place := (Magnitude.decimalPlace_spec positive).2.2
    have some := Magnitude.digits_shortest_pos jsonNumberStyle.tie positive
    generalize x.shortest jsonNumberStyle.tie = d at *
    by_cases plain : jsonNumberStyle.positional d.leadingExponent = true
    · simp only [plain, if_true, Bool.true_and, pointZero, Bool.and_true, decide_eq_true_eq]
      by_cases whole : 0 ≤ d.exponent
      · rw [if_pos whole, if_pos whole]
        exact exists_spells_whole (.inl some) whole ((positional _).mp plain).2
      · rw [if_neg whole, if_neg whole, List.append_nil]
        exact exists_spells_point some (by omega) fits
    · rw [if_neg plain, if_neg (by simp [plain])]
      exact exists_spells_scientific some fits (by omega)

theorem encode_realChars (s : Bool) (x : Magnitude) :
    Utf8.encode (realChars (.finite s x)) =
      (if s then [0x2d] else []) ++ Utf8.encode (jsonNumberStyle.magnitudeChars x) := by
  rw [realChars, NumberStyle.chars, Utf8.encode_append, encode_sign]

end Json

end AlertLedger
