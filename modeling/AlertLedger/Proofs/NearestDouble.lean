import AlertLedger.ShortestDecimal
import AlertLedger.Rounding
import Mathlib

namespace AlertLedger

theorem unitsPerOne_pos : 0 < unitsPerOne := by decide +kernel

theorem two_pow_eq_unitsPerOne {k : Nat} (h : k = 1074) : 2 ^ k = unitsPerOne := by
  unfold unitsPerOne
  rw [← h]
  exact Nat.pow_eq.symm

section RoundHalfEven

variable {num den r : Nat}

/-- The nearest whole number is the one whose half-open surroundings the quotient lies in; an end
belongs to an even number. -/
theorem roundHalfEven_eq (positive : 0 < den)
    (low : 2 * (r * den) ≤ 2 * num + den) (high : 2 * num ≤ 2 * (r * den) + den)
    (ends : r % 2 = 1 → 2 * (r * den) ≠ 2 * num + den ∧ 2 * num ≠ 2 * (r * den) + den) :
    roundHalfEven num den = r := by
  have split := Nat.div_add_mod num den
  have part := Nat.mod_lt num positive
  obtain below | rfl | above : r < num / den ∨ r = num / den ∨ num / den + 1 ≤ r := by omega
  · have step : r * den + den ≤ den * (num / den) := by
      rw [← Nat.succ_mul, Nat.mul_comm den]
      exact Nat.mul_le_mul_right den below
    omega
  · rw [Nat.mul_comm] at low high ends
    unfold roundHalfEven
    grind
  · have step : den * (num / den) + den ≤ r * den := by
      rw [Nat.mul_comm den, ← Nat.succ_mul]
      exact Nat.mul_le_mul_right den above
    have next : r = num / den + 1 := by
      by_contra further
      have twice : r * den ≥ den * (num / den) + den + den := by
        calc r * den ≥ (num / den + 2) * den := Nat.mul_le_mul_right den (by omega)
          _ = den * (num / den) + den + den := by ring
      omega
    have value : r * den = den * (num / den) + den := by rw [next]; ring
    unfold roundHalfEven
    grind

theorem roundHalfEven_near (positive : 0 < den) (num : Nat) :
    2 * (roundHalfEven num den * den) ≤ 2 * num + den ∧
      2 * num ≤ 2 * (roundHalfEven num den * den) + den := by
  have split := Nat.div_add_mod num den
  have part := Nat.mod_lt num positive
  have up : (num / den + 1) * den = den * (num / den) + den := by ring
  have down : num / den * den = den * (num / den) := Nat.mul_comm ..
  unfold roundHalfEven
  grind

/-- No multiple of the denominator is nearer. -/
theorem roundHalfEven_nearest (positive : 0 < den) (num m : Nat) :
    ((roundHalfEven num den * den : Nat) - (num : Nat) : ℤ).natAbs ≤
      ((m * den : Nat) - (num : Nat) : ℤ).natAbs := by
  obtain ⟨low, high⟩ := roundHalfEven_near positive num
  generalize roundHalfEven num den = r at low high ⊢
  obtain below | rfl | above := Nat.lt_trichotomy m r
  · have step : m * den + den ≤ r * den := by
      rw [← Nat.succ_mul]
      exact Nat.mul_le_mul_right den below
    omega
  · exact le_rfl
  · have step : r * den + den ≤ m * den := by
      rw [← Nat.succ_mul]
      exact Nat.mul_le_mul_right den above
    omega

theorem roundHalfEven_nearest_of_le (positive : 0 < den) {m p : Nat} (below : p ≤ m * den)
    (le : m * den ≤ num) : ((roundHalfEven num den * den : Nat) - (num : Nat) : ℤ).natAbs ≤
      ((p : Nat) - (num : Nat) : ℤ).natAbs := by
  have nearer := roundHalfEven_nearest positive num m
  omega

theorem roundHalfEven_le (positive : 0 < den) (h : num ≤ r * den) : roundHalfEven num den ≤ r := by
  have near := (roundHalfEven_near positive num).1
  by_contra above
  have step : r * den + den ≤ roundHalfEven num den * den := by
    rw [← Nat.succ_mul]
    exact Nat.mul_le_mul_right den (by omega)
  omega

theorem le_roundHalfEven (positive : 0 < den) (h : r * den ≤ num) : r ≤ roundHalfEven num den := by
  have near := (roundHalfEven_near positive num).2
  by_contra below
  have step : roundHalfEven num den * den + den ≤ r * den := by
    rw [← Nat.succ_mul]
    exact Nat.mul_le_mul_right den (by omega)
  omega

end RoundHalfEven

namespace Magnitude

variable {x y : Magnitude} {num den k m n : Nat}

theorem significand_lt (x : Magnitude) : x.significand < 2 ^ 53 := by
  have := Nat.mod_lt x.val (Nat.two_pow_pos 52)
  unfold significand fraction
  split <;> simp only [Nat.pow_eq] at * <;> omega

theorem normal (x : Magnitude) : x.shift = 0 ∨ 2 ^ 52 ≤ x.significand := by
  unfold shift significand
  split
  next subnormal => exact .inl (by omega)
  next => exact .inr (Nat.le_add_right ..)

theorem val_eq (x : Magnitude) : x.val = x.shift * 2 ^ 52 + x.significand := by
  have split : 2 ^ 52 * x.exponent + x.fraction = x.val := Nat.div_add_mod x.val (2 ^ 52)
  unfold shift significand
  split <;> simp only [Nat.pow_eq] at * <;> omega

theorem shift_le (x : Magnitude) : x.shift ≤ 2045 := by
  have := x.isLt
  have := x.val_eq
  have := x.normal
  simp only [Nat.pow_eq] at *
  omega

/-- A significand of 53 bits and a shift give the number of a double, also where the significand has
grown to the next power of two. -/
theorem units_eq (number : x.val = k * 2 ^ 52 + m) (small : m ≤ 2 ^ 53)
    (full : k = 0 ∨ 2 ^ 52 ≤ m) : x.units = m * 2 ^ k := by
  have hx := x.val_eq
  have := x.significand_lt
  have := x.normal
  unfold units
  simp only [Nat.pow_eq] at *
  obtain ⟨same, _⟩ | ⟨carry, _⟩ : x.shift = k ∧ x.significand = m ∨
      x.shift = k + 1 ∧ x.significand = 2 ^ 52 ∧ m = 2 ^ 53 := by omega
  · simp_all
  · simp_all
    ring

section NearestCode

/-- The quotient has its leading bit 52 places above the shift, or no bit falls below. -/
def Leads (num den k : Nat) : Prop :=
  num * unitsPerOne < 2 ^ (k + 53) * den ∧ (k = 0 ∨ 2 ^ (k + 52) * den ≤ num * unitsPerOne)

theorem leads_iff (positive : 0 < den) :
    Leads num den k ↔ droppedBits (num * unitsPerOne / den) = k := by
  unfold Leads droppedBits
  rw [← Nat.div_lt_iff_lt_mul positive, ← Nat.le_div_iff_mul_le positive]
  generalize num * unitsPerOne / den = q
  obtain rfl | nonzero := Nat.eq_zero_or_pos q
  · have := Nat.two_pow_pos (k + 52)
    have := Nat.two_pow_pos (k + 53)
    simp only [Nat.log2_zero]
    omega
  · rw [← Nat.log2_lt (by omega), ← Nat.le_log2 (by omega)]
    omega

theorem nearestCode_eq (positive : 0 < den) (h : Leads num den k) :
    nearestCode num den = k * 2 ^ 52 + roundHalfEven (num * unitsPerOne) (den * 2 ^ k) := by
  simp only [nearestCode, (leads_iff positive).mp h, Nat.pow_eq]

theorem exists_leads (positive : 0 < den) (num : Nat) : ∃ k, Leads num den k :=
  ⟨_, (leads_iff positive).mpr rfl⟩

/-- The rounded significand keeps its 53 bits, or grows to the next power of two. -/
theorem Leads.significand (positive : 0 < den) (h : Leads num den k) :
    roundHalfEven (num * unitsPerOne) (den * 2 ^ k) ≤ 2 ^ 53 ∧
      (k = 0 ∨ 2 ^ 52 ≤ roundHalfEven (num * unitsPerOne) (den * 2 ^ k)) := by
  obtain ⟨upper, lower⟩ := h
  have step : 0 < den * 2 ^ k := Nat.mul_pos positive (Nat.two_pow_pos k)
  constructor
  · refine roundHalfEven_le step (le_of_lt (upper.trans_eq ?_))
    ring
  · refine lower.imp_right fun lower => le_roundHalfEven step (lower.trans_eq' ?_)
    ring

/-- A rounded quotient is a multiple of its last bit. -/
theorem units_nearest? (positive : 0 < den) (leads : Leads num den k)
    (h : nearest? num den = some y) :
    y.units = roundHalfEven (num * unitsPerOne) (den * 2 ^ k) * 2 ^ k := by
  have number : y.val = k * 2 ^ 52 + roundHalfEven (num * unitsPerOne) (den * 2 ^ k) := by
    rw [← nearestCode_eq positive leads]
    unfold nearest? at h
    split at h
    · cases h
      rfl
    · simp at h
  obtain ⟨small, full⟩ := leads.significand positive
  exact units_eq number small full

/-- Rounding moves a quotient by at most half of a step between its neighbours. -/
theorem nearest?_near (positive : 0 < den) (leads : Leads num den k)
    (h : nearest? num den = some y) :
    2 * (y.units * den) ≤ 2 * (num * unitsPerOne) + den * 2 ^ k ∧
      2 * (num * unitsPerOne) ≤ 2 * (y.units * den) + den * 2 ^ k := by
  have near := roundHalfEven_near (Nat.mul_pos positive (Nat.two_pow_pos k)) (num * unitsPerOne)
  have value (m : Nat) : m * (den * 2 ^ k) = m * 2 ^ k * den := by ring
  rwa [value, ← units_nearest? positive leads h] at near

/-- Rounding keeps the order of a quotient and a double above it. -/
theorem nearestCode_le (positive : 0 < den) (h : num * unitsPerOne ≤ x.units * den) :
    nearestCode num den ≤ x.val := by
  obtain ⟨k, leads⟩ := exists_leads positive num
  obtain ⟨small, -⟩ := leads.significand positive
  have step : 0 < den * 2 ^ k := Nat.mul_pos positive (Nat.two_pow_pos k)
  have hx := x.val_eq
  have full := x.normal
  have bits := x.significand_lt
  rw [nearestCode_eq positive leads, hx]
  obtain lower | same | higher : k < x.shift ∨ k = x.shift ∨ x.shift < k := by omega
  · omega
  · have rounded : roundHalfEven (num * unitsPerOne) (den * 2 ^ k) ≤ x.significand := by
      refine roundHalfEven_le step (h.trans_eq ?_)
      rw [units, ← same, Nat.pow_eq]
      ring
    omega
  · exfalso
    have lead := leads.2.resolve_left (by omega)
    have room : x.units * den < 2 ^ (k + 52) * den := by
      refine Nat.mul_lt_mul_of_pos_right ?_ positive
      calc x.units < 2 ^ 53 * 2 ^ x.shift := Nat.mul_lt_mul_of_pos_right bits (Nat.two_pow_pos _)
        _ = 2 ^ (x.shift + 1 + 52) := by ring
        _ ≤ 2 ^ (k + 52) := Nat.pow_le_pow_right (by decide) (by omega)
    omega

theorem exists_nearest? (positive : 0 < den) (h : num * unitsPerOne ≤ x.units * den) :
    ∃ y : Magnitude, nearest? num den = some y ∧ y.val ≤ x.val := by
  have le := nearestCode_le positive h
  have room : nearestCode num den < 2047 * Nat.pow 2 52 := Nat.lt_of_le_of_lt le x.isLt
  exact ⟨⟨_, room⟩, dif_pos room, le⟩

end NearestCode

section Interval

/-- Four times the steps between neighbours that the interval of the reals whose nearest double is
`x` goes down from `x`. -/
def quartersBelow (x : Magnitude) : Nat := if x.narrowBelow then 1 else 2

/-- The quotient lies among the reals whose nearest double is `x`. -/
def Captures (x : Magnitude) (num den : Nat) : Prop :=
  4 * (x.units * den) ≤ 4 * (num * unitsPerOne) + x.quartersBelow * (den * 2 ^ x.shift) ∧
    4 * (num * unitsPerOne) ≤ 4 * (x.units * den) + 2 * (den * 2 ^ x.shift) ∧
    (x.significand % 2 = 1 →
      4 * (x.units * den) ≠ 4 * (num * unitsPerOne) + x.quartersBelow * (den * 2 ^ x.shift) ∧
        4 * (num * unitsPerOne) ≠ 4 * (x.units * den) + 2 * (den * 2 ^ x.shift))

theorem narrowBelow_iff : x.narrowBelow = true ↔ x.significand = 2 ^ 52 ∧ 0 < x.shift := by
  unfold narrowBelow significand shift
  split
  next => simp; omega
  next => simp

theorem nearest?_of_nearestCode (h : nearestCode num den = x.val) : nearest? num den = some x := by
  have room : nearestCode num den < 2047 * Nat.pow 2 52 := h ▸ x.isLt
  rw [nearest?, dif_pos room]
  exact congrArg some (Fin.ext h)

theorem units_mul (x : Magnitude) (den : Nat) :
    x.units * den = x.significand * (den * 2 ^ x.shift) := by
  rw [units, Nat.pow_eq]
  ring

/-- The part of the interval in the binade of `x` itself. -/
theorem nearest?_of_leads (positive : 0 < den) (leads : Leads num den x.shift)
    (h : x.Captures num den) : nearest? num den = some x := by
  apply nearest?_of_nearestCode
  have step : 0 < den * 2 ^ x.shift := Nat.mul_pos positive (Nat.two_pow_pos _)
  obtain ⟨low, high, ends⟩ := h
  rw [units_mul] at low high ends
  have odd : x.significand % 2 = 1 → x.quartersBelow = 2 := by
    intro odd
    have even : ¬ x.narrowBelow := fun narrow => by
      have := (narrowBelow_iff.mp narrow).1
      omega
    exact if_neg even
  have quarters : x.quartersBelow * (den * 2 ^ x.shift) ≤ 2 * (den * 2 ^ x.shift) := by
    refine Nat.mul_le_mul_right _ ?_
    unfold quartersBelow
    split <;> decide
  have rounded : roundHalfEven (num * unitsPerOne) (den * 2 ^ x.shift) = x.significand := by
    refine roundHalfEven_eq step (by omega) (by omega) fun h => ?_
    rw [odd h] at ends
    have := ends h
    omega
  rw [nearestCode_eq positive leads, x.val_eq, rounded]

/-- The part of the interval below the smallest significand, where the steps are half as wide. -/
theorem nearest?_of_below (positive : 0 < den) (h : x.Captures num den)
    (narrow : x.narrowBelow = true) (below : num * unitsPerOne < 2 ^ (x.shift + 52) * den) :
    nearest? num den = some x := by
  obtain ⟨smallest, shifted⟩ := narrowBelow_iff.mp narrow
  obtain ⟨k, hk⟩ : ∃ k, x.shift = k + 1 := ⟨x.shift - 1, by omega⟩
  apply nearest?_of_nearestCode
  have step : 0 < den * 2 ^ k := Nat.mul_pos positive (Nat.two_pow_pos k)
  have low := h.1
  have twice : den * 2 ^ (k + 1) = 2 * (den * 2 ^ k) := by ring
  rw [units_mul, smallest, hk, quartersBelow, if_pos narrow, twice] at low
  have lead : 2 ^ (k + 52) * den = 2 ^ 52 * (den * 2 ^ k) := by ring
  have next : 2 ^ (k + 53) * den = 2 ^ 53 * (den * 2 ^ k) := by ring
  rw [hk, Nat.add_right_comm k 1 52] at below
  have leads : Leads num den k := ⟨below, .inr (by rw [lead]; omega)⟩
  rw [Nat.add_assoc, next] at below
  have rounded : roundHalfEven (num * unitsPerOne) (den * 2 ^ k) = 2 ^ 53 :=
    roundHalfEven_eq step (by omega) (by omega) fun odd => absurd odd (by decide)
  rw [nearestCode_eq positive leads, x.val_eq, hk, smallest, rounded]
  ring

theorem Captures.nearest? (positive : 0 < den) (h : x.Captures num den) :
    nearest? num den = some x := by
  have step : 0 < den * 2 ^ x.shift := Nat.mul_pos positive (Nat.two_pow_pos _)
  have bits := x.significand_lt
  have normal := x.normal
  have lead : 2 ^ (x.shift + 52) * den = 2 ^ 52 * (den * 2 ^ x.shift) := by ring
  have next : 2 ^ (x.shift + 53) * den = 2 ^ 53 * (den * 2 ^ x.shift) := by ring
  have upper : num * unitsPerOne < 2 ^ (x.shift + 53) * den := by
    have high := h.2.1
    have most : x.significand * (den * 2 ^ x.shift) ≤ (2 ^ 53 - 1) * (den * 2 ^ x.shift) :=
      Nat.mul_le_mul_right _ (by omega)
    rw [units_mul] at high
    omega
  by_cases low : x.shift = 0 ∨ 2 ^ (x.shift + 52) * den ≤ num * unitsPerOne
  · exact nearest?_of_leads positive ⟨upper, low⟩ h
  · obtain ⟨shifted, below⟩ := not_or.mp low
    refine nearest?_of_below positive h ?_ (by omega)
    by_contra wide
    have least := h.1
    rw [units_mul, quartersBelow, if_neg wide] at least
    have larger : 2 ^ 52 + 1 ≤ x.significand := by
      have : x.significand ≠ 2 ^ 52 := fun h => wide (narrowBelow_iff.mpr ⟨h, by omega⟩)
      omega
    have more : (2 ^ 52 + 1) * (den * 2 ^ x.shift) ≤ x.significand * (den * 2 ^ x.shift) :=
      Nat.mul_le_mul_right _ larger
    omega

theorem captures_of_eq (positive : 0 < den) (h : num * unitsPerOne = x.units * den) :
    x.Captures num den := by
  refine ⟨by omega, by omega, fun _ => ?_⟩
  have step : 0 < den * 2 ^ x.shift := Nat.mul_pos positive (Nat.two_pow_pos _)
  have quarters : 0 < x.quartersBelow * (den * 2 ^ x.shift) := by
    refine Nat.mul_pos ?_ step
    unfold quartersBelow
    split <;> decide
  omega

/-- A quotient that a double equals is rounded to it. -/
theorem nearest?_of_eq (positive : 0 < den) (h : num * unitsPerOne = x.units * den) :
    nearest? num den = some x :=
  (captures_of_eq positive h).nearest? positive

end Interval

section Whole

/-- Whole numbers of 53 bits are doubles. -/
theorem exists_units_eq_mul (small : n < 2 ^ 53) : ∃ x : Magnitude, x.units = n * unitsPerOne := by
  obtain rfl | positive := Nat.eq_zero_or_pos n
  · exact ⟨.zero, by simp [units, significand, exponent, fraction, zero]⟩
  have bits : n.log2 < 53 := (Nat.log2_lt (by omega)).mpr small
  have upper : n * 2 ^ (52 - n.log2) < 2 ^ 53 := by
    calc n * 2 ^ (52 - n.log2) < 2 ^ (n.log2 + 1) * 2 ^ (52 - n.log2) :=
          Nat.mul_lt_mul_of_pos_right Nat.lt_log2_self (Nat.two_pow_pos _)
      _ = 2 ^ 53 := by rw [← Nat.pow_add]; congr 1; omega
  have lower : 2 ^ 52 ≤ n * 2 ^ (52 - n.log2) := by
    calc 2 ^ 52 = 2 ^ n.log2 * 2 ^ (52 - n.log2) := by rw [← Nat.pow_add]; congr 1; omega
      _ ≤ n * 2 ^ (52 - n.log2) := Nat.mul_le_mul_right _ (Nat.log2_self_le (by omega))
  have room : (1074 - (52 - n.log2)) * 2 ^ 52 + n * 2 ^ (52 - n.log2) < 2047 * Nat.pow 2 52 := by
    rw [Nat.pow_eq]
    omega
  refine ⟨⟨_, room⟩, ?_⟩
  rw [units_eq rfl (le_of_lt upper) (.inr lower), Nat.mul_assoc, ← Nat.pow_add,
    two_pow_eq_unitsPerOne (by omega)]

theorem exists_ofNat?_eq (small : n < 2 ^ 53) :
    ∃ x : Magnitude, ofNat? n = some x ∧ x.units = n * unitsPerOne := by
  obtain ⟨x, hx⟩ := exists_units_eq_mul small
  exact ⟨x, nearest?_of_eq Nat.one_pos (by rw [hx, Nat.mul_one]), hx⟩

end Whole

section Error

/-- The number that a double is. -/
def value (x : Magnitude) : ℚ := x.units / unitsPerOne

/-- The smallest positive double. -/
def leastPositive : ℚ := 1 / unitsPerOne

theorem leastPositive_pos : 0 < leastPositive :=
  div_pos one_pos (Nat.cast_pos.mpr unitsPerOne_pos)

theorem value_nonneg (x : Magnitude) : 0 ≤ x.value := by
  unfold value
  positivity

/-- The distance of a double from a quotient, over their common denominator. -/
theorem abs_value_sub_div (positive : 0 < den) (y : Magnitude) (num : Nat) :
    |y.value - num / den| =
      |((y.units * den : Nat) : ℚ) - (num * unitsPerOne : Nat)| / (den * unitsPerOne : Nat) := by
  have hu : (0 : ℚ) < unitsPerOne := by exact_mod_cast unitsPerOne_pos
  have hd : (0 : ℚ) < den := by exact_mod_cast positive
  have move : y.value - num / den =
      (y.units * den - num * unitsPerOne) / (den * unitsPerOne) := by
    unfold value
    generalize (unitsPerOne : ℚ) = u at hu
    field_simp
  rw [move, abs_div, abs_of_pos (mul_pos hd hu), Nat.cast_mul, Nat.cast_mul, Nat.cast_mul]

/-- Rounding adds at most half of the last bit that is kept. -/
theorem nearest?_error (positive : 0 < den) (h : nearest? num den = some y) :
    |y.value - num / den| ≤ max (leastPositive / 2) (num / den / 2 ^ 53) := by
  obtain ⟨k, leads⟩ := exists_leads positive num
  obtain ⟨low, high⟩ := nearest?_near positive leads h
  have hu : (0 : ℚ) < unitsPerOne := by exact_mod_cast unitsPerOne_pos
  have hd : (0 : ℚ) < den := by exact_mod_cast positive
  have apart : |y.value - num / den| ≤ 2 ^ k * leastPositive / 2 := by
    have near : |((y.units * den : Nat) : ℚ) - (num * unitsPerOne : Nat)| ≤ den * 2 ^ k / 2 := by
      have low' : (2 * (y.units * den : Nat) : ℚ) ≤
          2 * (num * unitsPerOne : Nat) + den * 2 ^ k := by exact_mod_cast low
      have high' : (2 * (num * unitsPerOne : Nat) : ℚ) ≤
          2 * (y.units * den : Nat) + den * 2 ^ k := by exact_mod_cast high
      rw [abs_le]
      constructor <;> linarith
    rw [abs_value_sub_div positive, Nat.cast_mul den, div_le_iff₀ (mul_pos hd hu)]
    refine near.trans_eq ?_
    unfold leastPositive
    generalize (unitsPerOne : ℚ) = u at hu
    field_simp
  obtain ⟨_, rfl | lead⟩ := leads
  · exact le_max_of_le_left (by simpa using apart)
  · refine le_max_of_le_right (apart.trans ?_)
    have lead' : (2 ^ (k + 52) * den : ℚ) ≤ num * unitsPerOne := by exact_mod_cast lead
    unfold leastPositive
    generalize (unitsPerOne : ℚ) = u at hu lead' ⊢
    rw [pow_add] at lead'
    rw [div_div, le_div_iff₀ (by positivity)]
    field_simp
    linarith

theorem natAbs_units_nearest?_le (positive : 0 < den) (h : nearest? num den = some y)
    (z : Magnitude) : ((y.units * den : Nat) - (num * unitsPerOne : Nat) : ℤ).natAbs ≤
      ((z.units * den : Nat) - (num * unitsPerOne : Nat) : ℤ).natAbs := by
  obtain ⟨k, leads⟩ := exists_leads positive num
  have step : 0 < den * 2 ^ k := Nat.mul_pos positive (Nat.two_pow_pos k)
  have rounded : y.units * den =
      roundHalfEven (num * unitsPerOne) (den * 2 ^ k) * (den * 2 ^ k) := by
    rw [units_nearest? positive leads h]
    ring
  rw [rounded]
  by_cases fine : k ≤ z.shift
  · obtain ⟨j, hj⟩ := Nat.exists_eq_add_of_le fine
    have grid : z.units * den = z.significand * 2 ^ j * (den * 2 ^ k) := by
      rw [units_mul, hj]
      ring
    rw [grid]
    exact roundHalfEven_nearest step _ _
  · -- a double of a lower binade lies below the least one of the binade of the quotient
    have lead := leads.2.resolve_left (by omega)
    have least : 2 ^ (k + 52) * den = 2 ^ 52 * (den * 2 ^ k) := by ring
    have below : z.units * den ≤ 2 ^ (k + 52) * den := by
      refine Nat.mul_le_mul_right den ?_
      calc z.units ≤ 2 ^ 53 * 2 ^ z.shift := Nat.mul_le_mul_right _ z.significand_lt.le
        _ = 2 ^ (z.shift + 1 + 52) := by ring
        _ ≤ 2 ^ (k + 52) := Nat.pow_le_pow_right (by decide) (by omega)
    rw [least] at below lead
    exact roundHalfEven_nearest_of_le step below lead

/-- No double is nearer to a quotient than the one that it is rounded to. -/
theorem nearest?_nearest (positive : 0 < den) (h : nearest? num den = some y) (z : Magnitude) :
    |y.value - num / den| ≤ |z.value - num / den| := by
  have nearer := natAbs_units_nearest?_le positive h z
  rw [abs_value_sub_div positive, abs_value_sub_div positive]
  generalize num * unitsPerOne = n at nearer ⊢
  refine div_le_div_of_nonneg_right ?_ (Nat.cast_nonneg _)
  rw [← Int.ofNat_le, Int.natCast_natAbs, Int.natCast_natAbs] at nearer
  exact_mod_cast nearer

end Error

end Magnitude

end AlertLedger
