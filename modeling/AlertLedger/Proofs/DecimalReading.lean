import AlertLedger.Proofs.NumberTexts

namespace AlertLedger

/-- The largest relative error of one rounding. -/
def roundoff : ℚ := 1 / 2 ^ 53

/-- `v` is `w` up to a relative and an absolute error. -/
def Near (relative absolute v w : ℚ) : Prop :=
  w * (1 - relative) - absolute ≤ v ∧ v ≤ w * (1 + relative) + absolute

namespace Near

variable {r r' r'' c c' s p d v w : ℚ}

theorem mul (hs : Near r 0 s d) (hp : Near r' 0 p w) (hd : 0 ≤ d) (hw : 0 ≤ w) (hr : 0 ≤ r)
    (hr' : 0 ≤ r') (small : r' ≤ 1) (hs' : 0 ≤ s) (hp' : 0 ≤ p)
    (room : (1 + r) * (1 + r') ≤ 1 + r'') : Near r'' 0 (s * p) (d * w) := by
  obtain ⟨lows, highs⟩ := hs
  obtain ⟨lowp, highp⟩ := hp
  rw [sub_zero] at lows lowp
  rw [add_zero] at highs highp
  have scale : 0 ≤ d * w := mul_nonneg hd hw
  constructor
  · calc d * w * (1 - r'') - 0 ≤ d * w * ((1 - r) * (1 - r')) := by
          rw [sub_zero]
          refine mul_le_mul_of_nonneg_left ?_ scale
          nlinarith [mul_nonneg hr hr']
      _ = d * (1 - r) * (w * (1 - r')) := by ring
      _ ≤ s * p := mul_le_mul lows lowp (mul_nonneg hw (sub_nonneg.mpr small)) hs'
  · calc s * p ≤ d * (1 + r) * (w * (1 + r')) :=
          mul_le_mul highs highp hp' (mul_nonneg hd (by linarith))
      _ = d * w * ((1 + r) * (1 + r')) := by ring
      _ ≤ d * w * (1 + r'') + 0 := by
          rw [add_zero]
          exact mul_le_mul_of_nonneg_left room scale

end Near

namespace Magnitude

variable {x y z : Magnitude} {num den : Nat} {r r' c : ℚ}

theorem units_mul_units (x y : Magnitude) :
    (((x.units * y.units : Nat) : ℚ) / (unitsPerOne * unitsPerOne : Nat)) = x.value * y.value := by
  unfold value
  rw [Nat.cast_mul, Nat.cast_mul, div_mul_div_comm]

/-- The largest finite double. -/
def largest : Magnitude := ⟨2047 * Nat.pow 2 52 - 1, by decide⟩

theorem exists_ofNat? {n k : Nat} (h : n ≤ Nat.pow 10 k) (few : k ≤ 308) :
    ∃ x : Magnitude, ofNat? n = some x := by
  have top : ∀ k ≤ 308, Nat.pow 10 k * unitsPerOne ≤ largest.units * 1 := by decide +kernel
  obtain ⟨x, hx, _⟩ := exists_nearest? Nat.one_pos ((Nat.mul_le_mul_right _ h).trans (top k few))
  exact ⟨x, hx⟩

theorem leastPositive_le_roundoff : leastPositive ≤ roundoff := by
  have many : 2 ^ 53 ≤ unitsPerOne := by decide +kernel
  have many' : (2 ^ 53 : ℚ) ≤ unitsPerOne := by exact_mod_cast many
  exact div_le_div_of_nonneg_left zero_le_one (by positivity) many'

theorem max_error_le {w : ℚ} (large : 1 ≤ w) :
    max (leastPositive / 2) (w / 2 ^ 53) ≤ w * roundoff := by
  have bit := leastPositive_pos
  have fine := leastPositive_le_roundoff
  refine max_le ?_ (by rw [roundoff, mul_one_div])
  have := mul_le_mul_of_nonneg_right large (bit.le.trans fine)
  linarith

/-- Whole numbers are far above the smallest doubles: their error is relative. -/
theorem near_ofNat? {n : Nat} (h : ofNat? n = some x) : Near roundoff 0 x.value n := by
  obtain rfl | positive := Nat.eq_zero_or_pos n
  · obtain ⟨y, hy, exact⟩ := exists_ofNat?_eq (n := 0) (by decide)
    rw [hy] at h
    cases h
    have zero : x.value = 0 := by rw [value, exact, Nat.zero_mul, Nat.cast_zero, zero_div]
    simp [Near, zero]
  · have error := nearest?_error Nat.one_pos h
    rw [Nat.cast_one, div_one] at error
    have many : (1 : ℚ) ≤ n := by exact_mod_cast positive
    obtain ⟨below, above⟩ := abs_le.mp (error.trans (max_error_le many))
    constructor <;> linarith

end Magnitude

namespace Decimal

variable {d : Decimal} {x : Magnitude}

theorem value_of_nonneg (h : 0 ≤ d.exponent) : d.value = d.digits * 10 ^ d.exponent.natAbs := by
  rw [value, ← zpow_natCast, Int.natAbs_of_nonneg h]

end Decimal

namespace Json

open Magnitude

variable {x y z : Magnitude} {e : Nat}

section Powers

theorem ofNat?_powerOfTen (h : e ≤ 308) :
    Magnitude.ofNat? (Nat.pow 10 e) = some (powerOfTen e) := by
  obtain ⟨x, hx⟩ := exists_ofNat? (Nat.le_refl _) h
  rw [powerOfTen, hx, Option.getD_some]

theorem near_powerOfTen (h : e ≤ 308) : Near roundoff 0 (powerOfTen e).value (10 ^ e) := by
  have near := near_ofNat? (ofNat?_powerOfTen h)
  rwa [Nat.pow_eq, Nat.cast_pow] at near

/-- The powers of five up to the twenty-second fit into a significand. -/
theorem units_powerOfTen (h : e ≤ 22) : (powerOfTen e).units = 10 ^ e * unitsPerOne := by
  have exact : ∀ e < 23, (powerOfTen e).units = Nat.pow 10 e * unitsPerOne := by decide +kernel
  exact exact e (by omega)

theorem unitsPerOne_le_powerOfTen (h : e ≤ 308) : unitsPerOne ≤ (powerOfTen e).units := by
  by_cases small : e ≤ 22
  · rw [units_powerOfTen small]
    exact Nat.le_mul_of_pos_left _ (by positivity)
  · have low := (near_powerOfTen h).1
    have ten : (10 : ℚ) ^ 1 ≤ 10 ^ e := pow_le_pow_right₀ (by norm_num) (by omega)
    have one : 1 ≤ (powerOfTen e).value := by
      norm_num [roundoff] at low ten ⊢
      linarith
    rw [value, le_div_iff₀ (Nat.cast_pos.mpr unitsPerOne_pos), one_mul] at one
    exact_mod_cast one

/-- Dividing by a power of ten cannot fail. -/
theorem over?_powerOfTen (h : e ≤ 308) (x : Magnitude) :
    ∃ z, x.over? (powerOfTen e) = some z ∧ z.val ≤ x.val := by
  have least := unitsPerOne_le_powerOfTen h
  exact exists_nearest? (Nat.lt_of_lt_of_le unitsPerOne_pos least) (Nat.mul_le_mul_left _ least)

theorem overPowerOfTen_of_le (h : e ≤ 308) (x : Magnitude) :
    x.over? (powerOfTen e) = some (overPowerOfTen x e) := by
  obtain ⟨z, hz, _⟩ := over?_powerOfTen h x
  rw [overPowerOfTen, if_pos h, hz, Option.getD_some]

/-- Far below, the division is made in two steps or more. -/
theorem exists_overPowerOfTen (h : 308 < e) (nonzero : x ≠ .zero) :
    ∃ z, x.over? (powerOfTen 308) = some z ∧ overPowerOfTen x e = overPowerOfTen z (e - 308) := by
  obtain ⟨z, hz, _⟩ := over?_powerOfTen le_rfl x
  refine ⟨z, hz, ?_⟩
  rw [overPowerOfTen, if_neg (by omega), if_neg nonzero, hz, Option.getD_some]

end Powers

section Scaling

variable {k c w : ℚ} {n : Nat}

/-- The product with a power of ten, before it is rounded. -/
theorem near_mul_powerOfTen (near : Near roundoff 0 x.value n) (h : e ≤ 308) :
    Near (21 / 10 * roundoff) 0 (x.value * (powerOfTen e).value) (n * 10 ^ e) := by
  have unit : (0 : ℚ) ≤ roundoff ∧ roundoff ≤ 1 := by norm_num [roundoff]
  exact near.mul (near_powerOfTen h) (by positivity) (by positivity) unit.1 unit.1 unit.2
    x.value_nonneg (value_nonneg _) (by norm_num [roundoff])

end Scaling

section Decimals

variable {d : Decimal}

theorem exists_times? (h : x.value * y.value ≤ z.value) : ∃ w, x.times? y = some w := by
  have positive := unitsPerOne_pos
  have square : 0 < unitsPerOne * unitsPerOne := Nat.mul_pos positive positive
  rw [← units_mul_units, value, div_le_div_iff₀ (Nat.cast_pos.mpr square)
    (Nat.cast_pos.mpr positive)] at h
  obtain ⟨w, hw, _⟩ := exists_nearest? (x := z) square (by exact_mod_cast h)
  exact ⟨w, hw⟩

theorem fits_exists_ofNat? (fits : d.digits < Nat.pow 2 64) :
    ∃ x, Magnitude.ofNat? d.digits = some x :=
  exists_ofNat? (k := 20) (fits.le.trans (by decide)) (by decide)

theorem readDecimal_of_ofNat? (hx : Magnitude.ofNat? d.digits = some x) :
    readDecimal d = scaleByTen x d.exponent := by
  rw [readDecimal, hx, Option.bind_some]

theorem exists_readDecimal (fits : d.digits < Nat.pow 2 64) (room : 0 ≤ d.exponent →
    d.exponent ≤ 308 ∧ d.value * (1 + 21 / 10 * roundoff) ≤ largest.value) :
    ∃ y, readDecimal d = some y := by
  obtain ⟨x, hx⟩ := fits_exists_ofNat? fits
  rw [readDecimal_of_ofNat? hx, scaleByTen]
  split
  next => exact ⟨_, rfl⟩
  next above =>
    obtain ⟨high, room⟩ := room (by omega)
    rw [if_pos high]
    apply exists_times?
    refine le_trans ?_ room
    have product := near_mul_powerOfTen (near_ofNat? hx) (e := d.exponent.natAbs) (by omega)
    rw [Decimal.value_of_nonneg (by omega)]
    simpa using product.2

end Decimals

section Written

end Written

end Json

end AlertLedger
