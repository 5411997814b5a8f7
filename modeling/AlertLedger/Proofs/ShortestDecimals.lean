import AlertLedger.Proofs.NearestDouble

namespace AlertLedger

namespace Magnitude

variable {x : Magnitude} {num den num' den' : Nat}

theorem roundHalfEven_mul {c : Nat} (positive : 0 < c) (num den : Nat) :
    roundHalfEven (num * c) (den * c) = roundHalfEven num den := by
  unfold roundHalfEven
  rw [Nat.mul_div_mul_right _ _ positive, Nat.mul_mod_mul_right, ← Nat.mul_assoc]
  simp only [Nat.mul_lt_mul_right positive]

theorem nearest?_mul {c : Nat} (positive : 0 < c) (num den : Nat) :
    nearest? (num * c) (den * c) = nearest? num den := by
  have code : nearestCode (num * c) (den * c) = nearestCode num den := by
    unfold nearestCode
    dsimp only
    rw [Nat.mul_right_comm num c, Nat.mul_div_mul_right _ _ positive, Nat.mul_right_comm den c,
      roundHalfEven_mul positive]
  unfold nearest?
  simp only [code]

/-- What a quotient is rounded to depends on its value alone. -/
theorem nearest?_congr (positive : 0 < den) (positive' : 0 < den')
    (h : (num / den : ℚ) = num' / den') : nearest? num den = nearest? num' den' := by
  have cross : num * den' = num' * den := by
    rw [div_eq_div_iff (by positivity) (by positivity)] at h
    exact_mod_cast h
  rw [← nearest?_mul positive' num den, ← nearest?_mul positive num' den', cross,
    Nat.mul_comm den den']

end Magnitude

namespace Decimal

variable {d d' : Decimal}

/-- The number that a decimal is. -/
def value (d : Decimal) : ℚ := d.digits * 10 ^ d.exponent

/-- The double that is nearest to a decimal. -/
def nearest? (d : Decimal) : Option Magnitude :=
  Magnitude.nearest? (d.digits * 10 ^ d.exponent.toNat) (10 ^ (-d.exponent).toNat)

theorem zpow_eq_div (e : Int) : (10 : ℚ) ^ e = 10 ^ e.toNat / 10 ^ (-e).toNat := by
  rw [← zpow_natCast, ← zpow_natCast, ← zpow_sub₀ (by norm_num)]
  congr 1
  omega

theorem value_eq_div (d : Decimal) :
    d.value =
      ((d.digits * 10 ^ d.exponent.toNat : Nat) : ℚ) / (10 ^ (-d.exponent).toNat : Nat) := by
  rw [value, zpow_eq_div]
  push_cast
  ring

theorem nearest?_congr (h : d.value = d'.value) : d.nearest? = d'.nearest? := by
  rw [value_eq_div, value_eq_div] at h
  exact Magnitude.nearest?_congr (by positivity) (by positivity) h

/-- Final zeros are moved from the digits to the exponent. -/
theorem exists_dropZeros (steps : Nat) (d : Decimal) :
    ∃ j ≤ steps, d.digits = (d.dropZeros steps).digits * 10 ^ j ∧
      (d.dropZeros steps).exponent = d.exponent + j := by
  induction steps generalizing d with
  | zero => exact ⟨0, by simp [dropZeros]⟩
  | succ steps ih =>
    unfold dropZeros
    split
    next zero =>
      obtain ⟨j, le, digits, exponent⟩ := ih ⟨d.digits / 10, d.exponent + 1⟩
      refine ⟨j + 1, by omega, ?_, ?_⟩
      · rw [Nat.pow_succ, ← Nat.mul_assoc, ← digits,
          Nat.div_mul_cancel (Nat.dvd_of_mod_eq_zero zero)]
      · rw [exponent]
        push_cast
        ring
    next => exact ⟨0, by simp⟩

/-- A decimal with digits enough for the steps keeps no final zero. -/
theorem digits_dropZeros_mod {steps : Nat} (positive : 0 < d.digits)
    (few : d.digits < 10 ^ (steps + 1)) : (d.dropZeros steps).digits % 10 ≠ 0 := by
  induction steps generalizing d with
  | zero =>
    rw [dropZeros]
    omega
  | succ steps ih =>
    unfold dropZeros
    split
    next zero =>
      refine ih (d := ⟨d.digits / 10, d.exponent + 1⟩) ?_ ?_
      · exact Nat.div_pos (by omega) (by decide)
      · rw [Nat.pow_succ] at few
        exact Nat.div_lt_of_lt_mul (by omega)
    next last => exact last

theorem value_dropZeros (steps : Nat) (d : Decimal) : (d.dropZeros steps).value = d.value := by
  obtain ⟨j, _, digits, exponent⟩ := exists_dropZeros steps d
  unfold value
  rw [exponent, digits, zpow_add₀ (by norm_num), zpow_natCast]
  push_cast
  ring

end Decimal

namespace Magnitude

variable {x : Magnitude}

section Place

/-- The search stops at the first number that satisfies the test. -/
theorem firstFrom_spec {p : Nat → Bool} {steps start k : Nat} (low : start ≤ k)
    (high : k < start + steps) (h : p k = true) :
    firstFrom p steps start ≤ k ∧ p (firstFrom p steps start) = true ∧
      ∀ i, start ≤ i → i < firstFrom p steps start → p i = false := by
  induction steps generalizing start with
  | zero => omega
  | succ steps ih =>
    unfold firstFrom
    split
    next here => exact ⟨low, here, fun i _ _ => by omega⟩
    next later =>
      have next : start + 1 ≤ k := by
        refine Nat.succ_le_of_lt (lt_of_le_of_ne low ?_)
        rintro rfl
        exact later h
      obtain ⟨below, found, first⟩ := ih next (by omega)
      refine ⟨below, found, fun i hi lt => ?_⟩
      obtain rfl | further := Nat.eq_or_lt_of_le hi
      · simpa using later
      · exact first i further lt

theorem units_lt_mul {k : Nat} (h : x.shift ≤ k) : x.units < 2 ^ 53 * Nat.pow 2 k :=
  calc x.units < 2 ^ 53 * Nat.pow 2 x.shift :=
        Nat.mul_lt_mul_of_pos_right x.significand_lt (Nat.two_pow_pos _)
    _ ≤ 2 ^ 53 * Nat.pow 2 k := Nat.mul_le_mul_left _ (Nat.pow_le_pow_right (by decide) h)

theorem exists_units_lt (x : Magnitude) : ∃ k < 310, x.units < Nat.pow 10 k * unitsPerOne :=
  ⟨309, by decide, (units_lt_mul x.shift_le).trans_le (by decide +kernel)⟩

theorem exists_le_units (positive : 0 < x.units) :
    ∃ k < 325, unitsPerOne ≤ x.units * Nat.pow 10 k := by
  have small : ∃ k < 325, unitsPerOne ≤ Nat.pow 10 k := ⟨324, by decide, by decide +kernel⟩
  obtain ⟨k, lt, h⟩ := small
  exact ⟨k, lt, h.trans (Nat.le_mul_of_pos_left _ positive)⟩

/-- The decimal place is that of the first digit. -/
theorem decimalPlace_spec (positive : 0 < x.units) :
    10 ^ (x.decimalPlace - 1) ≤ x.value ∧ x.value < 10 ^ x.decimalPlace ∧
      -323 ≤ x.decimalPlace ∧ x.decimalPlace ≤ 309 := by
  have hu : (0 : ℚ) < unitsPerOne := by exact_mod_cast unitsPerOne_pos
  unfold decimalPlace value
  split
  next large =>
    obtain ⟨k, few, hk⟩ := x.exists_units_lt
    obtain ⟨most, found, first⟩ := firstFrom_spec
      (p := fun k => decide (x.units < Nat.pow 10 k * unitsPerOne)) (Nat.zero_le k)
      (Nat.zero_add 310 ▸ few) (decide_eq_true hk)
    generalize firstFrom _ 310 0 = place at *
    simp only [decide_eq_true_eq, decide_eq_false_iff_not, Nat.pow_eq] at found first
    obtain ⟨j, rfl⟩ : ∃ j, place = j + 1 := by
      refine Nat.exists_eq_succ_of_ne_zero ?_
      rintro rfl
      omega
    have least := not_lt.mp (first j (Nat.zero_le j) (Nat.lt_succ_self j))
    rw [le_div_iff₀ hu, div_lt_iff₀ hu, Nat.cast_succ, add_sub_cancel_right, zpow_natCast,
      ← Nat.cast_succ, zpow_natCast]
    exact ⟨by exact_mod_cast least, by exact_mod_cast found, by omega, by omega⟩
  next small =>
    obtain ⟨k, few, hk⟩ := exists_le_units positive
    obtain ⟨most, found, first⟩ := firstFrom_spec
      (p := fun k => decide (unitsPerOne ≤ x.units * Nat.pow 10 k)) (Nat.zero_le k)
      (Nat.zero_add 325 ▸ few) (decide_eq_true hk)
    generalize firstFrom _ 325 0 = place at *
    simp only [decide_eq_true_eq, decide_eq_false_iff_not, Nat.pow_eq] at found first
    obtain ⟨j, rfl⟩ : ∃ j, place = j + 1 := by
      refine Nat.exists_eq_succ_of_ne_zero ?_
      rintro rfl
      omega
    have least := not_le.mp (first j (Nat.zero_le j) (Nat.lt_succ_self j))
    have lower : (1 : Int) - (j + 1 : Nat) - 1 = -(j + 1 : Nat) := by omega
    have upper : (1 : Int) - (j + 1 : Nat) = -j := by omega
    rw [lower, upper, zpow_neg, zpow_neg, zpow_natCast, zpow_natCast, le_div_iff₀ hu,
      div_lt_iff₀ hu, inv_mul_le_iff₀ (by positivity), lt_inv_mul_iff₀ (by positivity)]
    refine ⟨?_, ?_, by omega, by omega⟩
    · rw [mul_comm]
      exact_mod_cast found
    · rw [mul_comm]
      exact_mod_cast least

end Place

section Grid

variable {tie : Tie} {e : Int} {d : Decimal}

theorem readsBack_iff : x.readsBack d = true ↔
    x.Captures (d.digits * 10 ^ d.exponent.toNat) (10 ^ (-d.exponent).toNat) := by
  have lower (den : Nat) : x.lowerEnd * den =
      4 * (x.units * den) - x.quartersBelow * (den * 2 ^ x.shift) := by
    rw [lowerEnd, quartersBelow, Nat.sub_mul, Nat.pow_eq]
    ring_nf
  have upper (den : Nat) : x.upperEnd * den = 4 * (x.units * den) + 2 * (den * 2 ^ x.shift) := by
    rw [upperEnd, Nat.pow_eq]
    ring
  unfold readsBack Captures
  dsimp only
  simp only [Nat.pow_eq, lower, upper]
  have least : x.significand % 2 = 1 → x.quartersBelow * (10 ^ (-d.exponent).toNat * 2 ^ x.shift) ≤
      4 * (x.units * 10 ^ (-d.exponent).toNat) := by
    intro odd
    rw [units_mul, ← Nat.mul_assoc 4]
    refine Nat.mul_le_mul_right _ ?_
    unfold quartersBelow
    split <;> omega
  split
  next even => simp [even]
  next odd =>
    have := least (by omega)
    simp only [Bool.and_eq_true, decide_eq_true_eq]
    omega

theorem nearest?_of_readsBack (h : x.readsBack d = true) : d.nearest? = some x :=
  (readsBack_iff.mp h).nearest? (by positivity)

/-- The number of steps of `10 ^ e` up to the double. -/
def stepsBelow (x : Magnitude) (e : Int) : Nat :=
  x.units * 10 ^ (-e).toNat / (unitsPerOne * 10 ^ e.toNat)

theorem le_value_iff (n : Nat) : 10 ^ (e + n) ≤ x.value ↔
    unitsPerOne * 10 ^ e.toNat * 10 ^ n ≤ x.units * 10 ^ (-e).toNat := by
  have hu : (0 : ℚ) < unitsPerOne := by exact_mod_cast unitsPerOne_pos
  have power : (10 : ℚ) ^ (e + n) = 10 ^ e.toNat * 10 ^ n / 10 ^ (-e).toNat := by
    rw [zpow_add₀ (by norm_num), Decimal.zpow_eq_div, zpow_natCast]
    ring
  rw [power, value, div_le_div_iff₀ (by positivity) hu, mul_comm _ (unitsPerOne : ℚ), ← mul_assoc]
  exact_mod_cast Iff.rfl

theorem stepsBelow_lt_iff (n : Nat) : x.stepsBelow e < 10 ^ n ↔ x.value < 10 ^ (e + n) := by
  rw [← not_le, ← not_le, le_value_iff, stepsBelow,
    Nat.le_div_iff_mul_le (Nat.mul_pos unitsPerOne_pos (by positivity)), Nat.mul_comm (10 ^ n)]

/-- A decimal of the grid is one of the two around the double. -/
theorem onGrid?_eq_some (h : x.onGrid? tie e = some d) : x.readsBack d = true ∧ d.exponent = e ∧
    (d.digits = x.stepsBelow e ∨ d.digits = x.stepsBelow e + 1) := by
  unfold onGrid? at h
  dsimp only at h
  split at h
  next below above =>
    have either : d = ⟨x.stepsBelow e, e⟩ ∨ d = ⟨x.stepsBelow e + 1, e⟩ := by
      rw [← Option.some.inj h]
      cases tie <;> dsimp only <;> split_ifs <;> first | exact .inl rfl | exact .inr rfl
    obtain rfl | rfl := either
    · exact ⟨below, rfl, .inl rfl⟩
    · exact ⟨above, rfl, .inr rfl⟩
  next below _ =>
    cases h
    exact ⟨below, rfl, .inl rfl⟩
  next _ above =>
    cases h
    exact ⟨above, rfl, .inr rfl⟩
  next => simp at h

theorem isSome_onGrid? (h : x.readsBack ⟨x.stepsBelow e, e⟩ = true ∨
    x.readsBack ⟨x.stepsBelow e + 1, e⟩ = true) : (x.onGrid? tie e).isSome := by
  unfold stepsBelow at h
  simp only [← Nat.pow_eq] at h
  unfold onGrid?
  dsimp only
  split <;> simp_all

/-- Where the grid is finer than the 53 bits of a double, one of its two points around a double
reads back. -/
theorem isSome_onGrid?_of_le (positive : 0 < x.units) (fine : 10 ^ (e + 16) ≤ x.value) :
    (x.onGrid? tie e).isSome := by
  have spacing := (le_value_iff 16).mp fine
  have scale (q : Nat) : q * 10 ^ e.toNat * unitsPerOne = unitsPerOne * 10 ^ e.toNat * q := by ring
  have room : 0 < unitsPerOne * 10 ^ e.toNat := Nat.mul_pos unitsPerOne_pos (by positivity)
  have split := Nat.div_add_mod (x.units * 10 ^ (-e).toNat) (unitsPerOne * 10 ^ e.toNat)
  have part := Nat.mod_lt (x.units * 10 ^ (-e).toNat) room
  have width := x.units_mul (10 ^ (-e).toNat)
  have bits := x.significand_lt
  have positive' : 0 < x.significand := by
    refine Nat.pos_of_ne_zero fun zero => ?_
    simp [units, zero] at positive
  have step : 0 < 10 ^ (-e).toNat * 2 ^ x.shift := by positivity
  apply isSome_onGrid?
  rw [readsBack_iff, readsBack_iff]
  simp only [Captures, scale, Nat.mul_succ]
  change _ * x.stepsBelow e + _ = _ at split
  -- the steps of the grid are shorter than half of the interval below and half of that above
  by_cases narrow : x.narrowBelow = true
  · obtain ⟨smallest, _⟩ := narrowBelow_iff.mp narrow
    rw [smallest] at width
    simp only [quartersBelow, if_pos narrow, smallest]
    omega
  · have most : x.significand * (10 ^ (-e).toNat * 2 ^ x.shift) ≤
        (2 ^ 53 - 1) * (10 ^ (-e).toNat * 2 ^ x.shift) := Nat.mul_le_mul_right _ (by omega)
    simp only [quartersBelow, if_neg narrow]
    omega

end Grid

section Shortest

variable (tie : Tie)

/-- The shortest decimal is of the coarsest grid that has one which reads back. -/
theorem exists_shortest (positive : 0 < x.units) : ∃ n : Nat, n < 17 ∧ ∃ d,
    x.onGrid? tie (x.decimalPlace - (n + 1)) = some d ∧
      (∀ m : Nat, m < n → x.onGrid? tie (x.decimalPlace - (m + 1)) = none) ∧
      x.shortest tie = d.dropZeros 17 := by
  have nonzero : x.units ≠ 0 := by omega
  unfold shortest
  rw [if_neg nonzero]
  dsimp only
  cases found : (List.range 17).findSome? fun (n : Nat) =>
      x.onGrid? tie (x.decimalPlace - (n + 1)) with
  | some d =>
    obtain ⟨coarser, n, finer, split, h, none⟩ := List.findSome?_eq_some_iff.mp found
    rw [List.range_eq_range'] at split
    obtain ⟨k, _, rfl, rest⟩ := List.range'_eq_append_iff.mp split
    obtain ⟨here, left, _⟩ := List.range'_eq_cons_iff.mp rest.symm
    obtain rfl : k = n := by omega
    refine ⟨k, by omega, d, h, fun m hm => none m ?_, rfl⟩
    rwa [← List.range_eq_range', List.mem_range]
  | none =>
    have fine : (10 : ℚ) ^ (x.decimalPlace - ((16 : Nat) + 1) + 16) ≤ x.value := by
      have first := (decimalPlace_spec positive).1
      rwa [show x.decimalPlace - ((16 : Nat) + 1) + 16 = x.decimalPlace - 1 by omega]
    have last := List.findSome?_eq_none_iff.mp found 16 (by decide)
    have here : (x.onGrid? tie _).isSome := isSome_onGrid?_of_le positive fine
    rw [last] at here
    cases here

/-- The shortest decimal reads back. -/
theorem nearest?_shortest (x : Magnitude) : (x.shortest tie).nearest? = some x := by
  obtain zero | positive := Nat.eq_zero_or_pos x.units
  · have nothing : x.shortest tie = ⟨0, 0⟩ := if_pos zero
    rw [nothing]
    exact nearest?_of_eq (by decide) (by simp [zero])
  · obtain ⟨n, _, d, h, _, same⟩ := exists_shortest tie positive
    rw [same, Decimal.nearest?_congr (Decimal.value_dropZeros 17 d)]
    exact nearest?_of_readsBack (onGrid?_eq_some h).1

/-- A decimal of the grid has its first digit at the decimal place of the double, or is the power of
ten above it. -/
theorem digits_of_onGrid? {n : Nat} {d : Decimal} (positive : 0 < x.units)
    (h : x.onGrid? tie (x.decimalPlace - (n + 1)) = some d) :
    10 ^ n ≤ d.digits ∧ d.digits ≤ 10 ^ (n + 1) := by
  obtain ⟨_, _, digits⟩ := onGrid?_eq_some h
  obtain ⟨low, high, _⟩ := decimalPlace_spec positive
  have upper : x.stepsBelow (x.decimalPlace - (n + 1)) < 10 ^ (n + 1) := by
    rw [stepsBelow_lt_iff]
    simpa using high
  have lower : 10 ^ n ≤ x.stepsBelow (x.decimalPlace - (n + 1)) := by
    refine not_lt.mp fun small => ?_
    rw [stepsBelow_lt_iff, show x.decimalPlace - (n + 1) + n = x.decimalPlace - 1 by omega] at small
    exact not_lt.mpr low small
  omega

/-- It has up to seventeen digits, the first of them at the decimal place of the double or, where it
is rounded up to a power of ten, at the next. -/
theorem shortest_spec (positive : 0 < x.units) : ∃ n j : Nat, n < 17 ∧ j ≤ 17 ∧
    10 ^ n ≤ (x.shortest tie).digits * 10 ^ j ∧ (x.shortest tie).digits * 10 ^ j ≤ 10 ^ (n + 1) ∧
      (x.shortest tie).exponent = x.decimalPlace - (n + 1) + j := by
  obtain ⟨n, few, d, h, _, same⟩ := exists_shortest tie positive
  have digits := digits_of_onGrid? tie positive h
  obtain ⟨j, le, moved, exponent⟩ := Decimal.exists_dropZeros 17 d
  rw [← same] at moved exponent
  rw [moved] at digits
  rw [(onGrid?_eq_some h).2.1] at exponent
  exact ⟨n, j, few, le, digits.1, digits.2, exponent⟩

/-- Its last digit is not zero. -/
theorem digits_shortest_mod (positive : 0 < x.units) : (x.shortest tie).digits % 10 ≠ 0 := by
  obtain ⟨n, few, d, h, _, same⟩ := exists_shortest tie positive
  obtain ⟨low, high⟩ := digits_of_onGrid? tie positive h
  rw [same]
  refine Decimal.digits_dropZeros_mod ((Nat.pow_pos (by decide)).trans_le low) ?_
  exact high.trans_lt (Nat.pow_lt_pow_right (by decide) (by omega))

end Shortest

end Magnitude

end AlertLedger
