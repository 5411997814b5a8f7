import AlertLedger.Proofs.NumberTexts

namespace AlertLedger

namespace Decimal

variable {d : Decimal}

theorem nearest?_of_exponent {k : Nat} (h : d.exponent = k) :
    d.nearest? = Magnitude.ofNat? (d.digits * 10 ^ k) := by
  rw [nearest?, h, Int.toNat_natCast, Int.toNat_neg_natCast, Nat.pow_zero, Magnitude.ofNat?]

theorem value_whole (whole : 0 ≤ d.exponent) :
    d.value = (d.digits * 10 ^ d.exponent.toNat : Nat) := by
  have no_places : (-d.exponent).toNat = 0 := by omega
  rw [value_eq_div, no_places, Nat.pow_zero, Nat.cast_one, div_one]

end Decimal

namespace Magnitude

variable {x : Magnitude} {n : Nat}

/-- Even whole numbers of 54 bits are doubles as well. -/
theorem exists_units_eq_mul_of_even (even : n % 2 = 0) (small : n < 2 ^ 54) :
    ∃ x : Magnitude, x.units = n * unitsPerOne := by
  by_cases few : n < 2 ^ 53
  · exact exists_units_eq_mul few
  obtain ⟨m, rfl⟩ : ∃ m, n = m * 2 := ⟨n / 2, by omega⟩
  have room : 1075 * 2 ^ 52 + m < 2047 * Nat.pow 2 52 := by
    rw [Nat.pow_eq]
    omega
  refine ⟨⟨_, room⟩, ?_⟩
  rw [units_eq rfl (by omega) (.inr (by omega)), Nat.mul_assoc, ← two_pow_eq_unitsPerOne rfl,
    Nat.mul_comm 2, ← Nat.pow_succ]

/-- A whole number is rounded to a whole number: either all its bits are kept, or the last bit that
is kept stands before the point. -/
theorem exists_whole_of_ofNat? (h : ofNat? n = some x) : ∃ m, x.units = m * unitsPerOne := by
  by_cases small : n < 2 ^ 53
  · obtain ⟨y, hy, whole⟩ := exists_ofNat?_eq small
    rw [h] at hy
    cases hy
    exact ⟨n, whole⟩
  obtain ⟨k, leads⟩ := exists_leads Nat.one_pos n
  have large : 2 ^ 53 * unitsPerOne < 2 ^ 53 * 2 ^ k := by
    calc 2 ^ 53 * unitsPerOne ≤ n * unitsPerOne := Nat.mul_le_mul_right _ (by omega)
      _ < 2 ^ (k + 53) * 1 := leads.1
      _ = 2 ^ 53 * 2 ^ k := by ring
  obtain ⟨point, hp⟩ : ∃ point, point = 1074 := ⟨_, rfl⟩
  rw [← two_pow_eq_unitsPerOne hp] at large ⊢
  have bits : point < k :=
    (Nat.pow_lt_pow_iff_right (by decide)).mp (Nat.lt_of_mul_lt_mul_left large)
  obtain ⟨j, rfl⟩ := Nat.exists_eq_add_of_le bits.le
  refine ⟨roundHalfEven (n * unitsPerOne) (1 * 2 ^ (point + j)) * 2 ^ j, ?_⟩
  rw [units_nearest? Nat.one_pos leads h, Nat.mul_assoc _ (2 ^ j), ← Nat.pow_add,
    Nat.add_comm j]

theorem value_eq_natCast_iff : x.value = n ↔ x.units = n * unitsPerOne := by
  have nonzero : (unitsPerOne : ℚ) ≠ 0 := by exact_mod_cast unitsPerOne_pos.ne'
  rw [value, div_eq_iff nonzero]
  exact_mod_cast Iff.rfl

section Shortest

variable {tie : Tie}

section Whole

variable (whole : x.units = n * unitsPerOne)
include whole

/-- A whole double lies on the grid of the whole numbers. -/
theorem onGrid?_whole : x.onGrid? tie 0 = some ⟨n, 0⟩ := by
  have here : x.readsBack ⟨n, 0⟩ = true :=
    readsBack_iff.mpr (captures_of_eq (by positivity) (by simp [whole]))
  have steps : n * unitsPerOne / unitsPerOne = n := Nat.mul_div_cancel n unitsPerOne_pos
  unfold onGrid?
  simp only [whole, neg_zero, Int.toNat_zero, Nat.pow_eq, pow_zero, mul_one, steps,
    Nat.mul_mod_left, mul_zero, unitsPerOne_pos, if_true, here]
  cases x.readsBack ⟨n + 1, 0⟩ <;> rfl

/-- A coarser grid has even whole numbers only. Below `2 ^ 54` these are doubles, so that none but
the double itself reads back as it. -/
theorem number_of_onGrid? {k : Nat} {d : Decimal} (h : x.onGrid? tie k = some d)
    (small : d.digits * 10 ^ k < 2 ^ 54) : d.digits * 10 ^ k = n := by
  cases k with
  | zero =>
    rw [Int.natCast_zero, onGrid?_whole whole] at h
    cases h
    exact Nat.mul_one n
  | succ k =>
    have even : d.digits * 10 ^ (k + 1) % 2 = 0 := by
      rw [Nat.pow_succ, ← Nat.mul_assoc]
      omega
    obtain ⟨y, hy⟩ := exists_units_eq_mul_of_even even small
    have rounded : ofNat? (d.digits * 10 ^ (k + 1)) = some y :=
      nearest?_of_eq Nat.one_pos (by rw [hy, Nat.mul_one])
    obtain ⟨reads, grid, _⟩ := onGrid?_eq_some h
    have read := nearest?_of_readsBack reads
    rw [Decimal.nearest?_of_exponent grid, rounded] at read
    cases read
    exact Nat.eq_of_mul_eq_mul_right unitsPerOne_pos (hy.symm.trans whole)

theorem exists_decimalPlace_of_whole (positive : 0 < x.units) {k : Nat} (small : n < 10 ^ k) :
    ∃ q < k, x.decimalPlace = (q + 1 : Nat) := by
  obtain ⟨low, high, _⟩ := decimalPlace_spec positive
  rw [value_eq_natCast_iff.mpr whole] at low high
  have lower : (10 : ℚ) ^ (0 : Int) < 10 ^ x.decimalPlace := by
    have one : 1 ≤ n := Nat.pos_of_ne_zero fun zero => by simp [whole, zero] at positive
    refine lt_of_le_of_lt ?_ high
    exact_mod_cast one
  have upper : (10 : ℚ) ^ (x.decimalPlace - 1) < 10 ^ (k : Int) := by
    rw [zpow_natCast]
    exact low.trans_lt (by exact_mod_cast small)
  rw [zpow_lt_zpow_iff_right₀ (by norm_num)] at lower upper
  exact ⟨(x.decimalPlace - 1).toNat, by omega, by omega⟩

/-- The shortest decimal of a whole double below `10 ^ 16` is that whole number. -/
theorem number_shortest_of_whole (tie : Tie) (small : n < 10 ^ 16) : ∃ k : Nat,
    (x.shortest tie).exponent = k ∧ (x.shortest tie).digits * 10 ^ k = n := by
  obtain zero | positive := Nat.eq_zero_or_pos x.units
  · have nothing : n = 0 := by
      rw [whole] at zero
      exact (Nat.mul_eq_zero.mp zero).resolve_right unitsPerOne_pos.ne'
    rw [shortest_of_units_eq_zero tie zero, nothing]
    exact ⟨0, rfl, rfl⟩
  obtain ⟨q, few, place⟩ := exists_decimalPlace_of_whole whole positive small
  obtain ⟨m, _, d, h, coarser, same⟩ := exists_shortest tie positive
  have early : m ≤ q := by
    refine not_lt.mp fun later => ?_
    have none := coarser q later
    rw [place, ← Nat.cast_succ, sub_self, onGrid?_whole whole] at none
    cases none
  obtain ⟨k, rfl⟩ := Nat.exists_eq_add_of_le early
  have digits := (digits_of_onGrid? tie positive h).2
  have grid : x.decimalPlace - (m + 1) = k := by omega
  rw [grid] at h
  have number : d.digits * 10 ^ k = n := by
    refine number_of_onGrid? whole h ?_
    calc d.digits * 10 ^ k ≤ 10 ^ (m + 1) * 10 ^ k := Nat.mul_le_mul_right _ digits
      _ = 10 ^ (m + 1 + k) := (Nat.pow_add ..).symm
      _ ≤ 10 ^ 16 := Nat.pow_le_pow_right (by decide) (by omega)
      _ < 2 ^ 54 := by decide
  obtain ⟨j, _, moved, exponent⟩ := Decimal.exists_dropZeros 17 d
  rw [← same] at moved exponent
  rw [(onGrid?_eq_some h).2.1, ← Nat.cast_add] at exponent
  refine ⟨k + j, exponent, ?_⟩
  rw [Nat.add_comm, Nat.pow_add, ← Nat.mul_assoc, ← moved, number]

theorem leadingExponent_shortest_of_whole (small : n < 10 ^ 16) :
    (x.shortest tie).leadingExponent < 16 := by
  obtain ⟨k, exponent, number⟩ := number_shortest_of_whole whole tie small
  have digits := (digits_shortest_pos_or tie x).imp_right fun zero =>
    Int.natCast_eq_zero.mp (exponent.symm.trans zero)
  have few := (Nat.length_toDigits_le_iff (by decide) (by decide)).mpr small
  rw [← number, toDigits_mul_pow digits, List.length_append, List.length_replicate] at few
  rw [Decimal.leadingExponent, Decimal.digitChars]
  omega

end Whole

/-- Where the shortest decimal is a whole number of up to sixteen digits, so is the double. -/
theorem exists_whole_of_shortest (whole : 0 ≤ (x.shortest tie).exponent)
    (leading : (x.shortest tie).leadingExponent < 16) : ∃ n < 10 ^ 16, x.value = (n : Nat) := by
  obtain zero | positive := Nat.eq_zero_or_pos x.units
  · exact ⟨0, by decide, value_eq_natCast_iff.mpr (by rw [zero, Nat.zero_mul])⟩
  obtain ⟨k, hk⟩ := Int.eq_ofNat_of_zero_le whole
  have read := nearest?_shortest tie x
  rw [Decimal.nearest?_of_exponent hk] at read
  obtain ⟨n, hn⟩ := exists_whole_of_ofNat? read
  rw [← value_eq_natCast_iff] at hn
  refine ⟨n, ?_, hn⟩
  have place := (leadingExponent_shortest tie positive).1
  have below : (n : ℚ) < 10 ^ 16 := by
    calc (n : ℚ) = x.value := hn.symm
      _ < 10 ^ x.decimalPlace := (decimalPlace_spec positive).2.1
      _ ≤ 10 ^ ((16 : Nat) : Int) := zpow_le_zpow_right₀ (by norm_num) (by omega)
      _ = 10 ^ 16 := zpow_natCast 10 16
  exact_mod_cast below

theorem shortest_whole_iff (tie : Tie) :
    0 ≤ (x.shortest tie).exponent ∧ (x.shortest tie).leadingExponent < 16 ↔
      ∃ n < 10 ^ 16, x.value = (n : Nat) := by
  constructor
  · rintro ⟨whole, leading⟩
    exact exists_whole_of_shortest whole leading
  · rintro ⟨n, small, whole⟩
    rw [value_eq_natCast_iff] at whole
    obtain ⟨k, exponent, _⟩ := number_shortest_of_whole whole tie small
    exact ⟨exponent ▸ Int.natCast_nonneg k, leadingExponent_shortest_of_whole whole small⟩

end Shortest

end Magnitude

end AlertLedger
