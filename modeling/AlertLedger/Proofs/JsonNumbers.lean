import AlertLedger.JsonValue
import AlertLedger.Proofs.Utf8Text

namespace AlertLedger.Json

def AreDigits (ds : Bytes) : Prop := ∀ c ∈ ds, isDigit c = true

/-- The digits before the point. -/
inductive IsWhole : Bytes → Prop
  | zero : IsWhole [0x30]
  | digits {d : UInt8} {ds : Bytes} (first : isDigit d = true) (nonzero : d ≠ 0x30)
      (rest : AreDigits ds) : IsWhole (d :: ds)

inductive IsFraction : Bytes → List Nat → Prop
  | none : IsFraction [] []
  | digits {d : UInt8} {ds : Bytes} (first : isDigit d = true) (rest : AreDigits ds) :
      IsFraction (0x2e :: d :: ds) (digitsOf (d :: ds))

inductive IsSign : Bytes → Bool → Prop
  | none : IsSign [] false
  | plus : IsSign [0x2b] false
  | minus : IsSign [0x2d] true

inductive IsExponent : Bytes → Option (Bool × List Nat) → Prop
  | none : IsExponent [] none
  | digits {m d : UInt8} {sign ds : Bytes} {down : Bool} (mark : m = 0x65 ∨ m = 0x45)
      (signed : IsSign sign down) (first : isDigit d = true) (rest : AreDigits ds) :
      IsExponent (m :: (sign ++ d :: ds)) (some (down, digitsOf (d :: ds)))

/-- A number without a minus sign in front, and its parts. -/
inductive IsUnsigned : Bytes → NumberText → Prop
  | parts {w f e : Bytes} {fs : List Nat} {x : Option (Bool × List Nat)} (whole : IsWhole w)
      (fraction : IsFraction f fs) (exponent : IsExponent e x) :
      IsUnsigned (w ++ (f ++ e)) ⟨digitsOf w, fs, x⟩

/-- The form of a number, which its value may be too large for. -/
inductive IsNumber : Bytes → Prop
  | unsigned {u : Bytes} {n : NumberText} (h : IsUnsigned u n) : IsNumber u
  | minus {u : Bytes} {n : NumberText} (h : IsUnsigned u n) : IsNumber (0x2d :: u)

/-- No digit, point or exponent follows. -/
def EndsNumber (r : Bytes) : Prop :=
  ∀ c ∈ r.head?, isDigit c = false ∧ c ≠ 0x2e ∧ c ≠ 0x65 ∧ c ≠ 0x45

section Scanning

variable {s r q ds w f e u : Bytes} {fs : List Nat} {x : Option (Bool × List Nat)}
  {n : NumberText} {atEnd : FaultCause} {c : UInt8}

theorem startsWithDigit_cons : startsWithDigit (c :: r) = isDigit c := rfl

theorem EndsNumber.startsWithDigit_eq (h : EndsNumber r) : startsWithDigit r = false := by
  cases r with
  | nil => rfl
  | cons c r => exact (h c rfl).1

theorem AreDigits.takeWhile (h : AreDigits ds) (stop : startsWithDigit r = false) :
    (ds ++ r).takeWhile isDigit = ds := by
  rw [List.takeWhile_append_of_pos h]
  cases r with
  | nil => simp
  | cons c r => simp [show isDigit c = false from stop]

theorem AreDigits.dropWhile (h : AreDigits ds) (stop : startsWithDigit r = false) :
    (ds ++ r).dropWhile isDigit = r := by
  rw [List.dropWhile_append_of_pos h]
  cases r with
  | nil => rfl
  | cons c r => simp [show isDigit c = false from stop]

theorem areDigits_takeWhile (s : Bytes) : AreDigits (s.takeWhile isDigit) :=
  List.all_eq_true.mp List.all_takeWhile

theorem isDigit_iff : isDigit c = true ↔ 0x30 ≤ c.toNat ∧ c.toNat ≤ 0x39 := by
  simp [isDigit, UInt8.le_iff_toNat_le]

theorem ne_of_isDigit {d : UInt8} (h : isDigit c = true) (hd : isDigit d = false) : c ≠ d := by
  rintro rfl
  simp [h] at hd

theorem IsWhole.scan (h : IsWhole w) (stop : startsWithDigit r = false) :
    scanWhole atEnd (w ++ r) = .ok (digitsOf w, r) := by
  cases h with
  | zero => simp [scanWhole, stop, digitsOf]
  | digits first nonzero rest =>
    simp [scanWhole, first, nonzero, rest.takeWhile stop, rest.dropWhile stop]

theorem exists_isWhole_of_scanWhole {ds : List Nat} (h : scanWhole atEnd s = .ok (ds, r)) :
    ∃ w, IsWhole w ∧ s = w ++ r ∧ ds = digitsOf w := by
  unfold scanWhole at h
  split at h
  · simp at h
  next c t =>
  split at h
  next zero =>
    split at h
    · simp at h
    · cases h
      exact ⟨[0x30], .zero, by simp [zero], rfl⟩
  next nonzero =>
  split at h
  next first =>
    simp only [Except.ok.injEq, Prod.mk.injEq] at h
    obtain ⟨rfl, rfl⟩ := h
    exact ⟨_, .digits first nonzero (areDigits_takeWhile t), by simp, rfl⟩
  next => simp at h

theorem IsFraction.scan (h : IsFraction f fs) (stop : startsWithDigit r = false)
    (point : r.head? ≠ some 0x2e) : scanFraction atEnd (f ++ r) = .ok (fs, r) := by
  cases h with
  | none =>
    cases r with
    | nil => rfl
    | cons c r =>
      have other : c ≠ 0x2e := fun h => point (by rw [h]; rfl)
      simp [scanFraction, other]
  | digits first rest =>
    simp [scanFraction, startsWithDigit, first, rest.takeWhile stop, rest.dropWhile stop]

theorem exists_isFraction_of_scanFraction (h : scanFraction atEnd s = .ok (fs, r)) :
    ∃ f, IsFraction f fs ∧ s = f ++ r := by
  unfold scanFraction at h
  split at h
  · cases h
    exact ⟨[], .none, rfl⟩
  next c t =>
  split at h
  · cases h
    exact ⟨[], .none, rfl⟩
  next point =>
  split at h
  next first =>
    simp only [Except.ok.injEq, Prod.mk.injEq] at h
    obtain ⟨rfl, rfl⟩ := h
    cases t with
    | nil => simp [startsWithDigit] at first
    | cons d t =>
      rw [startsWithDigit_cons] at first
      have run : (d :: t).takeWhile isDigit = d :: t.takeWhile isDigit := by simp [first]
      rw [run]
      exact ⟨_, .digits first (areDigits_takeWhile t), by
        simp only [ne_eq, Decidable.not_not] at point
        simp [point, first]⟩
  next => simp at h

theorem IsSign.scan {sign : Bytes} {down : Bool} {d : UInt8} (h : IsSign sign down)
    (first : isDigit d = true) (r : Bytes) :
    scanSign (sign ++ d :: r) = (down, d :: r) := by
  cases h with
  | none =>
    have minus : d ≠ 0x2d := ne_of_isDigit first (by decide)
    have plus : d ≠ 0x2b := ne_of_isDigit first (by decide)
    simp [scanSign, minus, plus]
  | plus => rfl
  | minus => rfl

theorem exists_isSign (s : Bytes) :
    ∃ sign, IsSign sign (scanSign s).1 ∧ s = sign ++ (scanSign s).2 := by
  unfold scanSign
  split
  · exact ⟨[], .none, rfl⟩
  split
  next h => exact ⟨[0x2d], .minus, by simp [h]⟩
  split
  next h => exact ⟨[0x2b], .plus, by simp [h]⟩
  · exact ⟨[], .none, rfl⟩

theorem IsExponent.scan (h : IsExponent e x) (stop : EndsNumber r) :
    scanExponent atEnd (e ++ r) = .ok (x, r) := by
  cases h with
  | none =>
    cases r with
    | nil => rfl
    | cons c r =>
      obtain ⟨_, _, small, large⟩ := stop c rfl
      simp [scanExponent, small, large]
  | @digits m d sign ds down mark signed first rest =>
    have hs := signed.scan first (ds ++ r)
    have hm := Decidable.or_iff_not_imp_left.mp mark
    simpa [scanExponent, hs, first, rest.takeWhile stop.startsWithDigit_eq,
      rest.dropWhile stop.startsWithDigit_eq] using hm

theorem exists_isExponent_of_scanExponent (h : scanExponent atEnd s = .ok (x, r)) :
    ∃ e, IsExponent e x ∧ s = e ++ r := by
  unfold scanExponent at h
  split at h
  · cases h
    exact ⟨[], .none, rfl⟩
  next c t =>
  split at h
  · cases h
    exact ⟨[], .none, rfl⟩
  next mark =>
  dsimp only at h
  obtain ⟨sign, signed, ht⟩ := exists_isSign t
  split at h
  · simp at h
  next d u hu =>
  split at h
  next first =>
    simp only [Except.ok.injEq, Prod.mk.injEq] at h
    obtain ⟨rfl, rfl⟩ := h
    rw [hu] at ht
    have hm : c = 0x65 ∨ c = 0x45 := Decidable.or_iff_not_imp_left.mpr (by simpa using mark)
    exact ⟨_, .digits hm signed first (areDigits_takeWhile u), by rw [ht]; simp⟩
  next => simp at h

theorem IsExponent.follows (h : IsExponent e x) (stop : EndsNumber r) :
    startsWithDigit (e ++ r) = false ∧ (e ++ r).head? ≠ some 0x2e := by
  cases h with
  | none =>
    refine ⟨stop.startsWithDigit_eq, fun h => ?_⟩
    exact (stop _ h).2.1 rfl
  | digits mark _ _ _ => obtain rfl | rfl := mark <;> exact ⟨rfl, by simp⟩

theorem IsFraction.follows (h : IsFraction f fs) (stop : startsWithDigit r = false) :
    startsWithDigit (f ++ r) = false := by
  cases h with
  | none => exact stop
  | digits _ _ => rfl

theorem IsUnsigned.scan (h : IsUnsigned u n) (stop : EndsNumber r) :
    scanNumber atEnd (u ++ r) = .ok (n, r) := by
  obtain ⟨whole, fraction, exponent⟩ := h
  obtain ⟨digit, point⟩ := exponent.follows stop
  rw [List.append_assoc, List.append_assoc, scanNumber, whole.scan (fraction.follows digit)]
  simp only [fraction.scan digit point, exponent.scan stop]

theorem exists_isUnsigned_of_scanNumber (h : scanNumber atEnd s = .ok (n, r)) :
    ∃ u, IsUnsigned u n ∧ s = u ++ r := by
  unfold scanNumber at h
  split at h
  · simp at h
  next hw =>
  split at h
  · simp at h
  next hf =>
  split at h
  · simp at h
  next he =>
    cases h
    obtain ⟨w, whole, rfl, rfl⟩ := exists_isWhole_of_scanWhole hw
    obtain ⟨f, fraction, rfl⟩ := exists_isFraction_of_scanFraction hf
    obtain ⟨e, exponent, rfl⟩ := exists_isExponent_of_scanExponent he
    exact ⟨_, .parts whole fraction exponent, by simp⟩

/-- Where the text goes on matters to the refusal of a value and not to the value. -/
theorem NumberText.value_eq_ok_of_rest {negative : Bool} {v : JsonNumber}
    (h : n.value negative r = .ok v) (q : Bytes) : n.value negative q = .ok v := by
  -- under a name of its own the rounding is not computed when the cases are compared
  obtain ⟨nearest, hn⟩ : ∃ f, f = Magnitude.ofNat? := ⟨_, rfl⟩
  unfold NumberText.value at h ⊢
  rw [← hn] at h ⊢
  dsimp only at h ⊢
  split at h
  next exact =>
    rw [if_pos exact]
    exact h
  next exact =>
    rw [if_neg exact]
    cases hx : n.exponent with
    | none =>
      rw [hx] at h
      dsimp only at h ⊢
      split at h
      · exact h
      · simp at h
    | some e =>
      rw [hx] at h
      dsimp only at h ⊢
      split at h
      · split at h
        · exact h
        · simp at h
      · split at h
        · simp at h
        next small =>
          rw [if_neg small]
          exact h

/-- A number that has a value has the same wherever it ends. -/
theorem IsUnsigned.readNumber_of_rest {negative : Bool} {v : JsonNumber} (h : IsUnsigned u n)
    (stop : EndsNumber r) (value : readNumber negative (u ++ r) = .ok (v, q)) {r' : Bytes}
    (stop' : EndsNumber r') : readNumber negative (u ++ r') = .ok (v, r') := by
  unfold readNumber at value ⊢
  rw [h.scan stop] at value
  rw [h.scan stop']
  dsimp only at value ⊢
  split at value
  · simp at value
  next hv =>
    cases value
    rw [NumberText.value_eq_ok_of_rest hv]

end Scanning

section Writing

variable {n : Nat}

theorem le_foldl_digits (ds : List Nat) (n : Nat) : n ≤ ds.foldl (fun n d => n * 10 + d) n := by
  induction ds generalizing n with
  | nil => exact Nat.le_refl n
  | cons d ds ih => exact Nat.le_trans (by omega) (ih (n * 10 + d))

/-- Digits whose value is below the limit are all gathered. -/
theorem gather_eq_foldl {ds : List Nat} (h : ds.foldl (fun n d => n * 10 + d) n < Nat.pow 2 64) :
    gather n ds = (ds.foldl (fun n d => n * 10 + d) n, 0) := by
  induction ds generalizing n with
  | nil => rfl
  | cons d ds ih =>
    rw [List.foldl_cons] at h ⊢
    rw [gather, if_pos (Nat.lt_of_le_of_lt (le_foldl_digits ds _) h), ih h]

theorem NumberText.value_whole {ds : List Nat} {negative : Bool}
    (hn : ds.foldl (fun n d => n * 10 + d) 0 = n) (small : n < Nat.pow 2 64)
    (below : negative = true → 0 < n ∧ n ≤ Nat.pow 2 63) (r : Bytes) :
    NumberText.value negative ⟨ds, [], none⟩ r =
      .ok (.integer (if negative then -(n : Int) else n)) := by
  obtain ⟨nearest, hnearest⟩ : ∃ f, f = Magnitude.ofNat? := ⟨_, rfl⟩
  have hg : gather 0 ds = (n, 0) := by rw [gather_eq_foldl (by rwa [hn]), hn]
  unfold NumberText.value
  rw [← hnearest]
  simp only [hg, gather]
  rw [if_pos]
  cases negative with
  | false => simp
  | true => simpa using below rfl

theorem toNat_of_isDigit {c : Char} (h : c.isDigit = true) : 0x30 ≤ c.toNat ∧ c.toNat ≤ 0x39 := by
  simpa [Char.isDigit, UInt32.le_iff_toNat_le] using h

theorem encode_digits {cs : List Char} (h : ∀ c ∈ cs, c.isDigit = true) :
    Utf8.encode cs = cs.map fun c => c.toNat.toUInt8 :=
  Utf8.encode_ascii fun c hc => by
    have := toNat_of_isDigit (h c hc)
    omega

theorem areDigits_encode {cs : List Char} (h : ∀ c ∈ cs, c.isDigit = true) :
    AreDigits (Utf8.encode cs) := by
  rw [encode_digits h]
  intro b hb
  obtain ⟨c, hc, rfl⟩ := List.mem_map.mp hb
  have digit := toNat_of_isDigit (h c hc)
  rw [isDigit_iff, Utf8.toNat_toUInt8 (by omega)]
  exact digit

theorem isDigit_toDigits : ∀ c ∈ Nat.toDigits 10 n, c.isDigit = true :=
  fun _ hc => Nat.isDigit_of_mem_toDigits (by omega) (by omega) hc

theorem foldl_digitsOf {cs : List Char} (h : ∀ c ∈ cs, c.isDigit = true) (m : Nat) :
    (digitsOf (Utf8.encode cs)).foldl (fun n d => n * 10 + d) m = Nat.ofDigitChars 10 cs m := by
  rw [encode_digits h, digitsOf, List.map_map]
  induction cs generalizing m with
  | nil => rfl
  | cons c cs ih =>
    have digit := toNat_of_isDigit (h c (by simp))
    rw [List.map_cons, List.foldl_cons, ih fun d hd => h d (by simp [hd]), Nat.ofDigitChars_cons,
      Function.comp_apply, Utf8.toNat_toUInt8 (by omega), Nat.mul_comm m]
    rfl

theorem foldl_digitsOf_toDigits (n : Nat) :
    (digitsOf (Utf8.encode (Nat.toDigits 10 n))).foldl (fun n d => n * 10 + d) 0 = n := by
  rw [foldl_digitsOf isDigit_toDigits, Nat.ofDigitChars_toDigits (by omega) (by omega)]

/-- No zero stands in front of other digits. -/
theorem exists_toDigits_cons (h : 0 < n) :
    ∃ c cs, Nat.toDigits 10 n = c :: cs ∧ c ≠ '0' := by
  induction n using Nat.strongRecOn with
  | ind n ih =>
    rw [Nat.toDigits_eq_if (by omega)]
    split
    next small =>
      have nonzero : ∀ m < 10, 0 < m → Nat.digitChar m ≠ '0' := by decide
      exact ⟨_, [], rfl, nonzero n small h⟩
    next large =>
      obtain ⟨c, cs, hc, nonzero⟩ := ih (n / 10) (by omega) (by omega)
      exact ⟨c, cs ++ [(n % 10).digitChar], by rw [hc]; rfl, nonzero⟩

theorem isWhole_encode_cons {c : Char} {cs : List Char} (digit : ∀ d ∈ c :: cs, d.isDigit = true)
    (nonzero : c ≠ '0') : IsWhole (Utf8.encode (c :: cs)) := by
  have digits := areDigits_encode digit
  rw [encode_digits digit] at digits ⊢
  refine .digits (digits _ (by simp)) (fun zero => nonzero ?_) fun d hd => digits d (by simp [hd])
  have hz := toNat_of_isDigit (digit c (by simp))
  have value := congrArg UInt8.toNat zero
  rw [Utf8.toNat_toUInt8 (by omega)] at value
  exact Char.toNat_inj.mp value

theorem isWhole_toDigits (n : Nat) : IsWhole (Utf8.encode (Nat.toDigits 10 n)) := by
  obtain rfl | positive := Nat.eq_zero_or_pos n
  · exact .zero
  · obtain ⟨c, cs, hc, nonzero⟩ := exists_toDigits_cons positive
    rw [hc]
    exact isWhole_encode_cons (hc ▸ isDigit_toDigits) nonzero

theorem isUnsigned_toDigits (n : Nat) : IsUnsigned (Utf8.encode (Nat.toDigits 10 n))
    ⟨digitsOf (Utf8.encode (Nat.toDigits 10 n)), [], none⟩ := by
  have form := IsUnsigned.parts (isWhole_toDigits n) .none .none
  rwa [List.append_nil, List.append_nil] at form

theorem encode_sign (s : Bool) :
    Utf8.encode (if s then ['-'] else []) = if s then [0x2d] else [] := by
  cases s <;> decide

theorem encode_intChars (i : Int) : Utf8.encode (intChars i) =
    (if decide (i < 0) then [0x2d] else []) ++ Utf8.encode (Nat.toDigits 10 i.natAbs) := by
  have text : intChars i = (if decide (i < 0) then ['-'] else []) ++ Nat.toDigits 10 i.natAbs := by
    unfold intChars
    split <;> simp_all
  rw [text, Utf8.encode_append, encode_sign]

end Writing

end AlertLedger.Json
