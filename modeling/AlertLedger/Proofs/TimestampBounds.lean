import AlertLedger.Proofs.DecimalReading
import AlertLedger.Proofs.HistoryBlocks
import AlertLedger.Proofs.OutsideStrings

namespace AlertLedger

/-- An integer of 64 bits, or a finite double. -/
def JsonNumber.Bounded : JsonNumber → Prop
  | .integer i => i.natAbs < Nat.pow 2 64
  | .real x => x.isFinite = true

namespace Json

section Values

variable {S : RecordShape α} {P : (f : S.Field) → S.Value f → Prop}

/-- The values in the slots have a property. -/
def SlotsHold (P : (f : S.Field) → S.Value f → Prop) (slots : S.Slots) : Prop :=
  ∀ f, ∀ v ∈ slots f, P f v

theorem SlotsHold.fill {slots : S.Slots} {f : S.Field} {v : S.Value f} (h : SlotsHold P slots)
    (value : P f v) : SlotsHold P (slots.fill f v) := by
  intro g w hw
  by_cases same : g = f
  · subst same
    rw [RecordShape.Slots.fill_self] at hw
    cases hw
    exact value
  · rw [RecordShape.Slots.fill_other same] at hw
    exact h g w hw

variable (read : ∀ (f : S.Field) {s r : Bytes} {v : S.Value f},
  (S.read f).run s = .ok (v, r) → P f v)
include read

theorem slotsHold_readMembers {first : Bool} {slots out : S.Slots} {s r : Bytes}
    (h : readMembers S first slots s = .ok (out, r)) (held : SlotsHold P slots) :
    SlotsHold P out := by
  fun_induction readMembers S first slots s <;> grind [SlotsHold.fill]

theorem slotsHold_readItems {done : Nat} {slots out : S.Slots} {fs : List S.Field} {s r : Bytes}
    (h : readItems S done slots fs s = .ok (out, r)) (held : SlotsHold P slots) :
    SlotsHold P out := by
  induction fs generalizing done slots s with
  | nil =>
    cases h
    exact held
  | cons f fs ih =>
    rw [readItems] at h
    split at h
    · simp at h
    · simp at h
    split at h
    · simp at h
    next hv => exact ih h (held.fill (read f hv))

/-- What the readers of its fields promise holds of every record that is read. -/
theorem exists_values_of_record {s r : Bytes} {a : α} (h : (record S).run s = .ok (a, r)) :
    ∃ v, a = S.build v ∧ ∀ f, P f (v f) := by
  have values {slots : S.Slots} (held : SlotsHold P slots) (full : S.ofSlots slots = .ok a) :
      ∃ v, a = S.build v ∧ ∀ f, P f (v f) := by
    obtain ⟨v, rfl, ha⟩ := RecordShape.ofSlots_eq_ok full
    exact ⟨v, ha, fun f => held f (v f) rfl⟩
  have empty : SlotsHold P S.emptySlots := fun f v hv => by cases hv
  have run : atValue (readRecord S) s = .ok (a, r) := h
  unfold atValue at run
  split at run
  · simp at run
  unfold readRecord at run
  split at run
  · obtain ⟨slots, q, items, full, _⟩ := finishRecord_eq_ok run
    exact values (slotsHold_readItems read items empty) full
  split at run
  · obtain ⟨slots, q, members, full, _⟩ := finishRecord_eq_ok run
    exact values (slotsHold_readMembers read members empty) full
  · simp at run

end Values

/-- The double nearest to a power of ten, which is finite. -/
def IsPowerOfTen (e : Nat) (p : Magnitude) : Prop := Magnitude.ofNat? (Nat.pow 10 e) = some p

/-- Dividing by a power of ten as it is done: every power and every quotient on the way is
finite. -/
inductive DividedByTen : Magnitude → Nat → Magnitude → Prop
  | once {x p z : Magnitude} {e : Nat} (few : e ≤ 308) (power : IsPowerOfTen e p)
      (quotient : x.over? p = some z) : DividedByTen x e z
  | zero {e : Nat} (many : 308 < e) : DividedByTen .zero e .zero
  | again {x p y z : Magnitude} {e : Nat} (many : 308 < e) (power : IsPowerOfTen 308 p)
      (quotient : x.over? p = some y) (rest : DividedByTen y (e - 308) z) : DividedByTen x e z

theorem isPowerOfTen {e : Nat} (h : e ≤ 308) : IsPowerOfTen e (powerOfTen e) :=
  ofNat?_powerOfTen h

theorem dividedByTen_overPowerOfTen (x : Magnitude) (e : Nat) :
    DividedByTen x e (overPowerOfTen x e) := by
  induction e using Nat.strongRecOn generalizing x with
  | ind e ih =>
    by_cases few : e ≤ 308
    · exact .once few (isPowerOfTen few) (overPowerOfTen_of_le few x)
    have many : 308 < e := not_le.mp few
    by_cases nothing : x = .zero
    · rw [overPowerOfTen, if_neg few, if_pos nothing, nothing]
      exact .zero many
    · obtain ⟨y, quotient, result⟩ := exists_overPowerOfTen many nothing
      rw [result]
      exact .again many (isPowerOfTen le_rfl) quotient (ih (e - 308) (by omega) y)

theorem bounded_value {negative : Bool} {n : NumberText} {r : Bytes} {v : JsonNumber}
    (h : n.value negative r = .ok v) : v.Bounded := by
  obtain ⟨nearest, hn⟩ : ∃ f, f = Magnitude.ofNat? := ⟨_, rfl⟩
  have whole : (gather 0 n.whole).1 < Nat.pow 2 64 := gather_lt (by decide) n.whole
  have all := gather_lt whole n.fraction
  unfold NumberText.value at h
  rw [← hn] at h
  dsimp only at h
  split at h
  · cases h
    show Int.natAbs _ < _
    split <;> simpa using all
  -- every other result is a magnitude with its sign
  repeat' split at h
  all_goals cases h
  all_goals rfl

theorem bounded_readNumber {negative : Bool} {s r : Bytes} {v : JsonNumber}
    (h : readNumber negative s = .ok (v, r)) : v.Bounded := by
  unfold readNumber at h
  split at h
  · simp at h
  split at h
  · simp at h
  next value =>
    cases h
    exact bounded_value value

theorem isFinite_of_acceptReal {v : JsonNumber} {x : Binary64} (h : acceptReal v = .ok x)
    (bounded : v.Bounded) : x.isFinite = true := by
  cases v with
  | integer i =>
    have small : i.natAbs ≤ Nat.pow 10 20 :=
      (le_of_lt bounded).trans (by decide : Nat.pow 2 64 ≤ Nat.pow 10 20)
    obtain ⟨m, nearest⟩ := Magnitude.exists_ofNat? small (by decide)
    cases h
    rw [Binary64.ofInt, nearest]
    rfl
  | real x =>
    cases h
    exact bounded

/-- Every double that is read is finite. -/
theorem isFinite_of_real {s r : Bytes} {x : Binary64} (h : real.run s = .ok (x, r)) :
    x.isFinite = true := by
  have run : atValue (readNumeric .real acceptReal) s = .ok (x, r) := h
  unfold atValue at run
  split at run
  · simp at run
  unfold readNumeric at run
  split at run
  · split at run
    · simp at run
    next number =>
    split at run
    next accepted =>
      cases run
      exact isFinite_of_acceptReal accepted (bounded_readNumber number)
    next => simp at run
  · simp at run

end Json

theorem Alert.isFinite_of_decode {body : Bytes} {a : Alert} (h : decode body = .ok a) :
    a.timestamp.isFinite = true := by
  let P : (f : Alert.Field) → f.Value → Prop
    | .timestamp => fun x => x.isFinite = true
    | _ => fun _ => True
  obtain ⟨r, run⟩ := Json.run_of_decode h
  obtain ⟨v, rfl, values⟩ := Json.exists_values_of_record (P := P) (fun f _ _ _ hv => by
    cases f
    case timestamp => exact Json.isFinite_of_real hv
    all_goals exact trivial) run
  exact values .timestamp

namespace Binary64

/-- One double is at most the other, as numbers. -/
def AtMost (x y : Binary64) : Prop :=
  ∃ p q, x.position = some p ∧ y.position = some q ∧ p ≤ q

variable {x y z : Binary64}

theorem exists_position (h : x.isFinite = true) : ∃ p, x.position = some p := by
  cases x with
  | nan => cases h
  | infinity s => cases h
  | finite s m => exact ⟨_, rfl⟩

theorem AtMost.refl (h : x.isFinite = true) : x.AtMost x := by
  obtain ⟨p, hp⟩ := exists_position h
  exact ⟨p, p, hp, hp, Int.le_refl p⟩

theorem AtMost.trans (h : x.AtMost y) (h' : y.AtMost z) : x.AtMost z := by
  obtain ⟨p, q, hp, hq, le⟩ := h
  obtain ⟨q', r, hq', hr, le'⟩ := h'
  rw [hq] at hq'
  cases hq'
  exact ⟨p, r, hp, hr, Int.le_trans le le'⟩

/-- The smaller of two finite doubles is one of them and below both. -/
theorem min_spec (hx : x.isFinite = true) (hy : y.isFinite = true) :
    (x.min y = x ∨ x.min y = y) ∧ (x.min y).AtMost x ∧ (x.min y).AtMost y := by
  obtain ⟨p, hp⟩ := exists_position hx
  obtain ⟨q, hq⟩ := exists_position hy
  rw [Binary64.min, hp, hq]
  dsimp only
  split
  next less => exact ⟨.inl rfl, .refl hx, p, q, hp, hq, Int.le_of_lt less⟩
  next more => exact ⟨.inr rfl, ⟨q, p, hq, hp, Int.not_lt.mp more⟩, .refl hy⟩

theorem max_spec (hx : x.isFinite = true) (hy : y.isFinite = true) :
    (x.max y = x ∨ x.max y = y) ∧ x.AtMost (x.max y) ∧ y.AtMost (x.max y) := by
  obtain ⟨p, hp⟩ := exists_position hx
  obtain ⟨q, hq⟩ := exists_position hy
  rw [Binary64.max, hp, hq]
  dsimp only
  split
  next more => exact ⟨.inl rfl, .refl hx, q, p, hq, hp, Int.le_of_lt more⟩
  next less => exact ⟨.inr rfl, ⟨p, q, hp, hq, Int.not_lt.mp less⟩, .refl hy⟩

end Binary64

/-- The bounds of a page are finite, they are among these timestamps, and the timestamps lie
between them. -/
structure Page.Spans (p : Page) (times : List Binary64) : Prop where
  first_finite : p.first.isFinite = true
  last_finite : p.last.isFinite = true
  first_mem : p.first ∈ times
  last_mem : p.last ∈ times
  within : ∀ t ∈ times, p.first.AtMost t ∧ t.AtMost p.last

section Folds

open Binary64

variable {t : Binary64} {ts : List Binary64} {pick : Binary64 → Binary64 → Binary64}

/-- A fold that picks one of two finite doubles picks one of all, in the order of its steps. -/
theorem foldl_pick (below : Binary64 → Binary64 → Prop)
    (refl : ∀ {x : Binary64}, x.isFinite = true → below x x)
    (trans : ∀ {x y z : Binary64}, below x y → below y z → below x z)
    (spec : ∀ {x y : Binary64}, x.isFinite = true → y.isFinite = true →
      (pick x y = x ∨ pick x y = y) ∧ below (pick x y) x ∧ below (pick x y) y)
    (finite : ∀ x ∈ t :: ts, x.isFinite = true) :
    ts.foldl pick t ∈ t :: ts ∧ ∀ x ∈ t :: ts, below (ts.foldl pick t) x := by
  induction ts generalizing t with
  | nil =>
    have ht := finite t (by simp)
    simpa using refl ht
  | cons u ts ih =>
    obtain ⟨ht, hu, hts⟩ := by simpa using finite
    obtain ⟨one, under_t, under_u⟩ := spec ht hu
    have picked : (pick t u).isFinite = true := by
      obtain h | h := one <;> rw [h] <;> assumption
    obtain ⟨mem, under⟩ := ih (t := pick t u) (by simpa [picked] using hts)
    have here := under (pick t u) (by simp)
    rw [List.foldl_cons]
    refine ⟨?_, ?_⟩
    · obtain h | h := one <;> rw [h] at mem ⊢ <;> simp only [List.mem_cons] at mem ⊢ <;> tauto
    · intro x hx
      simp only [List.mem_cons] at hx
      obtain rfl | rfl | hx := hx
      · exact trans here under_t
      · exact trans here under_u
      · exact under x (by simp [hx])

theorem Page.Holds.spans {p : Page} {entries : List (Summary × Binary64)} (h : p.Holds entries)
    (finite : ∀ t ∈ entries.map (·.2), t.isFinite = true) : p.Spans (entries.map (·.2)) := by
  obtain ⟨t, ts, times, first, last⟩ := h.bounds
  rw [times] at finite ⊢
  obtain ⟨first_mem, lower⟩ := foldl_pick AtMost AtMost.refl AtMost.trans min_spec finite
  obtain ⟨last_mem, upper⟩ :=
    foldl_pick (fun x y => y.AtMost x) AtMost.refl (fun h h' => h'.trans h) max_spec finite
  rw [← first] at first_mem lower
  rw [← last] at last_mem upper
  exact ⟨finite _ first_mem, finite _ last_mem, first_mem, last_mem,
    fun x hx => ⟨lower x hx, upper x hx⟩⟩

end Folds

/-- A page with finite bounds is written without null. -/
theorem Page.not_null {p : Page} (first : p.first.isFinite = true) (last : p.last.isFinite = true) :
    ¬ "null".toList <:+: Json.outsideStrings .outside p.toJson.toList := by
  have text : p.toJson.toList = Json.recordChars shape p := String.toList_ofList
  rw [text]
  refine Json.Wordless.not_null (Json.Wordless.recordChars fun f => ?_)
  cases f with
  | kind => exact .textChars _
  | count => exact .digits _
  | alerts => exact .listChars fun s _ => .recordChars fun f => .textChars _
  | first => exact .realChars first
  | last => exact .realChars last

theorem isFinite_of_recordedAlerts {chain : String} {bodies : List Bytes} {a : Alert}
    (h : a ∈ recordedAlerts chain bodies) : a.timestamp.isFinite = true := by
  obtain ⟨body, _, decoded⟩ := List.mem_filterMap.mp (List.mem_filter.mp h).1
  cases result : Alert.decode body with
  | error e => simp [result, Except.toOption] at decoded
  | ok a' =>
    rw [result] at decoded
    cases decoded
    exact Alert.isFinite_of_decode result

/-- Timestamps are real numbers: no step of reading one leaves the finite doubles, so that each
that is accepted is finite, and the bounds of every page are the least and the greatest timestamp
of its alerts, which JSON has numbers for. -/
theorem timestamps_are_real {capacity : UInt32} (positive : 0 < capacity) (bodies : List Bytes)
    (chain : String) :
    (∀ x e, Json.DividedByTen x e (Json.overPowerOfTen x e)) ∧
      (∀ body a, Alert.decode body = .ok a → a.timestamp.isFinite = true) ∧
      ∃ blocks,
        CutInto capacity.toNat ((recordedAlerts chain bodies).map Alert.entry) blocks ∧
        List.Forall₂
          (fun p block => p.Holds block ∧ p.Spans (block.map (·.2)) ∧
            ¬ "null".toList <:+: Json.outsideStrings .outside p.toJson.toList)
          ((Stores.empty.afterMessages capacity bodies).history.pages chain) blocks := by
  refine ⟨Json.dividedByTen_overPowerOfTen, fun body a => Alert.isFinite_of_decode, ?_⟩
  obtain ⟨blocks, cut, held⟩ := pagesHold_afterMessages positive bodies chain
  have finite : ∀ block ∈ blocks, ∀ t ∈ block.map (·.2), t.isFinite = true := by
    intro block hb t ht
    obtain ⟨entry, he, rfl⟩ := List.mem_map.mp ht
    have listed : entry ∈ (recordedAlerts chain bodies).map Alert.entry := by
      rw [← cut.joined]
      exact List.mem_flatten.mpr ⟨block, hb, he⟩
    obtain ⟨a, ha, rfl⟩ := List.mem_map.mp listed
    exact isFinite_of_recordedAlerts ha
  have both := (List.forall₂_and_left blocks _).mpr ⟨finite, held.flip⟩
  refine ⟨blocks, cut, both.flip.imp ?_⟩
  rintro p block ⟨finite, holds⟩
  have spans := holds.spans finite
  exact ⟨holds, spans, Page.not_null spans.first_finite spans.last_finite⟩

/-- Timestamps with many digits, far below the smallest double, and a negative zero. -/
def oddlyTimedMessages : List Bytes :=
  ["12345678901234567890123.5e1", "5e-700", "-0.0", "1e999"].map
    (missedBlocksMessage "WARNING" "chainX" "missed_blocks")

theorem timestamps_are_real_oddly_timed :
    (0 : UInt32) < 2 ∧
      Alert.decode (missedBlocksMessage "WARNING" "chainX" "missed_blocks" "5e-700") =
        .ok (missedBlocks "chainX" 0) ∧
      (missedBlocks "chainX" 0).timestamp.isFinite = true ∧
      ∃ blocks,
        CutInto 2 ((recordedAlerts "chainX" oddlyTimedMessages).map Alert.entry) blocks ∧
        (recordedAlerts "chainX" oddlyTimedMessages).length = 3 ∧
        List.Forall₂
          (fun p block => p.Holds block ∧ p.Spans (block.map (·.2)) ∧
            ¬ "null".toList <:+: Json.outsideStrings .outside p.toJson.toList)
          ((Stores.empty.afterMessages 2 oddlyTimedMessages).history.pages "chainX") blocks := by
  have positive : (0 : UInt32) < 2 := by decide
  have decoded : Alert.decode (missedBlocksMessage "WARNING" "chainX" "missed_blocks" "5e-700") =
      .ok (missedBlocks "chainX" 0) := by decide +kernel
  obtain ⟨_, finite, blocks, cut, held⟩ :=
    timestamps_are_real positive oddlyTimedMessages "chainX"
  exact ⟨positive, decoded, finite _ _ decoded, blocks, cut, by decide +kernel, held⟩

end AlertLedger
