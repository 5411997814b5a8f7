import AlertLedger.Proofs.JsonNumbers
import AlertLedger.Proofs.JsonStrings

namespace AlertLedger.Json

def Blank (b : Bytes) : Prop := ∀ c ∈ b, isBlank c = true

/-- Items of a list or members of an object up to and with the bracket that closes them, `first`
where nothing stands before them. Blanks may stand around each, and `item a t` says that `t` is a
text of `a`. -/
inductive Items (item : α → Bytes → Prop) (closing : UInt8) : Bool → List α → Bytes → Prop
  | close {first : Bool} {b : Bytes} (blank : Blank b) :
      Items item closing first [] (b ++ [closing])
  | first {b t s : Bytes} {a : α} {as : List α} (blank : Blank b) (text : item a t)
      (rest : Items item closing false as s) : Items item closing true (a :: as) (b ++ (t ++ s))
  | next {b b' t s : Bytes} {a : α} {as : List α} (blank : Blank b) (blank' : Blank b')
      (text : item a t) (rest : Items item closing false as s) :
      Items item closing false (a :: as) (b ++ 0x2c :: (b' ++ (t ++ s)))

/-- A member of an object: what stands between the quotes of its key, and its value. -/
def MemberText (m : Bytes × Bytes) (t : Bytes) : Prop :=
  ∃ b b', Blank b ∧ Blank b' ∧ t = 0x22 :: (m.1 ++ 0x22 :: (b ++ 0x3a :: (b' ++ m.2)))

/-- What stands behind the opening bracket of a list. -/
abbrev ListText : List Bytes → Bytes → Prop := Items Eq 0x5d true

/-- What stands behind the opening brace of an object. -/
abbrev ObjectText : List (Bytes × Bytes) → Bytes → Prop := Items MemberText 0x7d true

/-- The texts of JSON values, their lists and objects as deep as they like. Numbers may be out of
range, and strings may hold bytes that are no UTF-8. -/
inductive IsValue : Bytes → Prop
  | word {w : String} (known : w ∈ ["null", "true", "false"]) : IsValue (ascii w)
  | number {v : Bytes} (form : IsNumber v) : IsValue v
  | text {t : Bytes} (form : StringForm t) : IsValue (0x22 :: (t ++ [0x22]))
  | list {vs : List Bytes} {s : Bytes} (items : ListText vs s) (values : ∀ v ∈ vs, IsValue v) :
      IsValue (0x5b :: s)
  | object {ms : List (Bytes × Bytes)} {s : Bytes} (members : ObjectText ms s)
      (keys : ∀ m ∈ ms, StringForm m.1) (values : ∀ m ∈ ms, IsValue m.2) : IsValue (0x7b :: s)

section Blanks

variable {b s r : Bytes} {c : UInt8}

theorem isBlank_iff : isBlank c = true ↔ c = 0x20 ∨ c = 0x0a ∨ c = 0x09 ∨ c = 0x0d := by
  simp [isBlank, or_assoc]

theorem isBlank_of_isDigit (h : isDigit c = true) : isBlank c = false := by
  rw [← Bool.not_eq_true, isBlank_iff]
  rintro (rfl | rfl | rfl | rfl) <;> exact absurd h (by decide)

theorem blank_nil : Blank [] := by simp [Blank]

theorem Blank.append {b' : Bytes} (h : Blank b) (h' : Blank b') : Blank (b ++ b') := by
  intro c hc
  obtain hc | hc := List.mem_append.mp hc
  · exact h c hc
  · exact h' c hc

theorem Blank.skip (h : Blank b) (s : Bytes) : skipBlank (b ++ s) = skipBlank s :=
  List.dropWhile_append_of_pos h

theorem skipBlank_of_not (h : isBlank c = false) (s : Bytes) : skipBlank (c :: s) = c :: s := by
  simp [skipBlank, h]

theorem Blank.skip_cons (h : Blank b) (hc : isBlank c = false) (s : Bytes) :
    skipBlank (b ++ c :: s) = c :: s := by
  rw [h.skip, skipBlank_of_not hc]

theorem Blank.skip_all (h : Blank b) : skipBlank b = [] := by
  rw [← List.append_nil b, h.skip]
  rfl

theorem exists_blank_of_skipBlank (h : skipBlank s = r) : ∃ b, Blank b ∧ s = b ++ r := by
  refine ⟨s.takeWhile isBlank, List.all_eq_true.mp List.all_takeWhile, ?_⟩
  rw [← h]
  exact List.takeWhile_append_dropWhile.symm

theorem endsNumber_cons (h : isBlank c = true ∨ c = 0x2c ∨ c = 0x5d ∨ c = 0x7d) (s : Bytes) :
    EndsNumber (c :: s) := by
  intro d hd
  cases hd
  rw [isBlank_iff, or_assoc, or_assoc, or_assoc] at h
  obtain rfl | rfl | rfl | rfl | rfl | rfl | rfl := h <;> decide

theorem endsNumber_nil : EndsNumber [] := by simp [EndsNumber]

theorem Blank.endsNumber (h : Blank b) (hs : EndsNumber s) : EndsNumber (b ++ s) := by
  cases b with
  | nil => exact hs
  | cons c b => exact endsNumber_cons (.inl (h c (by simp))) _

end Blanks

section Shape

variable {item : α → Bytes → Prop} {as : List α} {s v : Bytes} {closing : UInt8}

theorem Items.endsNumber (h : Items item closing false as s)
    (bracket : closing = 0x5d ∨ closing = 0x7d) (r : Bytes) : EndsNumber (s ++ r) := by
  cases h with
  | close blank =>
    rw [List.append_assoc]
    exact blank.endsNumber (endsNumber_cons (.inr (.inr bracket)) r)
  | next blank blank' text rest =>
    rw [List.append_assoc]
    exact blank.endsNumber (endsNumber_cons (.inr (.inl rfl)) _)

theorem IsUnsigned.exists_cons {u : Bytes} {n : NumberText} (h : IsUnsigned u n) :
    ∃ c t, u = c :: t ∧ isDigit c = true := by
  obtain ⟨whole, _, _⟩ := h
  cases whole with
  | zero => exact ⟨_, _, rfl, by decide⟩
  | digits first _ _ => exact ⟨_, _, rfl, first⟩

/-- A value starts with a byte that is no blank and closes no list. -/
theorem IsValue.exists_cons (h : IsValue v) :
    ∃ c t, v = c :: t ∧ isBlank c = false ∧ c ≠ 0x5d := by
  cases h with
  | word known =>
    simp only [List.mem_cons, List.not_mem_nil, or_false] at known
    obtain rfl | rfl | rfl := known <;> exact ⟨_, _, rfl, by decide, by decide⟩
  | number form =>
    cases form with
    | unsigned form =>
      obtain ⟨c, t, rfl, first⟩ := form.exists_cons
      exact ⟨c, t, rfl, isBlank_of_isDigit first, ne_of_isDigit first (by decide)⟩
    | minus _ => exact ⟨_, _, rfl, by decide, by decide⟩
  | text _ => exact ⟨_, _, rfl, by decide, by decide⟩
  | list _ _ => exact ⟨_, _, rfl, by decide, by decide⟩
  | object _ _ _ => exact ⟨_, _, rfl, by decide, by decide⟩

end Shape

section Skipping

variable {s t u r v : Bytes} {c d : UInt8} {around : List Enclosing}

theorem readWord_append (word r : Bytes) : readWord word (word ++ r) = .ok r := by
  induction word with
  | nil => rfl
  | cons c word ih => simpa [readWord] using ih

theorem readColon_append {b : Bytes} (h : Blank b) (r : Bytes) :
    readColon (b ++ 0x3a :: r) = .ok r := by
  unfold readColon
  rw [h.skip_cons (by decide)]
  rfl

theorem skipKey_append {b b' k : Bytes} (blank : Blank b) (blank' : Blank b') (key : StringForm k)
    (r : Bytes) : skipKey (b ++ 0x22 :: (k ++ 0x22 :: (b' ++ 0x3a :: r))) = .ok r := by
  unfold skipKey
  rw [blank.skip_cons (by decide)]
  simp [key.skip, readColon_append blank']

theorem skipValue_scalar (h : skipScalar? (skipBlank s) = some (.ok r)) :
    skipValue around s = skipAfter around r := by
  rw [skipValue.eq_def]
  grind

theorem skipScalar?_bracket (hc : c = 0x5b ∨ c = 0x7b) (s : Bytes) :
    skipScalar? (c :: s) = none := by
  obtain rfl | rfl := hc <;> simp [skipScalar?, isDigit]

theorem skipValue_list_empty (h : skipBlank s = 0x5b :: t) (h' : skipBlank t = 0x5d :: r) :
    skipValue around s = skipAfter around r := by
  have scalar := skipScalar?_bracket (.inl rfl) t
  rw [skipValue.eq_def]
  grind

theorem skipValue_list (h : skipBlank s = 0x5b :: t) (h' : skipBlank t = d :: u)
    (hd : d ≠ 0x5d) : skipValue around s = skipValue (.list :: around) (d :: u) := by
  have scalar := skipScalar?_bracket (.inl rfl) t
  rw [skipValue.eq_def]
  grind

theorem skipValue_object_empty (h : skipBlank s = 0x7b :: t) (h' : skipBlank t = 0x7d :: r) :
    skipValue around s = skipAfter around r := by
  have scalar := skipScalar?_bracket (.inr rfl) t
  rw [skipValue.eq_def]
  grind

theorem skipValue_object (h : skipBlank s = 0x7b :: t) (h' : skipBlank t = d :: u)
    (hd : d ≠ 0x7d) (key : skipKey (d :: u) = .ok r) :
    skipValue around s = skipValue (.object :: around) r := by
  have scalar := skipScalar?_bracket (.inr rfl) t
  rw [skipValue.eq_def]
  grind

theorem skipAfter_close {e : Enclosing} (h : skipBlank s = c :: r)
    (hc : c = if e = .list then 0x5d else 0x7d) :
    skipAfter (e :: around) s = skipAfter around r := by
  rw [skipAfter.eq_def]
  cases e <;> grind

theorem skipAfter_list_next (h : skipBlank s = 0x2c :: r) :
    skipAfter (.list :: around) s = skipValue (.list :: around) r := by
  rw [skipAfter.eq_def]
  grind

theorem skipAfter_object_next (around : List Enclosing) (h : skipBlank s = 0x2c :: t)
    (key : skipKey t = .ok r) :
    skipAfter (.object :: around) s = skipValue (.object :: around) r := by
  rw [skipAfter.eq_def]
  grind

/-- A text is skipped exactly to its end, whatever is open around it. -/
def Skips (v : Bytes) : Prop :=
  ∀ around b r, Blank b → EndsNumber r → skipValue around (b ++ (v ++ r)) = skipAfter around r

theorem skips_of_scalar (start : ∃ c t, v = c :: t ∧ isBlank c = false ∧ c ≠ 0x5d)
    (h : ∀ r, EndsNumber r → skipScalar? (v ++ r) = some (.ok r)) : Skips v := by
  intro around b r blank stop
  obtain ⟨c, t, rfl, hc, _⟩ := start
  refine skipValue_scalar ?_
  rw [List.cons_append, blank.skip_cons hc]
  exact h r stop

theorem skipScalar?_word {w : String} (known : w ∈ ["null", "true", "false"]) (r : Bytes) :
    skipScalar? (ascii w ++ r) = some (.ok r) := by
  simp only [List.mem_cons, List.not_mem_nil, or_false] at known
  obtain rfl | rfl | rfl := known
  · exact congrArg some (readWord_append (ascii "ull") r)
  · exact congrArg some (readWord_append (ascii "rue") r)
  · exact congrArg some (readWord_append (ascii "alse") r)

theorem skipScalar?_number (form : IsNumber v) (stop : EndsNumber r) :
    skipScalar? (v ++ r) = some (.ok r) := by
  cases form with
  | @unsigned _ n form =>
    have scan : scanNumber .invalidNumber (v ++ r) = .ok (n, r) := form.scan stop
    obtain ⟨c, t, hu, first⟩ := form.exists_cons
    rw [hu, List.cons_append] at scan ⊢
    have letter : c ≠ 0x6e ∧ c ≠ 0x74 ∧ c ≠ 0x66 :=
      ⟨ne_of_isDigit first rfl, ne_of_isDigit first rfl, ne_of_isDigit first rfl⟩
    have minus : c ≠ 0x2d := ne_of_isDigit first rfl
    simp [skipScalar?, first, scan, Except.map, letter, minus]
  | @minus u n form =>
    have scan : scanNumber .invalidNumber (u ++ r) = .ok (n, r) := form.scan stop
    simp [skipScalar?, scan, Except.map]

theorem Items.skip_list {vs : List Bytes} (h : Items Eq 0x5d false vs s)
    (values : ∀ v ∈ vs, Skips v) (around : List Enclosing) (r : Bytes) :
    skipAfter (.list :: around) (s ++ r) = skipAfter around r := by
  induction vs generalizing s with
  | nil =>
    obtain ⟨blank⟩ := h
    rw [List.append_assoc]
    exact skipAfter_close (blank.skip_cons (by decide) r) rfl
  | cons v vs ih =>
    cases h with
    | @next b b' t s _ _ blank blank' text rest =>
    subst text
    have here := values v (by simp) (.list :: around) b' (s ++ r) blank'
      (rest.endsNumber (.inl rfl) r)
    rw [List.append_assoc, List.cons_append, skipAfter_list_next (blank.skip_cons (by decide) _),
      List.append_assoc, List.append_assoc, here]
    exact ih rest fun w hw => values w (by simp [hw])

theorem Items.skip_object {ms : List (Bytes × Bytes)} (h : Items MemberText 0x7d false ms s)
    (keys : ∀ m ∈ ms, StringForm m.1) (values : ∀ m ∈ ms, Skips m.2) (around : List Enclosing)
    (r : Bytes) : skipAfter (.object :: around) (s ++ r) = skipAfter around r := by
  induction ms generalizing s with
  | nil =>
    obtain ⟨blank⟩ := h
    rw [List.append_assoc]
    exact skipAfter_close (blank.skip_cons (by decide) r) rfl
  | cons m ms ih =>
    cases h with
    | @next b b' t s _ _ blank blank' text rest =>
    obtain ⟨k, k', hk, hk', rfl⟩ := text
    have key := skipKey_append blank' hk (keys m (by simp)) (k' ++ (m.2 ++ (s ++ r)))
    have here := values m (by simp) (.object :: around) k' (s ++ r) hk'
      (rest.endsNumber (.inr rfl) r)
    have after := skipAfter_object_next around (blank.skip_cons (c := 0x2c) (by decide) _) key
    simp only [List.append_assoc, List.cons_append] at after ⊢
    rw [after, here]
    exact ih rest (fun w hw => keys w (by simp [hw])) fun w hw => values w (by simp [hw])

theorem skips_list {vs : List Bytes} (items : ListText vs s) (values : ∀ v ∈ vs, IsValue v)
    (skips : ∀ v ∈ vs, Skips v) : Skips (0x5b :: s) := by
  intro around b r blank _
  have opens (s : Bytes) : skipBlank (b ++ 0x5b :: s) = 0x5b :: s := blank.skip_cons (by decide) s
  cases items with
  | close blank' =>
    rw [List.cons_append, List.append_assoc]
    exact skipValue_list_empty (opens _) (blank'.skip_cons (by decide) r)
  | @first b' _ s v vs blank' text rest =>
    subst text
    obtain ⟨c, t, rfl, hc, bracket⟩ := (values v (by simp)).exists_cons
    have first := skips (c :: t) (by simp) (.list :: around) [] (s ++ r) blank_nil
      (rest.endsNumber (.inl rfl) r)
    have inner := blank'.skip_cons hc (t ++ (s ++ r))
    simp only [List.cons_append, List.append_assoc] at inner ⊢
    rw [skipValue_list (opens _) inner bracket]
    exact first.trans (rest.skip_list (fun w hw => skips w (by simp [hw])) around r)

theorem skips_object {ms : List (Bytes × Bytes)} (members : ObjectText ms s)
    (keys : ∀ m ∈ ms, StringForm m.1) (skips : ∀ m ∈ ms, Skips m.2) : Skips (0x7b :: s) := by
  intro around b r blank _
  have opens (s : Bytes) : skipBlank (b ++ 0x7b :: s) = 0x7b :: s := blank.skip_cons (by decide) s
  cases members with
  | close blank' =>
    rw [List.cons_append, List.append_assoc]
    exact skipValue_object_empty (opens _) (blank'.skip_cons (by decide) r)
  | @first b' _ s m ms blank' text rest =>
    obtain ⟨k, k', hk, hk', rfl⟩ := text
    have first := skips m (by simp) (.object :: around) k' (s ++ r) hk'
      (rest.endsNumber (.inr rfl) r)
    have key := skipKey_append blank_nil hk (keys m (by simp)) (k' ++ (m.2 ++ (s ++ r)))
    have inner := blank'.skip_cons (c := 0x22) (by decide)
      (m.1 ++ 0x22 :: (k ++ 0x3a :: (k' ++ (m.2 ++ (s ++ r)))))
    simp only [List.cons_append, List.append_assoc] at inner ⊢
    rw [skipValue_object (opens _) inner (by decide) key, first]
    exact rest.skip_object (fun w hw => keys w (by simp [hw])) (fun w hw => skips w (by simp [hw]))
      around r

/-- Every value is skipped exactly to its end, however deep it is. -/
theorem IsValue.skips (h : IsValue v) : Skips v := by
  have start := h.exists_cons
  induction h with
  | word known => exact skips_of_scalar start fun r _ => skipScalar?_word known r
  | number form => exact skips_of_scalar start fun r stop => skipScalar?_number form stop
  | text form =>
    refine skips_of_scalar start fun r _ => ?_
    have skip := form.skip r
    simpa [skipScalar?, isDigit] using skip
  | list items values ih =>
    exact skips_list items values fun v hv => ih v hv (values v hv).exists_cons
  | object members keys values ih =>
    exact skips_object members keys fun m hm => ih m hm (values m hm).exists_cons

end Skipping

end AlertLedger.Json
