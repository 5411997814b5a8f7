import AlertLedger.Proofs.JsonGrammar

namespace AlertLedger

/-- The reader gives `a` for the text `v` and stops at its end, whatever stands around it. -/
def Reader.Takes (reader : Reader α) (v : Bytes) (a : α) : Prop :=
  ∀ b r, Json.Blank b → Json.EndsNumber r → reader.run (b ++ (v ++ r)) = .ok (a, r)

/-- What the reader gives for a value at one place it gives for it everywhere. -/
def Reader.Exact (reader : Reader α) : Prop :=
  ∀ {v b r a q}, Json.IsValue v → Json.Blank b → Json.EndsNumber r →
    reader.run (b ++ (v ++ r)) = .ok (a, q) → reader.Takes v a

theorem Reader.Takes.inj {reader : Reader α} {v : Bytes} {a a' : α} (h : reader.Takes v a)
    (h' : reader.Takes v a') : a = a' := by
  have same := (h [] [] Json.blank_nil Json.endsNumber_nil).symm.trans
    (h' [] [] Json.blank_nil Json.endsNumber_nil)
  simpa using same

namespace Json

variable {s t r q v b : Bytes} {c : UInt8}

section Heads

theorem IsNumber.exists_cons (h : IsNumber v) :
    ∃ c t, v = c :: t ∧ (c = 0x2d ∨ isDigit c = true) := by
  cases h with
  | unsigned form =>
    obtain ⟨c, t, rfl, first⟩ := form.exists_cons
    exact ⟨c, t, rfl, .inr first⟩
  | minus _ => exact ⟨_, _, rfl, .inl rfl⟩

theorem IsNumber.cases_cons (h : IsNumber (c :: s)) :
    (c = 0x2d ∧ ∃ n, IsUnsigned s n) ∨ (c ≠ 0x2d ∧ ∃ n, IsUnsigned (c :: s) n) := by
  generalize hv : c :: s = v at h
  cases h with
  | @unsigned u n form =>
    obtain ⟨d, t, rfl, first⟩ := form.exists_cons
    cases hv
    refine .inr ⟨?_, n, form⟩
    rintro rfl
    simp [isDigit] at first
  | @minus u n form =>
    cases hv
    exact .inl ⟨rfl, n, form⟩

/-- The first byte of a value tells its kind. -/
theorem IsValue.kinds (h : IsValue (c :: s)) :
    ((c = 0x6e ∧ s = ascii "ull") ∨ (c = 0x74 ∧ s = ascii "rue") ∨
      (c = 0x66 ∧ s = ascii "alse")) ∨
    ((c = 0x2d ∨ isDigit c = true) ∧ IsNumber (c :: s)) ∨
    (c = 0x22 ∧ ∃ t, StringForm t ∧ s = t ++ [0x22]) ∨
    (c = 0x5b ∧ ∃ vs, ListText vs s ∧ ∀ v ∈ vs, IsValue v) ∨
    (c = 0x7b ∧ ∃ ms, ObjectText ms s ∧ (∀ m ∈ ms, StringForm m.1) ∧ ∀ m ∈ ms, IsValue m.2) := by
  generalize hv : c :: s = v at h
  cases h with
  | word known =>
    refine .inl ?_
    simp only [List.mem_cons, List.not_mem_nil, or_false] at known
    obtain rfl | rfl | rfl := known
    · exact .inl (List.cons.inj hv)
    · exact .inr (.inl (List.cons.inj hv))
    · exact .inr (.inr (List.cons.inj hv))
  | number form =>
    obtain ⟨d, t, rfl, first⟩ := form.exists_cons
    cases hv
    exact .inr (.inl ⟨first, form⟩)
  | @text t form =>
    cases hv
    exact .inr (.inr (.inl ⟨rfl, t, form, rfl⟩))
  | @list vs s items values =>
    cases hv
    exact .inr (.inr (.inr (.inl ⟨rfl, vs, items, values⟩)))
  | @object ms s members keys values =>
    cases hv
    exact .inr (.inr (.inr (.inr ⟨rfl, ms, members, keys, values⟩)))

theorem IsValue.null (h : IsValue (0x6e :: s)) : s = ascii "ull" := by
  simpa [isDigit] using h.kinds

theorem IsValue.string (h : IsValue (0x22 :: s)) : ∃ t, StringForm t ∧ s = t ++ [0x22] := by
  simpa [isDigit] using h.kinds

theorem IsValue.items (h : IsValue (0x5b :: s)) :
    ∃ vs, ListText vs s ∧ ∀ v ∈ vs, IsValue v := by
  simpa [isDigit] using h.kinds

theorem IsValue.members (h : IsValue (0x7b :: s)) :
    ∃ ms, ObjectText ms s ∧ (∀ m ∈ ms, StringForm m.1) ∧ ∀ m ∈ ms, IsValue m.2 := by
  simpa [isDigit] using h.kinds

theorem IsValue.isNumber (h : IsValue (c :: s)) (first : c = 0x2d ∨ isDigit c = true) :
    IsNumber (c :: s) := by
  have range : c.toNat = 0x2d ∨ 0x30 ≤ c.toNat ∧ c.toNat ≤ 0x39 := by
    obtain rfl | digit := first
    · exact .inl rfl
    · exact .inr (isDigit_iff.mp digit)
  obtain word | number | string | list | object := h.kinds
  · obtain ⟨rfl, _⟩ | ⟨rfl, _⟩ | ⟨rfl, _⟩ := word <;> simp at range
  · exact number.2
  · obtain ⟨rfl, _⟩ := string; simp at range
  · obtain ⟨rfl, _⟩ := list; simp at range
  · obtain ⟨rfl, _⟩ := object; simp at range

end Heads

section Readers

variable {read : UInt8 → Bytes → Except Fault (α × Bytes)} {a : α}

theorem atValue_append (blank : Blank b) (hc : isBlank c = false) (s : Bytes) :
    atValue read (b ++ c :: s) = read c s := by
  unfold atValue
  rw [blank.skip_cons hc]

theorem takes_of_read {reader : Reader α} (run : reader.run = atValue read)
    (hc : isBlank c = false) (h : ∀ r, EndsNumber r → read c (t ++ r) = .ok (a, r)) :
    reader.Takes (c :: t) a := by
  intro b r blank stop
  rw [run, List.cons_append, atValue_append blank hc]
  exact h r stop

theorem exact_of_read {reader : Reader α} (run : reader.run = atValue read)
    (h : ∀ {c t r a q}, IsValue (c :: t) → EndsNumber r → read c (t ++ r) = .ok (a, q) →
      ∀ r', EndsNumber r' → read c (t ++ r') = .ok (a, r')) : reader.Exact := by
  intro v b r a q value blank stop hr
  obtain ⟨c, t, rfl, hc, _⟩ := value.exists_cons
  rw [run, List.cons_append, atValue_append blank hc] at hr
  exact takes_of_read run hc (h value stop hr)

/-- A string of JSON text that is read somewhere spells the text that is read. -/
theorem spells_of_readText {name : String} (form : StringForm t)
    (h : readText (t ++ 0x22 :: r) = .ok (name, q)) : Spells t name ∧ q = r := by
  obtain ⟨u, spells, same⟩ := readText_eq_ok_iff.mp h
  obtain ⟨rfl, rfl⟩ := form.append_inj spells.stringForm same
  exact ⟨spells, rfl⟩

theorem text_takes {name : String} (h : Spells t name) : text.Takes (0x22 :: (t ++ [0x22])) name :=
  takes_of_read rfl (by decide) fun r _ => by simpa [readString] using h.read r

theorem text_exact : text.Exact := by
  refine exact_of_read rfl fun {c t r a q} value _ h r' _ => ?_
  unfold readString at h ⊢
  split at h
  next quote =>
    subst quote
    obtain ⟨t, form, rfl⟩ := value.string
    rw [List.append_assoc] at h
    simpa using (spells_of_readText form h).1.read r'
  next => simp at h

theorem numeric_exact {reader : Reader α} {wanted : WantedValue}
    {accept : JsonNumber → Except FaultCause α}
    (run : reader.run = atValue (readNumeric wanted accept)) : reader.Exact := by
  refine exact_of_read run fun {c t r a q} value stop h r' stop' => ?_
  unfold readNumeric at h ⊢
  split at h
  next first =>
    rw [if_pos first]
    have again {v : JsonNumber} {q : Bytes}
        (hn : readNumber (c == 0x2d) (if c = 0x2d then t ++ r else c :: (t ++ r)) = .ok (v, q)) :
        readNumber (c == 0x2d) (if c = 0x2d then t ++ r' else c :: (t ++ r')) = .ok (v, r') := by
      obtain ⟨rfl, n, form⟩ | ⟨other, n, form⟩ :=
        (value.isNumber (by simpa using first)).cases_cons
      · exact form.readNumber_of_rest stop hn stop'
      · rw [if_neg other] at hn ⊢
        exact form.readNumber_of_rest stop hn stop'
    split at h
    · simp at h
    next v _ hn =>
      split at h
      next accepted =>
        cases h
        rw [again hn]
        simp [accepted]
      next => simp at h
  next => simp at h

theorem signed64_exact : signed64.Exact := numeric_exact rfl

theorem real_exact : real.Exact := numeric_exact rfl

theorem spells_of_readVariantName {known : List (String × α)} (form : StringForm t)
    (h : readVariantName known (t ++ 0x22 :: r) = .ok (a, q)) :
    ∃ name, Spells t name ∧ known.lookup name = some a ∧ q = r := by
  unfold readVariantName at h
  split at h
  · simp at h
  next name _ hs =>
    obtain ⟨spells, rfl⟩ := spells_of_readText form hs
    split at h
    next listed =>
      cases h
      exact ⟨name, spells, listed, rfl⟩
    next => simp at h

theorem Spells.readVariantName {known : List (String × α)} {name : String} (h : Spells t name)
    (listed : known.lookup name = some a) (r : Bytes) :
    readVariantName known (t ++ 0x22 :: r) = .ok (a, r) := by
  simp [Json.readVariantName, h.read r, listed]

theorem variant_takes {known : List (String × α)} {name : String} (h : Spells t name)
    (listed : known.lookup name = some a) :
    (variant known).Takes (0x22 :: (t ++ [0x22])) a :=
  takes_of_read rfl (by decide) fun r _ => by
    simpa [readVariant] using h.readVariantName listed r

theorem readNull_append (blank : Blank b) (r : Bytes) :
    atValue readNull (b ++ (ascii "null" ++ r)) = .ok ((), r) := by
  have word := readWord_append (ascii "ull") r
  have run : atValue readNull (b ++ (ascii "null" ++ r)) = readNull 0x6e (ascii "ull" ++ r) :=
    atValue_append blank (by decide) _
  rw [run]
  simp [readNull, word, Except.map]

theorem eq_null_of_read {u : Unit} (blank : Blank b) (value : IsValue v)
    (h : atValue readNull (b ++ (v ++ r)) = .ok (u, q)) : v = ascii "null" ∧ q = r := by
  obtain ⟨c, t, rfl, hc, _⟩ := value.exists_cons
  rw [List.cons_append, atValue_append blank hc] at h
  unfold readNull at h
  split at h
  next first =>
    subst first
    obtain rfl := value.null
    rw [readWord_append] at h
    simp only [Except.map, Except.ok.injEq, Prod.mk.injEq] at h
    exact ⟨rfl, h.2.symm⟩
  next => simp at h

/-- A name may also be the key of an object of one member, whose value is null. -/
theorem readVariant_object {known : List (String × α)} {ms : List (Bytes × Bytes)}
    (members : ObjectText ms s) (keys : ∀ m ∈ ms, StringForm m.1) (values : ∀ m ∈ ms, IsValue m.2)
    (h : readVariant known 0x7b (s ++ r) = .ok (a, q)) (r' : Bytes) :
    readVariant known 0x7b (s ++ r') = .ok (a, r') := by
  cases members with
  | close blank =>
    rw [List.append_assoc] at h
    simp [readVariant, readVariantKey, blank.skip_cons (c := 0x7d) (by decide)] at h
  | @first b _ s m ms blank text rest =>
    obtain ⟨k, k', hk, hk', rfl⟩ := text
    have split (r : Bytes) : b ++ (0x22 :: (m.1 ++ 0x22 :: (k ++ 0x3a :: (k' ++ m.2))) ++ s) ++ r =
        b ++ 0x22 :: (m.1 ++ 0x22 :: (k ++ 0x3a :: (k' ++ (m.2 ++ (s ++ r))))) := by simp
    rw [split] at h ⊢
    have skipped := blank.skip_cons (c := 0x22) (by decide)
    unfold readVariant readVariantKey at h ⊢
    have brace : (0x7b : UInt8) ≠ 0x22 := by decide
    simp only [skipped, if_neg brace, if_true] at h ⊢
    split at h
    · simp at h
    next hn =>
    obtain ⟨name, spells, listed, rfl⟩ := spells_of_readVariantName (keys m (by simp)) hn
    simp only [spells.readVariantName listed, readColon_append hk] at h ⊢
    split at h
    · simp at h
    next hu =>
    obtain ⟨null, rfl⟩ := eq_null_of_read hk' (values m (by simp)) hu
    simp only [null, readNull_append hk']
    cases rest with
    | close blank' =>
      simp only [List.append_assoc, List.singleton_append,
        blank'.skip_cons (show isBlank 0x7d = false by decide), if_true] at h ⊢
      cases h
      rfl
    | next blank' _ _ _ =>
      rw [List.append_assoc, List.cons_append, blank'.skip_cons (by decide)] at h
      simp at h

theorem variant_exact (known : List (String × α)) : (variant known).Exact := by
  refine exact_of_read rfl fun {c t r a q} value _ h r' _ => ?_
  by_cases quote : c = 0x22
  · subst quote
    obtain ⟨t, form, rfl⟩ := value.string
    simp only [readVariant, if_true, List.append_assoc, List.cons_append, List.nil_append] at h ⊢
    obtain ⟨name, spells, listed, rfl⟩ := spells_of_readVariantName form h
    exact spells.readVariantName listed r'
  by_cases brace : c = 0x7b
  · subst brace
    obtain ⟨ms, members, keys, values⟩ := value.members
    exact readVariant_object members keys values h r'
  · simp [readVariant, quote, brace] at h

end Readers

end Json

end AlertLedger
