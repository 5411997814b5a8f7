import AlertLedger.Proofs.RecordLayout

namespace AlertLedger.Json

variable {b b' v v' s s' t t' r r' : Bytes} {c c' : UInt8} {m m' : Bytes × Bytes}
  {ms ms' : List (Bytes × Bytes)}

/-- Two values that start the same text are the same, whatever it goes on with. -/
theorem IsValue.append_inj (h : IsValue v) (h' : IsValue v') (stop : EndsNumber r)
    (stop' : EndsNumber r') (same : v ++ r = v' ++ r') : v = v' ∧ r = r' := by
  have here := h.skips [] [] r blank_nil stop
  have there := h'.skips [] [] r' blank_nil stop'
  rw [List.nil_append, skipAfter.eq_def] at here there
  rw [same, there] at here
  obtain rfl := (Except.ok.inj here).symm
  exact ⟨List.append_cancel_right same, rfl⟩

theorem Blank.append_inj (blank : Blank b) (blank' : Blank b') (hc : isBlank c = false)
    (hc' : isBlank c' = false) (same : b ++ c :: s = b' ++ c' :: s') : c = c' ∧ s = s' := by
  have here := blank.skip_cons hc s
  rw [same, blank'.skip_cons hc'] at here
  obtain ⟨first, rest⟩ := List.cons.inj here
  exact ⟨first.symm, rest.symm⟩

/-- The key and the value of a member have the forms of a string and a value. -/
def IsMember (m : Bytes × Bytes) : Prop := StringForm m.1 ∧ IsValue m.2

theorem MemberText.append_inj (h : MemberText m t) (h' : MemberText m' t') (form : IsMember m)
    (form' : IsMember m') (blank : Blank b) (blank' : Blank b') (stop : EndsNumber r)
    (stop' : EndsNumber r') (same : b ++ (t ++ r) = b' ++ (t' ++ r')) : m = m' ∧ r = r' := by
  obtain ⟨k₁, v₁, keyBlank, valueBlank, rfl⟩ := h
  obtain ⟨k₂, v₂, keyBlank', valueBlank', rfl⟩ := h'
  simp only [List.cons_append, List.append_assoc] at same
  obtain ⟨_, keys⟩ := blank.append_inj blank' (by decide) (by decide) same
  obtain ⟨key, colons⟩ := form.1.append_inj form'.1 keys
  obtain ⟨_, values⟩ := keyBlank.append_inj keyBlank' (by decide) (by decide) colons
  obtain ⟨c, t, hv, first, _⟩ := form.2.exists_cons
  obtain ⟨c', t', hv', first', _⟩ := form'.2.exists_cons
  rw [hv, hv', List.cons_append, List.cons_append] at values
  have bare := valueBlank.append_inj valueBlank' first first' values
  have whole : m.2 ++ r = m'.2 ++ r' := by
    rw [hv, hv', List.cons_append, List.cons_append, bare.1, bare.2]
  obtain ⟨value, rest⟩ := form.2.append_inj form'.2 stop stop' whole
  exact ⟨Prod.ext key value, rest⟩

theorem Items.members_unique (h : Items MemberText 0x7d false ms s)
    (h' : Items MemberText 0x7d false ms' s) (forms : ∀ m ∈ ms, IsMember m)
    (forms' : ∀ m ∈ ms', IsMember m) : ms = ms' := by
  -- a brace is no comma, so that both end together
  have apart {b b' s : Bytes} (blank : Blank b) (blank' : Blank b') :
      b ++ [0x7d] ≠ b' ++ 0x2c :: s := by
    intro same
    exact absurd (blank.append_inj blank' (by decide) (by decide) same).1 (by decide)
  induction ms generalizing s ms' with
  | nil =>
    obtain ⟨blank⟩ := h
    generalize text : _ ++ [(0x7d : UInt8)] = s at h'
    cases h' with
    | close => rfl
    | next blank' => exact absurd text (apart blank blank')
  | cons m ms ih =>
    cases h with
    | @next b k t s _ _ blank inner here rest =>
    generalize text : b ++ 0x2c :: (k ++ (t ++ s)) = u at h'
    cases h' with
    | close blank' => exact absurd text.symm (apart blank' blank)
    | @next b' k' t' s' m' ms' blank' inner' here' rest' =>
      obtain ⟨_, members⟩ := blank.append_inj blank' (by decide) (by decide) text
      have stop : EndsNumber s := by simpa using rest.endsNumber (.inr rfl) []
      have stop' : EndsNumber s' := by simpa using rest'.endsNumber (.inr rfl) []
      obtain ⟨rfl, rfl⟩ := here.append_inj here' (forms m (by simp)) (forms' m' (by simp)) inner
        inner' stop stop' members
      rw [ih rest rest' (fun n hn => forms n (by simp [hn])) fun n hn => forms' n (by simp [hn])]

theorem MemberText.ne_brace (h : MemberText m t) (blank : Blank b) (blank' : Blank b') :
    b ++ [0x7d] ≠ b' ++ (t ++ s) := by
  obtain ⟨_, _, _, _, rfl⟩ := h
  intro same
  exact absurd (blank.append_inj blank' (by decide) (by decide) same).1 (by decide)

/-- What is an object has these members in one way only. -/
theorem ObjectText.unique (h : ObjectText ms s) (h' : ObjectText ms' s)
    (forms : ∀ m ∈ ms, IsMember m) (forms' : ∀ m ∈ ms', IsMember m) : ms = ms' := by
  cases h with
  | close blank =>
    generalize text : _ ++ [(0x7d : UInt8)] = u at h'
    cases h' with
    | close => rfl
    | first blank' here' => exact absurd text (here'.ne_brace blank blank')
  | @first b t s m ms blank here rest =>
    generalize text : b ++ (t ++ s) = u at h'
    cases h' with
    | close blank' => exact absurd text.symm (here.ne_brace blank' blank)
    | @first b' t' s' m' ms' blank' here' rest' =>
      have stop : EndsNumber s := by simpa using rest.endsNumber (.inr rfl) []
      have stop' : EndsNumber s' := by simpa using rest'.endsNumber (.inr rfl) []
      obtain ⟨rfl, rfl⟩ := here.append_inj here' (forms m (by simp)) (forms' m' (by simp)) blank
        blank' stop stop' text
      rw [rest.members_unique rest' (fun n hn => forms n (by simp [hn])) fun n hn =>
        forms' n (by simp [hn])]

/-- The names and values of an object's members, in their order, are those of its text alone. -/
theorem NamedObject.unique {names names' : List (String × Bytes)} (h : NamedObject names s)
    (h' : NamedObject names' s) (values : ∀ m ∈ names, IsValue m.2)
    (values' : ∀ m ∈ names', IsValue m.2) : names = names' := by
  obtain ⟨raws, object, named⟩ := h
  obtain ⟨raws', object', named'⟩ := h'
  obtain rfl := object.unique object'
    (fun m hm => ⟨Named.stringForm named m hm, Named.isValue named values m hm⟩)
    fun m hm => ⟨Named.stringForm named' m hm, Named.isValue named' values' m hm⟩
  exact Named.unique named named'

end AlertLedger.Json
