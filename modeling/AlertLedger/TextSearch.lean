namespace AlertLedger

/-- The text itself or what is left of it behind some of its first characters. -/
def anyTail (p : List Char → Bool) : List Char → Bool
  | [] => p []
  | c :: cs => p (c :: cs) || anyTail p cs

theorem anyTail_iff {p : List Char → Bool} {cs : List Char} :
    anyTail p cs ↔ ∃ front back, cs = front ++ back ∧ p back := by
  induction cs with
  | nil => simp [anyTail, and_assoc]
  | cons c cs ih =>
    simp only [anyTail, Bool.or_eq_true, ih]
    constructor
    · rintro (h | ⟨front, back, rfl, h⟩)
      · exact ⟨[], c :: cs, rfl, h⟩
      · exact ⟨c :: front, back, rfl, h⟩
    · rintro ⟨_ | ⟨d, front⟩, back, hcs, h⟩
      · subst hcs
        exact .inl h
      · obtain ⟨rfl, rfl⟩ := List.cons.inj hcs
        exact .inr ⟨front, back, rfl, h⟩

def containsText (part whole : List Char) : Bool := anyTail part.isPrefixOf whole

theorem containsText_iff {part whole : List Char} :
    containsText part whole ↔ part <:+: whole := by
  simp only [containsText, anyTail_iff, List.isPrefixOf_iff_prefix]
  constructor
  · rintro ⟨front, back, rfl, rest, rfl⟩
    exact ⟨front, rest, by simp⟩
  · rintro ⟨front, rest, rfl⟩
    exact ⟨front, part ++ rest, by simp, rest, rfl⟩

end AlertLedger
