import AlertLedger.Proofs.NumberTexts
import AlertLedger.Proofs.RecordLayout

namespace AlertLedger.Json

/-- Where a character of a JSON text stands. -/
inductive Place
  | outside
  | inside
  | escaped
deriving DecidableEq

/-- The place behind a character. -/
def Place.next (c : Char) : Place → Place
  | .outside => if c = '"' then .inside else .outside
  | .inside => if c = '"' then .outside else if c = '\\' then .escaped else .inside
  | .escaped => .inside

/-- The characters of a text that stand outside its strings, without the quotes. -/
def outsideStrings : Place → List Char → List Char
  | _, [] => []
  | place, c :: r =>
    if place = .outside ∧ c ≠ '"' then c :: outsideStrings (place.next c) r
    else outsideStrings (place.next c) r

section Strings

variable {r : List Char}

theorem outsideStrings_inside {c : Char} (quote : c ≠ '"') (backslash : c ≠ '\\') (r : List Char) :
    outsideStrings .inside (c :: r) = outsideStrings .inside r := by
  simp [outsideStrings, Place.next, quote, backslash]

theorem outsideStrings_escape (c : Char) (r : List Char) :
    outsideStrings .inside ('\\' :: c :: r) = outsideStrings .inside r := by
  simp [outsideStrings, Place.next]

theorem digitChar_inside : ∀ d < 16, Nat.digitChar d ≠ '"' ∧ Nat.digitChar d ≠ '\\' := by decide

/-- A character that is written in a string does not end it. -/
theorem outsideStrings_textChar (c : Char) (r : List Char) :
    outsideStrings .inside (textChar c ++ r) = outsideStrings .inside r := by
  unfold textChar
  split_ifs with quote backslash _ _ _ _ _ low
  all_goals try exact outsideStrings_escape _ r
  · obtain ⟨quote₁, backslash₁⟩ := digitChar_inside (c.toNat / 16) (by omega)
    obtain ⟨quote₂, backslash₂⟩ := digitChar_inside (c.toNat % 16) (by omega)
    simp only [List.cons_append, List.nil_append]
    rw [outsideStrings_escape, outsideStrings_inside (by decide) (by decide),
      outsideStrings_inside (by decide) (by decide), outsideStrings_inside quote₁ backslash₁,
      outsideStrings_inside quote₂ backslash₂]
  · exact outsideStrings_inside quote backslash r

theorem outsideStrings_flatMap_textChar (cs r : List Char) :
    outsideStrings .inside (cs.flatMap textChar ++ r) = outsideStrings .inside r := by
  induction cs with
  | nil => rfl
  | cons c cs ih => rw [List.flatMap_cons, List.append_assoc, outsideStrings_textChar, ih]

theorem outsideStrings_textChars (s : String) (r : List Char) :
    outsideStrings .outside (textChars s ++ r) = outsideStrings .outside r := by
  have opened (t : List Char) : outsideStrings .outside ('"' :: t) = outsideStrings .inside t := by
    simp [outsideStrings, Place.next]
  have closed : outsideStrings .inside ('"' :: r) = outsideStrings .outside r := by
    simp [outsideStrings, Place.next]
  rw [textChars, List.cons_append, List.cons_append, opened, List.append_assoc,
    outsideStrings_flatMap_textChar, List.singleton_append, closed]

end Strings

/-- Outside its strings a text has none of the letters that start a word, whatever follows it. -/
def Wordless (cs : List Char) : Prop :=
  ∃ out, 'n' ∉ out ∧
    ∀ r, outsideStrings .outside (cs ++ r) = out ++ outsideStrings .outside r

namespace Wordless

variable {cs ds : List Char} {c : Char}

theorem nil : Wordless [] := ⟨[], by simp, fun _ => rfl⟩

theorem append (h : Wordless cs) (h' : Wordless ds) : Wordless (cs ++ ds) := by
  obtain ⟨out, none, outside⟩ := h
  obtain ⟨out', none', outside'⟩ := h'
  refine ⟨out ++ out', ?_, fun r => ?_⟩
  · simp [none, none']
  · rw [List.append_assoc, outside, outside', List.append_assoc]

theorem cons (quote : c ≠ '"') (letter : c ≠ 'n') (h : Wordless cs) : Wordless (c :: cs) := by
  obtain ⟨out, none, outside⟩ := h
  refine ⟨c :: out, ?_, fun r => ?_⟩
  · simp [none, letter.symm]
  · simp [outsideStrings, Place.next, quote, outside]

theorem of_forall (h : ∀ c ∈ cs, c ≠ '"' ∧ c ≠ 'n') : Wordless cs := by
  induction cs with
  | nil => exact nil
  | cons c cs ih =>
    obtain ⟨⟨quote, letter⟩, rest⟩ := List.forall_mem_cons.mp h
    exact cons quote letter (ih rest)

theorem textChars (s : String) : Wordless (textChars s) :=
  ⟨[], by simp, outsideStrings_textChars s⟩

theorem of_isDigit (h : ∀ c ∈ cs, c.isDigit = true) : Wordless cs := by
  refine of_forall fun c hc => ?_
  have digit := h c hc
  constructor <;> rintro rfl <;> simp at digit

theorem digits (n : Nat) : Wordless (Nat.toDigits 10 n) := of_isDigit isDigit_toDigits

theorem flatMap {f : α → List Char} {as : List α} (h : ∀ a ∈ as, Wordless (f a)) :
    Wordless (as.flatMap f) := by
  induction as with
  | nil => exact nil
  | cons a as ih =>
    obtain ⟨first, rest⟩ := List.forall_mem_cons.mp h
    rw [List.flatMap_cons]
    exact first.append (ih rest)

theorem commaSeparated {items : List (List Char)} (h : ∀ cs ∈ items, Wordless cs) :
    Wordless (commaSeparated items) := by
  cases items with
  | nil => exact nil
  | cons cs items =>
    obtain ⟨first, rest⟩ := List.forall_mem_cons.mp h
    rw [commaSeparated_cons]
    exact first.append (flatMap fun ds hd => cons (by decide) (by decide) (rest ds hd))

theorem recordChars {S : RecordShape α} {a : α} (h : ∀ f, Wordless (S.write f (S.get a f))) :
    Wordless (recordChars S a) := by
  have members : Wordless (Json.commaSeparated (S.fields.map fun f =>
      Json.textChars (S.label f) ++ ':' :: S.write f (S.get a f))) := by
    refine commaSeparated fun cs hcs => ?_
    obtain ⟨f, _, rfl⟩ := List.mem_map.mp hcs
    exact (textChars _).append (cons (by decide) (by decide) (h f))
  exact cons (by decide) (by decide) (members.append (cons (by decide) (by decide) nil))

theorem listChars {item : α → List Char} {as : List α} (h : ∀ a ∈ as, Wordless (item a)) :
    Wordless (listChars item as) := by
  have items : Wordless (Json.commaSeparated (as.map item)) :=
    commaSeparated fun cs hcs => by
      obtain ⟨a, ha, rfl⟩ := List.mem_map.mp hcs
      exact h a ha
  exact cons (by decide) (by decide) (items.append (cons (by decide) (by decide) nil))

theorem positionalChars (d : Decimal) : Wordless d.positionalChars := by
  have digit := digitChars_digit d
  unfold Decimal.positionalChars
  dsimp only
  split
  · exact (of_isDigit digit).append (of_isDigit isDigit_replicate_zero)
  split
  · refine (of_isDigit fun c hc => digit c (List.mem_of_mem_take hc)).append ?_
    exact cons (by decide) (by decide) (of_isDigit fun c hc => digit c (List.mem_of_mem_drop hc))
  · refine cons (by decide) (by decide) (cons (by decide) (by decide) ?_)
    exact (of_isDigit isDigit_replicate_zero).append (of_isDigit digit)

theorem scientificChars (d : Decimal) : Wordless d.scientificChars := by
  have exponent : Wordless ('e' :: (if d.leadingExponent < 0 then '-' else '+') ::
      Nat.toDigits 10 d.leadingExponent.natAbs) := by
    refine cons (by decide) (by decide) ?_
    split <;> exact cons (by decide) (by decide) (digits _)
  have digit := digitChars_digit d
  unfold Decimal.scientificChars
  refine Wordless.append ?_ exponent
  split
  next c c' cs hc =>
    rw [hc] at digit
    obtain ⟨first, rest⟩ := List.forall_mem_cons.mp digit
    have front : Wordless [c] := of_isDigit (by simpa using first)
    exact front.append (cons (by decide) (by decide) (of_isDigit rest))
  next => exact of_isDigit digit

/-- The text of a finite double is made of digits, signs, a point and the mark of an exponent. -/
theorem realChars {x : Binary64} (h : x.isFinite = true) : Wordless (realChars x) := by
  cases x with
  | nan => cases h
  | infinity s => cases h
  | finite s m =>
    have magnitude : Wordless (jsonNumberStyle.magnitudeChars m) := by
      unfold NumberStyle.magnitudeChars
      dsimp only
      split
      · refine (positionalChars _).append ?_
        split
        · exact cons (by decide) (by decide) (cons (by decide) (by decide) nil)
        · exact nil
      · exact scientificChars _
    refine Wordless.append ?_ magnitude
    cases s
    · exact nil
    · exact cons (by decide) (by decide) nil

/-- Such a text has no null, except as characters of its strings. -/
theorem not_null (h : Wordless cs) : ¬ "null".toList <:+: outsideStrings .outside cs := by
  obtain ⟨out, none, outside⟩ := h
  have whole := outside []
  rw [List.append_nil] at whole
  rw [whole]
  intro null
  have letter := null.subset (a := 'n') (by decide)
  simp [outsideStrings, none] at letter

end Wordless

end AlertLedger.Json
