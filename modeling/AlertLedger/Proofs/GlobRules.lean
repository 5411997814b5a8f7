import AlertLedger.Proofs.RedisKeys

namespace AlertLedger

/-- The characters from one to another, whichever of the two is written first. -/
def InRange (r : Char × Char) (c : Char) : Prop := r.1 ≤ c ∧ c ≤ r.2 ∨ r.2 ≤ c ∧ c ≤ r.1

/-- What stands behind an opening bracket: these ranges, and the pattern that goes on behind the
closing bracket. A class that is not closed ends with the pattern. -/
inductive ClassText : List (Char × Char) → (items rest : List Char) → Prop
  | close {rest : List Char} : ClassText [] (']' :: rest) rest
  | unclosed : ClassText [] [] []
  | quoted {c : Char} {ranges : List (Char × Char)} {items rest : List Char}
      (more : ClassText ranges items rest) : ClassText ((c, c) :: ranges) ('\\' :: c :: items) rest
  | range {a b : Char} {ranges : List (Char × Char)} {items rest : List Char}
      (bare : a ≠ '\\' ∧ a ≠ ']') (more : ClassText ranges items rest) :
      ClassText ((a, b) :: ranges) (a :: '-' :: b :: items) rest
  | self {c : Char} {ranges : List (Char × Char)} {items rest : List Char}
      (bare : c ≠ ']' ∧ (c = '\\' → items = [])) (alone : ∀ b more, items ≠ '-' :: b :: more)
      (more : ClassText ranges items rest) : ClassText ((c, c) :: ranges) (c :: items) rest

/-- The rules of patterns. -/
inductive Globs : (pattern text : List Char) → Prop
  | nil : Globs [] []
  | run {p front back : List Char} (rest : Globs p back) : Globs ('*' :: p) (front ++ back)
  | one {p cs : List Char} {c : Char} (rest : Globs p cs) : Globs ('?' :: p) (c :: cs)
  | inClass {items p cs : List Char} {ranges : List (Char × Char)} {c : Char}
      (form : ClassText ranges items p) (bare : ∀ more, items ≠ '^' :: more)
      (here : ∃ r ∈ ranges, InRange r c) (rest : Globs p cs) : Globs ('[' :: items) (c :: cs)
  | outOfClass {items p cs : List Char} {ranges : List (Char × Char)} {c : Char}
      (form : ClassText ranges items p) (here : ¬ ∃ r ∈ ranges, InRange r c) (rest : Globs p cs) :
      Globs ('[' :: '^' :: items) (c :: cs)
  | quoted {p cs : List Char} {c : Char} (rest : Globs p cs) : Globs ('\\' :: c :: p) (c :: cs)
  | self {p cs : List Char} {c : Char} (plain : c ∉ ['*', '?', '[']) (last : c = '\\' → p = [])
      (rest : Globs p cs) : Globs (c :: p) (c :: cs)

namespace GlobPart

variable {part : GlobPart} {parts : List GlobPart} {c : Char} {cs p items rest : List Char}
  {outside : Bool} {ranges done : List (Char × Char)}

theorem accepts_range_iff : (range outside ranges).accepts c = true ↔
    ((∃ r ∈ ranges, InRange r c) ↔ outside = false) := by
  have inRange : (ranges.any fun r => (r.1 ≤ c && c ≤ r.2) || (r.2 ≤ c && c ≤ r.1)) = true ↔
      ∃ r ∈ ranges, InRange r c := by
    simp [InRange]
  rw [accepts, ← inRange]
  cases outside <;> simp

theorem globMatches_cons_iff (single : part ≠ run) : globMatches (part :: parts) cs = true ↔
    ∃ c rest, cs = c :: rest ∧ part.accepts c = true ∧ globMatches parts rest = true := by
  cases cs with
  | nil => cases part <;> simp_all [globMatches]
  | cons d ds =>
    have step : globMatches (part :: parts) (d :: ds) =
        (part.accepts d && globMatches parts ds) := by
      cases part with
      | run => exact absurd rfl single
      | one | range | literal => rfl
    rw [step, Bool.and_eq_true]
    constructor
    · rintro ⟨accepted, rest⟩
      exact ⟨d, ds, rfl, accepted, rest⟩
    · rintro ⟨c, rest, same, accepted, matched⟩
      obtain ⟨rfl, rfl⟩ := List.cons.inj same
      exact ⟨accepted, matched⟩

/-- The ranges of a class are gathered the last one first. -/
theorem ofRanges_of_classText (h : ClassText ranges items rest) (outside : Bool)
    (done : List (Char × Char)) :
    ofRanges outside done items = range outside (ranges.reverse ++ done) :: ofPattern rest := by
  induction h generalizing done with
  | close => rw [ofRanges]; rfl
  | unclosed => rw [ofRanges, ofPattern]; rfl
  | quoted more ih =>
    rw [ofRanges, ih]
    simp
  | range bare more ih =>
    rw [ofRanges, ih]
    · simp
    · exact bare.1
    · exact bare.2
  | self bare alone more ih =>
    rw [ofRanges, ih]
    · simp
    · intro d more backslash next
      cases (bare.2 backslash).symm.trans next
    · exact bare.1
    · exact alone

theorem globMatches_of_globs (h : Globs p cs) : globMatches (ofPattern p) cs = true := by
  induction h with
  | nil =>
    rw [ofPattern]
    rfl
  | @run p front back _ ih =>
    rw [ofPattern, globMatches, anyTail_iff]
    exact ⟨front, back, rfl, ih⟩
  | one _ ih =>
    rw [ofPattern, globMatches_cons_iff (by simp)]
    exact ⟨_, _, rfl, rfl, ih⟩
  | inClass form bare here _ ih =>
    have parts := ofRanges_of_classText form false []
    rw [ofPattern, parts, globMatches_cons_iff (by simp)]
    · refine ⟨_, _, rfl, ?_, ih⟩
      simpa [accepts_range_iff] using here
    · exact bare
  | outOfClass form here _ ih =>
    have parts := ofRanges_of_classText form true []
    rw [ofPattern, parts, globMatches_cons_iff (by simp)]
    refine ⟨_, _, rfl, ?_, ih⟩
    simpa [accepts_range_iff] using here
  | quoted _ ih =>
    rw [ofPattern_quoted, globMatches_cons_iff (by simp)]
    exact ⟨_, _, rfl, by simp [accepts], ih⟩
  | self plain last _ ih =>
    rw [ofPattern_self plain last, globMatches_cons_iff (by simp)]
    exact ⟨_, _, rfl, by simp [accepts], ih⟩

theorem globs_of_globMatches_nil (h : globMatches (ofPattern []) cs = true) :
    Globs [] cs := by
  rw [ofPattern, globMatches, List.isEmpty_iff] at h
  rw [h]
  exact .nil

/-- What is matched follows the rules. The induction is over the reading of the pattern; in a class
it carries the pattern behind it. -/
theorem globs_of_globMatches (h : globMatches (ofPattern p) cs = true) : Globs p cs := by
  induction p using ofPattern.induct (motive_2 := fun _ _ items => ∃ ranges rest,
    ClassText ranges items rest ∧
      ∀ cs, globMatches (ofPattern rest) cs = true → Globs rest cs) generalizing cs with
  | case1 => exact globs_of_globMatches_nil h
  | case2 p ih =>
    rw [ofPattern, globMatches, anyTail_iff] at h
    obtain ⟨front, back, rfl, matched⟩ := h
    exact .run (ih matched)
  | case3 p ih =>
    rw [ofPattern, globMatches_cons_iff (by simp)] at h
    obtain ⟨c, rest, rfl, _, matched⟩ := h
    exact .one (ih matched)
  | case4 items ih =>
    obtain ⟨ranges, p, form, ih⟩ := ih
    rw [ofPattern, ofRanges_of_classText form, globMatches_cons_iff (by simp)] at h
    obtain ⟨c, rest, rfl, accepted, matched⟩ := h
    refine .outOfClass form ?_ (ih rest matched)
    simpa [accepts_range_iff] using accepted
  | case5 items bare ih =>
    obtain ⟨ranges, p, form, ih⟩ := ih
    rw [ofPattern, ofRanges_of_classText form, globMatches_cons_iff (by simp)] at h
    · obtain ⟨c, rest, rfl, accepted, matched⟩ := h
      refine .inClass form bare ?_ (ih rest matched)
      simpa [accepts_range_iff] using accepted
    · exact bare
  | case6 c p ih =>
    rw [ofPattern_quoted, globMatches_cons_iff (by simp)] at h
    obtain ⟨d, rest, rfl, accepted, matched⟩ := h
    rw [accepts, decide_eq_true_iff] at accepted
    rw [accepted]
    exact .quoted (ih matched)
  | case7 c p star one _ bracket last ih =>
    have plain : c ∉ ['*', '?', '['] := by
      simp only [List.mem_cons, List.not_mem_nil, or_false, not_or]
      exact ⟨star, one, bracket⟩
    have last : c = '\\' → p = [] := by
      intro backslash
      cases p with
      | nil => rfl
      | cons d p => exact (last d p backslash rfl).elim
    rw [ofPattern_self plain last, globMatches_cons_iff (by simp)] at h
    obtain ⟨d, rest, rfl, accepted, matched⟩ := h
    rw [accepts, decide_eq_true_iff] at accepted
    rw [accepted]
    exact .self plain last (ih matched)
  | case8 => exact ⟨[], [], .unclosed, fun _ => globs_of_globMatches_nil⟩
  | case9 _ _ c items ih =>
    obtain ⟨ranges, rest, form, ih⟩ := ih
    exact ⟨_, rest, .quoted form, ih⟩
  | case10 _ _ p ih => exact ⟨[], p, .close, fun _ => ih⟩
  | case11 _ _ a b items backslash bracket ih =>
    obtain ⟨ranges, rest, form, ih⟩ := ih
    exact ⟨_, rest, .range ⟨backslash, bracket⟩ form, ih⟩
  | case12 _ _ c items backslash bracket alone ih =>
    obtain ⟨ranges, rest, form, ih⟩ := ih
    have last : c = '\\' → items = [] := by
      intro quote
      cases items with
      | nil => rfl
      | cons d items => exact (backslash d items quote rfl).elim
    exact ⟨_, rest, .self ⟨bracket, last⟩ alone form, ih⟩

end GlobPart

/-- The server's matching follows the rules of patterns. -/
theorem matchesGlob_iff {pattern text : String} :
    matchesGlob pattern text = true ↔ Globs pattern.toList text.toList :=
  ⟨GlobPart.globs_of_globMatches, GlobPart.globMatches_of_globs⟩

/-- The pattern for a start means exactly this start. By the rules of patterns, which the server's
matching follows, it matches the keys that start as those of the space do, whatever characters the
space and the start have. -/
theorem start_pattern_means_start :
    (∀ pattern text : String,
      matchesGlob pattern text = true ↔ Globs pattern.toList text.toList) ∧
    ∀ (r : RedisStore) (start key : String),
      Globs (r.startPattern start).toList key.toList ↔ (r.key start).toList <+: key.toList := by
  refine ⟨fun _ _ => matchesGlob_iff, fun r start key => ?_⟩
  rw [← matchesGlob_iff, RedisStore.matches_startPattern_iff]

/-- A space with the characters of patterns in it. -/
example :
    matchesGlob ((RedisStore.mk (some "ns*[1]?\\")).startPattern "hash_") "ns*[1]?\\:hash_p1" ∧
      ¬ matchesGlob ((RedisStore.mk (some "ns*[1]?\\")).startPattern "hash_") "nsx1y:hash_p1" := by
  decide +kernel

end AlertLedger
