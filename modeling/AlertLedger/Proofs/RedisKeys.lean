import AlertLedger.RedisStore

namespace AlertLedger

namespace GlobPart

/-- A character without a meaning of its own in patterns stands for itself, and so does a backslash
with nothing behind it. -/
theorem ofPattern_self {c : Char} {p : List Char} (plain : c ∉ ['*', '?', '['])
    (last : c = '\\' → p = []) : ofPattern (c :: p) = literal c :: ofPattern p := by
  simp only [List.mem_cons, List.not_mem_nil, or_false, not_or] at plain
  obtain ⟨star, one, bracket⟩ := plain
  rw [ofPattern.eq_def]
  split <;> simp_all

theorem ofPattern_quoted (c : Char) (cs : List Char) :
    ofPattern ('\\' :: c :: cs) = literal c :: ofPattern cs := by
  rw [ofPattern]

theorem ofPattern_escaped (cs back : List Char) :
    ofPattern (escapedForGlob cs ++ back) = cs.map literal ++ ofPattern back := by
  induction cs with
  | nil => rfl
  | cons c cs ih =>
    by_cases special : c ∈ ['*', '?', '[', ']', '\\']
    · have escaped : escapedForGlob (c :: cs) = '\\' :: c :: escapedForGlob cs := by
        simp only [escapedForGlob, List.flatMap_cons, if_pos special]
        rfl
      rw [escaped, List.cons_append, List.cons_append, ofPattern_quoted, ih]
      rfl
    · have escaped : escapedForGlob (c :: cs) = c :: escapedForGlob cs := by
        simp only [escapedForGlob, List.flatMap_cons, if_neg special]
        rfl
      simp only [List.mem_cons, List.not_mem_nil, or_false, not_or] at special
      obtain ⟨star, one, bracket, _, backslash⟩ := special
      rw [escaped, List.cons_append, ofPattern_self (by simp [star, one, bracket])
        fun quote => absurd quote backslash, ih]
      rfl

end GlobPart

theorem globMatches_literals {cs : List Char} {parts : List GlobPart} {text : List Char} :
    globMatches (cs.map .literal ++ parts) text ↔
      ∃ rest, text = cs ++ rest ∧ globMatches parts rest := by
  induction cs generalizing text with
  | nil => simp
  | cons c cs ih =>
    cases text with
    | nil => simp [globMatches]
    | cons d ds =>
      have step : globMatches ((c :: cs).map .literal ++ parts) (d :: ds) =
          (decide (d = c) && globMatches (cs.map .literal ++ parts) ds) := by
        simp [globMatches, GlobPart.accepts]
      rw [step, Bool.and_eq_true, decide_eq_true_iff, ih]
      constructor
      · rintro ⟨rfl, rest, rfl, h⟩
        exact ⟨rest, rfl, h⟩
      · rintro ⟨rest, split, h⟩
        obtain ⟨rfl, rfl⟩ := List.cons.inj split
        exact ⟨rfl, rest, rfl, h⟩

theorem globMatches_run (text : List Char) : globMatches [.run] text = true := by
  rw [globMatches, anyTail_iff]
  exact ⟨text, [], by simp, rfl⟩

/-- An escaped text with a run behind it matches what starts with this text, and nothing else. -/
theorem globMatches_escaped_run {cs text : List Char} :
    globMatches (GlobPart.ofPattern (escapedForGlob cs ++ ['*'])) text ↔ cs <+: text := by
  have star : GlobPart.ofPattern ['*'] = [.run] := by rw [GlobPart.ofPattern, GlobPart.ofPattern]
  rw [GlobPart.ofPattern_escaped, star, globMatches_literals]
  constructor
  · rintro ⟨rest, rfl, _⟩
    exact ⟨rest, rfl⟩
  · rintro ⟨rest, rfl⟩
    exact ⟨rest, rfl, globMatches_run rest⟩

namespace RedisStore

variable {r : RedisStore} {hash key start : String}

theorem rest?_eq_some_iff {front cs rest : List Char} :
    rest? front cs = some rest ↔ cs = front ++ rest := by
  induction front generalizing cs with
  | nil => simp [rest?]
  | cons a front ih =>
    cases cs with
    | nil => simp [rest?]
    | cons c cs =>
      by_cases h : a = c
      · simp [rest?, h, ih]
      · simp [rest?, h, Ne.symm h]

/-- The keys of the space are those of its hashes. -/
theorem hash?_eq_some_iff : r.hash? key = some hash ↔ key = r.key hash := by
  obtain ⟨space⟩ := r
  cases space with
  | none => simp [hash?, RedisStore.key]
  | some space =>
    simp only [hash?, RedisStore.key, Option.map_eq_some_iff, rest?_eq_some_iff]
    constructor
    · rintro ⟨rest, split, rfl⟩
      apply String.toList_inj.mp
      simp [split]
    · rintro rfl
      exact ⟨hash.toList, by simp, by simp⟩

@[simp] theorem hash?_key (r : RedisStore) (hash : String) : r.hash? (r.key hash) = some hash :=
  hash?_eq_some_iff.mpr rfl

theorem key_inj {other : String} : r.key hash = r.key other ↔ hash = other := by
  constructor
  · intro h
    have same := congrArg r.hash? h
    rw [hash?_key, hash?_key] at same
    exact Option.some.inj same
  · rintro rfl
    rfl

/-- What the keys of the space start with. -/
def front (r : RedisStore) : List Char :=
  match r.space with
  | some space => space.toList ++ [':']
  | none => []

theorem toList_key (r : RedisStore) (hash : String) :
    (r.key hash).toList = r.front ++ hash.toList := by
  obtain ⟨space⟩ := r
  cases space with
  | none => rfl
  | some space => simp [RedisStore.key, front]

theorem key_prefix_key_iff : (r.key start).toList <+: (r.key hash).toList ↔
    start.toList <+: hash.toList := by
  rw [toList_key, toList_key, List.prefix_append_right_inj]

theorem matches_startPattern_iff :
    matchesGlob (r.startPattern start) key ↔ (r.key start).toList <+: key.toList := by
  rw [matchesGlob, startPattern, String.toList_ofList]
  exact globMatches_escaped_run

/-- What starts as the keys of some hashes do is the key of such a hash. -/
theorem key_prefix_iff : (r.key start).toList <+: key.toList ↔
    ∃ hash, start.toList <+: hash.toList ∧ key = r.key hash := by
  constructor
  · rintro ⟨rest, split⟩
    refine ⟨start ++ .ofList rest, ⟨rest, by simp⟩, ?_⟩
    rw [← String.toList_inj, ← split, toList_key, toList_key]
    simp
  · rintro ⟨hash, front, rfl⟩
    exact key_prefix_key_iff.mpr front

end RedisStore

end AlertLedger
