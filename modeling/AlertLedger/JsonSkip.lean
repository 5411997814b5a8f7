import AlertLedger.JsonText
import AlertLedger.JsonNumber

namespace AlertLedger.Json

/-- A list or an object that is open around the place of reading. -/
inductive Enclosing
  | list
  | object
deriving DecidableEq

/-- A word, a number or a string that is not wanted. Nothing where a list or an object starts. -/
def skipScalar? (s : Bytes) : Option (Except Fault Bytes) :=
  match s with
  | [] => some (.error (.ahead .valueMissing []))
  | c :: r =>
    if c = 0x6e then some (readWord (ascii "ull") r)
    else if c = 0x74 then some (readWord (ascii "rue") r)
    else if c = 0x66 then some (readWord (ascii "alse") r)
    else if c = 0x2d then some ((scanNumber .invalidNumber r).map (·.2))
    else if isDigit c then some ((scanNumber .invalidNumber s).map (·.2))
    else if c = 0x22 then some (skipContents r)
    else if c = 0x5b || c = 0x7b then none
    else some (.error (.ahead .valueWanted s))

/-- A key of an object that is not wanted, with its colon. -/
def skipKey (s : Bytes) : Except Fault Bytes :=
  match skipBlank s with
  | [] => .error (.ahead .objectNotClosed [])
  | c :: r =>
    if c = 0x22 then
      match skipContents r with
      | .error f => .error f
      | .ok r => readColon r
    else .error (.ahead .keyNotText (c :: r))

theorem length_skipScalar? {s r : Bytes} (h : skipScalar? s = some (.ok r)) :
    r.length < s.length := by
  have hmap {t : Bytes} (hn : (scanNumber .invalidNumber t).map (·.2) = .ok r) :
      r.length < t.length := by
    cases hx : scanNumber .invalidNumber t with
    | error f => simp [hx, Except.map] at hn
    | ok p =>
      obtain ⟨n, q⟩ := p
      simp only [hx, Except.map, Except.ok.injEq] at hn
      subst hn
      exact length_scanNumber hx
  unfold skipScalar? at h
  split at h
  · simp at h
  next c t =>
    simp only [List.length_cons]
    repeat' split at h
    all_goals simp only [Option.some.injEq, reduceCtorEq] at h
    · have := length_readWord h; omega
    · have := length_readWord h; omega
    · have := length_readWord h; omega
    · have := hmap h; omega
    · have := hmap h; simp only [List.length_cons] at this; omega
    · have := length_skipContents h; omega

theorem length_skipKey {s r : Bytes} (h : skipKey s = .ok r) : r.length < s.length := by
  have hb := length_skipBlank s
  unfold skipKey at h
  split at h
  · simp at h
  next c t ht =>
    rw [ht, List.length_cons] at hb
    split at h
    · split at h
      · simp at h
      next hc =>
        have := length_skipContents hc
        have := length_readColon h
        omega
    · simp at h

mutual

/-- A value that is not wanted, inside the lists and objects of `around`, and what is left of
these. Nothing limits how deep they are. -/
def skipValue (around : List Enclosing) (s : Bytes) : Except Fault Bytes :=
  match hs : skipScalar? (skipBlank s) with
  | some (.error f) => .error f
  | some (.ok r) =>
    have := length_skipScalar? hs
    have := length_skipBlank s
    skipAfter around r
  | none =>
    match hb : skipBlank s with
    | [] => .error (.ahead .valueMissing [])
    | c :: r =>
      have hl : r.length < s.length := by
        have := length_skipBlank s
        rw [hb, List.length_cons] at this; omega
      match ht : skipBlank r with
      | [] => .error (.ahead (if c = 0x5b then .listNotClosed else .objectNotClosed) [])
      | d :: t =>
        have : t.length + 1 ≤ r.length := by
          have := length_skipBlank r
          rwa [ht, List.length_cons] at this
        if c = 0x5b then
          if d = 0x5d then skipAfter around t else skipValue (.list :: around) (d :: t)
        else if d = 0x7d then skipAfter around t
        else
          match hk : skipKey (d :: t) with
          | .error f => .error f
          | .ok k =>
            have : k.length < t.length + 1 := length_skipKey hk
            skipValue (.object :: around) k
termination_by s.length
decreasing_by all_goals (try simp only [List.length_cons]); omega

/-- What is left of the lists and objects of `around` after one of their values. -/
def skipAfter (around : List Enclosing) (s : Bytes) : Except Fault Bytes :=
  match around with
  | [] => .ok s
  | e :: outer =>
    match hb : skipBlank s with
    | [] => .error (.ahead (if e = .list then .listNotClosed else .objectNotClosed) [])
    | c :: r =>
      have hl : r.length < s.length := by
        have := length_skipBlank s
        rw [hb, List.length_cons] at this; omega
      match e with
      | .list =>
        if c = 0x2c then skipValue (.list :: outer) r
        else if c = 0x5d then skipAfter outer r
        else .error (.ahead .listCommaWanted (c :: r))
      | .object =>
        if c = 0x2c then
          match hk : skipKey r with
          | .error f => .error f
          | .ok k =>
            have := length_skipKey hk
            skipValue (.object :: outer) k
        else if c = 0x7d then skipAfter outer r
        else .error (.ahead .objectCommaWanted (c :: r))
termination_by s.length
decreasing_by all_goals omega

end

theorem length_skipValue_skipAfter :
    (∀ around s, ∀ r, skipValue around s = .ok r → r.length ≤ s.length) ∧
    (∀ around s, ∀ r, skipAfter around s = .ok r → r.length ≤ s.length) := by
  apply skipValue.mutual_induct <;> grind [skipValue, skipAfter]

end AlertLedger.Json
