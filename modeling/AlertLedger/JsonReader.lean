import AlertLedger.JsonFault

namespace AlertLedger

/-- Takes what it wants from the front of a text and gives back the rest, which is never longer
than the text. -/
structure Reader (α : Type) where
  run : Bytes → Except Fault (α × Bytes)
  shrinks : ∀ {s : Bytes} {a : α} {r : Bytes}, run s = .ok (a, r) → r.length ≤ s.length

namespace Json

def isBlank (c : UInt8) : Bool := c == 0x20 || c == 0x0a || c == 0x09 || c == 0x0d

def skipBlank (s : Bytes) : Bytes := s.dropWhile isBlank

theorem length_skipBlank (s : Bytes) : (skipBlank s).length ≤ s.length :=
  (List.dropWhile_sublist isBlank).length_le

def isDigit (c : UInt8) : Bool := 0x30 ≤ c && c ≤ 0x39

def ascii (s : String) : Bytes := s.toList.map fun c => c.toNat.toUInt8

/-- Reads the letters of `word`, one after the other. -/
def readWord : (word : Bytes) → Bytes → Except Fault Bytes
  | [], s => .ok s
  | _ :: _, [] => .error (.behind .valueMissing [])
  | c :: cs, d :: ds => if c = d then readWord cs ds else .error (.behind .wordMisspelt ds)

theorem length_readWord {word s r : Bytes} (h : readWord word s = .ok r) :
    r.length ≤ s.length := by
  induction word generalizing s with
  | nil => cases h; exact Nat.le_refl _
  | cons c cs ih =>
    cases s with
    | nil => simp [readWord] at h
    | cons d ds =>
      simp only [readWord] at h
      split at h
      · exact Nat.le_succ_of_le (ih h)
      · simp at h

def readColon (s : Bytes) : Except Fault Bytes :=
  match skipBlank s with
  | [] => .error (.ahead .objectNotClosed [])
  | c :: r => if c = 0x3a then .ok r else .error (.ahead .colonWanted (c :: r))

theorem length_readColon {s r : Bytes} (h : readColon s = .ok r) : r.length < s.length := by
  have hb := length_skipBlank s
  unfold readColon at h
  split at h
  · simp at h
  next c t ht =>
    split at h
    · cases h; rw [ht, List.length_cons] at hb; omega
    · simp at h

end Json

end AlertLedger
