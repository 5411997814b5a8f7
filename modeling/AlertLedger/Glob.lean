import AlertLedger.TextSearch

namespace AlertLedger

inductive GlobPart
  /-- any characters, or none -/
  | run
  | one
  /-- a character of one of these ranges, or of none of them -/
  | range (outside : Bool) (ranges : List (Char × Char))
  | literal (c : Char)
deriving DecidableEq

namespace GlobPart

def accepts : GlobPart → Char → Bool
  | run, _ => false
  | one, _ => true
  | range outside ranges, c =>
    (ranges.any fun r => (r.1 ≤ c && c ≤ r.2) || (r.2 ≤ c && c ≤ r.1)) != outside
  | literal d, c => c = d

mutual

/-- The parts of a pattern. A backslash makes the next character literal. -/
def ofPattern : List Char → List GlobPart
  | [] => []
  | '*' :: cs => run :: ofPattern cs
  | '?' :: cs => one :: ofPattern cs
  | '[' :: '^' :: cs => ofRanges true [] cs
  | '[' :: cs => ofRanges false [] cs
  | '\\' :: c :: cs => literal c :: ofPattern cs
  | c :: cs => literal c :: ofPattern cs

/-- The parts of a pattern inside brackets, behind some of their ranges. Brackets that are not
closed end with the pattern. -/
def ofRanges (outside : Bool) (ranges : List (Char × Char)) : List Char → List GlobPart
  | [] => [range outside ranges]
  | '\\' :: c :: cs => ofRanges outside ((c, c) :: ranges) cs
  | ']' :: cs => range outside ranges :: ofPattern cs
  | a :: '-' :: b :: cs => ofRanges outside ((a, b) :: ranges) cs
  | c :: cs => ofRanges outside ((c, c) :: ranges) cs

end

end GlobPart

def globMatches : List GlobPart → List Char → Bool
  | [], cs => cs.isEmpty
  | .run :: parts, cs => anyTail (globMatches parts) cs
  | _ :: _, [] => false
  | part :: parts, c :: cs => part.accepts c && globMatches parts cs

def matchesGlob (pattern text : String) : Bool :=
  globMatches (GlobPart.ofPattern pattern.toList) text.toList

/-- A pattern for the characters themselves. -/
def escapedForGlob (cs : List Char) : List Char :=
  cs.flatMap fun c => if c ∈ ['*', '?', '[', ']', '\\'] then ['\\', c] else [c]

end AlertLedger
