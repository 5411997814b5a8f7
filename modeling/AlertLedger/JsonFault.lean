import AlertLedger.NumberStyle
import AlertLedger.QuotedText
import AlertLedger.Utf8

namespace AlertLedger

/-- Numbers in JSON text: the shortest digits, positional from `0.00001` up to sixteen whole
places, always with a point there, and scientific elsewhere. JSON has no other numbers. -/
def jsonNumberStyle : NumberStyle where
  tie := .toEven
  positional e := decide (-5 ≤ e) && decide (e ≤ 15)
  pointZero _ := true
  nan := "null"
  infinity := "null"
  negativeInfinity := "null"

/-- What a record found where it wanted something else. -/
inductive FoundValue
  | null
  | flag (b : Bool)
  | integer (i : Int)
  | real (x : Binary64)
  | text (s : String)
  | sequence
  | object
deriving DecidableEq

def FoundValue.describe : FoundValue → String
  | .null => "null"
  | .flag true => "boolean " ++ ticked "true"
  | .flag false => "boolean " ++ ticked "false"
  | .integer i => "integer " ++ ticked (toString i)
  | .real x => "floating point " ++ ticked (String.ofList (jsonNumberStyle.chars x))
  | .text s => "string " ++ quotedForMessage s
  | .sequence => "sequence"
  | .object => "map"
where
  ticked (s : String) : String := "`" ++ s ++ "`"

inductive WantedValue
  | text
  | signed64
  | unsigned32
  | real
  | flag
  | sequence
  | null
  | record (title : String)
deriving DecidableEq

def WantedValue.describe : WantedValue → String
  | .text => "a string"
  | .signed64 => "i64"
  | .unsigned32 => "u32"
  | .real => "f64"
  | .flag => "a boolean"
  | .sequence => "a sequence"
  | .null => "unit"
  | .record title => "struct " ++ title

inductive FaultCause
  | listNotClosed
  | objectNotClosed
  | stringNotClosed
  | valueMissing
  | colonWanted
  | listCommaWanted
  | objectCommaWanted
  | wordMisspelt
  | valueWanted
  | invalidEscape
  | invalidNumber
  | numberOutOfRange
  | invalidUtf8
  | controlCharacter
  | keyNotText
  | loneSurrogate
  | trailingComma
  | trailingCharacters
  | unpairedSurrogate
  | wrongType (found : FoundValue) (wanted : WantedValue)
  | outOfBounds (value : Int) (wanted : WantedValue)
  | unknownVariant (name : String) (known : List String)
  | missingField (name : String)
  | repeatedField (name : String)
  | tooFewItems (count : Nat) (title : String) (size : Nat)
deriving DecidableEq

/-- The three kinds of refusal: the text ends early, it is no JSON, or it is no such record. -/
inductive FaultCategory
  | eof
  | form
  | data
deriving DecidableEq

def FaultCause.category : FaultCause → FaultCategory
  | .listNotClosed | .objectNotClosed | .stringNotClosed | .valueMissing => .eof
  | .wrongType _ _ | .outOfBounds _ _ | .unknownVariant _ _ | .missingField _ | .repeatedField _
  | .tooFewItems _ _ _ => .data
  | _ => .form

def FaultCause.describe : FaultCause → String
  | .listNotClosed => "EOF while parsing a list"
  | .objectNotClosed => "EOF while parsing an object"
  | .stringNotClosed => "EOF while parsing a string"
  | .valueMissing => "EOF while parsing a value"
  | .colonWanted => "expected `:`"
  | .listCommaWanted => "expected `,` or `]`"
  | .objectCommaWanted => "expected `,` or `\x7d`"
  | .wordMisspelt => "expected ident"
  | .valueWanted => "expected value"
  | .invalidEscape => "invalid escape"
  | .invalidNumber => "invalid number"
  | .numberOutOfRange => "number out of range"
  | .invalidUtf8 => "invalid unicode code point"
  | .controlCharacter => "control character (\\u0000-\\u001F) found while parsing a string"
  | .keyNotText => "key must be a string"
  | .loneSurrogate => "lone leading surrogate in hex escape"
  | .trailingComma => "trailing comma"
  | .trailingCharacters => "trailing characters"
  | .unpairedSurrogate => "unexpected end of hex escape"
  | .wrongType found wanted => "invalid type: " ++ found.describe ++ ", expected " ++ wanted.describe
  | .outOfBounds value wanted =>
    "invalid value: " ++ (FoundValue.integer value).describe ++ ", expected " ++ wanted.describe
  | .unknownVariant name known =>
    "unknown variant `" ++ name ++ "`, expected one of " ++
      ", ".intercalate (known.map fun s => "`" ++ s ++ "`")
  | .missingField name => "missing field `" ++ name ++ "`"
  | .repeatedField name => "duplicate field `" ++ name ++ "`"
  | .tooFewItems count title size =>
    "invalid length " ++ toString count ++ ", expected struct " ++ title ++ " with " ++
      toString size ++ " elements"

/-- A refusal, placed by the number of bytes that were left to read. -/
structure Fault where
  cause : FaultCause
  left : Nat
deriving DecidableEq

namespace Fault

def behind (cause : FaultCause) (rest : Bytes) : Fault := ⟨cause, rest.length⟩

/-- A refusal of the byte that comes next; at the end of the text there is none to point at. -/
def ahead (cause : FaultCause) (rest : Bytes) : Fault := ⟨cause, rest.length - 1⟩

end Fault

/-- A refusal with its line, counted from one, and the number of bytes of that line up to it. -/
structure DecodeError where
  cause : FaultCause
  line : Nat
  column : Nat
deriving DecidableEq

def lineFeed : UInt8 := 10

def Fault.locate (f : Fault) (body : Bytes) : DecodeError :=
  let before := body.take (body.length - f.left)
  ⟨f.cause, 1 + before.count lineFeed, (before.reverse.takeWhile (· != lineFeed)).length⟩

def DecodeError.message (e : DecodeError) : String :=
  e.cause.describe ++ " at line " ++ toString e.line ++ " column " ++ toString e.column

end AlertLedger
