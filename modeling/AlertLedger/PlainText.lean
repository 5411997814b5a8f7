import AlertLedger.Utf8

namespace AlertLedger

/-- What a terminal takes the next character for. -/
inductive TerminalMode
  | text
  /-- what follows an escape character -/
  | escape
  /-- an escape of several characters, before its last one -/
  | longEscape
  /-- a sequence behind an escape and a bracket, up to its letter -/
  | sequence
  /-- a command to the system, up to a bell -/
  | command
  /-- a string for a device, before its numbers -/
  | device
  /-- the numbers of such a string -/
  | deviceNumbers
  /-- the marks behind its numbers -/
  | deviceMarks
  /-- a string that is not shown, up to a terminator -/
  | hidden
deriving DecidableEq

namespace TerminalMode

/-- A control character that leaves blank room and is text therefore. -/
def isBlankControl (c : Char) : Bool := c = '\t' || c = '\n' || c = '\x0c' || c = '\r'

def isText (c : Char) : Bool := (' ' ≤ c && c ≠ '\x7f') || isBlankControl c

/-- The byte that ends a hidden string, also as a part of a character, which is hidden as a
whole. -/
def terminator : UInt8 := 0x9c

/-- The mode behind a character of an escape, a sequence or a string. Characters that have no place
there change nothing. -/
def following (mode : TerminalMode) (c : Char) : TerminalMode :=
  match mode with
  | escape =>
    if ' ' ≤ c && c ≤ '/' then longEscape
    else if c = '[' then sequence
    else if c = ']' then command
    else if c = 'P' then device
    else if c = 'X' || c = '^' || c = '_' then hidden
    else if '0' ≤ c && c ≤ '~' then text
    else escape
  | longEscape => if '0' ≤ c && c ≤ '~' then text else longEscape
  | sequence => if '@' ≤ c && c ≤ '~' then text else sequence
  | device =>
    if ' ' ≤ c && c ≤ '/' then deviceMarks
    else if '0' ≤ c && c ≤ '?' then deviceNumbers
    else if '@' ≤ c && c ≤ '~' then hidden
    else device
  | deviceNumbers =>
    if ' ' ≤ c && c ≤ '/' then deviceMarks
    else if '<' ≤ c && c ≤ '~' then hidden
    else deviceNumbers
  | deviceMarks => if '0' ≤ c && c ≤ '~' then hidden else deviceMarks
  | hidden => if (Utf8.encodeChar c).contains terminator then text else hidden
  | mode => mode

/-- The mode behind a character, and whether the character is text. An escape character always
starts anew, two control characters always end what was begun, and a blank one cuts an escape or a
sequence short. -/
def step (mode : TerminalMode) (c : Char) : TerminalMode × Bool :=
  if c = '\x1b' then (escape, false)
  else if c = '\x18' || c = '\x1a' then (text, false)
  else
    match mode with
    | text => (text, isText c)
    | command => (if c = '\x07' then text else command, false)
    | escape | longEscape | sequence =>
      if isBlankControl c then (text, true) else (mode.following c, false)
    | mode => (mode.following c, false)

def texts (mode : TerminalMode) : List Char → List Char
  | [] => []
  | c :: cs =>
    let behind := mode.step c
    if behind.2 then c :: texts behind.1 cs else texts behind.1 cs

end TerminalMode

/-- A text without what only controls a terminal. -/
def plainText (s : String) : String := .ofList (TerminalMode.text.texts s.toList)

end AlertLedger
