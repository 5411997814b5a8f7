import AlertLedger.Options
import AlertLedger.PlainText

namespace AlertLedger

inductive UsageError
  | help
  | version
  | missingValue (s : Setting)
  | invalidValue (s : Setting) (value : String) (fault : ValueFault)
  | repeated (s : Setting)
  | unexpected (argument : String)
  | unexpectedValue (value flag : String)
deriving DecidableEq

def versionLine : String := "alert-store 9.0.0"

/-- What the program does, and its settings with their environment variables. -/
def helpText : String :=
  "Persists alerts from the message bus into the history and latest-state stores\n\n" ++
  "Usage: alert-store [OPTIONS]\n\nOptions:\n" ++
  String.join (Setting.all.map fun s =>
    "      " ++ s.usage ++ " [env: " ++ s.environmentName ++ "]\n") ++
  "  -h, --help\n  -V, --version"

/-- A text that stands out on a terminal, which goes back to its usual style behind it. -/
def standingOut (s : String) : String := "\x1b[1m" ++ s ++ "\x1b[0m"

def UsageError.report : UsageError → String
  | .help => helpText
  | .version => versionLine
  | .missingValue s =>
    "a value is required for '" ++ standingOut s.usage ++ "' but none was supplied" ++ hint
  | .invalidValue s value fault =>
    "invalid value '" ++ standingOut value ++ "' for '" ++ standingOut s.usage ++ "': " ++
      fault.message ++ hint
  | .repeated s =>
    "the argument '" ++ standingOut s.usage ++ "' cannot be used multiple times" ++ hint
  | .unexpected argument => "unexpected argument '" ++ standingOut argument ++ "' found" ++ hint
  | .unexpectedValue value flag =>
    "unexpected value '" ++ standingOut value ++ "' for '" ++ standingOut flag ++
      "' found; no more were expected" ++ hint
where
  hint : String := "\n\nFor more information, try '" ++ standingOut "--help" ++ "'.\n"

/-- What is told where no terminal is. An argument may hold control sequences too, and one that it
leaves open in the reason at the end hides what follows. -/
def UsageError.message (e : UsageError) : String := plainText e.report

inductive Argument
  | endOfFlags
  /-- two dashes and a name, and what stands behind an equals sign -/
  | long (name : String) (attached : Option String)
  /-- a dash and letters, of which the first decides -/
  | short (letter : Char)
  | plain (text : String)
deriving DecidableEq

/-- The part before the first equals sign, and the part behind it if there is one. -/
def splitAtEquals (cs : List Char) : String × Option String :=
  (.ofList (cs.takeWhile (· ≠ '=')),
    match cs.dropWhile (· ≠ '=') with
    | [] => none
    | _ :: rest => some (.ofList rest))

def Argument.ofText (text : String) : Argument :=
  match text.toList with
  | ['-', '-'] => .endOfFlags
  | '-' :: '-' :: cs =>
    let parts := splitAtEquals cs
    .long parts.1 parts.2
  | '-' :: c :: _ => .short c
  | _ => .plain text

inductive Flag
  | setting (s : Setting)
  | help
  | version
deriving DecidableEq

def Flag.named? (name : String) : Option Flag :=
  if name = "help" then some .help
  else if name = "version" then some .version
  else (Setting.all.find? fun s => s.flag = name).map .setting

def Flag.lettered? (c : Char) : Option Flag :=
  if c = 'h' then some .help
  else if c = 'V' then some .version
  else none

/-- The choices while the command line is read: those that were made, and the setting whose values
are being gathered. -/
structure Choices where
  options : Options := {}
  given : List Setting := []
  gathering : Option (Setting × List String) := none

namespace Choices

def writeAll (s : Setting) : List String → Options → Except UsageError Options
  | [], o => .ok o
  | v :: vs, o =>
    match s.write v o with
    | .ok o => writeAll s vs o
    | .error fault => .error (.invalidValue s v fault)

/-- Makes a choice. Only one of many values may be made again. -/
def assign (s : Setting) (values : List String) (c : Choices) : Except UsageError Choices :=
  if values.isEmpty then .error (.missingValue s)
  else if c.given.contains s && !s.takesMany then .error (.repeated s)
  else
    match writeAll s values c.options with
    | .ok o => .ok { c with options := o, given := s :: c.given }
    | .error e => .error e

/-- Makes the choice whose values are gathered. -/
def settle (c : Choices) : Except UsageError Choices :=
  match c.gathering with
  | none => .ok c
  | some (s, values) => assign s values { c with gathering := none }

/-- Adds a value to those of the setting that is gathered, if it takes one more. -/
def gather? (text : String) (c : Choices) : Option Choices :=
  match c.gathering with
  | some (s, values) =>
    if values.isEmpty || s.takesMany then
      some { c with gathering := some (s, values ++ [text]) }
    else none
  | none => none

def take (f : Flag) (c : Choices) : Except UsageError Choices :=
  match c.settle with
  | .error e => .error e
  | .ok c =>
    match f with
    | .setting s => .ok { c with gathering := some (s, []) }
    | .help => .error .help
    | .version => .error .version

def takeAttached (f : Flag) (value : String) (c : Choices) : Except UsageError Choices :=
  match f with
  | .setting s =>
    match c.settle with
    | .error e => .error e
    | .ok c => c.assign s [value]
  | .help => .error (.unexpectedValue value "--help")
  | .version => .error (.unexpectedValue value "--version")

/-- Reads the arguments from left to right. One that is not expected is reported before a value
that was gathered and is wrong. -/
def read : List String → Choices → Except UsageError Choices
  | [], c => c.settle
  | text :: rest, c =>
    match Argument.ofText text with
    | .endOfFlags =>
      match rest with
      | [] => c.settle
      | next :: _ => .error (.unexpected next)
    | .long name attached =>
      match Flag.named? name with
      | none => .error (.unexpected ("--" ++ name))
      | some f =>
        match attached with
        | none => (c.take f).bind (read rest)
        | some value => (c.takeAttached f value).bind (read rest)
    | .short letter =>
      match Flag.lettered? letter with
      | none => .error (.unexpected ("-" ++ .singleton letter))
      | some f => (c.take f).bind (read rest)
    | .plain text =>
      match c.gather? text with
      | none => .error (.unexpected text)
      | some c => read rest c

/-- Makes the choices that the command line left open and the environment has a value for. -/
def readEnvironment (environment : String → Option String) :
    List Setting → Choices → Except UsageError Choices
  | [], c => .ok c
  | s :: rest, c =>
    match c.given.contains s, environment s.environmentName with
    | false, some value => (c.assign s [value]).bind (readEnvironment environment rest)
    | _, _ => readEnvironment environment rest c

end Choices

/-- The operator's choices from the command line, else the environment, else the usual ones. -/
def Options.ofCommandLine (arguments : List String) (environment : String → Option String) :
    Except UsageError Options :=
  match Choices.read arguments {} with
  | .error e => .error e
  | .ok c => (c.readEnvironment environment Setting.all).map (·.options)

end AlertLedger
