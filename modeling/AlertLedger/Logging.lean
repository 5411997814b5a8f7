import AlertLedger.IntegerText

namespace AlertLedger

/-- How much of what happens is logged: everything down to this level. -/
inductive LogLevel
  | error
  | warn
  | info
  | debug
  | trace
deriving DecidableEq

namespace LogLevel

def all : List LogLevel := [error, warn, info, debug, trace]

def name : LogLevel → String
  | error => "ERROR"
  | warn => "WARN"
  | info => "INFO"
  | debug => "DEBUG"
  | trace => "TRACE"

/-- Reads a name in letters of either case, or a place in the list of the levels, from 1. -/
def ofText? (text : String) : Option LogLevel :=
  match readWord text with
  | .ok n => if n = 0 then none else all[n.toNat - 1]?
  | .error _ => all.find? fun l => l.name = text.toUpper

def refusal : String :=
  "error parsing level: expected one of \"error\", \"warn\", \"info\", \"debug\", \"trace\", " ++
    "or a number 1-5"

end LogLevel

/-- Whether the log is coloured; `auto` asks the terminal. -/
inductive LogColor
  | auto
  | always
  | never
deriving DecidableEq

namespace LogColor

def name : LogColor → String
  | auto => "auto"
  | always => "always"
  | never => "never"

/-- Reads a name in letters of either case. Those of ASCII are enough: no other letter has one of
these names' letters for its lower case. -/
def ofName? (text : String) : Option LogColor :=
  [auto, always, never].find? fun c => c.name = text.toLower

def refusal (text : String) : String :=
  "Invalid log color: " ++ text ++ ". Expected auto, always or never"

end LogColor

end AlertLedger
