import AlertLedger.JsonRecord

namespace AlertLedger

inductive Severity
  | critical
  | warning
  | error
  | info
  | internal
deriving DecidableEq

namespace Severity

def all : List Severity := [.critical, .warning, .error, .info, .internal]

def name : Severity → String
  | .critical => "CRITICAL"
  | .warning => "WARNING"
  | .error => "ERROR"
  | .info => "INFO"
  | .internal => "INTERNAL"

def reader : Reader Severity := Json.variant (all.map fun s => (s.name, s))

def chars (s : Severity) : List Char := Json.textChars s.name

def toJson (s : Severity) : String := String.ofList s.chars

end Severity

/-- The number and the name of the condition that an alert reports. -/
structure AlertCode where
  number : Int64
  name : String
deriving DecidableEq

inductive AlertCode.Field
  | number
  | name
deriving DecidableEq

@[reducible] def AlertCode.Field.Value : AlertCode.Field → Type
  | .number => Int64
  | .name => String

def AlertCode.shape : RecordShape AlertCode where
  title := "AlertCode"
  Field := AlertCode.Field
  decEq := inferInstance
  fields := [.number, .name]
  complete f := by cases f <;> simp
  label
    | .number => "code"
    | .name => "name"
  Value := AlertCode.Field.Value
  read
    | .number => Json.signed64
    | .name => Json.text
  write
    | .number, v => Json.intChars v.toInt
    | .name, v => Json.textChars v
  build v := ⟨v .number, v .name⟩
  get c
    | .number => c.number
    | .name => c.name

/-- An alert as the monitors send it. The origin of an internal one is the manager that issued
it. -/
structure Alert where
  severity : Severity
  code : AlertCode
  origin : String
  parent : String
  message : String
  metric : String
  timestamp : Binary64
deriving DecidableEq

inductive Alert.Field
  | severity
  | code
  | origin
  | parent
  | message
  | metric
  | timestamp
deriving DecidableEq

@[reducible] def Alert.Field.Value : Alert.Field → Type
  | .severity => Severity
  | .code => AlertCode
  | .origin | .parent | .message | .metric => String
  | .timestamp => Binary64

namespace Alert

def shape : RecordShape Alert where
  title := "Alert"
  Field := Alert.Field
  decEq := inferInstance
  fields := [.severity, .code, .origin, .parent, .message, .metric, .timestamp]
  complete f := by cases f <;> simp
  label
    | .severity => "severity"
    | .code => "alert_code"
    | .origin => "origin_id"
    | .parent => "parent_id"
    | .message => "message"
    | .metric => "metric"
    | .timestamp => "timestamp"
  Value := Alert.Field.Value
  read
    | .severity => Severity.reader
    | .code => Json.record AlertCode.shape
    | .origin | .parent | .message | .metric => Json.text
    | .timestamp => Json.real
  write
    | .severity, v => v.chars
    | .code, v => Json.recordChars AlertCode.shape v
    | .origin, v | .parent, v | .message, v | .metric, v => Json.textChars v
    | .timestamp, v => Json.realChars v
  build v :=
    ⟨v .severity, v .code, v .origin, v .parent, v .message, v .metric, v .timestamp⟩
  get a
    | .severity => a.severity
    | .code => a.code
    | .origin => a.origin
    | .parent => a.parent
    | .message => a.message
    | .metric => a.metric
    | .timestamp => a.timestamp

def decode (body : Bytes) : Except DecodeError Alert := Json.decode (Json.record shape) body

def toJson (a : Alert) : String := String.ofList (Json.recordChars shape a)

/-- Internal alerts order changes of the snapshot and are no part of the history. -/
def isInternal (a : Alert) : Bool := a.severity = .internal

end Alert

end AlertLedger
