import AlertLedger.Alert
import AlertLedger.Timestamp

namespace AlertLedger

structure Summary where
  origin : String
  name : String
  severity : String
  message : String
  metric : String
  timestamp : String
deriving DecidableEq

inductive Summary.Field
  | origin
  | name
  | severity
  | message
  | metric
  | timestamp
deriving DecidableEq

namespace Summary

def shape : RecordShape Summary where
  title := "AlertSummary"
  Field := Summary.Field
  decEq := inferInstance
  fields := [.origin, .name, .severity, .message, .metric, .timestamp]
  complete f := by cases f <;> simp
  label
    | .origin => "origin"
    | .name => "alert_name"
    | .severity => "severity"
    | .message => "message"
    | .metric => "metric"
    | .timestamp => "timestamp"
  Value _ := String
  read _ := Json.text
  write _ v := Json.textChars v
  build v := ⟨v .origin, v .name, v .severity, v .message, v .metric, v .timestamp⟩
  get s
    | .origin => s.origin
    | .name => s.name
    | .severity => s.severity
    | .message => s.message
    | .metric => s.metric
    | .timestamp => s.timestamp

def toJson (s : Summary) : String := String.ofList (Json.recordChars shape s)

def ofAlert (a : Alert) : Summary where
  origin := a.origin
  name := a.code.name
  severity := a.severity.name
  message := a.message
  metric := a.metric
  timestamp := timestampText a.timestamp

end Summary

/-- A page of a chain's history: its alerts in the order of their arrival, their number, and the
bounds of their timestamps. -/
structure Page where
  kind : String
  count : UInt32
  alerts : List Summary
  first : Binary64
  last : Binary64
deriving DecidableEq

inductive Page.Field
  | kind
  | count
  | alerts
  | first
  | last
deriving DecidableEq

@[reducible] def Page.Field.Value : Page.Field → Type
  | .kind => String
  | .count => UInt32
  | .alerts => List Summary
  | .first | .last => Binary64

def alertPageKind : String := "alert"

/-- How many alerts a page holds unless the service is told otherwise. -/
def defaultPageCapacity : UInt32 := 1000

namespace Page

def shape : RecordShape Page where
  title := "AlertDocument"
  Field := Page.Field
  decEq := inferInstance
  fields := [.kind, .count, .alerts, .first, .last]
  complete f := by cases f <;> simp
  label
    | .kind => "doc_type"
    | .count => "n_alerts"
    | .alerts => "alerts"
    | .first => "first"
    | .last => "last"
  Value := Page.Field.Value
  read
    | .kind => Json.text
    | .count => Json.unsigned32
    | .alerts => Json.list (Json.record Summary.shape)
    | .first | .last => Json.real
  write
    | .kind, v => Json.textChars v
    | .count, v => Nat.toDigits 10 v.toNat
    | .alerts, v => Json.listChars (Json.recordChars Summary.shape) v
    | .first, v | .last, v => Json.realChars v
  build v := ⟨v .kind, v .count, v .alerts, v .first, v .last⟩
  get p
    | .kind => p.kind
    | .count => p.count
    | .alerts => p.alerts
    | .first => p.first
    | .last => p.last

def toJson (p : Page) : String := String.ofList (Json.recordChars shape p)

def opening (s : Summary) (t : Binary64) : Page := ⟨alertPageKind, 1, [s], t, t⟩

/-- An open page takes one more alert. -/
def isOpen (p : Page) (capacity : UInt32) : Bool :=
  p.kind == alertPageKind && decide (p.count < capacity)

def push (p : Page) (s : Summary) (t : Binary64) : Page where
  kind := p.kind
  count := p.count + 1
  alerts := p.alerts ++ [s]
  first := p.first.min t
  last := p.last.max t

end Page

end AlertLedger
