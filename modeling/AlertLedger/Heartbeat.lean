import AlertLedger.JsonRecord

namespace AlertLedger

/-- A sign of life of a component, sent after an alert that it took care of. -/
structure Heartbeat where
  component : String
  alive : Bool
  timestamp : Binary64
deriving DecidableEq

inductive Heartbeat.Field
  | component
  | alive
  | timestamp
deriving DecidableEq

@[reducible] def Heartbeat.Field.Value : Heartbeat.Field → Type
  | .component => String
  | .alive => Bool
  | .timestamp => Binary64

namespace Heartbeat

def shape : RecordShape Heartbeat where
  title := "Heartbeat"
  Field := Heartbeat.Field
  decEq := inferInstance
  fields := [.component, .alive, .timestamp]
  complete f := by cases f <;> simp
  label
    | .component => "component_name"
    | .alive => "is_alive"
    | .timestamp => "timestamp"
  Value := Heartbeat.Field.Value
  read
    | .component => Json.text
    | .alive => Json.flag
    | .timestamp => Json.real
  write
    | .component, v => Json.textChars v
    | .alive, v => Json.flagChars v
    | .timestamp, v => Json.realChars v
  build v := ⟨v .component, v .alive, v .timestamp⟩
  get h
    | .component => h.component
    | .alive => h.alive
    | .timestamp => h.timestamp

def toJson (h : Heartbeat) : String := String.ofList (Json.recordChars shape h)

def ofComponent (name : String) (timestamp : Binary64) : Heartbeat := ⟨name, true, timestamp⟩

end Heartbeat

end AlertLedger
