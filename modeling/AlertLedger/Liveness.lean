import AlertLedger.Heartbeat

namespace AlertLedger

inductive BrokerError
  | amqp (reason : String)
  | cancelled
deriving DecidableEq

def BrokerError.message : BrokerError → String
  | .amqp reason => "amqp error: " ++ reason
  | .cancelled => "connection attempt cancelled"

inductive Publication
  | confirmed
  | refused (reason : String)
  | broken (e : BrokerError)
deriving DecidableEq

/-- Why a heartbeat did not reach its exchange. One that the broker refused does no harm. -/
inductive HeartbeatError
  | notDelivered (reason : String)
  | publish (e : BrokerError)
deriving DecidableEq

def HeartbeatError.message : HeartbeatError → String
  | .notDelivered reason => "heartbeat was not delivered: " ++ reason
  | .publish e => "failed to publish heartbeat: " ++ e.message

def Publication.result : Publication → Except HeartbeatError Unit
  | .confirmed => .ok ()
  | .refused reason => .error (.notDelivered reason)
  | .broken e => .error (.publish e)

/-- The payload that reports a component alive. -/
def heartbeatPayload (component : String) (timestamp : Binary64) : String :=
  (Heartbeat.ofComponent component timestamp).toJson

end AlertLedger
