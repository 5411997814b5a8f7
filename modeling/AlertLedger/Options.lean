import AlertLedger.Engine
import AlertLedger.HistoryPage
import AlertLedger.Logging
import AlertLedger.Metric
import AlertLedger.Topology

namespace AlertLedger

structure Options where
  component : String := "Alert Store"
  brokerUrl : String := "amqp://127.0.0.1:5672/%2f"
  /-- milliseconds between two attempts to reach the broker -/
  retryDelay : UInt64 := 5000
  topology : Topology := {}
  engine : Engine := .remote
  remote : RemoteStores := {}
  pageCapacity : UInt32 := defaultPageCapacity
  pageCapacity_pos : 0 < pageCapacity := by decide
  permitted : List String := []
  logLevel : LogLevel := .info
  logColor : LogColor := .auto
deriving DecidableEq

/-- The monitors may report only metrics of the table. -/
def Options.checkMetrics (o : Options) : Except MetricError Unit :=
  Metric.checkPermitted o.permitted

inductive Setting
  | component
  | brokerUrl
  | retryDelay
  | storeExchange
  | alertQueue
  | alertRoutingKey
  | healthExchange
  | heartbeatRoutingKey
  | engine
  | mongoUri
  | mongoDatabase
  | redisUrl
  | redisNamespace
  | pageCapacity
  | permitted
  | logLevel
  | logColor
deriving DecidableEq

inductive ValueFault
  | integer (e : IntegerFault)
  | outOfRange (n : Int)
  | engine (text : String)
  | logLevel
  | logColor (text : String)
deriving DecidableEq

def ValueFault.message : ValueFault → String
  | .integer e => e.message
  | .outOfRange n => toString n ++ " is not in 1..=4294967295"
  | .engine text => Engine.refusal text
  | .logLevel => LogLevel.refusal
  | .logColor text => LogColor.refusal text

namespace Setting

def all : List Setting := [
  component, brokerUrl, retryDelay, storeExchange, alertQueue, alertRoutingKey, healthExchange,
  heartbeatRoutingKey, engine, mongoUri, mongoDatabase, redisUrl, redisNamespace, pageCapacity,
  permitted, logLevel, logColor]

/-- The name on the command line, behind its two dashes. -/
def flag : Setting → String
  | component => "component-name"
  | brokerUrl => "rabbitmq.url"
  | retryDelay => "rabbitmq.retry-delay-ms"
  | storeExchange => "store.exchange"
  | alertQueue => "store.queue"
  | alertRoutingKey => "store.routing-key"
  | healthExchange => "health.exchange"
  | heartbeatRoutingKey => "health.routing-key"
  | engine => "engine"
  | mongoUri => "mongo.uri"
  | mongoDatabase => "mongo.db"
  | redisUrl => "redis.url"
  | redisNamespace => "redis.namespace"
  | pageCapacity => "alerts.per-document"
  | permitted => "metrics.permitted"
  | logLevel => "log.level"
  | logColor => "log.color"

/-- What messages write in the place of the value. -/
def placeholder : Setting → String
  | component => "<NAME>"
  | brokerUrl => "<URL>"
  | retryDelay => "<MILLISECONDS>"
  | storeExchange => "<STORE_EXCHANGE>"
  | alertQueue => "<ALERT_QUEUE>"
  | alertRoutingKey => "<ALERT_ROUTING_KEY>"
  | healthExchange => "<HEALTH_EXCHANGE>"
  | heartbeatRoutingKey => "<HEARTBEAT_ROUTING_KEY>"
  | engine => "<ENGINE>"
  | mongoUri => "<URI>"
  | mongoDatabase => "<DATABASE>"
  | redisUrl => "<URL>"
  | redisNamespace => "<NAMESPACE>"
  | pageCapacity => "<COUNT>"
  | permitted => "<METRIC_LIST>..."
  | logLevel => "<LOG_LEVEL>"
  | logColor => "<LOG_COLOR>"

def environmentName : Setting → String
  | component => "ALERT_STORE_COMPONENT_NAME"
  | brokerUrl => "ALERT_STORE_RABBITMQ_URL"
  | retryDelay => "ALERT_STORE_RABBITMQ_RETRY_DELAY_MS"
  | storeExchange => "ALERT_STORE_STORE_EXCHANGE"
  | alertQueue => "ALERT_STORE_QUEUE"
  | alertRoutingKey => "ALERT_STORE_ROUTING_KEY"
  | healthExchange => "ALERT_STORE_HEALTH_EXCHANGE"
  | heartbeatRoutingKey => "ALERT_STORE_HEARTBEAT_ROUTING_KEY"
  | engine => "ALERT_STORE_ENGINE"
  | mongoUri => "ALERT_STORE_MONGO_URI"
  | mongoDatabase => "ALERT_STORE_MONGO_DB"
  | redisUrl => "ALERT_STORE_REDIS_URL"
  | redisNamespace => "ALERT_STORE_REDIS_NAMESPACE"
  | pageCapacity => "ALERT_STORE_ALERTS_PER_DOCUMENT"
  | permitted => "ALERT_STORE_PERMITTED_METRICS"
  | logLevel => "ALERT_STORE_LOG_LEVEL"
  | logColor => "ALERT_STORE_LOG_COLOR"

/-- The list of metrics is the one setting of many values, which may be given bit by bit. -/
def takesMany (s : Setting) : Bool := s = permitted

def usage (s : Setting) : String := "--" ++ s.flag ++ " " ++ s.placeholder

/-- Reads how many alerts a page holds, a number from 1 to 4294967295. -/
def readPageCapacity (text : String) : Except ValueFault { n : UInt32 // 0 < n } :=
  match readSignedWord text with
  | .error e => .error (.integer e)
  | .ok n =>
    if h : 0 < n ∧ n ≤ 4294967295 then
      .ok ⟨.ofNat n.toNat, by
        simp [UInt32.lt_iff_toNat_lt]
        omega⟩
    else .error (.outOfRange n)

/-- The choices with one of them made anew. A list of metrics, its parts between commas, goes
behind those that were named before. -/
def write (s : Setting) (text : String) (o : Options) : Except ValueFault Options :=
  match s with
  | component => .ok { o with component := text }
  | brokerUrl => .ok { o with brokerUrl := text }
  | retryDelay =>
    match readWord text with
    | .ok n => .ok { o with retryDelay := n }
    | .error e => .error (.integer e)
  | storeExchange => .ok { o with topology.storeExchange := text }
  | alertQueue => .ok { o with topology.alertQueue := text }
  | alertRoutingKey => .ok { o with topology.alertRoutingKey := text }
  | healthExchange => .ok { o with topology.healthExchange := text }
  | heartbeatRoutingKey => .ok { o with topology.heartbeatRoutingKey := text }
  | engine =>
    match Engine.ofName? text with
    | some e => .ok { o with engine := e }
    | none => .error (.engine text)
  | mongoUri => .ok { o with remote.mongoUri := text }
  | mongoDatabase => .ok { o with remote.mongoDatabase := text }
  | redisUrl => .ok { o with remote.redisUrl := text }
  | redisNamespace => .ok { o with remote.redisNamespace := some text }
  | pageCapacity =>
    match readPageCapacity text with
    | .ok ⟨n, h⟩ => .ok { o with pageCapacity := n, pageCapacity_pos := h }
    | .error e => .error e
  | permitted => .ok { o with permitted := o.permitted ++ text.splitOn "," }
  | logLevel =>
    match LogLevel.ofText? text with
    | some l => .ok { o with logLevel := l }
    | none => .error .logLevel
  | logColor =>
    match LogColor.ofName? text with
    | some c => .ok { o with logColor := c }
    | none => .error (.logColor text)

end Setting

end AlertLedger
