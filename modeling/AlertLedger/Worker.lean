import AlertLedger.Intake
import AlertLedger.Liveness

namespace AlertLedger

inductive Moment
  | receiving
  | calling (call : StoreCall)
  | acknowledging
  | publishing
deriving DecidableEq

/-- A message of the subscription, and what befalls the worker while it handles it. -/
structure Delivery where
  body : Bytes
  /-- the store calls that fail, by the number of the calls before them -/
  fails : Nat → StoreCall → Bool
  ackError : Option BrokerError
  publication : Publication
  /-- the time of the heartbeat -/
  clock : Binary64
  /-- the moments at which a shutdown is requested -/
  stops : Moment → Bool

inductive WorkerEvent
  | store (record : CallRecord)
  | acked
  | ackFailed
  | published (payload : String)
deriving DecidableEq

inductive Handled
  | processed (heartbeatDelivered : Bool)
  | failed
deriving DecidableEq

inductive WorkerError
  | ack (e : BrokerError)
  | broker (e : BrokerError)
  | subscriptionClosed
  | heartbeat (e : HeartbeatError)
deriving DecidableEq

def WorkerError.message : WorkerError → String
  | .ack e => "failed to acknowledge alert: " ++ e.message
  | .broker e => "broker error while consuming: " ++ e.message
  | .subscriptionClosed => "alert subscription was closed by the broker"
  | .heartbeat e => e.message

/-- Work that was done: its result, the stores after it, and what was seen of it. -/
structure Work (α : Type) where
  result : Except WorkerError α
  stores : Stores
  events : List WorkerEvent

structure Worker where
  component : String
  capacity : UInt32

namespace Worker

/-- What follows an acknowledgement: a heartbeat if the message was taken in. A heartbeat that the
broker refuses is let go. -/
def report (w : Worker) (d : Delivery) (takenIn : Bool) :
    Except WorkerError Handled × List WorkerEvent :=
  if takenIn then
    let events := [.published (heartbeatPayload w.component d.clock)]
    match d.publication.result with
    | .ok () => (.ok (.processed true), events)
    | .error (.notDelivered _) => (.ok (.processed false), events)
    | .error e => (.error (.heartbeat e), events)
  else (.ok .failed, [])

/-- Takes a message in and acknowledges it once, whether or not that succeeded, so that it is not
delivered again. -/
def handle (w : Worker) (d : Delivery) (s : Stores) : Work Handled :=
  let taken := takeIn (StoreSession.access d.fails) w.capacity d.body (.start s)
  let calls := taken.2.calls.map .store
  match d.ackError with
  | some e => ⟨.error (.ack e), taken.2.stores, calls ++ [.ackFailed]⟩
  | none =>
    let reported := w.report d taken.1.isOk
    ⟨reported.1, taken.2.stores, calls ++ .acked :: reported.2⟩

end Worker

def WorkerEvent.moment : WorkerEvent → Moment
  | .store r => .calling r.call
  | .acked | .ackFailed => .acknowledging
  | .published _ => .publishing

/-- A shutdown is requested while the delivery is received or handled. -/
def Delivery.requestsStop (d : Delivery) (events : List WorkerEvent) : Bool :=
  d.stops .receiving || events.any fun e => d.stops e.moment

/-- What the subscription does next. -/
inductive Arrival
  | delivery (d : Delivery)
  | broken (e : BrokerError)
  /-- nothing comes any more, and a shutdown is requested meanwhile -/
  | silence

namespace Worker

/-- Handles what arrives, one delivery after the other. A request to stop is seen between
deliveries only. At the end of the arrivals the subscription ends. -/
def run (w : Worker) (stopping : Bool) (arrivals : List Arrival) (s : Stores) : Work Unit :=
  if stopping then ⟨.ok (), s, []⟩
  else
    match arrivals with
    | [] => ⟨.error .subscriptionClosed, s, []⟩
    | .broken e :: _ => ⟨.error (.broker e), s, []⟩
    | .silence :: _ => ⟨.ok (), s, []⟩
    | .delivery d :: rest =>
      let handled := w.handle d s
      match handled.result with
      | .error e => ⟨.error e, handled.stores, handled.events⟩
      | .ok _ =>
        let more := w.run (d.requestsStop handled.events) rest handled.stores
        ⟨more.result, more.stores, handled.events ++ more.events⟩

end Worker

end AlertLedger
