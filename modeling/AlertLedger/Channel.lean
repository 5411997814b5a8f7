import AlertLedger.Confirmation
import AlertLedger.Topology
import AlertLedger.Worker

namespace AlertLedger

inductive ChannelMethod
  | openConnection (host : String)
  | openChannel
  /-- an exchange that routes by topics and outlives the broker -/
  | declareExchange (name : String)
  /-- a queue that outlives the broker -/
  | declareQueue (name : String)
  | bindQueue (queue exchange key : String)
  /-- how many messages may be under way at a time -/
  | limitUnderway (count : Nat)
  | selectConfirms
  | consume (queue tag : String)
  | acknowledge (number : Nat)
  | publish (exchange key payload : String)
  | closeChannel (reason : String)
  | closeConnection (reason : String)
deriving DecidableEq

def ChannelMethod.name : ChannelMethod → String
  | .openConnection _ => "connection.open"
  | .openChannel => "channel.open"
  | .declareExchange _ => "exchange.declare"
  | .declareQueue _ => "queue.declare"
  | .bindQueue _ _ _ => "queue.bind"
  | .limitUnderway _ => "basic.qos"
  | .selectConfirms => "confirm.select"
  | .consume _ _ => "basic.consume"
  | .acknowledge _ => "basic.ack"
  | .publish _ _ _ => "basic.publish"
  | .closeChannel _ => "channel.close"
  | .closeConnection _ => "connection.close"

def channelClosed : BrokerError := .amqp "the channel is closed"

/-- How a broker meets those who connect. -/
inductive BrokerPresence
  | absent
  /-- it drops some connections, and takes the next one -/
  | dropping (drops : Nat)
deriving DecidableEq

/-- Tries to connect until that succeeds, for ever with a broker that is absent. A shutdown that was
requested is seen after an attempt that failed. Counts the attempts that the broker saw. -/
def connect (stopping : Bool) : BrokerPresence → Option (Except BrokerError Unit) × Nat
  | .absent => (if stopping then some (.error .cancelled) else none, 0)
  | .dropping 0 => (some (.ok ()), 1)
  | .dropping (drops + 1) =>
    if stopping then (some (.error .cancelled), 1)
    else
      let later := connect stopping (.dropping drops)
      (later.1, later.2 + 1)

inductive Verdict
  | confirm (c : Confirmation)
  | close
deriving DecidableEq

structure Channel where
  isOpen : Bool
  /-- the broker was asked to confirm what is published -/
  confirms : Bool
  /-- the number of messages that were delivered over the channel -/
  delivered : Nat
  sent : List ChannelMethod

namespace Channel

def opened (host : String) : Channel := ⟨true, false, 0, [.openConnection host, .openChannel]⟩

/-- Sends a method and waits for the reply. The broker refuses a method by closing the channel. -/
def call (refuses : ChannelMethod → Bool) (m : ChannelMethod) (c : Channel) :
    Except BrokerError Unit × Channel :=
  if c.isOpen then
    let c := { c with sent := c.sent ++ [m] }
    if refuses m then (.error channelClosed, { c with isOpen := false })
    else (.ok (), { c with confirms := c.confirms || m = .selectConfirms })
  else (.error channelClosed, c)

/-- Makes calls one after the other. The first that fails ends them. -/
def callAll (refuses : ChannelMethod → Bool) :
    List ChannelMethod → Channel → Except BrokerError Unit × Channel
  | [], c => (.ok (), c)
  | m :: ms, c =>
    match c.call refuses m with
    | (.error e, c) => (.error e, c)
    | (.ok (), c) => callAll refuses ms c

/-- What has to be there before messages flow: the exchanges, the queue and its binding, one
message under way at a time, and confirmations. -/
def declarations (t : Topology) : List ChannelMethod := [
  .declareExchange t.storeExchange, .declareQueue t.alertQueue,
  .bindQueue t.alertQueue t.storeExchange t.alertRoutingKey, .limitUnderway 1, .selectConfirms,
  .declareExchange t.healthExchange]

def closings : List ChannelMethod :=
  [.closeChannel "alert store shutting down", .closeConnection "alert store shutting down"]

/-- What comes of a heartbeat about which the broker does this. It confirms only if it was asked
to. -/
def publication (t : Topology) (v : Verdict) (c : Channel) : Publication :=
  if c.confirms then
    match v with
    | .confirm confirmation => confirmation.publication t.healthExchange
    | .close => .broken channelClosed
  else Confirmation.notRequested.publication t.healthExchange

def publish (refuses : ChannelMethod → Bool) (t : Topology) (payload : String) (v : Verdict)
    (c : Channel) : Publication × Channel :=
  match c.call refuses (.publish t.healthExchange t.heartbeatRoutingKey payload) with
  | (.error e, c) => (.broken e, c)
  | (.ok (), c) => (c.publication t v, { c with isOpen := v ≠ .close })

/-- Acknowledges the message that was delivered last. The broker does not reply. -/
def acknowledge (c : Channel) : Except BrokerError Unit × Channel :=
  if c.isOpen then (.ok (), { c with sent := c.sent ++ [.acknowledge c.delivered] })
  else (.error channelClosed, c)

/-- The channel after something that the worker did. Its acknowledgement is for a message that was
not counted yet. -/
def follow (t : Topology) (c : Channel) : WorkerEvent → Channel
  | .acked => { c with delivered := c.delivered + 1 }.acknowledge.2
  | .published payload =>
    { c with sent := c.sent ++ [.publish t.healthExchange t.heartbeatRoutingKey payload] }
  | .store _ | .ackFailed => c

end Channel

/-- How a subscription ends behind its messages. -/
inductive SubscriptionEnd
  | cancelled
  | channelClosed
deriving DecidableEq

/-- A subscription to a queue: the messages that are still to come, and what follows them. It
has ended once its end was seen. -/
structure ChannelSubscription where
  waiting : List Bytes
  ending : SubscriptionEnd
  ended : Bool

namespace ChannelSubscription

/-- Waits for the next message. An end of the channel is reported once. -/
def next (s : ChannelSubscription) (c : Channel) :
    Option (Except BrokerError Bytes) × ChannelSubscription × Channel :=
  if s.ended then (none, s, c)
  else if c.isOpen then
    match s.waiting, s.ending with
    | body :: rest, _ =>
      (some (.ok body), { s with waiting := rest }, { c with delivered := c.delivered + 1 })
    | [], .cancelled => (none, { s with ended := true }, c)
    | [], .channelClosed =>
      (some (.error AlertLedger.channelClosed), { s with ended := true }, { c with isOpen := false })
  else (some (.error AlertLedger.channelClosed), { s with ended := true }, c)

end ChannelSubscription

/-- The work on what a subscription brings over a channel: messages, each with what the broker does
about the heartbeat for it, and then an end. -/
def Channel.work (w : Worker) (t : Topology) (clock : Binary64)
    (messages : List (Bytes × Verdict)) (ending : SubscriptionEnd) (s : Stores) (c : Channel) :
    Work Unit × Channel :=
  let arrival (m : Bytes × Verdict) : Arrival :=
    .delivery ⟨m.1, fun _ _ => false, none, c.publication t m.2, clock, fun _ => false⟩
  let last := match ending with
    | .cancelled => []
    | .channelClosed => [.broken AlertLedger.channelClosed]
  let done := w.run false (messages.map arrival ++ last) s
  let c := done.events.foldl (follow t) c
  (done, match done.result with
    | .error (.broker _) | .error (.heartbeat _) => { c with isOpen := false }
    | _ => c)

end AlertLedger
