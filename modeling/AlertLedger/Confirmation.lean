import AlertLedger.Liveness

namespace AlertLedger

/-- How a broker confirms a message that has to reach a queue. -/
inductive Confirmation
  | taken
  /-- taken, and given back for want of a queue -/
  | returned
  | rejected
  /-- the broker was never asked to confirm -/
  | notRequested
deriving DecidableEq

/-- A message is delivered only if it was taken and not given back. -/
def Confirmation.publication (exchange : String) : Confirmation → Publication
  | .taken => .confirmed
  | .returned => .refused ("returned as unroutable by exchange " ++ exchange)
  | .rejected => .refused ("nacked by exchange " ++ exchange)
  | .notRequested =>
    .refused ("publisher confirms are not enabled on the channel publishing to " ++ exchange)

def undeliveredMessage (reason : String) : String := "message was not delivered: " ++ reason

end AlertLedger
