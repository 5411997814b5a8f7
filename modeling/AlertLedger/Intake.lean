import AlertLedger.Upkeep

namespace AlertLedger

/-- Why a message was not taken in. Such a failure concerns this message alone. -/
inductive IntakeError
  | undecodable (e : DecodeError)
  | snapshot (e : UpkeepError)
  | history (e : StoreError)
deriving DecidableEq

def IntakeError.message : IntakeError → String
  | .undecodable e => "failed to decode alert: " ++ e.message
  | .snapshot e => "failed to update alert metrics: " ++ e.message
  | .history e => "failed to save alert history: " ++ e.message

/-- Takes in a message: the alert is decoded, brings the snapshot up to date and then enters the
history. The two writes are independent, so the first stays when the second fails. -/
def takeIn {σ : Type} (access : StoreAccess σ) (capacity : UInt32) (body : Bytes) (s : σ) :
    Except IntakeError Alert × σ :=
  match Alert.decode body with
  | .error e => (.error (.undecodable e), s)
  | .ok a =>
    match runUpkeep access (Plan.upkeep a) s with
    | (.error e, s) => (.error (.snapshot e), s)
    | (.ok _, s) =>
      match (Plan.record capacity a).perform access s with
      | (.error e, s) => (.error (.history e), s)
      | (.ok _, s) => (.ok a, s)

end AlertLedger
