import AlertLedger.Engine
import AlertLedger.MongoAddress
import AlertLedger.MongoStore
import AlertLedger.RedisStore

namespace AlertLedger

structure Surroundings where
  /-- a server answers at this address -/
  answers : String → Bool
  /-- this file can be read as a list of certificates, which may be empty -/
  holdsAuthorities : String → Bool
  /-- this file can be read as a certificate with its key -/
  holdsKey : String → Bool

def Surroundings.empty : Surroundings := ⟨fun _ => false, fun _ => false, fun _ => false⟩

inductive OpenStores
  | memory
  | remote (history : MongoStore) (snapshot : RedisStore)
deriving DecidableEq

namespace OpenStores

/-- Opens the stores. Of the history's address only the form is looked at, and the files that it
names, while the snapshot's server has to answer. -/
def ofEngine (reach : Surroundings) (remote : RemoteStores) :
    Engine → Except StoreError OpenStores
  | .memory => .ok .memory
  | .remote =>
    match MongoAddress.ofText? remote.mongoUri with
    | none => .error .mongo
    | some address =>
      if !(address.options.authorities.all reach.holdsAuthorities &&
          address.options.certificateKey.all reach.holdsKey) then .error .mongo
      else if reach.answers remote.redisUrl then
        .ok (.remote ⟨remote.mongoDatabase⟩ ⟨remote.redisNamespace⟩)
      else .error .redis

end OpenStores

/-- The way to stores on two servers. -/
def remoteAccess {μ ρ : Type} (redis : RedisStore)
    (sendMongo : MongoCommand → μ → MongoReply × μ)
    (sendRedis : RedisCommand → ρ → RedisReply × ρ) : StoreAccess (μ × ρ)
  | .snapshot c, s =>
    let answered := redis.answer sendRedis c s.2
    (answered.1, s.1, answered.2)
  | .history e, s =>
    let pushed := MongoStore.push sendMongo e s.1
    (pushed.1, pushed.2, s.2)

end AlertLedger
