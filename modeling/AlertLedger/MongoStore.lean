import AlertLedger.MongoUpsert
import AlertLedger.StoreCall

namespace AlertLedger

structure MongoCommand where
  collection : String
  upsert : MongoUpsert

inductive MongoReply
  | changed
  | added
  | refused
deriving DecidableEq

namespace MongoCommand

def summaryDocument (s : Summary) : MongoDocument := [
  ("origin", .text s.origin), ("alert_name", .text s.name), ("severity", .text s.severity),
  ("message", .text s.message), ("metric", .text s.metric), ("timestamp", .text s.timestamp)]

/-- Finds the open page of a chain or makes a new one, and adds an alert, both in one step. -/
def ofEntry (e : HistoryEntry) : MongoCommand where
  collection := e.chain
  upsert := {
    conditions := [
      .equals "doc_type" alertPageKind, .below "n_alerts" (.ofNat e.capacity.toNat)]
    changes := [
      .push "alerts" (.document (summaryDocument e.summary)), .lower "first" e.timestamp,
      .raise "last" e.timestamp, .add "n_alerts" 1] }

end MongoCommand

/-- A history that a server keeps, each chain in a collection of its own. -/
structure MongoStore where
  database : String
deriving DecidableEq

namespace MongoStore

/-- Adds an alert. `send` takes a command to the server. -/
def push {σ : Type} (send : MongoCommand → σ → MongoReply × σ) (e : HistoryEntry) (s : σ) :
    Except StoreError Unit × σ :=
  let sent := send (.ofEntry e) s
  (match sent.1 with
    | .changed | .added => .ok ()
    | .refused => .error .mongo, sent.2)

def description : String := "MongoStore"

end MongoStore

end AlertLedger
