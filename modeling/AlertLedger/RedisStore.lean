import AlertLedger.IntegerText
import AlertLedger.QuotedText
import AlertLedger.RedisServer
import AlertLedger.StoreCall

namespace AlertLedger

/-- A snapshot that a server keeps. Those who share a server may each have a space of their own,
which their keys start with. -/
structure RedisStore where
  space : Option String
deriving DecidableEq

namespace RedisStore

def key (r : RedisStore) (hash : String) : String :=
  match r.space with
  | some space => space ++ ":" ++ hash
  | none => hash

def rest? : List Char → List Char → Option (List Char)
  | [], cs => some cs
  | _ :: _, [] => none
  | a :: start, c :: cs => if a = c then rest? start cs else none

/-- The hash of a server's key, if the key is in the space. -/
def hash? (r : RedisStore) (key : String) : Option String :=
  match r.space with
  | some space => (rest? (space.toList ++ [':']) key.toList).map .ofList
  | none => some key

/-- A pattern for the keys of the hashes that start with a text. -/
def startPattern (r : RedisStore) (start : String) : String :=
  .ofList (escapedForGlob (r.key start).toList ++ ['*'])

end RedisStore

namespace RedisReply

def taken : RedisReply → Except StoreError Unit
  | .refused _ => .error .redis
  | _ => .ok ()

/-- A list of texts. One text alone is a list of one. -/
def readTexts : RedisReply → Except StoreError (List String)
  | .texts ss => .ok ss
  | .text s => .ok [s]
  | .nothing => .ok []
  | .number _ | .refused _ => .error .redis

/-- A number of 64 bits, without a sign. A text may stand for it. -/
def readCount : RedisReply → Except StoreError Nat
  | .number n => .ok (n % Nat.pow 2 64).toNat
  | .text s =>
    match readWord s with
    | .ok n => .ok n.toNat
    | .error _ => .error .redis
  | .texts _ | .nothing | .refused _ => .error .redis

end RedisReply

namespace RedisStore

/-- A call at the store. `send` takes a command to the server. No command removes an empty list of
fields, so none is sent for it. -/
def answer {σ : Type} (r : RedisStore) (send : RedisCommand → σ → RedisReply × σ) :
    (c : SnapshotCall) → σ → Except StoreError c.Answer × σ
  | .setField hash field value, s =>
    let sent := send (.hset (r.key hash) field value) s
    (sent.1.taken, sent.2)
  | .fieldsOf hash, s =>
    let sent := send (.hkeys (r.key hash)) s
    (sent.1.readTexts, sent.2)
  | .removeFields _ [], s => (.ok 0, s)
  | .removeFields hash (f :: fs), s =>
    let sent := send (.hdel (r.key hash) (f :: fs)) s
    (sent.1.readCount, sent.2)
  | .hashesStarting start, s =>
    let sent := send (.keys (r.startPattern start)) s
    (sent.1.readTexts.map (·.filterMap r.hash?), sent.2)

def description (r : RedisStore) : String :=
  let space := match r.space with
    | some space => "Some(" ++ quotedForMessage space ++ ")"
    | none => "None"
  "RedisStore \x7b namespace: " ++ space ++ " \x7d"

end RedisStore

end AlertLedger
