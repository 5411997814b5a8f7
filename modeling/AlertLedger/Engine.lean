namespace AlertLedger

/-- Where the stores are: in this process, until it ends, or on servers. -/
inductive Engine
  | memory
  | remote
deriving DecidableEq

namespace Engine

def name : Engine → String
  | memory => "memory"
  | remote => "remote"

/-- Reads a name in letters of either case. Those of ASCII are enough: no other letter has one of
these names' letters for its lower case. -/
def ofName? (text : String) : Option Engine :=
  [memory, remote].find? fun e => e.name = text.toLower

def refusal (text : String) : String :=
  "Invalid engine type: " ++ text ++ ". Expected memory or remote"

end Engine

structure RemoteStores where
  mongoUri : String := "mongodb://127.0.0.1:27017"
  mongoDatabase : String := "panicdb"
  redisUrl : String := "redis://127.0.0.1:6379"
  redisNamespace : Option String := none
deriving DecidableEq

end AlertLedger
