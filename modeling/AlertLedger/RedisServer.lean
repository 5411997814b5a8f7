import AlertLedger.Glob
import AlertLedger.OrderedTable

namespace AlertLedger

inductive RedisCommand
  | hset (key field value : String)
  | hkeys (key : String)
  | hdel (key : String) (fields : List String)
  | keys (pattern : String)
deriving DecidableEq

def RedisCommand.words : RedisCommand → List String
  | .hset key field value => ["HSET", key, field, value]
  | .hkeys key => ["HKEYS", key]
  | .hdel key fields => "HDEL" :: key :: fields
  | .keys pattern => ["KEYS", pattern]

inductive RedisReply
  | number (n : Int)
  | text (s : String)
  | texts (ss : List String)
  | nothing
  | refused (reason : String)
deriving DecidableEq

structure RedisServer where
  hashes : OrderedTable String (OrderedTable String String)
  /-- A hash is there as long as it has a field. -/
  fielded : ∀ key h, hashes.get? key = some h → h.entries ≠ []

namespace RedisServer

def empty : RedisServer := ⟨.empty, by simp⟩

/-- The fields of a key, none if it is not there. -/
def hash (s : RedisServer) (key : String) : OrderedTable String String :=
  (s.hashes.get? key).getD .empty

def put (s : RedisServer) (key : String) (h : OrderedTable String String) : RedisServer :=
  if hh : h.entries = [] then
    ⟨s.hashes.keep (· ≠ key), fun k g => by
      simp only [OrderedTable.get?_keep]
      split
      · exact s.fielded k g
      · simp⟩
  else
    ⟨s.hashes.set key h, fun k g => by
      simp only [OrderedTable.get?_set]
      split
      · simp only [Option.some.injEq]
        rintro rfl
        exact hh
      · exact s.fielded k g⟩

theorem hash_put (s : RedisServer) (key other : String) (h : OrderedTable String String) :
    (s.put key h).hash other = if other = key then h else s.hash other := by
  unfold put hash
  split
  next hh =>
    by_cases ho : other = key
    · obtain ⟨es, ha⟩ := h
      simp only at hh
      subst hh
      simp [ho, OrderedTable.empty]
    · simp [ho]
  next => by_cases ho : other = key <;> simp [ho]

/-- Drops fields one after the other, and counts those that were there. -/
def dropFields : List String → OrderedTable String String → Nat × OrderedTable String String
  | [], h => (0, h)
  | f :: fs, h =>
    let rest := dropFields fs (h.keep (· ≠ f))
    ((if (h.get? f).isSome then 1 else 0) + rest.1, rest.2)

/-- What a command does to the server, and its reply. -/
def execute : RedisCommand → RedisServer → RedisReply × RedisServer
  | .hset key field value, s =>
    let h := s.hash key
    (.number (if (h.get? field).isSome then 0 else 1), s.put key (h.set field value))
  | .hkeys key, s => (.texts (s.hash key).keys, s)
  | .hdel _ [], s => (.refused "wrong number of arguments", s)
  | .hdel key fields, s =>
    let dropped := dropFields fields (s.hash key)
    (.number dropped.1, s.put key dropped.2)
  | .keys pattern, s => (.texts (s.hashes.keys.filter (matchesGlob pattern)), s)

end RedisServer

end AlertLedger
