import AlertLedger.History
import AlertLedger.Snapshot

namespace AlertLedger

inductive SnapshotCall
  | setField (hash field value : String)
  | fieldsOf (hash : String)
  | removeFields (hash : String) (fields : List String)
  | hashesStarting (start : String)
deriving DecidableEq

/-- What the store answers: the fields, how many of them were removed, or the hashes. -/
@[reducible] def SnapshotCall.Answer : SnapshotCall → Type
  | .setField _ _ _ => Unit
  | .fieldsOf _ | .hashesStarting _ => List String
  | .removeFields _ _ => Nat

/-- What a call does to tables of fields, and its answer. -/
def FieldTables.answer : (c : SnapshotCall) → FieldTables → c.Answer × FieldTables
  | .setField hash field value, t => ((), t.set hash field value)
  | .fieldsOf hash, t => (t.fields hash, t)
  | .removeFields hash fields, t => t.remove hash fields
  | .hashesStarting start, t => (t.hashesStarting start, t)

theorem FieldTables.Fielded.answer {t : FieldTables} (fielded : t.Fielded) (c : SnapshotCall) :
    (t.answer c).2.Fielded := by
  cases c with
  | setField hash field value => exact fielded.set hash field value
  | fieldsOf hash => exact fielded
  | removeFields hash fields => exact fielded.remove hash fields
  | hashesStarting start => exact fielded

namespace Snapshot

def answer (c : SnapshotCall) (s : Snapshot) : c.Answer × Snapshot :=
  let taken := s.tables.answer c
  (taken.1, ⟨taken.2, s.fielded.answer c⟩)

@[simp] theorem answer_setField (s : Snapshot) (hash field value : String) :
    s.answer (.setField hash field value) = ((), s.set hash field value) := rfl

@[simp] theorem answer_fieldsOf (s : Snapshot) (hash : String) :
    s.answer (.fieldsOf hash) = (s.fields hash, s) := rfl

@[simp] theorem answer_removeFields (s : Snapshot) (hash : String) (fields : List String) :
    s.answer (.removeFields hash fields) = (s.removed hash fields, s.remove hash fields) := rfl

@[simp] theorem answer_hashesStarting (s : Snapshot) (start : String) :
    s.answer (.hashesStarting start) = (s.hashesStarting start, s) := rfl

end Snapshot

structure HistoryEntry where
  chain : String
  summary : Summary
  timestamp : Binary64
  capacity : UInt32
deriving DecidableEq

/-- One call to a store. It is taken as a whole or not at all. -/
inductive StoreCall
  | snapshot (c : SnapshotCall)
  | history (e : HistoryEntry)
deriving DecidableEq

@[reducible] def StoreCall.Answer : StoreCall → Type
  | .snapshot c => c.Answer
  | .history _ => Unit

inductive StoreError
  | lock
  | mongo
  | redis
deriving DecidableEq

def StoreError.message : StoreError → String
  | .lock => "failed to lock the store"
  | .mongo => "mongodb error"
  | .redis => "redis error"

/-- The way to stores: what a call makes of their state `σ`, and what comes back. -/
abbrev StoreAccess (σ : Type) := (c : StoreCall) → σ → Except StoreError c.Answer × σ

/-- Calls that are made one after the other, each of them depending on the answers so far. -/
inductive Plan (α : Type)
  | done (result : α)
  | ask (call : StoreCall) (next : call.Answer → Plan α)

namespace Plan

def bind {α β : Type} : Plan α → (α → Plan β) → Plan β
  | .done a, f => f a
  | .ask c next, f => .ask c fun answer => (next answer).bind f

instance : Monad Plan where
  pure := .done
  bind := bind

def call (c : StoreCall) : Plan c.Answer := .ask c .done

/-- Makes the calls of a plan. The first call that fails ends it. -/
def perform {σ α : Type} (access : StoreAccess σ) : Plan α → σ → Except StoreError α × σ
  | .done a, s => (.ok a, s)
  | .ask c next, s =>
    match access c s with
    | (.ok a, s) => (next a).perform access s
    | (.error e, s) => (.error e, s)

end Plan

structure Stores where
  history : History
  snapshot : Snapshot

namespace Stores

def empty : Stores := ⟨.empty, .empty⟩

def answer : (c : StoreCall) → Stores → c.Answer × Stores
  | .snapshot c, s =>
    let taken := s.snapshot.answer c
    (taken.1, { s with snapshot := taken.2 })
  | .history e, s =>
    ((), { s with history := s.history.push e.chain e.summary e.timestamp e.capacity })

end Stores

/-- A call that was made, and whether the store took it. -/
structure CallRecord where
  call : StoreCall
  taken : Bool
deriving DecidableEq

/-- The stores while calls are made, with the calls so far. -/
structure StoreSession where
  stores : Stores
  calls : List CallRecord

namespace StoreSession

def start (s : Stores) : StoreSession := ⟨s, []⟩

/-- Calls at stores in memory, some of which fail. `fails` tells it from the number of the calls
before; a call that fails changes nothing. -/
def access (fails : Nat → StoreCall → Bool) : StoreAccess StoreSession
  | c, s =>
    if fails s.calls.length c then (.error .lock, { s with calls := s.calls ++ [⟨c, false⟩] })
    else
      let taken := s.stores.answer c
      (.ok taken.1, ⟨taken.2, s.calls ++ [⟨c, true⟩]⟩)

end StoreSession

end AlertLedger
