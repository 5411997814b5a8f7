import AlertLedger.StoreCall

namespace AlertLedger

inductive Change
  | none
  | updated (hash field : String)
  | swept (hashes removed : Nat)
deriving DecidableEq

namespace Plan

/-- Drops the fields of a hash that a reset is about, and counts them. -/
def sweepHash (r : Reset) (hash : String) : Plan Nat := do
  let fields ← call (.snapshot (.fieldsOf hash))
  call (.snapshot (.removeFields hash (fields.filter r.drops)))

/-- Sweeps hashes one after the other, and counts the fields that were dropped. -/
def sweepHashes (r : Reset) : List String → Plan Nat
  | [] => pure 0
  | hash :: rest => do
    let removed ← sweepHash r hash
    let more ← sweepHashes r rest
    pure (removed + more)

/-- The hashes that a scope covers. No index lists the chains, so they are found by the start of
their names. -/
def hashesOf : ResetScope → Plan (List String)
  | .allChains => call (.snapshot (.hashesStarting chainHashStem))
  | .chain parent => pure [chainHash parent]

def reset (r : Reset) : Plan Change := do
  let hashes ← hashesOf r.scope
  let removed ← sweepHashes r hashes
  pure (.swept hashes.length removed)

/-- Writes the alert's severity and message over the field of its metric and origin. -/
def update (a : Alert) : Except MetricError (Plan Change) :=
  match Metric.fieldKeyOf a.metric a.origin with
  | .error e => .error e
  | .ok field =>
    let hash := chainHash a.parent
    .ok (do
      call (.snapshot (.setField hash field (LatestState.ofAlert a).toJson))
      pure (.updated hash field))

def upkeep (a : Alert) : Except MetricError (Plan Change) :=
  if a.isInternal then
    match Reset.ofAlert? a with
    | some r => .ok (reset r)
    | none => .ok (pure .none)
  else update a

/-- What an alert asks of the history; the answer tells whether it is recorded. -/
def record (capacity : UInt32) (a : Alert) : Plan Bool :=
  if a.isInternal then pure false
  else do
    call (.history ⟨a.parent, .ofAlert a, a.timestamp, capacity⟩)
    pure true

end Plan

inductive UpkeepError
  | metric (e : MetricError)
  | store (e : StoreError)
deriving DecidableEq

def UpkeepError.message : UpkeepError → String
  | .metric e => e.message
  | .store e => "key-value store error: " ++ e.message

/-- Makes the calls of a plan, if there is one. -/
def runUpkeep {σ : Type} (access : StoreAccess σ) (plan : Except MetricError (Plan Change))
    (s : σ) : Except UpkeepError Change × σ :=
  match plan with
  | .error e => (.error (.metric e), s)
  | .ok p =>
    match p.perform access s with
    | (.error e, s) => (.error (.store e), s)
    | (.ok c, s) => (.ok c, s)

end AlertLedger
