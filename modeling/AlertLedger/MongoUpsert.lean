import AlertLedger.MongoDocument

namespace AlertLedger

inductive MongoCondition
  | equals (field text : String)
  | below (field : String) (bound : Int64)

namespace MongoCondition

def holds (d : MongoDocument) : MongoCondition → Bool
  | equals field text =>
    match d.lookup field with
    | some (.text s) => s = text
    | _ => false
  | below field bound =>
    match d.lookup field with
    | some (.int32 n) => n.toInt < bound.toInt
    | some (.int64 n) => n.toInt < bound.toInt
    | _ => false

/-- The condition as a field of a filter. -/
def written : MongoCondition → String × MongoValue
  | equals field text => (field, .text text)
  | below field bound => (field, .document [("$lt", .int64 bound)])

/-- The field that a new document has because of the condition. -/
def seed? : MongoCondition → Option (String × MongoValue)
  | equals field text => some (field, .text text)
  | below _ _ => none

end MongoCondition

inductive MongoChange
  | push (field : String) (item : MongoValue)
  | lower (field : String) (x : Binary64)
  | raise (field : String) (x : Binary64)
  | add (field : String) (n : Int32)

namespace MongoChange

/-- An integer as a field holds it: in 32 bits if it fits, else in 64. -/
def integer? (n : Int) : Option MongoValue :=
  if (Int32.ofInt n).toInt = n then some (.int32 (.ofInt n))
  else if (Int64.ofInt n).toInt = n then some (.int64 (.ofInt n))
  else none

/-- The field after the change, which sets it if it was not there. A field of another type is
refused. -/
def value? (d : MongoDocument) : MongoChange → Option MongoValue
  | push field item =>
    match d.lookup field with
    | none => some (.list [item])
    | some (.list items) => some (.list (items ++ [item]))
    | some _ => none
  | lower field x =>
    match d.lookup field with
    | none => some (.double x)
    | some (.double y) => some (.double (y.min x))
    | some _ => none
  | raise field x =>
    match d.lookup field with
    | none => some (.double x)
    | some (.double y) => some (.double (y.max x))
    | some _ => none
  | add field n =>
    match d.lookup field with
    | none => some (.int32 n)
    | some (.int32 m) => integer? (m.toInt + n.toInt)
    | some (.int64 m) =>
      let sum := m.toInt + n.toInt
      if (Int64.ofInt sum).toInt = sum then some (.int64 (.ofInt sum)) else none
    | some _ => none

def field : MongoChange → String
  | push field _ | lower field _ | raise field _ | add field _ => field

def applyTo? (c : MongoChange) (d : MongoDocument) : Option MongoDocument :=
  (c.value? d).map fun v => d.set c.field v

/-- The change as a field of an update. -/
def written : MongoChange → String × MongoValue
  | push field item => ("$push", .document [(field, item)])
  | lower field x => ("$min", .document [(field, .double x)])
  | raise field x => ("$max", .document [(field, .double x)])
  | add field n => ("$inc", .document [(field, .int32 n)])

end MongoChange

/-- Changes to one document of those that fulfil all conditions, or to a new one if there is no
such document. -/
structure MongoUpsert where
  conditions : List MongoCondition
  changes : List MongoChange

namespace MongoUpsert

def selects (u : MongoUpsert) (d : MongoDocument) : Bool := u.conditions.all (·.holds d)

def change? (u : MongoUpsert) (d : MongoDocument) : Option MongoDocument :=
  u.changes.foldlM (fun d c => c.applyTo? d) d

def seed (u : MongoUpsert) : MongoDocument := u.conditions.filterMap (·.seed?)

def filter (u : MongoUpsert) : MongoDocument := u.conditions.map (·.written)

def update (u : MongoUpsert) : MongoDocument := u.changes.map (·.written)

/-- What a server may make of a collection. It is free in its choice of the document. -/
inductive Makes (u : MongoUpsert) : List MongoDocument → List MongoDocument → Prop
  | changed {d e : MongoDocument} (front back : List MongoDocument) (selected : u.selects d)
      (change : u.change? d = some e) : Makes u (front ++ d :: back) (front ++ e :: back)
  | added {ds : List MongoDocument} {e : MongoDocument} (none_selected : ∀ d ∈ ds, ¬ u.selects d)
      (change : u.change? u.seed = some e) : Makes u ds (ds ++ [e])

end MongoUpsert

end AlertLedger
