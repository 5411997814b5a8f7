import AlertLedger.Binary64
import AlertLedger.OrderedTable

namespace AlertLedger

inductive MongoValue
  | text (s : String)
  | boolean (b : Bool)
  | int32 (n : Int32)
  | int64 (n : Int64)
  | double (x : Binary64)
  | list (items : List MongoValue)
  | document (fields : List (String × MongoValue))

/-- A document: its fields in order, each of its own name. -/
abbrev MongoDocument := List (String × MongoValue)

/-- The document with a field set, in its place or else at the end. -/
def MongoDocument.set (field : String) (v : MongoValue) : MongoDocument → MongoDocument
  | [] => [(field, v)]
  | e :: es => if field = e.1 then (field, v) :: es else e :: set field v es

@[simp] theorem MongoDocument.lookup_set (field other : String) (v : MongoValue)
    (d : MongoDocument) :
    (d.set field v).lookup other = if other = field then some v else d.lookup other := by
  induction d with
  | nil => simp [set, OrderedTable.lookup_cons_eq_ite]
  | cons e es ih => grind [set, OrderedTable.lookup_cons_eq_ite]

end AlertLedger
