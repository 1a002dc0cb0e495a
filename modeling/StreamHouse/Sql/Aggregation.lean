import StreamHouse.Sql.Row
import Mathlib.Data.List.Dedup

/-!
# Aggregations

`compute_aggregation` over the messages of a window or a group, and the key of a group.
-/

namespace StreamHouse.Sql

/-- The most rows that a query returns. -/
def maxRows : Nat := 10000

def u64Json (n : BitVec 64) : Json := .number (.posInt n)

def i64Json (n : Int) : Json :=
  if 0 ≤ n then .number (.posInt (BitVec.ofInt 64 n)) else .number (.negInt (Fin.ofNat (2 ^ 63) (-n - 1).toNat))

inductive WindowAggregation where
  | count (name : Option String)
  | countDistinct (column : String) (name : Option String)
  | sum (path : String) (name : Option String)
  | avg (path : String) (name : Option String)
  | min (path : String) (name : Option String)
  | max (path : String) (name : Option String)
  | first (path : String) (name : Option String)
  | last (path : String) (name : Option String)

def extractJsonPathForStats (json : Json) (path : String) : Json := extractJsonPath json path

/-- `Value::as_f64`. -/
def asF64 : Json → Option F64
  | .number n => some n.asF64
  | _ => none

def extractNumericFromMsg (msg : MessageRow) (path : String) : Option F64 :=
  msg.value.json.bind fun json => asF64 (extractJsonPathForStats json path)

def extractValueFromMsg (msg : MessageRow) (path : String) : Json :=
  match msg.value.json with
  | some json => extractJsonPathForStats json path
  | none => .null

/-- An `i64` that is a length. -/
def lengthJson (n : Nat) : Json := .number (.posInt (BitVec.ofNat 64 n))

/-- `json!` of an `f64`: an infinity is null. -/
def floatJson (f : Option F64) : Json := f.elim .null fun f => .number (.float f)

/-- What `COUNT(DISTINCT column)` takes of a message. -/
def distinctValue (column : String) (msg : MessageRow) : String :=
  if column = "key" then (msg.key.map Text.chars).getD ""
  else if column = "*" then s!"{msg.topic}:{msg.partition.toNat}:{msg.offset.toNat}"
  else msg.value.chars

def computeAggregation (agg : WindowAggregation) (messages : List MessageRow) : Json :=
  match agg with
  | .count _ => lengthJson messages.length
  | .countDistinct column _ => lengthJson (messages.map (distinctValue column)).dedup.length
  | .sum path _ => floatJson (F64.sum (messages.filterMap fun m => extractNumericFromMsg m path))
  | .avg path _ =>
    let values := messages.filterMap fun m => extractNumericFromMsg m path
    if values = [] then .null else floatJson (F64.mean values)
  | .min path _ => floatJson (F64.least (messages.filterMap fun m => extractNumericFromMsg m path))
  | .max path _ => floatJson (F64.greatest (messages.filterMap fun m => extractNumericFromMsg m path))
  | .first path _ => (messages.head?.map fun m => extractValueFromMsg m path).getD .null
  | .last path _ => (messages.getLast?.map fun m => extractValueFromMsg m path).getD .null

/-- `path.starts_with("$.")`. -/
def isPath (column : String) : Bool := ['$', '.'].isPrefixOf column.toList

-- `to_string` of a JSON value
variable (display : Json → String)

/-- The part of a group key that one column gives. -/
def groupPart (msg : MessageRow) (column : String) : String :=
  if column = "key" then (msg.key.map Text.chars).getD ""
  else if column = "partition" then toString msg.partition.toNat
  else if isPath column then
    match msg.value.json with
    | some json => display (extractJsonPathForStats json column)
    | none => "null"
  else ""

def extractGroupKey (msg : MessageRow) (groupBy : List String) : Option String :=
  if groupBy = [] then none else some ("|".intercalate (groupBy.map (groupPart display msg)))

end StreamHouse.Sql
