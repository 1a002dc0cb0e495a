import StreamHouse.Sql.Aggregation
import StreamHouse.Sql.Where
import StreamHouse.Lib.OrderedMap
import Mathlib.Data.List.Sort

/-!
# Joins of two topics

`execute_join` over the messages of the two topics: the filters that can be pushed down, the join
through an index or a table, the limit, the projection and the sort.
-/

namespace StreamHouse.Sql

open Lib OrderedMap

inductive JoinType where
  | inner
  | left
  | right
  | full
deriving DecidableEq

structure TableRef where
  topic : String
  name : Option String
  isTable : Bool

def TableRef.qualifier (ref : TableRef) : String := ref.name.getD ref.topic

/-- A qualifier and the path of a field. -/
abbrev JoinColumn := String × String

structure JoinCondition where
  left : JoinColumn
  right : JoinColumn

inductive JoinSelectColumn where
  | allFrom (qualifier : Option String)
  | qualifiedColumn (qualifier column : String) (name : Option String)
  | qualifiedJsonExtract (qualifier path : String) (name : Option String)

structure OrderBy where
  column : String
  descending : Bool

structure JoinQuery where
  left : TableRef
  right : TableRef
  joinType : JoinType
  condition : JoinCondition
  columns : List JoinSelectColumn
  filters : List Filter
  orderBy : Option OrderBy
  limit : Option Nat

/-! ## Keys and filters -/

-- `to_string` of a JSON value
variable (display : Json → String)

def jsonJoinKey (msg : MessageRow) (path : String) : Option String :=
  msg.value.json.bind fun json =>
    match extractJsonPathForStats json path with
    | .string s => some s
    | .bool b => some (if b then "true" else "false")
    | .null => none
    | other => some (display other)

def extractJoinKey (msg : MessageRow) (path : String) : Option String :=
  if path = "key" then msg.key.map Text.chars
  else if path = "offset" then some (toString msg.offset.toNat)
  else if path = "partition" then some (toString msg.partition.toNat)
  else if path = "timestamp" then some (toString msg.timestamp)
  else if isPath path then jsonJoinKey display msg path
  else jsonJoinKey display msg ("$." ++ path)

/-- The filters that are applied before the join; the table is not looked at. -/
def filterAppliesToSide : Filter → TableRef → Bool
  | .partitionEquals _, _ => true
  | .offsetGte _, _ => true
  | .offsetLt _, _ => true
  | .offsetEquals _, _ => true
  | .timestampGte _, _ => true
  | .timestampLt _, _ => true
  | _, _ => false

def applyPushdownFilter (msg : MessageRow) : Filter → Bool
  | .partitionEquals p => msg.partition = p
  | .offsetGte o => !decide (msg.offset < o)
  | .offsetLt o => !decide (o ≤ msg.offset)
  | .offsetEquals o => msg.offset = o
  | .timestampGte ts => !decide (msg.timestamp < ts)
  | .timestampLt ts => !decide (ts ≤ msg.timestamp)
  | _ => true

def applyPushdownFilters (msg : MessageRow) (filters : List Filter) : Bool := filters.all (applyPushdownFilter msg)

/-! ## The join -/

abbrev JoinedRow := Option MessageRow × Option MessageRow

def JoinType.keepsLeft (joinType : JoinType) : Bool := joinType = .left || joinType = .full

def JoinType.keepsRight (joinType : JoinType) : Bool := joinType = .right || joinType = .full

/-- The positions of the messages with a key. -/
def buildJoinIndex (messages : List MessageRow) (path : String) : List (String × List Nat) :=
  (messages.zipIdx.filterMap fun (msg, i) => (extractJoinKey display msg path).map fun key => (key, i)).foldl push []

def performJoin (leftMessages rightMessages : List MessageRow) (rightIndex : List (String × List Nat)) (leftPath : String)
    (joinType : JoinType) : List JoinedRow :=
  let hits (msg : MessageRow) : Option (List Nat) := (extractJoinKey display msg leftPath).bind (get rightIndex)
  let results := leftMessages.flatMap fun msg =>
    match hits msg with
    | some indices => indices.filterMap fun i => rightMessages[i]?.map fun right => (some msg, some right)
    | none => if joinType.keepsLeft then [(some msg, none)] else []
  let matched := leftMessages.flatMap fun msg => (hits msg).getD []
  results ++
    if joinType.keepsRight then (rightMessages.zipIdx.filter fun (_, i) => decide (i ∉ matched)).map fun (right, _) => (none, some right)
    else []

/-- The latest message of each key. -/
def buildTableState (messages : List MessageRow) (path : String) : List (String × MessageRow) :=
  (messages.filterMap fun msg => (extractJoinKey display msg path).map fun key => (key, msg)).foldl
    (fun table entry => insert entry.1 entry.2 table) []

/-- The order in which a table is gone through, a `HashMap`. -/
structure TableOrder where
  order : List (String × MessageRow) → List (String × MessageRow)
  reordered : ∀ table, (order table).Perm table

def performStreamTableJoin (iteration : TableOrder) (streamMessages : List MessageRow) (table : List (String × MessageRow))
    (streamPath : String) (joinType : JoinType) : List JoinedRow :=
  let hit (msg : MessageRow) : Option (String × MessageRow) :=
    (extractJoinKey display msg streamPath).bind fun key => (get table key).map fun row => (key, row)
  let results := streamMessages.flatMap fun msg =>
    match hit msg with
    | some (_, row) => [(some msg, some row)]
    | none => if joinType.keepsLeft then [(some msg, none)] else []
  let matched := streamMessages.filterMap fun msg => (hit msg).map Prod.fst
  results ++
    if joinType.keepsRight then ((iteration.order table).filter fun (key, _) => decide (key ∉ matched)).map fun (_, row) => (none, some row)
    else []

def swapJoinType : JoinType → JoinType
  | .inner => .inner
  | .left => .right
  | .right => .left
  | .full => .full

/-! ## The rows -/

def keyJson (msg : MessageRow) : Json := (msg.key.map fun key => Json.string key.chars).getD .null

def messageToRowValues : Option MessageRow → List Json
  | some m => [.string m.topic, u64Json (m.partition.setWidth 64), u64Json m.offset, keyJson m, .string m.value.chars, i64Json m.timestamp]
  | none => [.null, .null, .null, .null, .null, .null]

def resolveQualifier (qualifier : String) (leftMsg rightMsg : Option MessageRow) (leftRef rightRef : TableRef) : Option MessageRow :=
  if qualifier = "" then leftMsg.or rightMsg
  else if qualifier = leftRef.qualifier then leftMsg
  else if qualifier = rightRef.qualifier then rightMsg
  else none

def extractColumnValue (msg : Option MessageRow) (column : String) : Json :=
  match msg with
  | none => .null
  | some m =>
    if column = "topic" then .string m.topic
    else if column = "partition" then u64Json (m.partition.setWidth 64)
    else if column = "offset" then u64Json m.offset
    else if column = "key" then keyJson m
    else if column = "value" then .string m.value.chars
    else if column = "timestamp" then i64Json m.timestamp
    else extractValueFromMsg m (if isPath column then column else "$." ++ column)

def projectColumn (leftMsg rightMsg : Option MessageRow) (leftRef rightRef : TableRef) : JoinSelectColumn → List Json
  | .allFrom none => messageToRowValues leftMsg ++ messageToRowValues rightMsg
  | .allFrom (some qualifier) => messageToRowValues (if qualifier = leftRef.qualifier then leftMsg else rightMsg)
  | .qualifiedColumn qualifier column _ => [extractColumnValue (resolveQualifier qualifier leftMsg rightMsg leftRef rightRef) column]
  | .qualifiedJsonExtract qualifier path _ =>
    [((resolveQualifier qualifier leftMsg rightMsg leftRef rightRef).map fun m => extractValueFromMsg m path).getD .null]

def projectJoinRow (query : JoinQuery) (row : JoinedRow) : List Json :=
  query.columns.flatMap (projectColumn row.1 row.2 query.left query.right)

/-- The names of the columns of one table. -/
def tableColumns (qualifier : String) : List String :=
  ["topic", "partition", "offset", "key", "value", "timestamp"].map fun column => qualifier ++ "." ++ column

/-- `{qualifier}.{column}`, without the point where no qualifier is given. -/
def qualifiedName (qualifier column : String) : String := if qualifier = "" then column else qualifier ++ "." ++ column

/-- The names of `build_join_column_info`. -/
def joinColumnNames (query : JoinQuery) : List String :=
  query.columns.flatMap fun column =>
    match column with
    | .allFrom none => tableColumns query.left.qualifier ++ tableColumns query.right.qualifier
    | .allFrom (some qualifier) => tableColumns qualifier
    | .qualifiedColumn qualifier column name => [name.getD (qualifiedName qualifier column)]
    | .qualifiedJsonExtract qualifier path name => [name.getD (qualifiedName qualifier path)]

/-- The text that a value is sorted by. -/
def sortText : Json → String
  | .string s => s
  | .null => ""
  | other => display other

/-- `compare_json_values` of the executor. -/
def compareForSort (a b : Json) : Ordering :=
  match a, b with
  | .number m, .number n => cmp m.asF64.value n.asF64.value
  | _, _ => cmp (sortText display a) (sortText display b)

/-- The position of the column that the rows are ordered by; `str::to_lowercase` is an argument. -/
def orderIndex (toLowercase : String → String) (query : JoinQuery) (orderBy : OrderBy) : Option Nat :=
  let index := (joinColumnNames query).findIdx fun name => toLowercase name = toLowercase orderBy.column
  if index < (joinColumnNames query).length then some index else none

/-- `rows.sort_by`, which is stable. -/
def sortRows (orderBy : OrderBy) (index : Nat) (rows : List (List Json)) : List (List Json) :=
  let compare (a b : List Json) : Ordering :=
    let ordering := compareForSort display (a.getD index .null) (b.getD index .null)
    if orderBy.descending then ordering.swap else ordering
  rows.insertionSort fun a b => compare a b ≠ .gt

/-- The rows of the join, before the limit. -/
def joinedRows (query : JoinQuery) (iteration : TableOrder) (leftTopic rightTopic : List MessageRow) : List JoinedRow :=
  let leftFilters := query.filters.filter fun f => filterAppliesToSide f query.left
  let rightFilters := query.filters.filter fun f => !filterAppliesToSide f query.left
  let leftMessages := if leftFilters = [] then leftTopic else leftTopic.filter fun msg => applyPushdownFilters msg leftFilters
  let rightMessages := if rightFilters = [] then rightTopic else rightTopic.filter fun msg => applyPushdownFilters msg rightFilters
  if query.right.isTable then
    performStreamTableJoin display iteration leftMessages (buildTableState display rightMessages query.condition.right.2)
      query.condition.left.2 query.joinType
  else if query.left.isTable then
    (performStreamTableJoin display iteration rightMessages (buildTableState display leftMessages query.condition.left.2)
      query.condition.right.2 (swapJoinType query.joinType)).map Prod.swap
  else
    performJoin display leftMessages rightMessages (buildJoinIndex display rightMessages query.condition.right.2)
      query.condition.left.2 query.joinType

/-- `execute_join` on the messages of the two topics. -/
def executeJoin (toLowercase : String → String) (query : JoinQuery) (iteration : TableOrder) (leftTopic rightTopic : List MessageRow) : List (List Json) :=
  let limit := min (query.limit.getD maxRows) maxRows
  let rows := ((joinedRows display query iteration leftTopic rightTopic).take limit).map (projectJoinRow query)
  match query.orderBy with
  | none => rows
  | some orderBy =>
    match orderIndex toLowercase query orderBy with
    | some index => sortRows display orderBy index rows
    | none => rows

end StreamHouse.Sql
