import StreamHouse.Sql.Join
import StreamHouse.Lib.Joins

/-!
# What a join means

The pairs of messages of the two topics that the ON condition relates, with the messages that an
outer join keeps without a partner; of these the pairs that satisfy the filters, in the order of
ORDER BY, and the first LIMIT of them. `JoinQuery.Sound` says for which queries and contents the
stages of `execute_join` come to that.
-/

namespace StreamHouse.Sql

open Lib

inductive Side where
  | left
  | right
deriving DecidableEq

variable (display : Json → String)

/-- The text of a column in the ON clause. -/
def columnKey (msg : MessageRow) (path : String) : Option String :=
  if path = "value" then some msg.value.chars else extractJoinKey display msg path

/-- Messages of the same key. -/
def keyed (leftPath rightPath : String) (left right : MessageRow) : Bool :=
  match extractJoinKey display left leftPath, extractJoinKey display right rightPath with
  | some a, some b => a = b
  | _, _ => false

/-- The order of two values: numbers by value, others by their text. -/
def Upto (a b : Json) : Prop :=
  match a, b with
  | .number m, .number n => m.value ≤ n.value
  | _, _ => sortText display a ≤ sortText display b

/-- The filters name no table: they are about the left message, if there is one. -/
def satisfies (filters : List Filter) (row : JoinedRow) : Bool :=
  ((row.1.or row.2).map fun msg => msg.matchesFilters filters).getD false

/-- A column that may have a qualifier. -/
def splitColumn (column : String) : JoinColumn :=
  let chars := column.toList
  if '.' ∈ chars then (String.ofList (chars.takeWhile (· ≠ '.')), String.ofList ((chars.dropWhile (· ≠ '.')).drop 1)) else ("", column)

namespace JoinQuery

variable (query : JoinQuery)

def sideOf (qualifier : String) : Option Side :=
  if qualifier = query.left.qualifier then some .left
  else if qualifier = query.right.qualifier then some .right
  else none

def columnText (column : JoinColumn) (left right : MessageRow) : Option String :=
  match query.sideOf column.1 with
  | some .left => columnKey display left column.2
  | some .right => columnKey display right column.2
  | none => none

/-- The ON condition; a column without a value equals none. -/
def on (left right : MessageRow) : Bool :=
  match query.columnText display query.condition.left left right, query.columnText display query.condition.right left right with
  | some a, some b => a = b
  | _, _ => false

/-- The column of a side in the ON condition. -/
def keyPath (side : Side) : Option String :=
  ([query.condition.left, query.condition.right].find? fun column => query.sideOf column.1 = some side).map Prod.snd

/-- The text that the ON condition compares of a message. -/
def keyOf (side : Side) (msg : MessageRow) : Option String := (query.keyPath side).bind (columnKey display msg)

/-- The messages of a topic, or of `TABLE()` the latest of each key. -/
def rowsOf (side : Side) (ref : TableRef) (messages : List MessageRow) : List MessageRow :=
  if ref.isTable then Joins.latest (query.keyOf display side) messages else messages

def leftRows (leftTopic : List MessageRow) : List MessageRow := query.rowsOf display .left query.left leftTopic

def rightRows (rightTopic : List MessageRow) : List MessageRow := query.rowsOf display .right query.right rightTopic

/-- The join of the two topics on the condition. -/
def joinOf (leftTopic rightTopic : List MessageRow) : List JoinedRow :=
  Joins.join (query.on display) query.joinType.keepsLeft query.joinType.keepsRight (query.leftRows display leftTopic)
    (query.rightRows display rightTopic)

/-- The pairs that satisfy every filter. -/
def selected (leftTopic rightTopic : List MessageRow) : List JoinedRow :=
  (query.joinOf display leftTopic rightTopic).filter (satisfies query.filters)

variable (toLowercase : String → String)

/-- The value that a row is ordered by: of the column that is projected under the name, else of the
column of that name. -/
def orderValue (orderBy : OrderBy) (row : JoinedRow) : Json :=
  match orderIndex toLowercase query orderBy with
  | some index => (projectJoinRow query row).getD index .null
  | none =>
    let (qualifier, column) := splitColumn orderBy.column
    extractColumnValue (resolveQualifier qualifier row.1 row.2 query.left query.right) column

def Ordered (rows : List JoinedRow) : Prop :=
  ∀ orderBy, query.orderBy = some orderBy → rows.Pairwise fun a b =>
    if orderBy.descending then Upto display (query.orderValue toLowercase orderBy b) (query.orderValue toLowercase orderBy a)
    else Upto display (query.orderValue toLowercase orderBy a) (query.orderValue toLowercase orderBy b)

def limited (rows : List JoinedRow) : List JoinedRow :=
  match query.limit with
  | some limit => rows.take limit
  | none => rows

/-- The projection of the first LIMIT rows, in an order that ORDER BY allows. -/
def Answers (leftTopic rightTopic : List MessageRow) (result : List (List Json)) : Prop :=
  ∃ rows, rows.Perm (query.selected display leftTopic rightTopic) ∧ query.Ordered display toLowercase rows ∧
    result = (query.limited rows).map (projectJoinRow query)

/-- The filters that are pushed down pass. -/
def pushed (msg : MessageRow) : Bool := applyPushdownFilters msg (query.filters.filter fun f => filterAppliesToSide f query.left)

/-- The left messages that the join is made with: those that pass the filters, of a table next to a
stream the latest of these. -/
def taken (messages : List MessageRow) : List MessageRow :=
  if query.left.isTable && !query.right.isTable then Joins.latest (query.keyOf display .left) (messages.filter query.pushed)
  else messages.filter query.pushed

/-- The values of a column are compared as they are ordered. -/
structure Comparable (values : List Json) : Prop where
  upto : ∀ a ∈ values, ∀ b ∈ values, compareForSort display a b ≠ .gt → Upto display a b
  trans : ∀ a ∈ values, ∀ b ∈ values, ∀ c ∈ values, compareForSort display a b ≠ .gt → compareForSort display b c ≠ .gt →
    compareForSort display a c ≠ .gt

/-- The stages of the execution do not get in each other's way. -/
structure Sound (leftTopic rightTopic : List MessageRow) : Prop where
  /-- The keys of two messages are the same where the ON condition relates them. -/
  keys : ∀ left ∈ leftTopic, query.pushed left = true → ∀ right ∈ rightTopic,
    keyed display query.condition.left.2 query.condition.right.2 left right = query.on display left right
  /-- The keys of a table group its messages as the condition does, if there may be rows with them. -/
  leftKeys : query.left.isTable = true → query.right.isTable = false → (rightTopic ≠ [] ∨ query.joinType.keepsLeft = true) →
    Joins.Alike (fun msg => extractJoinKey display msg query.condition.left.2) (query.keyOf display .left) (leftTopic.filter query.pushed)
  rightKeys : query.right.isTable = true → (leftTopic.filter query.pushed ≠ [] ∨ query.joinType.keepsRight = true) →
    Joins.Alike (fun msg => extractJoinKey display msg query.condition.right.2) (query.keyOf display .right) rightTopic
  /-- Messages that are taken for a table on the left, and that it has not, are in no row: they are replaced by one that
  does not pass, or the table is taken for a stream. -/
  replaced : query.left.isTable = true → ∃ others : List MessageRow,
    (query.taken display leftTopic).Perm ((query.leftRows display leftTopic).filter query.pushed ++ others) ∧
      ∀ left ∈ others, query.joinType.keepsLeft = false ∧ ∀ right ∈ query.rightRows display rightTopic, query.on display left right = false
  /-- What passes the filters that are pushed down satisfies all filters. -/
  passes : ∀ row ∈ query.joinOf display leftTopic rightTopic, (∀ left, row.1 = some left → query.pushed left = true) →
    satisfies query.filters row = true
  /-- No right message that is kept without a partner has lost it to a filter. -/
  cover : query.joinType.keepsRight = true → ∀ right ∈ query.rightRows display rightTopic, ∀ left ∈ query.leftRows display leftTopic,
    query.on display left right = true → ∃ left' ∈ query.leftRows display leftTopic, query.on display left' right = true ∧ query.pushed left' = true
  /-- Nothing is cut off, or no order is asked for and the limit is not above the maximum. -/
  uncut : (query.selected display leftTopic rightTopic).length ≤ min (query.limit.getD maxRows) maxRows ∨
    (query.orderBy = none ∧ ∃ limit ≤ maxRows, query.limit = some limit)
  /-- The order of several rows is by a column of the result, whose values are compared as they are ordered. -/
  ordered : ∀ orderBy, query.orderBy = some orderBy → 1 < (query.selected display leftTopic rightTopic).length →
    orderIndex toLowercase query orderBy ≠ none ∧
    Comparable display ((query.selected display leftTopic rightTopic).map (query.orderValue toLowercase orderBy))

end JoinQuery

end StreamHouse.Sql
