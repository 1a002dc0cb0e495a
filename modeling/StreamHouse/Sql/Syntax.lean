import StreamHouse.Sql.Execute

/-!
# The syntax of statements

What the parser reads of the tree that `sqlparser` makes of a text, and the queries that it makes of it. Names stand
with the text that they are displayed with.
-/

namespace StreamHouse.Sql.Parser

/-! ## The tree -/

inductive Literal where
  | number (text : String)
  | singleQuotedString (s : String)
  | doubleQuotedString (s : String)
  | boolean (b : Bool)
  | null
  | other

inductive Operator where
  | and
  | eq
  | gt
  | gtEq
  | lt
  | ltEq
  | other

mutual

/-- `Expr`; a function is its displayed name, its arguments and `DISTINCT`. -/
inductive Term where
  | identifier (value : String)
  | compoundIdentifier (parts : List String)
  | value (v : Literal)
  | function (name : String) (args : List Argument) (distinct : Bool)
  | binaryOp (left : Term) (op : Operator) (right : Term)
  | minus (inner : Term)
  | nested (inner : Term)
  | interval (value : Term)
  | array (elem : List Term)
  | other

/-- `FunctionArg`. -/
inductive Argument where
  | term (e : Term)
  | wildcard
  | other

end

/-- `ObjectName`: the values of its parts, and how it is displayed. -/
structure ObjectName where
  parts : List String
  displayed : String

inductive SelectItem where
  | wildcard
  | qualifiedWildcard (displayed : String)
  | unnamedExpr (e : Term)
  | exprWithAlias (e : Term) (name : String)

inductive TableFactor where
  | table (name : ObjectName) (called : Option String)
  | tableFunction (e : Term) (called : Option String)
  | function (displayed : String) (args : List Argument) (called : Option String)
  | other

inductive JoinConstraint where
  | on (e : Term)
  | using_
  | natural
  | none

inductive JoinOperator where
  | inner (constraint : JoinConstraint)
  | leftOuter (constraint : JoinConstraint)
  | rightOuter (constraint : JoinConstraint)
  | fullOuter (constraint : JoinConstraint)
  | other

structure TableJoin where
  relation : TableFactor
  joinOperator : JoinOperator

structure TableWithJoins where
  relation : TableFactor
  joins : List TableJoin

inductive GroupByExpr where
  | all
  | expressions (terms : List Term)

structure Select where
  projection : List SelectItem
  tables : List TableWithJoins
  selection : Option Term
  groupBy : GroupByExpr

structure OrderByExpr where
  term : Term
  asc : Option Bool

/-- `Query`; the body is none where it is no simple SELECT. -/
structure Query where
  body : Option Select
  orderBy : List OrderByExpr
  limit : Option Term
  offset : Option Term

inductive Statement where
  | query (q : Query)
  | other

/-! ## The queries -/

/-- `SqlError`, as far as the parser returns it. -/
inductive ParserError where
  | parseError (message : String)
  | unsupportedOperation (message : String)

-- the `f64` numbers
variable (F : Type)

inductive ParsedFilter where
  | plain (f : Filter)
  | zScoreGt (path : String) (threshold : F)
  | zScoreLt (path : String) (threshold : F)
  | anomalyThreshold (path : String) (threshold : F)

inductive SelectColumn where
  | all
  | column (name : String)
  | jsonExtract (column path : String) (called : Option String)
  | zScore (path : String) (called : Option String)
  | movingAvg (path : String) (windowSize : Nat) (called : Option String)
  | stddev (path : String) (called : Option String)
  | avg (path : String) (called : Option String)
  | anomaly (path : String) (threshold : F) (called : Option String)
  | cosineSimilarity (path : String) (queryVector : List F) (called : Option String)
  | euclideanDistance (path : String) (queryVector : List F) (called : Option String)
  | dotProduct (path : String) (queryVector : List F) (called : Option String)
  | vectorNorm (path : String) (called : Option String)

structure ParsedSelect where
  topic : String
  columns : List (SelectColumn F)
  filters : List (ParsedFilter F)
  orderBy : Option OrderBy
  limit : Option Nat
  offset : Option Nat

structure ParsedWindow where
  topic : String
  window : WindowType
  aggregations : List WindowAggregation
  groupBy : List String
  filters : List (ParsedFilter F)
  limit : Option Nat

structure ParsedGroupBy where
  topic : String
  aggregations : List WindowAggregation
  groupBy : List String
  filters : List (ParsedFilter F)
  limit : Option Nat

structure ParsedJoin where
  left : TableRef
  right : TableRef
  joinType : JoinType
  condition : JoinCondition
  columns : List JoinSelectColumn
  filters : List (ParsedFilter F)
  orderBy : Option OrderBy
  limit : Option Nat
  windowMs : Option Int

structure ParsedView where
  name : String
  sourceTopic : String
  querySql : String
  window : Option WindowType
  aggregations : List WindowAggregation
  groupBy : List String
  filters : List (ParsedFilter F)
  refreshMode : RefreshMode
  orReplace : Bool

inductive ParsedQuery where
  | select (q : ParsedSelect F)
  | showTopics
  | describeTopic (topic : String)
  | count (topic : String) (filters : List (ParsedFilter F))
  | windowAggregate (q : ParsedWindow F)
  | groupByAggregate (q : ParsedGroupBy F)
  | join (q : ParsedJoin F)
  | createMaterializedView (q : ParsedView F)
  | dropMaterializedView (name : String)
  | refreshMaterializedView (name : String)
  | showMaterializedViews
  | describeMaterializedView (name : String)

/-- What the parser rests on: the casing of the standard library, its `f64`, `sqlparser` with the display of its
trees, and `chrono`. -/
structure Externals where
  /-- `char::to_uppercase`. -/
  upper : Char → List Char
  /-- `str::to_lowercase`. -/
  lower : String → String
  /-- `str::parse::<f64>`. -/
  parseFloat : String → Option F
  negFloat : F → F
  two : F
  /-- `json!` of an `f64`. -/
  floatJson : F → Json
  /-- `Parser::parse_sql`, with the text of its error. -/
  parseSql : String → Except String (List Statement)
  debugTerm : Term → String
  debugItem : SelectItem → String
  debugOperator : Operator → String
  debugStatement : Statement → String
  /-- `DateTime::parse_from_rfc3339` and `timestamp_millis`. -/
  parseRfc3339 : String → Option Int

end StreamHouse.Sql.Parser
