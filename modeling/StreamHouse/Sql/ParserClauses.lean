import StreamHouse.Sql.Parser

/-!
# The clauses of a SELECT

The WHERE clause, the columns, the FROM clause and the joins.
-/

namespace StreamHouse.Sql.Parser

open Lib

variable {F : Type} (x : Externals F)

/-! ## The WHERE clause -/

def parseJsonExtractArgs (args : List Argument) : Parse (Option (String × String)) :=
  if args.length ≠ 2 then .ok none
  else do
    match ← itemAt args 0 with
    | .term (.identifier column) => do
      match ← itemAt args 1 with
      | .term (.value (.singleQuotedString path)) => .ok (some (path, column))
      | _ => .ok none
    | _ => .ok none

/-- The path that `anomaly` is of, if it has one. -/
def anomalyPath : Argument → Parse (Option String)
  | .term (.function name args _) =>
    if toUppercase x name = "JSON_EXTRACT" then (extractPathFromJsonExtract args).map some else .ok none
  | .term (.value (.singleQuotedString s)) => .ok (some s)
  | _ => .ok none

/-- A threshold that is no number is 2. -/
def thresholdOr : Argument → F
  | .term (.value (.number n)) => (x.parseFloat n).getD x.two
  | _ => x.two

/-- `anomaly(path, threshold) = true`. -/
def parseAnomalyFilter (args : List Argument) (right : Term) : Parse (Option (ParsedFilter F)) :=
  if args.isEmpty then .ok none
  else do
    match ← anomalyPath x (← itemAt args 0) with
    | none => .ok none
    | some path => do
      let threshold ← secondOr args (fun arg => .ok (thresholdOr x arg)) x.two
      match right with
      | .value (.boolean true) => .ok (some (.anomalyThreshold path threshold))
      | _ => .ok none

def parseEqualityFilter (left right : Term) : Parse (Option (ParsedFilter F)) :=
  match left with
  | .identifier value =>
    let column := x.lower value
    if column = "key" then .ok ((extractStringValue right).map fun s => .plain (.keyEquals s))
    else if column = "partition" then .ok ((extractLiteralInt right).map fun n => .plain (.partitionEquals (BitVec.ofInt 32 n)))
    else if column = "offset" then .ok ((extractLiteralInt right).map fun n => .plain (.offsetEquals (BitVec.ofInt 64 n)))
    else .ok none
  | .function name args _ =>
    let funcName := toUppercase x name
    if funcName = "JSON_EXTRACT" then do
      match ← parseJsonExtractArgs args with
      | some (path, _) => do
        let value ← exprToJsonValue x right
        return some (.plain (.jsonEquals path value))
      | none => .ok none
    else if funcName = "ANOMALY" then parseAnomalyFilter x args right
    else .ok none
  | _ => .ok none

/-- `n + 1` wraps. -/
def offsetFilter (isGreater isEqual : Bool) (n : Int) : Filter :=
  if isGreater then
    if isEqual then .offsetGte (BitVec.ofInt 64 n) else .offsetGte (BitVec.ofInt 64 (n + 1))
  else if isEqual then .offsetLt (BitVec.ofInt 64 (n + 1))
  else .offsetLt (BitVec.ofInt 64 n)

def parseComparisonFilter (left right : Term) (isGreater isEqual : Bool) : Parse (Option (ParsedFilter F)) :=
  match left with
  | .identifier value =>
    let column := x.lower value
    if column = "offset" then .ok ((extractLiteralInt right).map fun n => .plain (offsetFilter isGreater isEqual n))
    else if column = "timestamp" then
      .ok ((extractTimestampValue x right).map fun ts => .plain (if isGreater then .timestampGte ts else .timestampLt ts))
    else .ok none
  | .function name args _ =>
    let funcName := toUppercase x name
    if funcName = "JSON_EXTRACT" then do
      match ← parseJsonExtractArgs args with
      | some (path, _) => do
        let value ← exprToJsonValue x right
        return some (.plain (if isGreater then .jsonGt path value else .jsonLt path value))
      | none => .ok none
    else if funcName = "ZSCORE" then do
      let path ← extractPathFromNestedFuncOrDirect x args
      return (extractLiteralFloat x right).map fun threshold =>
        if isGreater then .zScoreGt path threshold else .zScoreLt path threshold
    else .ok none
  | _ => .ok none

def collectFilters (e : Term) (filters : List (ParsedFilter F)) : Parse (List (ParsedFilter F)) :=
  match e with
  | .binaryOp left .and right => do
    let both ← collectFilters left filters
    collectFilters right both
  | .binaryOp left .eq right => do return filters ++ (← parseEqualityFilter x left right).toList
  | .binaryOp left .gt right => do return filters ++ (← parseComparisonFilter x left right true false).toList
  | .binaryOp left .gtEq right => do return filters ++ (← parseComparisonFilter x left right true true).toList
  | .binaryOp left .lt right => do return filters ++ (← parseComparisonFilter x left right false false).toList
  | .binaryOp left .ltEq right => do return filters ++ (← parseComparisonFilter x left right false true).toList
  | .binaryOp _ .other _ => unsupportedOperation ("Unsupported operator: " ++ x.debugOperator .other)
  | .nested inner => collectFilters inner filters
  | _ => unsupportedOperation ("Unsupported WHERE expression: " ++ x.debugTerm e)

def parseWhereClause (e : Term) : Parse (List (ParsedFilter F)) := collectFilters x e []

/-- The filters of a SELECT; without a WHERE clause there are none. -/
def selectionFilters (select : Select) : Parse (List (ParsedFilter F)) :=
  match select.selection with
  | some selection => parseWhereClause x selection
  | none => .ok []

/-! ## The columns -/

def parseJsonExtractFunc (args : List Argument) (called : Option String) : Parse (SelectColumn F) :=
  if args.length ≠ 2 then parseError "json_extract requires 2 arguments"
  else do
    match ← itemAt args 0 with
    | .term (.identifier column) => do
      match ← itemAt args 1 with
      | .term (.value (.singleQuotedString path)) => .ok (.jsonExtract column path called)
      | _ => parseError "Second argument to json_extract must be a string path"
    | _ => parseError "First argument to json_extract must be a column name"

/-- The size of the window of `moving_avg`, 10 where it is no number. -/
def movingWindow : Argument → Parse Nat
  | .term (.value (.number n)) =>
    match parseUsize n with
    | some size => .ok size
    | none => parseError "Window size must be a positive integer"
  | _ => .ok 10

def parseMovingAvgFunc (args : List Argument) (called : Option String) : Parse (SelectColumn F) :=
  if args.isEmpty then parseError "moving_avg requires at least 1 argument"
  else do
    let path ← pathOfArg x "First argument to moving_avg must be json_extract or a column" "Invalid first argument to moving_avg"
      (← itemAt args 0)
    let windowSize ← secondOr args movingWindow 10
    return .movingAvg path windowSize called

/-- The threshold of `anomaly`, 2 where it is no number. -/
def anomalyThreshold : Argument → Parse F
  | .term (.value (.number n)) =>
    match x.parseFloat n with
    | some threshold => .ok threshold
    | none => parseError "Threshold must be a number"
  | _ => .ok x.two

def parseAnomalyFunc (args : List Argument) (called : Option String) : Parse (SelectColumn F) :=
  if args.isEmpty then parseError "anomaly requires at least 1 argument"
  else do
    let path ← pathOfArg x "First argument to anomaly must be json_extract or a path" "Invalid first argument to anomaly"
      (← itemAt args 0)
    let threshold ← secondOr args (anomalyThreshold x) x.two
    return .anomaly path threshold called

def parseVectorString (s : String) : Parse (List F) := do
  let inner := trimEnd (· = ']') (trimStart (· = '[') (trimMatches isWhiteSpace s.toList))
  let parts := ((inner.splitOn ',').map fun part => trim (String.ofList part)).filter (· ≠ "")
  let vec ← parts.foldlM (fun vec part =>
    match x.parseFloat part with
    | some f => .ok (vec ++ [f])
    | none => parseError ("Invalid number in vector string: " ++ part)) []
  if vec.isEmpty then parseError "Empty vector" else .ok vec

def parseVectorElement : Term → Parse F
  | .value (.number n) =>
    match x.parseFloat n with
    | some f => .ok f
    | none => parseError ("Invalid number in vector: " ++ n)
  | .minus (.value (.number n)) =>
    match x.parseFloat n with
    | some f => .ok (x.negFloat f)
    | none => parseError ("Invalid number in vector: " ++ n)
  | .minus _ => parseError "Invalid vector element"
  | _ => parseError "Vector elements must be numbers"

def parseVectorExpr (e : Term) : Parse (List F) :=
  match e with
  | .array elem => elem.foldlM (fun vec element => do return vec ++ [← parseVectorElement x element]) []
  | .value (.singleQuotedString s) => parseVectorString x s
  | _ => parseError ("Unsupported vector expression: " ++ x.debugTerm e)

def parseVectorArg : Argument → Parse (List F)
  | .term e => parseVectorExpr x e
  | _ => parseError "Invalid vector argument"

def parseVectorSimilarityArgs (args : List Argument) : Parse (String × List F) :=
  if args.length < 2 then parseError "Vector similarity functions require 2 arguments: (vector_path, query_vector)"
  else do
    let path ← pathOfArg x "First argument must be json_extract or a path" "Invalid first argument for vector function" (← itemAt args 0)
    let queryVector ← parseVectorArg x (← itemAt args 1)
    return (path, queryVector)

def parseSelectExpr (e : Term) (called : Option String) : Parse (SelectColumn F) :=
  match e with
  | .identifier value => .ok (.column value)
  | .function name args _ =>
    let funcName := toUppercase x name
    if funcName = "JSON_EXTRACT" then parseJsonExtractFunc args called
    else if funcName = "ZSCORE" then do return .zScore (← extractPathFromNestedFuncOrDirect x args) called
    else if funcName = "MOVING_AVG" then parseMovingAvgFunc x args called
    else if funcName ∈ ["STDDEV", "STD"] then do return .stddev (← extractPathFromNestedFuncOrDirect x args) called
    else if funcName ∈ ["AVG", "MEAN"] then do return .avg (← extractPathFromNestedFuncOrDirect x args) called
    else if funcName = "ANOMALY" then parseAnomalyFunc x args called
    else if funcName = "COSINE_SIMILARITY" then do
      let (path, queryVector) ← parseVectorSimilarityArgs x args
      return .cosineSimilarity path queryVector called
    else if funcName = "EUCLIDEAN_DISTANCE" then do
      let (path, queryVector) ← parseVectorSimilarityArgs x args
      return .euclideanDistance path queryVector called
    else if funcName = "DOT_PRODUCT" then do
      let (path, queryVector) ← parseVectorSimilarityArgs x args
      return .dotProduct path queryVector called
    else if funcName ∈ ["VECTOR_NORM", "L2_NORM"] then do return .vectorNorm (← extractPathFromNestedFuncOrDirect x args) called
    else unsupportedOperation ("Unsupported function: " ++ funcName)
  | _ => unsupportedOperation ("Unsupported expression: " ++ x.debugTerm e)

def parseSelectItem (item : SelectItem) : Parse (SelectColumn F) :=
  match item with
  | .wildcard => .ok .all
  | .unnamedExpr e => parseSelectExpr x e none
  | .exprWithAlias e called => parseSelectExpr x e (some called)
  | .qualifiedWildcard _ => unsupportedOperation ("Unsupported select item: " ++ x.debugItem item)

def parseSelectColumns (select : Select) : Parse (List (SelectColumn F)) :=
  select.projection.foldlM (fun columns item => do return columns ++ [← parseSelectItem x item]) []

def isCountItem : SelectItem → Bool
  | .unnamedExpr (.function name _ _) => toUppercase x name = "COUNT"
  | .exprWithAlias (.function name _ _) _ => toUppercase x name = "COUNT"
  | _ => false

def isCountQuery (select : Select) : Parse Bool :=
  if select.projection.length ≠ 1 then .ok false else (itemAt select.projection 0).map (isCountItem x)

/-! ## The FROM clause -/

def parseFromClause (select : Select) : Parse String :=
  if select.tables.isEmpty then parseError "SELECT requires a FROM clause"
  else do
    match (← itemAt select.tables 0).relation with
    | .table name _ => if name.parts.length = 1 then itemAt name.parts 0 else .ok name.displayed
    | _ => unsupportedOperation "Only simple table references are supported"

/-- The topic of `TABLE(topic)`. -/
def tableArgument : Argument → Parse String
  | .term (.identifier value) => .ok value
  | .term (.value (.singleQuotedString s)) => .ok s
  | _ => parseError "TABLE() argument must be a topic name"

def parseTableRef : TableFactor → Parse TableRef
  | .table name called => .ok ⟨name.displayed, called, false⟩
  | .tableFunction e called =>
    match e with
    | .identifier value => .ok ⟨value, called, true⟩
    | .value (.singleQuotedString s) => .ok ⟨s, called, true⟩
    | .compoundIdentifier parts => .ok ⟨".".intercalate parts, called, true⟩
    | _ => parseError "TABLE() argument must be a topic name"
  | .function displayed args called =>
    let funcName := toUppercase x displayed
    if funcName = "TABLE" then
      if args.isEmpty then parseError "TABLE() requires a topic name argument"
      else do
        let topic ← tableArgument (← itemAt args 0)
        return ⟨topic, called, true⟩
    else unsupportedOperation ("Unsupported table function: " ++ funcName ++ ". Use TABLE(topic) for stream-table joins.")
  | .other => unsupportedOperation "Unsupported table reference type"

/-! ## Joins -/

/-- The qualifier that `json_extract` has in an ON clause. -/
def onQualifier : Argument → Parse String
  | .term (.compoundIdentifier parts) =>
    if parts.isEmpty then parseError "Expected qualified column in json_extract" else itemAt parts 0
  | _ => parseError "Expected qualified column in json_extract"

def pathLiteral : Argument → Parse String
  | .term (.value (.singleQuotedString s)) => .ok s
  | _ => parseError "Second argument to json_extract must be a string path"

def parseColumnRef (e : Term) : Parse JoinColumn :=
  let unsupported : Parse JoinColumn := unsupportedOperation "Unsupported expression in join condition"
  match e with
  | .compoundIdentifier parts =>
    if parts.length = 2 then do
      let qualifier ← itemAt parts 0
      let column ← itemAt parts 1
      return (qualifier, if column ∈ ["key", "value", "offset", "timestamp", "partition"] then column else "$." ++ column)
    else unsupported
  | .function name args _ =>
    let funcName := toUppercase x name
    if funcName = "JSON_EXTRACT" then
      if args.length ≠ 2 then parseError "json_extract requires 2 arguments"
      else do
        let qualifier ← onQualifier (← itemAt args 0)
        let path ← pathLiteral (← itemAt args 1)
        return (qualifier, path)
    else unsupportedOperation ("Function " ++ funcName ++ " not supported in join condition")
  | _ => unsupported

def parseJoinOnExpr : Term → Parse JoinCondition
  | .binaryOp left .eq right => do
    let leftRef ← parseColumnRef x left
    let rightRef ← parseColumnRef x right
    return ⟨leftRef, rightRef⟩
  | _ => unsupportedOperation "Only equality conditions (=) are supported in ON clause"

def parseJoinConstraint : JoinConstraint → Parse JoinCondition
  | .on e => parseJoinOnExpr x e
  | .using_ => unsupportedOperation "USING clause not supported, use ON instead"
  | .natural => unsupportedOperation "NATURAL join not supported"
  | .none => unsupportedOperation "Join must have ON clause"

def parseJoinCondition (join : TableJoin) : Parse JoinCondition :=
  match join.joinOperator with
  | .inner c => parseJoinConstraint x c
  | .leftOuter c => parseJoinConstraint x c
  | .rightOuter c => parseJoinConstraint x c
  | .fullOuter c => parseJoinConstraint x c
  | .other => unsupportedOperation "Join must have ON clause"

def parseJoinType : JoinOperator → Parse JoinType
  | .inner _ => .ok .inner
  | .leftOuter _ => .ok .left
  | .rightOuter _ => .ok .right
  | .fullOuter _ => .ok .full
  | .other => unsupportedOperation "Only INNER, LEFT, RIGHT, and FULL joins are supported"

/-- The qualifier that `json_extract` has in a column, or the column itself. -/
def columnQualifier : Argument → Parse String
  | .term (.compoundIdentifier parts) =>
    if parts.isEmpty then parseError "Expected qualified column in json_extract" else itemAt parts 0
  | .term (.identifier value) => .ok value
  | _ => parseError "Expected column in json_extract"

def parseJsonExtractForJoin (args : List Argument) : Parse (String × String) :=
  if args.length ≠ 2 then parseError "json_extract requires 2 arguments"
  else do
    let qualifier ← columnQualifier (← itemAt args 0)
    let path ← pathLiteral (← itemAt args 1)
    return (qualifier, path)

def parseJoinSelectExpr (e : Term) (called : Option String) : Parse JoinSelectColumn :=
  let unsupported : Parse JoinSelectColumn := unsupportedOperation ("Unsupported expression in JOIN select: " ++ x.debugTerm e)
  match e with
  | .compoundIdentifier parts =>
    if parts.length = 2 then do
      let qualifier ← itemAt parts 0
      let column ← itemAt parts 1
      return .qualifiedColumn qualifier column called
    else unsupported
  | .function name args _ =>
    let funcName := toUppercase x name
    if funcName = "JSON_EXTRACT" then do
      let (qualifier, path) ← parseJsonExtractForJoin args
      return .qualifiedJsonExtract qualifier path called
    else unsupportedOperation ("Function " ++ funcName ++ " not yet supported in JOIN select")
  | .identifier value => .ok (.qualifiedColumn "" value called)
  | _ => unsupported

def parseJoinItem : SelectItem → Parse JoinSelectColumn
  | .wildcard => .ok (.allFrom none)
  | .qualifiedWildcard displayed => .ok (.allFrom (some displayed))
  | .unnamedExpr e => parseJoinSelectExpr x e none
  | .exprWithAlias e called => parseJoinSelectExpr x e (some called)

def parseJoinSelectColumns (select : Select) : Parse (List JoinSelectColumn) :=
  select.projection.foldlM (fun columns item => do return columns ++ [← parseJoinItem x item]) []

/-- The column of the first key of an ORDER BY clause. -/
def orderColumn : Term → Option String
  | .identifier value => some value
  | _ => none

/-- The same for a join, where the column may be qualified. -/
def joinOrderColumn : Term → Option String
  | .identifier value => some value
  | .compoundIdentifier parts => some (".".intercalate parts)
  | _ => none

def parseOrderBy (column : Term → Option String) (query : Query) : Parse (Option OrderBy) :=
  if query.orderBy.isEmpty then .ok none
  else do
    let first ← itemAt query.orderBy 0
    return (column first.term).map fun name => ⟨name, first.asc = some false⟩

/-- A LIMIT or OFFSET that is a number. -/
def literalUsize (e : Option Term) : Option Nat := (e.bind extractLiteralInt).map asUsize

def tryParseJoinQuery (select : Select) (query : Query) : Parse (Option (ParsedJoin F)) :=
  if select.tables.isEmpty then .ok none
  else do
    let tableWithJoins ← itemAt select.tables 0
    if tableWithJoins.joins.isEmpty then .ok none
    else do
      let left ← parseTableRef x tableWithJoins.relation
      let join ← itemAt tableWithJoins.joins 0
      let joinType ← parseJoinType join.joinOperator
      let right ← parseTableRef x join.relation
      let condition ← parseJoinCondition x join
      let columns ← parseJoinSelectColumns x select
      let filters ← selectionFilters x select
      let orderBy ← parseOrderBy joinOrderColumn query
      return some ⟨left, right, joinType, condition, columns, filters, orderBy, literalUsize query.limit, some 3600000⟩

end StreamHouse.Sql.Parser
