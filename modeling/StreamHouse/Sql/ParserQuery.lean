import StreamHouse.Sql.ParserClauses

/-!
# The kinds of statements

`parse_query`: a text is a command that `sqlparser` does not know, a materialized view, or a SELECT with a join, a
window, groups, a count or rows.
-/

namespace StreamHouse.Sql.Parser

open Lib

variable {F : Type} (x : Externals F)

/-! ## GROUP BY -/

/-- The name that a function has in a group: the path of `json_extract`, if it has one. -/
def pathOrName (name : String) (args : List Argument) : Parse String :=
  if toUppercase x name = "JSON_EXTRACT" then
    match extractPathFromJsonExtract args with
    | .ok path => .ok path
    | .error (.error _) => .ok name
    | .error .panicked => .error .panicked
  else .ok name

/-- The names that a term adds to a group. -/
def groupNames (functionName : String → List Argument → Parse String) : Term → Parse (List String)
  | .function name args _ => do return [← functionName name args]
  | .identifier value => .ok [value]
  | _ => .ok []

/-- The window that a term is a call of. -/
def windowCall : Term → Option (Parse WindowType)
  | .function name args _ =>
    let funcName := toUppercase x name
    if funcName = "TUMBLE" then some (parseTumbleWindow x args)
    else if funcName = "HOP" then some (parseHopWindow x args)
    else if funcName = "SESSION" then some (parseSessionWindow x args)
    else none
  | _ => none

def groupTerm (functionName : String → List Argument → Parse String) (term : Term) : Parse (Option WindowType × List String) :=
  match windowCall x term with
  | some window => do return (some (← window), [])
  | none => do return (none, ← groupNames functionName term)

/-- The loop over the terms: the last window counts. -/
def groupTerms (functionName : String → List Argument → Parse String) (terms : List Term) :
    Parse (Option WindowType × List String) :=
  terms.foldlM (fun found term => do
    let (window, names) ← groupTerm x functionName term
    return (window.or found.1, found.2 ++ names)) (none, [])

def tryParseWindowQuery (select : Select) (query : Query) : Parse (Option (ParsedWindow F)) :=
  match select.groupBy with
  | .all => .ok none
  | .expressions terms =>
    if terms.isEmpty then .ok none
    else do
      let (window, otherGroupBy) ← groupTerms x (pathOrName x) terms
      match window with
      | none => do
        let _ ← parseWindowAggregations x select
        return none
      | some window => do
        let topic ← parseFromClause select
        let aggregations ← parseWindowAggregations x select
        let filters ← selectionFilters x select
        return some ⟨topic, window, aggregations, otherGroupBy, filters, literalUsize query.limit⟩

def tryParseGroupByQuery (select : Select) (query : Query) : Parse (Option (ParsedGroupBy F)) :=
  match select.groupBy with
  | .all => .ok none
  | .expressions terms =>
    if terms.isEmpty then .ok none
    else do
      let aggregations ← parseWindowAggregations x select
      if aggregations.isEmpty then .ok none
      else do
        let groupBy ← terms.foldlM (fun names term => do return names ++ (← groupNames (pathOrName x) term)) []
        let topic ← parseFromClause select
        let filters ← selectionFilters x select
        return some ⟨topic, aggregations, groupBy, filters, literalUsize query.limit⟩

/-! ## SELECT -/

def parseCountQuery (select : Select) : Parse (ParsedQuery F) := do
  let topic ← parseFromClause select
  let filters ← selectionFilters x select
  return .count topic filters

/-- A SELECT of rows. -/
def parseRowsQuery (select : Select) (query : Query) : Parse (ParsedQuery F) := do
  let topic ← parseFromClause select
  let columns ← parseSelectColumns x select
  let filters ← selectionFilters x select
  let orderBy ← parseOrderBy orderColumn query
  return .select ⟨topic, columns, filters, orderBy, literalUsize query.limit, literalUsize query.offset⟩

def parseSelectQuery (query : Query) : Parse (ParsedQuery F) :=
  match query.body with
  | none => unsupportedOperation "Only simple SELECT queries are supported"
  | some select => do
    match ← tryParseJoinQuery x select query with
    | some joined => .ok (.join joined)
    | none => do
      match ← tryParseWindowQuery x select query with
      | some windowed => .ok (.windowAggregate windowed)
      | none => do
        match ← tryParseGroupByQuery x select query with
        | some grouped => .ok (.groupByAggregate grouped)
        | none => do if ← isCountQuery x select then parseCountQuery x select else parseRowsQuery x select query

/-- What is read of the first statement of a text. -/
def firstStatement {α : Type} (text : String) (invalid : String → String) (empty : String) (read : Statement → Parse α) : Parse α :=
  match x.parseSql text with
  | .error message => parseError (invalid message)
  | .ok ast => if ast.isEmpty then parseError empty else itemAt ast 0 >>= read

def parseStatement (statement : Statement) : Parse (ParsedQuery F) :=
  match statement with
  | .query query => parseSelectQuery x query
  | .other => unsupportedOperation ("Only SELECT queries are supported, got: " ++ x.debugStatement statement)

/-! ## Materialized views -/

/-- A quote of either kind. -/
def quote (c : Char) : Bool := c = '\'' || c = '"'

/-- The key and the value of a part of the WITH clause, if it has one `=`. -/
def keyValue (part : List Char) : Parse (Option (String × String)) :=
  let kv := (part.splitOn '=').map (trimMatches isWhiteSpace)
  if kv.length = 2 then do
    let key ← itemAt kv 0
    let value ← itemAt kv 1
    return some (String.ofList (trimMatches quote key), String.ofList (trimMatches quote value))
  else .ok none

/-- The mode and the interval so far, with those of a part. -/
def refreshSetting (found : String × Option String) : Option (String × String) → String × Option String
  | some (key, value) =>
    if key ∈ ["refresh_mode", "refresh", "mode"] then (value, found.2)
    else if key = "interval" then (found.1, some value)
    else found
  | none => found

def refreshSettings (withClause : String) : Parse (String × Option String) :=
  let trimmed := trimEnd (· = ')') (trimStart (· = '(') (trimMatches isWhiteSpace (x.lower withClause).toList))
  (trimmed.splitOn ',').foldlM (fun found part => do return refreshSetting found (← keyValue part)) ("continuous", none)

def parseRefreshMode (withClause : String) : Parse RefreshMode := do
  let (refreshMode, intervalStr) ← refreshSettings x withClause
  if refreshMode ∈ ["continuous", "stream", "streaming"] then .ok .continuous
  else if refreshMode ∈ ["manual", "on_demand"] then .ok .manual
  else if refreshMode ∈ ["periodic", "scheduled"] then
    match intervalStr with
    | some interval => do return .periodic (← parseIntervalString x interval)
    | none => .ok (.periodic (5 * 60 * 1000))
  else parseError ("Unknown refresh mode: '" ++ refreshMode ++ "'. Use 'continuous', 'manual', or 'periodic'")

def parseMvWindowClause (select : Select) : Parse (Option WindowType × List WindowAggregation × List String) :=
  match select.groupBy with
  | .all => .ok (none, [], [])
  | .expressions terms =>
    if terms.isEmpty then do return (none, ← parseWindowAggregations x select, [])
    else do
      let (window, otherGroupBy) ← groupTerms x (fun name _ => .ok name) terms
      let aggregations ← parseWindowAggregations x select
      return (window, aggregations, otherGroupBy)

/-- What stands between the keywords: the name and the WITH clause. -/
def parseViewName (namePart : String) : Parse (String × RefreshMode) :=
  match findText " WITH ".toList (toUppercase x namePart).toList with
  | some withPos => do
    let viewName ← sliceText namePart.toList 0 withPos
    let withClause ← sliceFrom namePart.toList (withPos + 6)
    let refresh ← parseRefreshMode x (String.ofList withClause)
    return (trim (String.ofList viewName), refresh)
  | none => .ok (namePart, .continuous)

/-- The view of a SELECT. -/
def parseViewSelect (name : String) (refreshMode : RefreshMode) (orReplace : Bool) (selectSql : String) : Statement → Parse (ParsedQuery F)
  | .query query =>
    match query.body with
    | none => unsupportedOperation "Materialized views must use a simple SELECT query"
    | some select => do
      let sourceTopic ← parseFromClause select
      let (window, aggregations, groupBy) ← parseMvWindowClause x select
      let filters ← selectionFilters x select
      return .createMaterializedView ⟨name, sourceTopic, trim selectSql, window, aggregations, groupBy, filters, refreshMode, orReplace⟩
  | .other => unsupportedOperation "Materialized views must use a SELECT query"

/-- The statement is cut at positions of its copy in upper case. -/
def parseCreateMaterializedView (sql : String) : Parse (ParsedQuery F) :=
  let sqlUpper := (toUppercase x sql).toList
  let orReplace := (findText "OR REPLACE".toList sqlUpper).isSome
  match findText "MATERIALIZED VIEW".toList sqlUpper with
  | none => .error .panicked
  | some found =>
    let nameStart := found + 17
    match findText " AS ".toList sqlUpper with
    | none => parseError "CREATE MATERIALIZED VIEW requires AS keyword"
    | some asPos => do
      let namePart ← sliceText sql.toList nameStart asPos
      let (name, refreshMode) ← parseViewName x (trim (String.ofList namePart))
      let selectSql ← sliceFrom sql.toList (asPos + 4)
      firstStatement x (String.ofList selectSql) ("Invalid SELECT in materialized view: " ++ ·)
        "Empty SELECT query in materialized view" (parseViewSelect x name refreshMode orReplace (String.ofList selectSql))

/-! ## Statements -/

/-- The `n`-th word, without semicolons. -/
def nthWord (n : Nat) (missing : String) (sql : String) : Parse String :=
  match (splitWhitespace sql)[n]? with
  | some word => .ok (String.ofList (trimMatches (· = ';') word.toList))
  | none => parseError missing

def startsWith (text : String) (start : String) : Bool := start.toList.isPrefixOf text.toList

def parseQuery (sql : String) : Parse (ParsedQuery F) :=
  let sqlTrimmed := trim sql
  let sqlUpper := toUppercase x sqlTrimmed
  if startsWith sqlUpper "SHOW TOPICS" then .ok .showTopics
  else if startsWith sqlUpper "SHOW MATERIALIZED VIEWS" then .ok .showMaterializedViews
  else if startsWith sqlUpper "DESCRIBE MATERIALIZED VIEW " then
    (nthWord 3 "DESCRIBE MATERIALIZED VIEW requires a view name" sqlTrimmed).map .describeMaterializedView
  else if startsWith sqlUpper "DESCRIBE " || startsWith sqlUpper "DESC " then
    (nthWord 1 "DESCRIBE requires a topic name" sqlTrimmed).map fun topic =>
      .describeTopic (String.ofList (trimMatches (· = '"') topic.toList))
  else if startsWith sqlUpper "DROP MATERIALIZED VIEW " then
    (nthWord 3 "DROP MATERIALIZED VIEW requires a view name" sqlTrimmed).map .dropMaterializedView
  else if startsWith sqlUpper "REFRESH MATERIALIZED VIEW " then
    (nthWord 3 "REFRESH MATERIALIZED VIEW requires a view name" sqlTrimmed).map .refreshMaterializedView
  else if startsWith sqlUpper "CREATE MATERIALIZED VIEW " || startsWith sqlUpper "CREATE OR REPLACE MATERIALIZED VIEW " then
    parseCreateMaterializedView x sqlTrimmed
  else firstStatement x sqlTrimmed id "Empty query" (parseStatement x)

end StreamHouse.Sql.Parser
