import StreamHouse.Core.I64
import StreamHouse.Lib.TextSlices
import StreamHouse.Sql.Syntax

/-!
# The parser

`parse_query`, from a text to a query. An index behind the end, a slice off a boundary and a product that is no `i64`
panic.
-/

namespace StreamHouse.Sql.Parser

open Lib

abbrev Parse (α : Type) := Outcome ParserError α

def parseError {α : Type} (message : String) : Parse α := .error (.error (.parseError message))

def unsupportedOperation {α : Type} (message : String) : Parse α := .error (.error (.unsupportedOperation message))

/-- What is read of the second item, if there is one. -/
def secondOr {α β : Type} (items : List α) (read : α → Parse β) (absent : β) : Parse β :=
  if items.length > 1 then itemAt items 1 >>= read else .ok absent

/-! ## Texts -/

def trimStart (p : Char → Bool) (text : List Char) : List Char := text.dropWhile p

def trimEnd (p : Char → Bool) (text : List Char) : List Char := (text.reverse.dropWhile p).reverse

/-- `trim_matches`. -/
def trimMatches (p : Char → Bool) (text : List Char) : List Char := trimEnd p (trimStart p text)

/-- `str::trim`. -/
def trim (s : String) : String := String.ofList (trimMatches isWhiteSpace s.toList)

def splitWhitespace (s : String) : List String := ((s.toList.splitOnP isWhiteSpace).map String.ofList).filter (· ≠ "")

variable {F : Type} (x : Externals F)

def toUppercase (s : String) : String := String.ofList (s.toList.flatMap x.upper)

/-! ## Literals -/

def extractStringValue : Term → Option String
  | .value (.singleQuotedString s) => some s
  | .value (.doubleQuotedString s) => some s
  | _ => none

def extractLiteralInt : Term → Option Int
  | .value (.number n) => parseI64 n.toList
  | _ => none

def extractLiteralFloat : Term → Option F
  | .value (.number n) => x.parseFloat n
  | .minus inner => (extractLiteralFloat inner).map x.negFloat
  | _ => none

def extractTimestampValue (e : Term) : Option Int := (extractStringValue e).bind x.parseRfc3339

def exprToJsonValue (e : Term) : Parse Json :=
  match e with
  | .value (.number n) =>
    match parseI64 n.toList with
    | some i => .ok (i64Json i)
    | none =>
      match x.parseFloat n with
      | some f => .ok (x.floatJson f)
      | none => parseError ("Invalid number: " ++ n)
  | .value (.singleQuotedString s) => .ok (.string s)
  | .value (.boolean b) => .ok (.bool b)
  | .value .null => .ok .null
  | _ => parseError ("Cannot convert expression to JSON: " ++ x.debugTerm e)

/-- `n as usize`. -/
def asUsize (n : Int) : Nat := (BitVec.ofInt 64 n).toNat

/-! ## Intervals -/

/-- The milliseconds of a unit. -/
def multiplier (unit : String) : Option Int :=
  if unit ∈ ["ms", "millisecond", "milliseconds"] then some 1
  else if unit ∈ ["s", "sec", "second", "seconds"] then some 1000
  else if unit ∈ ["m", "min", "minute", "minutes"] then some (60 * 1000)
  else if unit ∈ ["h", "hour", "hours"] then some (60 * 60 * 1000)
  else if unit ∈ ["d", "day", "days"] then some (24 * 60 * 60 * 1000)
  else none

def parseIntervalString (s : String) : Parse Int :=
  let parts := splitWhitespace s
  if parts.isEmpty then parseError "Empty interval string"
  else do
    let first ← itemAt parts 0
    match parseI64 first.toList with
    | none => parseError ("Invalid interval value: " ++ first)
    | some value => do
      let unit ← secondOr parts (fun part => .ok (x.lower part)) "milliseconds"
      match multiplier unit with
      | none => parseError ("Unknown interval unit: " ++ unit)
      | some m => if I64.Fits (value * m) then .ok (value * m) else .error .panicked

def parseIntervalExpr (e : Term) : Parse Int :=
  match e with
  | .interval (.value (.singleQuotedString s)) => parseIntervalString x s
  | .interval _ => parseError "Interval value must be a string"
  | .value (.number n) =>
    match parseI64 n.toList with
    | some i => .ok i
    | none => parseError "Invalid interval number"
  | .value (.singleQuotedString s) => parseIntervalString x s
  | _ => parseError ("Unsupported interval expression: " ++ x.debugTerm e)

def parseIntervalArg : Argument → Parse Int
  | .term e => parseIntervalExpr x e
  | _ => parseError "Invalid interval argument"

def parseTumbleWindow (args : List Argument) : Parse WindowType :=
  if args.length < 2 then parseError "TUMBLE requires at least 2 arguments: TUMBLE(timestamp_column, size)"
  else do
    let size ← parseIntervalArg x (← itemAt args 1)
    return .tumble size

def parseHopWindow (args : List Argument) : Parse WindowType :=
  if args.length < 3 then parseError "HOP requires 3 arguments: HOP(timestamp_column, size, slide)"
  else do
    let size ← parseIntervalArg x (← itemAt args 1)
    let slide ← parseIntervalArg x (← itemAt args 2)
    return .hop size slide

def parseSessionWindow (args : List Argument) : Parse WindowType :=
  if args.length < 2 then parseError "SESSION requires 2 arguments: SESSION(timestamp_column, gap)"
  else do
    let gap ← parseIntervalArg x (← itemAt args 1)
    return .session gap

/-! ## Arguments -/

/-- The path of `json_extract(value, path)`. -/
def extractPathFromJsonExtract (args : List Argument) : Parse String :=
  if args.length ≠ 2 then parseError "json_extract requires 2 arguments"
  else do
    match ← itemAt args 1 with
    | .term (.value (.singleQuotedString s)) => .ok s
    | _ => parseError "Second argument to json_extract must be a string path"

/-- A path, directly or from `json_extract`; what the call is else, and what the argument is, are the messages. -/
def pathOfArg (notExtract notPath : String) : Argument → Parse String
  | .term (.function name args _) =>
    if toUppercase x name = "JSON_EXTRACT" then extractPathFromJsonExtract args else parseError notExtract
  | .term (.value (.singleQuotedString s)) => .ok s
  | _ => parseError notPath

def extractPathFromNestedFuncOrDirect (args : List Argument) : Parse String :=
  if args.isEmpty then parseError "Function requires at least 1 argument"
  else do
    pathOfArg x "Nested function must be json_extract" "Argument must be json_extract function or a string path" (← itemAt args 0)

def extractColumnFromArg : Argument → Parse String
  | .term (.identifier value) => .ok value
  | .wildcard => .ok "*"
  | _ => parseError "Expected column name in aggregation"

def extractPathFromAggArg : Argument → Parse String
  | .term (.identifier value) => .ok ("$." ++ value)
  | arg => pathOfArg x "Expected json_extract in aggregation" "Invalid aggregation argument" arg

/-- The aggregation of a path. -/
def pathAggregation (funcName : String) (called : Option String) : Option (String → WindowAggregation) :=
  if funcName = "SUM" then some fun path => .sum path called
  else if funcName ∈ ["AVG", "MEAN"] then some fun path => .avg path called
  else if funcName = "MIN" then some fun path => .min path called
  else if funcName = "MAX" then some fun path => .max path called
  else if funcName ∈ ["FIRST", "FIRST_VALUE"] then some fun path => .first path called
  else if funcName ∈ ["LAST", "LAST_VALUE"] then some fun path => .last path called
  else none

def tryParseAggregation (e : Term) (called : Option String) : Parse (Option WindowAggregation) :=
  match e with
  | .function name args distinct =>
    let funcName := toUppercase x name
    if funcName = "COUNT" then
      if distinct then do
        let column ← extractColumnFromArg (← itemAt args 0)
        return some (.countDistinct column called)
      else .ok (some (.count called))
    else
      match pathAggregation funcName called with
      | some aggregation => do
        let path ← extractPathFromAggArg x (← itemAt args 0)
        return some (aggregation path)
      | none => .ok none
  | _ => .ok none

/-- The aggregation of an item of the projection. -/
def itemAggregation : SelectItem → Parse (Option WindowAggregation)
  | .unnamedExpr e => tryParseAggregation x e none
  | .exprWithAlias e called => tryParseAggregation x e (some called)
  | _ => .ok none

def parseWindowAggregations (select : Select) : Parse (List WindowAggregation) :=
  select.projection.foldlM (fun aggregations item => do return aggregations ++ (← itemAggregation x item).toList) []

end StreamHouse.Sql.Parser
