import StreamHouse.Sql.AggregateQueries

/-!
# The Arrow executor

TUMBLE and GROUP BY queries with Arrow: the segments are picked by the filters, the messages by
their timestamps, and the columns of the batch are grouped and aggregated by their row numbers.
-/

namespace StreamHouse.Sql.Arrow

open Lib

/-- `trim_start_matches("$.")`. -/
def trimStart : List Char → List Char
  | '$' :: '.' :: rest => trimStart rest
  | chars => chars

def pathParts (path : String) : List String := ((trimStart path.toList).splitOn '.').map String.ofList

def extractJsonValue (value : Json) (path : String) : Json :=
  (pathParts path).foldl (fun current part =>
    match current with
    | .object fields => (Json.find fields part).getD .null
    | _ => .null) value

def extractNumber (value : Json) (path : String) : Option F64 :=
  ((pathParts path).foldl (fun current part => current.bind fun value => value.get part) (some value)).bind asF64

/-! ## Loading -/

section Load

variable (display : Json → String) (parse : String → Option Json)

/-- The bounds of `find_map` over the filters: the first of each kind. -/
def offsetStart (filters : List Filter) : Option (BitVec 64) :=
  filters.findSome? fun filter =>
    match filter with
    | .offsetGte o => some o
    | _ => none

def offsetEnd (filters : List Filter) : Option (BitVec 64) :=
  filters.findSome? fun filter =>
    match filter with
    | .offsetLt o => some o
    | _ => none

def tsStart (filters : List Filter) : Option Int :=
  filters.findSome? fun filter =>
    match filter with
    | .timestampGte ts => some ts
    | _ => none

def tsEnd (filters : List Filter) : Option Int :=
  filters.findSome? fun filter =>
    match filter with
    | .timestampLt ts => some ts
    | _ => none

/-- A line of text as a message; a line that is no JSON is passed over. -/
def lineMessage (segment : TopicSegment) (line : String) (i : Nat) : Option MessageRow :=
  (parse line).map fun record => {
    topic := segment.topic
    partition := segment.partition
    offset := segment.baseOffset + BitVec.ofNat 64 i
    key := ((record.get "key").bind Json.asStr).map (textOf parse)
    value := textOf parse (match record.get "value" with
      | some (.string s) => s
      | some value => display value
      | none => "")
    timestamp := ((record.get "timestamp").bind asI64).getD segment.createdAt }

/-- The timestamp is in the bounds. -/
def inBounds (filters : List Filter) (msg : MessageRow) : Bool :=
  ((tsStart filters).all fun ts => decide (ts ≤ msg.timestamp)) && (tsEnd filters).all fun ts => decide (msg.timestamp < ts)

def readSegmentMessages (filters : List Filter) (segment : TopicSegment) : List MessageRow :=
  (match segment.data with
  | .binary messages => messages
  | .ndjson lines => (numberedLines lines).filterMap fun (line, i) => lineMessage display parse segment line i).filter (inBounds filters)

end Load

/-! ## Aggregating -/

variable (display : Json → String)

def numbers (path : String) (messages : List MessageRow) : List F64 :=
  messages.filterMap fun msg => msg.value.json.bind fun json => extractNumber json path

def valueOf (path : String) (msg : MessageRow) : Json := (msg.value.json.map fun json => extractJsonValue json path).getD .null

/-- The text that COUNT(DISTINCT ..) counts of a message. -/
def distinctText (column : String) (msg : MessageRow) : Option String :=
  msg.value.json.map fun json => display (extractJsonValue json column)

/-- `compute_arrow_aggregation` of the messages with the row numbers of a group. `f64::min` of the
two zeros may be either, and so `f64::max`. -/
def computeArrowAggregation (agg : WindowAggregation) (messages : List MessageRow) : Json :=
  match agg with
  | .count _ => lengthJson messages.length
  | .sum path _ => floatJson (F64.sum (numbers path messages))
  | .avg path _ => if numbers path messages = [] then .null else floatJson (F64.mean (numbers path messages))
  | .min path _ => floatJson (F64.least (numbers path messages))
  | .max path _ => floatJson (F64.greatest (numbers path messages))
  | .first path _ => (messages.head?.map (valueOf path)).getD .null
  | .last path _ => (messages.getLast?.map (valueOf path)).getD .null
  | .countDistinct column _ => lengthJson (messages.filterMap (distinctText display column)).dedup.length

/-- `execute_tumble_aggregate`: the group columns and the limit are not used. -/
def tumbleRows (query : AggregateQuery) (size : Int) (messages : List MessageRow) : Option (List (List Json)) :=
  if messages = [] then some []
  else if size = 0 then none
  else
    let windows := (messages.map fun msg => (msg.timestamp.tdiv size * size, msg)).foldl OrderedMap.push []
    some (windows.map fun (windowStart, windowMessages) =>
      [i64Json windowStart, i64Json (windowStart + size)] ++
        query.aggregations.map fun agg => computeArrowAggregation display agg windowMessages)

/-- The part of a group key that one column gives. -/
def groupPart (msg : MessageRow) (column : String) : String :=
  if column = "partition" then toString msg.partition.toNat
  else if column = "key" then (msg.key.map Text.chars).getD "null"
  else if isPath column then
    match msg.value.json with
    | some json => display (extractJsonValue json column)
    | none => "null"
  else ""

/-- `trim_matches('"')`. -/
def trimQuotes (chars : List Char) : List Char := ((chars.dropWhile (· = '"')).reverse.dropWhile (· = '"')).reverse

/-- A part of a group key in a row. -/
def columnValue (column : String) (part : String) : Json :=
  if column ∈ ["partition", "offset", "timestamp"] then
    match parseI64 part.toList with
    | some n => i64Json n
    | none => .string part
  else .string (String.ofList (trimQuotes part.toList))

/-- `execute_group_by_aggregate` of the Arrow executor. -/
def groupByRows (query : AggregateQuery) (messages : List MessageRow) : List (List Json) :=
  if messages = [] then []
  else
    let groups := (messages.map fun msg => (query.groupBy.map (groupPart display msg), msg)).foldl OrderedMap.push []
    (groups.map fun (parts, groupMessages) =>
      List.zipWith columnValue query.groupBy parts ++
        query.aggregations.map fun agg => computeArrowAggregation display agg groupMessages).take (min (query.limit.getD maxRows) maxRows)

end StreamHouse.Sql.Arrow
