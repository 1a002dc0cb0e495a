import StreamHouse.Sql.Windows

/-!
# Aggregate queries

What both executors read of a segment, and the rows of a GROUP BY query without Arrow: the loaded
messages are grouped and aggregated.
-/

namespace StreamHouse.Sql

open Lib

/-- What `WindowAggregateQuery` and `GroupByAggregateQuery` ask of the loaded messages. -/
structure AggregateQuery where
  aggregations : List WindowAggregation
  groupBy : List String
  limit : Option Nat

/-! ## The contents of a topic -/

/-- The data of a segment: the messages that the segment reader reads, or else lines of text. -/
inductive SegmentData where
  | binary (messages : List MessageRow)
  | ndjson (lines : List String)

structure TopicSegment where
  topic : String
  partition : BitVec 32
  baseOffset : BitVec 64
  endOffset : BitVec 64
  createdAt : Int
  data : SegmentData

/-- The white space of `trim`. -/
def isWhiteSpace (c : Char) : Bool :=
  let n := c.toNat
  decide (9 ≤ n ∧ n ≤ 13) || decide (8192 ≤ n ∧ n ≤ 8202) ||
    decide (n ∈ [32, 133, 160, 5760, 8232, 8233, 8239, 8287, 12288])

/-- `Value::as_i64`. -/
def asI64 : Json → Option Int
  | .number (.posInt n) => if n.toNat < 2 ^ 63 then some n.toNat else none
  | .number (.negInt n) => some (-(n.val + 1))
  | _ => none

/-- `str::parse::<i64>`. -/
def parseI64 (text : List Char) : Option Int :=
  let (negative, digits) : Bool × List Char := match text with
    | '-' :: digits => (true, digits)
    | '+' :: digits => (false, digits)
    | digits => (false, digits)
  let n : Int := digits.foldl (fun n c => 10 * n + (c.toNat - '0'.toNat)) 0
  let value := if negative then -n else n
  if digits ≠ [] ∧ digits.all Char.isDigit ∧ -2 ^ 63 ≤ value ∧ value < 2 ^ 63 then some value else none

section Load

-- `to_string` of a JSON value, and `serde_json::from_str`
variable (display : Json → String) (parse : String → Option Json)

def textOf (chars : String) : Text := ⟨chars, parse chars⟩

/-- The lines with their numbers, without the blank ones. -/
def numberedLines (lines : List String) : List (String × Nat) :=
  lines.zipIdx.filter fun (line, _) => !line.toList.all isWhiteSpace

/-- A line of text as a message. -/
def lineMessage (segment : TopicSegment) (line : String) (i : Nat) : MessageRow :=
  match parse line with
  | some record => {
      topic := segment.topic
      partition := segment.partition
      offset := segment.baseOffset + BitVec.ofNat 64 i
      key := ((record.get "key").bind Json.asStr).map (textOf parse)
      value := textOf parse (((record.get "value").map display).getD line)
      timestamp := ((record.get "timestamp").bind asI64).getD segment.createdAt }
  | none => {
      topic := segment.topic
      partition := segment.partition
      offset := segment.baseOffset + BitVec.ofNat 64 i
      key := none
      value := textOf parse line
      timestamp := segment.createdAt }

def readSegmentMessages (segment : TopicSegment) : List MessageRow :=
  match segment.data with
  | .binary messages => messages
  | .ndjson lines => (numberedLines lines).map fun (line, i) => lineMessage display parse segment line i

/-- The partition of the first filter that names one. -/
def partitionFilter (filters : List Filter) : Option (BitVec 32) :=
  filters.findSome? fun filter =>
    match filter with
    | .partitionEquals p => some p
    | _ => none

def queryPartitions (filters : List Filter) (partitionCount : BitVec 32) : List (BitVec 32) :=
  match partitionFilter filters with
  | some p => [p]
  | none => (List.range partitionCount.toNat).map (BitVec.ofNat 32)

end Load

variable (display : Json → String)

/-- A part of a group key in a row: a number, if it is the text of one. -/
def groupValue (part : List Char) : Json :=
  match parseI64 part with
  | some n => i64Json n
  | none => .string (String.ofList part)

/-- `execute_group_by_aggregate`. -/
def groupByRows (query : AggregateQuery) (messages : List MessageRow) : List (List Json) :=
  let groups := (messages.map fun msg => ((extractGroupKey display msg query.groupBy).getD "", msg)).foldl OrderedMap.push []
  (groups.map fun (groupKey, groupMessages) =>
    ((groupKey.toList.splitOn '|').map groupValue) ++ query.aggregations.map fun agg => computeAggregation agg groupMessages).take
      (min (query.limit.getD maxRows) maxRows)

end StreamHouse.Sql
