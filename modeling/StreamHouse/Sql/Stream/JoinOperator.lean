import StreamHouse.Sql.Join
import StreamHouse.Sql.Stream.WindowOperator

/-!
# The join operator

`JoinOperator` keeps the records of each side as long as they are within the time window of the last
record, and joins each record with those of the other side. A call whose arithmetic overflows gives
nothing.
-/

namespace StreamHouse.Sql

open I64

structure JoinConfig where
  leftKey : String
  rightKey : String
  window : Int
  joinType : JoinType

inductive JoinSide where
  | left
  | right
deriving DecidableEq

def JoinSide.other : JoinSide → JoinSide
  | .left => .right
  | .right => .left

def JoinConfig.keyField (config : JoinConfig) : JoinSide → String
  | .left => config.leftKey
  | .right => config.rightKey

structure JoinBufferEntry where
  record : StreamRecord
  joinKey : Json
  json : Json

/-- The fields of the JSON that is emitted, and the timestamp of its record. -/
structure JoinOutput where
  left : Json
  right : Json
  timestamp : Int

namespace JoinOutput

def json (output : JoinOutput) : Json := .object [("left", output.left), ("right", output.right)]

/-- The record of an output; `toVec` is `serde_json::to_vec`, which takes any value. -/
def record (toVec : Json → Payload) (output : JoinOutput) : StreamRecord := .new (toVec output.json) output.timestamp

end JoinOutput

structure JoinOperator where
  config : JoinConfig
  leftBuffer : List JoinBufferEntry
  rightBuffer : List JoinBufferEntry

namespace JoinOperator

def new (config : JoinConfig) : JoinOperator := ⟨config, [], []⟩

/-- The entry of a record, or the text of the error. -/
def entryOf (config : JoinConfig) (side : JoinSide) (record : StreamRecord) : Except String JoinBufferEntry :=
  match record.value.json with
  | .error e => .error s!"failed to parse join record as JSON: {e}"
  | .ok json => .ok { record, joinKey := (json.get (config.keyField side)).getD .null, json }

/-- Both kinds of join have one output. -/
def buildOutput (left right : Json) (joinType : JoinType) (now : Int) : JoinOutput :=
  match joinType with
  | .inner => ⟨left, right, now⟩
  | .left | .right | .full => ⟨left, right, now⟩

/-- The difference of the timestamps, or its absolute value, overflows. It is taken only of records with the key. -/
def overflows (record : StreamRecord) (joinKey : Json) (other : JoinBufferEntry) : Bool :=
  other.joinKey.same joinKey && !decide (Fits (record.timestamp - other.record.timestamp) ∧ record.timestamp - other.record.timestamp ≠ least)

/-- The entries of the other side that a record is joined with. -/
def probe (config : JoinConfig) (record : StreamRecord) (joinKey : Json) (buffer : List JoinBufferEntry) : Option (List JoinBufferEntry) :=
  if buffer.any (overflows record joinKey) then none
  else some (buffer.filter fun other =>
    other.joinKey.same joinKey && decide (|record.timestamp - other.record.timestamp| ≤ config.window))

def evictExpired (op : JoinOperator) (currentTimestamp : Int) : Option JoinOperator :=
  (checkedSub currentTimestamp op.config.window).map fun cutoff =>
    { op with
      leftBuffer := op.leftBuffer.filter fun e => cutoff ≤ e.record.timestamp
      rightBuffer := op.rightBuffer.filter fun e => cutoff ≤ e.record.timestamp }

/-- A record of one side that has been parsed; the clock is read for each output. -/
def processEntry (now : Nat → Int) (entry : JoinBufferEntry) (op : JoinOperator) : JoinSide → Option (JoinOperator × List JoinOutput)
  | .left => do
    let hits ← probe op.config entry.record entry.joinKey op.rightBuffer
    let op' ← evictExpired { op with leftBuffer := op.leftBuffer ++ [entry] } entry.record.timestamp
    return (op', hits.mapIdx fun i other => buildOutput entry.json other.json op.config.joinType (now i))
  | .right => do
    let hits ← probe op.config entry.record entry.joinKey op.leftBuffer
    let op' ← evictExpired { op with rightBuffer := op.rightBuffer ++ [entry] } entry.record.timestamp
    return (op', hits.mapIdx fun i other => buildOutput other.json entry.json op.config.joinType (now i))

def processSided (now : Nat → Int) (record : StreamRecord) (side : JoinSide) (op : JoinOperator) :
    Option (Except String (JoinOperator × List JoinOutput)) :=
  match entryOf op.config side record with
  | .error e => some (.error e)
  | .ok entry => (processEntry now entry op side).map .ok

/-- A record without a side is of the left one. -/
def process (now : Nat → Int) (record : StreamRecord) (op : JoinOperator) : Option (Except String (JoinOperator × List JoinOutput)) :=
  processSided now record .left op

/-- The buffered records of the outer sides, with null. -/
def flush (op : JoinOperator) : JoinOperator × List JoinOutput :=
  let lefts := if op.config.joinType.keepsLeft then op.leftBuffer.map fun e => (⟨e.json, .null, e.record.timestamp⟩ : JoinOutput) else []
  let rights := if op.config.joinType.keepsRight then op.rightBuffer.map fun e => (⟨.null, e.json, e.record.timestamp⟩ : JoinOutput) else []
  ({ op with leftBuffer := [], rightBuffer := [] }, lefts ++ rights)

end JoinOperator

end StreamHouse.Sql
