import StreamHouse.Lib.Multiples
import StreamHouse.Sql.Stream.Watermark
import StreamHouse.Sql.Windows

/-!
# The window operator

`WindowAggregateOperator` keeps an accumulator for each open window, and emits the windows that the
global watermark has passed. What divides by zero or loops for ever gives nothing.
-/

namespace StreamHouse.Sql

open Lib HashMaps

/-- Bytes with the JSON that `serde_json::from_slice` reads from them, or its error. -/
structure Payload where
  bytes : List UInt8
  json : Except String Json

structure StreamRecord where
  key : Option (List UInt8)
  value : Payload
  timestamp : Int
  partition : BitVec 32
  offset : BitVec 64
  headers : List (String × String)

def StreamRecord.new (value : Payload) (timestamp : Int) : StreamRecord where
  key := none
  value := value
  timestamp := timestamp
  partition := 0
  offset := 0
  headers := []

inductive AggregateFunction where
  | count
  | sum (field : String)
  | avg (field : String)
  | min (field : String)
  | max (field : String)

/-- A sum that became infinite is none. -/
structure WindowAccumulator where
  count : Nat
  sum : Option F64
  min : Option F64
  max : Option F64

namespace WindowAccumulator

def default : WindowAccumulator where
  count := 0
  sum := F64.ofRational 0
  min := none
  max := none

def add (acc : WindowAccumulator) : Option F64 → WindowAccumulator
  | none => { acc with count := acc.count + 1 }
  | some v =>
    { count := acc.count + 1
      sum := acc.sum.bind fun s => F64.ofRational (s.value + v.value)
      min := some (acc.min.elim v fun m => if v.value < m.value then v else m)
      max := some (acc.max.elim v fun m => if m.value < v.value then v else m) }

@[simp] theorem add_count (acc : WindowAccumulator) (value : Option F64) : (acc.add value).count = acc.count + 1 := by
  cases value with
  | none => rfl
  | some v => rfl

end WindowAccumulator

/-- `HashMap<i64, WindowAccumulator>`, by the start of the window. -/
abbrev OpenWindows := AList fun _ : Int => WindowAccumulator

/-- The fields of the JSON that is emitted for a window. -/
structure WindowResult where
  windowStart : Int
  windowEnd : Int
  result : Option F64
  count : Nat

structure WindowAggregateOperator where
  windowType : WindowType
  aggregateFn : AggregateFunction
  windows : OpenWindows

namespace WindowAggregateOperator

def new (windowType : WindowType) (aggregateFn : AggregateFunction) : WindowAggregateOperator := ⟨windowType, aggregateFn, ∅⟩

def assignWindows (op : WindowAggregateOperator) (iteration : HashOrder Int) (timestamp : Int) : Option (List Int) :=
  match op.windowType with
  | .tumble size => if size = 0 then none else some [Multiples.truncated size timestamp]
  | .hop size slide =>
    let earliest := Multiples.truncated slide (timestamp - size + slide)
    if slide = 0 then none
    else if slide < 0 ∧ earliest ≤ timestamp then none
    else some ((Multiples.multiples slide earliest timestamp).filter fun w => timestamp < w + size)
  | .session gap => some [((iteration.order op.windows.keys).find? fun start => |timestamp - start| ≤ gap).getD timestamp]

def extractValue (op : WindowAggregateOperator) (json : Json) : Option F64 :=
  match op.aggregateFn with
  | .count => none
  | .sum field => (json.get field).bind asF64
  | .avg field => (json.get field).bind asF64
  | .min field => (json.get field).bind asF64
  | .max field => (json.get field).bind asF64

def computeResult (op : WindowAggregateOperator) (acc : WindowAccumulator) : Option F64 :=
  match op.aggregateFn with
  | .count => F64.ofRational acc.count
  | .sum _ => acc.sum
  | .avg _ => if 0 < acc.count then acc.sum.bind fun s => (F64.ofRational acc.count).bind fun n => F64.ofRational (s.value / n.value) else F64.ofRational 0
  | .min _ => acc.min.elim (F64.ofRational 0) some
  | .max _ => acc.max.elim (F64.ofRational 0) some

/-- What is added to the start of a window for its end. -/
def windowSize (op : WindowAggregateOperator) : Int :=
  match op.windowType with
  | .tumble size => size
  | .hop size _ => size
  | .session gap => gap

def windowResult (op : WindowAggregateOperator) (start : Int) (acc : WindowAccumulator) : WindowResult where
  windowStart := start
  windowEnd := start + op.windowSize
  result := op.computeResult acc
  count := acc.count

/-- The body of both loops that emit: the window is removed, and its result is pushed. -/
def emitWindow (emitted : WindowAggregateOperator × List WindowResult) (start : Int) : WindowAggregateOperator × List WindowResult :=
  match emitted.1.windows.lookup start with
  | none => emitted
  | some acc => ({ emitted.1 with windows := emitted.1.windows.erase start }, emitted.2 ++ [emitted.1.windowResult start acc])

def emitCompletedWindows (op : WindowAggregateOperator) (iteration : HashOrder Int) (watermarks : Watermarks) :
    WindowAggregateOperator × List WindowResult :=
  let globalWatermark := (WatermarkTracker.getGlobalWatermark watermarks).getD I64.least
  ((iteration.order op.windows.keys).filter fun start => start + op.windowSize ≤ globalWatermark).foldl emitWindow (op, [])

/-- One record in one window. -/
def addToWindow (value : Option F64) (windows : OpenWindows) (start : Int) : OpenWindows :=
  windows.insert start (((windows.lookup start).getD .default).add value)

/-- The watermarks are those of the tracker that the operator shares; its answer on the record
is not looked at. -/
def process (config : WatermarkConfig) (iteration : HashOrder Int) (now : Nat) (record : StreamRecord) (watermarks : Watermarks)
    (op : WindowAggregateOperator) : Option (Watermarks × WindowAggregateOperator × List WindowResult) := do
  let json := record.value.json.toOption.getD .null
  let value := op.extractValue json
  let (watermarks, _) ← WatermarkTracker.updateWatermark config now "stream" record.partition record.timestamp watermarks
  let starts ← op.assignWindows iteration record.timestamp
  let counted := { op with windows := starts.foldl (addToWindow value) op.windows }
  return (watermarks, counted.emitCompletedWindows iteration watermarks)

def flush (op : WindowAggregateOperator) (iteration : HashOrder Int) : WindowAggregateOperator × List WindowResult :=
  (iteration.order op.windows.keys).foldl emitWindow (op, [])

end WindowAggregateOperator

end StreamHouse.Sql
