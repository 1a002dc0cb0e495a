import StreamHouse.Core.I64
import StreamHouse.Lib.HashMaps

/-!
# Watermarks

The watermark of a partition is behind its greatest timestamp by the out-of-orderness; the global
watermark is the least of the partitions that are not idle. A call whose difference of `i64`s
overflows gives nothing. An instant is a number of nanoseconds.
-/

namespace StreamHouse.Sql

open I64 Lib

/-- The durations are nanoseconds. -/
structure WatermarkConfig where
  maxOutOfOrderness : Nat
  idleTimeout : Nat

namespace WatermarkConfig

def default : WatermarkConfig where
  maxOutOfOrderness := 5 * 10 ^ 9
  idleTimeout := 60 * 10 ^ 9

/-- `max_out_of_orderness.as_millis()`. -/
def millis (config : WatermarkConfig) : Nat := config.maxOutOfOrderness / 10 ^ 6

/-- The milliseconds `as i64`. -/
def allowed (config : WatermarkConfig) : Int := wrap config.millis

end WatermarkConfig

structure PartitionWatermark where
  topic : String
  partition : BitVec 32
  currentWatermark : Int
  maxTimestampSeen : Int
  lastEventTime : Nat
  isIdle : Bool
  lateEventsDropped : Nat
deriving DecidableEq

def PartitionWatermark.new (topic : String) (partition : BitVec 32) (now : Nat) : PartitionWatermark where
  topic := topic
  partition := partition
  currentWatermark := least
  maxTimestampSeen := least
  lastEventTime := now
  isIdle := false
  lateEventsDropped := 0

inductive EventTimeResult where
  | onTime
  | late
  | tooLate
deriving DecidableEq

abbrev TopicPartition := String × BitVec 32

/-- `HashMap<(String, u32), PartitionWatermark>`. -/
abbrev Watermarks := AList fun _ : TopicPartition => PartitionWatermark

namespace WatermarkTracker

variable (config : WatermarkConfig)

def classifyEvent (pw : PartitionWatermark) (eventTimestamp : Int) : Option EventTimeResult :=
  if pw.currentWatermark = least then some .onTime
  else if pw.currentWatermark ≤ eventTimestamp then some .onTime
  else (checkedSub pw.currentWatermark eventTimestamp).map fun lateness =>
    if lateness ≤ config.allowed then .late else .tooLate

/-- The entry of a partition, a new one if there is none. -/
def entry (watermarks : Watermarks) (topic : String) (partition : BitVec 32) (now : Nat) : PartitionWatermark :=
  (watermarks.lookup (topic, partition)).getD (PartitionWatermark.new topic partition now)

def updateWatermark (now : Nat) (topic : String) (partition : BitVec 32) (eventTimestamp : Int) (watermarks : Watermarks) :
    Option (Watermarks × EventTimeResult) := do
  let pw := entry watermarks topic partition now
  let result ← classifyEvent config pw eventTimestamp
  let maxTimestampSeen := if eventTimestamp > pw.maxTimestampSeen then eventTimestamp else pw.maxTimestampSeen
  let newWatermark ← checkedSub maxTimestampSeen config.allowed
  let updated : PartitionWatermark :=
    { pw with
      maxTimestampSeen
      currentWatermark := if newWatermark > pw.currentWatermark then newWatermark else pw.currentWatermark
      lastEventTime := now
      isIdle := false
      lateEventsDropped := if result = .tooLate then pw.lateEventsDropped + 1 else pw.lateEventsDropped }
  return (watermarks.insert (topic, partition) updated, result)

def getGlobalWatermark (watermarks : Watermarks) : Option Int :=
  (((watermarks.entries.map Sigma.snd).filter fun pw => !pw.isIdle).map PartitionWatermark.currentWatermark).min?

/-- `elapsed() > idle_timeout`, for a partition that was not idle. -/
def becomesIdle (clock : TopicPartition → Nat) (key : TopicPartition) (pw : PartitionWatermark) : Bool :=
  !pw.isIdle && decide (clock key - pw.lastEventTime > config.idleTimeout)

/-- What the loop does to one entry. -/
def advanceIdle (clock : TopicPartition → Nat) (globalWatermark : Int) (key : TopicPartition) (pw : PartitionWatermark) : PartitionWatermark :=
  if becomesIdle config clock key pw then
    { pw with
      isIdle := true
      currentWatermark := if globalWatermark > pw.currentWatermark then globalWatermark else pw.currentWatermark }
  else pw

/-- The clock is read for each partition by itself. -/
def advanceIdleWatermarks (clock : TopicPartition → Nat) (watermarks : Watermarks) : Watermarks × Nat :=
  match getGlobalWatermark watermarks with
  | none => (watermarks, 0)
  | some globalWatermark =>
    (HashMaps.mapValues (advanceIdle config clock globalWatermark) watermarks,
      (watermarks.entries.filter fun e => becomesIdle config clock e.1 e.2).length)

end WatermarkTracker

end StreamHouse.Sql
