import StreamHouse.Storage.StoredLog

/-!
# The consume loop of a pipeline

`PipelineConsumeLoop::poll_and_sink`: the partitions are read from behind their committed
offsets, the records go through the transform to the sink, and the offsets are committed. What
fails in a call is an argument; the effects of a call are listed in their order.
-/

namespace StreamHouse.Connectors

open Metadata Storage

/-- `PipelineConsumeLoopConfig`, without the names that only logs and keys have. -/
structure PipelineConsumeLoopConfig where
  orgId : String
  sourceTopic : String
  partitionCount : Nat
  maxRecordsPerPoll : Nat

structure SinkRecord where
  topic : String
  partition : Nat
  offset : Nat
  timestamp : Nat
  key : Option Bytes
  value : Bytes
deriving DecidableEq

inductive PipelineError where
  | metadata (e : MetadataError)
  | read (e : ReadError)
  | transform (message : String)
  | sink (message : String)

/-- The row of `consumer_offsets` under the group, topic and partition. -/
structure OffsetRow where
  organizationId : String
  committedOffset : Nat

/-- The offsets of the group, what the partitions have and the offsets they assign next, and the
records that went through the transform to the sink and were flushed. -/
structure PipelineState where
  offsetRow : Nat → Option OffsetRow
  log : Nat → StoredLog
  next : Nat → Nat
  delivered : List SinkRecord

/-- What one call meets. -/
structure PollConditions where
  getCommittedOffset : Nat → Option MetadataError
  reader : Nat → ReadFaults
  /-- `get_segments`, called again for a partition whose offset is not found. -/
  getSegments : Nat → Option MetadataError
  commitReset : Nat → Option MetadataError
  transform : Option (List SinkRecord → Except String (List SinkRecord))
  put : Option String
  flush : Option String
  commitOffset : Nat → Option MetadataError

inductive PipelineEffect where
  | commitOffset (partition offset : Nat)
  | deliver (records : List SinkRecord)

namespace PipelineState

variable (config : PipelineConsumeLoopConfig) (s : PipelineState)

/-- `get_committed_offset_for_org`. -/
def committed (partition : Nat) : Option Nat :=
  ((s.offsetRow partition).filter fun row => row.organizationId = config.orgId).map OffsetRow.committedOffset

/-- `commit_offset_for_org`: a row that is there keeps its organization. -/
def commitOffset (partition offset : Nat) : PipelineState :=
  { s with
    offsetRow := Function.update s.offsetRow partition (some
      (match s.offsetRow partition with
      | some row => { row with committedOffset := offset }
      | none => ⟨config.orgId, offset⟩)) }

def apply : PipelineEffect → PipelineState
  | .commitOffset partition offset => s.commitOffset config partition offset
  | .deliver records => { s with delivered := s.delivered ++ records }

def applyAll (effects : List PipelineEffect) : PipelineState := effects.foldl (apply config) s

/-- `committed.map(|o| o + 1).unwrap_or(0)`. -/
def startOffset (partition : Nat) : Nat := ((s.committed config partition).map (· + 1)).getD 0

end PipelineState

/-! ## One partition -/

/-- How a call gets past a partition: with its records, with an offset to begin again from, or
with nothing yet. -/
inductive PartitionPoll where
  | records (records : List Record)
  | reset (earliest : Nat)
  | wait

/-- The branch for `OffsetNotFound`. -/
def resetOrWait (segments : List SegmentInfo) (startOffset : Nat) : PartitionPoll :=
  match segments.head?, segments.getLast? with
  | some first, some last =>
    if startOffset < first.baseOffset then .reset first.baseOffset
    else if last.endOffset + 1 < startOffset then .reset first.baseOffset
    else .wait
  | _, _ => .wait

variable (config : PipelineConsumeLoopConfig) (s : PipelineState) (conditions : PollConditions)

def pollPartition (partition : Nat) : Except PipelineError PartitionPoll :=
  match conditions.getCommittedOffset partition with
  | some e => .error (.metadata e)
  | none =>
    match ((s.log partition).view (conditions.reader partition)).read (s.startOffset config partition) config.maxRecordsPerPoll with
    | .ok result => .ok (.records result.records)
    | .error (.offsetNotFound _) =>
      match conditions.getSegments partition with
      | some _ => .ok (resetOrWait [] (s.startOffset config partition))
      | none => .ok (resetOrWait ((s.log partition).segments.map StoredSegment.info) (s.startOffset config partition))
    | .error e => .error (.read e)

/-! ## One call -/

def sinkRecord (partition : Nat) (r : Record) : SinkRecord :=
  ⟨config.sourceTopic, partition, r.offset, r.timestamp, r.key, r.value⟩

/-- The loop over the partitions: `all_records` and `partition_offsets`. A reset whose commit
fails is passed over. -/
def pollPartitions : List Nat → List PipelineEffect × Except PipelineError (List SinkRecord × List (Nat × Nat))
  | [] => ([], .ok ([], []))
  | partition :: rest =>
    match pollPartition config s conditions partition with
    | .error e => ([], .error e)
    | .ok .wait => pollPartitions rest
    | .ok (.reset earliest) =>
      let (effects, read) := pollPartitions rest
      ((if (conditions.commitReset partition).isSome then [] else [.commitOffset partition earliest]) ++ effects, read)
    | .ok (.records records) =>
      let (effects, read) := pollPartitions rest
      (effects, read.map fun (all, offsets) =>
        (records.map (sinkRecord config partition) ++ all, (records.getLast?.map fun last => (partition, last.offset)).toList ++ offsets))

/-- The commits after the sink has the records. -/
def commitOffsets : List (Nat × Nat) → List PipelineEffect × Except PipelineError Unit
  | [] => ([], .ok ())
  | (partition, offset) :: rest =>
    match conditions.commitOffset partition with
    | some e => ([], .error (.metadata e))
    | none =>
      let (effects, result) := commitOffsets rest
      (.commitOffset partition offset :: effects, result)

/-- `max_offset`, of offsets as `i64`. -/
def maxOffset (records : List SinkRecord) : Int :=
  records.foldl (fun most r => max most (BitVec.ofNat 64 r.offset).toInt) (-1)

/-- The transform, if there is one. -/
def transformed (records : List SinkRecord) : Except String (List SinkRecord) :=
  match conditions.transform with
  | some transform => transform records
  | none => .ok records

/-- What follows the loop over the partitions. -/
def sinkRecords (records : List SinkRecord) (offsets : List (Nat × Nat)) :
    List PipelineEffect × Except PipelineError (Nat × Int) :=
  if records = [] then ([], .ok (0, -1))
  else
    match transformed conditions records with
    | .error e => ([], .error (.transform e))
    | .ok out =>
      if out = [] then ([], .ok (0, -1))
      else
        match conditions.put, conditions.flush with
        | some e, _ => ([], .error (.sink e))
        | none, some e => ([], .error (.sink e))
        | none, none =>
          let (commits, result) := commitOffsets conditions offsets
          (.deliver records :: commits, result.map fun _ => (out.length, maxOffset records))

/-- `poll_and_sink`. -/
def pollAndSink : List PipelineEffect × Except PipelineError (Nat × Int) :=
  match pollPartitions config s conditions (List.range config.partitionCount) with
  | (effects, .error e) => (effects, .error e)
  | (effects, .ok (records, offsets)) =>
    let (sunk, result) := sinkRecords conditions records offsets
    (effects ++ sunk, result)

/-! ## Runs -/

/-- A new log of a partition has records of the old one, and new ones under offsets that were
not assigned before. -/
def Follows (log old : StoredLog) (next : Nat) : Prop := ∀ r ∈ log.records, r ∈ old.records ∨ next ≤ r.offset

instance (log old : StoredLog) (next : Nat) : Decidable (Follows log old next) :=
  inferInstanceAs (Decidable (∀ r ∈ log.records, r ∈ old.records ∨ next ≤ r.offset))

/-- An offset above all that the segments have. -/
def offsetAbove (segments : List StoredSegment) (next : Nat) : Nat :=
  segments.foldl (fun next segment => max next (segment.info.endOffset + 1)) next

theorem lt_offsetAbove (segments : List StoredSegment) (next : Nat) :
    next ≤ offsetAbove segments next ∧ ∀ segment ∈ segments, segment.info.endOffset < offsetAbove segments next := by
  induction segments generalizing next with
  | nil => exact ⟨le_refl _, (by rintro _ ⟨⟩)⟩
  | cons first segments ih =>
    obtain ⟨above, each⟩ := ih (max next (first.info.endOffset + 1))
    refine ⟨(le_max_left _ _).trans above, fun segment inside => ?_⟩
    obtain rfl | later := List.mem_cons.mp inside
    · exact Nat.lt_of_succ_le ((le_max_right _ _).trans above)
    · exact each segment later

/-- Calls, and in between what writers, retention and compaction make of a partition. -/
inductive PipelineEvent where
  | poll (conditions : PollConditions)
  | store (partition : Nat) (log : StoredLog)

namespace PipelineState

/-- A log that does not follow the old one changes nothing. -/
def step : PipelineEvent → PipelineState
  | .poll conditions => s.applyAll config (pollAndSink config s conditions).1
  | .store partition log =>
    if Follows log (s.log partition) (s.next partition) then
      { s with
        log := Function.update s.log partition log
        next := Function.update s.next partition (offsetAbove log.segments (s.next partition)) }
    else s

/-- The pipeline begins with any committed offsets and any contents of the topic. -/
def start (offsetRow : Nat → Option OffsetRow) (log : Nat → StoredLog) : PipelineState :=
  ⟨offsetRow, log, fun partition => offsetAbove (log partition).segments 0, []⟩

end PipelineState

end StreamHouse.Connectors
