import Mathlib.Data.List.AList
import StreamHouse.Storage.PartitionWriter

/-!
# Log compaction

`CompactionTask::compact_partition` (`streamhouse-server/src/compaction.rs`). The
eligible segments are read in base offset order until the record limit is reached;
values and tombstones are collected in two maps, unkeyed records in a list. The
result is written as one segment and registered; then the objects of all eligible
segments are deleted, read or not, and the rows that end before the first eligible
segment.

The environment says which store operations succeed and what the clock reads. A
hash map's iteration order is an argument too (`HashOrder`).
-/

namespace StreamHouse.Server
open Metadata Storage

/-- `CompactionConfig`, the fields a run reads, in milliseconds. -/
structure CompactionConfig where
  maxRecordsPerRun : Nat
  minSegmentAge : Int
  tombstoneRetention : Int

inductive CompactionError where
  | listSegments
  | getSegment (key : S3Key)
  | parseSegment (key : S3Key)
  | upload
  | addSegment (e : MetadataError)
  | deleteMetadata

structure CompactionResult where
  recordsProcessed : Nat
  keysRemoved : Nat
  segmentsCompacted : Nat
  bytesSaved : Nat

/-- The order in which a hash map's entries are visited. -/
structure HashOrder where
  visit : List Record → List Record
  perm : ∀ rs, (visit rs).Perm rs

structure CompactionEnv where
  nowMs : Int
  listOk : Bool
  parseOk : S3Key → Bool
  /-- The size of the compacted segment. -/
  sizeBytes : Nat
  putOk : Bool
  addOk : Bool
  deleteOk : S3Key → Bool
  dropOk : Bool

/-- A key and an empty value. -/
def isTombstone (r : Record) : Bool := r.value.isEmpty

/-- The key a record is compacted under: an empty key counts as none. -/
def compactionKey (r : Record) : Option Bytes := r.key.filter fun key => !key.isEmpty

/-- `now_ms - (ts as i64)`, with the wrap-around of `i64`. -/
def age (nowMs : Int) (timestamp : Nat) : Int := (nowMs - timestamp).bmod (2 ^ 64)

/-- A tombstone that phase 3 removes. -/
def isExpired (cfg : CompactionConfig) (nowMs : Int) (r : Record) : Bool :=
  isTombstone r && !decide (age nowMs r.timestamp < cfg.tombstoneRetention)

/-- The collections of phase 2. -/
structure Scan where
  keyMap : AList fun _ : Bytes => Nat × Nat × Bytes
  tombstones : AList fun _ : Bytes => Nat × Nat
  unkeyedRecords : List Record
  recordsProcessed : Nat
  originalBytes : Nat

namespace Scan

def empty : Scan := ⟨∅, ∅, [], 0, 0⟩

/-- The body of the record loop. -/
def record (s : Scan) (r : Record) : Scan :=
  let s := { s with recordsProcessed := s.recordsProcessed + 1 }
  match compactionKey r with
  | none => { s with unkeyedRecords := s.unkeyedRecords ++ [r] }
  | some key =>
    if isTombstone r then
      { s with tombstones := s.tombstones.insert key (r.offset, r.timestamp), keyMap := s.keyMap.erase key }
    else
      let shouldUpdate := match s.keyMap.lookup key with
        | some (existingOffset, _, _) => decide (r.offset > existingOffset)
        | none => true
      if shouldUpdate then
        { s with
          keyMap := s.keyMap.insert key (r.offset, r.timestamp, r.value)
          tombstones := s.tombstones.erase key }
      else s

end Scan

/-- What a `SegmentReader` gives back for an object. -/
def readObject (s : Shared) (key : S3Key) : Option (List Record) :=
  (s.objects key).map (List.map Record.stored)

/-- GET and parse of one segment. -/
def readSegment (env : CompactionEnv) (s : Shared) (seg : SegmentInfo) : Except CompactionError (List Record) :=
  match readObject s seg.s3Key with
  | none => .error (.getSegment seg.s3Key)
  | some records => if env.parseOk seg.s3Key then .ok records else .error (.parseSegment seg.s3Key)

/-- The segment loop of phase 2. -/
def scanSegments (cfg : CompactionConfig) (env : CompactionEnv) (s : Shared) : List SegmentInfo → Scan →
    Except CompactionError Scan
  | [], acc => .ok acc
  | seg :: rest, acc =>
    if acc.recordsProcessed ≥ cfg.maxRecordsPerRun then .ok acc
    else
      match readSegment env s seg with
      | .error e => .error e
      | .ok records =>
        scanSegments cfg env s rest
          (records.foldl Scan.record { acc with originalBytes := acc.originalBytes + seg.sizeBytes })

/-- Phase 1. -/
def eligible (cfg : CompactionConfig) (nowMs : Int) (segments : List SegmentInfo) : List SegmentInfo :=
  segments.filter fun seg => !decide (nowMs - seg.createdAt < cfg.minSegmentAge)

/-- Phases 3 and 4. -/
def compactedRecords (cfg : CompactionConfig) (nowMs : Int) (order : HashOrder) (scan : Scan) : List Record :=
  let values := scan.keyMap.entries.map fun e => (⟨e.2.1, e.2.2.1, some e.1, e.2.2.2⟩ : Record)
  let tombstones := scan.tombstones.entries.map fun e => (⟨e.2.1, e.2.2, some e.1, []⟩ : Record)
  let kept := tombstones.filter fun r => !isExpired cfg nowMs r
  (order.visit values ++ order.visit kept ++ scan.unkeyedRecords).insertionSort fun a b => a.offset ≤ b.offset

/-- What a run has to write and to remove. -/
structure Plan where
  segmentsToCompact : List SegmentInfo
  scan : Scan
  compacted : List Record

/-- The run up to phase 4; `none` when there is nothing worth compacting. -/
def plan (cfg : CompactionConfig) (env : CompactionEnv) (order : HashOrder) (k : PartitionKey) (s : Shared) :
    Except CompactionError (Option Plan) :=
  if !env.listOk then .error .listSegments
  else
    let segments := s.metadata.getSegments k
    let segmentsToCompact := eligible cfg env.nowMs segments
    if segmentsToCompact.length < 2 then .ok none
    else
      match scanSegments cfg env s segmentsToCompact .empty with
      | .error e => .error e
      | .ok scan => .ok (some ⟨segmentsToCompact, scan, compactedRecords cfg env.nowMs order scan⟩)

/-- The key of the compacted segment. Unlike the writer's, its prefix names the
organization even if that is empty. -/
def compactedKey (k : PartitionKey) (baseOffset : Nat) : S3Key := .compacted (.org k.orgId) k.topic k.partitionId baseOffset

def compactedSegment (env : CompactionEnv) (k : PartitionKey) (p : Plan) (first last : Record) : SegmentInfo :=
  { id := .compacted k.topic k.partitionId first.offset
    topic := k.topic
    partitionId := k.partitionId
    baseOffset := first.offset
    endOffset := last.offset
    recordCount := p.compacted.length % 2 ^ 32
    sizeBytes := env.sizeBytes
    s3Bucket := (p.segmentsToCompact.head?.map SegmentInfo.s3Bucket).getD ""
    s3Key := compactedKey k first.offset
    createdAt := env.nowMs
    minTimestamp := 0
    maxTimestamp := 0 }

/-- The loop that deletes the old objects; a failed deletion is only logged. -/
def deleteObjects (env : CompactionEnv) (segs : List SegmentInfo) (objects : S3Key → Option (List Record)) :
    S3Key → Option (List Record) :=
  segs.foldl (fun objects seg => if env.deleteOk seg.s3Key then Function.update objects seg.s3Key none else objects) objects

/-- Phase 5. -/
def execute (env : CompactionEnv) (k : PartitionKey) (p : Plan) (s : Shared) : Except CompactionError CompactionResult × Shared :=
  let keysRemoved := p.scan.recordsProcessed - p.compacted.length
  match p.compacted.head?, p.compacted.getLast? with
  | some first, some last =>
    if !env.putOk then (.error .upload, s)
    else
      let s := { s with
        objects := Function.update s.objects (compactedKey k first.offset) (some (p.compacted.map Record.stored)) }
      let added := if env.addOk then s.metadata.addSegment k.orgId (compactedSegment env k p first last)
        else .error .database
      match added with
      | .error e => (.error (.addSegment e), s)
      | .ok m =>
        let s := { s with metadata := m, objects := deleteObjects env p.segmentsToCompact s.objects }
        let result := ⟨p.scan.recordsProcessed, keysRemoved, p.segmentsToCompact.length, p.scan.originalBytes - env.sizeBytes⟩
        match p.segmentsToCompact.head? with
        | none => (.ok result, s)
        | some firstSegment =>
          if env.dropOk then
            (.ok result, { s with metadata := s.metadata.deleteSegmentsBefore k firstSegment.baseOffset })
          else (.error .deleteMetadata, s)
  | _, _ =>
    -- nothing is left: the rows stay
    (.ok ⟨p.scan.recordsProcessed, keysRemoved, p.segmentsToCompact.length, p.scan.originalBytes⟩,
      { s with objects := deleteObjects env p.segmentsToCompact s.objects })

/-- `compact_partition`. -/
def compactPartition (cfg : CompactionConfig) (env : CompactionEnv) (order : HashOrder) (k : PartitionKey) (s : Shared) :
    Except CompactionError CompactionResult × Shared :=
  match plan cfg env order k s with
  | .error e => (.error e, s)
  | .ok none => (.ok ⟨0, 0, 0, 0⟩, s)
  | .ok (some p) => execute env k p s

end StreamHouse.Server
