import Mathlib.Algebra.GroupWithZero.Nat
import StreamHouse.Metadata.Segments
import StreamHouse.Lib.Run

/-!
# The partition writer

`streamhouse-storage/src/writer.rs`: `PartitionWriter::new`, `append`,
`append_batch`, `flush`, `flush_durable` and `roll_segment` with its upload.
A `SegmentWriter` is seen here as the records it holds and an object as the
records a `SegmentReader` gives back (the byte format is in `Storage.Segment`).
Each call takes the environment's part in it as an argument: which attempts of
the object store, the metadata store and the WAL succeed, and the clock.
-/

namespace StreamHouse.Storage
open Metadata List Record

inductive Error where
  | segmentError (message : String)
  | s3UploadFailed
  | s3RateLimited
  | s3CircuitOpen
  | metadata (e : MetadataError)
  | partitionNotFound (topic : String) (partition : Nat)
  | wal
  | unreachable

/-- `WriteConfig`, the fields the write path reads. -/
structure WriteConfig where
  segmentMaxSize : Nat
  segmentMaxAgeMs : Nat
  s3UploadRetries : Nat
  multipartThreshold : Nat
  multipartPartSize : Nat
  s3Bucket : String

/-- `wal::WALRecord`: what the log keeps of a record. The timestamp is the log's
own clock reading, and no offset is stored. -/
structure WALRecord where
  key : Option Bytes
  value : Bytes
  timestamp : Nat
deriving DecidableEq

/-- A log entry with the record it was appended for. The record is for stating
properties: no modelled function reads it. -/
structure WalEntry where
  record : WALRecord
  origin : Record

/-- The WAL at the level of entries: those in the file, those pending in the
writer task's batch, and whether `append` waits for its flush. -/
structure Wal where
  file : List WalEntry
  batch : List WalEntry
  syncAppend : Bool

namespace Wal

def entries (w : Wal) : List WalEntry := w.file ++ w.batch

/-- `WAL::append` and `append_batch`: one channel message, flushed before the
call returns when batching is off. -/
def append (ok : Bool) (es : List WalEntry) (w : Wal) : Bool × Wal :=
  if ok then
    if w.syncAppend then (true, { w with file := w.file ++ (w.batch ++ es), batch := [] })
    else (true, { w with batch := w.batch ++ es })
  else (false, w)

/-- The writer task's own flush of the pending batch. -/
def flush (w : Wal) : Wal := { w with file := w.file ++ w.batch, batch := [] }

/-- How `WAL::truncate` ends: done, failed after the batch was discarded, or
refused because the writer task is gone. -/
inductive TruncateIo where
  | ok
  | failed
  | closed
deriving DecidableEq

def truncate : TruncateIo → Wal → Bool × Wal
  | .ok, w => (true, { w with file := [], batch := [] })
  | .failed, w => (false, { w with batch := [] })
  | .closed, w => (false, w)

theorem append_ok (es : List WalEntry) (w : Wal) :
    (w.append true es).1 = true ∧ (w.append true es).2.entries = w.entries ++ es := by
  unfold append entries
  cases w.syncAppend <;> simp

end Wal

inductive ThrottleDecision where
  | allow
  | rateLimited
  | circuitOpen

/-- The object store's and the throttle's answers during one `upload_to_s3`. -/
structure UploadEnv where
  throttle : Nat → ThrottleDecision
  put : Nat → Bool
  putMultipart : Bool
  putPart : Nat → Bool
  complete : Bool

/-- `upload_to_s3`'s loop from `attempt`, with `left` attempts to go. -/
def uploadLoop (env : UploadEnv) (attempt : Nat) : Nat → Except Error Unit
  | 0 => .error .unreachable
  | left + 1 =>
    match env.throttle attempt with
    | .rateLimited => .error .s3RateLimited
    | .circuitOpen => .error .s3CircuitOpen
    | .allow =>
      if env.put attempt then .ok ()
      else if left = 0 then .error .s3UploadFailed
      else uploadLoop env (attempt + 1) left

/-- `upload_multipart`. -/
def uploadMultipart (cfg : WriteConfig) (env : UploadEnv) (size : Nat) : Except Error Unit :=
  match env.throttle 0 with
  | .rateLimited => .error .s3RateLimited
  | .circuitOpen => .error .s3CircuitOpen
  | .allow =>
    if !env.putMultipart then .error .s3UploadFailed
    else if !(List.range ((size + cfg.multipartPartSize - 1) / cfg.multipartPartSize)).all env.putPart then
      .error .s3UploadFailed
    else if env.complete then .ok () else .error .s3UploadFailed

/-- `upload_to_s3`. -/
def uploadToS3 (cfg : WriteConfig) (env : UploadEnv) (size : Nat) : Except Error Unit :=
  if size ≥ cfg.multipartThreshold then uploadMultipart cfg env size
  else uploadLoop env 0 cfg.s3UploadRetries

/-- What the agents share: the object store and the metadata store. -/
structure Shared where
  objects : S3Key → Option (List Record)
  metadata : SegmentStore

structure PartitionWriter where
  orgId : String
  topic : String
  partitionId : Nat
  currentSegment : List Record
  currentOffset : Nat
  segmentCreatedAt : Int
  segmentSizeEstimate : Nat
  s3DataPrefix : DataPrefix
  wal : Option Wal
  bufferedRecords : List Record
  config : WriteConfig

/-- The environment of a roll: the upload, the size `finish` gives, whether the
registering transaction goes through, how the truncation ends, the clock. -/
structure RollEnv where
  upload : UploadEnv
  sizeBytes : Nat
  metadataOk : Bool
  truncate : Wal.TruncateIo
  nowMs : Int

namespace PartitionWriter

def partition (w : PartitionWriter) : PartitionKey := ⟨w.orgId, w.topic, w.partitionId⟩

/-- The log's entries, none without a WAL. -/
def walEntries (w : PartitionWriter) : List WalEntry := (w.wal.map Wal.entries).getD []

/-- The replay loop of `new`: offsets are assigned from the watermark on. -/
def replay (currentOffset : Nat) : List WALRecord → List Record
  | [] => []
  | r :: rs => ⟨currentOffset, r.timestamp, r.key, r.value⟩ :: replay (currentOffset + 1) rs

/-- What `new` replays: without a WAL nothing, else other agents' records, then its own. -/
def allRecovered (otherAgentRecords : List WALRecord) (wal : Option Wal) : List WALRecord :=
  match wal with
  | some w => otherAgentRecords ++ w.entries.map WalEntry.record
  | none => []

/-- `PartitionWriter::new`. `otherAgentRecords` is what `WAL::recover_partition`
returned (empty without an agent id or when the scan failed), replayed before
the records of this agent's own log. -/
def new (k : PartitionKey) (config : WriteConfig) (s3DataPrefix : DataPrefix) (otherAgentRecords : List WALRecord)
    (wal : Option Wal) (nowMs : Int) (m : SegmentStore) : Except Error PartitionWriter :=
  match m.highWatermark k with
  | none => .error (.partitionNotFound k.topic k.partitionId)
  | some highWatermark =>
    let recovered := replay highWatermark (allRecovered otherAgentRecords wal)
    .ok {
      orgId := k.orgId
      topic := k.topic
      partitionId := k.partitionId
      currentSegment := recovered
      currentOffset := highWatermark + recovered.length
      segmentCreatedAt := nowMs
      segmentSizeEstimate := 0
      s3DataPrefix := s3DataPrefix
      -- `recover` flushes the batch before it reads the file, and the file stays
      wal := wal.map Wal.flush
      bufferedRecords := recovered
      config := config }

/-- The segment and buffer part of an append. -/
def push (w : PartitionWriter) (rs : List Record) : PartitionWriter :=
  { w with
    segmentSizeEstimate := w.segmentSizeEstimate + (rs.map estimatedSize).sum
    bufferedRecords := w.bufferedRecords ++ rs
    currentSegment := w.currentSegment ++ rs }

/-- The records a batch becomes: consecutive offsets from `base`. -/
def assign (base : Nat) : List (Option Bytes × Bytes × Nat) → List Record
  | [] => []
  | (key, value, timestamp) :: rest => ⟨base, timestamp, key, value⟩ :: assign (base + 1) rest

/-- The log entries of assigned records, stamped with the log's clock. The log
writes a key length like the segment format does. -/
def logged (walNow : Nat) (rs : List Record) : List WalEntry :=
  rs.map fun r => ⟨⟨r.stored.key, r.value, walNow⟩, r⟩

/-- `append_batch`. The offsets are taken before the log is written, so a failed
log write leaves a gap. `SegmentWriter::append` cannot fail with LZ4. -/
def appendBatch (walOk : Bool) (walNow : Nat) (records : List (Option Bytes × Bytes × Nat)) (w : PartitionWriter) :
    Except Error (List Nat) × PartitionWriter :=
  if records = [] then (.ok [], w)
  else
    let rs := assign w.currentOffset records
    let w := { w with currentOffset := w.currentOffset + records.length }
    match w.wal with
    | none => (.ok (rs.map offset), w.push rs)
    | some wal =>
      let (ok, wal) := wal.append walOk (logged walNow rs)
      let w := { w with wal := some wal }
      if ok then (.ok (rs.map offset), w.push rs) else (.error .wal, w)

/-- `append`. -/
def append (walOk : Bool) (walNow : Nat) (key : Option Bytes) (value : Bytes) (timestamp : Nat) (w : PartitionWriter) :
    Except Error Nat × PartitionWriter :=
  let offset := w.currentOffset
  let w := { w with currentOffset := w.currentOffset + 1 }
  let record : Record := ⟨offset, timestamp, key, value⟩
  match w.wal with
  | none => (.ok offset, w.push [record])
  | some wal =>
    let (ok, wal) := wal.append walOk (logged walNow [record])
    let w := { w with wal := some wal }
    if ok then (.ok offset, w.push [record]) else (.error .wal, w)

/-- `should_roll_segment`; the age is cast to `u64`, so a clock that stepped back rolls. -/
def shouldRollSegment (nowMs : Int) (w : PartitionWriter) : Bool :=
  decide (w.segmentSizeEstimate ≥ w.config.segmentMaxSize) ||
    decide (((nowMs - w.segmentCreatedAt) % 2 ^ 64).toNat ≥ w.config.segmentMaxAgeMs)

/-- The key a segment with this base offset is uploaded under. -/
def segmentKey (w : PartitionWriter) (baseOffset : Nat) : S3Key :=
  .segment w.s3DataPrefix w.topic w.partitionId baseOffset

/-- The description registered for a segment. -/
def segmentInfo (w : PartitionWriter) (env : RollEnv) (first last : Record) (count : Nat) : SegmentInfo :=
  { id := .segment w.topic w.partitionId first.offset
    topic := w.topic
    partitionId := w.partitionId
    baseOffset := first.offset
    endOffset := last.offset
    recordCount := count
    sizeBytes := env.sizeBytes
    s3Bucket := w.config.s3Bucket
    s3Key := w.segmentKey first.offset
    createdAt := env.nowMs
    -- `as i64`
    minTimestamp := (BitVec.ofNat 64 first.timestamp).toInt
    maxTimestamp := (BitVec.ofNat 64 last.timestamp).toInt }

/-- The object store after the upload of `segment`. -/
def putSegment (w : PartitionWriter) (s : Shared) (baseOffset : Nat) (segment : List Record) : Shared :=
  { s with objects := Function.update s.objects (w.segmentKey baseOffset) (some (segment.map stored)) }

/-- `roll_segment`'s registering call. -/
def register (env : RollEnv) (w : PartitionWriter) (s : Shared) (info : SegmentInfo) :
    Except MetadataError SegmentStore :=
  if env.metadataOk then s.metadata.addSegmentAndUpdateWatermark w.orgId info (info.endOffset + 1)
  else .error .database

/-- The last part of `roll_segment`: the buffer is cleared, the WAL truncated,
and the per-segment state reset unless the truncation fails. -/
def settle (env : RollEnv) (w : PartitionWriter) : Except Error Unit × PartitionWriter :=
  let w := { w with bufferedRecords := [] }
  match w.wal with
  | none => (.ok (), { w with segmentCreatedAt := env.nowMs, segmentSizeEstimate := 0 })
  | some wal =>
    let (ok, wal) := wal.truncate env.truncate
    let w := { w with wal := some wal }
    if ok then (.ok (), { w with segmentCreatedAt := env.nowMs, segmentSizeEstimate := 0 })
    else (.error .wal, w)

/-- `roll_segment`. The current segment is swapped out first: from there on it
lives in a local that every early return drops. -/
def rollSegment (env : RollEnv) (w : PartitionWriter) (s : Shared) : Except Error Unit × PartitionWriter × Shared :=
  let segment := w.currentSegment
  let w := { w with currentSegment := [] }
  match segment.head?, segment.getLast? with
  | some first, some last =>
    match uploadToS3 w.config env.upload env.sizeBytes with
    | .error e => (.error e, w, s)
    | .ok () =>
      let s := w.putSegment s first.offset segment
      match w.register env s (w.segmentInfo env first last segment.length) with
      | .error e => (.error (.metadata e), w, s)
      | .ok m =>
        let (result, w) := w.settle env
        (result, w, { s with metadata := m })
  | _, _ => (.error (.segmentError "Cannot roll empty segment"), w, s)

/-- `roll_segment` up to and with its upload, where other agents see it for the first time. -/
def rollUpload (env : RollEnv) (w : PartitionWriter) (s : Shared) :
    Except Error (List Record) × PartitionWriter × Shared :=
  let segment := w.currentSegment
  let w := { w with currentSegment := [] }
  match segment.head?, segment.getLast? with
  | some first, some _ =>
    match uploadToS3 w.config env.upload env.sizeBytes with
    | .error e => (.error e, w, s)
    | .ok () => (.ok segment, w, w.putSegment s first.offset segment)
  | _, _ => (.error (.segmentError "Cannot roll empty segment"), w, s)

/-- The rest of `roll_segment` with the segment it has uploaded. -/
def rollRegister (env : RollEnv) (segment : List Record) (w : PartitionWriter) (s : Shared) :
    Except Error Unit × PartitionWriter × Shared :=
  match segment.head?, segment.getLast? with
  | some first, some last =>
    match w.register env s (w.segmentInfo env first last segment.length) with
    | .error e => (.error (.metadata e), w, s)
    | .ok m =>
      let (result, w) := w.settle env
      (result, w, { s with metadata := m })
  | _, _ => (.error (.segmentError "Cannot roll empty segment"), w, s)

/-- `flush`. -/
def flush (env : RollEnv) (w : PartitionWriter) (s : Shared) : Except Error Unit × PartitionWriter × Shared :=
  if w.currentSegment ≠ [] ∧ w.shouldRollSegment env.nowMs then w.rollSegment env s else (.ok (), w, s)

/-- `flush_durable`, which answers the end offset of what it flushed. -/
def flushDurable (env : RollEnv) (w : PartitionWriter) (s : Shared) :
    Except Error (Option Nat) × PartitionWriter × Shared :=
  if w.currentSegment ≠ [] then
    let endOffset := w.currentSegment.getLast?.map offset
    let (result, w, s) := w.rollSegment env s
    (result.map fun _ => endOffset, w, s)
  else (.ok none, w, s)

/-! ## What each call does -/

/-- The writer after a batch was accepted: logged, buffered and in the segment. -/
def accepted (walNow : Nat) (records : List (Option Bytes × Bytes × Nat)) (w : PartitionWriter) : PartitionWriter :=
  let rs := assign w.currentOffset records
  ({ w with
      currentOffset := w.currentOffset + records.length
      wal := w.wal.map fun l => (l.append true (logged walNow rs)).2 } : PartitionWriter).push rs

/-- The writer after the log refused a batch: the offsets are gone, nothing else changed. -/
def skipped (n : Nat) (w : PartitionWriter) : PartitionWriter :=
  { w with currentOffset := w.currentOffset + n }

variable {records : List (Option Bytes × Bytes × Nat)} {w : PartitionWriter}

theorem appendBatch_eq {walOk : Bool} {walNow : Nat} (nonempty : records ≠ []) : appendBatch walOk walNow records w =
      if w.wal = none ∨ walOk = true then
        (.ok ((assign w.currentOffset records).map offset), w.accepted walNow records)
      else (.error .wal, w.skipped records.length) := by
  obtain ⟨org, topic, pid, seg, off, created, size, pre, wal, buf, cfg⟩ := w
  cases wal with
  | none => simp [appendBatch, nonempty, accepted]
  | some l =>
    cases walOk with
    | false => simp [appendBatch, nonempty, skipped, Wal.append]
    | true =>
      have ok := (Wal.append_ok (logged walNow (assign off records)) l).1
      simp [appendBatch, nonempty, accepted, ok]

/-- `append` is a batch of one record. -/
theorem append_eq (walOk : Bool) (walNow : Nat) (key : Option Bytes) (value : Bytes) (timestamp : Nat)
    (w : PartitionWriter) :
    append walOk walNow key value timestamp w =
      if w.wal = none ∨ walOk = true then (.ok w.currentOffset, w.accepted walNow [(key, value, timestamp)])
      else (.error .wal, w.skipped 1) := by
  obtain ⟨org, topic, pid, seg, off, created, size, pre, wal, buf, cfg⟩ := w
  cases wal with
  | none => simp [append, accepted, assign]
  | some l =>
    cases walOk with
    | false => simp [append, skipped, Wal.append]
    | true =>
      have ok := (Wal.append_ok (logged walNow [⟨off, timestamp, key, value⟩]) l).1
      simp [append, accepted, assign, ok]

@[simp] theorem accepted_currentSegment (n : Nat) (records : List (Option Bytes × Bytes × Nat)) (w : PartitionWriter) :
    (w.accepted n records).currentSegment = w.currentSegment ++ assign w.currentOffset records := rfl

@[simp] theorem accepted_bufferedRecords (n : Nat) (records : List (Option Bytes × Bytes × Nat)) (w : PartitionWriter) :
    (w.accepted n records).bufferedRecords = w.bufferedRecords ++ assign w.currentOffset records := rfl

@[simp] theorem accepted_currentOffset (n : Nat) (records : List (Option Bytes × Bytes × Nat)) (w : PartitionWriter) :
    (w.accepted n records).currentOffset = w.currentOffset + records.length := rfl

@[simp] theorem accepted_wal_isSome (n : Nat) (records : List (Option Bytes × Bytes × Nat)) (w : PartitionWriter) :
    (w.accepted n records).wal.isSome = w.wal.isSome := by
  simp [accepted, push]

theorem accepted_walEntries {walNow : Nat} (logging : w.wal.isSome) :
    (w.accepted walNow records).walEntries = w.walEntries ++ logged walNow (assign w.currentOffset records) := by
  obtain ⟨l, present⟩ := Option.isSome_iff_exists.mp logging
  simp [accepted, push, walEntries, present, (Wal.append_ok _ l).2]

theorem assign_length (base : Nat) (records : List (Option Bytes × Bytes × Nat)) :
    (assign base records).length = records.length := by
  induction records generalizing base with
  | nil => rfl
  | cons r rest ih => simp [assign, ih]

theorem assign_offsets (base : Nat) (records : List (Option Bytes × Bytes × Nat)) :
    (assign base records).map offset = range' base records.length := by
  induction records generalizing base with
  | nil => rfl
  | cons r rest ih => simp [assign, ih, range'_succ]

theorem assign_bounds {base : Nat} {r : Record}
    (member : r ∈ assign base records) : base ≤ r.offset ∧ r.offset < base + records.length := by
  have offset : r.offset ∈ (assign base records).map offset := mem_map_of_mem member
  rw [assign_offsets, mem_range'_1] at offset
  exact offset

/-- Without empty keys the segment format gives the records back as they are. -/
theorem assign_stored (base : Nat) (keys : ∀ p ∈ records, p.1 ≠ some []) : ∀ r ∈ assign base records, r.stored = r := by
  induction records generalizing base with
  | nil => simp [assign]
  | cons p rest ih =>
    obtain ⟨key, value, timestamp⟩ := p
    intro r member
    rcases mem_cons.mp member with rfl | rest'
    · exact stored_of_key (keys (key, value, timestamp) mem_cons_self)
    · exact ih (base + 1) (fun p member => keys p (mem_cons_of_mem _ member)) r rest'

theorem assign_increasing (base : Nat) (records : List (Option Bytes × Bytes × Nat)) :
    (assign base records).Pairwise (fun a b => a.offset < b.offset) := by
  have offsets : ((assign base records).map offset).Pairwise (· < ·) := by
    rw [assign_offsets]
    exact pairwise_lt_range'
  exact pairwise_map.mp offsets

theorem replay_bounds {base : Nat} {rs : List WALRecord} {r : Record} (member : r ∈ replay base rs) :
    base ≤ r.offset ∧ r.offset < base + rs.length := by
  induction rs generalizing base with
  | nil => cases member
  | cons a rs ih =>
    rcases mem_cons.mp member with rfl | rest
    · simp
    · have := ih rest
      simp only [length_cons]
      omega

theorem replay_length (base : Nat) (rs : List WALRecord) : (replay base rs).length = rs.length := by
  induction rs generalizing base with
  | nil => rfl
  | cons a rs ih => simp [replay, ih]

theorem replay_increasing (base : Nat) (rs : List WALRecord) :
    (replay base rs).Pairwise fun a b => a.offset < b.offset := by
  induction rs generalizing base with
  | nil => exact List.Pairwise.nil
  | cons a rs ih =>
    refine pairwise_cons.mpr ⟨?_, ih (base + 1)⟩
    intro r member
    exact (replay_bounds member).1

/-- What `new` opens: the recovered records at offsets from the watermark on. -/
theorem new_ok {k : PartitionKey} {config : WriteConfig} {s3DataPrefix : DataPrefix} {others : List WALRecord}
    {wal : Option Wal} {nowMs : Int} {m : SegmentStore} (opened : new k config s3DataPrefix others wal nowMs m = .ok w) :
    ∃ hw, m.highWatermark k = some hw ∧ w.bufferedRecords = replay hw (allRecovered others wal) ∧
      w.currentSegment = replay hw (allRecovered others wal) ∧
      w.currentOffset = hw + (allRecovered others wal).length ∧ w.partition = k ∧ w.s3DataPrefix = s3DataPrefix := by
  unfold new at opened
  cases watermark : m.highWatermark k with
  | none =>
    rw [watermark] at opened
    cases opened
  | some hw =>
    rw [watermark] at opened
    cases opened
    exact ⟨hw, rfl, rfl, rfl, by simp only [replay_length], rfl, rfl⟩

/-- How the first part of a roll ends. -/
theorem rollUpload_cases (env : RollEnv) (s : Shared) (nonempty : w.currentSegment ≠ []) :
    (∃ e, w.rollUpload env s = (.error e, { w with currentSegment := [] }, s)) ∨
      ∃ first, w.currentSegment.head? = some first ∧
        w.rollUpload env s =
          (.ok w.currentSegment, { w with currentSegment := [] }, w.putSegment s first.offset w.currentSegment) := by
  unfold rollUpload
  have head := head?_eq_some_head nonempty
  have tail := getLast?_eq_some_getLast nonempty
  simp only [head, tail]
  cases uploadToS3 w.config env.upload env.sizeBytes with
  | error e => exact .inl ⟨e, rfl⟩
  | ok u => exact .inr ⟨_, rfl, rfl⟩

/-- How the second part of a roll ends. -/
theorem rollRegister_cases (env : RollEnv) (segment : List Record) (w : PartitionWriter) (s : Shared) :
    (∃ e, w.rollRegister env segment s = (.error e, w, s)) ∨
      ∃ first last m, segment.head? = some first ∧ segment.getLast? = some last ∧
        s.metadata.addSegmentAndUpdateWatermark w.orgId (w.segmentInfo env first last segment.length)
          (last.offset + 1) = .ok m ∧
        (w.rollRegister env segment s).2 = ((w.settle env).2, { s with metadata := m }) := by
  unfold rollRegister
  split
  · next first last head tail =>
    cases added : w.register env s (w.segmentInfo env first last segment.length) with
    | error e => exact .inl ⟨_, rfl⟩
    | ok m =>
      refine .inr ⟨first, last, m, head, tail, ?_, rfl⟩
      unfold register at added
      split at added
      · exact added
      · cases added
  · exact .inl ⟨_, rfl⟩

/-- The roll gets through its upload and its registration. -/
def rollRegisters (env : RollEnv) (w : PartitionWriter) (s : Shared) : Bool :=
  match w.currentSegment.head?, w.currentSegment.getLast? with
  | some first, some last =>
    (uploadToS3 w.config env.upload env.sizeBytes).isOk &&
      (w.register env s (w.segmentInfo env first last w.currentSegment.length)).isOk
  | _, _ => false

/-- A roll that does not register: the segment is gone from the writer, whatever
the object store got is under a key that no new row names. -/
structure RollFailed (w w' : PartitionWriter) (s s' : Shared) : Prop where
  writer : w' = { w with currentSegment := [] }
  metadata : s'.metadata = s.metadata
  objects : s'.objects = s.objects ∨ ∃ first ∈ w.currentSegment.head?, s' = w.putSegment s first.offset w.currentSegment

/-- A roll that registers. -/
structure RollDone (env : RollEnv) (w w' : PartitionWriter) (s s' : Shared) (first last : Record) (m : SegmentStore) :
    Prop where
  head : w.currentSegment.head? = some first
  tail : w.currentSegment.getLast? = some last
  added : s.metadata.addSegmentAndUpdateWatermark w.orgId
    (w.segmentInfo env first last w.currentSegment.length) (last.offset + 1) = .ok m
  writer : w' = (({ w with currentSegment := [] } : PartitionWriter).settle env).2
  shared : s' = { w.putSegment s first.offset w.currentSegment with metadata := m }

/-- An upload leaves the objects under other base offsets alone. -/
theorem putSegment_of_ne {base other : Nat} (apart : other ≠ base) (s : Shared) (segment : List Record) :
    (w.putSegment s base segment).objects (w.segmentKey other) = s.objects (w.segmentKey other) := by
  apply Function.update_of_ne
  intro same
  simp only [segmentKey, S3Key.segment.injEq] at same
  exact apart same.2.2.2

/-- The registering call reads the metadata only, so the upload does not change its answer. -/
theorem register_put (env : RollEnv) (w : PartitionWriter) (s : Shared) (f l : Record) :
    register env { w with currentSegment := [] }
        (putSegment { w with currentSegment := [] } s f.offset w.currentSegment)
        (segmentInfo { w with currentSegment := [] } env f l w.currentSegment.length) =
      w.register env s (w.segmentInfo env f l w.currentSegment.length) := rfl

theorem rollSegment_failed {env : RollEnv} {s : Shared} (refused : w.rollRegisters env s = false) :
    (∃ e, (w.rollSegment env s).1 = .error e) ∧
      RollFailed w (w.rollSegment env s).2.1 s (w.rollSegment env s).2.2 := by
  unfold rollRegisters at refused
  unfold rollSegment
  cases first : w.currentSegment.head? with
  | none =>
    simp only [first]
    exact ⟨⟨_, rfl⟩, rfl, rfl, .inl rfl⟩
  | some f =>
    cases last : w.currentSegment.getLast? with
    | none =>
      simp only [first, last]
      exact ⟨⟨_, rfl⟩, rfl, rfl, .inl rfl⟩
    | some l =>
      simp only [first, last] at refused ⊢
      cases upload : uploadToS3 w.config env.upload env.sizeBytes with
      | error e => exact ⟨⟨_, rfl⟩, rfl, rfl, .inl rfl⟩
      | ok u =>
        simp only [upload, Except.isOk, Except.toBool, Bool.true_and] at refused
        rw [register_put]
        cases added : w.register env s (w.segmentInfo env f l w.currentSegment.length) with
        | error e => exact ⟨⟨_, rfl⟩, rfl, rfl, .inr ⟨f, first, rfl⟩⟩
        | ok m => simp [added] at refused

theorem rollSegment_registered {env : RollEnv} {s : Shared} (done : w.rollRegisters env s = true) :
    ∃ first last m, RollDone env w (w.rollSegment env s).2.1 s (w.rollSegment env s).2.2 first last m ∧
      (w.rollSegment env s).1 = (({ w with currentSegment := [] } : PartitionWriter).settle env).1 := by
  unfold rollRegisters at done
  unfold rollSegment
  cases first : w.currentSegment.head? with
  | none => simp [first] at done
  | some f =>
    cases last : w.currentSegment.getLast? with
    | none => simp [first, last] at done
    | some l =>
      simp only [first, last] at done ⊢
      cases upload : uploadToS3 w.config env.upload env.sizeBytes with
      | error e => simp [upload, Except.isOk, Except.toBool] at done
      | ok u =>
        simp only [upload, Except.isOk, Except.toBool, Bool.true_and] at done
        rw [register_put]
        cases added : w.register env s (w.segmentInfo env f l w.currentSegment.length) with
        | error e => simp [added] at done
        | ok m =>
          refine ⟨f, l, m, ⟨first, last, ?_, rfl, rfl⟩, rfl⟩
          unfold register at added
          split at added
          · exact added
          · cases added

/-- What the closing part of a registered roll leaves in the writer. -/
theorem settle_writer (env : RollEnv) (w : PartitionWriter) :
    (w.settle env).2.currentSegment = w.currentSegment ∧ (w.settle env).2.bufferedRecords = [] ∧
      (w.settle env).2.currentOffset = w.currentOffset ∧ (w.settle env).2.partition = w.partition ∧
      (∀ b, (w.settle env).2.segmentKey b = w.segmentKey b) ∧
      (w.settle env).2.wal = w.wal.map (fun l => (l.truncate env.truncate).2) := by
  obtain ⟨org, topic, pid, seg, off, created, size, pre, wal, buf, cfg⟩ := w
  cases wal with
  | none => exact ⟨rfl, rfl, rfl, rfl, fun _ => rfl, rfl⟩
  | some l =>
    simp only [settle, Option.map_some]
    split <;> exact ⟨rfl, rfl, rfl, rfl, fun _ => rfl, rfl⟩

end PartitionWriter

end StreamHouse.Storage
