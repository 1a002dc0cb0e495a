import StreamHouse.Storage.Acknowledged

/-!
# Crash recovery from the WAL

A partition writer with a WAL over many lives: calls, flushes of the log's
batch, and crashes that fall between calls or inside a roll, after its upload or
after its registration. What survives is the WAL file, the object store and the
metadata; `PartitionWriter::new` replays the whole file from the stored
watermark on.

The log keeps neither offsets nor the callers' timestamps, and `new` does not ask
which of its entries are registered already. Recovery is exact
(`recovered_exact`) when the watermark and the log agree at the crash and the
log's timestamps are the records' own.
-/

namespace StreamHouse.Storage
open Metadata Lib List Option PartitionWriter WalEntry Record

/-- A node with its stores. `accepted` are the records acknowledged so far and
`flushed` those that were in the WAL file at some time, as acknowledged. -/
structure Node where
  shared : Shared
  writer : PartitionWriter
  accepted : List Record
  flushed : List Record

/-- Where a crash falls: between two calls, or in a roll after the upload or
after the registration (and before the truncation). -/
inductive Cut where
  | between
  | uploaded (env : RollEnv)
  | registered (env : RollEnv)

inductive Act where
  | call (op : Op)
  | walFlush
  /-- A crash, and a new writer on what survives. -/
  | crash (cut : Cut) (nowMs : Int)

/-- The stores a crash leaves. -/
def Cut.shared (w : PartitionWriter) (s : Shared) : Cut → Shared
  | .between => s
  | .uploaded env =>
    match w.currentSegment.head? with
    | some first =>
      if (uploadToS3 w.config env.upload env.sizeBytes).isOk then w.putSegment s first.offset w.currentSegment else s
    | none => s
  | .registered env => if w.rollRegisters env s then (w.rollSegment env s).2.2 else s

/-- The entries in the WAL file. -/
def PartitionWriter.walFile (w : PartitionWriter) : List WalEntry := (w.wal.map Wal.file).getD []

namespace Node

def world (n : Node) : World := ⟨n.shared, n.writer, []⟩

/-- `new` on the surviving file; the pending batch died with the writer task. -/
def restart (n : Node) (shared : Shared) (nowMs : Int) : Node :=
  let wal := n.writer.wal.map fun l => { l with batch := [] }
  match new n.writer.partition n.writer.config n.writer.s3DataPrefix [] wal nowMs shared.metadata with
  | .ok w => { n with shared := shared, writer := w }
  | .error _ => { n with shared := shared }

/-- Note what is in the WAL file now. -/
def observe (n : Node) : Node :=
  { n with flushed := n.flushed ++ n.writer.walFile.map origin }

def step (n : Node) : Act → Node
  | .call op =>
    let after := n.world.step op
    -- a call acknowledges what it adds to the buffer
    let new := after.writer.bufferedRecords.drop n.writer.bufferedRecords.length
    observe { n with shared := after.shared, writer := after.writer, accepted := n.accepted ++ new }
  | .walFlush => observe { n with writer := { n.writer with wal := n.writer.wal.map Wal.flush } }
  | .crash cut nowMs => observe (n.restart (cut.shared n.writer n.shared) nowMs)

/-- The partition's registered records, in the order its rows were added. -/
def registered (n : Node) : List Record :=
  (n.shared.metadata.rows n.writer.partition).flatMap fun seg => (n.shared.objects seg.s3Key).getD []

/-- The partition log: the registered segments in offset order, then the current one. -/
def partitionLog (n : Node) : List Record :=
  ((n.shared.metadata.getSegments n.writer.partition).flatMap fun seg => (n.shared.objects seg.s3Key).getD []) ++
    n.writer.currentSegment

/-- Every flushed record is in the log once, and the log holds nothing but
records as they were acknowledged. -/
def Exact (n : Node) : Prop :=
  (∀ r ∈ n.flushed, n.partitionLog.count r = 1) ∧ ∀ r ∈ n.partitionLog, r ∈ n.accepted

instance (n : Node) : Decidable n.Exact := inferInstanceAs (Decidable (_ ∧ _))

/-- No WAL write fails and no key is empty; a roll registers only what is all
there is in the buffer, and then truncates; a crash finds the log's timestamps
equal to the records' and does not fall between registration and truncation. -/
def Sound (n : Node) : Act → Prop
  | .call op => op.walOk = true ∧ (∀ p ∈ op.records, p.1 ≠ some []) ∧
      ∀ env ∈ op.roll n.world, n.writer.rollRegisters env n.shared = true →
        n.writer.bufferedRecords = n.writer.currentSegment ∧ env.truncate = .ok
  | .walFlush => True
  | .crash cut _ => (∀ e ∈ n.writer.walFile, e.record.timestamp = e.origin.timestamp) ∧
      match cut with
      | .registered env => n.writer.rollRegisters env n.shared = false
      | _ => True

instance (n : Node) (a : Act) : Decidable (n.Sound a) := by
  cases a with
  | call op => exact inferInstanceAs (Decidable (_ ∧ _))
  | walFlush => exact inferInstanceAs (Decidable True)
  | crash cut nowMs =>
    cases cut with
    | between => exact inferInstanceAs (Decidable (_ ∧ _))
    | uploaded env => exact inferInstanceAs (Decidable (_ ∧ _))
    | registered env => exact inferInstanceAs (Decidable (_ ∧ _))

/-- What sound runs keep. The buffer is the log: its records have the offsets
from the watermark on, and the registered ones are below it. -/
structure Inv (n : Node) (hw : Nat) (log : Wal) : Prop where
  watermark : n.shared.metadata.highWatermark n.writer.partition = some hw
  logging : n.writer.wal = some log
  entries : log.entries.map origin = n.writer.bufferedRecords
  recorded : ∀ e ∈ log.entries, e.record.key = e.origin.key ∧ e.record.value = e.origin.value
  offsets : n.writer.bufferedRecords.map offset = range' hw n.writer.bufferedRecords.length
  next : n.writer.currentOffset = hw + n.writer.bufferedRecords.length
  split : ∃ stranded, n.writer.bufferedRecords = stranded ++ n.writer.currentSegment
  keyed : ∀ r ∈ n.writer.bufferedRecords, r.stored = r
  rows : ∀ seg ∈ n.shared.metadata.rows n.writer.partition,
    seg.s3Key = n.writer.segmentKey seg.baseOffset ∧ seg.baseOffset < hw
  distinct : (n.registered.map offset).Nodup
  below : ∀ r ∈ n.registered, r.offset < hw
  flushed : ∀ r ∈ n.flushed, r ∈ n.registered ∨ r ∈ log.file.map origin
  accepted : (∀ r ∈ n.registered, r ∈ n.accepted) ∧ ∀ r ∈ n.writer.bufferedRecords, r ∈ n.accepted

variable {n : Node} {hw : Nat} {log : Wal} {w : PartitionWriter}

theorem Inv.observe (inv : n.Inv hw log) : n.observe.Inv hw log :=
  { inv with
    flushed := by
      intro r member
      rcases mem_append.mp member with old | new
      · exact inv.flushed r old
      · simp only [walFile, inv.logging, map_some, getD_some] at new
        exact .inr new }

/-- The buffered records are at or above the watermark. -/
theorem Inv.above (inv : n.Inv hw log) {r : Record} (member : r ∈ n.writer.bufferedRecords) : hw ≤ r.offset := by
  have offset : r.offset ∈ n.writer.bufferedRecords.map offset := mem_map_of_mem member
  rw [inv.offsets, mem_range'_1] at offset
  exact offset.1

theorem Inv.current (inv : n.Inv hw log) {r : Record}
    (member : r ∈ n.writer.currentSegment) : r ∈ n.writer.bufferedRecords := by
  obtain ⟨stranded, split⟩ := inv.split
  rw [split]
  exact mem_append_right _ member

/-- An upload of the current segment does not touch a registered object. -/
theorem Inv.objects (inv : n.Inv hw log) {first : Record}
    (head : n.writer.currentSegment.head? = some first) {seg : SegmentInfo}
    (row : seg ∈ n.shared.metadata.rows n.writer.partition) :
    (n.writer.putSegment n.shared first.offset n.writer.currentSegment).objects seg.s3Key = n.shared.objects seg.s3Key := by
  obtain ⟨key, base⟩ := inv.rows seg row
  have least := inv.above (inv.current (mem_of_head? head))
  rw [key]
  exact putSegment_of_ne (Nat.ne_of_lt (Nat.lt_of_lt_of_le base least)) n.shared n.writer.currentSegment

/-- Stores with the same metadata and, under the registered keys, the same objects. -/
theorem registered_congr {shared : Shared} {a f : List Record}
    (metadata : shared.metadata = n.shared.metadata) (partition : w.partition = n.writer.partition)
    (objects : ∀ seg ∈ n.shared.metadata.rows n.writer.partition, shared.objects seg.s3Key = n.shared.objects seg.s3Key) :
    registered ⟨shared, w, a, f⟩ = n.registered := by
  unfold registered
  simp only [metadata, partition]
  apply flatMap_congr
  intro seg row
  rw [objects seg row]

section

variable (inv : n.Inv hw log)
include inv

/-- The log's pending entries go to the file. -/
theorem Inv.walFlush :
    Inv { n with writer := { n.writer with wal := n.writer.wal.map Wal.flush } } hw log.flush :=
  have whole : log.flush.entries = log.entries := by simp [Wal.flush, Wal.entries]
  { inv with
    logging := by simp only [inv.logging, map_some]
    entries := by rw [whole]; exact inv.entries
    recorded := by rw [whole]; exact inv.recorded
    flushed := by
      intro r member
      rcases inv.flushed r member with registered | filed
      · exact .inl registered
      · refine .inr ?_
        simp only [Wal.flush, map_append]
        exact mem_append_left _ filed }

/-- An accepted batch extends the buffer and the log alike. -/
theorem Inv.accept (walNow : Nat)
    {records : List (Option Bytes × Bytes × Nat)} (keys : ∀ p ∈ records, p.1 ≠ some []) :
    Inv { n with
      writer := n.writer.accepted walNow records
      accepted := n.accepted ++ assign n.writer.currentOffset records } hw
      (log.append true (logged walNow (assign n.writer.currentOffset records))).2 := by
  obtain ⟨stranded, split⟩ := inv.split
  obtain ⟨-, entries⟩ := Wal.append_ok
    (logged walNow (assign n.writer.currentOffset records)) log
  have stored := assign_stored n.writer.currentOffset keys
  constructor
  case watermark => exact inv.watermark
  case logging => simp [PartitionWriter.accepted, PartitionWriter.push, inv.logging]
  case entries =>
    rw [entries]
    simp [inv.entries, logged, Function.comp_def]
  case recorded =>
    intro e member
    rw [entries] at member
    rcases mem_append.mp member with old | new
    · exact inv.recorded e old
    · obtain ⟨r, assigned, rfl⟩ := mem_map.mp new
      exact ⟨congrArg key (stored r assigned), rfl⟩
  case offsets =>
    simp only [accepted_bufferedRecords, map_append, inv.offsets, assign_offsets,
      length_append, assign_length, inv.next]
    rw [range'_append_1]
  case next =>
    have next := inv.next
    simp only [accepted_currentOffset, accepted_bufferedRecords, length_append,
      assign_length]
    omega
  case split => exact ⟨stranded, by simp [split]⟩
  case keyed =>
    intro r member
    rcases mem_append.mp member with old | new
    · exact inv.keyed r old
    · exact stored r new
  case rows => exact inv.rows
  case distinct => exact inv.distinct
  case below => exact inv.below
  case flushed =>
    intro r member
    rcases inv.flushed r member with registered | filed
    · exact .inl registered
    · refine .inr ?_
      simp only [Wal.append, if_true]
      split
      · rw [map_append]
        exact mem_append_left _ filed
      · exact filed
  case accepted =>
    refine ⟨fun r member => mem_append_left _ (inv.accepted.1 r member), ?_⟩
    intro r member
    rcases mem_append.mp member with old | new
    · exact mem_append_left _ (inv.accepted.2 r old)
    · exact mem_append_right _ new

/-- The stores may change as long as the registered segments do not. -/
theorem Inv.reshared {shared : Shared} (metadata : shared.metadata = n.shared.metadata)
    (objects : ∀ seg ∈ n.shared.metadata.rows n.writer.partition, shared.objects seg.s3Key = n.shared.objects seg.s3Key) :
    Inv { n with shared := shared } hw log := by
  have same : registered { n with shared := shared } = n.registered := registered_congr metadata rfl objects
  exact { inv with
    watermark := by rw [metadata]; exact inv.watermark
    rows := by rw [metadata]; exact inv.rows
    distinct := by rw [same]; exact inv.distinct
    below := by rw [same]; exact inv.below
    flushed := by rw [same]; exact inv.flushed
    accepted := by rw [same]; exact inv.accepted }

/-- A roll that does not register leaves its records to the buffer and the log. -/
theorem Inv.rollFailed {shared : Shared}
    (roll : RollFailed n.writer w n.shared shared) :
    Inv { n with writer := w, shared := shared } hw log := by
  obtain ⟨rfl, metadata, objects⟩ := roll
  have kept : Inv { n with shared := shared } hw log := by
    apply inv.reshared metadata
    intro seg row
    rcases objects with same | ⟨first, head, rfl⟩
    · rw [same]
    · exact inv.objects head row
  exact { kept with split := ⟨n.writer.bufferedRecords, by simp⟩ }

/-- The last buffered record is the one before the next offset. -/
theorem Inv.last {r : Record} (tail : n.writer.bufferedRecords.getLast? = some r) :
    r.offset + 1 = hw + n.writer.bufferedRecords.length := by
  have nonempty : n.writer.bufferedRecords ≠ [] := by
    intro empty
    simp [empty] at tail
  have positive := length_pos_iff.mpr nonempty
  have offset := congrArg getLast? inv.offsets
  rw [getLast?_map, tail, getLast?_range'] at offset
  simp only [map_some, if_neg (Nat.ne_of_gt positive), some.injEq] at offset
  omega

/-- The offsets registered are other ones than those from the watermark on. -/
theorem Inv.apart (count : Nat) : (n.registered.map offset ++ range' hw count).Nodup := by
  refine nodup_append'.mpr ⟨inv.distinct, nodup_range', ?_⟩
  intro o old new
  obtain ⟨r, member, rfl⟩ := mem_map.mp old
  have small := inv.below r member
  have large := (mem_range'_1.mp new).1
  omega

/-- The segment holds offsets from the watermark on. -/
theorem Inv.current_bounds {r : Record}
    (member : r ∈ n.writer.currentSegment) : hw ≤ r.offset ∧ r.offset < hw + n.writer.bufferedRecords.length := by
  have offset : r.offset ∈ n.writer.bufferedRecords.map offset := mem_map_of_mem (inv.current member)
  rwa [inv.offsets, mem_range'_1] at offset

/-- The registered records after a roll that registers. -/
theorem registered_done {env : RollEnv} {shared : Shared} {first last : Record} {m : SegmentStore}
    (roll : RollDone env n.writer w n.shared shared first last m) :
    registered { n with writer := w, shared := shared } = n.registered ++ n.writer.currentSegment := by
  have stored : n.writer.currentSegment.map stored = n.writer.currentSegment := by
    conv_rhs => rw [← map_id n.writer.currentSegment]
    apply map_congr_left
    intro r member
    exact inv.keyed r (inv.current member)
  have uploaded : shared.objects (n.writer.segmentKey first.offset) = some n.writer.currentSegment := by
    rw [roll.shared]
    simp only [putSegment, Function.update_self, stored]
  have old : ((n.shared.metadata.rows n.writer.partition).flatMap fun seg => (shared.objects seg.s3Key).getD []) =
      n.registered := by
    apply flatMap_congr
    intro seg row
    rw [roll.shared]
    exact congrArg (Option.getD · []) (inv.objects roll.head row)
  unfold registered
  simp only [RollDone.partition roll, RollDone.rows roll, flatMap_append, old, flatMap_singleton,
    segmentInfo, uploaded, getD_some]
  rfl

/-- A roll that registers everything there is and truncates the log. -/
theorem Inv.rollDone {env : RollEnv} {shared : Shared} {first last : Record} {m : SegmentStore}
    (roll : RollDone env n.writer w n.shared shared first last m)
    (settled : n.writer.bufferedRecords = n.writer.currentSegment) (truncates : env.truncate = .ok) :
    Inv { n with writer := w, shared := shared } (last.offset + 1) { log with file := [], batch := [] } := by
  obtain ⟨segment, buffered, offset, -, keys, wal⟩ :=
    settle_writer env { n.writer with currentSegment := [] }
  rw [← roll.writer] at segment buffered offset wal
  have end_ : last.offset + 1 = hw + n.writer.bufferedRecords.length := inv.last (by rw [settled]; exact roll.tail)
  have registered := registered_done inv roll
  have partition := RollDone.partition roll
  obtain ⟨-, watermarks⟩ := SegmentStore.addSegmentAndUpdateWatermark_ok roll.added
  have sameKey : ∀ base, w.segmentKey base = n.writer.segmentKey base := by
    intro base
    rw [roll.writer, keys]
    rfl
  constructor
  case watermark =>
    have old := inv.watermark
    simp only [partition, roll.shared, watermarks]
    simp only [PartitionWriter.partition] at old ⊢
    simp only [PartitionWriter.segmentInfo, Function.update_self, old, map_some]
  case logging => simp only [wal, inv.logging, map_some, truncates, Wal.truncate]
  case entries => simp [buffered, Wal.entries]
  case recorded => simp [Wal.entries]
  case offsets => simp [buffered]
  case next =>
    have next := inv.next
    simp only [offset, buffered, length_nil]
    omega
  case split => exact ⟨[], by simp [buffered, segment]⟩
  case keyed => simp [buffered]
  case rows =>
    intro seg row
    simp only [partition] at row
    rw [RollDone.rows roll] at row
    rcases mem_append.mp row with old | new
    · obtain ⟨key, base⟩ := inv.rows seg old
      exact ⟨key.trans (sameKey seg.baseOffset).symm, by omega⟩
    · obtain rfl := mem_singleton.mp new
      have least := inv.current_bounds (mem_of_head? roll.head)
      exact ⟨(sameKey first.offset).symm, end_ ▸ least.2⟩
  case distinct =>
    rw [registered, map_append, ← settled, inv.offsets]
    exact inv.apart n.writer.bufferedRecords.length
  case below =>
    rw [registered]
    intro r member
    rcases mem_append.mp member with old | new
    · have small := inv.below r old
      omega
    · exact end_ ▸ (inv.current_bounds new).2
  case flushed =>
    intro r member
    rw [registered]
    refine .inl (mem_append.mpr ?_)
    rcases inv.flushed r member with old | filed
    · exact .inl old
    · refine .inr ?_
      rw [← settled, ← inv.entries]
      simp only [Wal.entries, map_append]
      exact mem_append_left _ filed
  case accepted =>
    rw [registered]
    refine ⟨?_, by simp [buffered]⟩
    intro r member
    rcases mem_append.mp member with old | new
    · exact inv.accepted.1 r old
    · exact inv.accepted.2 r (inv.current new)


end
/-- Entries that kept their record's timestamp replay to the records they were made for. -/
theorem replay_origins {base : Nat} {es : List WalEntry}
    (recorded : ∀ e ∈ es, e.record.key = e.origin.key ∧ e.record.value = e.origin.value)
    (timestamps : ∀ e ∈ es, e.record.timestamp = e.origin.timestamp)
    (offsets : (es.map origin).map offset = range' base es.length) :
    replay base (es.map record) = es.map origin := by
  induction es generalizing base with
  | nil => rfl
  | cons e es ih =>
    simp only [map_cons, length_cons, range'_succ, cons.injEq] at offsets
    obtain ⟨rfl, offsets⟩ := offsets
    obtain ⟨key, value⟩ := recorded e mem_cons_self
    have timestamp := timestamps e mem_cons_self
    have rest := ih (fun e member => recorded e (mem_cons_of_mem _ member))
      (fun e member => timestamps e (mem_cons_of_mem _ member)) offsets
    simp only [map_cons, replay, rest, key, value, timestamp]

/-- The records of the file are the first of the buffer. -/
theorem Inv.file (inv : n.Inv hw log) : (log.file.map origin).map offset = range' hw log.file.length ∧
      ∀ r ∈ log.file.map origin, r ∈ n.writer.bufferedRecords := by
  have split : n.writer.bufferedRecords = log.file.map origin ++ log.batch.map origin := by
    rw [← inv.entries, Wal.entries, map_append]
  refine ⟨?_, fun r member => split ▸ mem_append_left _ member⟩
  have offsets := inv.offsets
  rw [split, map_append, length_append, length_map, ← range'_append_1] at offsets
  exact (append_inj offsets (by simp)).1

/-- **Replay**: a new writer on the surviving stores has in its segment what was in the file. -/
theorem Inv.restart (inv : n.Inv hw log) (nowMs : Int)
    (timestamps : ∀ e ∈ n.writer.walFile, e.record.timestamp = e.origin.timestamp) :
    (n.restart n.shared nowMs).Inv hw { log with batch := [] } ∧
      (n.restart n.shared nowMs).writer.currentSegment = log.file.map origin := by
  have filed : n.writer.walFile = log.file := by simp [walFile, inv.logging]
  rw [filed] at timestamps
  obtain ⟨offsets, buffered⟩ := inv.file
  have inFile : ∀ e ∈ log.file, e ∈ log.entries := fun e member => mem_append_left _ member
  have replayed := replay_origins (fun e member => inv.recorded e (inFile e member)) timestamps offsets
  have opened : n.restart n.shared nowMs = { n with
      writer := { n.writer with
        currentSegment := log.file.map origin
        currentOffset := hw + log.file.length
        segmentCreatedAt := nowMs
        segmentSizeEstimate := 0
        wal := some { log with batch := [] }
        bufferedRecords := log.file.map origin } } := by
    have watermark := inv.watermark
    simp only [PartitionWriter.partition] at watermark
    simp [Node.restart, PartitionWriter.new, PartitionWriter.allRecovered, PartitionWriter.partition, watermark,
      inv.logging, Wal.entries, replayed, Wal.flush]
  rw [opened]
  refine ⟨?_, rfl⟩
  exact { inv with
    logging := rfl
    entries := by simp [Wal.entries]
    recorded := fun e member => inv.recorded e (inFile e (by simpa [Wal.entries] using member))
    offsets := by simp only [offsets, length_map]
    next := by simp only [length_map]
    split := ⟨[], rfl⟩
    keyed := fun r member => inv.keyed r (buffered r member)
    accepted := ⟨inv.accepted.1, fun r member => inv.accepted.2 r (buffered r member)⟩ }

/-- A writer just opened shows the log as it was acknowledged. -/
theorem Inv.exact (inv : n.Inv hw log) (replayed : n.writer.currentSegment = log.file.map origin) : n.Exact := by
  have order : n.partitionLog.Perm (n.registered ++ log.file.map origin) := by
    unfold partitionLog
    rw [replayed]
    exact ((perm_insertionSort _ _).flatMap_right _).append_right _
  obtain ⟨offsets, buffered⟩ := inv.file
  have distinct : ((n.registered ++ log.file.map origin).map offset).Nodup := by
    rw [map_append, offsets]
    exact inv.apart log.file.length
  constructor
  · intro r member
    rw [order.count_eq]
    apply count_eq_one_of_mem (Nodup.of_map _ distinct)
    rcases inv.flushed r member with registered | filed
    · exact mem_append_left _ registered
    · exact mem_append_right _ filed
  · intro r member
    rcases mem_append.mp (order.mem_iff.mp member) with registered | filed
    · exact inv.accepted.1 r registered
    · exact inv.accepted.2 r (buffered r filed)

/-- A crash under the condition changes no registered segment. -/
theorem Inv.cut (inv : n.Inv hw log) {cut : Cut} {nowMs : Int}
    (sound : n.Sound (.crash cut nowMs)) : Inv { n with shared := cut.shared n.writer n.shared } hw log := by
  cases cut with
  | between => exact inv
  | uploaded env =>
    cases head : n.writer.currentSegment.head? with
    | none =>
      simp only [Cut.shared, head]
      exact inv
    | some first =>
      simp only [Cut.shared, head]
      split
      · exact inv.reshared rfl fun seg row => inv.objects head row
      · exact inv
  | registered env =>
    have refused : n.writer.rollRegisters env n.shared = false := sound.2
    simp only [Cut.shared, refused]
    exact inv

/-- A crash under the condition, and the writer opened after it. -/
theorem Inv.crash (inv : n.Inv hw log) {cut : Cut} {nowMs : Int} (sound : n.Sound (.crash cut nowMs)) :
    (n.step (.crash cut nowMs)).Inv hw { log with batch := [] } ∧ (n.step (.crash cut nowMs)).Exact := by
  obtain ⟨kept, replayed⟩ := (inv.cut sound).restart nowMs sound.1
  have after : (n.step (.crash cut nowMs)).Inv hw { log with batch := [] } := Inv.observe kept
  exact ⟨after, after.exact replayed⟩

theorem Inv.call (inv : n.Inv hw log) {op : Op} (sound : n.Sound (.call op)) :
    ∃ hw' log', (n.step (.call op)).Inv hw' log' := by
  obtain ⟨walOk, keys, rolls⟩ := sound
  simp only [Node.step]
  have effect := n.world.stepCases op
  generalize n.world.step op = after at effect ⊢
  cases effect with
  | accepted walNow _ =>
    have new : (n.writer.accepted walNow op.records).bufferedRecords.drop n.writer.bufferedRecords.length =
        assign n.writer.currentOffset op.records := drop_left
    simp only [Node.world, new]
    exact ⟨_, _, (inv.accept walNow keys).observe⟩
  | skipped k _ refused => simp [walOk] at refused
  | idle _ =>
    simp only [Node.world, drop_length, append_nil]
    exact ⟨_, _, inv.observe⟩
  | rolled env member =>
    by_cases done : n.writer.rollRegisters env n.shared = true
    · obtain ⟨settled, truncates⟩ := rolls env member done
      obtain ⟨first, last, m, roll, -⟩ := rollSegment_registered done
      have empty : (n.writer.rollSegment env n.shared).2.1.bufferedRecords = [] := by
        rw [roll.writer]
        exact (settle_writer env _).2.1
      simp only [Node.world, empty, drop_nil, append_nil]
      exact ⟨_, _, (inv.rollDone roll settled truncates).observe⟩
    · have failed := (rollSegment_failed (by simpa using done)).2
      have same : (n.writer.rollSegment env n.shared).2.1.bufferedRecords = n.writer.bufferedRecords := by
        rw [failed.writer]
      simp only [Node.world, same, drop_length, append_nil]
      exact ⟨_, _, (inv.rollFailed failed).observe⟩

theorem Inv.step (inv : ∃ hw log, n.Inv hw log) {a : Act} (sound : n.Sound a) : ∃ hw log, (n.step a).Inv hw log := by
  obtain ⟨hw, log, inv⟩ := inv
  cases a with
  | call op => exact inv.call sound
  | walFlush => exact ⟨hw, log.flush, inv.walFlush.observe⟩
  | crash cut nowMs => exact ⟨hw, _, (inv.crash sound).1⟩

/-- A writer opened with an empty log on a partition without segments. -/
structure Fresh (n : Node) : Prop where
  opened : ∃ k config s3DataPrefix nowMs syncAppend,
    new k config s3DataPrefix [] (some ⟨[], [], syncAppend⟩) nowMs n.shared.metadata = .ok n.writer ∧
      n.shared.metadata.rows k = []
  nothing : n.accepted = [] ∧ n.flushed = []

theorem Fresh.inv (fresh : n.Fresh) : ∃ hw log, n.Inv hw log := by
  obtain ⟨shared, w, accepted, flushed⟩ := n
  obtain ⟨⟨k, config, pre, nowMs, sync, opened, rows⟩, nothing⟩ := fresh
  obtain ⟨rfl, rfl⟩ := nothing
  simp only [new] at opened
  split at opened
  · cases opened
  · next hw watermark =>
    have writer : w = ⟨k.orgId, k.topic, k.partitionId, [], hw, nowMs, 0, pre, some ⟨[], [], sync⟩, [], config⟩ :=
      (Except.ok.inj opened).symm
    subst writer
    have bare : registered ⟨shared, ⟨k.orgId, k.topic, k.partitionId, [], hw, nowMs, 0, pre, some ⟨[], [], sync⟩, [],
        config⟩, [], []⟩ = [] := by
      simp only [registered, PartitionWriter.partition, rows, flatMap_nil]
    refine ⟨hw, ⟨[], [], sync⟩, watermark, rfl, rfl, ?_, rfl, rfl, ⟨[], rfl⟩, ?_, ?_, ?_, ?_, ?_, ?_, ?_⟩
    · simp [Wal.entries]
    · simp
    · intro seg row
      simp only [PartitionWriter.partition, rows] at row
      cases row
    all_goals simp [bare]

end Node

/-- **Recovery is exact** after any run whose steps meet the condition, wherever the crash that ends it falls. -/
theorem recovered_exact {start : Node} (fresh : start.Fresh) {acts : List Act} {cut : Cut} {nowMs : Int}
    (sound : Meets Node.step Node.Sound start (acts ++ [.crash cut nowMs])) :
    (run Node.step start (acts ++ [.crash cut nowMs])).Exact := by
  obtain ⟨before, crash⟩ := meets_append.mp sound
  obtain ⟨hw, log, inv⟩ := before.invariant (fun n a inv ok => Node.Inv.step inv ok) fresh.inv
  rw [run_append]
  exact (inv.crash crash.1).2

namespace Example

/-- The node of the example partition, before its first call. -/
def node : Node := ⟨fresh, writer, [], []⟩

theorem node_fresh : node.Fresh :=
  ⟨⟨partition, config, .org "acme", 0, true, rfl, rfl⟩, rfl, rfl⟩

/-- A record whose timestamp is the log's clock reading. -/
def appended (now : Nat) (value : UInt8) : Act := .call (.append true now (some [107]) [value] now)

end Example

open Example

/-- One record is appended and its segment registered; the crash comes before the
truncation. The new writer replays the record, and the log has it twice. -/
theorem recovered_exact_fails :
    let after := run Node.step node ([appended 7 1] ++ [.crash (.registered (rollEnv true)) 9])
    node.Fresh ∧ after.flushed = [⟨0, 7, some [107], [1]⟩, ⟨0, 7, some [107], [1]⟩] ∧
      after.partitionLog = [⟨0, 7, some [107], [1]⟩, ⟨1, 7, some [107], [1]⟩] ∧ ¬ after.Exact :=
  ⟨node_fresh, by decide, by decide, by decide⟩

/-- A registered segment, a failed roll, a crash after an upload, and another one later. -/
theorem recovered_exact_two_crashes :
    (run Node.step node ([appended 7 1, .call (.flushDurable (rollEnv true)),
      appended 8 2, .call (.flushDurable (rollEnv false)), appended 9 3,
      .crash (.uploaded (rollEnv true)) 10, appended 11 4] ++ [.crash .between 12])).Exact :=
  recovered_exact node_fresh (by decide)

end StreamHouse.Storage
