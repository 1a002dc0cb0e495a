import StreamHouse.Storage.PartitionWriter

/-!
# Acknowledged records under failing rolls

Runs of `append`, `append_batch`, `flush` and `flush_durable` on one writer,
for every pattern of failures. An acknowledged offset is `Held` while it is in a
registered segment, in the current segment, or in the WAL. `roll_segment` gives
up the current segment on its failure paths and truncates the whole WAL on its
success path, so a record of a failed roll is dropped by the next roll that
succeeds, and at once when there is no WAL. `Op.Sound` is the condition that
keeps a run clear of both; `held_run` shows it is enough.
-/

namespace StreamHouse.Storage
open Metadata Lib List PartitionWriter

/-- `o` is in a segment that is uploaded and registered. -/
def Shared.Registered (s : Shared) (k : PartitionKey) (o : Nat) : Prop :=
  ∃ seg ∈ s.metadata.rows k, ∃ r ∈ (s.objects seg.s3Key).getD [], r.offset = o

instance (s : Shared) (k : PartitionKey) (o : Nat) : Decidable (s.Registered k o) :=
  inferInstanceAs (Decidable (∃ seg ∈ s.metadata.rows k, ∃ r ∈ (s.objects seg.s3Key).getD [], r.offset = o))

/-- `o` is registered in a segment whose key no later roll of `w` writes to. -/
def Anchored (s : Shared) (w : PartitionWriter) (o : Nat) : Prop :=
  ∃ seg ∈ s.metadata.rows w.partition, seg.s3Key = w.segmentKey seg.baseOffset ∧
    (∃ r ∈ (s.objects seg.s3Key).getD [], r.offset = o) ∧
    seg.baseOffset < w.currentOffset ∧ ∀ r ∈ w.currentSegment, seg.baseOffset < r.offset

/-- The current segment is below the writer's next offset. -/
def Below (w : PartitionWriter) : Prop := ∀ r ∈ w.currentSegment, r.offset < w.currentOffset

variable {w : PartitionWriter}

theorem Below.accepted (below : Below w) (n : Nat) (records : List (Option Bytes × Bytes × Nat)) :
    Below (w.accepted n records) := by
  intro r member
  rcases mem_append.mp member with old | new
  · have := below r old
    simp only [accepted_currentOffset]
    omega
  · exact (assign_bounds new).2

theorem Below.skipped (below : Below w) (n : Nat) : Below (w.skipped n) := by
  intro r member
  have := below r member
  simp only [PartitionWriter.skipped]
  omega

theorem Below.of_nil (empty : w.currentSegment = []) : Below w := by
  intro r member
  rw [empty] at member
  cases member

theorem Anchored.registered {s : Shared} {o : Nat} (a : Anchored s w o) :
    s.Registered w.partition o := by
  obtain ⟨seg, row, -, held, -, -⟩ := a
  exact ⟨seg, row, held⟩

theorem Anchored.accepted {s : Shared} {o n : Nat} {records : List (Option Bytes × Bytes × Nat)}
    (a : Anchored s w o) : Anchored s (w.accepted n records) o := by
  obtain ⟨seg, row, key, held, next, before⟩ := a
  refine ⟨seg, row, key, held, by simp; omega, ?_⟩
  intro r member
  rcases mem_append.mp member with old | new
  · exact before r old
  · have := (assign_bounds new).1
    omega

theorem Anchored.skipped {s : Shared} {o n : Nat} (a : Anchored s w o) :
    Anchored s (w.skipped n) o := by
  obtain ⟨seg, row, key, held, next, before⟩ := a
  exact ⟨seg, row, key, held, by simp [PartitionWriter.skipped]; omega, before⟩

/-- An upload under the base offset of the current segment leaves the object of
an anchored segment alone. -/
theorem Anchored.object {s : Shared} {seg : SegmentInfo} {first : Record}
    (key : seg.s3Key = w.segmentKey seg.baseOffset) (before : ∀ r ∈ w.currentSegment, seg.baseOffset < r.offset)
    (head : w.currentSegment.head? = some first) :
    (w.putSegment s first.offset w.currentSegment).objects seg.s3Key = s.objects seg.s3Key := by
  have less := before first (mem_of_head? head)
  rw [key]
  exact putSegment_of_ne (Nat.ne_of_lt less) s w.currentSegment

theorem Anchored.failed {s s' : Shared} {w w' : PartitionWriter} {o : Nat}
    (roll : RollFailed w w' s s') (a : Anchored s w o) : Anchored s' w' o := by
  obtain ⟨seg, row, key, held, next, before⟩ := a
  obtain ⟨rfl, metadata, objects⟩ := roll
  refine ⟨seg, by rw [metadata]; exact row, key, ?_, next, by simp⟩
  rcases objects with same | ⟨first, head, rfl⟩
  · rw [same]
    exact held
  · rw [Anchored.object key before head]
    exact held

section Done

variable {env : RollEnv} {s s' : Shared} {w w' : PartitionWriter} {first last : Record} {m : SegmentStore}

section

variable (roll : RollDone env w w' s s' first last m)
include roll

/-- The rows after a registering roll: those before it and the new segment's. -/
theorem RollDone.rows :
    s'.metadata.rows w.partition =
      s.metadata.rows w.partition ++ [w.segmentInfo env first last w.currentSegment.length] := by
  rw [roll.shared]
  obtain ⟨segments, -⟩ := SegmentStore.addSegmentAndUpdateWatermark_ok roll.added
  simp [SegmentStore.rows, segments, SegmentRow.partition, PartitionWriter.partition, PartitionWriter.segmentInfo]

theorem RollDone.partition :
    w'.partition = w.partition := by
  rw [roll.writer]
  exact (settle_writer env _).2.2.2.1

theorem Anchored.done {o : Nat} (a : Anchored s w o) :
    Anchored s' w' o := by
  obtain ⟨seg, row, key, held, next, before⟩ := a
  obtain ⟨segment, -, offset, -, keys, -⟩ := settle_writer env { w with currentSegment := [] }
  refine ⟨seg, ?_, ?_, ?_, ?_, ?_⟩
  · rw [RollDone.partition roll, RollDone.rows roll]
    exact mem_append_left _ row
  · rw [key, roll.writer, keys]
    rfl
  · rw [roll.shared]
    simp only [Anchored.object key before roll.head]
    exact held
  · rw [roll.writer, offset]
    exact next
  · rw [roll.writer, segment]
    simp

/-- A registering roll anchors every record of the segment it rolled. -/
theorem RollDone.anchors (below : Below w)
    {r : Record} (member : r ∈ w.currentSegment) : Anchored s' w' r.offset := by
  obtain ⟨segment, -, offset, -, keys, -⟩ := settle_writer env { w with currentSegment := [] }
  refine ⟨w.segmentInfo env first last w.currentSegment.length, ?_, ?_, ⟨r.stored, ?_, rfl⟩, ?_, ?_⟩
  · rw [RollDone.partition roll, RollDone.rows roll]
    exact mem_append_right _ (mem_singleton_self _)
  · rw [roll.writer, keys]
    rfl
  · rw [roll.shared]
    simp only [putSegment, segmentInfo, Function.update_self, Option.getD_some]
    exact mem_map_of_mem member
  · rw [roll.writer, offset]
    exact below first (mem_of_head? roll.head)
  · rw [roll.writer, segment]
    simp


end
end Done

/-- One writer with what it shares, and the offsets acknowledged so far. -/
structure World where
  shared : Shared
  writer : PartitionWriter
  acked : List Nat

/-- The calls on a writer, each with the environment's part in it. -/
inductive Op where
  | append (walOk : Bool) (walNow : Nat) (key : Option Bytes) (value : Bytes) (timestamp : Nat)
  | appendBatch (walOk : Bool) (walNow : Nat) (records : List (Option Bytes × Bytes × Nat))
  | flush (env : RollEnv)
  | flushDurable (env : RollEnv)

def World.step (s : World) : Op → World
  | .append walOk walNow key value timestamp =>
    match s.writer.append walOk walNow key value timestamp with
    | (.ok offset, w) => { s with writer := w, acked := s.acked ++ [offset] }
    | (.error _, w) => { s with writer := w }
  | .appendBatch walOk walNow records =>
    match s.writer.appendBatch walOk walNow records with
    | (.ok offsets, w) => { s with writer := w, acked := s.acked ++ offsets }
    | (.error _, w) => { s with writer := w }
  | .flush env =>
    let (_, w, shared) := s.writer.flush env s.shared
    { s with writer := w, shared := shared }
  | .flushDurable env =>
    let (_, w, shared) := s.writer.flushDurable env s.shared
    { s with writer := w, shared := shared }

/-- Registered, or in the current segment, or in the WAL. -/
def World.Held (s : World) (o : Nat) : Prop :=
  s.shared.Registered s.writer.partition o ∨ (∃ r ∈ s.writer.currentSegment, r.offset = o) ∨
    ∃ e ∈ s.writer.walEntries, e.origin.offset = o

instance (s : World) (o : Nat) : Decidable (s.Held o) := inferInstanceAs (Decidable (_ ∨ _ ∨ _))

/-- The records an operation appends. -/
def Op.records : Op → List (Option Bytes × Bytes × Nat)
  | .append _ _ key value timestamp => [(key, value, timestamp)]
  | .appendBatch _ _ records => records
  | _ => []

/-- No WAL write of the operation fails. -/
def Op.walOk : Op → Bool
  | .append walOk _ _ _ _ => walOk
  | .appendBatch walOk _ _ => walOk
  | _ => true

/-- The roll an operation makes in this state, if it makes one. -/
def Op.roll (s : World) : Op → Option RollEnv
  | .flush env => if s.writer.currentSegment ≠ [] ∧ s.writer.shouldRollSegment env.nowMs then some env else none
  | .flushDurable env => if s.writer.currentSegment ≠ [] then some env else none
  | _ => none

/-- A roll that registers finds nothing buffered beyond the current segment (no
earlier roll failed), and one that does not is backed by a WAL. -/
def Op.Sound (s : World) (op : Op) : Prop :=
  ∀ env ∈ op.roll s,
    if s.writer.rollRegisters env s.shared then s.writer.bufferedRecords = s.writer.currentSegment
    else s.writer.wal.isSome

instance (s : World) (op : Op) : Decidable (op.Sound s) :=
  inferInstanceAs (Decidable (∀ env ∈ op.roll s, _))

namespace World

/-- All that a call can do: acknowledge its records, lose their offsets because the
WAL refused them, nothing, or roll the current segment. -/
inductive StepCases (s : World) (op : Op) : World → Prop where
  | accepted (walNow : Nat) (append : op.roll s = none) :
      StepCases s op { s with
        writer := s.writer.accepted walNow op.records
        acked := s.acked ++ (assign s.writer.currentOffset op.records).map Record.offset }
  | skipped (n : Nat) (append : op.roll s = none) (refused : op.walOk = false) :
      StepCases s op { s with writer := s.writer.skipped n }
  | idle (still : op.roll s = none) : StepCases s op s
  | rolled (env : RollEnv) (rolls : env ∈ op.roll s) :
      StepCases s op { s with
        writer := (s.writer.rollSegment env s.shared).2.1
        shared := (s.writer.rollSegment env s.shared).2.2 }

theorem stepCases (s : World) (op : Op) : StepCases s op (s.step op) := by
  cases op with
  | append walOk walNow key value timestamp =>
    simp only [World.step, PartitionWriter.append_eq]
    split
    · next accepted =>
      split at accepted <;> cases accepted
      exact .accepted walNow rfl
    · next refused =>
      split at refused
      · cases refused
      · next off =>
        cases refused
        exact .skipped 1 rfl (by simpa [Op.walOk] using fun on => off (.inr on))
  | appendBatch walOk walNow records =>
    by_cases empty : records = []
    · subst empty
      simp only [World.step, appendBatch, if_true, append_nil]
      exact .idle rfl
    · simp only [World.step, appendBatch_eq empty]
      split
      · next accepted =>
        split at accepted <;> cases accepted
        exact .accepted walNow rfl
      · next refused =>
        split at refused
        · cases refused
        · next off =>
          cases refused
          exact .skipped _ rfl (by simpa [Op.walOk] using fun on => off (.inr on))
  | flush env =>
    simp only [World.step, flush]
    by_cases rolls : s.writer.currentSegment ≠ [] ∧ s.writer.shouldRollSegment env.nowMs
    · simp only [if_pos rolls]
      exact .rolled env (by simp [Op.roll, rolls])
    · simp only [if_neg rolls]
      exact .idle (by simp only [Op.roll, if_neg rolls])
  | flushDurable env =>
    simp only [World.step, flushDurable]
    by_cases rolls : s.writer.currentSegment ≠ []
    · simp only [if_pos rolls]
      exact .rolled env (by simp [Op.roll, rolls])
    · simp only [if_neg rolls]
      exact .idle (by simp only [Op.roll, if_neg rolls])

/-- Whatever a roll does, what was anchored stays so. -/
theorem anchored_rolled {s : World} {o : Nat} (env : RollEnv) (a : Anchored s.shared s.writer o) :
    Anchored (s.writer.rollSegment env s.shared).2.2 (s.writer.rollSegment env s.shared).2.1 o := by
  by_cases done : s.writer.rollRegisters env s.shared = true
  · obtain ⟨first, last, m, roll, -⟩ := rollSegment_registered done
    exact a.done roll
  · exact a.failed (rollSegment_failed (by simpa using done)).2

theorem anchored_step {s : World} {o : Nat} (op : Op) (a : Anchored s.shared s.writer o) :
    Anchored (s.step op).shared (s.step op).writer o := by
  have effect := s.stepCases op
  generalize s.step op = after at effect ⊢
  cases effect with
  | accepted walNow _ => exact a.accepted
  | skipped n _ _ => exact a.skipped
  | idle _ => exact a
  | rolled env _ => exact anchored_rolled env a

theorem acked_step (s : World) (op : Op) : ∀ o ∈ s.acked, o ∈ (s.step op).acked := by
  have effect := s.stepCases op
  generalize s.step op = after at effect ⊢
  intro o member
  cases effect with
  | accepted walNow _ => exact mem_append_left _ member
  | skipped n _ _ => exact member
  | idle _ => exact member
  | rolled env _ => exact member

/-- What sound runs keep: the buffer is the records of failed rolls followed by
the current segment, and an acknowledged offset is anchored or still buffered,
with an entry in the WAL if there is one. -/
structure Inv (s : World) : Prop where
  split : ∃ stranded, s.writer.bufferedRecords = stranded ++ s.writer.currentSegment
  whole : s.writer.wal = none → s.writer.bufferedRecords = s.writer.currentSegment
  below : Below s.writer
  kept : ∀ o ∈ s.acked, Anchored s.shared s.writer o ∨
    (∃ r ∈ s.writer.bufferedRecords, r.offset = o) ∧
      (s.writer.wal.isSome → ∃ e ∈ s.writer.walEntries, e.origin.offset = o)

theorem Inv.held {s : World} (inv : s.Inv) {o : Nat} (acked : o ∈ s.acked) : s.Held o := by
  rcases inv.kept o acked with anchored | ⟨buffered, logged⟩
  · exact .inl anchored.registered
  · cases wal : s.writer.wal with
    | none => exact .inr (.inl (by rw [← inv.whole wal]; exact buffered))
    | some l => exact .inr (.inr (logged (by simp [wal])))

/-- An accepted batch: its records are buffered, in the segment and in the WAL. -/
theorem Inv.accepted {s : World} (inv : s.Inv) (walNow : Nat) (records : List (Option Bytes × Bytes × Nat)) :
    Inv { s with
      writer := s.writer.accepted walNow records
      acked := s.acked ++ (assign s.writer.currentOffset records).map Record.offset } := by
  obtain ⟨stranded, split⟩ := inv.split
  refine ⟨⟨stranded, by simp [split]⟩, ?_, inv.below.accepted walNow records, ?_⟩
  · intro absent
    have absent' : s.writer.wal = none := by simpa [PartitionWriter.accepted, PartitionWriter.push] using absent
    simp [inv.whole absent']
  · intro o acked
    have logging : (s.writer.accepted walNow records).wal.isSome → s.writer.wal.isSome := by simp
    rcases mem_append.mp acked with old | new
    · rcases inv.kept o old with anchored | ⟨⟨r, buffered, rfl⟩, logged⟩
      · exact .inl anchored.accepted
      · refine .inr ⟨⟨r, mem_append_left _ buffered, rfl⟩, fun present => ?_⟩
        obtain ⟨e, entry, same⟩ := logged (logging present)
        rw [accepted_walEntries (logging present)]
        exact ⟨e, mem_append_left _ entry, same⟩
    · obtain ⟨r, member, rfl⟩ := mem_map.mp new
      refine .inr ⟨⟨r, mem_append_right _ member, rfl⟩, fun present => ?_⟩
      rw [accepted_walEntries (logging present)]
      exact ⟨⟨⟨r.stored.key, r.value, walNow⟩, r⟩, mem_append_right _ (mem_map_of_mem member), rfl⟩

/-- A batch the WAL refused only leaves an offset gap. -/
theorem Inv.skipped {s : World} (inv : s.Inv) (n : Nat) : Inv { s with writer := s.writer.skipped n } := by
  refine ⟨inv.split, inv.whole, inv.below.skipped n, ?_⟩
  intro o acked
  rcases inv.kept o acked with anchored | kept
  · exact .inl anchored.skipped
  · exact .inr kept

/-- A roll that does not register, with a WAL: the segment's records are left to
the buffer and the WAL. -/
theorem Inv.rollFailed {s : World} (inv : s.Inv) {shared : Shared}
    (roll : RollFailed s.writer w s.shared shared) (logging : s.writer.wal.isSome) :
    Inv { s with writer := w, shared := shared } := by
  have writer := roll.writer
  subst writer
  refine ⟨⟨s.writer.bufferedRecords, by simp⟩, ?_, .of_nil rfl, ?_⟩
  · intro absent
    have absent' : s.writer.wal = none := absent
    rw [absent'] at logging
    cases logging
  · intro o acked
    rcases inv.kept o acked with anchored | kept
    · exact .inl (anchored.failed roll)
    · exact .inr kept

/-- A roll that registers a segment holding everything buffered. -/
theorem Inv.rollDone {s : World} (inv : s.Inv) {env : RollEnv} {shared : Shared}
    {first last : Record} {m : SegmentStore}
    (roll : RollDone env s.writer w s.shared shared first last m)
    (settled : s.writer.bufferedRecords = s.writer.currentSegment) :
    Inv { s with writer := w, shared := shared } := by
  obtain ⟨segment, buffered, -, -, -, -⟩ :=
    settle_writer env { s.writer with currentSegment := [] }
  rw [← roll.writer] at segment buffered
  refine ⟨⟨[], by rw [buffered, segment]; rfl⟩, fun _ => by rw [buffered, segment], .of_nil segment, ?_⟩
  intro o acked
  rcases inv.kept o acked with anchored | ⟨⟨r, member, rfl⟩, -⟩
  · exact .inl (anchored.done roll)
  · rw [settled] at member
    exact .inl (RollDone.anchors roll inv.below member)

/-- A roll under the condition. -/
theorem Inv.rolled {s : World} (inv : s.Inv) (env : RollEnv)
    (sound : if s.writer.rollRegisters env s.shared then s.writer.bufferedRecords = s.writer.currentSegment
      else s.writer.wal.isSome) :
    Inv { s with
      writer := (s.writer.rollSegment env s.shared).2.1
      shared := (s.writer.rollSegment env s.shared).2.2 } := by
  by_cases done : s.writer.rollRegisters env s.shared = true
  · rw [if_pos done] at sound
    obtain ⟨first, last, m, roll, -⟩ := rollSegment_registered done
    exact inv.rollDone roll sound
  · rw [if_neg done] at sound
    exact inv.rollFailed (rollSegment_failed (by simpa using done)).2 sound

theorem Inv.step {s : World} (inv : s.Inv) {op : Op} (sound : op.Sound s) : (s.step op).Inv := by
  have effect := s.stepCases op
  generalize s.step op = after at effect ⊢
  cases effect with
  | accepted walNow _ => exact inv.accepted walNow op.records
  | skipped n _ _ => exact inv.skipped n
  | idle _ => exact inv
  | rolled env rolls => exact inv.rolled env (sound env rolls)

end World

open World

/-- A writer as `new` opens it, over any stores and any log. -/
structure Opened (shared : Shared) (w : PartitionWriter) : Prop where
  opened : ∃ k config s3DataPrefix others wal nowMs,
    new k config s3DataPrefix others wal nowMs shared.metadata = .ok w

/-- What `new` recovers is both buffered and in the current segment, below the next offset. -/
theorem Opened.segment {shared : Shared} (o : Opened shared w) :
    w.bufferedRecords = w.currentSegment ∧ Below w := by
  obtain ⟨k, config, s3DataPrefix, others, wal, nowMs, opened⟩ := o
  obtain ⟨hw, -, buffered, segment, next, -, -⟩ := new_ok opened
  refine ⟨buffered.trans segment.symm, ?_⟩
  intro r member
  rw [segment] at member
  rw [next]
  exact (replay_bounds member).2

theorem Opened.inv {shared : Shared} (o : Opened shared w) :
    Inv ⟨shared, w, []⟩ :=
  ⟨⟨[], by simp [o.segment.1]⟩, fun _ => o.segment.1, o.segment.2, by simp⟩

/-- **No acknowledged record is lost** in a run in which no roll registers after
an earlier one failed, and none fails without a WAL. -/
theorem held_run {shared : Shared} (opened : Opened shared w) {ops : List Op}
    (sound : Meets step (fun s op => op.Sound s) ⟨shared, w, []⟩ ops) :
    ∀ o ∈ (run step ⟨shared, w, []⟩ ops).acked, (run step ⟨shared, w, []⟩ ops).Held o := by
  have inv := sound.invariant (fun s op inv ok => Inv.step inv ok) opened.inv
  exact fun o acked => inv.held acked

namespace Example

/-- An environment in which the upload succeeds or not, and everything else does. -/
def rollEnv (uploadOk : Bool) : RollEnv :=
  { upload := ⟨fun _ => .allow, fun _ => uploadOk, uploadOk, fun _ => uploadOk, uploadOk⟩
    sizeBytes := 100
    metadataOk := true
    truncate := .ok
    nowMs := 1000 }

def config : WriteConfig := ⟨1048576, 10000, 3, 8388608, 8388608, "streamhouse"⟩

def partition : PartitionKey := ⟨"acme", "orders", 0⟩

/-- The stores of a partition that was just created. -/
def fresh : Shared := ⟨fun _ => none, ⟨[], Function.update (fun _ => none) partition (some 0)⟩⟩

/-- The writer `new` opens on them, with a WAL whose file is empty. -/
def writer : PartitionWriter :=
  { orgId := "acme", topic := "orders", partitionId := 0, currentSegment := [], currentOffset := 0,
    segmentCreatedAt := 0, segmentSizeEstimate := 0, s3DataPrefix := .org "acme",
    wal := some ⟨[], [], true⟩, bufferedRecords := [], config := config }

theorem writer_opened : Opened fresh writer :=
  ⟨partition, config, .org "acme", [], some ⟨[], [], true⟩, 0, rfl⟩

/-- Two appends, each followed by a durable flush. -/
def twoFlushes (firstOk secondOk : Bool) : List Op :=
  [.append true 1 none [1] 7, .flushDurable (rollEnv firstOk), .append true 2 none [2] 8, .flushDurable (rollEnv secondOk)]

end Example

open Example

/-- The first flush fails, the second succeeds and truncates the WAL: the first
record, acknowledged with offset 0, is nowhere. -/
theorem held_run_fails : ¬ ∀ shared w, Opened shared w → ∀ ops : List Op,
    ∀ o ∈ (run step ⟨shared, w, []⟩ ops).acked, (run step ⟨shared, w, []⟩ ops).Held o := by
  intro all
  have lost := all fresh writer writer_opened (twoFlushes false true) 0
  revert lost
  decide

/-- Two failing flushes are within the condition: the WAL still holds both records. -/
theorem held_run_two_failures :
    (run step ⟨fresh, writer, []⟩ (twoFlushes false false)).acked = [0, 1] ∧
      ∀ o ∈ (run step ⟨fresh, writer, []⟩ (twoFlushes false false)).acked,
        (run step ⟨fresh, writer, []⟩ (twoFlushes false false)).Held o :=
  ⟨by decide, held_run writer_opened (by decide)⟩

end StreamHouse.Storage
