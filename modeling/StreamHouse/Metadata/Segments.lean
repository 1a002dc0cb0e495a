import Mathlib.Data.List.Sort
import StreamHouse.Core.Record

/-!
# The metadata store: partitions and segments

The `partitions` and `segments` tables of `SqliteMetadataStore` (`store.rs`)
and the statements on them that the storage and compaction code runs. The
primary key of `segments` is the id alone; a statement that violates it fails
and leaves the store as it was.
-/

namespace StreamHouse.Metadata

/-- The primary key of `partitions`. -/
structure PartitionKey where
  orgId : String
  topic : String
  partitionId : Nat
deriving DecidableEq

/-- A row of `segments`. -/
structure SegmentRow where
  organizationId : String
  info : SegmentInfo

/-- The partition a row belongs to. -/
def SegmentRow.partition (r : SegmentRow) : PartitionKey :=
  ⟨r.organizationId, r.info.topic, r.info.partitionId⟩

inductive MetadataError where
  | database
  | uniqueViolation
  | partitionNotFound
deriving DecidableEq

structure SegmentStore where
  segments : List SegmentRow
  /-- `partitions.high_watermark`, for the partitions that have a row. -/
  highWatermark : PartitionKey → Option Nat

namespace SegmentStore

/-- The rows of one partition, in table order. -/
def rows (m : SegmentStore) (k : PartitionKey) : List SegmentInfo :=
  (m.segments.filter (fun r => r.partition == k)).map SegmentRow.info

/-- `INSERT INTO segments`. -/
def insert (m : SegmentStore) (orgId : String) (s : SegmentInfo) : Except MetadataError SegmentStore :=
  if m.segments.any (fun r => r.info.id == s.id) then .error .uniqueViolation
  else .ok { m with segments := m.segments ++ [⟨orgId, s⟩] }

/-- `UPDATE partitions SET high_watermark`: no row, no effect. -/
def setWatermark (m : SegmentStore) (k : PartitionKey) (hw : Nat) : SegmentStore :=
  { m with highWatermark := Function.update m.highWatermark k ((m.highWatermark k).map fun _ => hw) }

/-- `update_high_watermark`: set to the value given, whatever it was. -/
def updateHighWatermark (m : SegmentStore) (k : PartitionKey) (offset : Nat) : Except MetadataError SegmentStore :=
  if (m.highWatermark k).isSome then .ok (m.setWatermark k offset) else .error .partitionNotFound

/-- `add_segment`. -/
def addSegment (m : SegmentStore) (orgId : String) (s : SegmentInfo) : Except MetadataError SegmentStore :=
  m.insert orgId s

/-- `add_segment_and_update_watermark`: one transaction, and the watermark is set
to the value given, whatever it was. -/
def addSegmentAndUpdateWatermark (m : SegmentStore) (orgId : String) (s : SegmentInfo) (hw : Nat) :
    Except MetadataError SegmentStore :=
  (m.insert orgId s).map fun m' => m'.setWatermark ⟨orgId, s.topic, s.partitionId⟩ hw

/-- `get_segments`: the partition's rows, `ORDER BY base_offset`. -/
def getSegments (m : SegmentStore) (k : PartitionKey) : List SegmentInfo :=
  (m.rows k).insertionSort (fun a b => a.baseOffset ≤ b.baseOffset)

/-- `find_segment_for_offset`: of the rows that have the offset, whatever organization they are
of, the first one by `ORDER BY base_offset DESC`. -/
def findSegmentForOffset (m : SegmentStore) (topic : String) (partitionId offset : Nat) : Option SegmentInfo :=
  let found := (m.segments.map SegmentRow.info).filter fun s =>
    decide (s.topic = topic ∧ s.partitionId = partitionId ∧ s.baseOffset ≤ offset ∧ offset ≤ s.endOffset)
  (found.insertionSort (fun a b => b.baseOffset ≤ a.baseOffset)).head?

/-- `delete_segments_before`: the partition's rows with `end_offset < before_offset`. -/
def deleteSegmentsBefore (m : SegmentStore) (k : PartitionKey) (beforeOffset : Nat) : SegmentStore :=
  { m with segments := m.segments.filter (fun r => !(r.partition == k && decide (r.info.endOffset < beforeOffset))) }

variable {m : SegmentStore} {s : SegmentInfo}

/-- A successful insert appends the one row, and its id was free. -/
theorem insert_ok {m' : SegmentStore} {orgId : String} (added : m.insert orgId s = .ok m') :
    m' = { m with segments := m.segments ++ [⟨orgId, s⟩] } ∧ ∀ r ∈ m.segments, r.info.id ≠ s.id := by
  unfold insert at added
  split at added
  · cases added
  · next free =>
    refine ⟨by simpa using added.symm, ?_⟩
    intro r member same
    exact free (List.any_eq_true.2 ⟨r, member, by simp [same]⟩)

/-- What the registering transaction leaves: one more row, the watermark set. -/
theorem addSegmentAndUpdateWatermark_ok {m' : SegmentStore} {orgId : String} {hw : Nat}
    (added : m.addSegmentAndUpdateWatermark orgId s hw = .ok m') :
    m'.segments = m.segments ++ [⟨orgId, s⟩] ∧
      m'.highWatermark = Function.update m.highWatermark ⟨orgId, s.topic, s.partitionId⟩
        ((m.highWatermark ⟨orgId, s.topic, s.partitionId⟩).map fun _ => hw) := by
  unfold addSegmentAndUpdateWatermark at added
  cases inserted : m.insert orgId s with
  | error e => rw [inserted] at added; cases added
  | ok m1 =>
    rw [inserted] at added
    obtain ⟨rfl, -⟩ := insert_ok inserted
    have equal := Except.ok.inj added
    subst equal
    exact ⟨rfl, rfl⟩

/-- The transaction makes and removes no partition. -/
theorem addSegmentAndUpdateWatermark_isSome {m' : SegmentStore} {orgId : String} {hw : Nat}
    (added : m.addSegmentAndUpdateWatermark orgId s hw = .ok m') (k : PartitionKey) :
    (m'.highWatermark k).isSome = (m.highWatermark k).isSome := by
  rw [(addSegmentAndUpdateWatermark_ok added).2]
  by_cases same : k = ⟨orgId, s.topic, s.partitionId⟩
  · rw [same, Function.update_self, Option.isSome_map]
  · rw [Function.update_of_ne same]

theorem mem_getSegments {k : PartitionKey} : s ∈ m.getSegments k ↔ s ∈ m.rows k :=
  List.mem_insertionSort _

theorem mem_rows {k : PartitionKey} : s ∈ m.rows k ↔ ∃ r ∈ m.segments, r.partition = k ∧ r.info = s := by
  simp [rows, and_assoc]

end SegmentStore

end StreamHouse.Metadata
