import Mathlib.Data.List.Flatten
import StreamHouse.Kafka.ReadCommitted
import StreamHouse.Storage.SegmentRoundTrip

/-!
# ListOffsets

`get_partition_offset` and `find_offset_by_timestamp` of `offsets.rs`. The earliest offset is
answered by 0. A timestamp is looked for in the segments in turn, without those whose recorded
`max_timestamp` is below it; what is recorded is the timestamp of the last record
(`tracks_new` of `TimestampBounds`), and nothing after a compaction or a reconciliation.
-/

namespace StreamHouse.Kafka
open Lib Storage Metadata List Option

/-! ## The handler -/

structure ListOffsetsPartitionResponse where
  partitionIndex : Int
  errorCode : FetchErrorCode
  timestamp : Int
  offset : Int
  leaderEpoch : Int

/-- `n as u64` for an `i64`. -/
def asU64 (n : Int) : Nat := (n % 2 ^ 64).toNat

/-- The loop of `find_offset_by_timestamp`; the segment is from the cache or the object store. -/
def findOffset (view : FetchView) (targetTimestamp : Nat) : List SegmentInfo → Except ReadError (Option Nat)
  | [] => .ok none
  | segmentInfo :: segments =>
    if asU64 segmentInfo.maxTimestamp < targetTimestamp then findOffset view targetTimestamp segments
    else do
      let blocks ← view.openSegment segmentInfo
      let records ← readBlocks blocks
      match records.find? fun record => targetTimestamp ≤ record.timestamp with
      | some record => .ok (some record.offset)
      | none => findOffset view targetTimestamp segments

/-- `find_offset_by_timestamp`. -/
def findOffsetByTimestamp (view : FetchView) (targetTimestamp : Nat) : Except ReadError (Option Nat) := do
  let segments ← view.getSegments.mapError .metadata
  findOffset view targetTimestamp segments

/-- The offset of `get_partition_offset`: -1 is the latest, -2 the earliest. -/
def offsetAt (view : FetchView) (highWatermark : Nat) (timestamp isolationLevel : Int) : Int :=
  if timestamp = -1 then
    if isolationLevel = 1 then
      match view.lastStableOffset with
      | .ok lso => asI64 lso
      | .error _ => asI64 highWatermark
    else asI64 highWatermark
  else if timestamp = -2 then 0
  else
    match findOffsetByTimestamp view (asU64 timestamp) with
    | .ok (some offset) => asI64 offset
    | .ok none => asI64 highWatermark
    | .error _ => asI64 highWatermark

/-- `get_partition_offset`, at the time `now`. -/
def getPartitionOffset (view : FetchView) (now : Int) (partitionId : Nat) (timestamp isolationLevel : Int) : ListOffsetsPartitionResponse :=
  let partitionIndex := (BitVec.ofNat 32 partitionId).toInt
  if view.topicForOrg = true then
    match view.getPartition with
    | .ok (some highWatermark) => ⟨partitionIndex, .none, now, offsetAt view highWatermark timestamp isolationLevel, 0⟩
    | .ok none => ⟨partitionIndex, .unknownTopicOrPartition, -1, -1, -1⟩
    | .error _ => ⟨partitionIndex, .unknownServerError, -1, -1, -1⟩
  else ⟨partitionIndex, .unknownTopicOrPartition, -1, -1, -1⟩

/-! ## What is recorded of a segment -/

/-- `SegmentWriter::max_timestamp`. -/
def maxTimestampOf (w : SegmentWriter) : Option Nat := if 0 < w.recordCount then some w.lastTimestamp else none

/-! ## Partitions -/

/-- A partition: its row and the rows of its segments, and the records of these in the object
store. Offsets are `BIGINT`s. -/
structure PartitionLog where
  metadata : SegmentStore
  key : PartitionKey
  chunks : SegmentInfo → List (List Record)
  lastStableOffset : Except MetadataError Nat
  highWatermark : Nat
  row : metadata.highWatermark key = some highWatermark
  word : highWatermark < 2 ^ 63
  words : ∀ s ∈ metadata.getSegments key, ∀ r ∈ (chunks s).flatten, r.offset < 2 ^ 63

namespace PartitionLog

/-- What the handler finds. -/
def view (log : PartitionLog) : FetchView where
  getSegments := .ok (log.metadata.getSegments log.key)
  openSegment s := .ok (blocksOf (log.chunks s))
  getPartition := .ok (log.metadata.highWatermark log.key)
  topicForOrg := true
  lastStableOffset := log.lastStableOffset

/-- `delete_segments_before`. -/
def deleteSegmentsBefore (log : PartitionLog) (beforeOffset : Nat) : PartitionLog where
  metadata := log.metadata.deleteSegmentsBefore log.key beforeOffset
  key := log.key
  chunks := log.chunks
  lastStableOffset := log.lastStableOffset
  highWatermark := log.highWatermark
  row := log.row
  word := log.word
  words s registered := by
    apply log.words s
    rw [SegmentStore.mem_getSegments, SegmentStore.mem_rows] at registered ⊢
    obtain ⟨r, stored, here, rfl⟩ := registered
    exact ⟨r, (mem_filter.mp stored).1, here, rfl⟩

variable (log : PartitionLog)

/-- The records of the registered segments, in the order of the listing. -/
def stored : List Record := (log.metadata.getSegments log.key).flatMap fun s => (log.chunks s).flatten

/-- The records of the segments that are not skipped. -/
def scanned (t : Nat) : List Record :=
  ((log.metadata.getSegments log.key).filter fun s => t ≤ asU64 s.maxTimestamp).flatMap fun s => (log.chunks s).flatten

/-- The offsets of the stored records that are not older than `t`. -/
def offsetsFrom (t : Nat) : Set Nat := fun offset => ∃ r ∈ log.stored, t ≤ r.timestamp ∧ r.offset = offset

/-- The query is answered by the least of the offsets, or by the high watermark if there are none. -/
def AnswersBy (now : Int) (isolationLevel timestamp : Int) (offsets : Set Nat) : Prop :=
  ∃ offset : Nat, getPartitionOffset log.view now log.key.partitionId timestamp isolationLevel =
      ⟨(BitVec.ofNat 32 log.key.partitionId).toInt, .none, now, offset, 0⟩ ∧
    (IsLeast offsets offset ∨ offsets = ∅ ∧ offset = log.highWatermark)

/-- The first record not older than `t` that the scan comes to has the least offset of all of them. -/
def ScansLeast (t : Nat) : Prop :=
  ∃ front r back, log.scanned t = front ++ r :: back ∧ (∀ q ∈ front, q.timestamp < t) ∧ t ≤ r.timestamp ∧
    r.offset ∈ lowerBounds (log.offsetsFrom t)

/-- A timestamp is not missed: no record is that young, or the scan comes first to the one looked for; or it
comes to none, and the one looked for is at the high watermark. -/
def Spotted (t : Nat) : Prop :=
  log.offsetsFrom t = ∅ ∨ log.ScansLeast t ∨
    (∀ q ∈ log.scanned t, q.timestamp < t) ∧ IsLeast (log.offsetsFrom t) log.highWatermark

/-! ## The scan -/

theorem asI64_of_lt {n : Nat} (word : n < 2 ^ 63) : asI64 n = n := by
  rw [asI64, BitVec.toInt_ofNat']
  apply Int.bmod_eq_of_le <;> omega

theorem asU64_of_lt {t : Nat} (word : t < 2 ^ 63) : asU64 t = t := by
  unfold asU64
  omega

/-- The segments in turn are the records in turn. -/
theorem findOffset_eq (t : Nat) (segments : List SegmentInfo) :
    findOffset log.view t segments =
      .ok ((((segments.filter fun s => t ≤ asU64 s.maxTimestamp).flatMap fun s => (log.chunks s).flatten).find?
        fun r => t ≤ r.timestamp).map Record.offset) := by
  induction segments with
  | nil => rfl
  | cons s segments ih =>
    rw [findOffset]
    split
    · next skipped =>
      rw [ih, filter_cons_of_neg (by simpa using skipped)]
    · next reached =>
      have opened : log.view.openSegment s = .ok (blocksOf (log.chunks s)) := rfl
      rw [opened, ok_bind, readBlocks_blocksOf, ok_bind, ih, filter_cons_of_pos (by simpa using reached), flatMap_cons,
        find?_append]
      cases (log.chunks s).flatten.find? fun r => t ≤ r.timestamp <;> rfl

theorem findOffsetByTimestamp_eq (t : Nat) :
    findOffsetByTimestamp log.view t = .ok (((log.scanned t).find? fun r => t ≤ r.timestamp).map Record.offset) :=
  log.findOffset_eq t (log.metadata.getSegments log.key)

theorem mem_stored_of_scanned {t : Nat} {r : Record} (inside : r ∈ log.scanned t) : r ∈ log.stored := by
  obtain ⟨s, listed, here⟩ := mem_flatMap.mp inside
  exact mem_flatMap.mpr ⟨s, (mem_filter.mp listed).1, here⟩

/-- In a log in order the scan comes first to the record looked for if the segment of that is not skipped. -/
theorem scansLeast_iff {t : Nat} (ordered : log.stored.Pairwise fun q r => q.offset < r.offset) :
    log.ScansLeast t ↔ ∃ s ∈ log.metadata.getSegments log.key, t ≤ asU64 s.maxTimestamp ∧
      ∃ r ∈ (log.chunks s).flatten, t ≤ r.timestamp ∧ r.offset ∈ lowerBounds (log.offsetsFrom t) := by
  constructor
  · rintro ⟨front, r, back, split, -, young, least⟩
    have here : r ∈ log.scanned t := by simp [split]
    obtain ⟨s, listed, inside⟩ := mem_flatMap.mp here
    obtain ⟨registered, reached⟩ := mem_filter.mp listed
    exact ⟨s, registered, of_decide_eq_true reached, r, inside, young, least⟩
  · rintro ⟨s, registered, reached, r, inside, young, least⟩
    have here : r ∈ log.scanned t := mem_flatMap.mpr ⟨s, mem_filter.mpr ⟨registered, decide_eq_true reached⟩, inside⟩
    have present : ((log.scanned t).find? fun q => t ≤ q.timestamp).isSome = true := find?_isSome.mpr ⟨r, here, decide_eq_true young⟩
    obtain ⟨first, found⟩ := isSome_iff_exists.mp present
    obtain ⟨firstYoung, front, back, split, older⟩ := find?_eq_some_iff_append.mp found
    have before : ∀ q ∈ front, q.timestamp < t := fun q isBefore => by simpa using older q isBefore
    have bound : r.offset ≤ first.offset := by
      have scanned : first ∈ log.scanned t := by simp [split]
      exact least ⟨first, log.mem_stored_of_scanned scanned, of_decide_eq_true firstYoung, rfl⟩
    have ascending : (front ++ first :: back).Pairwise fun q r => q.offset < r.offset := split ▸ ordered.sublist (filter_sublist.flatMap _)
    rw [split] at here
    refine ⟨front, r, back, ?_, before, young, least⟩
    obtain early | rfl | late := (mem_append.trans (or_congr_right mem_cons)).mp here
    · have old := before r early
      omega
    · exact split
    · have behind := rel_of_pairwise_cons (pairwise_append.mp ascending).2.1 late
      omega

theorem offset_lt {r : Record} (inside : r ∈ log.stored) : r.offset < 2 ^ 63 := by
  obtain ⟨s, listed, here⟩ := mem_flatMap.mp inside
  exact log.words s listed r here

theorem getPartitionOffset_eq (now isolationLevel timestamp : Int) :
    getPartitionOffset log.view now log.key.partitionId timestamp isolationLevel =
      ⟨(BitVec.ofNat 32 log.key.partitionId).toInt, .none, now,
        offsetAt log.view log.highWatermark timestamp isolationLevel, 0⟩ := by
  have found : log.view.getPartition = .ok (some log.highWatermark) := congrArg Except.ok log.row
  rw [getPartitionOffset, if_pos (show log.view.topicForOrg = true from rfl), found]

theorem offsetAt_timestamp {t : Nat} (word : t < 2 ^ 63) (isolationLevel : Int) :
    offsetAt log.view log.highWatermark t isolationLevel =
      ((((log.scanned t).find? fun r => t ≤ r.timestamp).map Record.offset).getD log.highWatermark : Nat) := by
  have notLatest : ¬ (t : Int) = -1 := by omega
  have notEarliest : ¬ (t : Int) = -2 := by omega
  rw [offsetAt, if_neg notLatest, if_neg notEarliest, asU64_of_lt word, findOffsetByTimestamp_eq]
  cases found : (log.scanned t).find? fun r => t ≤ r.timestamp with
  | none => exact asI64_of_lt log.word
  | some r => exact asI64_of_lt (log.offset_lt (log.mem_stored_of_scanned (mem_of_find?_eq_some found)))

/-- The answer is the one there is. -/
theorem answersBy_iff {now isolationLevel timestamp : Int} {offsets : Set Nat} {answer : Nat}
    (at_ : offsetAt log.view log.highWatermark timestamp isolationLevel = answer) :
    log.AnswersBy now isolationLevel timestamp offsets ↔ IsLeast offsets answer ∨ offsets = ∅ ∧ answer = log.highWatermark := by
  rw [AnswersBy, getPartitionOffset_eq, at_]
  constructor
  · rintro ⟨offset, same, right⟩
    have equal : (answer : Int) = offset := by injection same
    obtain rfl : answer = offset := by omega
    exact right
  · exact fun right => ⟨answer, rfl, right⟩

/-- **A timestamp is answered right exactly if it is not missed.** -/
theorem answersTimestamp_iff {t : Nat} (word : t < 2 ^ 63) (now isolationLevel : Int) :
    log.AnswersBy now isolationLevel t (log.offsetsFrom t) ↔ log.Spotted t := by
  rw [log.answersBy_iff (log.offsetAt_timestamp word isolationLevel), Spotted]
  cases found : (log.scanned t).find? fun r => t ≤ r.timestamp with
  | none =>
    have missed : ∀ q ∈ log.scanned t, q.timestamp < t := by
      intro q inside
      have older := find?_eq_none.mp found q inside
      simpa using older
    have notScanned : ¬ log.ScansLeast t := by
      rintro ⟨front, r, back, split, -, young, -⟩
      have old := missed r (by rw [split]; simp)
      omega
    simp only [map_none, getD_none, and_true, notScanned, false_or, and_iff_right missed]
    exact or_comm
  | some r =>
    obtain ⟨young, front, back, split, older⟩ := find?_eq_some_iff_append.mp found
    have young : t ≤ r.timestamp := by simpa using young
    have before : ∀ q ∈ front, q.timestamp < t := fun q inside => by simpa using older q inside
    have here : r ∈ log.scanned t := by rw [split]; simp
    have offered : r.offset ∈ log.offsetsFrom t := ⟨r, log.mem_stored_of_scanned here, young, rfl⟩
    have nonempty : log.offsetsFrom t ≠ ∅ := Set.nonempty_iff_ne_empty.mp ⟨_, offered⟩
    have notMissed : ¬ ∀ q ∈ log.scanned t, q.timestamp < t := by
      intro missed
      have old := missed r here
      omega
    simp only [map_some, getD_some, nonempty, false_and, or_false, false_or, notMissed]
    constructor
    · exact fun least => ⟨front, r, back, split, before, young, least.2⟩
    · rintro ⟨front', r', back', split', before', young', least⟩
      -- the first record of the scan is one record
      have again : (log.scanned t).find? (fun r => t ≤ r.timestamp) = some r' := by
        refine find?_eq_some_iff_append.mpr ⟨by simpa using young', front', back', split', fun q inside => ?_⟩
        simpa using before' q inside
      obtain rfl := some.inj (found.symm.trans again)
      exact ⟨offered, least⟩

/-- **The earliest offset is answered right exactly if it is 0.** -/
theorem answersEarliest_iff (now isolationLevel : Int) :
    log.AnswersBy now isolationLevel (-2) (log.offsetsFrom 0) ↔
      0 ∈ log.offsetsFrom 0 ∨ log.offsetsFrom 0 = ∅ ∧ log.highWatermark = 0 := by
  have zero : offsetAt log.view log.highWatermark (-2) isolationLevel = (0 : Nat) := rfl
  rw [log.answersBy_iff zero]
  refine or_congr ⟨fun least => least.1, fun inside => ⟨inside, fun _ _ => Nat.zero_le _⟩⟩ (and_congr_right fun _ => eq_comm)

end PartitionLog

/-- **ListOffsets.** A timestamp is answered by the least offset of a record not older than it, or by the high
watermark, exactly if it is not missed; and the earliest offset by the least one stored exactly if that is 0,
or by the high watermark if nothing is stored and that is 0. -/
theorem listOffsets_iff (log : PartitionLog) (now isolationLevel : Int) :
    (∀ t : Fin (2 ^ 63), log.AnswersBy now isolationLevel (t.val : Int) (log.offsetsFrom t.val) ↔ log.Spotted t.val) ∧
      (log.AnswersBy now isolationLevel (-2) (log.offsetsFrom 0) ↔
        0 ∈ log.offsetsFrom 0 ∨ log.offsetsFrom 0 = ∅ ∧ log.highWatermark = 0) :=
  ⟨fun t => log.answersTimestamp_iff t.isLt now isolationLevel, log.answersEarliest_iff now isolationLevel⟩

namespace Example

/-- A segment of `orders` as it is recorded. -/
def recorded (baseOffset endOffset : Nat) (minTimestamp maxTimestamp : Int) : SegmentInfo :=
  ⟨.segment "orders" 0 baseOffset, "orders", 0, baseOffset, endOffset, 2, 90, "bucket", .segment .data "orders" 0 baseOffset, 0,
    minTimestamp, maxTimestamp⟩

/-- The first segment has a record of time 10, and then one of time 5. -/
def twoOrders (s : SegmentInfo) : List (List Record) :=
  if s.baseOffset = 0 then [[⟨0, 10, none, []⟩, ⟨1, 5, none, []⟩]] else [[⟨2, 5, none, []⟩, ⟨3, 6, none, []⟩]]

def orders : PartitionLog where
  metadata := ⟨[⟨"acme", recorded 0 1 10 5⟩, ⟨"acme", recorded 2 3 5 6⟩], fun _ => some 4⟩
  key := ⟨"acme", "orders", 0⟩
  chunks := twoOrders
  lastStableOffset := .ok 4
  highWatermark := 4
  row := rfl
  word := by decide
  words := by decide

end Example

open Example

/-- Time 8 is answered by the high watermark, and after the first segment is deleted the earliest offset still by 0. -/
theorem listOffsets_fails :
    ¬ orders.AnswersBy 0 0 8 (orders.offsetsFrom 8) ∧
      ¬ (orders.deleteSegmentsBefore 2).AnswersBy 0 0 (-2) ((orders.deleteSegmentsBefore 2).offsetsFrom 0) := by
  constructor
  · intro answers
    have first : 0 ∈ orders.offsetsFrom 8 := ⟨⟨0, 10, none, []⟩, by decide, by decide, rfl⟩
    rcases (orders.answersTimestamp_iff (t := 8) (by decide) 0 0).mp answers with none_ | ⟨front, r, back, split, -⟩ | ⟨-, least⟩
    · rw [none_] at first
      exact first
    · have nothing : orders.scanned 8 = [] := by decide
      rw [nothing] at split
      cases front <;> cases split
    · have below : 4 ≤ 0 := least.2 first
      omega
  · intro answers
    rcases ((orders.deleteSegmentsBefore 2).answersEarliest_iff 0 0).mp answers with ⟨r, inside, -, zero⟩ | ⟨none_, -⟩
    · revert r
      decide
    · have second : 2 ∈ (orders.deleteSegmentsBefore 2).offsetsFrom 0 := ⟨⟨2, 5, none, []⟩, by decide, by decide, rfl⟩
      rw [none_] at second
      exact second

end StreamHouse.Kafka
