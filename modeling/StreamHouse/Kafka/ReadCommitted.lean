import StreamHouse.Kafka.FetchBatch
import StreamHouse.Storage.PartitionReader

/-!
# Read-committed fetches

`fetch_partition` and `read_records` of `fetch.rs`. A read-committed fetch stops at the
last stable offset: it looks at the header of the batch it has built and returns the
whole batch or nothing.
-/

namespace StreamHouse.Kafka
open Lib Storage Metadata List

/-- `ErrorCode`, the codes of `fetch_partition`. -/
inductive FetchErrorCode where
  | none
  | unknownServerError
  | unknownTopicOrPartition

structure FetchPartitionResponse where
  partitionIndex : Int
  errorCode : FetchErrorCode
  highWatermark : Int
  lastStableOffset : Int
  logStartOffset : Int
  records : Option Bytes

/-- What a fetch finds of a partition. -/
structure FetchView extends PartitionView where
  /-- `get_topic_for_org` finds the topic. -/
  topicForOrg : Bool
  /-- `get_last_stable_offset`. -/
  lastStableOffset : Except MetadataError Nat

/-- `n as i64` for a `u64`. -/
def asI64 (n : Nat) : Int := (BitVec.ofNat 64 n).toInt

/-- The `max_records` of `read_records`, from the byte limit of the request. -/
def maxRecords (maxBytes : Nat) : Nat := min (max (maxBytes / 100) 1) 10000

/-- `read_records`: a failed read is an empty one. -/
def readRecordBytes (crc32c : Bytes → UInt32) (view : FetchView) (offset maxBytes : Nat) : Bytes :=
  if view.topicForOrg = true then fetchBatch crc32c (view.delivered offset (maxRecords maxBytes)) else []

/-- `last_offset_in_batch`: base offset and `last_offset_delta`, from the bytes. -/
def lastOffsetInBatch (data : Bytes) : Nat :=
  (valueBE (data.take 8) + i32AsUsize (valueBE ((data.drop 23).take 4))) % 2 ^ 64

/-- The read-committed check of a batch. -/
def withinStable (effectiveMaxOffset : Nat) (data : Bytes) : Option Bytes :=
  if 27 ≤ data.length then
    if effectiveMaxOffset ≤ lastOffsetInBatch data then none else some data
  else some data

/-- `fetch_partition`. -/
def fetchPartition (crc32c : Bytes → UInt32) (view : FetchView) (partitionId offset maxBytes : Nat) (isolationLevel : Int) :
    FetchPartitionResponse :=
  let partitionIndex := (BitVec.ofNat 32 partitionId).toInt
  match view.getPartition with
  | .ok none => ⟨partitionIndex, .unknownTopicOrPartition, -1, -1, 0, none⟩
  | .error _ => ⟨partitionIndex, .unknownServerError, -1, -1, 0, none⟩
  | .ok (some highWatermark) =>
    let lastStableOffset :=
      if isolationLevel = 1 then
        match view.lastStableOffset with
        | .ok lso => lso
        | .error _ => highWatermark
      else highWatermark
    let effectiveMaxOffset := if isolationLevel = 1 then lastStableOffset else 2 ^ 64 - 1
    let records :=
      if effectiveMaxOffset ≤ offset then none
      else
        let data := readRecordBytes crc32c view offset maxBytes
        if isolationLevel = 1 ∧ data ≠ [] then withinStable effectiveMaxOffset data else some data
    ⟨partitionIndex, .none, asI64 highWatermark, asI64 lastStableOffset, 0, records⟩

/-- The last stable offset a read-committed fetch goes by; if the lookup fails, the high
watermark. -/
def stableOffset (view : FetchView) (highWatermark : Nat) : Nat :=
  match view.lastStableOffset with
  | .ok lso => lso
  | .error _ => highWatermark

/-- The records of a log that a request admits: from the fetch offset on, as many as its
byte limit allows. -/
def admitted (segments : List SegmentInfo) (contents : SegmentInfo → List Record) (offset maxBytes : Nat) : List Record :=
  ((segments.flatMap contents).filter fun r => offset ≤ r.offset).take (maxRecords maxBytes)

/-- The response is the batch of these records; without records it is empty or null. -/
def Returns (crc32c : Bytes → UInt32) (response : FetchPartitionResponse) (included : List Record) : Prop :=
  response.records.getD [] = fetchBatch crc32c included

/-- A read-committed fetch returns the admitted records below the last stable offset, and
no record from there on. -/
def ReadCommitted (crc32c : Bytes → UInt32) (view : FetchView) (segments : List SegmentInfo)
    (contents : SegmentInfo → List Record) (partitionId offset maxBytes lso : Nat) : Prop :=
  ∃ included, Returns crc32c (fetchPartition crc32c view partitionId offset maxBytes 1) included ∧
    (∀ r ∈ included, r.offset < lso) ∧ ∀ r ∈ admitted segments contents offset maxBytes, r.offset < lso → r ∈ included

section

variable {crc32c : Bytes → UInt32} {view : FetchView} {segments : List SegmentInfo} {contents : SegmentInfo → List Record}
  {partitionId offset maxBytes highWatermark : Nat}

theorem fetchBatch_length (first : Record) (records : List Record) : 61 ≤ (fetchBatch crc32c (first :: records)).length := by
  rw [fetchBatch, buildRecordBatch_length (cons_ne_nil _ _), batchBody_length]
  omega

/-- The header says how many records there are, not where they end. -/
theorem lastOffsetInBatch_fetchBatch {first : Record} {records : List Record} (word : first.offset + records.length < 2 ^ 64)
    (count : records.length < 2 ^ 31) :
    lastOffsetInBatch (fetchBatch crc32c (first :: records)) = first.offset + records.length := by
  let body := batchBody first.offset (BitVec.ofNat 64 first.timestamp) (first :: records)
  obtain ⟨rest, delta⟩ : ∃ rest, body = putBE 2 0 ++ (putBE 4 records.length ++ rest) := ⟨_, rfl⟩
  let between := putBE 4 (9 + body.length) ++ (putBE 4 0 ++ (putBE 1 2 ++ (putBE 4 (crc32c body).toNat ++ putBE 2 0)))
  have width : between.length = 15 := by simp only [between, length_append, putBE_length]
  have bytes : fetchBatch crc32c (first :: records) = putBE 8 first.offset ++ (between ++ (putBE 4 records.length ++ rest)) := by
    have parts : fetchBatch crc32c (first :: records) = putBE 8 first.offset ++ (putBE 4 (9 + body.length) ++ (putBE 4 0 ++
        (putBE 1 2 ++ (putBE 4 (crc32c body).toNat ++ body)))) := by
      rw [fetchBatch, buildRecordBatchFromRecords, if_neg (cons_ne_nil _ _)]
    rw [parts]
    nth_rewrite 3 [delta]
    simp only [between, append_assoc]
  have front : (fetchBatch crc32c (first :: records)).take 8 = putBE 8 first.offset := by
    rw [bytes, take_left' (putBE_length 8 _)]
  have back : ((fetchBatch crc32c (first :: records)).drop 23).take 4 = putBE 4 records.length := by
    have lead : (putBE 8 first.offset ++ between).length = 23 := by
      rw [length_append, putBE_length, width]
    rw [bytes, ← append_assoc, drop_left' lead, take_left' (putBE_length 4 _)]
  rw [lastOffsetInBatch, front, back, valueBE_putBE, valueBE_putBE, i32AsUsize]
  have low : records.length % 256 ^ 4 = records.length := Nat.mod_eq_of_lt (by omega)
  rw [low, if_pos count]
  omega

/-- A read-committed fetch of a partition that exists. -/
theorem fetchPartition_records (partition : view.getPartition = .ok (some highWatermark)) :
    (fetchPartition crc32c view partitionId offset maxBytes 1).records =
      if stableOffset view highWatermark ≤ offset then none
      else if readRecordBytes crc32c view offset maxBytes ≠ [] then
        withinStable (stableOffset view highWatermark) (readRecordBytes crc32c view offset maxBytes)
      else some (readRecordBytes crc32c view offset maxBytes) := by
  rw [fetchPartition, partition]
  simp only [if_true, true_and]
  rfl

/-- A batch of consecutive records is returned if it ends below the last stable offset. -/
theorem withinStable_fetchBatch {first last : Record} {records : List Record} {stable : Nat}
    (contiguous : (first :: records).IsChain fun r next => next.offset = r.offset + 1)
    (ends : (first :: records).getLast? = some last) (word : last.offset < 2 ^ 64) (count : records.length < 2 ^ 31) :
    withinStable stable (fetchBatch crc32c (first :: records)) =
      if stable ≤ last.offset then none else some (fetchBatch crc32c (first :: records)) := by
  have long := @fetchBatch_length crc32c first records
  have exactly := last_of_contiguous contiguous ends
  rw [withinStable, if_pos (by omega), lastOffsetInBatch_fetchBatch (by omega) count, ← exactly]

theorem mem_admitted {r : Record} (inside : r ∈ admitted segments contents offset maxBytes) : offset ≤ r.offset := by
  have kept := (mem_filter.mp (mem_of_mem_take inside)).2
  simpa using kept

theorem isChain_of_offsets {records : List Record} {base n : Nat} (offsets : records.map Record.offset = range' base n) :
    records.IsChain fun r next => next.offset = r.offset + 1 := by
  have chain := isChain_range' base n 1
  rw [← offsets] at chain
  exact (isChain_map _).mp chain

/-- What is returned of the consecutive records that were read. -/
theorem returns_of_consecutive {response : FetchPartitionResponse} {records : List Record} {stable : Nat}
    (consecutive : Consecutive offset (maxRecords maxBytes) records) (fetched : response.records =
      if fetchBatch crc32c records ≠ [] then withinStable stable (fetchBatch crc32c records)
      else some (fetchBatch crc32c records)) :
    ∃ included, Returns crc32c response included ∧ (∀ r ∈ included, r.offset < stable) ∧
      ((∀ r ∈ records, r.offset < stable) → included = records) ∧ ((∃ r ∈ records, stable ≤ r.offset) → included = []) := by
  obtain ⟨offsets, few, words⟩ := consecutive
  cases records with
  | nil =>
    refine ⟨[], ?_, (fun r no => nomatch no), fun _ => rfl, fun _ => rfl⟩
    rw [Returns, fetched]
    rfl
  | cons head records =>
    have long := @fetchBatch_length crc32c head records
    have present : fetchBatch crc32c (head :: records) ≠ [] := by
      apply ne_nil_of_length_pos
      omega
    have limit : maxRecords maxBytes ≤ 10000 := Nat.min_le_right _ _
    obtain ⟨last, ends⟩ := exists_last head records
    have listed := mem_of_getLast? ends
    rw [length_cons] at few
    rw [if_pos present, withinStable_fetchBatch (isChain_of_offsets offsets) ends (words last listed) (by omega)] at fetched
    by_cases reaches : stable ≤ last.offset
    · rw [if_pos reaches] at fetched
      refine ⟨[], ?_, (fun r no => nomatch no), fun below => ?_, fun _ => rfl⟩
      · rw [Returns, fetched]
        rfl
      · have under := below last listed
        omega
    · rw [if_neg reaches] at fetched
      have below : ∀ r ∈ head :: records, r.offset < stable := by
        intro r inside
        have most := (between_ends (increasing_of_offsets offsets) ends inside).2
        omega
      refine ⟨head :: records, ?_, below, fun _ => rfl, ?_⟩
      · rw [Returns, fetched]
        rfl
      · rintro ⟨r, inside, above⟩
        have under := below r inside
        omega

/-- The bytes that are read are a batch of consecutive records. -/
theorem readRecordBytes_eq (gapFree : view.GapFree) : ∃ records, Consecutive offset (maxRecords maxBytes) records ∧
    readRecordBytes crc32c view offset maxBytes = fetchBatch crc32c records ∧
      (view.topicForOrg = true → records = view.delivered offset (maxRecords maxBytes)) := by
  rw [readRecordBytes]
  by_cases topic : view.topicForOrg = true
  · rw [if_pos topic]
    exact ⟨_, gapFree.delivered_consecutive offset (maxRecords maxBytes), rfl, fun _ => rfl⟩
  · rw [if_neg topic]
    exact ⟨[], ⟨rfl, Nat.zero_le _, fun r no => nomatch no⟩, rfl, fun known => (topic known).elim⟩

/-- A fetch of a partition that is not there returns no record. -/
theorem returns_nothing (missing : ∀ highWatermark, view.getPartition ≠ .ok (some highWatermark)) :
    Returns crc32c (fetchPartition crc32c view partitionId offset maxBytes 1) [] := by
  rw [Returns, fetchPartition]
  cases partition : view.getPartition with
  | error e => rfl
  | ok found =>
    cases found with
    | none => rfl
    | some highWatermark => exact (missing highWatermark partition).elim

end

/-- **Read-committed fetches** of a partition without gaps in its segments: no record at or above
the last stable offset is returned, whatever fails. Of a log that is read without failures the
admitted records are returned whole if they all lie below it, and none of them if one does not. -/
theorem read_committed_fetch (crc32c : Bytes → UInt32) (view : FetchView) (partitionId offset maxBytes : Nat)
    (gapFree : view.GapFree) :
    ∃ included, Returns crc32c (fetchPartition crc32c view partitionId offset maxBytes 1) included ∧
      (∀ r ∈ included, ∃ highWatermark, view.getPartition = .ok (some highWatermark) ∧
        r.offset < stableOffset view highWatermark) ∧
      ∀ segments contents highWatermark, view.HoldsLog segments contents → view.getPartition = .ok (some highWatermark) →
        view.topicForOrg = true → (∀ s, segments.head? = some s → s.baseOffset ≤ offset) →
          ((∀ r ∈ admitted segments contents offset maxBytes, r.offset < stableOffset view highWatermark) →
            included = admitted segments contents offset maxBytes) ∧
          ((∃ r ∈ admitted segments contents offset maxBytes, stableOffset view highWatermark ≤ r.offset) → included = []) := by
  by_cases there : ∃ highWatermark, view.getPartition = .ok (some highWatermark)
  · obtain ⟨highWatermark, partition⟩ := there
    have same : ∀ {other}, view.getPartition = .ok (some other) → other = highWatermark := fun found =>
      Option.some.inj (Except.ok.inj (found.symm.trans partition))
    have response := @fetchPartition_records crc32c view partitionId offset maxBytes highWatermark partition
    by_cases reached : stableOffset view highWatermark ≤ offset
    · rw [if_pos reached] at response
      refine ⟨[], by rw [Returns, response]; rfl, (fun r no => nomatch no), ?_⟩
      intro segments contents other log found topic first
      obtain rfl := same found
      refine ⟨fun below => ?_, fun _ => rfl⟩
      symm
      apply eq_nil_iff_forall_not_mem.mpr
      intro r listed
      have least := mem_admitted listed
      have under := below r listed
      omega
    · rw [if_neg reached] at response
      obtain ⟨records, consecutive, data, whole⟩ := @readRecordBytes_eq crc32c view offset maxBytes gapFree
      rw [data] at response
      obtain ⟨included, returned, below, all, none⟩ := returns_of_consecutive consecutive response
      refine ⟨included, returned, fun r inside => ⟨highWatermark, partition, below r inside⟩, ?_⟩
      intro segments contents other log found topic first
      obtain rfl := same found
      have isAdmitted : records = admitted segments contents offset maxBytes :=
        (whole topic).trans (log.delivered_eq partition first)
      rw [← isAdmitted]
      exact ⟨all, none⟩
  · have missing := not_exists.mp there
    refine ⟨[], returns_nothing missing, (fun r no => nomatch no), ?_⟩
    intro segments contents highWatermark log found
    exact (missing highWatermark found).elim

/-- One segment with the offsets 0, 1 and 2. -/
def exampleSegment : SegmentInfo :=
  ⟨.segment "t" 0 0, "t", 0, 0, 2, 3, 100, "b", .segment .data "t" 0 0, 0, 0, 0⟩

def exampleRecords : List Record := [⟨0, 0, none, [1]⟩, ⟨1, 0, none, [2]⟩, ⟨2, 0, none, [3]⟩]

def exampleView (lso : Nat) : FetchView where
  getSegments := .ok [exampleSegment]
  openSegment _ := .ok (blocksOf [exampleRecords])
  getPartition := .ok (some 3)
  topicForOrg := true
  lastStableOffset := .ok lso

theorem exampleView_holdsLog (lso : Nat) : (exampleView lso).HoldsLog [exampleSegment] fun _ => exampleRecords where
  registered := rfl
  few := by decide
  adjacent := List.IsChain.singleton _
  ordered := by decide
  offsets := by decide
  stored := fun _ _ => ⟨[exampleRecords], rfl, by decide, rfl⟩

/-- All three records are below the last stable offset. -/
theorem read_committed_fetch_all : ∃ included, Returns (fun _ => 0) (fetchPartition (fun _ => 0) (exampleView 3) 0 0 1000 1) included ∧
    included = exampleRecords := by
  obtain ⟨included, returned, -, whole⟩ := read_committed_fetch (fun _ => 0) (exampleView 3) 0 0 1000
    ((exampleView_holdsLog 3).gapFree (by decide))
  exact ⟨included, returned, (whole [exampleSegment] (fun _ => exampleRecords) 3 (exampleView_holdsLog 3) rfl rfl (by decide)).1
    (by decide)⟩

/-- The last stable offset is 2: offsets 0 and 1 are admitted and below it, and the response has no record. -/
theorem read_committed_withholds :
    ¬ ∀ (crc32c : Bytes → UInt32) (view : FetchView) (segments : List SegmentInfo) (contents : SegmentInfo → List Record)
      (partitionId offset maxBytes highWatermark lso : Nat), view.HoldsLog segments contents →
        view.getPartition = .ok (some highWatermark) → view.topicForOrg = true → view.lastStableOffset = .ok lso →
          (∀ s, segments.head? = some s → s.baseOffset ≤ offset) →
            ReadCommitted crc32c view segments contents partitionId offset maxBytes lso := by
  intro always
  obtain ⟨included, returned, -, complete⟩ := always (fun _ => 0) (exampleView 2) [exampleSegment] (fun _ => exampleRecords) 0 0
    1000 3 2 (exampleView_holdsLog 2) rfl rfl rfl (by decide)
  have present : (⟨0, 0, none, [1]⟩ : Record) ∈ included := complete _ (by decide) (by decide)
  have data : readRecordBytes (fun _ => 0) (exampleView 2) 0 1000 = fetchBatch (fun _ => 0) exampleRecords := by
    have topic : (exampleView 2).topicForOrg = true := rfl
    rw [readRecordBytes, if_pos topic, (exampleView_holdsLog 2).delivered_eq rfl (by decide)]
    rfl
  have batch : 61 ≤ (fetchBatch (fun _ => 0) exampleRecords).length := fetchBatch_length _ _
  have refused : withinStable 2 (fetchBatch (fun _ => 0) exampleRecords) = none :=
    withinStable_fetchBatch (by decide) rfl (by decide) (by decide)
  have response : (fetchPartition (fun _ => 0) (exampleView 2) 0 0 1000 1).records = none := by
    rw [@fetchPartition_records _ (exampleView 2) 0 0 1000 3 rfl, data, if_neg (by decide),
      if_pos (ne_nil_of_length_pos (by omega))]
    exact refused
  rw [Returns, response] at returned
  cases included with
  | nil => cases present
  | cons first records =>
    have long := @fetchBatch_length (fun _ => 0) first records
    rw [← returned] at long
    exact absurd long (by decide)

end StreamHouse.Kafka
