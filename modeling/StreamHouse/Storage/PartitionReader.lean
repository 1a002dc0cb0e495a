import Mathlib.Data.List.Chain
import StreamHouse.Metadata.Segments

/-!
# Reading a partition

`PartitionReader::read` with `SegmentIndex` and `SegmentReader::read_from_offset`: the
index gives the segment that has an offset, the segment's records from there on are
collected, and the read goes on behind the segment's end until there are enough. The
store is fixed for the time of a read; prefetching fills a cache and is left out.
-/

namespace StreamHouse.Storage
open Metadata List Record

/-- `streamhouse_storage::Error`, the variants of a read. -/
inductive ReadError where
  | offsetNotFound (offset : Nat)
  | partitionNotFound
  | metadata (e : MetadataError)
  | objectStore
  | segment (message : String)
deriving DecidableEq

/-! ## Inside a segment -/

/-- An entry of a segment's index, and what `read_block` gives for it. -/
structure Block where
  offset : Nat
  records : Except ReadError (List Record)

/-- The binary search of `find_block_for_offset`. -/
def searchBlock (index : List Block) (offset left right : Nat) : Nat :=
  if left < right then
    let mid := (left + right) / 2
    if (index[mid]?.map Block.offset).getD 0 ≤ offset then searchBlock index offset (mid + 1) right
    else searchBlock index offset left mid
  else left
termination_by right - left

/-- `find_block_for_offset`. -/
def findBlockForOffset (index : List Block) (offset : Nat) : Nat :=
  if index = [] then 0 else searchBlock index offset 0 index.length - 1

/-- The loop of `read_from_offset`, from the block found. -/
def readBlocks : List Block → Except ReadError (List Record)
  | [] => .ok []
  | block :: blocks => do
    let records ← block.records
    let rest ← readBlocks blocks
    .ok (records ++ rest)

/-- `read_from_offset`. -/
def readFromOffset (index : List Block) (startOffset : Nat) : Except ReadError (List Record) :=
  (readBlocks (index.drop (findBlockForOffset index startOffset))).map fun records =>
    records.filter fun r => startOffset ≤ r.offset

/-! ## The segment index -/

/-- `SegmentIndexConfig::default`. -/
def maxSegments : Nat := 10000

/-- `BTreeMap::insert` under the base offset. -/
def insertSegment (segment : SegmentInfo) : List SegmentInfo → List SegmentInfo
  | [] => [segment]
  | other :: index =>
    if segment.baseOffset < other.baseOffset then segment :: other :: index
    else if segment.baseOffset = other.baseOffset then segment :: index
    else other :: insertSegment segment index

/-- `refresh`: the segments by base offset, and of these the last ones. -/
def refreshIndex (segments : List SegmentInfo) : List SegmentInfo :=
  let index := segments.foldl (fun index segment => insertSegment segment index) []
  index.drop (index.length - maxSegments)

/-- `lookup_in_index`. -/
def lookupInIndex (index : List SegmentInfo) (offset : Nat) : Option SegmentInfo :=
  match (index.filter fun s => s.baseOffset ≤ offset).getLast? with
  | none => none
  | some segment => if segment.baseOffset ≤ offset ∧ offset ≤ segment.endOffset then some segment else none

/-! ## Across segments -/

/-- What a read finds in the metadata store and in the object store. -/
structure PartitionView where
  getSegments : Except MetadataError (List SegmentInfo)
  /-- `get_segment`, from the cache or the object store, and `SegmentReader::new`. -/
  openSegment : SegmentInfo → Except ReadError (List Block)
  /-- The high watermark of the partition's row. -/
  getPartition : Except MetadataError (Option Nat)

structure ReadResult where
  records : List Record
  highWatermark : Nat

namespace PartitionView

variable (view : PartitionView)

/-- `find_segment_for_offset`: a miss refreshes the index, which then is the same. -/
def findSegmentForOffset (offset : Nat) : Except MetadataError (Option SegmentInfo) :=
  view.getSegments.map fun segments => lookupInIndex (refreshIndex segments) offset

/-- The records of one segment from an offset on. -/
def readSegment (info : SegmentInfo) (offset : Nat) : Except ReadError (List Record) := do
  let index ← view.openSegment info
  readFromOffset index offset

/-- The `while` loop of `read`. -/
def readLoop (startOffset maxRecords currentOffset : Nat) (records : List Record) : Except ReadError (List Record) :=
  if records.length < maxRecords then
    match view.findSegmentForOffset currentOffset with
    | .error e => .error (.metadata e)
    | .ok none => if records = [] then .error (.offsetNotFound startOffset) else .ok records
    | .ok (some info) =>
      match view.readSegment info currentOffset with
      | .error e => .error e
      | .ok segmentRecords =>
        if segmentRecords = [] then .ok records
        else if segmentRecords.length ≤ maxRecords - records.length then
          readLoop startOffset maxRecords (info.endOffset + 1) (records ++ segmentRecords)
        else .ok (records ++ segmentRecords.take (maxRecords - records.length))
  else .ok records
termination_by maxRecords - records.length
decreasing_by
  rename_i some _
  have := length_pos_iff.mpr some
  simp only [length_append]
  omega

/-- `read`. -/
def read (startOffset maxRecords : Nat) : Except ReadError ReadResult := do
  let records ← view.readLoop startOffset maxRecords startOffset []
  match view.getPartition with
  | .error e => .error (.metadata e)
  | .ok none => .error .partitionNotFound
  | .ok (some highWatermark) => .ok ⟨records, highWatermark⟩

/-- What a reader gets that takes a failed read for an empty one. -/
def delivered (startOffset maxRecords : Nat) : List Record :=
  match view.read startOffset maxRecords with
  | .ok result => result.records
  | .error _ => []

end PartitionView

/-! ## A segment is read from any offset -/

/-- The index and blocks of a segment that holds these records. -/
def blocksOf (chunks : List (List Record)) : List Block :=
  chunks.map fun chunk => ⟨(chunk.head?.map offset).getD 0, .ok chunk⟩

/-- Left of the search everything starts at the offset or before. -/
theorem searchBlock_le {index : List Block} {offset left right : Nat}
    (before : 0 < left → (index[left - 1]?.map Block.offset).getD 0 ≤ offset) :
    0 < searchBlock index offset left right →
      (index[searchBlock index offset left right - 1]?.map Block.offset).getD 0 ≤ offset := by
  fun_induction searchBlock index offset left right with
  | case1 left right open_ mid at_ ih => exact ih fun _ => at_
  | case2 left right open_ mid above ih => exact ih before
  | case3 left right closed => exact before

theorem searchBlock_le_right {index : List Block} {offset left right : Nat} (ordered : left ≤ right) :
    searchBlock index offset left right ≤ right := by
  fun_induction searchBlock index offset left right with
  | case1 left right open_ mid at_ ih => exact ih (by omega)
  | case2 left right open_ mid above ih =>
    have shrunk := ih (by omega)
    omega
  | case3 left right closed => exact ordered

/-- The block found is there, and starts at the offset or before unless it is the first. -/
theorem findBlockForOffset_le {chunks : List (List Record)} {start : Nat} (full : ∀ chunk ∈ chunks, chunk ≠ [])
    (inner : 0 < findBlockForOffset (blocksOf chunks) start) :
    ∃ head tail, chunks[findBlockForOffset (blocksOf chunks) start]? = some (head :: tail) ∧ head.offset ≤ start := by
  unfold findBlockForOffset at inner ⊢
  split at inner
  · omega
  · next some =>
    have size : (blocksOf chunks).length = chunks.length := length_map _
    have bound := @searchBlock_le_right (blocksOf chunks) start 0 (blocksOf chunks).length (Nat.zero_le _)
    have first := @searchBlock_le (blocksOf chunks) start 0 (blocksOf chunks).length (fun no => absurd no (Nat.lt_irrefl 0)) (by omega)
    rw [if_neg some]
    have here : searchBlock (blocksOf chunks) start 0 (blocksOf chunks).length - 1 < chunks.length := by omega
    have found := getElem?_eq_getElem here
    obtain ⟨head, tail, chunk⟩ := exists_cons_of_ne_nil (full _ (getElem_mem here))
    rw [chunk] at found
    refine ⟨head, tail, found, ?_⟩
    rw [blocksOf, getElem?_map, ← blocksOf, found] at first
    exact first

theorem readBlocks_blocksOf (chunks : List (List Record)) : readBlocks (blocksOf chunks) = .ok chunks.flatten := by
  induction chunks with
  | nil => rfl
  | cons chunk chunks ih =>
    rw [blocksOf] at ih
    rw [blocksOf, map_cons, readBlocks, ih]
    rfl

/-- The blocks that are skipped end before the offset. -/
theorem readFromOffset_blocksOf {chunks : List (List Record)} (full : ∀ chunk ∈ chunks, chunk ≠ [])
    (increasing : chunks.flatten.Pairwise fun r s => r.offset < s.offset) (start : Nat) :
    readFromOffset (blocksOf chunks) start = .ok (chunks.flatten.filter fun r => start ≤ r.offset) := by
  let k := findBlockForOffset (blocksOf chunks) start
  have skipped : ((chunks.take k).flatten.filter fun r => start ≤ r.offset) = [] := by
    apply filter_eq_nil_iff.mpr
    intro r early
    have inner : 0 < k := by
      apply Nat.pos_of_ne_zero
      intro zero
      rw [zero] at early
      cases early
    obtain ⟨head, tail, found, at_⟩ := findBlockForOffset_le full inner
    have later : head ∈ (chunks.drop k).flatten := by
      obtain ⟨here, chunk⟩ := List.getElem?_eq_some_iff.mp found
      rw [drop_eq_getElem_cons here, chunk]
      exact mem_cons_self
    rw [← take_append_drop k chunks, flatten_append] at increasing
    have below := (List.pairwise_append.mp increasing).2.2 r early head later
    simp only [decide_eq_true_eq]
    omega
  have split : chunks.flatten = (chunks.take k).flatten ++ (chunks.drop k).flatten := by
    rw [← flatten_append, take_append_drop]
  have rest : (blocksOf chunks).drop k = blocksOf (chunks.drop k) := map_drop.symm
  show (readBlocks ((blocksOf chunks).drop k)).map _ = _
  rw [rest, readBlocks_blocksOf, split, filter_append, skipped]
  rfl

/-! ## What is read has no gap -/

/-- Every registered segment that can be opened has one record for every offset of its
range, and its offsets are `u64`. -/
def PartitionView.GapFree (view : PartitionView) : Prop :=
  ∀ segments, view.getSegments = .ok segments → ∀ s ∈ segments, s.endOffset < 2 ^ 64 ∧
    ∀ index, view.openSegment s = .ok index → ∃ chunks, index = blocksOf chunks ∧ (∀ chunk ∈ chunks, chunk ≠ []) ∧
      chunks.flatten.map offset = range' s.baseOffset (s.endOffset + 1 - s.baseOffset)

theorem mem_insertSegment {segment s : SegmentInfo} {index : List SegmentInfo} (inside : s ∈ insertSegment segment index) :
    s = segment ∨ s ∈ index := by
  induction index with
  | nil => exact .inl (mem_singleton.mp inside)
  | cons other index ih =>
    rw [insertSegment] at inside
    split at inside
    · exact mem_cons.mp inside
    · split at inside
      · obtain new | old := mem_cons.mp inside
        · exact .inl new
        · exact .inr (mem_cons_of_mem other old)
      · obtain rfl | further := mem_cons.mp inside
        · exact .inr mem_cons_self
        · obtain new | old := ih further
          · exact .inl new
          · exact .inr (mem_cons_of_mem other old)

theorem mem_foldl_insertSegment {segments index : List SegmentInfo} {s : SegmentInfo}
    (inside : s ∈ segments.foldl (fun index segment => insertSegment segment index) index) : s ∈ index ∨ s ∈ segments := by
  induction segments generalizing index with
  | nil => exact .inl inside
  | cons segment segments ih =>
    obtain indexed | later := ih inside
    · obtain rfl | old := mem_insertSegment indexed
      · exact .inr mem_cons_self
      · exact .inl old
    · exact .inr (mem_cons_of_mem segment later)

theorem mem_refreshIndex {segments : List SegmentInfo} {s : SegmentInfo} (inside : s ∈ refreshIndex segments) : s ∈ segments := by
  unfold refreshIndex at inside
  obtain no | registered := mem_foldl_insertSegment (mem_of_mem_drop inside)
  · cases no
  · exact registered

theorem of_lookupInIndex {index : List SegmentInfo} {offset : Nat} {s : SegmentInfo} (looked : lookupInIndex index offset = some s) :
    s ∈ index ∧ s.baseOffset ≤ offset ∧ offset ≤ s.endOffset := by
  unfold lookupInIndex at looked
  split at looked
  · cases looked
  · next last isLast =>
    split at looked
    · next has =>
      obtain rfl := Option.some.inj looked
      exact ⟨mem_of_mem_filter (mem_of_getLast? isLast), has⟩
    · cases looked

/-- A segment that is found is registered and has the offset. -/
theorem PartitionView.found {view : PartitionView} {offset : Nat} {s : SegmentInfo}
    (found : view.findSegmentForOffset offset = .ok (some s)) :
    ∃ segments, view.getSegments = .ok segments ∧ s ∈ segments ∧ s.baseOffset ≤ offset ∧ offset ≤ s.endOffset := by
  rw [findSegmentForOffset] at found
  cases registered : view.getSegments with
  | error e =>
    rw [registered] at found
    cases found
  | ok segments =>
    rw [registered, Except.map] at found
    obtain ⟨indexed, has⟩ := of_lookupInIndex (Except.ok.inj found)
    exact ⟨segments, rfl, mem_refreshIndex indexed, has⟩

theorem filter_range' {base start n : Nat} (least : base ≤ start) (most : start ≤ base + n) :
    ((range' base n).filter fun o => start ≤ o) = range' start (base + n - start) := by
  have parts : range' base n = range' base (start - base) ++ range' start (base + n - start) := by
    have joined := @range'_append_1 base (start - base) (base + n - start)
    have middle : base + (start - base) = start := by omega
    have total : (start - base) + (base + n - start) = n := by omega
    rw [middle, total] at joined
    exact joined.symm
  have front : ((range' base (start - base)).filter fun o => start ≤ o) = [] := by
    apply filter_eq_nil_iff.mpr
    intro o listed
    have below := (mem_range'_1.mp listed).2
    simp only [decide_eq_true_eq]
    omega
  have back : ((range' start (base + n - start)).filter fun o => start ≤ o) = range' start (base + n - start) := by
    apply filter_eq_self.mpr
    intro o listed
    have above := (mem_range'_1.mp listed).1
    simp only [decide_eq_true_eq]
    omega
  rw [parts, filter_append, front, back, nil_append]

theorem take_range' (limit base n : Nat) : (range' base n).take limit = range' base (min limit n) := by
  by_cases more : limit ≤ n
  · rw [Nat.min_eq_left more, take_range'_of_length_ge more]
  · have less : n ≤ limit := by omega
    rw [Nat.min_eq_right less, take_range'_of_length_le less]

theorem increasing_of_offsets {records : List Record} {base n : Nat} (offsets : records.map offset = range' base n) :
    records.Pairwise fun r s => r.offset < s.offset := by
  apply pairwise_map.mp
  rw [offsets]
  exact pairwise_lt_range'

/-- The records are those of consecutive offsets from `start` on, no more than `limit`. -/
structure Consecutive (start limit : Nat) (records : List Record) : Prop where
  offsets : records.map offset = range' start records.length
  few : records.length ≤ limit
  words : ∀ r ∈ records, r.offset < 2 ^ 64

namespace PartitionView.GapFree

variable {view : PartitionView}

theorem readSegment_offsets (gapFree : view.GapFree) {segments : List SegmentInfo} (registered : view.getSegments = .ok segments)
    {s : SegmentInfo} (inside : s ∈ segments) {offset : Nat} (least : s.baseOffset ≤ offset) (most : offset ≤ s.endOffset)
    {records : List Record} (read : view.readSegment s offset = .ok records) :
    records.map Record.offset = range' offset (s.endOffset + 1 - offset) := by
  obtain ⟨-, readable⟩ := gapFree segments registered s inside
  unfold readSegment at read
  cases opened : view.openSegment s with
  | error e =>
    rw [opened] at read
    cases read
  | ok index =>
    rw [opened] at read
    obtain ⟨chunks, rfl, full, offsets⟩ := readable index opened
    have blocks : readFromOffset (blocksOf chunks) offset = .ok records := read
    rw [readFromOffset_blocksOf full (increasing_of_offsets offsets)] at blocks
    have joined : s.baseOffset + (s.endOffset + 1 - s.baseOffset) - offset = s.endOffset + 1 - offset := by omega
    rw [← Except.ok.inj blocks, ← joined, ← filter_range' least (by omega), ← offsets, filter_map]
    rfl

/-- One pass of the loop adds the offsets that follow. -/
theorem append (gapFree : view.GapFree) {start limit : Nat} {records more : List Record} (sofar : Consecutive start limit records)
    {s : SegmentInfo} (found : view.findSegmentForOffset (start + records.length) = .ok (some s))
    (read : view.readSegment s (start + records.length) = .ok more) :
    Consecutive start limit (records ++ more.take (limit - records.length)) ∧ start + (records ++ more).length = s.endOffset + 1 := by
  obtain ⟨segments, registered, inside, least, most⟩ := PartitionView.found found
  have offsets := gapFree.readSegment_offsets registered inside least most read
  have size : more.length = s.endOffset + 1 - (start + records.length) := by
    have sizes := congrArg List.length offsets
    rwa [length_map, length_range'] at sizes
  have few := sofar.few
  constructor
  · constructor
    · rw [map_append, map_take, sofar.offsets, offsets, ← size, take_range', length_append, length_take,
        range'_append_1]
    · rw [length_append, length_take]
      omega
    · intro r member
      obtain old | new := mem_append.mp member
      · exact sofar.words r old
      · have listed : r.offset ∈ more.map offset := mem_map_of_mem (mem_of_mem_take new)
        rw [offsets, mem_range'_1] at listed
        have word := (gapFree segments registered s inside).1
        omega
  · rw [length_append]
    omega

/-- **The loop reads consecutive offsets**, whatever fails. -/
theorem readLoop_consecutive (gapFree : view.GapFree) {start limit : Nat} {records out : List Record}
    (sofar : Consecutive start limit records) (loop : view.readLoop start limit (start + records.length) records = .ok out) :
    Consecutive start limit out := by
  generalize current : start + records.length = offset at loop
  fun_induction PartitionView.readLoop view start limit offset records with
  | case1 offset records room e failed => cases loop
  | case2 offset room missed => cases loop
  | case3 offset records room missed some =>
    rw [← Except.ok.inj loop]
    exact sofar
  | case4 offset records room s found e failed => cases loop
  | case5 offset records room s found read =>
    rw [← Except.ok.inj loop]
    exact sofar
  | case6 offset records room s found more read some fits ih =>
    subst current
    obtain ⟨onward, next⟩ := gapFree.append sofar found read
    rw [take_of_length_le fits] at onward
    exact ih onward next loop
  | case7 offset records room s found more read some filled =>
    subst current
    rw [← Except.ok.inj loop]
    exact (gapFree.append sofar found read).1
  | case8 offset records filled =>
    rw [← Except.ok.inj loop]
    exact sofar

theorem delivered_consecutive (gapFree : view.GapFree) (start limit : Nat) : Consecutive start limit (view.delivered start limit) := by
  have nothing : Consecutive start limit [] := ⟨rfl, Nat.zero_le limit, fun r no => nomatch no⟩
  rw [delivered, read]
  cases loop : view.readLoop start limit start [] with
  | error e => exact nothing
  | ok records =>
    cases view.getPartition with
    | error e => exact nothing
    | ok partition =>
      cases partition with
      | none => exact nothing
      | some highWatermark => exact gapFree.readLoop_consecutive nothing loop

end PartitionView.GapFree

/-! ## A log without gaps is read from any offset -/

/-- The partition's segments follow each other, each with one record for every offset
of its range, and the index holds them all. -/
structure PartitionView.HoldsLog (view : PartitionView) (segments : List SegmentInfo)
    (contents : SegmentInfo → List Record) : Prop where
  registered : view.getSegments = .ok segments
  few : segments.length ≤ maxSegments
  adjacent : segments.IsChain fun s next => next.baseOffset = s.endOffset + 1
  ordered : ∀ s ∈ segments, s.baseOffset ≤ s.endOffset
  offsets : ∀ s ∈ segments, (contents s).map offset = range' s.baseOffset (s.endOffset + 1 - s.baseOffset)
  stored : ∀ s ∈ segments, ∃ chunks, view.openSegment s = .ok (blocksOf chunks) ∧ (∀ chunk ∈ chunks, chunk ≠ []) ∧
    chunks.flatten = contents s

/-- Segments that follow each other do not overlap. -/
theorem apart_of_adjacent {segments : List SegmentInfo}
    (adjacent : segments.IsChain fun s next => next.baseOffset = s.endOffset + 1)
    (ordered : ∀ s ∈ segments, s.baseOffset ≤ s.endOffset) :
    segments.Pairwise fun s t => s.endOffset < t.baseOffset := by
  induction segments with
  | nil => exact List.Pairwise.nil
  | cons s segments ih =>
    have later := ih adjacent.of_cons fun t inside => ordered t (mem_cons_of_mem s inside)
    refine pairwise_cons.mpr ⟨fun t inside => ?_, later⟩
    cases segments with
    | nil => cases inside
    | cons next segments =>
      obtain ⟨step, -⟩ := isChain_cons_cons.mp adjacent
      obtain rfl | further := mem_cons.mp inside
      · omega
      · have beyond := (pairwise_cons.mp later).1 t further
        have wide := ordered next (mem_cons_of_mem s mem_cons_self)
        omega

/-- A base offset above the others goes to the end of the index. -/
theorem insertSegment_last {segment : SegmentInfo} {index : List SegmentInfo}
    (above : ∀ s ∈ index, s.baseOffset < segment.baseOffset) : insertSegment segment index = index ++ [segment] := by
  induction index with
  | nil => rfl
  | cons other index ih =>
    have here := above other mem_cons_self
    rw [insertSegment, if_neg (by omega), if_neg (by omega), ih fun s inside => above s (mem_cons_of_mem other inside)]
    rfl

theorem foldl_insertSegment {index segments : List SegmentInfo}
    (sorted : (index ++ segments).Pairwise fun s t => s.baseOffset < t.baseOffset) :
    segments.foldl (fun index segment => insertSegment segment index) index = index ++ segments := by
  induction segments generalizing index with
  | nil => rw [foldl_nil, append_nil]
  | cons s segments ih =>
    have above : ∀ t ∈ index, t.baseOffset < s.baseOffset := fun t inside =>
      (List.pairwise_append.mp sorted).2.2 t inside s mem_cons_self
    rw [foldl_cons, insertSegment_last above, ih, append_assoc]
    · rfl
    · rw [append_assoc]
      exact sorted

namespace PartitionView.HoldsLog

variable {view : PartitionView} {segments : List SegmentInfo} {contents : SegmentInfo → List Record}

section

variable (log : view.HoldsLog segments contents)
include log

theorem apart : segments.Pairwise fun s t => s.endOffset < t.baseOffset :=
  apart_of_adjacent log.adjacent log.ordered

theorem refreshIndex_eq : refreshIndex segments = segments := by
  have sorted : segments.Pairwise fun s t => s.baseOffset < t.baseOffset := by
    apply log.apart.imp_of_mem
    intro s t inside _ beyond
    have wide := log.ordered s inside
    omega
  have built := @foldl_insertSegment [] segments sorted
  have few := log.few
  rw [refreshIndex, built, nil_append, Nat.sub_eq_zero_of_le few, drop_zero]

/-- The segment that has an offset is found. -/
theorem find {before after : List SegmentInfo} {s : SegmentInfo}
    (whole : segments = before ++ s :: after) {offset : Nat} (least : s.baseOffset ≤ offset) (most : offset ≤ s.endOffset) :
    view.findSegmentForOffset offset = .ok (some s) := by
  have apart := log.apart
  rw [whole] at apart
  obtain ⟨-, later, earlier⟩ := List.pairwise_append.mp apart
  have front : before.filter (fun t => t.baseOffset ≤ offset) = before := by
    apply filter_eq_self.mpr
    intro t inside
    have beyond := earlier t inside s mem_cons_self
    have wide := log.ordered t (by rw [whole]; exact mem_append_left _ inside)
    simp only [decide_eq_true_eq]
    omega
  have back : after.filter (fun t => t.baseOffset ≤ offset) = [] := by
    apply filter_eq_nil_iff.mpr
    intro t inside
    have beyond := (pairwise_cons.mp later).1 t inside
    simp only [decide_eq_true_eq]
    omega
  have candidates : (segments.filter fun t => t.baseOffset ≤ offset) = before ++ [s] := by
    rw [whole, filter_append, filter_cons, if_pos (by simpa using least), front, back]
  rw [findSegmentForOffset, log.registered]
  show Except.ok (lookupInIndex (refreshIndex segments) offset) = _
  rw [log.refreshIndex_eq, lookupInIndex, candidates, getLast?_concat]
  dsimp only
  rw [if_pos ⟨least, most⟩]

/-- Behind the last segment there is none. -/
theorem find_none {offset : Nat} (beyond : ∀ s ∈ segments, s.endOffset < offset) :
    view.findSegmentForOffset offset = .ok none := by
  rw [findSegmentForOffset, log.registered]
  show Except.ok (lookupInIndex (refreshIndex segments) offset) = _
  rw [log.refreshIndex_eq, lookupInIndex]
  split
  · rfl
  · next s last =>
    have inside := (mem_filter.mp (mem_of_getLast? last)).1
    have ends := beyond s inside
    rw [if_neg (by omega)]

/-- A segment's records from an offset on. -/
theorem readSegment_eq {s : SegmentInfo} (inside : s ∈ segments) (offset : Nat) :
    view.readSegment s offset = .ok ((contents s).filter fun r => offset ≤ r.offset) := by
  obtain ⟨chunks, opened, full, whole⟩ := log.stored s inside
  have increasing := increasing_of_offsets (log.offsets s inside)
  rw [readSegment, opened]
  show readFromOffset (blocksOf chunks) offset = _
  rw [readFromOffset_blocksOf full (by rw [whole]; exact increasing), whole]

theorem mem_contents {s : SegmentInfo} (inside : s ∈ segments) {r : Record}
    (stored : r ∈ contents s) : s.baseOffset ≤ r.offset ∧ r.offset ≤ s.endOffset := by
  have listed : r.offset ∈ (contents s).map offset := mem_map_of_mem stored
  have wide := log.ordered s inside
  rw [log.offsets s inside, mem_range'_1] at listed
  omega

theorem exists_from {s : SegmentInfo} (inside : s ∈ segments) {offset : Nat}
    (most : offset ≤ s.endOffset) : ((contents s).filter fun r => offset ≤ r.offset) ≠ [] := by
  have wide := log.ordered s inside
  have listed : s.endOffset ∈ (contents s).map Record.offset := by
    rw [log.offsets s inside, mem_range'_1]
    omega
  obtain ⟨r, stored, ends⟩ := mem_map.mp listed
  apply ne_nil_of_mem
  exact mem_filter.mpr ⟨stored, by simpa [ends] using most⟩

/-- Records from a segment's first offset on are all its records. -/
theorem filter_contents {s : SegmentInfo} (inside : s ∈ segments) {offset : Nat}
    (before : offset ≤ s.baseOffset) : ((contents s).filter fun r => offset ≤ r.offset) = contents s := by
  apply filter_eq_self.mpr
  intro r stored
  have low := (log.mem_contents inside stored).1
  simp only [decide_eq_true_eq]
  omega

theorem filter_contents_nil {s : SegmentInfo} (inside : s ∈ segments) {offset : Nat}
    (beyond : s.endOffset < offset) : ((contents s).filter fun r => offset ≤ r.offset) = [] := by
  apply filter_eq_nil_iff.mpr
  intro r stored
  have high := (log.mem_contents inside stored).2
  simp only [decide_eq_true_eq]
  omega

/-- One pass of the loop. -/
theorem readLoop_step {before after : List SegmentInfo} {s : SegmentInfo}
    (whole : segments = before ++ s :: after) {start maxRecords offset : Nat} (least : s.baseOffset ≤ offset)
    (most : offset ≤ s.endOffset) {records : List Record} (room : records.length < maxRecords) :
    view.readLoop start maxRecords offset records =
      if ((contents s).filter fun r => offset ≤ r.offset).length ≤ maxRecords - records.length then
        view.readLoop start maxRecords (s.endOffset + 1) (records ++ (contents s).filter fun r => offset ≤ r.offset)
      else .ok (records ++ ((contents s).filter fun r => offset ≤ r.offset).take (maxRecords - records.length)) := by
  have inside : s ∈ segments := by
    rw [whole]
    exact mem_append_right _ mem_cons_self
  rw [readLoop, if_pos room, log.find whole least most]
  dsimp only
  rw [log.readSegment_eq inside]
  dsimp only
  rw [if_neg (log.exists_from inside most)]

/-- Behind the last segment the loop ends with what it has. -/
theorem readLoop_end {start maxRecords offset : Nat}
    (beyond : ∀ s ∈ segments, s.endOffset < offset) {records : List Record} (some : records ≠ []) :
    view.readLoop start maxRecords offset records = .ok records := by
  have missed := log.find_none beyond
  by_cases room : records.length < maxRecords
  · rw [readLoop, if_pos room, missed]
    exact if_neg some
  · rw [readLoop, if_neg room]

/-- **The loop collects the log from the current offset on**, up to the limit. -/
theorem readLoop_eq {before after : List SegmentInfo} {s : SegmentInfo}
    (whole : segments = before ++ s :: after) {start maxRecords offset : Nat} (least : s.baseOffset ≤ offset)
    (most : offset ≤ s.endOffset) {records : List Record} (room : records.length ≤ maxRecords) :
    view.readLoop start maxRecords offset records =
      .ok (records ++ (((contents s).filter fun r => offset ≤ r.offset) ++ after.flatMap contents).take
        (maxRecords - records.length)) := by
  induction after generalizing before s offset records with
  | nil =>
    have inside : s ∈ segments := by
      rw [whole]
      exact mem_append_right _ mem_cons_self
    obtain more | enough := Nat.lt_or_eq_of_le room
    · rw [log.readLoop_step whole least most more, flatMap_nil, append_nil]
      split
      · next fits =>
        have beyond : ∀ t ∈ segments, t.endOffset < s.endOffset + 1 := by
          intro t listed
          rw [whole] at listed
          have apart := log.apart
          rw [whole] at apart
          obtain earlier | here := mem_append.mp listed
          · have before_ := (List.pairwise_append.mp apart).2.2 t earlier s mem_cons_self
            omega
          · rw [mem_singleton.mp here]
            omega
        rw [log.readLoop_end beyond (append_ne_nil_of_right_ne_nil _ (log.exists_from inside most)),
          take_of_length_le fits]
      · rfl
    · rw [readLoop, if_neg (by omega), enough, Nat.sub_self, take_zero, append_nil]
  | cons next after ih =>
    obtain more | enough := Nat.lt_or_eq_of_le room
    · rw [log.readLoop_step whole least most more]
      split
      · next fits =>
        have step : next.baseOffset = s.endOffset + 1 := by
          have adjacent := log.adjacent
          rw [whole] at adjacent
          exact (isChain_cons_cons.mp (isChain_append.mp adjacent).2.1).1
        have wide := log.ordered next (by rw [whole]; simp)
        have onward := @ih (before ++ [s]) next (by rw [whole, append_assoc]; rfl) (s.endOffset + 1) (by omega) (by omega)
          (records ++ (contents s).filter fun r => offset ≤ r.offset) (by rw [length_append]; omega)
        have whole_ := @filter_contents view segments contents log next (by rw [whole]; simp) (s.endOffset + 1) (by omega)
        have cut : (((contents s).filter fun r => offset ≤ r.offset) ++ (contents next ++ after.flatMap contents)).take
            (maxRecords - records.length) = ((contents s).filter fun r => offset ≤ r.offset) ++
              (contents next ++ after.flatMap contents).take
                (maxRecords - records.length - ((contents s).filter fun r => offset ≤ r.offset).length) := by
          rw [take_append, take_of_length_le fits]
        rw [onward, whole_, flatMap_cons, cut, append_assoc, length_append, Nat.sub_sub]
      · next filled =>
        rw [take_append_of_le_length (by omega)]
    · rw [readLoop, if_neg (by omega), enough, Nat.sub_self, take_zero, append_nil]

/-- The first segment that does not end before an offset has it, or begins behind it. -/
theorem split {offset : Nat} (first : ∀ s, segments.head? = some s → s.baseOffset ≤ offset) :
    (∀ s ∈ segments, s.endOffset < offset) ∨
      ∃ before s after, segments = before ++ s :: after ∧ (∀ t ∈ before, t.endOffset < offset) ∧ s.baseOffset ≤ offset ∧
        offset ≤ s.endOffset := by
  cases found : segments.find? fun s => offset ≤ s.endOffset with
  | none =>
    left
    intro s inside
    have passed := find?_eq_none.mp found s inside
    simpa using passed
  | some s =>
    right
    obtain ⟨most, before, after, whole, earlier⟩ := find?_eq_some_iff_append.mp found
    have passed : ∀ t ∈ before, t.endOffset < offset := fun t inside => by simpa using earlier t inside
    refine ⟨before, s, after, whole, passed, ?_, by simpa using most⟩
    cases last : before.getLast? with
    | none =>
      rw [getLast?_eq_none_iff.mp last] at whole
      apply first
      rw [whole]
      rfl
    | some previous =>
      have adjacent := log.adjacent
      rw [whole] at adjacent
      have step := (isChain_append.mp adjacent).2.2 previous last s rfl
      have ended := passed previous (mem_of_getLast? last)
      omega

/-- **A read is the log from the start offset on**, up to the limit. -/
theorem delivered_eq {start maxRecords highWatermark : Nat}
    (partition : view.getPartition = .ok (some highWatermark)) (first : ∀ s, segments.head? = some s → s.baseOffset ≤ start) :
    view.delivered start maxRecords = ((segments.flatMap contents).filter fun r => start ≤ r.offset).take maxRecords := by
  rw [delivered, read, partition, List.filter_flatMap]
  obtain beyond | ⟨before, s, after, whole, passed, least, most⟩ := log.split first
  · have empty : segments.flatMap (fun s => (contents s).filter fun r => start ≤ r.offset) = [] := by
      apply flatMap_eq_nil_iff.mpr
      exact fun s inside => log.filter_contents_nil inside (beyond s inside)
    have missed : view.readLoop start maxRecords start [] = .ok [] ∨
        view.readLoop start maxRecords start [] = .error (.offsetNotFound start) := by
      rw [readLoop]
      split
      · right
        rw [log.find_none beyond]
        rfl
      · left
        rfl
    rw [empty, take_nil]
    obtain nothing | failed := missed
    · rw [nothing]
      rfl
    · rw [failed]
      rfl
  · have looped := @readLoop_eq view segments contents log before after s whole start maxRecords start least most []
      (Nat.zero_le maxRecords)
    have front : before.flatMap (fun s => (contents s).filter fun r => start ≤ r.offset) = [] := by
      apply flatMap_eq_nil_iff.mpr
      exact fun t inside => log.filter_contents_nil (by rw [whole]; exact mem_append_left _ inside) (passed t inside)
    have apart := log.apart
    rw [whole] at apart
    have back : after.flatMap (fun s => (contents s).filter fun r => start ≤ r.offset) = after.flatMap contents := by
      apply flatMap_congr
      intro t inside
      have beyond := (pairwise_cons.mp (List.pairwise_append.mp apart).2.1).1 t inside
      exact log.filter_contents (by rw [whole]; simp [inside]) (by omega)
    rw [looped]
    show _ ++ _ = _
    rw [nil_append, whole, flatMap_append, front, nil_append, flatMap_cons, back]
    rfl

/-- Such a log has no gaps inside its segments. -/
theorem gapFree (words : ∀ s ∈ segments, s.endOffset < 2 ^ 64) : view.GapFree := by
  intro segments' registered s inside
  obtain rfl := Except.ok.inj (log.registered.symm.trans registered)
  refine ⟨words s inside, fun index opened => ?_⟩
  obtain ⟨chunks, opened', full, whole⟩ := log.stored s inside
  exact ⟨chunks, Except.ok.inj (opened.symm.trans opened'), full, by rw [whole, log.offsets s inside]⟩


end
end PartitionView.HoldsLog

end StreamHouse.Storage
