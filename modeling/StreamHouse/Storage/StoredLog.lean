import StreamHouse.Lib.Ranges
import StreamHouse.Storage.PartitionReader

/-!
# What a read gives of a stored log

A partition's segments may have gaps, inside and between them. A read that succeeds gives the
first of the records from its offset on, whatever else of the store cannot be read.
-/

namespace StreamHouse.Storage

open Metadata Lib List

/-- A segment with its blocks; the records ascend within its range. -/
structure StoredSegment where
  info : SegmentInfo
  ordered : info.baseOffset ≤ info.endOffset
  chunks : List (List Record)
  full : ∀ chunk ∈ chunks, chunk ≠ []
  within : ∀ r ∈ chunks.flatten, info.baseOffset ≤ r.offset ∧ r.offset ≤ info.endOffset
  ascending : chunks.flatten.Pairwise fun r s => r.offset < s.offset

/-- The segments of a partition, in order and apart. -/
structure StoredLog where
  segments : List StoredSegment
  apart : segments.Pairwise fun s t => s.info.endOffset < t.info.baseOffset

/-- What of the store cannot be read for now. -/
structure ReadFaults where
  getSegments : Option MetadataError
  openSegment : SegmentInfo → Option ReadError
  getPartition : Except MetadataError (Option Nat)

namespace StoredLog

def records (log : StoredLog) : List Record := log.segments.flatMap fun s => s.chunks.flatten

/-- The view that a reader has of the log. -/
def view (log : StoredLog) (faults : ReadFaults) : PartitionView where
  getSegments :=
    match faults.getSegments with
    | some e => .error e
    | none => .ok (log.segments.map StoredSegment.info)
  openSegment info :=
    match faults.openSegment info with
    | some e => .error e
    | none =>
      match log.segments.find? fun s => s.info = info with
      | some s => .ok (blocksOf s.chunks)
      | none => .error .objectStore
  getPartition := faults.getPartition

variable {log : StoredLog} {faults : ReadFaults}

theorem ascending (log : StoredLog) : log.records.Pairwise fun r s => r.offset < s.offset := by
  rw [records, pairwise_flatMap]
  refine ⟨fun s _ => s.ascending, log.apart.imp ?_⟩
  intro s t apart r inS q inT
  have below := (s.within r inS).2
  have above := (t.within q inT).1
  omega

variable {records : List Record} {start limit : Nat} {result : ReadResult}

/-- The records of one segment from an offset on. -/
theorem readSegment_ok {s : StoredSegment} {offset : Nat} (read : (log.view faults).readSegment s.info offset = .ok records) :
    ∃ t ∈ log.segments, t.info = s.info ∧ records = t.chunks.flatten.filter fun r => offset ≤ r.offset := by
  rw [PartitionView.readSegment, view] at read
  cases faulty : faults.openSegment s.info with
  | some e =>
    simp only [faulty] at read
    cases read
  | none =>
    simp only [faulty] at read
    cases found : log.segments.find? fun t => t.info = s.info with
    | none =>
      rw [found] at read
      cases read
    | some t =>
      simp only [found] at read
      change readFromOffset (blocksOf t.chunks) offset = .ok records at read
      rw [readFromOffset_blocksOf t.full t.ascending] at read
      have same := find?_some found
      exact ⟨t, mem_of_find?_eq_some found, of_decide_eq_true same, (Except.ok.inj read).symm⟩

/-- Between an offset in a segment and the segment's end lie the segment's records. -/
theorem filter_segment {s : StoredSegment} (inside : s ∈ log.segments) {offset : Nat} (least : s.info.baseOffset ≤ offset) :
    (log.records.filter fun r => decide (offset ≤ r.offset) && decide (r.offset < s.info.endOffset + 1)) =
      s.chunks.flatten.filter fun r => offset ≤ r.offset := by
  obtain ⟨before, after, split⟩ := append_of_mem inside
  have apart := log.apart
  rw [split] at apart
  obtain ⟨-, later, earlier⟩ := List.pairwise_append.mp apart
  rw [records, split, flatMap_append, flatMap_cons, filter_append, filter_append]
  have front : ((before.flatMap fun t => t.chunks.flatten).filter fun r =>
      decide (offset ≤ r.offset) && decide (r.offset < s.info.endOffset + 1)) = [] := by
    apply filter_eq_nil_iff.mpr
    intro r listed
    obtain ⟨t, inBefore, inT⟩ := mem_flatMap.mp listed
    have below := (t.within r inT).2
    have disjoint := earlier t inBefore s mem_cons_self
    simp only [Bool.and_eq_true, decide_eq_true_eq]
    omega
  have back : ((after.flatMap fun t => t.chunks.flatten).filter fun r =>
      decide (offset ≤ r.offset) && decide (r.offset < s.info.endOffset + 1)) = [] := by
    apply filter_eq_nil_iff.mpr
    intro r listed
    obtain ⟨t, inAfter, inT⟩ := mem_flatMap.mp listed
    have above := (t.within r inT).1
    have disjoint := (pairwise_cons.mp later).1 t inAfter
    simp only [Bool.and_eq_true, decide_eq_true_eq]
    omega
  rw [front, back, nil_append, append_nil]
  apply filter_congr
  intro r listed
  have bound := (s.within r listed).2
  rw [decide_eq_true (by omega : r.offset < s.info.endOffset + 1), Bool.and_true]

/-- One pass of the loop goes on to the end of the segment found. -/
theorem read_onward {current : Nat} {more : List Record} {info : SegmentInfo} (least : start ≤ current)
    (sofar : records = log.records.filter fun r => decide (start ≤ r.offset) && decide (r.offset < current))
    (found : (log.view faults).findSegmentForOffset current = .ok (some info))
    (read : (log.view faults).readSegment info current = .ok more) :
    start ≤ info.endOffset + 1 ∧
      records ++ more = log.records.filter fun r => decide (start ≤ r.offset) && decide (r.offset < info.endOffset + 1) := by
  obtain ⟨segments, registered, inside, base, last⟩ := PartitionView.found found
  have infos : segments = log.segments.map StoredSegment.info := by
    rw [view] at registered
    cases faulty : faults.getSegments with
    | some e =>
      simp only [faulty] at registered
      cases registered
    | none =>
      simp only [faulty] at registered
      exact (Except.ok.inj registered).symm
  rw [infos] at inside
  obtain ⟨s, listed, rfl⟩ := mem_map.mp inside
  obtain ⟨t, inLog, same, rfl⟩ := readSegment_ok read
  rw [← same] at base last ⊢
  refine ⟨by omega, ?_⟩
  rw [sofar, ← filter_segment inLog base]
  exact filter_range_append Record.offset log.ascending least (by omega)

/-- **The loop reads what follows**: the first records from `start` on. -/
theorem readLoop_prefix {current : Nat} {out : List Record} (least : start ≤ current)
    (sofar : records = log.records.filter fun r => decide (start ≤ r.offset) && decide (r.offset < current))
    (loop : (log.view faults).readLoop start limit current records = .ok out) :
    out <+: log.records.filter fun r => decide (start ≤ r.offset) := by
  have first : ∀ high, (log.records.filter fun r => decide (start ≤ r.offset) && decide (r.offset < high)) <+:
      log.records.filter fun r => decide (start ≤ r.offset) := filter_range_prefix Record.offset log.ascending start
  fun_induction PartitionView.readLoop (log.view faults) start limit current records with
  | case1 current records room e failed => cases loop
  | case2 current room missed => cases loop
  | case3 current records room missed some =>
    rw [← Except.ok.inj loop, sofar]
    exact first current
  | case4 current records room info found e failed => cases loop
  | case5 current records room info found read =>
    rw [← Except.ok.inj loop, sofar]
    exact first current
  | case6 current records room info found more read some fits ih =>
    obtain ⟨onward, joined⟩ := read_onward least sofar found read
    exact ih onward joined loop
  | case7 current records room info found more read some filled =>
    obtain ⟨onward, joined⟩ := read_onward least sofar found read
    rw [← Except.ok.inj loop]
    have shorter : records ++ more.take (limit - records.length) <+: records ++ more :=
      (prefix_append_right_inj records).mpr (List.take_prefix _ _)
    rw [joined] at shorter
    exact shorter.trans (first _)
  | case8 current records filled =>
    rw [← Except.ok.inj loop, sofar]
    exact first current

/-- What a read gives is the beginning of what is stored from the offset on. -/
theorem read_prefix (read : (log.view faults).read start limit = .ok result) :
    result.records <+: log.records.filter fun r => decide (start ≤ r.offset) := by
  have nothing : ([] : List Record) = log.records.filter fun r => decide (start ≤ r.offset) && decide (r.offset < start) := by
    refine (filter_eq_nil_iff.mpr fun r _ => ?_).symm
    simp only [Bool.and_eq_true, decide_eq_true_eq]
    omega
  rw [PartitionView.read] at read
  cases loop : (log.view faults).readLoop start limit start [] with
  | error e =>
    rw [loop] at read
    cases read
  | ok records =>
    rw [loop] at read
    dsimp only [bind, Except.bind] at read
    split at read
    · cases read
    · cases read
    · rw [← Except.ok.inj read]
      exact readLoop_prefix (le_refl start) nothing loop

/-- Of the stored records from the offset on, a read skips none before the last that it gives. -/
theorem mem_of_read (read : (log.view faults).read start limit = .ok result) {r last : Record}
    (stored : r ∈ log.records) (least : start ≤ r.offset) (inside : last ∈ result.records) (upTo : r.offset ≤ last.offset) :
    r ∈ result.records := by
  obtain ⟨rest, split⟩ := read_prefix read
  have listed : r ∈ log.records.filter fun r => decide (start ≤ r.offset) := mem_filter.mpr ⟨stored, decide_eq_true least⟩
  have ascending := log.ascending.filter fun r => decide (start ≤ r.offset)
  rw [← split] at listed ascending
  obtain given | beyond := mem_append.mp listed
  · exact given
  · have := (List.pairwise_append.mp ascending).2.2 last inside r beyond
    omega

/-- **Below the offset behind the last record that a read gives** lies what was below its start, and
what it gives. -/
theorem filter_below_read (read : (log.view faults).read start limit = .ok result) :
    (log.records.filter fun r => r.offset < (result.records.getLast?.map fun last => last.offset + 1).getD start) =
      (log.records.filter fun r => r.offset < start) ++ result.records := by
  obtain ⟨rest, split⟩ := read_prefix read
  have whole : (log.records.filter fun r => decide (r.offset < start)) ++ (log.records.filter fun r => decide (start ≤ r.offset)) = log.records := by
    rw [filter_append_filter (fun r _ less => by simp only [decide_eq_true_eq, decide_eq_false_iff_not] at less ⊢; omega)
      (log.ascending.imp fun less least => by simp only [decide_eq_true_eq, decide_eq_false_iff_not] at least ⊢; omega)]
    refine filter_eq_self.mpr fun r _ => ?_
    simp only [Bool.or_eq_true, decide_eq_true_eq]
    omega
  have least (r : Record) (inside : r ∈ result.records ++ rest) : start ≤ r.offset := by
    rw [split] at inside
    exact of_decide_eq_true (mem_filter.mp inside).2
  have order := log.ascending.filter fun r => decide (start ≤ r.offset)
  rw [← split] at order
  have between := (List.pairwise_append.mp order).2.2
  cases last : result.records.getLast? with
  | none =>
    rw [getLast?_eq_none_iff.mp last, append_nil]
    rfl
  | some final =>
    obtain ⟨front, ends⟩ := getLast?_eq_some_iff.mp last
    have isLast : final ∈ result.records := mem_of_getLast? last
    have upTo (r : Record) (inside : r ∈ result.records) : r.offset ≤ final.offset := by
      rw [ends] at inside order
      obtain before | same := mem_append.mp inside
      · exact ((List.pairwise_append.mp (List.pairwise_append.mp order).1).2.2 r before final mem_cons_self).le
      · rw [mem_singleton.mp same]
    have first := least final (mem_append_left _ isLast)
    conv_lhs => rw [← whole, ← split]
    rw [filter_append, filter_append, filter_filter]
    change filter _ _ ++ (filter (fun r => decide (r.offset < final.offset + 1)) result.records ++
      filter (fun r => decide (r.offset < final.offset + 1)) rest) = _
    have given : result.records.filter (fun r => decide (r.offset < final.offset + 1)) = result.records :=
      filter_eq_self.mpr fun r inside => decide_eq_true (Nat.lt_succ_of_le (upTo r inside))
    have beyond : rest.filter (fun r => decide (r.offset < final.offset + 1)) = [] := by
      refine filter_eq_nil_iff.mpr fun r inside => ?_
      have := between final isLast r inside
      simp only [decide_eq_true_eq]
      omega
    rw [given, beyond, append_nil]
    congr 1
    refine filter_congr fun r _ => ?_
    rw [Bool.eq_iff_iff]
    simp only [Option.map_some, Option.getD_some, Bool.and_eq_true, decide_eq_true_eq]
    omega

end StoredLog

end StreamHouse.Storage
