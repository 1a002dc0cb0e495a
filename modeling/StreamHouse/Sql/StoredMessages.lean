import StreamHouse.Lib.Pages
import StreamHouse.Sql.Execute

/-!
# What is stored of a topic, and what a scan finds

The messages of a topic are those of the segments that are registered for its partitions. A
SELECT leaves out partitions and segments by the first filter of each kind; nothing that passes
all filters is lost by it, except above the high watermark.
-/

namespace StreamHouse.Sql

open Lib Pages Metadata Storage List Arrow

variable (x : Externals) (e : SqlExecutor) (call : Call) (s : SqlSystem) (name : String)

/-- The messages of a registered segment. -/
def segmentMessages (info : SegmentInfo) : List MessageRow :=
  match readSegment x s info with
  | .ok segment => readSegmentMessages x.display x.parse segment
  | .error _ => []

def registered (p : BitVec 32) : List SegmentInfo := s.catalog.getSegments (partitionKey e name p)

/-- The messages of a topic, by partition and segment. -/
def storedMessages (topic : Topic) : List MessageRow :=
  (partitionsOf [] topic).flatMap fun p => (registered e s name p).flatMap (segmentMessages x s)

/-- Segments are registered for partitions of the topic, and have messages of theirs. -/
structure KeptPartitions (topic : Topic) : Prop where
  counted : topic.partitionCount < 2 ^ 32
  own : ∀ p, ∀ info ∈ registered e s name p, p.toNat < topic.partitionCount
  placed : ∀ p, ∀ info ∈ registered e s name p, ∀ msg ∈ segmentMessages x s info, msg.partition = p

/-- A topic as the store keeps it: its partitions have rows, and its segments can be read and span
the offsets of their messages. -/
structure KeptTopic (topic : Topic) : Prop extends KeptPartitions x e s name topic where
  rows : ∀ p, (s.catalog.getPartition (partitionKey e name p)).isSome = true ↔ p.toNat < topic.partitionCount
  readable : ∀ p, ∀ info ∈ registered e s name p, ∃ segment, readSegment x s info = .ok segment
  spanned : ∀ p, ∀ info ∈ registered e s name p, ∀ msg ∈ segmentMessages x s info,
    info.baseOffset ≤ msg.offset.toNat ∧ msg.offset.toNat ≤ info.endOffset

/-! ## Loading -/

variable {x e call s name} {topic : Topic}

theorem segmentMessages_eq {info : SegmentInfo} {segment : TopicSegment} (read : readSegment x s info = .ok segment) :
    segmentMessages x s info = readSegmentMessages x.display x.parse segment := by
  unfold segmentMessages
  rw [read]

theorem readSegments_ok (keep : MessageRow → Bool) {segments : List SegmentInfo}
    (readable : ∀ info ∈ segments, ∃ segment, readSegment x s info = .ok segment) (loaded : List MessageRow) (asked : Nat) :
    readSegments x s keep segments loaded asked = .ok (loaded ++ segments.flatMap fun info => (segmentMessages x s info).filter keep, asked) := by
  induction segments generalizing loaded with
  | nil =>
    rw [flatMap_nil, append_nil]
    rfl
  | cons info rest ih =>
    obtain ⟨segment, read⟩ := readable info mem_cons_self
    have next := ih (fun other inside => readable other (mem_cons_of_mem _ inside)) (loaded ++ (segmentMessages x s info).filter keep)
    rw [flatMap_cons, ← append_assoc, ← next, segmentMessages_eq read]
    unfold readSegments
    rw [foldlM_cons]
    change (Except.bind (Except.bind ((readSegment x s info).bind fun segment => .ok (segment, asked)) _) _) = _
    rw [read]
    rfl

/-- The loop, where no look at the clock is too late and each partition has its messages. -/
theorem forPartitions_ok (inTime : ∀ asked, call.elapsed asked ≤ call.timeoutMs) {partitions : List (BitVec 32)}
    {load : BitVec 32 → List MessageRow → Timed (List MessageRow)} {messages : BitVec 32 → List MessageRow}
    (loads : ∀ p ∈ partitions, ∀ loaded asked, load p loaded asked = .ok (loaded ++ messages p, asked)) :
    (forPartitions call partitions load).run' 0 = .ok (partitions.flatMap messages) := by
  have loop (loaded : List MessageRow) (asked : Nat) : ∃ asked', (partitions.foldlM (fun loaded p => do
      checkTimeout call
      load p loaded) loaded : Timed (List MessageRow)) asked = .ok (loaded ++ partitions.flatMap messages, asked') := by
    induction partitions generalizing loaded asked with
    | nil =>
      refine ⟨asked, ?_⟩
      rw [flatMap_nil, append_nil]
      rfl
    | cons p rest ih =>
      obtain ⟨asked', done⟩ := ih (fun q inside => loads q (mem_cons_of_mem _ inside)) (loaded ++ messages p) (asked + 1)
      refine ⟨asked', ?_⟩
      rw [flatMap_cons, ← append_assoc, ← done, foldlM_cons]
      have first : (do checkTimeout call; load p loaded : Timed (List MessageRow)) asked = .ok (loaded ++ messages p, asked + 1) := by
        rw [← loads p mem_cons_self loaded (asked + 1)]
        change Except.bind (checkTimeout call asked) _ = _
        rw [checkTimeout, if_neg (Nat.not_lt.mpr (inTime asked))]
        rfl
      change Except.bind ((do checkTimeout call; load p loaded : Timed (List MessageRow)) asked) _ = _
      rw [first]
      rfl
  obtain ⟨asked', done⟩ := loop [] 0
  unfold forPartitions
  change Except.map Prod.fst _ = _
  rw [done]
  rfl

/-! ## The scan of a SELECT -/

/-- A message passes the filters that are not about statistics. -/
def SelectQuery.passes (q : SelectQuery) (msg : MessageRow) : Bool := msg.matchesFilters q.filters && q.others.all fun other => other msg

/-- The messages of the segments of a partition that pass. -/
def passing (x : Externals) (e : SqlExecutor) (s : SqlSystem) (q : SelectQuery) (p : BitVec 32) : List MessageRow :=
  (registered e s q.topic p).flatMap fun info => (segmentMessages x s info).filter q.passes

/-- What the scan of a partition finds. -/
def scanned (x : Externals) (e : SqlExecutor) (s : SqlSystem) (q : SelectQuery) (p : BitVec 32) : List MessageRow :=
  match s.catalog.getPartition (partitionKey e q.topic p) with
  | none => []
  | some partition =>
    ((registered e s q.topic p).filter fun info => !outOfRange q.filters partition.highWatermark info).flatMap fun info =>
      (segmentMessages x s info).filter q.passes

variable {q : SelectQuery}

theorem selectPartition_ok (kept : KeptTopic x e s q.topic topic) (p : BitVec 32) (loaded : List MessageRow) (asked : Nat) :
    selectPartition x e s q p loaded asked = .ok (loaded ++ scanned x e s q p, asked) := by
  unfold selectPartition scanned
  cases s.catalog.getPartition (partitionKey e q.topic p) with
  | none =>
    dsimp only
    rw [append_nil]
    rfl
  | some partition =>
    exact readSegments_ok _ (fun info inside => kept.readable p info (mem_filter.mp inside).1) loaded asked

/-- Above the high watermark nothing that passes is stored, where the watermark is what the scan ends at. -/
def NothingHidden (x : Externals) (e : SqlExecutor) (s : SqlSystem) (q : SelectQuery) : Prop :=
  offsetEnd q.filters = none → ∀ p, ∀ info ∈ registered e s q.topic p,
    ∀ partition, s.catalog.getPartition (partitionKey e q.topic p) = some partition →
      partition.highWatermark < info.baseOffset → ∀ msg ∈ segmentMessages x s info, q.passes msg = false

variable {p : BitVec 32} {msg : MessageRow}

theorem matchesFilter_of_findSome? {β : Type*} {filters : List Filter} {select : Filter → Option β} {found : β}
    (first : filters.findSome? select = some found) (passes : msg.matchesFilters filters = true) :
    ∃ filter, select filter = some found ∧ msg.matchesFilter filter = true := by
  obtain ⟨filter, inside, selected⟩ := exists_of_findSome?_eq_some first
  exact ⟨filter, selected, all_eq_true.mp passes filter inside⟩

/-- What passes is in the partition of the first filter that names one. -/
theorem partition_of_passes (named : partitionFilter q.filters = some p) (passes : q.passes msg = true) :
    msg.partition = p := by
  obtain ⟨filter, selected, passed⟩ := matchesFilter_of_findSome? named (Bool.and_eq_true_iff.mp passes).1
  cases filter with
  | partitionEquals p' =>
    obtain rfl := Option.some.inj selected
    exact of_decide_eq_true passed
  | _ => cases selected

theorem start_of_passes {o : BitVec 64} (named : offsetStart q.filters = some o) (passes : q.passes msg = true) :
    o.toNat ≤ msg.offset.toNat := by
  obtain ⟨filter, selected, passed⟩ := matchesFilter_of_findSome? named (Bool.and_eq_true_iff.mp passes).1
  cases filter with
  | offsetGte o' =>
    obtain rfl := Option.some.inj selected
    exact of_decide_eq_true passed
  | _ => cases selected

theorem end_of_passes {o : BitVec 64} (named : offsetEnd q.filters = some o) (passes : q.passes msg = true) :
    msg.offset.toNat < o.toNat := by
  obtain ⟨filter, selected, passed⟩ := matchesFilter_of_findSome? named (Bool.and_eq_true_iff.mp passes).1
  cases filter with
  | offsetLt o' =>
    obtain rfl := Option.some.inj selected
    exact of_decide_eq_true passed
  | _ => cases selected

/-- What passes in a segment that is left out is above the high watermark. -/
theorem outOfRange_of_passes (kept : KeptTopic x e s q.topic topic) {info : SegmentInfo}
    (inside : info ∈ registered e s q.topic p) {highWatermark : Nat} (isMessage : msg ∈ segmentMessages x s info)
    (passes : q.passes msg = true) :
    outOfRange q.filters highWatermark info = true ↔ offsetEnd q.filters = none ∧ highWatermark < info.baseOffset := by
  obtain ⟨above, below⟩ := kept.spanned p info inside msg isMessage
  have started : ¬ info.endOffset < ((offsetStart q.filters).map BitVec.toNat).getD 0 := by
    cases named : offsetStart q.filters with
    | none => exact Nat.not_lt_zero _
    | some o =>
      have := start_of_passes named passes
      change ¬ info.endOffset < o.toNat
      omega
  unfold outOfRange
  dsimp only
  rw [decide_eq_false started, Bool.false_or, decide_eq_true_iff]
  cases named : offsetEnd q.filters with
  | none => exact (and_iff_right rfl).symm
  | some o =>
    have := end_of_passes named passes
    refine iff_of_false ?_ fun both => by cases both.1
    change ¬ o.toNat < info.baseOffset
    omega

/-- The scan of a partition finds what passes, if nothing is hidden. -/
theorem scanned_eq_iff (kept : KeptTopic x e s q.topic topic) (within : p.toNat < topic.partitionCount) :
    scanned x e s q p = passing x e s q p ↔
      (offsetEnd q.filters = none → ∀ info ∈ registered e s q.topic p,
        ∀ partition, s.catalog.getPartition (partitionKey e q.topic p) = some partition →
          partition.highWatermark < info.baseOffset → ∀ msg ∈ segmentMessages x s info, q.passes msg = false) := by
  obtain ⟨partition, row⟩ := Option.isSome_iff_exists.mp ((kept.rows p).mpr within)
  unfold scanned passing
  rw [row]
  dsimp only
  rw [filter_flatMap_eq_iff]
  constructor
  · intro found ended info inside partition' same above msg isMessage
    obtain rfl := Option.some.inj same
    apply Bool.eq_false_iff.mpr
    intro passes
    have out := (outOfRange_of_passes kept inside isMessage passes).mpr ⟨ended, above⟩
    have none := found info inside (by rw [out]; rfl)
    exact filter_eq_nil_iff.mp none msg isMessage passes
  · intro hidden info inside out
    apply filter_eq_nil_iff.mpr
    intro msg isMessage passes
    have out : outOfRange q.filters partition.highWatermark info = true := by
      cases is : outOfRange q.filters partition.highWatermark info with
      | true => rfl
      | false =>
        rw [is] at out
        cases out
    obtain ⟨ended, above⟩ := (outOfRange_of_passes kept inside isMessage passes).mp out
    have no := hidden ended info inside partition rfl above msg isMessage
    rw [passes] at no
    cases no

theorem scanned_sublist (p : BitVec 32) : (scanned x e s q p).Sublist (passing x e s q p) := by
  unfold scanned passing
  cases s.catalog.getPartition (partitionKey e q.topic p) with
  | none => exact nil_sublist _
  | some partition => exact Sublist.flatMap filter_sublist _

theorem mem_partitions (kept : KeptPartitions x e s q.topic topic) :
    p ∈ partitionsOf [] topic ↔ p.toNat < topic.partitionCount := by
  have count : (BitVec.ofNat 32 topic.partitionCount).toNat = topic.partitionCount := by
    rw [BitVec.toNat_ofNat, Nat.mod_eq_of_lt kept.counted]
  change p ∈ (List.range (BitVec.ofNat 32 topic.partitionCount).toNat).map (BitVec.ofNat 32) ↔ _
  rw [count, mem_map]
  constructor
  · rintro ⟨i, inside, rfl⟩
    have small := mem_range.mp inside
    have counted := kept.counted
    rw [BitVec.toNat_ofNat, Nat.mod_eq_of_lt (by omega)]
    exact small
  · intro within
    exact ⟨p.toNat, mem_range.mpr within, BitVec.eq_of_toNat_eq (by rw [BitVec.toNat_ofNat, Nat.mod_eq_of_lt p.isLt])⟩

theorem nodup_partitions (topic : Topic) : (partitionsOf [] topic).Nodup := by
  apply Nodup.map_on _ nodup_range
  intro i inside j inside' same
  have small := mem_range.mp inside
  have small' := mem_range.mp inside'
  have bound := (BitVec.ofNat 32 topic.partitionCount).isLt
  have values := congrArg BitVec.toNat same
  rwa [BitVec.toNat_ofNat, BitVec.toNat_ofNat, Nat.mod_eq_of_lt (by omega), Nat.mod_eq_of_lt (by omega)] at values

/-- Where a filter names another partition nothing passes. -/
theorem passing_eq_nil (kept : KeptPartitions x e s q.topic topic) {p' : BitVec 32} (named : partitionFilter q.filters = some p') (other : p ≠ p') :
    passing x e s q p = [] := by
  apply flatMap_eq_nil_iff.mpr
  intro info inside
  apply filter_eq_nil_iff.mpr
  intro msg isMessage passes
  have here := kept.placed p info inside msg isMessage
  exact other (here.symm.trans (partition_of_passes named passes))

theorem passing_beyond (kept : KeptPartitions x e s q.topic topic) (beyond : ¬ p.toNat < topic.partitionCount) :
    passing x e s q p = [] := by
  apply flatMap_eq_nil_iff.mpr
  intro info inside
  exact absurd (kept.own p info inside) beyond

/-- The partitions that are scanned have all that passes. -/
theorem passing_partitions (kept : KeptPartitions x e s q.topic topic) :
    (partitionsOf q.filters topic).flatMap (passing x e s q) = (storedMessages x e s q.topic topic).filter q.passes := by
  have all : (storedMessages x e s q.topic topic).filter q.passes = (partitionsOf [] topic).flatMap (passing x e s q) := by
    unfold storedMessages passing
    rw [List.filter_flatMap]
    apply flatMap_congr
    intro p _
    rw [List.filter_flatMap]
  rw [all]
  cases named : partitionFilter q.filters with
  | none =>
    have same : partitionsOf q.filters topic = partitionsOf [] topic := by
      unfold partitionsOf queryPartitions
      rw [named]
      rfl
    rw [same]
  | some p =>
    have one : partitionsOf q.filters topic = [p] := by
      unfold partitionsOf queryPartitions
      rw [named]
    rw [one, flatMap_singleton]
    by_cases within : p.toNat < topic.partitionCount
    · obtain ⟨before, after, split⟩ := append_of_mem ((mem_partitions kept).mpr within)
      have distinct := nodup_partitions topic
      rw [split] at distinct
      have apart := nodup_middle.mp distinct
      have others : ∀ p' ∈ before ++ after, passing x e s q p' = [] := by
        intro p' inside
        apply passing_eq_nil kept named
        rintro rfl
        exact (nodup_cons.mp apart).1 inside
      have front : before.flatMap (passing x e s q) = [] :=
        flatMap_eq_nil_iff.mpr fun p' inside => others p' (mem_append_left _ inside)
      have back : after.flatMap (passing x e s q) = [] :=
        flatMap_eq_nil_iff.mpr fun p' inside => others p' (mem_append_right _ inside)
      rw [split, flatMap_append, flatMap_cons, front, back, nil_append, append_nil]
    · rw [passing_beyond kept within]
      apply Eq.symm
      apply flatMap_eq_nil_iff.mpr
      intro p' inside
      apply passing_eq_nil kept named
      rintro rfl
      exact within ((mem_partitions kept).mp inside)

/-- **The scan of a SELECT finds all that passes, if and only if nothing is hidden.** -/
theorem scan_complete_iff (kept : KeptTopic x e s q.topic topic) :
    (partitionsOf q.filters topic).flatMap (scanned x e s q) = (storedMessages x e s q.topic topic).filter q.passes ↔ NothingHidden x e s q := by
  rw [← passing_partitions kept.toKeptPartitions, flatMap_eq_iff fun p _ => scanned_sublist p]
  constructor
  · intro found ended p info inside
    have within := kept.own p info inside
    by_cases scanning : p ∈ partitionsOf q.filters topic
    · exact (scanned_eq_iff kept within).mp (found p scanning) ended info inside
    · intro partition _ _ msg isMessage
      apply Bool.eq_false_iff.mpr
      intro passes
      apply scanning
      have here := kept.placed p info inside msg isMessage
      unfold partitionsOf queryPartitions
      cases named : partitionFilter q.filters with
      | none => exact (mem_partitions kept.toKeptPartitions).mpr within
      | some p' =>
        rw [← partition_of_passes named passes, here]
        exact mem_singleton_self p
  · intro hidden p _
    by_cases within : p.toNat < topic.partitionCount
    · exact (scanned_eq_iff kept within).mpr fun ended => hidden ended p
    · rw [passing_beyond kept.toKeptPartitions within]
      have none := scanned_sublist (x := x) (e := e) (s := s) (q := q) p
      rw [passing_beyond kept.toKeptPartitions within] at none
      exact sublist_nil.mp none

end StreamHouse.Sql
