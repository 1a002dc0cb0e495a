import StreamHouse.Server.CompactionSafety
import StreamHouse.Storage.Acknowledged

/-!
# Tombstones over whole runs

A partition's writer adds segments and the compactor runs on what it has added, in any
order and at any clock readings. Every tombstone that could ever be read through the
registered segments is remembered as a grave; a state is `Buried` when no key with a
grave has an older record as its newest one. A run of the compactor may drop an expired
tombstone and leave an older value of its key behind, in a segment that is too young to
be compacted, whose deletion failed, or in its own output; `KeySafe` is the condition
that it does not, and `buried_run` shows it is enough.
-/

namespace StreamHouse.Server
open Metadata Storage Lib List Function PartitionWriter RollDone Storage.Example

/-- A partition's writer, the stores, and the tombstones registered so far. -/
structure Compacting where
  world : World
  graves : List (Bytes × Nat)

/-- A call on the writer, or a run of the compactor; both bring their own clock reading. -/
inductive CompactingAct where
  | call (op : Op)
  | compact (env : CompactionEnv) (order : HashOrder)

/-- The keys and offsets of the tombstones among `rs`. -/
def tombstones (rs : List Record) : List (Bytes × Nat) :=
  rs.filterMap fun r => if isTombstone r then (compactionKey r).map fun key => (key, r.offset) else none

theorem mem_tombstones {rs : List Record} {key : Bytes} {o : Nat} :
    (key, o) ∈ tombstones rs ↔ ∃ r ∈ keyed key rs, isTombstone r = true ∧ r.offset = o := by
  simp only [tombstones, mem_filterMap, keyed, mem_filter, beq_iff_eq]
  constructor
  · rintro ⟨r, member, found⟩
    split at found
    · next tombstone =>
      simp only [Option.map_eq_some_iff, Prod.mk.injEq] at found
      obtain ⟨x, named, rfl, rfl⟩ := found
      exact ⟨r, ⟨member, named⟩, tombstone, rfl⟩
    · cases found
  · rintro ⟨r, ⟨member, named⟩, tombstone, rfl⟩
    exact ⟨r, member, by simp [tombstone, named]⟩

namespace Compacting

def partition (s : Compacting) : PartitionKey := s.world.writer.partition

/-- The records that can be read. -/
def records (s : Compacting) : List Record := readable s.partition s.world.shared

/-- Graves for the tombstones that can be read. -/
def observe (s : Compacting) : Compacting := { s with graves := s.graves ++ tombstones s.records }

def step (cfg : CompactionConfig) (s : Compacting) : CompactingAct → Compacting
  | .call op => observe { s with world := s.world.step op }
  | .compact env order =>
    observe { s with world := { s.world with shared := (compactPartition cfg env order s.partition s.world.shared).2 } }

/-- No key has a newest record older than one of its graves. -/
def Buried (s : Compacting) : Prop :=
  ∀ g ∈ s.graves, ∀ r ∈ keyed g.1 s.records, Greatest r (keyed g.1 s.records) → g.2 ≤ r.offset

instance (s : Compacting) : Decidable s.Buried :=
  inferInstanceAs (Decidable (∀ g ∈ s.graves, ∀ r ∈ keyed g.1 s.records, Greatest r (keyed g.1 s.records) → g.2 ≤ r.offset))

end Compacting

/-! ## The condition -/

/-- The records of the segments that keep their objects when those of `segs` are deleted. -/
def spared (env : CompactionEnv) (k : PartitionKey) (s : Shared) (segs : List SegmentInfo) : List Record :=
  ((s.metadata.rows k).filter fun seg => !(env.deleteOk seg.s3Key && segs.any fun e => e.s3Key == seg.s3Key)).flatMap
    (contents s)

/-- Of one key, with the records read, the records of all segments to be removed, and
the records that keep their objects: the newest of those removed is what the scan keeps
and no expired tombstone; or one that stays is as new; or none stays and what the scan
is left with is an expired tombstone. -/
def KeySafe (cfg : CompactionConfig) (nowMs : Int) (read removed spared : List Record) : Prop :=
  removed = [] ∨ (∃ r ∈ candidates read, Greatest r removed ∧ isExpired cfg nowMs r = false) ∨
    (∃ r ∈ spared, Greatest r removed) ∨ spared = [] ∧ ∀ r ∈ candidates read, isExpired cfg nowMs r = true

instance (cfg : CompactionConfig) (nowMs : Int) (read removed spared : List Record) :
    Decidable (KeySafe cfg nowMs read removed spared) :=
  inferInstanceAs (Decidable (_ ∨ (∃ r ∈ candidates read, _) ∨ (∃ r ∈ spared, _) ∨ _ ∧ ∀ r ∈ candidates read, _))

/-- A run that reaches the deletions forgets no key's newest record. -/
structure Remembers (cfg : CompactionConfig) (env : CompactionEnv) (order : HashOrder) (k : PartitionKey) (s : Shared) :
    Prop where
  apart : Apart cfg env order k s
  keys : condemned cfg env order k s ≠ [] → ∀ p, plan cfg env order k s = .ok (some p) → ∀ key,
    KeySafe cfg env.nowMs (keyed key (p.read cfg s)) (keyed key (p.removed s))
      (keyed key (spared env k s p.segmentsToCompact))

def Compacting.Sound (cfg : CompactionConfig) (s : Compacting) : CompactingAct → Prop
  | .call _ => True
  | .compact env order => Remembers cfg env order s.partition s.world.shared

/-! ## What the writer keeps -/

/-- `o` is below all that the writer has yet to add. -/
def Ahead (w : PartitionWriter) (o : Nat) : Prop := o < w.currentOffset ∧ ∀ r ∈ w.currentSegment, o < r.offset

/-- The writer goes on above everything registered, and no segment starts above one of
its records. -/
structure Layout (w : PartitionWriter) (s : Shared) : Prop where
  below : Below w
  increasing : w.currentSegment.Pairwise fun a b => a.offset < b.offset
  keys : ∀ seg ∈ s.metadata.rows w.partition, ∀ base, seg.s3Key = w.segmentKey base → Ahead w base
  offsets : ∀ seg ∈ s.metadata.rows w.partition, ∀ r ∈ contents s seg, seg.baseOffset ≤ r.offset ∧ Ahead w r.offset

theorem Ahead.accepted {w : PartitionWriter} {o : Nat} (ahead : Ahead w o) (n : Nat)
    (records : List (Option Bytes × Bytes × Nat)) : Ahead (w.accepted n records) o := by
  obtain ⟨next, before⟩ := ahead
  constructor
  · rw [accepted_currentOffset]
    omega
  · intro r member
    obtain old | new := mem_append.mp member
    · exact before r old
    · have := (assign_bounds new).1
      omega

theorem Ahead.skipped {w : PartitionWriter} {o : Nat} (ahead : Ahead w o) (n : Nat) : Ahead (w.skipped n) o := by
  constructor
  · have := ahead.1
    show o < w.currentOffset + n
    omega
  · exact ahead.2

theorem Ahead.failed {w w' : PartitionWriter} {s s' : Shared} {o : Nat} (ahead : Ahead w o)
    (roll : RollFailed w w' s s') : Ahead w' o := by
  rw [roll.writer]
  exact ⟨ahead.1, by simp⟩

theorem Ahead.done {env : RollEnv} {w w' : PartitionWriter} {s s' : Shared} {first last : Record} {m : SegmentStore} {o : Nat}
    (ahead : Ahead w o) (roll : RollDone env w w' s s' first last m) : Ahead w' o := by
  obtain ⟨segment, -, offset, -, -, -⟩ := settle_writer env { w with currentSegment := [] }
  rw [roll.writer]
  constructor
  · rw [offset]
    exact ahead.1
  · rw [segment]
    simp

theorem Layout.accepted {w : PartitionWriter} {s : Shared} (layout : Layout w s) (n : Nat)
    (records : List (Option Bytes × Bytes × Nat)) : Layout (w.accepted n records) s := by
  refine ⟨layout.below.accepted n records, ?_, ?_, ?_⟩
  · rw [accepted_currentSegment]
    refine List.pairwise_append.mpr ⟨layout.increasing, assign_increasing _ _, ?_⟩
    intro a old b new
    have := layout.below a old
    have := (assign_bounds new).1
    omega
  · intro seg row base key
    exact (layout.keys seg row base key).accepted n records
  · intro seg row r member
    obtain ⟨base, ahead⟩ := layout.offsets seg row r member
    exact ⟨base, ahead.accepted n records⟩

theorem Layout.skipped {w : PartitionWriter} {s : Shared} (layout : Layout w s) (n : Nat) : Layout (w.skipped n) s := by
  refine ⟨layout.below.skipped n, layout.increasing, ?_, ?_⟩
  · intro seg row base key
    exact (layout.keys seg row base key).skipped n
  · intro seg row r member
    obtain ⟨base, ahead⟩ := layout.offsets seg row r member
    exact ⟨base, ahead.skipped n⟩

/-- The upload of the current segment goes to no registered segment's key. -/
theorem Layout.free {w : PartitionWriter} {s : Shared} (layout : Layout w s) {first : Record}
    (head : w.currentSegment.head? = some first) :
    ∀ seg ∈ s.metadata.rows w.partition, seg.s3Key ≠ w.segmentKey first.offset := by
  intro seg row same
  have := (layout.keys seg row first.offset same).2 first (mem_of_head? head)
  omega

theorem Layout.contents_failed {w w' : PartitionWriter} {s s' : Shared} (layout : Layout w s)
    (roll : RollFailed w w' s s') :
    ∀ seg ∈ s.metadata.rows w.partition, contents s' seg = contents s seg := by
  intro seg row
  apply contents_congr
  obtain same | ⟨first, head, rfl⟩ := roll.objects
  · rw [same]
  · exact update_of_ne (layout.free head seg row) _ _

theorem Layout.failed {w w' : PartitionWriter} {s s' : Shared} (layout : Layout w s)
    (roll : RollFailed w w' s s') : Layout w' s' := by
  have partition : w'.partition = w.partition := by rw [roll.writer]; rfl
  have empty : w'.currentSegment = [] := by rw [roll.writer]
  refine ⟨.of_nil empty, by rw [empty]; exact .nil, ?_, ?_⟩
  · intro seg row base key
    rw [partition, roll.metadata] at row
    exact (layout.keys seg row base (by rw [key, roll.writer]; rfl)).failed roll
  · intro seg row r member
    rw [partition, roll.metadata] at row
    rw [layout.contents_failed roll seg row] at member
    obtain ⟨base, ahead⟩ := layout.offsets seg row r member
    exact ⟨base, ahead.failed roll⟩

section Done

variable {env : RollEnv} {s s' : Shared} {w w' : PartitionWriter} {first last : Record} {m : SegmentStore}

theorem Layout.contents_done (layout : Layout w s) (roll : RollDone env w w' s s' first last m) :
    ∀ seg ∈ s.metadata.rows w.partition, contents s' seg = contents s seg := by
  intro seg row
  apply contents_congr
  rw [roll.shared]
  exact update_of_ne (layout.free roll.head seg row) _ _

variable {r : Record}

/-- What the new segment holds. -/
theorem contents_new (roll : RollDone env w w' s s' first last m) (member : r ∈ contents s' (w.segmentInfo env first last w.currentSegment.length)) :
    ∃ x ∈ w.currentSegment, x.offset = r.offset := by
  rw [roll.shared] at member
  simp only [contents, readObject, putSegment, segmentInfo, update_self,
    Option.map_some, Option.getD_some, map_map, mem_map] at member
  obtain ⟨x, here, rfl⟩ := member
  exact ⟨x, here, rfl⟩

theorem first_le (layout : Layout w s) (head : w.currentSegment.head? = some first) :
    ∀ r ∈ w.currentSegment, first.offset ≤ r.offset := by
  obtain ⟨rest, split⟩ : ∃ rest, w.currentSegment = first :: rest := by
    cases segment : w.currentSegment with
    | nil => simp [segment] at head
    | cons x rest =>
      rw [segment, head?_cons, Option.some.injEq] at head
      exact ⟨rest, by rw [head]⟩
  have increasing := layout.increasing
  rw [split] at increasing ⊢
  intro r member
  obtain rfl | later := mem_cons.mp member
  · exact Nat.le_refl _
  · exact Nat.le_of_lt (rel_of_pairwise_cons increasing later)

theorem Layout.done (layout : Layout w s) (roll : RollDone env w w' s s' first last m) : Layout w' s' := by
  obtain ⟨segment, -, offset, -, keys, -⟩ := settle_writer env { w with currentSegment := [] }
  rw [← roll.writer] at segment offset keys
  have next : ∀ r ∈ w.currentSegment, Ahead w' r.offset := by
    intro r member
    constructor
    · rw [offset]
      exact layout.below r member
    · rw [segment]
      simp
  refine ⟨.of_nil segment, by rw [segment]; exact .nil, ?_, ?_⟩
  · intro seg row base key
    rw [partition roll, rows roll] at row
    rw [keys] at key
    obtain old | new := mem_append.mp row
    · exact (layout.keys seg old base key).done roll
    · obtain rfl := mem_singleton.mp new
      have same : first.offset = base := by
        simpa [segmentInfo, segmentKey] using key
      rw [← same]
      exact next first (mem_of_head? roll.head)
  · intro seg row r member
    rw [partition roll, rows roll] at row
    obtain old | new := mem_append.mp row
    · rw [layout.contents_done roll seg old] at member
      obtain ⟨base, ahead⟩ := layout.offsets seg old r member
      exact ⟨base, ahead.done roll⟩
    · obtain rfl := mem_singleton.mp new
      obtain ⟨x, here, same⟩ := contents_new roll member
      rw [← same]
      exact ⟨first_le layout roll.head x here, next x here⟩

end Done

/-! ## What a run of the compactor keeps -/

section Compact

variable {cfg : CompactionConfig} {env : CompactionEnv} {order : HashOrder} {k : PartitionKey} {s s' : Shared}

variable {p : Plan} {segs : List SegmentInfo}

/-- The compacted segment starts with its smallest offset and ends with its greatest. -/
theorem Planned.between (planned : Planned cfg env order k s p) {first last : Record}
    (head : p.compacted.head? = some first) (tail : p.compacted.getLast? = some last) (member : r ∈ p.written) :
    first.offset ≤ r.offset ∧ r.offset ≤ last.offset := by
  have ordered := compactedRecords_ordered cfg env.nowMs order p.scan
  rw [← planned.compacted] at ordered
  rw [planned.written, ← planned.compacted] at member
  constructor
  · cases compacted : p.compacted with
    | nil => simp [compacted] at head
    | cons x rest =>
      rw [compacted] at head ordered member
      obtain rfl := Option.some.inj head
      obtain rfl | later := mem_cons.mp member
      · exact Nat.le_refl _
      · exact rel_of_pairwise_cons ordered later
  · obtain ⟨front, split⟩ := getLast?_eq_some_iff.mp tail
    rw [split] at ordered member
    obtain old | new := mem_append.mp member
    · exact (List.pairwise_append.mp ordered).2.2 r old last (mem_singleton_self _)
    · rw [mem_singleton.mp new]

/-- A row after a run is an old one, with its contents or without, or the compacted
segment's; nothing is readable that was not. -/
theorem Effect.row (effect : Effect cfg env order k s s') (apart : Apart cfg env order k s) {seg : SegmentInfo}
    (row : seg ∈ s'.metadata.rows k) :
    (seg ∈ s.metadata.rows k ∧ ∀ r ∈ contents s' seg, r ∈ contents s seg) ∨
      ∃ p first last, Planned cfg env order k s p ∧ p.compacted.head? = some first ∧ p.compacted.getLast? = some last ∧
        seg = compactedSegment env k p first last ∧ ∀ r ∈ contents s' seg, r ∈ p.written := by
  have fewer : ∀ {objects : S3Key → Option (List Record)} {segs : List SegmentInfo} {m : SegmentStore} (r : Record),
      r ∈ contents ⟨deleteObjects env segs objects, m⟩ seg → r ∈ contents ⟨objects, m⟩ seg := by
    intro objects segs m r member
    simp only [contents, readObject, deleteObjects_apply] at member ⊢
    split at member
    · cases member
    · exact member
  cases effect with
  | unchanged upload none_ => exact .inl ⟨row, fun r member => member⟩
  | emptied p planned nothing upload segments => exact .inl ⟨row, fewer⟩
  | refused p first planned upload none_ =>
    refine .inl ⟨row, ?_⟩
    rw [contents_congr (update_of_ne (apart.upload _ upload seg row) _ _)]
    exact fun r member => member
  | replaced p first last firstSegment m planned head tail oldest upload segments added =>
    have parts := plan_ok planned
    obtain ⟨old | rfl, -⟩ := (mem_rows_replaced added).mp row
    · refine .inl ⟨old, ?_⟩
      intro r member
      have before := fewer r member
      rwa [contents_congr (update_of_ne (apart.upload _ upload seg old) _ _)] at before
    · refine .inr ⟨p, first, last, parts, head, tail, rfl, ?_⟩
      intro r member
      have before := fewer r member
      rwa [parts.contents_compactedSegment] at before

theorem Effect.readable (effect : Effect cfg env order k s s') (apart : Apart cfg env order k s) (member : r ∈ readable k s') : r ∈ Server.readable k s := by
  obtain ⟨seg, row, here⟩ := mem_readable.mp member
  obtain ⟨old, sub⟩ | ⟨p, first, last, planned, -, -, -, sub⟩ := effect.row apart row
  · exact mem_readable.mpr ⟨seg, old, sub r here⟩
  · exact planned.removed_readable (planned.written_readable (sub r here))

/-- The segments to compact are in base offset order. -/
theorem Planned.oldest (planned : Planned cfg env order k s p) {firstSegment seg : SegmentInfo}
    (oldest : p.segmentsToCompact.head? = some firstSegment) (member : seg ∈ p.segmentsToCompact) :
    firstSegment.baseOffset ≤ seg.baseOffset := by
  have total : Std.Total fun a b : SegmentInfo => a.baseOffset ≤ b.baseOffset := ⟨fun a b => Nat.le_total _ _⟩
  have trans : IsTrans SegmentInfo fun a b => a.baseOffset ≤ b.baseOffset := ⟨fun a b c => Nat.le_trans⟩
  have ordered : p.segmentsToCompact.Pairwise fun a b => a.baseOffset ≤ b.baseOffset := by
    rw [planned.segments]
    exact (pairwise_insertionSort _ _).filter _
  cases segments : p.segmentsToCompact with
  | nil => simp [segments] at oldest
  | cons x rest =>
    rw [segments] at oldest ordered member
    obtain rfl := Option.some.inj oldest
    obtain rfl | later := mem_cons.mp member
    · exact Nat.le_refl _
    · exact rel_of_pairwise_cons ordered later

theorem mem_spared : r ∈ spared env k s segs ↔
      ∃ seg ∈ s.metadata.rows k, ¬ (env.deleteOk seg.s3Key = true ∧ ∃ e ∈ segs, e.s3Key = seg.s3Key) ∧ r ∈ contents s seg := by
  simp only [spared, mem_flatMap, mem_filter, Bool.not_eq_true', Bool.and_eq_false_imp, any_eq_false,
    beq_iff_eq, not_and, not_exists, and_assoc]

/-- A record of a segment either keeps its object or is among those removed. -/
theorem spared_or_removed (member : r ∈ readable k s) : r ∈ spared env k s p.segmentsToCompact ∨ r ∈ p.removed s := by
  obtain ⟨seg, row, here⟩ := mem_readable.mp member
  by_cases deleted : env.deleteOk seg.s3Key = true ∧ ∃ e ∈ p.segmentsToCompact, e.s3Key = seg.s3Key
  · obtain ⟨-, e, removed, same⟩ := deleted
    refine .inr (mem_flatMap.mpr ⟨e, removed, ?_⟩)
    simpa only [contents, same] using here
  · exact .inl (mem_spared.mpr ⟨seg, row, deleted, here⟩)

theorem contents_deleteObjects {seg : SegmentInfo} {m : SegmentStore} {objects : S3Key → Option (List Record)} :
    contents ⟨deleteObjects env segs objects, m⟩ seg =
      if env.deleteOk seg.s3Key = true ∧ ∃ e ∈ segs, e.s3Key = seg.s3Key then [] else contents ⟨objects, m⟩ seg := by
  simp only [contents, readObject, deleteObjects_apply]
  split
  · rfl
  · rfl

/-- Once the objects of some rows are deleted, the others are left. -/
theorem mem_readable_emptied :
    r ∈ Server.readable k ⟨deleteObjects env segs s.objects, s.metadata⟩ ↔ r ∈ spared env k s segs := by
  simp only [mem_spared, mem_readable, contents_deleteObjects]
  constructor
  · rintro ⟨seg, row, here⟩
    split at here
    · cases here
    · next kept => exact ⟨seg, row, kept, here⟩
  · rintro ⟨seg, row, kept, here⟩
    exact ⟨seg, row, by rwa [if_neg kept]⟩

/-- With the compacted segment registered, what it holds is left too. -/
theorem mem_readable_replaced {first last : Record} {firstSegment : SegmentInfo} {m : SegmentStore}
    (parts : Planned cfg env order k s p) (free : ∀ seg ∈ s.metadata.rows k, seg.s3Key ≠ compactedKey k first.offset)
    (stay : ∀ seg ∈ s.metadata.rows k, env.dropOk = true → firstSegment.baseOffset ≤ seg.endOffset)
    (new : firstSegment.baseOffset ≤ last.offset)
    (added : s.metadata.addSegment k.orgId (compactedSegment env k p first last) = .ok m) :
    r ∈ Server.readable k ⟨deleteObjects env p.segmentsToCompact
        (Function.update s.objects (compactedKey k first.offset) (some p.written)),
      if env.dropOk then m.deleteSegmentsBefore k firstSegment.baseOffset else m⟩ ↔
      r ∈ spared env k s p.segmentsToCompact ∨ r ∈ p.written := by
  have own : ∀ seg ∈ s.metadata.rows k, ∀ m : SegmentStore,
      contents ⟨Function.update s.objects (compactedKey k first.offset) (some p.written), m⟩ seg = contents s seg :=
    fun seg row m => contents_congr (update_of_ne (free seg row) _ _)
  -- the new row's own object is not among those deleted
  have kept : ¬ (env.deleteOk (compactedSegment env k p first last).s3Key = true ∧
      ∃ e ∈ p.segmentsToCompact, e.s3Key = (compactedSegment env k p first last).s3Key) := by
    rintro ⟨-, e, member, same⟩
    exact free e (parts.registered e member) same
  simp only [mem_spared, mem_readable, contents_deleteObjects, mem_rows_replaced added]
  constructor
  · rintro ⟨seg, ⟨old | rfl, -⟩, here⟩
    · split at here
      · cases here
      · next spared_ =>
        rw [own seg old] at here
        exact .inl ⟨seg, old, spared_, here⟩
    · rw [if_neg kept, parts.contents_compactedSegment] at here
      exact .inr here
  · rintro (⟨seg, row, spared_, here⟩ | written)
    · refine ⟨seg, ⟨.inl row, stay seg row⟩, ?_⟩
      rw [if_neg spared_, own seg row]
      exact here
    · refine ⟨_, ⟨.inr rfl, fun _ => new⟩, ?_⟩
      rw [if_neg kept, parts.contents_compactedSegment]
      exact written

/-- **What a run leaves to read**: all of it, or what keeps its object and what was written. -/
theorem Effect.outcome (effect : Effect cfg env order k s s') (apart : Apart cfg env order k s)
    (based : ∀ seg ∈ s.metadata.rows k, ∀ r ∈ contents s seg, seg.baseOffset ≤ r.offset) :
    (∀ r, r ∈ Server.readable k s' ↔ r ∈ Server.readable k s) ∨
      ∃ p, plan cfg env order k s = .ok (some p) ∧ condemned cfg env order k s ≠ [] ∧
        ∀ r, r ∈ Server.readable k s' ↔ r ∈ spared env k s p.segmentsToCompact ∨ r ∈ p.written := by
  cases effect with
  | unchanged upload none_ => exact .inl (fun r => Iff.rfl)
  | refused p first planned upload none_ =>
    left
    intro r
    rw [readable_upload (apart.upload _ upload)]
  | emptied p planned nothing upload segments =>
    have enough := (plan_ok planned).enough
    refine .inr ⟨p, planned, ?_, ?_⟩
    · rw [segments]
      exact ne_nil_of_length_pos (by omega)
    · intro r
      have bare : p.written = [] := by simp [Plan.written, nothing]
      rw [mem_readable_emptied, bare]
      simp
  | replaced p first last firstSegment m planned head tail oldest upload segments added =>
    have parts := plan_ok planned
    have enough := parts.enough
    -- the new row is not among those dropped
    have new : firstSegment.baseOffset ≤ last.offset := by
      have written : last ∈ p.written := by
        rw [parts.written, ← parts.compacted]
        exact mem_of_getLast? tail
      obtain ⟨e, member, here⟩ := mem_flatMap.mp (parts.written_readable written)
      have := parts.oldest oldest member
      have := based e (parts.registered e member) last here
      omega
    refine .inr ⟨p, planned, ?_, ?_⟩
    · rw [segments]
      exact ne_nil_of_length_pos (by omega)
    · intro r
      exact mem_readable_replaced parts (apart.upload _ upload) (apart.stay upload segments oldest) new added

/-- One key under the condition: something as new can still be read, or nothing at all. -/
theorem KeySafe.kept (planned : Planned cfg env order k s p) {key : Bytes} {spared : List Record}
    (safe : KeySafe cfg env.nowMs (keyed key (p.read cfg s)) (keyed key (p.removed s)) (keyed key spared)) (member : r ∈ keyed key (p.removed s)) :
    (∃ x ∈ keyed key spared ++ keyed key p.written, r.offset ≤ x.offset) ∨ keyed key spared ++ keyed key p.written = [] := by
  have output : keyed key p.written =
      ((survivor (keyed key (p.read cfg s))).filter fun r => !isExpired cfg env.nowMs r).toList := by
    rw [planned.written]
    exact keyed_compacted planned.holds key
  obtain none_ | ⟨x, candidate, greatest, lasting⟩ | ⟨x, stays, greatest⟩ | ⟨bare, expired⟩ := safe
  · rw [none_] at member
    cases member
  · -- the survivor is as new as the candidate, and no expired tombstone either
    cases survives : survivor (keyed key (p.read cfg s)) with
    | none =>
      rw [survivor_eq_none.mp survives] at candidate
      cases candidate
    | some w =>
      obtain ⟨here, best⟩ := survivor_spec survives
      have keeps : isExpired cfg env.nowMs w = false := by
        by_contra old
        have only := candidates_tombstone here (isExpired_tombstone (by simpa using old))
        rw [only] at candidate
        obtain rfl := mem_singleton.mp candidate
        exact old lasting
      refine .inl ⟨w, mem_append_right _ ?_, Nat.le_trans (greatest r member) (best x candidate)⟩
      rw [output, survives]
      simp [Option.filter_some, keeps]
  · exact .inl ⟨x, mem_append_left _ stays, greatest r member⟩
  · right
    rw [bare, output, nil_append]
    cases survives : survivor (keyed key (p.read cfg s)) with
    | none => rfl
    | some w => simp [Option.filter_some, expired w (survivor_spec survives).1]

/-- **No key goes back**: for whatever could be read of a key before the run, something
as new can be read after it, or nothing of the key. -/
theorem Effect.newest (effect : Effect cfg env order k s s') (remembers : Remembers cfg env order k s)
    (based : ∀ seg ∈ s.metadata.rows k, ∀ r ∈ contents s seg, seg.baseOffset ≤ r.offset) {key : Bytes} (member : r ∈ keyed key (Server.readable k s)) :
    (∃ x ∈ keyed key (Server.readable k s'), r.offset ≤ x.offset) ∨ keyed key (Server.readable k s') = [] := by
  obtain ⟨here, named⟩ := mem_filter.mp member
  obtain same | ⟨p, planned, reached, left_⟩ := effect.outcome remembers.apart based
  · exact .inl ⟨r, mem_filter.mpr ⟨(same r).mpr here, named⟩, Nat.le_refl _⟩
  · have members : ∀ x, x ∈ keyed key (Server.readable k s') ↔
        x ∈ keyed key (spared env k s p.segmentsToCompact) ++ keyed key p.written := by
      intro x
      rw [← keyed_append]
      simp only [keyed, mem_filter, mem_append, left_ x]
    obtain stays | removed := spared_or_removed here
    · exact .inl ⟨r, (members r).mpr (mem_append_left _ (mem_filter.mpr ⟨stays, named⟩)), Nat.le_refl _⟩
    · have safe := remembers.keys reached p planned key
      obtain ⟨x, found, newer⟩ | bare := safe.kept (plan_ok planned) (mem_filter.mpr ⟨removed, named⟩)
      · exact .inl ⟨x, (members x).mpr found, newer⟩
      · right
        apply eq_nil_iff_forall_not_mem.mpr
        intro x found
        rw [members, bare] at found
        cases found

end Compact

theorem Layout.compacted {cfg : CompactionConfig} {env : CompactionEnv} {order : HashOrder} {w : PartitionWriter}
    {s s' : Shared} (layout : Layout w s) (effect : Effect cfg env order w.partition s s')
    (apart : Apart cfg env order w.partition s) : Layout w s' := by
  refine ⟨layout.below, layout.increasing, ?_, ?_⟩
  · intro seg row base key
    obtain ⟨old, -⟩ | ⟨p, first, last, -, -, -, rfl, -⟩ := effect.row apart row
    · exact layout.keys seg old base key
    · simp [compactedSegment, compactedKey, segmentKey] at key
  · intro seg row r member
    obtain ⟨old, sub⟩ | ⟨p, first, last, planned, head, tail, rfl, sub⟩ := effect.row apart row
    · exact layout.offsets seg old r (sub r member)
    · have written := sub r member
      obtain ⟨x, registered, here⟩ := mem_readable.mp (planned.removed_readable (planned.written_readable written))
      exact ⟨(planned.between head tail written).1, (layout.offsets x registered r here).2⟩

/-! ## Runs -/

namespace Compacting

/-- What sound runs keep: above an older record of a key with a grave there is one that
is not older. -/
structure Inv (s : Compacting) : Prop where
  layout : Layout s.world.writer s.world.shared
  graves : ∀ g ∈ s.graves, Ahead s.world.writer g.2
  buried : ∀ g ∈ s.graves, ∀ r ∈ keyed g.1 s.records, r.offset < g.2 → ∃ x ∈ keyed g.1 s.records, g.2 ≤ x.offset

theorem Inv.safe {s : Compacting} (inv : s.Inv) : s.Buried := by
  intro g grave r member greatest
  by_contra older
  obtain ⟨x, found, newer⟩ := inv.buried g grave r member (by omega)
  have := greatest x found
  omega

/-- A tombstone that can be read is its own witness. -/
theorem Inv.observe {s : Compacting} (inv : s.Inv) : s.observe.Inv := by
  refine ⟨inv.layout, ?_, ?_⟩
  · intro g grave
    obtain old | new := mem_append.mp grave
    · exact inv.graves g old
    · obtain ⟨t, member, -, same⟩ := mem_tombstones.mp new
      obtain ⟨seg, row, here⟩ := mem_readable.mp (mem_of_mem_filter member)
      rw [← same]
      exact (inv.layout.offsets seg row t here).2
  · intro g grave r member older
    obtain old | new := mem_append.mp grave
    · exact inv.buried g old r member older
    · obtain ⟨t, found, -, same⟩ := mem_tombstones.mp new
      exact ⟨t, found, by omega⟩

/-- The writer moved on: nothing is lost, and what is new is above all that was ahead. -/
theorem Inv.grown {s : Compacting} (inv : s.Inv) {world : World} (partition : world.writer.partition = s.partition)
    (layout : Layout world.writer world.shared) (ahead : ∀ o, Ahead s.world.writer o → Ahead world.writer o)
    (kept : ∀ r ∈ s.records, r ∈ readable s.partition world.shared)
    (new : ∀ r ∈ readable s.partition world.shared, r ∈ s.records ∨ ∀ o, Ahead s.world.writer o → o < r.offset) :
    Inv { s with world := world } := by
  refine ⟨layout, fun g grave => ahead _ (inv.graves g grave), ?_⟩
  intro g grave r member older
  simp only [records, Compacting.partition, partition] at member ⊢
  obtain ⟨here, named⟩ := mem_filter.mp member
  obtain old | above := new r here
  · obtain ⟨x, found, newer⟩ := inv.buried g grave r (mem_filter.mpr ⟨old, named⟩) older
    obtain ⟨there, same⟩ := mem_filter.mp found
    exact ⟨x, mem_filter.mpr ⟨kept x there, same⟩, newer⟩
  · have := above g.2 (inv.graves g grave)
    omega

theorem Inv.rolled {s : Compacting} (inv : s.Inv) (env : RollEnv) :
    Inv { s with world := { s.world with
      writer := (s.world.writer.rollSegment env s.world.shared).2.1
      shared := (s.world.writer.rollSegment env s.world.shared).2.2 } } := by
  by_cases done : s.world.writer.rollRegisters env s.world.shared = true
  · obtain ⟨first, last, m, roll, -⟩ := rollSegment_registered done
    refine inv.grown (RollDone.partition roll) (inv.layout.done roll) (fun o ahead => ahead.done roll) ?_ ?_
    · intro r member
      obtain ⟨seg, row, here⟩ := mem_readable.mp member
      refine mem_readable.mpr ⟨seg, ?_, ?_⟩
      · rw [Compacting.partition, rows roll]
        exact mem_append_left _ row
      · rw [inv.layout.contents_done roll seg row]
        exact here
    · intro r member
      obtain ⟨seg, row, here⟩ := mem_readable.mp member
      rw [Compacting.partition, rows roll] at row
      obtain old | new := mem_append.mp row
      · rw [inv.layout.contents_done roll seg old] at here
        exact .inl (mem_readable.mpr ⟨seg, old, here⟩)
      · obtain rfl := mem_singleton.mp new
        obtain ⟨x, current, same⟩ := contents_new roll here
        right
        intro o ahead
        rw [← same]
        exact ahead.2 x current
  · have roll := (rollSegment_failed (by simpa using done)).2
    have partition : (s.world.writer.rollSegment env s.world.shared).2.1.partition = s.partition := by
      rw [roll.writer]
      rfl
    have same : ∀ r, r ∈ readable s.partition (s.world.writer.rollSegment env s.world.shared).2.2 ↔ r ∈ s.records := by
      intro r
      simp only [records, mem_readable, roll.metadata]
      constructor
      · rintro ⟨seg, row, here⟩
        exact ⟨seg, row, by rwa [inv.layout.contents_failed roll seg row] at here⟩
      · rintro ⟨seg, row, here⟩
        exact ⟨seg, row, by rwa [inv.layout.contents_failed roll seg row]⟩
    exact inv.grown partition (inv.layout.failed roll) (fun o ahead => ahead.failed roll) (fun r => (same r).mpr)
      (fun r member => .inl ((same r).mp member))

theorem Inv.call {s : Compacting} (inv : s.Inv) (op : Op) : Inv { s with world := s.world.step op } := by
  have effect := s.world.stepCases op
  generalize s.world.step op = after at effect ⊢
  cases effect with
  | accepted walNow _ =>
    exact inv.grown rfl (inv.layout.accepted walNow op.records) (fun o ahead => ahead.accepted walNow op.records)
      (fun r member => member) (fun r member => .inl member)
  | skipped n _ _ =>
    exact inv.grown rfl (inv.layout.skipped n) (fun o ahead => ahead.skipped n) (fun r member => member)
      (fun r member => .inl member)
  | idle _ => exact inv
  | rolled env _ => exact inv.rolled env

/-- A run of the compactor under the condition. -/
theorem Inv.compact {cfg : CompactionConfig} {s : Compacting} (inv : s.Inv) {env : CompactionEnv} {order : HashOrder}
    (remembers : Remembers cfg env order s.partition s.world.shared) :
    Inv { s with world := { s.world with
      shared := (compactPartition cfg env order s.partition s.world.shared).2 } } := by
  have done := effect cfg env order s.partition s.world.shared
  generalize (compactPartition cfg env order s.partition s.world.shared).2 = after at done ⊢
  have based : ∀ seg ∈ s.world.shared.metadata.rows s.partition, ∀ r ∈ contents s.world.shared seg,
      seg.baseOffset ≤ r.offset := fun seg row r here => (inv.layout.offsets seg row r here).1
  refine ⟨inv.layout.compacted done remembers.apart, inv.graves, ?_⟩
  intro g grave r member older
  obtain ⟨here, named⟩ := mem_filter.mp member
  have before : r ∈ keyed g.1 s.records := mem_filter.mpr ⟨done.readable remembers.apart here, named⟩
  obtain ⟨x, found, newer⟩ := inv.buried g grave r before older
  obtain ⟨y, left_, above⟩ | bare := done.newest remembers based found
  · exact ⟨y, left_, Nat.le_trans newer above⟩
  · have nothing : r ∈ ([] : List Record) := bare ▸ member
    cases nothing

theorem Inv.step {cfg : CompactionConfig} {s : Compacting} (inv : s.Inv) {a : CompactingAct} (sound : s.Sound cfg a) :
    (Compacting.step cfg s a).Inv := by
  cases a with
  | call op => exact (inv.call op).observe
  | compact env order => exact (inv.compact sound).observe

/-- A writer as `new` opens it, over any log, on a partition without segments. -/
structure Start (s : Compacting) : Prop where
  opened : Opened s.world.shared s.world.writer
  segments : s.world.shared.metadata.rows s.partition = []
  graves : s.graves = []

theorem Start.inv {s : Compacting} (start : s.Start) : s.Inv := by
  obtain ⟨k, config, s3DataPrefix, others, wal, nowMs, opened⟩ := start.opened.opened
  obtain ⟨hw, -, -, segment, -, -, -⟩ := new_ok opened
  have segments := start.segments
  refine ⟨⟨start.opened.segment.2, ?_, ?_, ?_⟩, ?_, ?_⟩
  · rw [segment]
    exact replay_increasing _ _
  · intro seg row
    rw [← Compacting.partition, segments] at row
    cases row
  · intro seg row
    rw [← Compacting.partition, segments] at row
    cases row
  · simp [start.graves]
  · simp [start.graves]

end Compacting

/-- **A buried record stays buried** in a run in which every compaction remembers the
keys it compacts. -/
theorem buried_run {cfg : CompactionConfig} {start : Compacting} (fresh : start.Start) {acts : List CompactingAct}
    (sound : Meets (Compacting.step cfg) (Compacting.Sound cfg) start acts) :
    (run (Compacting.step cfg) start acts).Buried := by
  have inv := sound.invariant (fun s a inv ok => Compacting.Inv.step inv ok) fresh.inv
  exact inv.safe

namespace Example

/-- The partition before its first segment. -/
def partitionStart : Compacting := ⟨⟨fresh, writer, []⟩, []⟩

theorem partitionStart_start : partitionStart.Start := ⟨writer_opened, rfl, rfl⟩

/-- One record and the flush that registers it. -/
def addOne (value : Bytes) : List CompactingAct :=
  [.call (.append true 1500 (some [107]) value 1500), .call (.flushDurable (rollEnv true))]

/-- A value, its tombstone, and a run of the compactor in which nothing fails. -/
def deleted : List CompactingAct := addOne [1] ++ addOne [] ++ [.compact (working 1550) insertionOrder]

end Example

open Example

/-- A record limit of one: the tombstone's segment is removed unread, and the value is back. -/
theorem buried_run_fails :
    let after := run (Compacting.step (compaction 1)) partitionStart deleted
    partitionStart.Start ∧ ([107], 1) ∈ after.graves ∧ after.records = [⟨0, 1500, some [107], [1]⟩] ∧ ¬ after.Buried :=
  ⟨partitionStart_start, by decide, by decide, by decide⟩

/-- With room for both segments the tombstone is kept. -/
theorem buried_run_both_read :
    (run (Compacting.step (compaction 10)) partitionStart deleted).records =
        [⟨1, 1500, some [107], []⟩] ∧
      (run (Compacting.step (compaction 10)) partitionStart deleted).Buried := by
  refine ⟨by decide, buried_run partitionStart_start ⟨trivial, trivial, trivial, trivial, ⟨?_, ?_⟩, trivial⟩⟩
  · exact ⟨by decide, by decide⟩
  · intro _ p planned key
    obtain rfl := Option.some.inj (Except.ok.inj planned)
    by_cases same : key = [107]
    · subst same
      decide
    · refine .inl (keyed_eq_nil ?_ same)
      decide

end StreamHouse.Server
