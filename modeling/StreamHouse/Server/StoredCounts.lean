import StreamHouse.Lib.Pages
import StreamHouse.Metadata.Watermark
import StreamHouse.Server.Tombstones

/-!
# How many records a topic has

The writers of the partitions of a topic, retention and the compactor share the stores. A writer
registers a segment together with a watermark, retention deletes rows, and the compactor replaces
segments; each of them stays within its partition. As long as no offset is left out and no record
goes, a partition has as many records as its high watermark says.
-/

namespace StreamHouse.Server

open Metadata Storage Lib List Function SegmentStore PartitionWriter

/-- The writers of the partitions of a topic and what they share. -/
structure TopicWorld (n : Nat) where
  shared : Shared
  writers : Fin n → PartitionWriter

/-- A call on a writer, a deletion of rows by retention (`delete_segments_before`), or a run of the compactor. -/
inductive TopicAct (n : Nat) where
  | produce (p : Fin n) (op : Op)
  | retain (p : Fin n) (beforeOffset : Nat)
  | compact (p : Fin n) (env : CompactionEnv) (order : HashOrder)

namespace TopicWorld

variable {n : Nat}

/-- The world of one writer. -/
def world (s : TopicWorld n) (p : Fin n) : World := ⟨s.shared, s.writers p, []⟩

def step (cfg : CompactionConfig) (s : TopicWorld n) : TopicAct n → TopicWorld n
  | .produce p op => ⟨((s.world p).step op).shared, update s.writers p ((s.world p).step op).writer⟩
  | .retain p beforeOffset =>
    { s with shared := { s.shared with metadata := s.shared.metadata.deleteSegmentsBefore (s.writers p).partition beforeOffset } }
  | .compact p env order => { s with shared := (compactPartition cfg env order (s.writers p).partition s.shared).2 }

end TopicWorld

/-! ## Within a partition -/

/-- The key is one of a segment of the partition. -/
def Names (k : PartitionKey) : S3Key → Prop
  | .segment _ topic partitionId _ => topic = k.topic ∧ partitionId = k.partitionId
  | .compacted _ topic partitionId _ => topic = k.topic ∧ partitionId = k.partitionId

/-- The rows of a partition are under its keys. -/
def Named (k : PartitionKey) (s : Shared) : Prop := ∀ seg ∈ s.metadata.rows k, Names k seg.s3Key

/-- Nothing but what belongs to the partition is changed. -/
structure Within (k : PartitionKey) (s s' : Shared) : Prop where
  rows : ∀ other, other ≠ k → s'.metadata.rows other = s.metadata.rows other
  highWatermark : ∀ other, other ≠ k → s'.metadata.highWatermark other = s.metadata.highWatermark other
  objects : ∀ key, ¬ Names k key → s'.objects key = s.objects key

theorem Within.refl (k : PartitionKey) (s : Shared) : Within k s s := ⟨fun _ _ => rfl, fun _ _ => rfl, fun _ _ => rfl⟩

/-- The rows of the partition have the contents that they had. -/
structure Unmoved (k : PartitionKey) (s s' : Shared) : Prop where
  rows : s'.metadata.rows k = s.metadata.rows k
  highWatermark : s'.metadata.highWatermark k = s.metadata.highWatermark k
  contents : ∀ seg ∈ s.metadata.rows k, contents s' seg = contents s seg

/-- A partition of the topic is not moved by what is within another one. -/
theorem Within.unmoved {k other : PartitionKey} {s s' : Shared} (within : Within k s s') (named : Named other s)
    (apart : other.partitionId ≠ k.partitionId) : Unmoved other s s' := by
  have different : other ≠ k := fun same => apart (by rw [same])
  refine ⟨within.rows other different, within.highWatermark other different, fun seg row => contents_congr ?_⟩
  apply within.objects
  intro names
  have here := named seg row
  unfold Names at names here
  cases key : seg.s3Key with
  | segment dataPrefix topic partitionId baseOffset =>
    rw [key] at names here
    exact apart (here.2.symm.trans names.2)
  | compacted dataPrefix topic partitionId baseOffset =>
    rw [key] at names here
    exact apart (here.2.symm.trans names.2)

theorem Unmoved.readable {k : PartitionKey} {s s' : Shared} (unmoved : Unmoved k s s') : readable k s' = readable k s := by
  unfold Server.readable
  rw [unmoved.rows]
  exact flatMap_congr unmoved.contents

theorem Unmoved.named {k : PartitionKey} {s s' : Shared} (unmoved : Unmoved k s s') (named : Named k s) : Named k s' := by
  unfold Named
  rw [unmoved.rows]
  exact named

theorem Unmoved.layout {w : PartitionWriter} {s s' : Shared} (unmoved : Unmoved w.partition s s') (layout : Layout w s) : Layout w s' := by
  refine ⟨layout.below, layout.increasing, fun seg row => ?_, fun seg row r member => ?_⟩
  · rw [unmoved.rows] at row
    exact layout.keys seg row
  · rw [unmoved.rows] at row
    rw [unmoved.contents seg row] at member
    exact layout.offsets seg row r member

/-! ## The calls on a writer -/

section Produce

variable {env : RollEnv} {w w' : PartitionWriter} {s s' : Shared} {first last : Record} {m : SegmentStore}

theorem names_segmentKey (w : PartitionWriter) (base : Nat) : Names w.partition (w.segmentKey base) := ⟨rfl, rfl⟩

theorem within_putSegment (w : PartitionWriter) (s : Shared) (base : Nat) (segment : List Record) :
    ∀ key, ¬ Names w.partition key → (w.putSegment s base segment).objects key = s.objects key := by
  intro key other
  apply update_of_ne
  rintro rfl
  exact other (names_segmentKey w base)

theorem RollFailed.within (roll : RollFailed w w' s s') : Within w.partition s s' := by
  refine ⟨fun _ _ => by rw [roll.metadata], fun _ _ => by rw [roll.metadata], ?_⟩
  rcases roll.objects with same | ⟨first, _, rfl⟩
  · intro key _
    rw [same]
  · exact within_putSegment w s first.offset w.currentSegment

theorem RollDone.within (roll : RollDone env w w' s s' first last m) : Within w.partition s s' := by
  obtain ⟨segments, highWatermark⟩ := addSegmentAndUpdateWatermark_ok roll.added
  rw [roll.shared]
  refine ⟨fun other different => ?_, fun other different => ?_, within_putSegment w s first.offset w.currentSegment⟩
  · have notOwn : ((⟨w.orgId, w.segmentInfo env first last w.currentSegment.length⟩ : SegmentRow).partition == other) = false :=
      beq_eq_false_iff_ne.mpr fun same => different same.symm
    unfold rows
    rw [segments, filter_append, filter_singleton, notOwn]
    exact congrArg (List.map SegmentRow.info) (append_nil _)
  · rw [highWatermark]
    exact update_of_ne different _ _

theorem RollDone.named (roll : RollDone env w w' s s' first last m) (named : Named w.partition s) : Named w.partition s' := by
  intro seg row
  rw [RollDone.rows roll] at row
  rcases mem_append.mp row with old | new
  · exact named seg old
  · rw [mem_singleton.mp new]
    exact names_segmentKey w first.offset

/-- A registered segment adds its records. -/
theorem RollDone.readable (layout : Layout w s) (roll : RollDone env w w' s s' first last m) :
    (readable w.partition s').length = (readable w.partition s).length + w.currentSegment.length := by
  unfold Server.readable
  rw [RollDone.rows roll, flatMap_append, flatMap_singleton, length_append,
    flatMap_congr (layout.contents_done roll)]
  congr 1
  rw [roll.shared]
  unfold contents readObject putSegment
  change (Option.getD (Option.map (List.map Record.stored) (update s.objects (w.segmentKey first.offset) _ (w.segmentKey first.offset))) []).length = _
  rw [update_self, Option.map_some, Option.getD_some, length_map, length_map]

theorem RollDone.highWatermark (roll : RollDone env w w' s s' first last m) :
    s'.metadata.highWatermark w.partition = (s.metadata.highWatermark w.partition).map fun _ => last.offset + 1 := by
  rw [roll.shared]
  obtain ⟨-, highWatermark⟩ := addSegmentAndUpdateWatermark_ok roll.added
  change m.highWatermark w.partition = _
  rw [highWatermark]
  exact update_self _ _ _

end Produce

/-! ## Retention -/

section Retain

variable {k : PartitionKey} {s : Shared} {beforeOffset : Nat}

theorem rows_deleteSegmentsBefore (m : SegmentStore) (k : PartitionKey) (beforeOffset : Nat) :
    (m.deleteSegmentsBefore k beforeOffset).rows k = (m.rows k).filter fun info => !decide (info.endOffset < beforeOffset) := by
  unfold rows deleteSegmentsBefore
  rw [filter_filter, filter_map, filter_filter]
  congr 1
  apply filter_congr
  intro r _
  cases own : r.partition == k with
  | true => simp
  | false => simp

theorem within_deleteSegmentsBefore (s : Shared) (k : PartitionKey) (beforeOffset : Nat) :
    Within k s { s with metadata := s.metadata.deleteSegmentsBefore k beforeOffset } := by
  refine ⟨fun other different => ?_, fun _ _ => rfl, fun _ _ => rfl⟩
  unfold rows deleteSegmentsBefore
  rw [filter_filter]
  congr 1
  apply filter_congr
  intro r _
  cases own : r.partition == other with
  | true =>
    have notOwn : (r.partition == k) = false := by
      rw [eq_of_beq own]
      exact beq_eq_false_iff_ne.mpr different
    rw [notOwn]
    rfl
  | false => rfl

/-- No row with a record ends before the offset. -/
def SparesRecords (k : PartitionKey) (s : Shared) (beforeOffset : Nat) : Prop :=
  ∀ seg ∈ s.metadata.rows k, seg.endOffset < beforeOffset → contents s seg = []

/-- Retention takes no record if and only if no row with a record goes. -/
theorem readable_retained_iff : readable k { s with metadata := s.metadata.deleteSegmentsBefore k beforeOffset } = readable k s ↔
    SparesRecords k s beforeOffset := by
  unfold Server.readable
  rw [rows_deleteSegmentsBefore]
  change ((s.metadata.rows k).filter _).flatMap (contents s) = _ ↔ _
  rw [Pages.filter_flatMap_eq_iff]
  apply forall₂_congr
  intro seg _
  simp

theorem mem_retained {seg : SegmentInfo} (row : seg ∈ (s.metadata.deleteSegmentsBefore k beforeOffset).rows k) : seg ∈ s.metadata.rows k := by
  rw [rows_deleteSegmentsBefore] at row
  exact (mem_filter.mp row).1

theorem Layout.retained {w : PartitionWriter} (layout : Layout w s) (beforeOffset : Nat) :
    Layout w { s with metadata := s.metadata.deleteSegmentsBefore w.partition beforeOffset } :=
  ⟨layout.below, layout.increasing, fun seg row => layout.keys seg (mem_retained row), fun seg row => layout.offsets seg (mem_retained row)⟩

end Retain

/-! ## Compaction -/

section Compact

variable {cfg : CompactionConfig} {env : CompactionEnv} {order : HashOrder} {k : PartitionKey} {s s' : Shared}

/-- What a run registers. -/
def output (cfg : CompactionConfig) (env : CompactionEnv) (order : HashOrder) (k : PartitionKey) (s : Shared) : List Record :=
  match plan cfg env order k s with
  | .ok (some p) => if env.putOk = true ∧ registers env k p s.metadata = true then p.written else []
  | _ => []

/-- The object of the row is deleted. -/
def Deleted (env : CompactionEnv) (segs : List SegmentInfo) (seg : SegmentInfo) : Prop :=
  env.deleteOk seg.s3Key = true ∧ ∃ e ∈ segs, e.s3Key = seg.s3Key

instance decidable_deleted (env : CompactionEnv) (segs : List SegmentInfo) (seg : SegmentInfo) : Decidable (Deleted env segs seg) :=
  inferInstanceAs (Decidable (_ ∧ _))

/-- The records in the objects that a run deletes. -/
def deletedRecords (cfg : CompactionConfig) (env : CompactionEnv) (order : HashOrder) (k : PartitionKey) (s : Shared) : List Record :=
  (s.metadata.rows k).flatMap fun seg => if Deleted env (condemned cfg env order k s) seg then contents s seg else []

theorem Plan.compacts {p : Plan} (planned : plan cfg env order k s = .ok (some p)) : p.segmentsToCompact ≠ [] := by
  have enough := (plan_ok planned).enough
  exact ne_nil_of_length_pos (by omega)

/-- A run that deletes nothing registers nothing. -/
theorem output_of_spared (spared : condemned cfg env order k s = []) : output cfg env order k s = [] := by
  unfold condemned at spared
  unfold output
  cases planned : plan cfg env order k s with
  | error e => rfl
  | ok found =>
    cases found with
    | none => rfl
    | some p =>
      rw [planned] at spared
      dsimp only at spared ⊢
      split_ifs at spared with goes
      · exact absurd spared (Plan.compacts planned)
      · exact if_neg fun both => goes (Or.inr both)

theorem output_of_condemned {p : Plan} (planned : plan cfg env order k s = .ok (some p))
    (segments : condemned cfg env order k s = p.segmentsToCompact) : output cfg env order k s = p.written := by
  unfold condemned at segments
  unfold output
  rw [planned] at segments ⊢
  dsimp only at segments ⊢
  split_ifs at segments with goes
  · rcases goes with nothing | both
    · unfold Plan.written
      rw [nothing, map_nil, ite_self]
    · exact if_pos both
  · exact absurd segments.symm (Plan.compacts planned)

/-- What is deleted and what is not make up what there was. -/
theorem length_readable (env : CompactionEnv) (k : PartitionKey) (s : Shared) (segs : List SegmentInfo) :
    (readable k s).length = ((s.metadata.rows k).flatMap fun seg => if Deleted env segs seg then [] else contents s seg).length +
      ((s.metadata.rows k).flatMap fun seg => if Deleted env segs seg then contents s seg else []).length := by
  unfold Server.readable
  induction s.metadata.rows k with
  | nil => rfl
  | cons seg rows ih =>
    rw [flatMap_cons, flatMap_cons, flatMap_cons, length_append, length_append, length_append, ih]
    split_ifs
    · rw [length_nil]
      omega
    · rw [length_nil]
      omega

theorem deletedRecords_of_spared (spared : condemned cfg env order k s = []) : deletedRecords cfg env order k s = [] := by
  unfold deletedRecords
  apply flatMap_eq_nil_iff.mpr
  intro seg _
  apply if_neg
  rintro ⟨-, e, inside, -⟩
  rw [spared] at inside
  cases inside

/-- The rows whose objects stay, as they are read after the deletions. -/
theorem readable_emptied (env : CompactionEnv) (segs : List SegmentInfo) (objects : S3Key → Option (List Record)) (m : SegmentStore)
    (same : ∀ seg ∈ s.metadata.rows k, contents ⟨objects, m⟩ seg = contents s seg) :
    ((s.metadata.rows k).flatMap (contents ⟨deleteObjects env segs objects, m⟩)) =
      (s.metadata.rows k).flatMap fun seg => if Deleted env segs seg then [] else contents s seg := by
  apply flatMap_congr
  intro seg row
  rw [contents_deleteObjects, same seg row]
  rfl

/-- **What a run of the compactor leaves**: the records of the objects that it deletes are gone, and
those that it registers are there. -/
theorem Effect.readable_length (effect : Effect cfg env order k s s') (apart : Apart cfg env order k s)
    (based : ∀ seg ∈ s.metadata.rows k, ∀ r ∈ contents s seg, seg.baseOffset ≤ r.offset) :
    (Server.readable k s').length + (deletedRecords cfg env order k s).length =
      (Server.readable k s).length + (output cfg env order k s).length := by
  cases effect with
  | unchanged upload spared => rw [deletedRecords_of_spared spared, output_of_spared spared]
  | refused p first planned upload spared =>
    rw [deletedRecords_of_spared spared, output_of_spared spared, readable_upload (apart.upload _ upload)]
  | emptied p planned nothing upload segments =>
    have bare : p.written = [] := by
      unfold Plan.written
      rw [nothing, map_nil]
    have left := readable_emptied env p.segmentsToCompact s.objects s.metadata fun (seg : SegmentInfo) (_ : seg ∈ s.metadata.rows k) => rfl
    rw [output_of_condemned planned segments, bare, length_readable env k s p.segmentsToCompact, deletedRecords, segments, ← left]
    rfl
  | replaced p first last firstSegment m planned head tail oldest upload segments added =>
    have parts := plan_ok planned
    -- the new row is not among those dropped, and its object is not among those deleted
    have new : firstSegment.baseOffset ≤ last.offset := by
      have written : last ∈ p.written := by
        rw [parts.written, ← parts.compacted]
        exact mem_of_getLast? tail
      obtain ⟨e, member, here⟩ := mem_flatMap.mp (parts.written_readable written)
      have older := parts.oldest oldest member
      have based := based e (parts.registered e member) last here
      omega
    have free := apart.upload _ upload
    have stay := apart.stay upload segments oldest
    have rows : (if env.dropOk then m.deleteSegmentsBefore k firstSegment.baseOffset else m).rows k =
        s.metadata.rows k ++ [compactedSegment env k p first last] := by
      have all := rows_addSegment rfl rfl added
      cases drop : env.dropOk with
      | false => exact all
      | true =>
        rw [if_pos rfl, rows_deleteSegmentsBefore, all]
        apply filter_eq_self.mpr
        intro seg row
        rcases mem_append.mp row with old | last
        · have := stay seg old drop
          simp only [Bool.not_eq_true', decide_eq_false_iff_not]
          omega
        · rw [mem_singleton.mp last]
          simp only [Bool.not_eq_true', decide_eq_false_iff_not]
          exact Nat.not_lt.mpr new
    have kept : ¬ Deleted env p.segmentsToCompact (compactedSegment env k p first last) := by
      rintro ⟨-, e, member, same⟩
      exact free e (parts.registered e member) same
    have own : ∀ m, contents ⟨deleteObjects env p.segmentsToCompact (update s.objects (compactedKey k first.offset) (some p.written)), m⟩
        (compactedSegment env k p first last) = p.written := by
      intro m
      rw [contents_deleteObjects]
      exact (if_neg kept).trans parts.contents_compactedSegment
    have left := readable_emptied env p.segmentsToCompact (update s.objects (compactedKey k first.offset) (some p.written))
      (if env.dropOk then m.deleteSegmentsBefore k firstSegment.baseOffset else m)
      (fun seg row => contents_congr (update_of_ne (free seg row) _ _))
    rw [output_of_condemned planned segments, length_readable env k s p.segmentsToCompact, deletedRecords, segments, ← left]
    unfold Server.readable
    rw [rows, flatMap_append, flatMap_singleton, length_append, own]
    omega

theorem Within.trans {t : Shared} (first : Within k s s') (second : Within k s' t) : Within k s t where
  rows other different := (second.rows other different).trans (first.rows other different)
  highWatermark other different := (second.highWatermark other different).trans (first.highWatermark other different)
  objects key outside := (second.objects key outside).trans (first.objects key outside)

theorem within_upload (first : Record) (records : List Record) :
    Within k s { s with objects := update s.objects (compactedKey k first.offset) (some records) } := by
  refine ⟨fun _ _ => rfl, fun _ _ => rfl, fun key outside => update_of_ne ?_ _ _⟩
  rintro rfl
  exact outside ⟨rfl, rfl⟩

theorem within_deleteObjects (env : CompactionEnv) {segs : List SegmentInfo} (named : ∀ seg ∈ segs, Names k seg.s3Key) :
    Within k s { s with objects := deleteObjects env segs s.objects } := by
  refine ⟨fun _ _ => rfl, fun _ _ => rfl, fun key outside => ?_⟩
  change deleteObjects env segs s.objects key = s.objects key
  rw [deleteObjects_apply]
  apply if_neg
  rintro ⟨-, seg, inside, rfl⟩
  exact outside (named seg inside)

theorem within_addSegment {m : SegmentStore} {p : Plan} {first last : Record}
    (added : s.metadata.addSegment k.orgId (compactedSegment env k p first last) = .ok m) : Within k s { s with metadata := m } := by
  obtain ⟨rfl, -⟩ := insert_ok added
  refine ⟨fun other different => ?_, fun _ _ => rfl, fun _ _ => rfl⟩
  have notOwn : ((⟨k.orgId, compactedSegment env k p first last⟩ : SegmentRow).partition == other) = false :=
    beq_eq_false_iff_ne.mpr fun same => different same.symm
  unfold rows
  rw [filter_append, filter_singleton, notOwn]
  exact congrArg (List.map SegmentRow.info) (append_nil _)

theorem Effect.within (effect : Effect cfg env order k s s') (named : Named k s) : Within k s s' := by
  cases effect with
  | unchanged upload spared => exact Within.refl k s
  | emptied p planned nothing upload segments =>
    exact within_deleteObjects env fun seg inside => named seg ((plan_ok planned).registered seg inside)
  | refused p first planned upload spared => exact within_upload first p.written
  | replaced p first last firstSegment m planned head tail oldest upload segments added =>
    have uploaded := (within_upload (k := k) (s := s) first p.written).trans
      (within_deleteObjects env fun seg inside => named seg ((plan_ok planned).registered seg inside))
    have registered : Within k s ⟨_, m⟩ := uploaded.trans (within_addSegment (s := ⟨_, s.metadata⟩) added)
    cases env.dropOk with
    | false => exact registered
    | true => exact registered.trans (within_deleteSegmentsBefore _ k firstSegment.baseOffset)

theorem Effect.named (effect : Effect cfg env order k s s') (apart : Apart cfg env order k s) (named : Named k s) : Named k s' := by
  intro seg row
  rcases effect.row apart row with ⟨old, -⟩ | ⟨p, first, last, -, -, -, rfl, -⟩
  · exact named seg old
  · exact ⟨rfl, rfl⟩

theorem Effect.highWatermark (effect : Effect cfg env order k s s') : s'.metadata.highWatermark k = s.metadata.highWatermark k := by
  cases effect with
  | unchanged upload spared => rfl
  | emptied p planned nothing upload segments => rfl
  | refused p first planned upload spared => rfl
  | replaced p first last firstSegment m planned head tail oldest upload segments added =>
    obtain ⟨rfl, -⟩ := insert_ok added
    cases env.dropOk with
    | false => rfl
    | true => rfl

end Compact

/-! ## Runs -/

namespace TopicWorld

variable {n : Nat} (orgId topic : String)

/-- The segment that a call registers goes on at the watermark, and no offset is left out of it. -/
def Gapless (s : TopicWorld n) (p : Fin n) (op : Op) : Prop :=
  ∀ env ∈ op.roll (s.world p), (s.writers p).rollRegisters env s.shared = true →
    ∀ last ∈ (s.writers p).currentSegment.getLast?, ∀ high ∈ s.shared.metadata.highWatermark (s.writers p).partition,
      last.offset + 1 = high + (s.writers p).currentSegment.length

/-- What is written is as much as what is deleted, and nothing that is registered is met. -/
structure KeepsCount (cfg : CompactionConfig) (env : CompactionEnv) (order : HashOrder) (k : PartitionKey) (s : Shared) : Prop where
  apart : Apart cfg env order k s
  same : (output cfg env order k s).length = (deletedRecords cfg env order k s).length

/-- A step that leaves no offset out and no record behind. -/
def Sound (cfg : CompactionConfig) (s : TopicWorld n) : TopicAct n → Prop
  | .produce p op => s.Gapless p op
  | .retain p beforeOffset => SparesRecords (s.writers p).partition s.shared beforeOffset
  | .compact p env order => KeepsCount cfg env order (s.writers p).partition s.shared

/-- Writers as they are opened over a new topic, with what their logs have. -/
structure Start (s : TopicWorld n) : Prop where
  opened : ∀ p, ∃ config s3DataPrefix others wal nowMs,
    new ⟨orgId, topic, p.val⟩ config s3DataPrefix others wal nowMs s.shared.metadata = .ok (s.writers p)
  empty : ∀ id, s.shared.metadata.rows ⟨orgId, topic, id⟩ = []
  fresh : ∀ p : Fin n, s.shared.metadata.highWatermark ⟨orgId, topic, p.val⟩ = some 0
  beyond : ∀ id, n ≤ id → s.shared.metadata.highWatermark ⟨orgId, topic, id⟩ = none

structure Inv (s : TopicWorld n) : Prop where
  partition : ∀ p, (s.writers p).partition = ⟨orgId, topic, p.val⟩
  layout : ∀ p, Layout (s.writers p) s.shared
  named : ∀ id, Named ⟨orgId, topic, id⟩ s.shared
  full : ∀ p : Fin n, s.shared.metadata.highWatermark ⟨orgId, topic, p.val⟩ = some (readable ⟨orgId, topic, p.val⟩ s.shared).length
  beyond : ∀ id, n ≤ id → s.shared.metadata.rows ⟨orgId, topic, id⟩ = [] ∧ s.shared.metadata.highWatermark ⟨orgId, topic, id⟩ = none

variable {orgId topic} {s : TopicWorld n} {p : Fin n} {shared : Shared} {w : PartitionWriter}

/-- A step within one partition that keeps what is to be kept of it. -/
theorem Inv.within (inv : s.Inv orgId topic) (within : Within (s.writers p).partition s.shared shared)
    (partition : w.partition = (s.writers p).partition) (layout : Layout w shared) (named : Named (s.writers p).partition shared)
    (full : shared.metadata.highWatermark (s.writers p).partition = some (readable (s.writers p).partition shared).length) :
    Inv orgId topic ⟨shared, update s.writers p w⟩ := by
  have own := inv.partition p
  have unmoved (id : Nat) (other : id ≠ p.val) : Unmoved ⟨orgId, topic, id⟩ s.shared shared := by
    apply within.unmoved (inv.named id)
    rw [own]
    exact other
  rw [own] at named full
  refine ⟨fun q => ?_, fun q => ?_, fun id => ?_, fun q => ?_, fun id outside => ?_⟩
  · by_cases same : q = p
    · subst same
      change (update s.writers q w q).partition = _
      rw [update_self, partition, own]
    · change (update s.writers p w q).partition = _
      rw [update_of_ne same]
      exact inv.partition q
  · by_cases same : q = p
    · subst same
      change Layout (update s.writers q w q) shared
      rw [update_self]
      exact layout
    · change Layout (update s.writers p w q) shared
      rw [update_of_ne same]
      have away := unmoved q.val fun ids => same (Fin.ext ids)
      rw [← inv.partition q] at away
      exact away.layout (inv.layout q)
  · by_cases same : id = p.val
    · rw [same]
      exact named
    · exact (unmoved id same).named (inv.named id)
  · by_cases same : q = p
    · rw [same]
      exact full
    · have away := unmoved q.val fun ids => same (Fin.ext ids)
      change shared.metadata.highWatermark _ = some (readable _ shared).length
      rw [away.highWatermark, away.readable]
      exact inv.full q
  · have away := unmoved id fun same => by have := p.isLt; omega
    change shared.metadata.rows _ = [] ∧ shared.metadata.highWatermark _ = none
    rw [away.rows, away.highWatermark]
    exact inv.beyond id outside

theorem Inv.roll (inv : s.Inv orgId topic) {env : RollEnv}
    (gapless : (s.writers p).rollRegisters env s.shared = true →
      ∀ last ∈ (s.writers p).currentSegment.getLast?, ∀ high ∈ s.shared.metadata.highWatermark (s.writers p).partition,
        last.offset + 1 = high + (s.writers p).currentSegment.length) :
    Inv orgId topic ⟨((s.writers p).rollSegment env s.shared).2.2, update s.writers p ((s.writers p).rollSegment env s.shared).2.1⟩ := by
  have full := inv.full p
  have named := inv.named p.val
  have layout := inv.layout p
  rw [← inv.partition p] at full named
  by_cases done : (s.writers p).rollRegisters env s.shared = true
  · obtain ⟨first, last, m, roll, -⟩ := rollSegment_registered done
    apply inv.within (RollDone.within roll) (RollDone.partition roll) (layout.done roll) (RollDone.named roll named)
    have next := gapless done last roll.tail _ full
    rw [RollDone.highWatermark roll, full, Option.map_some, RollDone.readable layout roll, next]
  · obtain ⟨-, roll⟩ := rollSegment_failed (Bool.eq_false_iff.mpr done)
    have partition : ((s.writers p).rollSegment env s.shared).2.1.partition = (s.writers p).partition := by
      rw [roll.writer]
      rfl
    have unmoved : Unmoved (s.writers p).partition s.shared ((s.writers p).rollSegment env s.shared).2.2 :=
      ⟨by rw [roll.metadata], by rw [roll.metadata], layout.contents_failed roll⟩
    apply inv.within (RollFailed.within roll) partition (layout.failed roll) (unmoved.named named)
    rw [unmoved.highWatermark, unmoved.readable, full]

theorem Inv.produce (inv : s.Inv orgId topic) {op : Op} (gapless : s.Gapless p op) :
    Inv orgId topic ⟨((s.world p).step op).shared, update s.writers p ((s.world p).step op).writer⟩ := by
  have full := inv.full p
  have named := inv.named p.val
  rw [← inv.partition p] at full named
  have effect := (s.world p).stepCases op
  generalize (s.world p).step op = after at effect ⊢
  cases effect with
  | accepted walNow _ => exact inv.within (Within.refl _ _) rfl ((inv.layout p).accepted walNow op.records) named full
  | skipped count _ _ => exact inv.within (Within.refl _ _) rfl ((inv.layout p).skipped count) named full
  | idle _ => exact inv.within (Within.refl _ _) rfl (inv.layout p) named full
  | rolled env rolls => exact inv.roll (gapless env rolls)

/-- Only the stores change. -/
theorem Inv.stores (inv : s.Inv orgId topic) (within : Within (s.writers p).partition s.shared shared) (layout : Layout (s.writers p) shared)
    (named : Named (s.writers p).partition shared)
    (full : shared.metadata.highWatermark (s.writers p).partition = some (readable (s.writers p).partition shared).length) :
    Inv orgId topic { s with shared } := by
  have moved := inv.within within rfl layout named full
  rwa [update_eq_self] at moved

theorem Inv.step {cfg : CompactionConfig} (inv : s.Inv orgId topic) {a : TopicAct n} (sound : s.Sound cfg a) :
    (s.step cfg a).Inv orgId topic := by
  cases a with
  | produce p op => exact inv.produce sound
  | retain p beforeOffset =>
    have full := inv.full p
    have named := inv.named p.val
    rw [← inv.partition p] at full named
    apply inv.stores (within_deleteSegmentsBefore s.shared _ beforeOffset) ((inv.layout p).retained beforeOffset)
      fun seg row => named seg (mem_retained row)
    rw [readable_retained_iff.mpr sound]
    exact full
  | compact p env order =>
    have full := inv.full p
    have named := inv.named p.val
    rw [← inv.partition p] at full named
    have done := effect cfg env order (s.writers p).partition s.shared
    have count := done.readable_length sound.apart fun seg row r here => ((inv.layout p).offsets seg row r here).1
    have same := sound.same
    apply inv.stores (done.within named) ((inv.layout p).compacted done sound.apart) (done.named sound.apart named)
    rw [done.highWatermark, full, Option.some.injEq]
    omega

theorem Start.inv (start : s.Start orgId topic) : s.Inv orgId topic := by
  have partition (p : Fin n) : (s.writers p).partition = ⟨orgId, topic, p.val⟩ := by
    obtain ⟨config, s3DataPrefix, others, wal, nowMs, opened⟩ := start.opened p
    unfold new at opened
    rw [start.fresh p] at opened
    rw [← Except.ok.inj opened]
    rfl
  refine ⟨partition, fun p => ?_, fun id seg row => ?_, fun p => ?_, fun id outside => ⟨start.empty id, start.beyond id outside⟩⟩
  · obtain ⟨config, s3DataPrefix, others, wal, nowMs, opened⟩ := start.opened p
    obtain ⟨high, -, -, segment, -, -, -⟩ := new_ok opened
    have writer : Opened s.shared (s.writers p) := ⟨⟨_, config, s3DataPrefix, others, wal, nowMs, opened⟩⟩
    refine ⟨writer.segment.2, ?_, fun seg row => ?_, fun seg row => ?_⟩
    · rw [segment]
      exact replay_increasing _ _
    · rw [partition p, start.empty] at row
      cases row
    · rw [partition p, start.empty] at row
      cases row
  · rw [start.empty] at row
    cases row
  · rw [start.fresh p, readable, start.empty]
    rfl

/-- **In a sound run every partition has as many records as its high watermark says.** -/
theorem Start.run {cfg : CompactionConfig} (start : s.Start orgId topic) {acts : List (TopicAct n)}
    (sound : Meets (TopicWorld.step cfg) (TopicWorld.Sound cfg) s acts) : (Lib.run (TopicWorld.step cfg) s acts).Inv orgId topic :=
  sound.invariant (fun _ _ inv ok => Inv.step inv ok) start.inv

end TopicWorld

end StreamHouse.Server
