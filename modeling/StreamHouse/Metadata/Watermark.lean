import StreamHouse.Lib.Run
import StreamHouse.Metadata.Segments

/-!
# Who writes the high watermark

Partition writers register a segment and set the watermark in one transaction;
`reconcile_from_s3` registers a segment, reads the partition and then sets the
watermark, in three statements; anybody may call `update_high_watermark`. Every
statement sets the value it is given. The system here is the store with any number
of reconcilers, each between two of its statements, and a run is any interleaving
of single statements.
-/

namespace StreamHouse.Metadata
open Lib Option SegmentStore

/-- Where a `reconcile_from_s3` is with the object at hand: before `add_segment`, before
`get_partition`, or before `update_high_watermark`. -/
inductive Reconciling where
  | idle
  | registered (k : PartitionKey) (newHwm : Nat)
  | extending (k : PartitionKey) (newHwm : Nat)
deriving DecidableEq

structure WatermarkSystem where
  metadata : SegmentStore
  reconcilers : Nat → Reconciling

/-- A statement; `roll` is the transaction of `roll_segment`, which passes `end_offset + 1`. -/
inductive WatermarkCall where
  | updateHighWatermark (k : PartitionKey) (offset : Nat)
  | roll (orgId : String) (segment : SegmentInfo)
  | reconcileAdd (who : Nat) (orgId : String) (segment : SegmentInfo)
  | reconcileRead (who : Nat)
  | reconcileUpdate (who : Nat)

/-- A statement, and whether the database carries it out. -/
structure WatermarkStep where
  call : WatermarkCall
  carriedOut : Bool

/-- The partition a segment is registered for. -/
def keyOf (orgId : String) (segment : SegmentInfo) : PartitionKey := ⟨orgId, segment.topic, segment.partitionId⟩

namespace WatermarkSystem

/-- The store after a statement, unchanged if it failed. -/
def settle (s : WatermarkSystem) : Except MetadataError SegmentStore → WatermarkSystem
  | .ok metadata => { s with metadata }
  | .error _ => s

def goOn (s : WatermarkSystem) (who : Nat) (phase : Reconciling) : WatermarkSystem :=
  { s with reconcilers := Function.update s.reconcilers who phase }

def step (s : WatermarkSystem) (a : WatermarkStep) : WatermarkSystem :=
  match a.call with
  | .updateHighWatermark k offset => if a.carriedOut then s.settle (s.metadata.updateHighWatermark k offset) else s
  | .roll orgId segment =>
    if a.carriedOut then s.settle (s.metadata.addSegmentAndUpdateWatermark orgId segment (segment.endOffset + 1)) else s
  | .reconcileAdd who orgId segment =>
    match s.reconcilers who with
    | .idle =>
      if a.carriedOut then
        match s.metadata.addSegment orgId segment with
        | .ok metadata => { s with metadata }.goOn who (.registered (keyOf orgId segment) (segment.endOffset + 1))
        | .error _ => s
      else s
    | _ => s
  | .reconcileRead who =>
    match s.reconcilers who with
    | .registered k newHwm =>
      match s.metadata.highWatermark k with
      | some highWatermark =>
        s.goOn who (if a.carriedOut = true ∧ newHwm > highWatermark then .extending k newHwm else .idle)
      | none => s.goOn who .idle
    | _ => s
  | .reconcileUpdate who =>
    match s.reconcilers who with
    | .extending k newHwm =>
      (if a.carriedOut then s.settle (s.metadata.updateHighWatermark k newHwm) else s).goOn who .idle
    | _ => s

end WatermarkSystem

open WatermarkSystem

/-- No watermark is lower than before, and none is gone. -/
def NoLess (before after : SegmentStore) : Prop :=
  ∀ k, ∀ high ∈ before.highWatermark k, ∃ high' ∈ after.highWatermark k, high ≤ high'

/-- The watermark of a partition is past every segment registered for it. -/
def Covered (m : SegmentStore) : Prop :=
  ∀ r ∈ m.segments, ∀ high ∈ m.highWatermark r.partition, r.info.endOffset + 1 ≤ high

/-- `offset` is not below the stored watermark. -/
def Reaches (m : SegmentStore) (k : PartitionKey) (offset : Nat) : Prop :=
  ∀ high ∈ m.highWatermark k, high ≤ offset

def Free (m : SegmentStore) (id : SegmentId) : Prop := ∀ r ∈ m.segments, r.info.id ≠ id

/-- The statement, where it takes effect, sets the watermark to no less than it is; and a
segment that is registered without setting it is already below it. -/
def InOrder (s : WatermarkSystem) (a : WatermarkStep) : Prop :=
  a.carriedOut = true →
    match a.call with
    | .updateHighWatermark k offset => Reaches s.metadata k offset
    | .roll orgId segment => Free s.metadata segment.id → Reaches s.metadata (keyOf orgId segment) (segment.endOffset + 1)
    | .reconcileAdd who orgId segment =>
      s.reconcilers who = .idle → Free s.metadata segment.id →
        ∀ high ∈ s.metadata.highWatermark (keyOf orgId segment), segment.endOffset + 1 ≤ high
    | .reconcileRead _ => True
    | .reconcileUpdate who =>
      match s.reconcilers who with
      | .extending k newHwm => Reaches s.metadata k newHwm
      | _ => True

/-! ### One statement -/

variable {m : SegmentStore} {segment : SegmentInfo} {s : WatermarkSystem}

theorem setWatermark_of_ne {k other : PartitionKey} {v : Nat} (different : other ≠ k) :
    (m.setWatermark k v).highWatermark other = m.highWatermark other :=
  Function.update_of_ne different _ _

theorem setWatermark_self (m : SegmentStore) (k : PartitionKey) (v : Nat) :
    (m.setWatermark k v).highWatermark k = (m.highWatermark k).map fun _ => v :=
  Function.update_self _ _ _

theorem NoLess.refl (m : SegmentStore) : NoLess m m := fun _ high stored => ⟨high, stored, Nat.le_refl _⟩

/-- A statement that sets the watermark of `k`, and registers nothing that it does not cover,
keeps the order exactly if it does not lower it. -/
theorem set_keeps_iff {m' : SegmentStore} {k : PartitionKey} {v : Nat} (covered : Covered m)
    (set : m'.highWatermark = (m.setWatermark k v).highWatermark)
    (rows : ∀ r ∈ m'.segments, r ∈ m.segments ∨ r.partition = k ∧ r.info.endOffset + 1 ≤ v) :
    (NoLess m m' ∧ Covered m') ↔ Reaches m k v := by
  constructor
  · rintro ⟨noLess, -⟩ high stored
    obtain ⟨high', after, le⟩ := noLess k high stored
    rw [set, setWatermark_self, mem_def.1 stored] at after
    obtain rfl := mem_some_iff.1 after
    exact le
  · intro reaches
    constructor
    · intro other high stored
      rw [set]
      by_cases same : other = k
      · subst same
        rw [setWatermark_self, mem_def.1 stored]
        exact ⟨v, rfl, reaches high stored⟩
      · rw [setWatermark_of_ne same]
        exact ⟨high, stored, Nat.le_refl _⟩
    · intro r member high stored
      rw [set] at stored
      by_cases same : r.partition = k
      · rw [same, setWatermark_self] at stored
        obtain ⟨before, present, rfl⟩ := map_eq_some_iff.1 (mem_def.1 stored)
        obtain old | ⟨-, below⟩ := rows r member
        · have past := covered r old before (by rw [same]; exact present)
          have raised := reaches before present
          omega
        · exact below
      · rw [setWatermark_of_ne same] at stored
        obtain old | ⟨inside, -⟩ := rows r member
        · exact covered r old high stored
        · exact absurd inside same

/-- A segment registered alone keeps the order exactly if the watermark is past it already. -/
theorem add_keeps_iff {m' : SegmentStore} {orgId : String} (covered : Covered m)
    (added : m.addSegment orgId segment = .ok m') :
    (NoLess m m' ∧ Covered m') ↔ ∀ high ∈ m.highWatermark (keyOf orgId segment), segment.endOffset + 1 ≤ high := by
  obtain ⟨rfl, -⟩ := insert_ok added
  constructor
  · rintro ⟨-, after⟩ high stored
    exact after ⟨orgId, segment⟩ (by simp) high stored
  · intro past
    refine ⟨NoLess.refl m, ?_⟩
    intro r member high stored
    obtain old | new := List.mem_append.1 member
    · exact covered r old high stored
    · obtain rfl := List.mem_singleton.1 new
      exact past high stored

theorem insert_free (free : Free m segment.id) (orgId : String) :
    m.insert orgId segment = .ok { m with segments := m.segments ++ [⟨orgId, segment⟩] } := by
  have unused : m.segments.any (fun r => r.info.id == segment.id) = false := by
    rw [List.any_eq_false]
    intro r member same
    exact free r member (by simpa using same)
  rw [SegmentStore.insert, unused]
  rfl

theorem insert_taken (taken : ¬ Free m segment.id) (orgId : String) : m.insert orgId segment = .error .uniqueViolation := by
  cases inserted : m.insert orgId segment with
  | ok m' => exact absurd (insert_ok inserted).2 taken
  | error e =>
    unfold SegmentStore.insert at inserted
    split at inserted
    · exact inserted.symm ▸ rfl
    · cases inserted

/-- What a step must do to the store for the watermark to be right. -/
def Keeps (s : WatermarkSystem) (a : WatermarkStep) : Prop :=
  NoLess s.metadata (s.step a).metadata ∧ Covered (s.step a).metadata

theorem keeps_of_unchanged {a : WatermarkStep} (covered : Covered s.metadata)
    (same : (s.step a).metadata = s.metadata) : Keeps s a := by
  unfold Keeps
  rw [same]
  exact ⟨NoLess.refl _, covered⟩

theorem update_keeps_iff (covered : Covered s.metadata) (k : PartitionKey) (offset : Nat) :
    (NoLess s.metadata (s.settle (s.metadata.updateHighWatermark k offset)).metadata ∧
      Covered (s.settle (s.metadata.updateHighWatermark k offset)).metadata) ↔ Reaches s.metadata k offset := by
  cases present : s.metadata.highWatermark k with
  | none =>
    have failed : s.metadata.updateHighWatermark k offset = .error .partitionNotFound := by
      rw [updateHighWatermark, present]
      rfl
    rw [failed]
    refine iff_of_true ⟨NoLess.refl _, covered⟩ ?_
    intro high stored
    rw [present] at stored
    cases stored
  | some high =>
    have done : s.metadata.updateHighWatermark k offset = .ok (s.metadata.setWatermark k offset) := by
      rw [updateHighWatermark, present]
      rfl
    rw [done]
    exact set_keeps_iff covered rfl fun r member => .inl member

theorem roll_keeps_iff (covered : Covered s.metadata) (orgId : String) (segment : SegmentInfo) :
    (NoLess s.metadata (s.settle (s.metadata.addSegmentAndUpdateWatermark orgId segment (segment.endOffset + 1))).metadata ∧
      Covered (s.settle (s.metadata.addSegmentAndUpdateWatermark orgId segment (segment.endOffset + 1))).metadata) ↔
      (Free s.metadata segment.id → Reaches s.metadata (keyOf orgId segment) (segment.endOffset + 1)) := by
  by_cases free : Free s.metadata segment.id
  · rw [addSegmentAndUpdateWatermark, insert_free free]
    rw [forall_prop_of_true free]
    refine set_keeps_iff covered rfl ?_
    intro r member
    obtain old | new := List.mem_append.1 member
    · exact .inl old
    · obtain rfl := List.mem_singleton.1 new
      exact .inr ⟨rfl, Nat.le_refl _⟩
  · rw [addSegmentAndUpdateWatermark, insert_taken free]
    exact iff_of_true ⟨NoLess.refl _, covered⟩ fun taken => absurd taken free

theorem reconcileAdd_keeps_iff (covered : Covered s.metadata) (who : Nat) (orgId : String) (segment : SegmentInfo) :
    Keeps s ⟨.reconcileAdd who orgId segment, true⟩ ↔
      (s.reconcilers who = .idle → Free s.metadata segment.id →
        ∀ high ∈ s.metadata.highWatermark (keyOf orgId segment), segment.endOffset + 1 ≤ high) := by
  by_cases idle : s.reconcilers who = .idle
  · rw [forall_prop_of_true idle]
    by_cases free : Free s.metadata segment.id
    · have added : s.metadata.addSegment orgId segment = _ := insert_free free orgId
      rw [forall_prop_of_true free, ← add_keeps_iff covered added]
      simp only [Keeps, step, idle, added, if_true]
      rfl
    · have failed : s.metadata.addSegment orgId segment = _ := insert_taken free orgId
      refine iff_of_true (keeps_of_unchanged covered ?_) fun taken => absurd taken free
      simp only [step, idle, failed, if_true]
  · refine iff_of_true (keeps_of_unchanged covered ?_) fun started => absurd started idle
    simp only [step]

/-- **The step**: a statement keeps the watermarks right exactly if it is in order. -/
theorem keeps_iff (covered : Covered s.metadata) (a : WatermarkStep) : Keeps s a ↔ InOrder s a := by
  obtain ⟨call, carriedOut⟩ := a
  cases carriedOut with
  | false =>
    refine iff_of_true (keeps_of_unchanged covered ?_) (fun done => nomatch done)
    cases call with
    | updateHighWatermark k offset => rfl
    | roll orgId segment => rfl
    | reconcileAdd who orgId segment =>
      simp only [step]
      split <;> rfl
    | reconcileRead who =>
      simp only [step]
      split
      · split <;> rfl
      · rfl
    | reconcileUpdate who =>
      simp only [step]
      split <;> rfl
  | true =>
    unfold InOrder
    rw [forall_prop_of_true rfl]
    cases call with
    | updateHighWatermark k offset => exact update_keeps_iff covered k offset
    | roll orgId segment => exact roll_keeps_iff covered orgId segment
    | reconcileAdd who orgId segment => exact reconcileAdd_keeps_iff covered who orgId segment
    | reconcileRead who =>
      refine iff_of_true (keeps_of_unchanged covered ?_) trivial
      simp only [step]
      split
      · split <;> rfl
      · rfl
    | reconcileUpdate who =>
      show Keeps s _ ↔ match s.reconcilers who with
        | .extending k newHwm => Reaches s.metadata k newHwm
        | _ => True
      cases phase : s.reconcilers who with
      | extending k newHwm =>
        simp only [Keeps, step, phase, if_true]
        exact update_keeps_iff covered k newHwm
      | idle =>
        refine iff_of_true (keeps_of_unchanged covered ?_) trivial
        simp only [step, phase]
      | registered k newHwm =>
        refine iff_of_true (keeps_of_unchanged covered ?_) trivial
        simp only [step, phase]

/-! ### Runs -/

theorem run_keeps_iff (covered : Covered s.metadata) (steps : List WatermarkStep) :
    Meets step Keeps s steps ↔ Meets step InOrder s steps := by
  apply meets_congr (fun s : WatermarkSystem => Covered s.metadata) (fun s a covered => keeps_iff covered a) ?_ covered
  intro s a covered ordered
  exact ((keeps_iff covered a).2 ordered).2

/-- In a run from a store whose watermarks are past its segments, no watermark ever
decreases and each stays past every registered segment, exactly if each statement is in
order where it is carried out. -/
theorem watermark_iff {s : WatermarkSystem} (covered : Covered s.metadata) (steps : List WatermarkStep) :
    (∀ before a after, steps = before ++ a :: after →
      NoLess (run step s before).metadata (run step s (before ++ [a])).metadata ∧
        Covered (run step s (before ++ [a])).metadata) ↔
      Meets step InOrder s steps := by
  rw [← run_keeps_iff covered, meets_iff_forall]
  simp only [run_append, run_cons, run_nil, Keeps]

namespace Example

def events : PartitionKey := ⟨"org", "events", 0⟩

/-- One partition, nothing written. -/
def oneStore : SegmentStore := ⟨[], fun k => if k = events then some 0 else none⟩

def idleSystem : WatermarkSystem := ⟨oneStore, fun _ => .idle⟩

def eventSegment (baseOffset endOffset : Nat) : SegmentInfo :=
  ⟨.segment "events" 0 baseOffset, "events", 0, baseOffset, endOffset, endOffset - baseOffset + 1, 100, "bucket",
    .segment .data "events" 0 baseOffset, 0, 0, 0⟩

/-- A writer rolls offsets 0 to 9; another, opened before, rolls 5 and 6. -/
def staleRun : List WatermarkStep :=
  [⟨.roll "org" (eventSegment 0 9), true⟩, ⟨.roll "org" (eventSegment 5 6), true⟩]

/-- A writer rolls, and a reconciler finds an older object. -/
def orderedRun : List WatermarkStep :=
  [⟨.roll "org" (eventSegment 0 9), true⟩, ⟨.reconcileAdd 0 "org" (eventSegment 5 6), true⟩, ⟨.reconcileRead 0, true⟩]

theorem idleSystem_covered : Covered idleSystem.metadata := by
  intro r member
  cases member

end Example

open Example

theorem watermark_fails : Covered idleSystem.metadata ∧
    ¬ ∀ before a after, staleRun = before ++ a :: after →
      NoLess (run step idleSystem before).metadata
          (run step idleSystem (before ++ [a])).metadata ∧
        Covered (run step idleSystem (before ++ [a])).metadata := by
  refine ⟨idleSystem_covered, ?_⟩
  intro every
  obtain ⟨noLess, -⟩ := every [⟨.roll "org" (eventSegment 0 9), true⟩] _ [] rfl
  obtain ⟨high, stored, le⟩ := noLess events 10 (by decide)
  have lowered : (run step idleSystem staleRun).metadata.highWatermark events = some 7 := by
    decide
  obtain rfl := some.inj (lowered.symm.trans stored)
  omega

theorem watermark_iff_in_order :
    NoLess (idleSystem.step ⟨.roll "org" (eventSegment 0 9), true⟩).metadata
        (run step idleSystem (orderedRun.take 2)).metadata ∧
      Covered (run step idleSystem (orderedRun.take 2)).metadata := by
  have ordered : Meets step InOrder idleSystem orderedRun := by
    refine ⟨?_, ?_, fun _ => trivial, trivial⟩
    · intro _ _ high stored
      have start : oneStore.highWatermark (keyOf "org" (eventSegment 0 9)) = some 0 := by decide
      obtain rfl := some.inj (start.symm.trans stored)
      decide
    · intro _ _ _ high stored
      have rolled : (idleSystem.step ⟨.roll "org" (eventSegment 0 9), true⟩).metadata.highWatermark
          (keyOf "org" (eventSegment 5 6)) = some 10 := by
        decide
      obtain rfl := some.inj (rolled.symm.trans stored)
      decide
  exact (watermark_iff idleSystem_covered orderedRun).2 ordered
    [⟨.roll "org" (eventSegment 0 9), true⟩] ⟨.reconcileAdd 0 "org" (eventSegment 5 6), true⟩
    [⟨.reconcileRead 0, true⟩] rfl

end StreamHouse.Metadata
