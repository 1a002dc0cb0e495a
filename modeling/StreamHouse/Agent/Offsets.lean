import StreamHouse.Agent.Produce

/-!
# Offsets stay unique while one agent writes at a time

A `View` is what one partition sees of the system: its watermark and segments, its
objects and every agent's writer for it. Each step of the system is a `Move` of one
partition's view and leaves the other views alone (`step_view`); under the condition
the moves keep `View.Inv`, whose heart is that at most one agent has unregistered
records and they lie at or above the watermark. `unique_run` carries this over runs.
-/

namespace StreamHouse.Agent
open Metadata Storage Lib List Option Function PartitionWriter SegmentStore Record Slot

variable {n : Nat}

/-- The key a segment of the partition is stored under. -/
def objectKey (k : PartitionKey) (base : Nat) : S3Key := .segment (.ofOrg k.orgId) k.topic k.partitionId base

structure View (n : Nat) where
  watermark : Option Nat
  rows : List SegmentInfo
  /-- The partition's objects, by base offset. -/
  objects : Nat → Option (List Record)
  slots : Fin n → Option Slot
  acked : List Nat

def System.view (s : System n) (k : PartitionKey) : View n where
  watermark := s.shared.metadata.highWatermark k
  rows := s.shared.metadata.rows k
  objects := fun base => s.shared.objects (objectKey k base)
  slots := fun a => s.slot a k
  acked := s.ackedOn k

/-- The records of a roll between its upload and its registration. -/
def Slot.pending (sl : Slot) : List Record := (sl.rolling.map Prod.snd).getD []

/-- A writer's unregistered records are at or above the watermark, below its next offset
and in order; the last of them are those of the roll and of the current segment. -/
structure Buffer (hw : Nat) (objects : Nat → Option (List Record)) (sl : Slot) : Prop where
  above : ∀ r ∈ sl.writer.bufferedRecords, hw ≤ r.offset
  below : ∀ r ∈ sl.writer.bufferedRecords, r.offset < sl.writer.currentOffset
  increasing : sl.writer.bufferedRecords.Pairwise fun a b => a.offset < b.offset
  split : ∃ stranded, sl.writer.bufferedRecords = stranded ++ (sl.pending ++ sl.writer.currentSegment)
  rolling : ∀ env segment, sl.rolling = some (env, segment) → sl.writer.currentSegment = [] ∧
    ∃ first, segment.head? = some first ∧ objects first.offset = some (segment.map stored)

/-- A partition at watermark `hw`. -/
structure View.At (v : View n) (hw : Nat) : Prop where
  alone : ∀ a b sa sb, v.slots a = some sa → v.slots b = some sb → a ≠ b →
    sa.writer.bufferedRecords = [] ∨ sb.writer.bufferedRecords = []
  buffers : ∀ a sl, v.slots a = some sl → Buffer hw v.objects sl
  rows : ∀ seg ∈ v.rows, seg.baseOffset < hw ∧ ∀ r ∈ (v.objects seg.baseOffset).getD [], r.offset < hw
  agree : ∀ seg ∈ v.rows, ∀ seg' ∈ v.rows, ∀ r ∈ (v.objects seg.baseOffset).getD [],
    ∀ r' ∈ (v.objects seg'.baseOffset).getD [], r.offset = r'.offset → r = r'
  acked : v.acked.Nodup
  placed : ∀ o ∈ v.acked, o < hw ∨ ∃ a sl r, v.slots a = some sl ∧ r ∈ sl.writer.bufferedRecords ∧ r.offset = o

/-- Nothing happens to a partition without a row in `partitions`. -/
structure View.Absent (v : View n) : Prop where
  slots : ∀ a, v.slots a = none
  rows : v.rows = []
  acked : v.acked = []

def View.Inv (v : View n) : Prop :=
  match v.watermark with
  | none => v.Absent
  | some hw => v.At hw

/-- Nobody but `a` has unregistered records. -/
def View.OthersEmpty (v : View n) (a : Fin n) : Prop :=
  ∀ b, b ≠ a → ∀ sl, v.slots b = some sl → sl.writer.bufferedRecords = []

def View.setSlot (v : View n) (a : Fin n) (sl : Slot) : View n := { v with slots := update v.slots a (some sl) }

/-- What a step does to the partition it is about, under the condition. -/
inductive View.Move (v : View n) : View n → Prop where
  | stay : Move v v
  | opened (a : Fin n) (w : PartitionWriter) (absent : v.slots a = none) (exists_ : v.watermark.isSome)
      (whole : w.bufferedRecords = w.currentSegment) (below : ∀ r ∈ w.bufferedRecords, r.offset < w.currentOffset)
      (increasing : w.bufferedRecords.Pairwise fun a b => a.offset < b.offset)
      (guard : w.bufferedRecords = [] ∨
        v.OthersEmpty a ∧ ∀ hw ∈ v.watermark, ∀ r ∈ w.bufferedRecords, hw ≤ r.offset) :
      Move v (v.setSlot a ⟨w, none⟩)
  | appended (a : Fin n) (w : PartitionWriter) (walNow : Nat) (records : List (Option Bytes × Bytes × Nat))
      (here : v.slots a = some ⟨w, none⟩) (others : v.OthersEmpty a) (reached : ∀ hw ∈ v.watermark, hw ≤ w.currentOffset) :
      Move v { v.setSlot a ⟨w.accepted walNow records, none⟩ with
        acked := v.acked ++ (assign w.currentOffset records).map offset }
  | skipped (a : Fin n) (w : PartitionWriter) (count : Nat) (here : v.slots a = some ⟨w, none⟩) :
      Move v (v.setSlot a ⟨w.skipped count, none⟩)
  | uploadFailed (a : Fin n) (w : PartitionWriter) (here : v.slots a = some ⟨w, none⟩) :
      Move v (v.setSlot a ⟨{ w with currentSegment := [] }, none⟩)
  | uploaded (a : Fin n) (w : PartitionWriter) (env : RollEnv) (first : Record) (here : v.slots a = some ⟨w, none⟩)
      (head : w.currentSegment.head? = some first) :
      Move v { v.setSlot a ⟨{ w with currentSegment := [] }, some (env, w.currentSegment)⟩ with
        objects := update v.objects first.offset (some (w.currentSegment.map stored)) }
  | registerFailed (a : Fin n) (w : PartitionWriter) (env : RollEnv) (segment : List Record)
      (here : v.slots a = some ⟨w, some (env, segment)⟩) : Move v (v.setSlot a ⟨w, none⟩)
  | registered (a : Fin n) (w : PartitionWriter) (env : RollEnv) (segment : List Record) (first last : Record)
      (here : v.slots a = some ⟨w, some (env, segment)⟩) (head : segment.head? = some first)
      (tail : segment.getLast? = some last) :
      Move v { v.setSlot a ⟨(w.settle env).2, none⟩ with
        watermark := v.watermark.map fun _ => last.offset + 1
        rows := v.rows ++ [w.segmentInfo env first last segment.length] }

namespace View

@[simp] theorem setSlot_self (v : View n) (a : Fin n) (sl : Slot) : (v.setSlot a sl).slots a = some sl := by
  simp [setSlot]

variable {a : Fin n}

theorem setSlot_of_ne (v : View n) {b : Fin n} (sl : Slot) (other : b ≠ a) : (v.setSlot a sl).slots b = v.slots b := by
  simp [setSlot, other]

variable {v : View n} {sl : Slot} {hw : Nat} {w : PartitionWriter} {k : PartitionKey}

/-- A slot after a change is the new one or was there before. -/
theorem setSlot_cases {b : Fin n} {sb : Slot} (found : (v.setSlot a sl).slots b = some sb) :
    b = a ∧ sb = sl ∨ b ≠ a ∧ v.slots b = some sb := by
  by_cases same : b = a
  · subst same
    rw [setSlot_self] at found
    exact .inl ⟨rfl, (some.inj found).symm⟩
  · rw [setSlot_of_ne v sl same] at found
    exact .inr ⟨same, found⟩

/-- If the changed slot has no records that another agent could clash with, at most one agent has any. -/
theorem At.alone_setSlot (at_ : v.At hw) (guard : sl.writer.bufferedRecords = [] ∨ v.OthersEmpty a) :
    ∀ b c sb sc, (v.setSlot a sl).slots b = some sb → (v.setSlot a sl).slots c = some sc → b ≠ c →
      sb.writer.bufferedRecords = [] ∨ sc.writer.bufferedRecords = [] := by
  intro b c sb sc foundB foundC apart
  rcases setSlot_cases foundB with ⟨rfl, rfl⟩ | ⟨other, oldB⟩
  · rcases setSlot_cases foundC with ⟨rfl, -⟩ | ⟨otherC, oldC⟩
    · exact absurd rfl apart
    · exact guard.imp id fun others => others c otherC sc oldC
  · rcases setSlot_cases foundC with ⟨rfl, rfl⟩ | ⟨otherC, oldC⟩
    · exact (guard.imp id fun others => others b other sb oldB).symm
    · exact at_.alone b c sb sc oldB oldC apart

/-- Nobody else has records while `a` does. -/
theorem At.othersEmpty (at_ : v.At hw) (here : v.slots a = some sl)
    (some_ : sl.writer.bufferedRecords ≠ []) : v.OthersEmpty a := by
  intro b other sb found
  rcases at_.alone a b sl sb here found (Ne.symm other) with empty | empty
  · exact absurd empty some_
  · exact empty

/-- Acknowledged records stay where they are if the changed slot keeps its own. -/
theorem At.placed_setSlot (at_ : v.At hw) {new : Slot}
    (keeps : ∀ old, v.slots a = some old → ∀ r ∈ old.writer.bufferedRecords, r ∈ new.writer.bufferedRecords) :
    ∀ o ∈ v.acked, o < hw ∨
      ∃ b sl r, (v.setSlot a new).slots b = some sl ∧ r ∈ sl.writer.bufferedRecords ∧ r.offset = o := by
  intro o member
  rcases at_.placed o member with small | ⟨b, sl, r, found, buffered, offset⟩
  · exact .inl small
  · by_cases mine : b = a
    · subst mine
      exact .inr ⟨b, new, r, setSlot_self v b new, keeps sl found r buffered, offset⟩
    · exact .inr ⟨b, sl, r, by rw [setSlot_of_ne v new mine]; exact found, buffered, offset⟩

/-- A slot that keeps its records, in a view that is otherwise the same. -/
theorem At.setSlot (at_ : v.At hw) {old : Slot} (new : Slot)
    (here : v.slots a = some old) (same : new.writer.bufferedRecords = old.writer.bufferedRecords) (buffer : Buffer hw v.objects new) :
    (v.setSlot a new).At hw := by
  refine ⟨at_.alone_setSlot ?_, ?_, at_.rows, at_.agree, at_.acked, ?_⟩
  · rw [same]
    by_cases empty : old.writer.bufferedRecords = []
    · exact .inl empty
    · exact .inr (at_.othersEmpty here empty)
  · intro b sl found
    rcases setSlot_cases found with ⟨rfl, rfl⟩ | ⟨-, earlier⟩
    · exact buffer
    · exact at_.buffers b sl earlier
  · apply at_.placed_setSlot
    intro sl found r buffered
    rw [here] at found
    cases found
    rw [same]
    exact buffered

theorem At.opened (at_ : v.At hw) (absent : v.slots a = none)
    (whole : w.bufferedRecords = w.currentSegment) (below : ∀ r ∈ w.bufferedRecords, r.offset < w.currentOffset)
    (increasing : w.bufferedRecords.Pairwise fun a b => a.offset < b.offset)
    (guard : w.bufferedRecords = [] ∨ v.OthersEmpty a ∧ ∀ r ∈ w.bufferedRecords, hw ≤ r.offset) :
    (v.setSlot a ⟨w, none⟩).At hw := by
  refine ⟨at_.alone_setSlot (guard.imp id And.left), ?_, at_.rows, at_.agree, at_.acked, ?_⟩
  · intro b sl found
    rcases setSlot_cases found with ⟨rfl, rfl⟩ | ⟨-, earlier⟩
    · refine ⟨?_, below, increasing, ⟨[], by simp [whole, pending]⟩, by simp⟩
      rcases guard with empty | ⟨-, above⟩
      · simp [empty]
      · exact above
    · exact at_.buffers b sl earlier
  · apply at_.placed_setSlot
    intro sl found
    rw [absent] at found
    cases found

/-- Where nobody else has anything, an acknowledged offset is registered or in the writer's own buffer. -/
theorem At.placed_own (at_ : v.At hw) (here : v.slots a = some sl)
    (others : v.OthersEmpty a) : ∀ o ∈ v.acked, o < hw ∨ ∃ r ∈ sl.writer.bufferedRecords, r.offset = o := by
  intro o member
  rcases at_.placed o member with small | ⟨b, sl', r, found, buffered, offset⟩
  · exact .inl small
  · by_cases mine : b = a
    · subst mine
      rw [here] at found
      cases found
      exact .inr ⟨r, buffered, offset⟩
    · rw [others b mine sl' found] at buffered
      cases buffered

theorem At.appended (at_ : v.At hw) (walNow : Nat)
    (records : List (Option Bytes × Bytes × Nat)) (here : v.slots a = some ⟨w, none⟩) (others : v.OthersEmpty a)
    (reached : hw ≤ w.currentOffset) :
    View.At { v.setSlot a ⟨w.accepted walNow records, none⟩ with
      acked := v.acked ++ (assign w.currentOffset records).map offset } hw := by
  obtain ⟨above, below, increasing, ⟨stranded, split⟩, -⟩ := at_.buffers a _ here
  refine ⟨at_.alone_setSlot (.inr others), ?_, at_.rows, at_.agree, ?_, ?_⟩
  · intro b sl found
    rcases setSlot_cases found with ⟨rfl, rfl⟩ | ⟨-, earlier⟩
    · refine ⟨?_, ?_, ?_, ⟨stranded, ?_⟩, by simp⟩
      · intro r member
        rcases mem_append.mp member with old | new
        · exact above r old
        · exact Nat.le_trans reached (assign_bounds new).1
      · intro r member
        rcases mem_append.mp member with old | new
        · exact Nat.lt_of_lt_of_le (below r old) (Nat.le_add_right _ _)
        · exact (assign_bounds new).2
      · refine List.pairwise_append.mpr ⟨increasing, assign_increasing _ _, ?_⟩
        intro r old r' new
        exact Nat.lt_of_lt_of_le (below r old) (assign_bounds new).1
      · simp only [pending, map_none, getD_none, nil_append] at split
        simp [split, pending]
    · exact at_.buffers b sl earlier
  · -- an offset acknowledged before is registered, or buffered by this writer and below its next offset
    refine nodup_append'.mpr ⟨at_.acked, ?_, ?_⟩
    · rw [assign_offsets]
      exact nodup_range'
    · intro o old new
      rw [assign_offsets, mem_range'_1] at new
      rcases at_.placed_own here others o old with small | ⟨r, buffered, rfl⟩
      · omega
      · have := below r buffered
        simp only at this
        omega
  · intro o member
    rcases mem_append.mp member with old | new
    · refine at_.placed_setSlot ?_ o old
      intro sl found r buffered
      rw [here] at found
      cases found
      exact mem_append_left _ buffered
    · obtain ⟨r, assigned, offset⟩ := mem_map.mp new
      exact .inr ⟨a, _, r, setSlot_self v a _, mem_append_right _ assigned, offset⟩

/-- An upload lands above all registered segments, and no other roll is under way. -/
theorem At.uploaded (at_ : v.At hw) (env : RollEnv)
    {first : Record} (here : v.slots a = some ⟨w, none⟩) (head : w.currentSegment.head? = some first) :
    View.At { v.setSlot a ⟨{ w with currentSegment := [] }, some (env, w.currentSegment)⟩ with
      objects := update v.objects first.offset (some (w.currentSegment.map stored)) } hw := by
  have buffer := at_.buffers a _ here
  obtain ⟨stranded, split⟩ := buffer.split
  simp only [pending, map_none, getD_none, nil_append] at split
  have buffered : first ∈ w.bufferedRecords := by
    rw [split]
    exact mem_append_right _ (mem_of_head? head)
  have some_ : w.bufferedRecords ≠ [] := ne_nil_of_mem buffered
  have others := at_.othersEmpty here some_
  have high : hw ≤ first.offset := buffer.above first buffered
  have kept : ∀ seg ∈ v.rows,
      update v.objects first.offset (some (w.currentSegment.map stored)) seg.baseOffset =
        v.objects seg.baseOffset := by
    intro seg row
    have low := (at_.rows seg row).1
    exact update_of_ne (by omega) _ _
  refine ⟨at_.alone_setSlot (.inr others), ?_, ?_, ?_, at_.acked, ?_⟩
  · intro b sl found
    rcases setSlot_cases found with ⟨rfl, rfl⟩ | ⟨other, earlier⟩
    · refine ⟨buffer.above, buffer.below, buffer.increasing, ⟨stranded, by simp [pending, split]⟩, ?_⟩
      intro env' segment rolling
      cases rolling
      exact ⟨rfl, first, head, update_self _ _ _⟩
    · have theirs := at_.buffers b sl earlier
      refine ⟨theirs.above, theirs.below, theirs.increasing, theirs.split, ?_⟩
      intro env' segment rolling
      obtain ⟨-, x, head', -⟩ := theirs.rolling env' segment rolling
      obtain ⟨stranded', split'⟩ := theirs.split
      rw [others b other sl earlier] at split'
      simp only [pending, rolling, map_some, getD_some] at split'
      have empty : segment = [] := by
        have := (append_eq_nil_iff.mp split'.symm).2
        exact (append_eq_nil_iff.mp this).1
      rw [empty] at head'
      cases head'
  · intro seg row
    simp only [kept seg row]
    exact at_.rows seg row
  · intro seg row seg' row'
    simp only [kept seg row, kept seg' row']
    exact at_.agree seg row seg' row'
  · apply at_.placed_setSlot
    intro sl found
    rw [here] at found
    cases found
    exact fun r member => member

/-- In a list of increasing offsets an offset names its record. -/
theorem eq_of_offset {rs : List Record} (increasing : rs.Pairwise fun a b => a.offset < b.offset) {r r' : Record}
    (member : r ∈ rs) (member' : r' ∈ rs) (same : r.offset = r'.offset) : r = r' := by
  have distinct : (rs.map offset).Nodup := pairwise_map.mpr (increasing.imp Nat.ne_of_lt)
  exact inj_on_of_nodup_map distinct member member' same

/-- The last record of the end of such a list is the last of all. -/
theorem le_last {rs stranded segment : List Record} {last : Record} (increasing : rs.Pairwise fun a b => a.offset < b.offset)
    (split : rs = stranded ++ segment) (tail : segment.getLast? = some last) : ∀ r ∈ rs, r.offset ≤ last.offset := by
  obtain ⟨front, shape⟩ := getLast?_eq_some_iff.mp tail
  have whole : rs = (stranded ++ front) ++ [last] := by rw [split, shape, append_assoc]
  rw [whole, List.pairwise_append] at increasing
  intro r member
  rw [whole] at member
  rcases mem_append.mp member with earlier | final
  · exact Nat.le_of_lt (increasing.2.2 r earlier last mem_cons_self)
  · rw [mem_singleton.mp final]

/-- A segment above the watermark agrees with those that are registered. -/
theorem At.agree_append (at_ : v.At hw) {new : SegmentInfo} {records : List Record}
    (object : (v.objects new.baseOffset).getD [] = records) (above : ∀ r ∈ records, hw ≤ r.offset)
    (increasing : records.Pairwise fun a b => a.offset < b.offset) :
    ∀ seg ∈ v.rows ++ [new], ∀ seg' ∈ v.rows ++ [new], ∀ r ∈ (v.objects seg.baseOffset).getD [],
      ∀ r' ∈ (v.objects seg'.baseOffset).getD [], r.offset = r'.offset → r = r' := by
  intro seg row seg' row' r member r' member' same
  rcases mem_append.mp row with old | added
  · rcases mem_append.mp row' with old' | added'
    · exact at_.agree seg old seg' old' r member r' member' same
    · obtain rfl := mem_singleton.mp added'
      have := (at_.rows seg old).2 r member
      have := above r' (object ▸ member')
      omega
  · obtain rfl := mem_singleton.mp added
    rcases mem_append.mp row' with old' | added'
    · have := (at_.rows seg' old').2 r' member'
      have := above r (object ▸ member)
      omega
    · obtain rfl := mem_singleton.mp added'
      exact eq_of_offset increasing (object ▸ member) (object ▸ member') same

/-- A registration moves the watermark past everything its writer had, and nobody
else had anything. -/
theorem At.registered (at_ : v.At hw) {env : RollEnv}
    {segment : List Record} {first last : Record} (here : v.slots a = some ⟨w, some (env, segment)⟩)
    (head : segment.head? = some first) (tail : segment.getLast? = some last) :
    View.At { v.setSlot a ⟨(w.settle env).2, none⟩ with
      watermark := v.watermark.map fun _ => last.offset + 1
      rows := v.rows ++ [w.segmentInfo env first last segment.length] } (last.offset + 1) := by
  have buffer := at_.buffers a _ here
  obtain ⟨current, first', head', stored⟩ := buffer.rolling env segment rfl
  obtain rfl : first' = first := some.inj (head'.symm.trans head)
  replace current : w.currentSegment = [] := current
  obtain ⟨stranded, split⟩ := buffer.split
  simp only [pending, map_some, getD_some, current, append_nil] at split
  obtain ⟨settledSegment, settledBuffer, settledOffset, -⟩ := settle_writer env w
  have inBuffer : ∀ r ∈ segment, r ∈ w.bufferedRecords := fun r member => split ▸ mem_append_right _ member
  have others : v.OthersEmpty a := at_.othersEmpty here (ne_nil_of_mem (inBuffer _ (mem_of_head? head)))
  have low : hw ≤ last.offset := buffer.above last (inBuffer last (mem_of_getLast? tail))
  have ends : ∀ r ∈ w.bufferedRecords, r.offset ≤ last.offset := le_last buffer.increasing split tail
  have increasing : (segment.map Record.stored).Pairwise fun a b => a.offset < b.offset := by
    have whole := buffer.increasing
    simp only [split] at whole
    exact pairwise_map.mpr (List.pairwise_append.mp whole).2.1
  have object : (v.objects first'.offset).getD [] = segment.map Record.stored := by rw [stored]; rfl
  have bounds : ∀ r ∈ segment.map Record.stored, hw ≤ r.offset ∧ r.offset ≤ last.offset := by
    intro r member
    obtain ⟨x, here, rfl⟩ := mem_map.mp member
    exact ⟨buffer.above x (inBuffer x here), ends x (inBuffer x here)⟩
  refine ⟨at_.alone_setSlot (.inl settledBuffer), ?_, ?_, ?_, at_.acked, ?_⟩
  · intro b sl found
    rcases setSlot_cases found with ⟨rfl, rfl⟩ | ⟨other, earlier⟩
    · refine ⟨by simp [settledBuffer], by simp [settledBuffer], by simp [settledBuffer], ⟨[], ?_⟩, by simp⟩
      simp [settledBuffer, settledSegment, current, pending]
    · have theirs := at_.buffers b sl earlier
      have empty := others b other sl earlier
      exact ⟨by simp [empty], by simp [empty], theirs.increasing, theirs.split, theirs.rolling⟩
  · intro seg row
    rcases mem_append.mp row with old | new
    · obtain ⟨base, records⟩ := at_.rows seg old
      refine ⟨by omega, fun r member => ?_⟩
      have := records r member
      omega
    · obtain rfl := mem_singleton.mp new
      have base := ends first' (inBuffer first' (mem_of_head? head))
      refine ⟨Nat.lt_succ_of_le base, fun r member => Nat.lt_succ_of_le (bounds r ?_).2⟩
      exact object ▸ member
  · exact at_.agree_append object (fun r member => (bounds r member).1) increasing
  · intro o member
    refine .inl ?_
    rcases at_.placed_own here others o member with small | ⟨r, buffered, rfl⟩
    · omega
    · exact Nat.lt_succ_of_le (ends r buffered)

theorem At.inv (at_ : v.At hw) (watermark : v.watermark = some hw) : v.Inv := by
  unfold Inv
  rw [watermark]
  exact at_

/-- **The moves keep the invariant.** -/
theorem Move.inv {v' : View n} (move : Move v v') (inv : v.Inv) : v'.Inv := by
  cases found : v.watermark with
  | none =>
    -- nobody has a writer for a partition that does not exist
    have absent : v.Absent := by simpa only [Inv, found] using inv
    have nobody := absent.slots
    cases move with
    | stay => exact inv
    | opened a w _ exists_ => simp [found] at exists_
    | appended a w walNow records here => simp [nobody a] at here
    | skipped a w count here => simp [nobody a] at here
    | uploadFailed a w here => simp [nobody a] at here
    | uploaded a w env first here => simp [nobody a] at here
    | registerFailed a w env segment here => simp [nobody a] at here
    | registered a w env segment first last here => simp [nobody a] at here
  | some hw =>
    have at_ : v.At hw := by simpa only [Inv, found] using inv
    cases move with
    | stay => exact inv
    | opened a w absent exists_ whole below increasing guard =>
      have above := guard.imp id (And.imp id fun above => above hw found)
      exact (at_.opened absent whole below increasing above).inv found
    | appended a w walNow records here others reached =>
      exact (at_.appended walNow records here others (reached hw found)).inv found
    | skipped a w count here =>
      obtain ⟨above, below, increasing, split, -⟩ := at_.buffers a _ here
      have later : ∀ r ∈ w.bufferedRecords, r.offset < w.currentOffset + count :=
        fun r member => Nat.lt_of_lt_of_le (below r member) (Nat.le_add_right _ _)
      exact (at_.setSlot ⟨w.skipped count, none⟩ here rfl ⟨above, later, increasing, split, by simp⟩).inv found
    | uploadFailed a w here =>
      obtain ⟨above, below, increasing, -, -⟩ := at_.buffers a _ here
      exact (at_.setSlot ⟨{ w with currentSegment := [] }, none⟩ here rfl
        ⟨above, below, increasing, ⟨w.bufferedRecords, by simp [pending]⟩, by simp⟩).inv found
    | uploaded a w env first here head => exact (at_.uploaded env here head).inv found
    | registerFailed a w env segment here =>
      obtain ⟨above, below, increasing, -, rolling⟩ := at_.buffers a _ here
      have current : w.currentSegment = [] := (rolling env segment rfl).1
      exact (at_.setSlot ⟨w, none⟩ here rfl
        ⟨above, below, increasing, ⟨w.bufferedRecords, by simp [pending, current]⟩, by simp⟩).inv found
    | registered a w env segment first last here head tail =>
      exact (at_.registered here head tail).inv (by simp [found])

end View

/-! ## Steps are moves -/

theorem objectKey_injective {k' : PartitionKey} {base base' : Nat} (same : objectKey k base = objectKey k' base') :
    k = k' ∧ base = base' := by
  obtain ⟨org, topic, pid⟩ := k
  obtain ⟨org', topic', pid'⟩ := k'
  simp only [objectKey, S3Key.segment.injEq, DataPrefix.ofOrg] at same
  obtain ⟨prefixes, rfl, rfl, rfl⟩ := same
  have orgs : org = org' := by
    by_cases empty : org = ""
    · by_cases empty' : org' = ""
      · rw [empty, empty']
      · simp [empty, empty'] at prefixes
    · by_cases empty' : org' = ""
      · simp [empty, empty'] at prefixes
      · simpa [empty, empty'] using prefixes
  exact ⟨by rw [orgs], rfl⟩

namespace System

/-- What every run keeps: writers and rows are where their names say, and a partition
whose writer is being opened exists and has none yet. -/
structure Wf (s : System n) : Prop where
  writers : ∀ a k sl, s.slot a k = some sl → sl.writer.partition = k ∧ sl.writer.s3DataPrefix = .ofOrg k.orgId
  rows : ∀ row ∈ s.shared.metadata.segments, row.info.s3Key = objectKey row.partition row.info.baseOffset
  opening : ∀ a k m, (s.pools a).opening = some (k, m) → s.slot a k = none ∧
    ((m.highWatermark k).isSome → (s.shared.metadata.highWatermark k).isSome)

theorem slot_setSlot_self (s : System n) (a : Fin n) (k : PartitionKey) (sl : Slot) :
    (s.setSlot a k sl).slot a k = some sl := by
  simp [setSlot, setPool, slot]

theorem slot_setSlot_of_ne (s : System n) {a b : Fin n} {k' : PartitionKey} (sl : Slot) (other : b ≠ a ∨ k' ≠ k) :
    (s.setSlot a k sl).slot b k' = s.slot b k' := by
  by_cases same : b = a
  · subst same
    have apart : k' ≠ k := other.resolve_left (fun apart => apart rfl)
    simp [setSlot, setPool, slot, apart]
  · simp [setSlot, setPool, slot, same]

/-- The view of the partition whose slot was set. -/
theorem slots_setSlot (s : System n) (a : Fin n) (k : PartitionKey) (sl : Slot) :
    (fun b => (s.setSlot a k sl).slot b k) = update (fun b => s.slot b k) a (some sl) := by
  funext b
  by_cases same : b = a
  · subst same
    rw [slot_setSlot_self, update_self]
  · rw [slot_setSlot_of_ne s sl (.inl same), update_of_ne same]

theorem view_setSlot (s : System n) (a : Fin n) (k : PartitionKey) (sl : Slot) :
    (s.setSlot a k sl).view k = (s.view k).setSlot a sl := by
  simp only [view, View.setSlot, slots_setSlot]
  rfl

theorem view_setSlot_of_ne (s : System n) (a : Fin n) {k' : PartitionKey} (sl : Slot) (other : k' ≠ k) :
    (s.setSlot a k sl).view k' = s.view k' := by
  simp only [view, slot_setSlot_of_ne s sl (.inr other)]
  rfl

theorem ackedOn_append (s : System n) (k k' : PartitionKey) (offsets : List Nat) :
    ackedOn { s with acked := s.acked ++ offsets.map fun o => (k, o) } k' =
      s.ackedOn k' ++ if k = k' then offsets else [] := by
  unfold ackedOn
  by_cases same : k = k'
  · simp [same, filterMap_append, filterMap_map]
  · simp [same, filterMap_append, filterMap_map]

@[simp] theorem setSlot_opening (s : System n) (a b : Fin n) (k : PartitionKey) (sl : Slot) :
    ((s.setSlot a k sl).pools b).opening = (s.pools b).opening := by
  by_cases same : b = a
  · subst same
    simp [setSlot, setPool]
  · simp [setSlot, setPool, same]

variable {s : System n}

/-- Setting a slot that is not being opened keeps the system well formed. -/
theorem Wf.setSlot (wf : s.Wf) {a : Fin n} (sl : Slot)
    (names : sl.writer.partition = k ∧ sl.writer.s3DataPrefix = .ofOrg k.orgId)
    (free : ∀ m, (s.pools a).opening ≠ some (k, m)) : (s.setSlot a k sl).Wf := by
  refine ⟨?_, wf.rows, ?_⟩
  · intro b k' sb found
    by_cases same : b = a ∧ k' = k
    · obtain ⟨rfl, rfl⟩ := same
      rw [slot_setSlot_self] at found
      cases found
      exact names
    · rw [slot_setSlot_of_ne s sl (not_and_or.mp same)] at found
      exact wf.writers b k' sb found
  · intro b k' m opening
    rw [setSlot_opening] at opening
    obtain ⟨absent, exists_⟩ := wf.opening b k' m opening
    refine ⟨?_, exists_⟩
    rw [slot_setSlot_of_ne s sl, absent]
    by_cases same : b = a
    · subst same
      refine .inr ?_
      rintro rfl
      exact free m opening
    · exact .inl same

/-- A partition with a writer is not being opened. -/
theorem Wf.free (wf : s.Wf) {a : Fin n} (here : s.slot a k = some sl) : ∀ m, (s.pools a).opening ≠ some (k, m) := by
  intro m opening
  have absent := (wf.opening a k m opening).1
  rw [here] at absent
  cases absent

/-- What a step has to show: the system stays well formed and every partition moves. -/
structure Moves (s after : System n) : Prop where
  wf : after.Wf
  moves : ∀ k, View.Move (s.view k) (after.view k)

/-- A step that touches one writer and nothing else. -/
theorem Moves.ofSlot (wf : s.Wf) {a : Fin n} {old : Slot} (new : Slot) (here : s.slot a k = some old)
    (names : new.writer.partition = old.writer.partition ∧ new.writer.s3DataPrefix = old.writer.s3DataPrefix)
    (move : View.Move (s.view k) ((s.view k).setSlot a new)) : Moves s (s.setSlot a k new) := by
  obtain ⟨partition, prefix_⟩ := wf.writers a k old here
  refine ⟨wf.setSlot new ⟨names.1.trans partition, names.2.trans prefix_⟩ (wf.free here), ?_⟩
  intro k'
  by_cases same : k' = k
  · subst same
    rw [view_setSlot]
    exact move
  · rw [view_setSlot_of_ne s a new same]
    exact .stay

theorem Moves.stay {after : System n} (wf : after.Wf) (same : ∀ k, after.view k = s.view k) : Moves s after :=
  ⟨wf, fun k => by rw [same k]; exact .stay⟩

/-- The views after an append that was acknowledged. -/
theorem view_acked (s : System n) (a : Fin n) (k k' : PartitionKey) (sl : Slot) (offsets : List Nat)
    (requests : List (ProduceRequest n)) :
    view { s.setSlot a k sl with acked := s.acked ++ offsets.map (fun o => (k, o)), requests := requests } k' =
      if k = k' then { (s.view k').setSlot a sl with acked := s.ackedOn k' ++ offsets } else s.view k' := by
  have acked := ackedOn_append s k k' offsets
  by_cases same : k = k'
  · subst same
    rw [if_pos rfl] at acked ⊢
    rw [← view_setSlot, ← acked]
    rfl
  · rw [if_neg same] at acked ⊢
    rw [← view_setSlot_of_ne s a sl (Ne.symm same)]
    rw [append_nil] at acked
    exact congrArg (fun x => { (s.setSlot a k sl).view k' with acked := x }) acked

/-- The system after a request left the queue is the same to every partition. -/
theorem Moves.requests {after : System n} (moves : Moves s after) (requests : List (ProduceRequest n)) :
    Moves s { after with requests := requests } :=
  ⟨⟨moves.wf.writers, moves.wf.rows, moves.wf.opening⟩, moves.moves⟩

/-- An accepted batch. -/
theorem Moves.accepted (wf : s.Wf) {a : Fin n} (walNow : Nat)
    (records : List (Option Bytes × Bytes × Nat)) (requests : List (ProduceRequest n)) (here : s.slot a k = some ⟨w, none⟩)
    (others : s.OthersEmpty a k) (reached : s.Reached k w.currentOffset) :
    Moves s { s.setSlot a k ⟨w.accepted walNow records, none⟩ with
      acked := s.acked ++ ((assign w.currentOffset records).map offset).map (fun o => (k, o))
      requests := requests } := by
  have names := wf.writers a k ⟨w, none⟩ here
  have placed := wf.setSlot ⟨w.accepted walNow records, none⟩ names (wf.free here)
  refine ⟨⟨placed.writers, placed.rows, placed.opening⟩, ?_⟩
  intro k'
  rw [view_acked]
  by_cases same : k = k'
  · subst same
    rw [if_pos rfl]
    exact .appended a w walNow records here (fun b other sb found => others b other sb found) reached
  · rw [if_neg same]
    exact .stay

theorem moves_append (wf : s.Wf) {i : Nat} {walOk : Bool} {walNow : Nat}
    (sound : s.Sound (.append i walOk walNow)) : Moves s (s.appendStep i walOk walNow) := by
  simp only [appendStep]
  cases found : s.requests[i]? with
  | none => exact .stay wf fun _ => rfl
  | some req =>
    obtain ⟨a, k, records⟩ := req
    simp only
    cases here : s.slot a k with
    | none => exact .stay wf fun _ => rfl
    | some sl =>
      obtain ⟨w, rolling⟩ := sl
      cases rolling with
      | some roll => exact .stay wf fun _ => rfl
      | none =>
        obtain ⟨others, reached⟩ := sound ⟨a, k, records⟩ found ⟨w, none⟩ here
        simp only
        by_cases empty : records = []
        · subst empty
          simp only [appendBatch, if_true, map_nil, append_nil]
          exact (Moves.ofSlot wf ⟨w, none⟩ here ⟨rfl, rfl⟩ (.skipped a w 0 here)).requests _
        · rw [appendBatch_eq empty]
          by_cases accepts : w.wal = none ∨ walOk = true
          · simp only [if_pos accepts]
            exact .accepted wf walNow records (s.requests.eraseIdx i) here others reached
          · simp only [if_neg accepts]
            exact (Moves.ofSlot wf ⟨w.skipped records.length, none⟩ here ⟨rfl, rfl⟩
              (.skipped a w records.length here)).requests _

/-- The pool's write lock is of no concern to the partitions. -/
theorem view_setOpening (s : System n) (a : Fin n) (o : Option (PartitionKey × SegmentStore)) (k : PartitionKey) :
    (s.setPool a { s.pools a with opening := o }).view k = s.view k := by
  have slots : ∀ b, (s.setPool a { s.pools a with opening := o }).slot b k = s.slot b k := by
    intro b
    by_cases same : b = a
    · subst same
      simp [setPool, slot]
    · simp [setPool, slot, same]
  simp only [view, slots]
  rfl

theorem slot_setOpening (s : System n) (a b : Fin n) (o : Option (PartitionKey × SegmentStore)) (k : PartitionKey) :
    (s.setPool a { s.pools a with opening := o }).slot b k = s.slot b k :=
  congrFun (congrArg View.slots (view_setOpening s a o k)) b

theorem Wf.setOpening (wf : s.Wf) (a : Fin n) (o : Option (PartitionKey × SegmentStore))
    (opens : ∀ k m, o = some (k, m) → s.slot a k = none ∧
      ((m.highWatermark k).isSome → (s.shared.metadata.highWatermark k).isSome)) :
    (s.setPool a { s.pools a with opening := o }).Wf := by
  refine ⟨?_, wf.rows, ?_⟩
  · intro b k sl found
    rw [slot_setOpening] at found
    exact wf.writers b k sl found
  · intro b k m opening
    rw [slot_setOpening]
    by_cases same : b = a
    · subst same
      simp only [setPool, update_self] at opening
      exact opens k m opening
    · simp only [setPool, update_of_ne same] at opening
      exact wf.opening b k m opening

theorem moves_openStart (wf : s.Wf) (a : Fin n) (k : PartitionKey) : Moves s (s.step (.openStart a k)) := by
  simp only [step]
  split
  · next free =>
    refine .stay (wf.setOpening a _ ?_) (view_setOpening s a _)
    intro k' m opening
    cases opening
    exact ⟨isNone_iff_eq_none.mp free.2, id⟩
  · exact .stay wf fun _ => rfl

theorem moves_openFinish (wf : s.Wf) {a : Fin n} {others : List WALRecord} {wal : Option Wal} {nowMs : Int}
    (sound : s.Sound (.openFinish a others wal nowMs)) : Moves s (s.openFinishStep a others wal nowMs) := by
  simp only [openFinishStep]
  cases found : (s.pools a).opening with
  | none => exact .stay wf fun _ => rfl
  | some o =>
    obtain ⟨k, m⟩ := o
    obtain ⟨absent, exists_⟩ := wf.opening a k m found
    have unlocked := wf.setOpening a none (by simp)
    simp only
    split
    · next w opened =>
      obtain ⟨hw, watermark, buffered, segment, next, partition, prefix_⟩ := new_ok opened
      refine ⟨unlocked.setSlot ⟨w, none⟩ ⟨partition, prefix_⟩ (by simp [setPool]), ?_⟩
      intro k'
      by_cases same : k' = k
      · subst same
        rw [view_setSlot, view_setOpening]
        refine .opened a w absent (exists_ (by simp [watermark])) (buffered.trans segment.symm) ?_ ?_ ?_
        · intro r member
          rw [buffered] at member
          rw [next]
          exact (replay_bounds member).2
        · rw [buffered]
          exact replay_increasing _ _
        · obtain nothing | ⟨alone, reached⟩ := sound (k', m) found
          · refine .inl ?_
            rw [buffered, nothing]
            rfl
          · refine .inr ⟨fun b other sb there => alone b other sb there, ?_⟩
            intro hw' current r member
            rw [buffered] at member
            exact Nat.le_trans (reached hw watermark hw' current) (replay_bounds member).1
      · rw [view_setSlot_of_ne _ a ⟨w, none⟩ same, view_setOpening]
        exact .stay
    · exact .stay unlocked (view_setOpening s a none)

/-- A writer's objects are under its partition's keys. -/
theorem Wf.segmentKey (wf : s.Wf) {a : Fin n} (here : s.slot a k = some sl)
    (base : Nat) : sl.writer.segmentKey base = objectKey k base := by
  obtain ⟨partition, prefix_⟩ := wf.writers a k sl here
  simp only [PartitionWriter.segmentKey, objectKey, prefix_, ← partition, PartitionWriter.partition]

/-- The views after an upload under one of the partition's keys. -/
theorem view_put (s : System n) (a : Fin n) (k k' : PartitionKey) (sl : Slot) (base : Nat) (object : Option (List Record)) :
    view { s.setSlot a k sl with
      shared := { s.shared with objects := update s.shared.objects (objectKey k base) object } } k' =
      if k = k' then { (s.view k').setSlot a sl with objects := update (s.view k').objects base object }
      else s.view k' := by
  by_cases same : k = k'
  · subst same
    have objects : (fun b => update s.shared.objects (objectKey k base) object (objectKey k b)) =
        update (s.view k).objects base object := by
      funext b
      by_cases here : b = base
      · subst here
        simp
      · have apart : objectKey k b ≠ objectKey k base := fun keys => here (objectKey_injective keys).2
        simp [update_of_ne here, update_of_ne apart, view]
    rw [if_pos rfl, ← view_setSlot, ← objects]
    rfl
  · have objects : (fun b => update s.shared.objects (objectKey k base) object (objectKey k' b)) =
        (s.view k').objects := by
      funext b
      have apart : objectKey k' b ≠ objectKey k base := fun keys => same (objectKey_injective keys).1.symm
      simp [update_of_ne apart, view]
    rw [if_neg same, ← view_setSlot_of_ne s a sl (Ne.symm same)]
    exact congrArg (fun x => { (s.setSlot a k sl).view k' with objects := x }) objects

theorem moves_upload (wf : s.Wf) (a : Fin n) (k : PartitionKey) (env : RollEnv) : Moves s (s.uploadStep a k env) := by
  simp only [uploadStep]
  cases here : s.slot a k with
  | none => exact .stay wf fun _ => rfl
  | some sl =>
    obtain ⟨w, rolling⟩ := sl
    cases rolling with
    | some roll => exact .stay wf fun _ => rfl
    | none =>
      simp only
      split
      · exact .stay wf fun _ => rfl
      · next nonempty =>
        obtain ⟨e, failed⟩ | ⟨first, head, done⟩ := rollUpload_cases env s.shared nonempty
        · simp only [failed]
          exact Moves.ofSlot wf ⟨{ w with currentSegment := [] }, none⟩ here ⟨rfl, rfl⟩ (.uploadFailed a w here)
        · have names := wf.writers a k ⟨w, none⟩ here
          have key : w.segmentKey first.offset = objectKey k first.offset := wf.segmentKey here first.offset
          have placed := wf.setSlot ⟨{ w with currentSegment := [] }, some (env, w.currentSegment)⟩ names (wf.free here)
          simp only [done, putSegment, key]
          refine ⟨⟨placed.writers, placed.rows, placed.opening⟩, ?_⟩
          intro k'
          rw [view_put]
          by_cases same : k = k'
          · subst same
            rw [if_pos rfl]
            exact .uploaded a w env first here head
          · rw [if_neg same]
            exact .stay

/-- The views after a registration. -/
theorem view_register (s : System n) (a : Fin n) (k k' : PartitionKey) (sl : Slot) {info : SegmentInfo} {m : SegmentStore} (names : info.topic = k.topic ∧ info.partitionId = k.partitionId)
    (added : s.shared.metadata.addSegmentAndUpdateWatermark k.orgId info hw = .ok m) :
    view { s.setSlot a k sl with shared := { s.shared with metadata := m } } k' =
      if k = k' then { (s.view k').setSlot a sl with
        watermark := (s.view k').watermark.map fun _ => hw, rows := (s.view k').rows ++ [info] }
      else s.view k' := by
  obtain ⟨segments, watermarks⟩ := addSegmentAndUpdateWatermark_ok added
  rw [names.1, names.2] at watermarks
  have partition : SegmentRow.partition ⟨k.orgId, info⟩ = k := by simp [SegmentRow.partition, names]
  by_cases same : k = k'
  · subst same
    have rows : m.rows k = s.shared.metadata.rows k ++ [info] := by
      simp [rows, segments, filter_append, partition]
    have watermark : m.highWatermark k = (s.shared.metadata.highWatermark k).map fun _ => hw := by
      rw [watermarks]
      exact update_self _ _ _
    rw [if_pos rfl]
    simp only [view, View.setSlot, rows, watermark, ← slots_setSlot]
    rfl
  · have rows : m.rows k' = s.shared.metadata.rows k' := by
      simp [rows, segments, filter_append, partition, same]
    have watermark : m.highWatermark k' = s.shared.metadata.highWatermark k' := by
      rw [watermarks]
      exact update_of_ne (Ne.symm same) _ _
    rw [if_neg same, ← view_setSlot_of_ne s a sl (Ne.symm same)]
    simp only [view, rows, watermark]
    rfl

theorem moves_register (wf : s.Wf) (a : Fin n) (k : PartitionKey) : Moves s (s.registerStep a k) := by
  simp only [registerStep]
  cases here : s.slot a k with
  | none => exact .stay wf fun _ => rfl
  | some sl =>
    obtain ⟨w, rolling⟩ := sl
    cases rolling with
    | none => exact .stay wf fun _ => rfl
    | some roll =>
      obtain ⟨env, segment⟩ := roll
      simp only
      obtain ⟨e, failed⟩ | ⟨first, last, m, head, tail, added, done⟩ :=
        rollRegister_cases env segment w s.shared
      · simp only [failed]
        exact Moves.ofSlot wf ⟨w, none⟩ here ⟨rfl, rfl⟩ (.registerFailed a w env segment here)
      · obtain ⟨partition, prefix_⟩ := wf.writers a k ⟨w, some (env, segment)⟩ here
        replace partition : w.partition = k := partition
        have settled := settle_writer env w
        have settledPrefix : (w.settle env).2.s3DataPrefix = w.s3DataPrefix := by
          have key := settled.2.2.2.2.1 0
          simp only [segmentKey, S3Key.segment.injEq] at key
          exact key.1
        have placed := wf.setSlot ⟨(w.settle env).2, none⟩
          ⟨settled.2.2.2.1.trans partition, settledPrefix.trans prefix_⟩ (wf.free here)
        have org : w.orgId = k.orgId := by rw [← partition]; rfl
        have names : (w.segmentInfo env first last segment.length).topic = k.topic ∧
            (w.segmentInfo env first last segment.length).partitionId = k.partitionId := by
          rw [← partition]
          exact ⟨rfl, rfl⟩
        rw [org] at added
        obtain ⟨segments, -⟩ := addSegmentAndUpdateWatermark_ok added
        simp only [done]
        refine ⟨⟨placed.writers, ?_, ?_⟩, ?_⟩
        · intro row member
          simp only [segments] at member
          obtain old | new := mem_append.mp member
          · exact wf.rows row old
          · obtain rfl := mem_singleton.mp new
            have key := wf.segmentKey here first.offset
            have rowPartition : SegmentRow.partition ⟨k.orgId, w.segmentInfo env first last segment.length⟩ = k := by
              simp [SegmentRow.partition, names]
            rw [rowPartition]
            exact key
        · intro b k' m' opening
          obtain ⟨absent, exists_⟩ := placed.opening b k' m' opening
          refine ⟨absent, fun was => ?_⟩
          exact (addSegmentAndUpdateWatermark_isSome added k').trans (exists_ was)
        · intro k'
          rw [view_register s a k k' _ names added]
          by_cases same : k = k'
          · subst same
            rw [if_pos rfl]
            exact .registered a w env segment first last here head tail
          · rw [if_neg same]
            exact .stay

/-- **One step**: under the condition every partition moves. -/
theorem step_view (wf : s.Wf) {e : Event n} (sound : s.Sound e) : Moves s (s.step e) := by
  cases e with
  | lease e => exact .stay ⟨wf.writers, wf.rows, wf.opening⟩ fun _ => rfl
  | produce a k records =>
    simp only [step]
    split
    · exact .stay ⟨wf.writers, wf.rows, wf.opening⟩ fun _ => rfl
    · exact .stay wf fun _ => rfl
  | openStart a k => exact moves_openStart wf a k
  | openFinish a others wal nowMs => exact moves_openFinish wf sound
  | append i walOk walNow => exact moves_append wf sound
  | upload a k env => exact moves_upload wf a k env
  | register a k => exact moves_register wf a k

/-- What sound runs keep. -/
structure Inv (s : System n) : Prop where
  wf : s.Wf
  views : ∀ k, (s.view k).Inv

theorem Inv.step (inv : s.Inv) {e : Event n} (sound : s.Sound e) : (s.step e).Inv := by
  have moves := step_view inv.wf sound
  exact ⟨moves.wf, fun k => (moves.moves k).inv (inv.views k)⟩

theorem Initial.inv (initial : s.Initial) : s.Inv := by
  have rows : ∀ k, s.shared.metadata.rows k = [] := by simp [rows, initial.segments]
  have acked : ∀ k, s.ackedOn k = [] := by simp [ackedOn, initial.acked]
  refine ⟨⟨?_, ?_, ?_⟩, ?_⟩
  · intro a k sl found
    rw [initial.writers] at found
    cases found
  · simp [initial.segments]
  · intro a k m opening
    rw [initial.opening] at opening
    cases opening
  · intro k
    unfold View.Inv
    cases (s.view k).watermark with
    | none => exact ⟨fun a => initial.writers a k, rows k, acked k⟩
    | some hw =>
      have nobody : ∀ a, (s.view k).slots a = none := fun a => initial.writers a k
      have bare : (s.view k).rows = [] := rows k
      have silent : (s.view k).acked = [] := acked k
      exact ⟨by simp [nobody], by simp [nobody], by simp [bare], by simp [bare], by simp [silent], by simp [silent]⟩

theorem Inv.unique (inv : s.Inv) (k : PartitionKey) : s.Unique k := by
  have view := inv.views k
  unfold View.Inv at view
  have key : ∀ seg ∈ s.shared.metadata.rows k, seg.s3Key = objectKey k seg.baseOffset := by
    intro seg member
    obtain ⟨row, here, partition, rfl⟩ := mem_rows.mp member
    rw [← partition]
    exact inv.wf.rows row here
  cases found : (s.view k).watermark with
  | none =>
    rw [found] at view
    have acked : s.ackedOn k = [] := view.acked
    have rows : s.shared.metadata.rows k = [] := view.rows
    exact ⟨by simp [acked], by simp [rows]⟩
  | some hw =>
    rw [found] at view
    refine ⟨view.acked, ?_⟩
    intro seg row seg' row' r member r' member' same
    rw [key seg row] at member
    rw [key seg' row'] at member'
    exact view.agree seg row seg' row' r member r' member' same

end System

open Agent.System

/-- **Offsets are unique** in every run in which an agent appends only while no other
has unregistered records of the partition and its own next offset is not behind. -/
theorem unique_run {start : System n} (initial : start.Initial) {events : List (Event n)}
    (sound : Meets step Sound start events) (k : PartitionKey) :
    (run step start events).Unique k :=
  (sound.invariant (fun _ _ inv ok => Inv.step inv ok) initial.inv).unique k

namespace Example

def orders : PartitionKey := ⟨"acme", "orders", 0⟩

/-- Two agents, `a` and `b`, and a partition that was just created. -/
def system : System 2 where
  shared := ⟨fun _ => none, ⟨[], update (fun _ => none) orders (some 0)⟩⟩
  leases := .initial 0
  pools := fun i => ⟨if i = 0 then "a" else "b", ⟨1048576, 10000, 3, 8388608, 8388608, "streamhouse"⟩, fun _ => none, none⟩
  requests := []
  acked := []

theorem system_initial : system.Initial :=
  ⟨rfl, fun _ _ => rfl, fun _ => rfl, rfl⟩

/-- An agent acquires the lease, opens its writer and appends one record. -/
def produces (a : Fin 2) (agentId : String) (value : UInt8) : List (Event 2) :=
  [.lease (.start (.acquire ⟨"orders", 0⟩ "acme" agentId 30000)), .lease (.proceed 0), .lease (.proceed 0),
    .produce a orders [(none, [value], 7)], .openStart a orders, .openFinish a [] none 0, .append 0 true 0]

def flushes (a : Fin 2) : List (Event 2) :=
  [.upload a orders ⟨⟨fun _ => .allow, fun _ => true, true, fun _ => true, true⟩, 100, true, .ok, 9⟩, .register a orders]

/-- The lease of `a` runs out. -/
def expires : List (Event 2) := [.lease (.tick 30001)]

end Example

open Example

/-- `a` has an acknowledged record at offset 0 that it has not flushed when its lease
runs out; `b` opens its writer at the stored watermark and acknowledges offset 0 too. -/
theorem unique_run_fails :
    system.Initial ∧
      (run step Example.system (Example.produces 0 "a" 1 ++ Example.expires ++ Example.produces 1 "b" 2)).acked =
        [(Example.orders, 0), (Example.orders, 0)] ∧
      ¬ (run step Example.system
        (produces 0 "a" 1 ++ expires ++ produces 1 "b" 2)).Unique orders := by
  refine ⟨system_initial, by decide, fun unique => ?_⟩
  have acked := unique.acked
  revert acked
  decide

/-- With a flush before the lease moves, the second agent goes on at offset 1. -/
theorem unique_run_flushed :
    (run step Example.system (Example.produces 0 "a" 1 ++ Example.flushes 0 ++ Example.expires ++
        Example.produces 1 "b" 2)).acked = [(Example.orders, 0), (Example.orders, 1)] ∧
      (run step Example.system (Example.produces 0 "a" 1 ++ Example.flushes 0 ++ Example.expires ++
        produces 1 "b" 2)).Unique orders :=
  ⟨by decide, unique_run system_initial (by decide) orders⟩

end StreamHouse.Agent
