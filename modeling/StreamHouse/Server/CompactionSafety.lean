import StreamHouse.Server.CompactionOutput

/-!
# Metadata and objects under compaction

A run touches the stores in up to four steps: it uploads the compacted segment,
registers it, deletes the objects of the segments it compacted, and deletes the rows
that end before the first of them. The last step uses that segment's base offset, so
the rows whose objects are gone stay. `inStep_iff` says when the rows still have their
objects and every key its newest live record.
-/

namespace StreamHouse.Server
open Metadata Storage List Function Example SegmentStore

/-! ## What a run does -/

/-- Deleting objects. -/
theorem deleteObjects_apply (env : CompactionEnv) (segs : List SegmentInfo) (objects : S3Key → Option (List Record))
    (key : S3Key) :
    deleteObjects env segs objects key =
      if env.deleteOk key = true ∧ ∃ seg ∈ segs, seg.s3Key = key then none else objects key := by
  unfold deleteObjects
  induction segs generalizing objects with
  | nil => simp
  | cons seg segs ih =>
    rw [foldl_cons, ih]
    by_cases same : seg.s3Key = key
    · subst same
      by_cases ok : env.deleteOk seg.s3Key = true
      · simp [ok]
      · simp [ok]
    · have apart : (if env.deleteOk seg.s3Key = true then update objects seg.s3Key none else objects) key =
          objects key := by
        split
        · exact update_of_ne (Ne.symm same) _ _
        · rfl
      simp [same, apart]

/-- The compacted segment's row is accepted. -/
def registers (env : CompactionEnv) (k : PartitionKey) (p : Plan) (m : SegmentStore) : Bool :=
  match p.compacted.head?, p.compacted.getLast? with
  | some first, some last => env.addOk && (m.addSegment k.orgId (compactedSegment env k p first last)).isOk
  | _, _ => false

/-- The key a run uploads the compacted segment to, if it gets that far. -/
def uploadKey (cfg : CompactionConfig) (env : CompactionEnv) (order : HashOrder) (k : PartitionKey) (s : Shared) :
    Option S3Key :=
  match plan cfg env order k s with
  | .ok (some p) => if env.putOk then p.compacted.head?.map fun first => compactedKey k first.offset else none
  | _ => none

/-- The segments whose objects a run tries to delete. -/
def condemned (cfg : CompactionConfig) (env : CompactionEnv) (order : HashOrder) (k : PartitionKey) (s : Shared) :
    List SegmentInfo :=
  match plan cfg env order k s with
  | .ok (some p) =>
    if p.compacted = [] ∨ env.putOk = true ∧ registers env k p s.metadata = true then p.segmentsToCompact else []
  | _ => []

section Effect

variable (cfg : CompactionConfig) (env : CompactionEnv) (order : HashOrder) (k : PartitionKey) (s : Shared)

/-- All that a run can do to the stores. -/
inductive Effect : Shared → Prop where
  | unchanged (upload : uploadKey cfg env order k s = none) (spared : condemned cfg env order k s = []) : Effect s
  | emptied (p : Plan) (planned : plan cfg env order k s = .ok (some p)) (nothing : p.compacted = [])
      (upload : uploadKey cfg env order k s = none) (segments : condemned cfg env order k s = p.segmentsToCompact) :
      Effect { s with objects := deleteObjects env p.segmentsToCompact s.objects }
  | refused (p : Plan) (first : Record) (planned : plan cfg env order k s = .ok (some p))
      (upload : uploadKey cfg env order k s = some (compactedKey k first.offset))
      (spared : condemned cfg env order k s = []) :
      Effect { s with objects := update s.objects (compactedKey k first.offset) (some p.written) }
  | replaced (p : Plan) (first last : Record) (firstSegment : SegmentInfo) (m : SegmentStore)
      (planned : plan cfg env order k s = .ok (some p))
      (head : p.compacted.head? = some first) (tail : p.compacted.getLast? = some last)
      (oldest : p.segmentsToCompact.head? = some firstSegment)
      (upload : uploadKey cfg env order k s = some (compactedKey k first.offset))
      (segments : condemned cfg env order k s = p.segmentsToCompact)
      (added : s.metadata.addSegment k.orgId (compactedSegment env k p first last) = .ok m) :
      Effect
        { objects := deleteObjects env p.segmentsToCompact
            (update s.objects (compactedKey k first.offset) (some p.written))
          metadata := if env.dropOk then m.deleteSegmentsBefore k firstSegment.baseOffset else m }

theorem effect : Effect cfg env order k s (compactPartition cfg env order k s).2 := by
  unfold compactPartition
  cases planned : plan cfg env order k s with
  | error e => exact .unchanged (by simp [uploadKey, planned]) (by simp [condemned, planned])
  | ok found =>
    cases found with
    | none => exact .unchanged (by simp [uploadKey, planned]) (by simp [condemned, planned])
    | some p =>
      simp only [execute]
      cases head : p.compacted.head? with
      | none =>
        have nothing : p.compacted = [] := head?_eq_none_iff.mp head
        exact .emptied p planned nothing (by simp [uploadKey, planned, nothing]) (by simp [condemned, planned, nothing])
      | some first =>
        have occurs : p.compacted ≠ [] := by
          intro nothing
          simp [nothing] at head
        obtain ⟨last, tail⟩ : ∃ last, p.compacted.getLast? = some last :=
          ⟨_, getLast?_eq_some_getLast occurs⟩
        obtain ⟨firstSegment, oldest⟩ : ∃ seg, p.segmentsToCompact.head? = some seg := by
          have enough := (plan_ok planned).enough
          exact ⟨_, head?_eq_some_head (by intro nothing; simp [nothing] at enough)⟩
        simp only [tail]
        cases put : env.putOk with
        | false =>
          exact .unchanged (by simp [uploadKey, planned, put]) (by simp [condemned, planned, put, occurs])
        | true =>
          have upload : uploadKey cfg env order k s = some (compactedKey k first.offset) := by
            simp [uploadKey, planned, put, head]
          simp only [Bool.not_true, Bool.false_eq_true, if_false]
          split
          · next e refused =>
            have no : registers env k p s.metadata = false := by
              simp only [registers, head, tail]
              split at refused
              · next allowed =>
                simp only [allowed, Bool.true_and]
                rw [refused]
                rfl
              · next off => simp [off]
            exact .refused p first planned upload (by simp [condemned, planned, occurs, no])
          · next m added =>
            split at added
            · next allowed =>
              have yes : registers env k p s.metadata = true := by
                simp only [registers, head, tail, allowed, Bool.true_and]
                rw [added]
                rfl
              have segments : condemned cfg env order k s = p.segmentsToCompact := by simp [condemned, planned, put, yes]
              have whole := Effect.replaced p first last firstSegment m planned head tail oldest upload segments added
              rw [oldest]
              cases drop : env.dropOk with
              | true => simpa only [drop, if_true, Plan.written] using whole
              | false => simpa only [drop, Bool.false_eq_true, if_false, Plan.written] using whole
            · cases added

end Effect

/-! ## Rows and what can be read through them -/

/-- Every registered segment of the partition has its object. -/
def Exist (k : PartitionKey) (s : Shared) : Prop := ∀ seg ∈ s.metadata.rows k, (s.objects seg.s3Key).isSome

instance (k : PartitionKey) (s : Shared) : Decidable (Exist k s) :=
  inferInstanceAs (Decidable (∀ seg ∈ s.metadata.rows k, (s.objects seg.s3Key).isSome))

/-- The records that can be read through the registered segments. -/
def readable (k : PartitionKey) (s : Shared) : List Record := (s.metadata.rows k).flatMap (contents s)

/-- `r` is a newest record of its key, and no tombstone. -/
def NewestLive (rs : List Record) (key : Bytes) (r : Record) : Prop :=
  r ∈ keyed key rs ∧ Greatest r (keyed key rs) ∧ isTombstone r = false

/-- What a run is to keep: rows and objects fit, and every key has the newest live
record it had. -/
structure InStep (k : PartitionKey) (before after : Shared) : Prop where
  exist : Exist k after
  newest : ∀ key r, NewestLive (readable k after) key r ↔ NewestLive (readable k before) key r

variable {rs : List Record} {key : Bytes} {r first : Record}

theorem mem_keyed : r ∈ keyed key rs ↔ r ∈ rs ∧ compactionKey r = some key := by
  rw [keyed, mem_filter, beq_iff_eq]

theorem newestLive_congr {xs : List Record} (same : ∀ r, compactionKey r = some key → (r ∈ rs ↔ r ∈ xs)) (r : Record) :
    NewestLive rs key r ↔ NewestLive xs key r := by
  have members : ∀ r, r ∈ keyed key rs ↔ r ∈ keyed key xs := by
    intro r
    rw [mem_keyed, mem_keyed]
    exact and_congr_left (same r)
  simp only [NewestLive, Greatest, members]

/-- A record that is newer than all others of its key. -/
def Newest (rs : List Record) (key : Bytes) (r : Record) : Prop := r ∈ keyed key rs ∧ ∀ x ∈ keyed key rs, x ≠ r → x.offset < r.offset

theorem Newest.live_iff {x : Record} (newest : Newest rs key r) : NewestLive rs key x ↔ x = r ∧ isTombstone r = false := by
  constructor
  · rintro ⟨member, greatest, live⟩
    have same : x = r := by
      by_contra other
      exact absurd (greatest r newest.1) (Nat.not_le.mpr (newest.2 x member other))
    exact ⟨same, same ▸ live⟩
  · rintro ⟨rfl, live⟩
    refine ⟨newest.1, fun y member => ?_, live⟩
    by_cases same : y = x
    · rw [same]
    · exact Nat.le_of_lt (newest.2 y member same)

theorem mem_readable {k : PartitionKey} {s : Shared} : r ∈ readable k s ↔ ∃ seg ∈ s.metadata.rows k, r ∈ contents s seg := by
  simp [readable]

variable {seg : SegmentInfo} {p : Plan} {m : SegmentStore} {firstSegment : SegmentInfo}

theorem contents_congr {s s' : Shared} (same : s'.objects seg.s3Key = s.objects seg.s3Key) :
    contents s' seg = contents s seg := by
  simp only [contents, readObject, same]

/-- The segments of a plan are registered. -/
theorem Planned.registered {cfg : CompactionConfig} {env : CompactionEnv} {order : HashOrder} {k : PartitionKey} {s : Shared}
    (planned : Planned cfg env order k s p) : ∀ seg ∈ p.segmentsToCompact, seg ∈ s.metadata.rows k := by
  intro seg member
  rw [planned.segments] at member
  exact mem_getSegments.mp (mem_of_mem_filter member)

/-- What is written could be read before. -/
theorem Planned.written_readable {cfg : CompactionConfig} {env : CompactionEnv} {order : HashOrder} {k : PartitionKey}
    {s : Shared} (planned : Planned cfg env order k s p) (member : r ∈ p.written) :
    r ∈ p.removed s := by
  rw [planned.written] at member
  rw [Plan.removed_eq cfg]
  exact mem_append_left _ (compacted_mem planned.holds member)

theorem Planned.removed_readable {cfg : CompactionConfig} {env : CompactionEnv} {order : HashOrder} {k : PartitionKey}
    {s : Shared} (planned : Planned cfg env order k s p) (member : r ∈ p.removed s) :
    r ∈ readable k s := by
  obtain ⟨seg, row, here⟩ := mem_flatMap.mp member
  exact mem_readable.mpr ⟨seg, planned.registered seg row, here⟩

/-- The compacted segment is read back as it was written. -/
theorem Planned.contents_compactedSegment {cfg : CompactionConfig} {env : CompactionEnv} {order : HashOrder} {k : PartitionKey}
    {s : Shared} (planned : Planned cfg env order k s p) {last : Record} :
    contents ⟨update s.objects (compactedKey k first.offset) (some p.written), m⟩
      (compactedSegment env k p first last) = p.written := by
  have stored : p.written.map Record.stored = p.written := by
    refine (map_congr_left ?_).trans (map_id _)
    intro r member
    exact contents_stored (planned.written_readable member)
  simp only [contents, readObject, compactedSegment, update_self, Option.map_some, Option.getD_some, stored]

/-- The rows after a segment was added. -/
theorem rows_addSegment {m' : SegmentStore} {k : PartitionKey} (topic : seg.topic = k.topic)
    (partition : seg.partitionId = k.partitionId) (added : m.addSegment k.orgId seg = .ok m') :
    m'.rows k = m.rows k ++ [seg] := by
  obtain ⟨rfl, -⟩ := insert_ok added
  have own : (⟨k.orgId, seg⟩ : SegmentRow).partition = k := by
    obtain ⟨org, t, pid⟩ := k
    simp only [SegmentRow.partition, topic, partition]
  simp [rows, filter_append, own]

theorem mem_rows_deleteSegmentsBefore {k : PartitionKey} {before : Nat} :
    seg ∈ (m.deleteSegmentsBefore k before).rows k ↔ seg ∈ m.rows k ∧ before ≤ seg.endOffset := by
  simp only [mem_rows, deleteSegmentsBefore, mem_filter]
  constructor
  · rintro ⟨row, ⟨member, spared⟩, own, rfl⟩
    refine ⟨⟨row, member, own, rfl⟩, ?_⟩
    simpa [own] using spared
  · rintro ⟨⟨row, member, own, rfl⟩, spared⟩
    exact ⟨row, ⟨member, by simp [own, spared]⟩, own, rfl⟩

section InStep

variable {cfg : CompactionConfig} {env : CompactionEnv} {order : HashOrder} {k : PartitionKey} {s : Shared}

theorem InStep.refl (exist : Exist k s) : InStep k s s := ⟨exist, fun _ _ => Iff.rfl⟩

/-- Nothing is deleted. -/
theorem deleteObjects_refused {segs : List SegmentInfo} (refused : ∀ seg ∈ segs, env.deleteOk seg.s3Key = false)
    (objects : S3Key → Option (List Record)) : deleteObjects env segs objects = objects := by
  funext key
  rw [deleteObjects_apply, if_neg]
  rintro ⟨ok, seg, member, rfl⟩
  simp [refused seg member] at ok

theorem Exist.ne_none {after : Shared} (exist : Exist k after) (row : seg ∈ after.metadata.rows k) :
    after.objects seg.s3Key ≠ none :=
  Option.isSome_iff_ne_none.mp (exist seg row)

/-- Neither the upload nor the deletion of rows meets a registered segment: no row has
the key the run uploads to, and if the run goes on to delete rows none of them ends
before the first segment that was compacted. -/
structure Apart (cfg : CompactionConfig) (env : CompactionEnv) (order : HashOrder) (k : PartitionKey) (s : Shared) :
    Prop where
  upload : ∀ key ∈ uploadKey cfg env order k s, ∀ seg ∈ s.metadata.rows k, seg.s3Key ≠ key
  drop : uploadKey cfg env order k s ≠ none → env.dropOk = true → ∀ first ∈ (condemned cfg env order k s).head?,
    ∀ seg ∈ s.metadata.rows k, first.baseOffset ≤ seg.endOffset

theorem Apart.stay {key : S3Key} (apart : Apart cfg env order k s)
    (upload : uploadKey cfg env order k s = some key) (segments : condemned cfg env order k s = p.segmentsToCompact)
    (oldest : p.segmentsToCompact.head? = some firstSegment) :
    ∀ seg ∈ s.metadata.rows k, env.dropOk = true → firstSegment.baseOffset ≤ seg.endOffset := by
  intro seg row drop
  exact apart.drop (by simp [upload]) drop firstSegment (by rw [segments]; exact oldest) seg row

/-- An upload under a key of no row changes nothing that can be read. -/
theorem readable_upload {key : S3Key} (free : ∀ seg ∈ s.metadata.rows k, seg.s3Key ≠ key) :
    readable k { s with objects := update s.objects key (some rs) } = readable k s := by
  unfold readable
  apply flatMap_congr
  intro seg row
  exact contents_congr (update_of_ne (free seg row) _ _)

/-- The rows after the compacted segment was registered and old rows were deleted. -/
theorem mem_rows_replaced {last : Record} (added : s.metadata.addSegment k.orgId (compactedSegment env k p first last) = .ok m) :
    seg ∈ (if env.dropOk then m.deleteSegmentsBefore k firstSegment.baseOffset else m).rows k ↔
      (seg ∈ s.metadata.rows k ∨ seg = compactedSegment env k p first last) ∧
        (env.dropOk = true → firstSegment.baseOffset ≤ seg.endOffset) := by
  have rows := rows_addSegment rfl rfl added
  cases drop : env.dropOk with
  | true => simp [mem_rows_deleteSegmentsBefore, rows]
  | false => simp [rows]

/-- A run that deletes the object of a row is out of step. -/
theorem InStep.spares {segs : List SegmentInfo} {objects : S3Key → Option (List Record)} (inStep : InStep k s ⟨deleteObjects env segs objects, m⟩) (rows : ∀ seg ∈ segs, seg ∈ m.rows k) :
    ∀ seg ∈ segs, env.deleteOk seg.s3Key = false := by
  intro seg member
  by_contra ok
  apply inStep.exist.ne_none (rows seg member)
  show deleteObjects env segs objects seg.s3Key = none
  rw [deleteObjects_apply]
  exact if_pos ⟨by simpa using ok, seg, member, rfl⟩

/-- The compacted segment beside the rows that stay: it holds nothing that the segments it was
made of do not. -/
theorem inStep_replaced {last : Record} (exist : Exist k s) (parts : Planned cfg env order k s p)
    (free : ∀ seg ∈ s.metadata.rows k, seg.s3Key ≠ compactedKey k first.offset)
    (stay : ∀ seg ∈ s.metadata.rows k, env.dropOk = true → firstSegment.baseOffset ≤ seg.endOffset)
    (added : s.metadata.addSegment k.orgId (compactedSegment env k p first last) = .ok m) :
    InStep k s ⟨update s.objects (compactedKey k first.offset) (some p.written),
      if env.dropOk then m.deleteSegmentsBefore k firstSegment.baseOffset else m⟩ := by
  have own : ∀ seg ∈ s.metadata.rows k,
      update s.objects (compactedKey k first.offset) (some p.written) seg.s3Key = s.objects seg.s3Key :=
    fun seg row => update_of_ne (free seg row) _ _
  constructor
  · intro seg row
    obtain ⟨old | rfl, -⟩ := (mem_rows_replaced added).mp row
    · simp only [own seg old]
      exact exist seg old
    · simp [compactedSegment]
  · intro key r
    apply newestLive_congr
    intro x _
    simp only [mem_readable, mem_rows_replaced added]
    constructor
    · rintro ⟨seg, ⟨old | rfl, -⟩, here⟩
      · rw [contents_congr (own seg old)] at here
        exact ⟨seg, old, here⟩
      · rw [parts.contents_compactedSegment] at here
        exact mem_readable.mp (parts.removed_readable (parts.written_readable here))
    · rintro ⟨seg, old, here⟩
      refine ⟨seg, ⟨.inl old, stay seg old⟩, ?_⟩
      rw [contents_congr (own seg old)]
      exact here

/-- What the run has read last of each key of the segment is the newest record the partition has
of that key, and is no expired tombstone. -/
def Rewrites (cfg : CompactionConfig) (env : CompactionEnv) (k : PartitionKey) (s : Shared) (p : Plan) (seg : SegmentInfo) : Prop :=
  ∀ key, keyed key (contents s seg) ≠ [] → ∃ r ∈ candidates (keyed key (p.read cfg s)),
    isExpired cfg env.nowMs r = false ∧ Newest (readable k s) key r

/-- As `Apart`, except that an upload whose registration is refused may overwrite what it rewrites. -/
structure Spares (cfg : CompactionConfig) (env : CompactionEnv) (order : HashOrder) (k : PartitionKey) (s : Shared) : Prop where
  upload : ∀ key ∈ uploadKey cfg env order k s, ∀ seg ∈ s.metadata.rows k, seg.s3Key = key →
    condemned cfg env order k s = [] ∧ ∀ p, plan cfg env order k s = .ok (some p) → Rewrites cfg env k s p seg
  drop : uploadKey cfg env order k s ≠ none → env.dropOk = true → ∀ first ∈ (condemned cfg env order k s).head?,
    ∀ seg ∈ s.metadata.rows k, first.baseOffset ≤ seg.endOffset

theorem Apart.spares (apart : Apart cfg env order k s) : Spares cfg env order k s :=
  ⟨fun key upload seg row same => absurd same (apart.upload key upload seg row), apart.drop⟩

theorem Rewrites.written (rewrites : Rewrites cfg env k s p seg) (parts : Planned cfg env order k s p) (occurs : keyed key (contents s seg) ≠ []) : ∃ r ∈ p.written, Newest (readable k s) key r := by
  obtain ⟨r, candidate, fresh, newest⟩ := rewrites key occurs
  obtain ⟨w, survives⟩ : ∃ w, survivor (keyed key (p.read cfg s)) = some w := by
    apply Option.ne_none_iff_exists'.mp
    intro none
    exact ne_nil_of_mem (candidates_subset r candidate) (survivor_eq_none.mp none)
  have spec := survivor_spec survives
  have inside : w ∈ keyed key (readable k s) := by
    obtain ⟨read, named⟩ := survivor_mem survives
    refine mem_keyed.mpr ⟨parts.removed_readable ?_, named⟩
    rw [Plan.removed_eq cfg]
    exact mem_append_left _ read
  obtain rfl : w = r := by
    by_contra other
    exact absurd (spec.2 r candidate) (Nat.not_le.mpr (newest.2 w inside other))
  refine ⟨w, ?_, newest⟩
  have output : keyed key p.written = ((survivor (keyed key (p.read cfg s))).filter fun r => !isExpired cfg env.nowMs r).toList := by
    rw [parts.written]
    exact keyed_compacted parts.holds key
  have kept : w ∈ keyed key p.written := by simp [output, survives, fresh]
  exact (mem_keyed.mp kept).1

/-- Segments that were read are overwritten by what the run has made of them. -/
theorem inStep_rewritten (exist : Exist k s) (parts : Planned cfg env order k s p)
    (rewrites : ∀ seg ∈ s.metadata.rows k, seg.s3Key = compactedKey k first.offset → Rewrites cfg env k s p seg) :
    InStep k s { s with objects := update s.objects (compactedKey k first.offset) (some p.written) } := by
  obtain ⟨after, isAfter⟩ : ∃ after : Shared, after = { s with objects := update s.objects (compactedKey k first.offset) (some p.written) } :=
    ⟨_, rfl⟩
  have rows : after.metadata = s.metadata := by rw [isAfter]
  have own : ∀ seg : SegmentInfo, seg.s3Key ≠ compactedKey k first.offset → after.objects seg.s3Key = s.objects seg.s3Key := by
    intro seg other
    rw [isAfter]
    exact update_of_ne other _ _
  have overwritten : ∀ seg : SegmentInfo, seg.s3Key = compactedKey k first.offset → contents after seg = p.written := by
    intro seg same
    have read : contents after (compactedSegment env k p first first) = p.written := by
      rw [isAfter]
      exact parts.contents_compactedSegment
    rw [contents, same]
    exact read
  rw [← isAfter]
  have before : ∀ r, r ∈ readable k after → r ∈ readable k s := by
    intro r member
    obtain ⟨seg, row, here⟩ := mem_readable.mp member
    rw [rows] at row
    by_cases same : seg.s3Key = compactedKey k first.offset
    · rw [overwritten seg same] at here
      exact parts.removed_readable (parts.written_readable here)
    · rw [contents_congr (own seg same)] at here
      exact mem_readable.mpr ⟨seg, row, here⟩
  constructor
  · intro seg row
    rw [rows] at row
    by_cases same : seg.s3Key = compactedKey k first.offset
    · simp [isAfter, same]
    · rw [own seg same]
      exact exist seg row
  · intro key x
    by_cases met : ∃ seg ∈ s.metadata.rows k, seg.s3Key = compactedKey k first.offset ∧ keyed key (contents s seg) ≠ []
    · obtain ⟨seg, row, same, occurs⟩ := met
      obtain ⟨r, written, newest⟩ := (rewrites seg row same).written parts occurs
      have still : Newest (readable k after) key r := by
        refine ⟨mem_keyed.mpr ⟨mem_readable.mpr ⟨seg, rows.symm ▸ row, ?_⟩, (mem_keyed.mp newest.1).2⟩, fun y member => ?_⟩
        · rw [overwritten seg same]
          exact written
        · obtain ⟨inside, named⟩ := mem_keyed.mp member
          exact newest.2 y (mem_keyed.mpr ⟨before y inside, named⟩)
      rw [still.live_iff, newest.live_iff]
    · refine newestLive_congr (fun y named => ⟨before y, fun inside => ?_⟩) x
      obtain ⟨seg, row, here⟩ := mem_readable.mp inside
      refine mem_readable.mpr ⟨seg, rows.symm ▸ row, ?_⟩
      rw [contents_congr (own seg fun same => met ⟨seg, row, same, ne_nil_of_mem (mem_keyed.mpr ⟨here, named⟩)⟩)]
      exact here

/-- **Compaction keeps rows and objects in step** just when it deletes none of the
objects, provided that its upload and its deletion of rows meet no registered segment,
or the upload only what it rewrites and does not register. -/
theorem inStep_iff (exist : Exist k s) (spares : Spares cfg env order k s) :
    InStep k s (compactPartition cfg env order k s).2 ↔
      ∀ seg ∈ condemned cfg env order k s, env.deleteOk seg.s3Key = false := by
  have done := effect cfg env order k s
  generalize (compactPartition cfg env order k s).2 = after at done ⊢
  cases done with
  | unchanged upload spared =>
    rw [spared]
    exact ⟨fun _ => by simp, fun _ => .refl exist⟩
  | emptied p planned nothing upload segments =>
    rw [segments]
    constructor
    · intro inStep
      exact inStep.spares (plan_ok planned).registered
    · intro refused
      rw [deleteObjects_refused refused]
      exact .refl exist
  | refused p first planned upload spared =>
    rw [spared]
    refine ⟨fun _ => by simp, fun _ => inStep_rewritten exist (plan_ok planned) fun seg row same => ?_⟩
    exact (spares.upload _ upload seg row same).2 p planned
  | replaced p first last firstSegment m planned head tail oldest upload segments added =>
    have parts := plan_ok planned
    have free : ∀ seg ∈ s.metadata.rows k, seg.s3Key ≠ compactedKey k first.offset := by
      intro seg row same
      have none := segments.symm.trans (spares.upload _ upload seg row same).1
      simp [none] at oldest
    have stay := (Apart.mk (fun key isKey seg row => Option.some.inj (upload.symm.trans isKey) ▸ free seg row) spares.drop).stay
      upload segments oldest
    rw [segments]
    constructor
    · intro inStep
      refine inStep.spares fun seg member => ?_
      have row := parts.registered seg member
      exact (mem_rows_replaced added).mpr ⟨.inl row, stay seg row⟩
    · intro refused
      rw [deleteObjects_refused refused]
      exact inStep_replaced exist parts free stay added

end InStep

/-- A run in which nothing fails: the two old rows stay, without objects. -/
theorem inStep_fails : Exist orders twoSegments ∧
    ¬ InStep orders twoSegments (compactPartition (compaction 10) (working 50)
      insertionOrder orders twoSegments).2 := by
  refine ⟨by decide, ?_⟩
  intro inStep
  have exist := inStep.exist
  revert exist
  decide

/-- The same run with an object store that refuses the deletions. -/
theorem inStep_iff_undeleted :
    InStep orders twoSegments (compactPartition (compaction 10)
      { working 50 with deleteOk := fun _ => false } insertionOrder orders twoSegments).2 :=
  (inStep_iff (by decide) (Apart.spares ⟨by decide, by decide⟩)).mpr (by decide)

end StreamHouse.Server
