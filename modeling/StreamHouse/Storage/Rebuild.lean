import Mathlib.Data.List.Induction
import StreamHouse.Metadata.Watermark
import StreamHouse.Storage.ObjectKeys
import StreamHouse.Storage.SegmentRoundTrip

/-!
# Rebuilding metadata from the object store

`S3Reconciler::reconcile_from_s3` (`reconciler.rs`): every `.seg` object under the
prefix of an organization that metadata does not know is registered from its header
and the parts of its key. A failed call for one object is counted and passed over.
What the compaction writes does not end in `.seg` and is never looked at; ids carry no
organization, so of two objects with the same topic, partition and base offset only
the first is registered.
-/

namespace StreamHouse.Storage
open Lib Metadata List SegmentStore

/-- An object in the bucket. -/
structure SegmentObject where
  key : S3Key
  bytes : Bytes
  lastModified : Int

/-- `SegmentReader::read_header` on the first 64 bytes. -/
def SegmentObject.header (o : SegmentObject) : Option SegmentHeader :=
  match SegmentReader.readHeader (o.bytes.take headerSize) with
  | .ok header => some header
  | .error _ => none

/-- The tables that `reconcile_from_s3` reads. -/
structure Snapshot where
  organizations : List String
  topics : String → List String
  partitions : String → String → List Nat
  store : SegmentStore

open Snapshot

/-- Which of the calls are answered. -/
structure Answers where
  orgsForPrefixes : Bool
  orgsForKeys : Bool
  topics : String → Bool
  partitions : String → String → Bool
  segments : PartitionKey → Bool
  listing : DataPrefix → Bool
  getRange : S3Key → Bool
  addSegment : S3Key → Bool
  getPartition : S3Key → Bool
  updateHighWatermark : S3Key → Bool

/-- Nothing fails. -/
def answered : Answers :=
  ⟨true, true, fun _ => true, fun _ _ => true, fun _ => true, fun _ => true, fun _ => true, fun _ => true, fun _ => true,
    fun _ => true⟩

structure ReconcileFromS3Stats where
  segmentsFound : Nat
  segmentsRegistered : Nat
  segmentsFailed : Nat

namespace Snapshot

/-- The prefixes to scan, each with the organization its objects are registered for. -/
def prefixes (a : Answers) (s : Snapshot) : List (DataPrefix × String) :=
  if a.orgsForPrefixes then
    let orgs := s.organizations.map fun id => (DataPrefix.org id, id)
    match s.organizations with
    | [] => orgs
    | first :: _ => (.data, first) :: orgs
  else [(.data, "")]

/-- `known_keys`: what a failed call would have returned is left out. -/
def knownKeys (a : Answers) (s : Snapshot) : List S3Key :=
  (if a.orgsForKeys then s.organizations else []).flatMap fun orgId =>
    (if a.topics orgId then s.topics orgId else []).flatMap fun topic =>
      (if a.partitions orgId topic then s.partitions orgId topic else []).flatMap fun partitionId =>
        if a.segments ⟨orgId, topic, partitionId⟩ then
          (s.store.getSegments ⟨orgId, topic, partitionId⟩).map SegmentInfo.s3Key
        else []

end Snapshot

/-- The row made from an object. -/
def foundSegment (topic : String) (partitionId baseOffset : Nat) (o : SegmentObject) (header : SegmentHeader) : SegmentInfo where
  id := .segment topic partitionId baseOffset
  topic := topic
  partitionId := partitionId
  baseOffset := header.baseOffset
  endOffset := header.endOffset
  recordCount := header.recordCount
  sizeBytes := o.bytes.length
  s3Bucket := ""
  s3Key := o.key
  createdAt := o.lastModified
  minTimestamp := 0
  maxTimestamp := 0

/-- "Update high watermark if this segment extends it": failures are passed over. -/
def extendWatermark (a : Answers) (key : S3Key) (k : PartitionKey) (newHwm : Nat) (m : SegmentStore) : SegmentStore :=
  match m.highWatermark k with
  | some highWatermark =>
    if a.getPartition key && decide (newHwm > highWatermark) && a.updateHighWatermark key then
      match m.updateHighWatermark k newHwm with
      | .ok m' => m'
      | .error _ => m
    else m
  | none => m

/-- An object under a scanned prefix, and the organization it is registered for. -/
structure Item where
  dir : DataPrefix
  orgId : String
  object : SegmentObject

/-- The body of the loop over the objects. -/
def registerObject (a : Answers) (known : List S3Key) (s : ReconcileFromS3Stats × SegmentStore) (item : Item) :
    ReconcileFromS3Stats × SegmentStore :=
  let o := item.object
  if !endsWithSeg o.key.path then s
  else
    let found := { s.1 with segmentsFound := s.1.segmentsFound + 1 }
    let failed := { found with segmentsFailed := s.1.segmentsFailed + 1 }
    if known.contains o.key then (found, s.2)
    else
      match parseKey item.dir o.key.path with
      | none => (failed, s.2)
      | some (topic, partitionId, baseOffset) =>
        match if a.getRange o.key then o.header else none with
        | none => (failed, s.2)
        | some header =>
          match if a.addSegment o.key then s.2.addSegment item.orgId (foundSegment topic partitionId baseOffset o header)
              else .error .database with
          | .error _ => (failed, s.2)
          | .ok m =>
            ({ found with segmentsRegistered := s.1.segmentsRegistered + 1 },
              extendWatermark a o.key ⟨item.orgId, topic, partitionId⟩ (header.endOffset + 1) m)

/-- The objects of one prefix. -/
def itemsOf (bucket : List SegmentObject) (scan : DataPrefix × String) : List Item :=
  (bucket.filter fun o => o.key.dataPrefix == scan.1).map fun o => ⟨scan.1, scan.2, o⟩

/-- The loop over the prefixes; a failed listing ends it with an error. -/
def scanPrefixes (a : Answers) (known : List S3Key) (bucket : List SegmentObject) :
    List (DataPrefix × String) → ReconcileFromS3Stats × SegmentStore → Option ReconcileFromS3Stats × SegmentStore
  | [], s => (some s.1, s.2)
  | scan :: rest, s =>
    if a.listing scan.1 then scanPrefixes a known bucket rest ((itemsOf bucket scan).foldl (registerObject a known) s)
    else (none, s.2)

/-- `reconcile_from_s3`: what it returns, nothing being an error, and the store it leaves. -/
def reconcileFromS3 (a : Answers) (bucket : List SegmentObject) (s : Snapshot) : Option ReconcileFromS3Stats × SegmentStore :=
  scanPrefixes a (s.knownKeys a) bucket (s.prefixes a) (⟨0, 0, 0⟩, s.store)

/-- Whether a row of this organization may stand for an object under this prefix: the
legacy prefix names no organization. -/
def Owns (orgId : String) : DataPrefix → Prop
  | .data => True
  | .org id => orgId = id

/-- The row is that of the object: its key and partition, and its header's offsets. -/
structure Describes (r : SegmentRow) (o : SegmentObject) (header : SegmentHeader) : Prop where
  s3Key : r.info.s3Key = o.key
  owner : Owns r.organizationId o.key.dataPrefix
  topic : r.info.topic = o.key.topic
  partitionId : r.info.partitionId = o.key.partitionId
  baseOffset : r.info.baseOffset = header.baseOffset
  endOffset : r.info.endOffset = header.endOffset

/-- The object is registered with its header's offsets, and the watermark is past it. -/
def Registered (m : SegmentStore) (o : SegmentObject) : Prop :=
  ∃ header r, o.header = some header ∧ r ∈ m.segments ∧ Describes r o header ∧
    ∃ high ∈ m.highWatermark r.partition, header.endOffset + 1 ≤ high

/-- What the pass is for: every live object is registered, the watermarks are past all
segments, and a second pass registers nothing and changes nothing. -/
structure Rebuilt (bucket live : List SegmentObject) (s : Snapshot) : Prop where
  registered : ∀ o ∈ live, Registered (reconcileFromS3 answered bucket s).2 o
  covered : Metadata.Covered (reconcileFromS3 answered bucket s).2
  idempotent : ∃ stats, reconcileFromS3 answered bucket { s with store := (reconcileFromS3 answered bucket s).2 } =
    (some stats, (reconcileFromS3 answered bucket s).2) ∧ stats.segmentsRegistered = 0

/-! ### One object -/

/-- The pass tries to register the object under this id. -/
structure Attempt (known : List S3Key) (item : Item) (topic : String) (partitionId baseOffset : Nat) (header : SegmentHeader) :
    Prop where
  suffix : endsWithSeg item.object.key.path = true
  unknown : item.object.key ∉ known
  parsed : parseKey item.dir item.object.key.path = some (topic, partitionId, baseOffset)
  header : item.object.header = some header

/-- The row an attempt makes. -/
def Item.row (item : Item) (topic : String) (partitionId baseOffset : Nat) (header : SegmentHeader) : SegmentRow :=
  ⟨item.orgId, foundSegment topic partitionId baseOffset item.object header⟩

/-- The store with that row, and the watermark past it if the partition has one. -/
def Item.registerIn (item : Item) (topic : String) (partitionId baseOffset : Nat) (header : SegmentHeader) (m : SegmentStore) :
    SegmentStore :=
  let r := item.row topic partitionId baseOffset header
  extendWatermark answered item.object.key r.partition (header.endOffset + 1) { m with segments := m.segments ++ [r] }

/-- What one turn of the loop does: it registers the object, or nothing happens to the
store because nothing was tried or the id is taken. -/
inductive Turned (known : List S3Key) (s : ReconcileFromS3Stats × SegmentStore) (item : Item)
    (after : ReconcileFromS3Stats × SegmentStore) : Prop where
  | registered (topic : String) (partitionId baseOffset : Nat) (header : SegmentHeader)
      (attempt : Attempt known item topic partitionId baseOffset header) (free : Free s.2 (.segment topic partitionId baseOffset))
      (store : after.2 = item.registerIn topic partitionId baseOffset header s.2)
  | passed (taken : ∀ topic partitionId baseOffset header, Attempt known item topic partitionId baseOffset header →
        ¬ Free s.2 (.segment topic partitionId baseOffset))
      (count : after.1.segmentsRegistered = s.1.segmentsRegistered) (store : after.2 = s.2)

theorem registerObject_turned (known : List S3Key) (s : ReconcileFromS3Stats × SegmentStore) (item : Item) :
    Turned known s item (registerObject answered known s item) := by
  by_cases suffix : endsWithSeg item.object.key.path = true
  case neg =>
    refine .passed (fun _ _ _ _ attempt => absurd attempt.suffix suffix) ?_ ?_
    · simp [registerObject, suffix]
    · simp [registerObject, suffix]
  by_cases unknown : item.object.key ∈ known
  · refine .passed (fun _ _ _ _ attempt => absurd unknown attempt.unknown) ?_ ?_
    · simp [registerObject, suffix, unknown]
    · simp [registerObject, suffix, unknown]
  cases parsed : parseKey item.dir item.object.key.path with
  | none =>
    refine .passed (fun _ _ _ _ attempt => nomatch parsed.symm.trans attempt.parsed) ?_ ?_
    · simp [registerObject, suffix, unknown, parsed]
    · simp [registerObject, suffix, unknown, parsed]
  | some parts =>
    obtain ⟨topic, partitionId, baseOffset⟩ := parts
    cases header : item.object.header with
    | none =>
      refine .passed (fun _ _ _ _ attempt => nomatch header.symm.trans attempt.header) ?_ ?_
      · simp [registerObject, suffix, unknown, parsed, header]
      · simp [registerObject, suffix, unknown, parsed, header]
    | some h =>
      by_cases free : Free s.2 (.segment topic partitionId baseOffset)
      · have added : s.2.addSegment item.orgId (foundSegment topic partitionId baseOffset item.object h) = _ :=
          insert_free free item.orgId
        refine .registered topic partitionId baseOffset h ⟨suffix, unknown, parsed, header⟩ free ?_
        simp [registerObject, suffix, unknown, parsed, header, answered, added]
        rfl
      · have failed : s.2.addSegment item.orgId (foundSegment topic partitionId baseOffset item.object h) = _ :=
          insert_taken free item.orgId
        refine .passed ?_ ?_ ?_
        · intro topic' partitionId' baseOffset' header' attempt
          have same := parsed.symm.trans attempt.parsed
          obtain ⟨rfl, rfl, rfl⟩ : topic = topic' ∧ partitionId = partitionId' ∧ baseOffset = baseOffset' := by
            simpa using same
          exact free
        · simp [registerObject, suffix, unknown, parsed, header, answered, failed]
        · simp [registerObject, suffix, unknown, parsed, header, answered, failed]

/-- What every turn keeps. -/
structure Grown (m m' : SegmentStore) : Prop where
  rows : ∀ r ∈ m.segments, r ∈ m'.segments
  partitions : ∀ k, (m'.highWatermark k).isSome = (m.highWatermark k).isSome
  covered : Metadata.Covered m → Metadata.Covered m'

theorem Grown.refl (m : SegmentStore) : Grown m m := ⟨fun _ member => member, fun _ => rfl, id⟩

variable {m : SegmentStore} {known : List S3Key} {item : Item}

theorem Grown.trans {m' m'' : SegmentStore} (first : Grown m m') (second : Grown m' m'') : Grown m m'' :=
  ⟨fun r member => second.rows r (first.rows r member), fun k => (second.partitions k).trans (first.partitions k),
    fun covered => second.covered (first.covered covered)⟩

/-- A row below the watermark, if the partition has one, can be added as it is. -/
theorem grown_append {r : SegmentRow}
    (below : ∀ high, m.highWatermark r.partition = some high → r.info.endOffset + 1 ≤ high) :
    Grown m { m with segments := m.segments ++ [r] } := by
  refine ⟨fun r' member => mem_append_left _ member, fun _ => rfl, ?_⟩
  intro covered r' member high present
  obtain before | new := mem_append.1 member
  · exact covered r' before high present
  · obtain rfl := mem_singleton.1 new
    exact below high present

/-- With a watermark that is set past it, and not back, any row can be added. -/
theorem grown_set {r : SegmentRow} {v : Nat} (past : r.info.endOffset + 1 ≤ v) (reaches : Reaches m r.partition v) :
    Grown m (setWatermark { m with segments := m.segments ++ [r] } r.partition v) := by
  refine ⟨fun r' member => mem_append_left _ member, ?_, ?_⟩
  · intro k
    by_cases same : k = r.partition
    · subst same
      rw [setWatermark_self, Option.isSome_map]
    · rw [setWatermark_of_ne same]
  · intro covered
    refine ((set_keeps_iff covered (by rfl) ?_).2 reaches).2
    intro r' member
    obtain before | new := mem_append.1 member
    · exact .inl before
    · obtain rfl := mem_singleton.1 new
      exact .inr ⟨rfl, past⟩

/-- A watermark that is extended is past the segment, and past all the others if it was. -/
theorem registerIn_grown (m : SegmentStore) (item : Item) (topic : String) (partitionId baseOffset : Nat) (header : SegmentHeader) :
    (item.registerIn topic partitionId baseOffset header m).segments =
        m.segments ++ [item.row topic partitionId baseOffset header] ∧
      Grown m (item.registerIn topic partitionId baseOffset header m) := by
  have past : (item.row topic partitionId baseOffset header).info.endOffset = header.endOffset := rfl
  unfold Item.registerIn
  generalize item.row topic partitionId baseOffset header = r at past ⊢
  cases stored : m.highWatermark r.partition with
  | none =>
    have same : ∀ v, extendWatermark answered item.object.key r.partition v { m with segments := m.segments ++ [r] } =
        { m with segments := m.segments ++ [r] } := by simp [extendWatermark, stored]
    simp only [same]
    exact ⟨trivial, grown_append fun high present => nomatch stored.symm.trans present⟩
  | some high =>
    by_cases higher : header.endOffset + 1 > high
    · have set : extendWatermark answered item.object.key r.partition (header.endOffset + 1)
          { m with segments := m.segments ++ [r] } =
          setWatermark { m with segments := m.segments ++ [r] } r.partition (header.endOffset + 1) := by
        simp [extendWatermark, stored, answered, higher, updateHighWatermark]
      have reaches : Reaches m r.partition (header.endOffset + 1) := by
        intro high' present
        obtain rfl := Option.some.inj (stored.symm.trans present)
        omega
      simp only [set]
      exact ⟨rfl, grown_set (by omega) reaches⟩
    · have same : extendWatermark answered item.object.key r.partition (header.endOffset + 1)
          { m with segments := m.segments ++ [r] } = { m with segments := m.segments ++ [r] } := by
        simp [extendWatermark, stored, higher]
      simp only [same]
      refine ⟨trivial, grown_append fun high' present => ?_⟩
      obtain rfl := Option.some.inj (stored.symm.trans present)
      omega

/-! ### The loop -/

/-- The row was made from one of the items, under an id that was free and that no item
before it was tried under. -/
def MadeFrom (known : List S3Key) (m : SegmentStore) (items : List Item) (r : SegmentRow) : Prop :=
  ∃ before item after topic partitionId baseOffset header, items = before ++ item :: after ∧
    Attempt known item topic partitionId baseOffset header ∧ r = item.row topic partitionId baseOffset header ∧
    Free m (.segment topic partitionId baseOffset) ∧
    ∀ other ∈ before, ∀ header', ¬ Attempt known other topic partitionId baseOffset header'

theorem MadeFrom.longer {items : List Item} {r : SegmentRow}
    (made : MadeFrom known m items r) (item : Item) : MadeFrom known m (items ++ [item]) r := by
  obtain ⟨before, i, after, topic, partitionId, baseOffset, header, cut, found⟩ := made
  exact ⟨before, i, after ++ [item], topic, partitionId, baseOffset, header, by simp [cut], found⟩

/-- The store after the pass has looked at `items`, from `m` on. -/
structure Scanned (known : List S3Key) (m : SegmentStore) (items : List Item) (m' : SegmentStore) : Prop where
  grown : Grown m m'
  origin : ∀ r ∈ m'.segments, r ∈ m.segments ∨ MadeFrom known m items r
  taken : ∀ item ∈ items, ∀ topic partitionId baseOffset header, Attempt known item topic partitionId baseOffset header →
    ¬ Free m' (.segment topic partitionId baseOffset)

theorem Scanned.start (known : List S3Key) (m : SegmentStore) : Scanned known m [] m :=
  ⟨Grown.refl m, fun _ member => .inl member, fun _ member => nomatch member⟩

theorem free_of_rows {m' : SegmentStore} {id : SegmentId} (rows : ∀ r ∈ m.segments, r ∈ m'.segments) (free : Free m' id) :
    Free m id :=
  fun r member => free r (rows r member)

/-- **The step**: a turn keeps what is known about the store. -/
theorem Scanned.turn {items : List Item} {s after : ReconcileFromS3Stats × SegmentStore}
    (scanned : Scanned known m items s.2) (turned : Turned known s item after) :
    Scanned known m (items ++ [item]) after.2 := by
  cases turned with
  | passed taken count store =>
    rw [store]
    refine ⟨scanned.grown, ?_, ?_⟩
    · intro r member
      obtain old | made := scanned.origin r member
      · exact .inl old
      · exact .inr (made.longer item)
    · intro i member topic partitionId baseOffset header attempt
      obtain before | last := mem_append.1 member
      · exact scanned.taken i before topic partitionId baseOffset header attempt
      · obtain rfl := mem_singleton.1 last
        exact taken topic partitionId baseOffset header attempt
  | registered topic partitionId baseOffset header attempt free store =>
    obtain ⟨segments, grown⟩ := registerIn_grown s.2 item topic partitionId baseOffset header
    rw [← store] at segments grown
    refine ⟨scanned.grown.trans grown, ?_, ?_⟩
    · intro r member
      rw [segments] at member
      obtain before | new := mem_append.1 member
      · obtain old | made := scanned.origin r before
        · exact .inl old
        · exact .inr (made.longer item)
      · obtain rfl := mem_singleton.1 new
        refine .inr ⟨items, item, [], topic, partitionId, baseOffset, header, rfl, attempt, rfl, ?_, ?_⟩
        · exact free_of_rows scanned.grown.rows free
        · intro other earlier header' tried
          exact scanned.taken other earlier topic partitionId baseOffset header' tried free
    · intro i member topic' partitionId' baseOffset' header' tried
      obtain before | last := mem_append.1 member
      · intro still
        exact scanned.taken i before topic' partitionId' baseOffset' header' tried (free_of_rows grown.rows still)
      · obtain rfl := mem_singleton.1 last
        obtain ⟨rfl, rfl, rfl⟩ : topic = topic' ∧ partitionId = partitionId' ∧ baseOffset = baseOffset' := by
          simpa using attempt.parsed.symm.trans tried.parsed
        intro still
        refine still (i.row topic partitionId baseOffset header) ?_ rfl
        rw [segments]
        exact mem_append_right _ mem_cons_self

/-- **The run**. -/
theorem scanned_run (known : List S3Key) (s : ReconcileFromS3Stats × SegmentStore) (items : List Item) :
    Scanned known s.2 items (items.foldl (registerObject answered known) s).2 := by
  induction items using reverseRecOn with
  | nil => exact Scanned.start known s.2
  | append_singleton items item ih =>
    rw [foldl_append]
    exact ih.turn (registerObject_turned known _ item)

theorem grown_run (known : List S3Key) (s : ReconcileFromS3Stats × SegmentStore) (items : List Item) :
    Grown s.2 (items.foldl (registerObject answered known) s).2 :=
  (scanned_run known s items).grown

/-- An item is registered if its id is free and nothing before it is tried under that id. -/
theorem registered_run {s : ReconcileFromS3Stats × SegmentStore} {before after : List Item} {topic : String} {partitionId baseOffset : Nat} {header : SegmentHeader}
    (attempt : Attempt known item topic partitionId baseOffset header) (free : Free s.2 (.segment topic partitionId baseOffset))
    (first : ∀ other ∈ before, ∀ header', ¬ Attempt known other topic partitionId baseOffset header') :
    item.row topic partitionId baseOffset header ∈
      ((before ++ item :: after).foldl (registerObject answered known) s).2.segments := by
  have scanned := scanned_run known s before
  rw [foldl_append, foldl_cons]
  generalize before.foldl (registerObject answered known) s = reached at scanned ⊢
  apply (grown_run known _ after).rows
  have stillFree : Free reached.2 (.segment topic partitionId baseOffset) := by
    intro r member same
    obtain old | ⟨_, other, _, _, _, _, header', cut, tried, rfl, -, -⟩ := scanned.origin r member
    · exact free r old same
    · obtain ⟨rfl, rfl, rfl⟩ := SegmentId.segment.inj same
      refine first other ?_ header' tried
      rw [cut]
      simp
  cases registerObject_turned known reached item with
  | passed taken count store => exact absurd stillFree (taken topic partitionId baseOffset header attempt)
  | registered topic' partitionId' baseOffset' header' tried free' store =>
    obtain ⟨rfl, rfl, rfl⟩ : topic = topic' ∧ partitionId = partitionId' ∧ baseOffset = baseOffset' := by
      simpa using attempt.parsed.symm.trans tried.parsed
    obtain rfl := Option.some.inj (attempt.header.symm.trans tried.header)
    rw [store, (registerIn_grown reached.2 item topic partitionId baseOffset header).1]
    exact mem_append_right _ mem_cons_self

/-! ### The pass -/

/-- The objects the pass looks at, in order. -/
def Snapshot.items (bucket : List SegmentObject) (s : Snapshot) : List Item :=
  (s.prefixes answered).flatMap (itemsOf bucket)

theorem scanPrefixes_answered (known : List S3Key) (bucket : List SegmentObject) (scans : List (DataPrefix × String))
    (s : ReconcileFromS3Stats × SegmentStore) :
    scanPrefixes answered known bucket scans s =
      (some ((scans.flatMap (itemsOf bucket)).foldl (registerObject answered known) s).1,
        ((scans.flatMap (itemsOf bucket)).foldl (registerObject answered known) s).2) := by
  induction scans generalizing s with
  | nil => rfl
  | cons scan scans ih =>
    rw [flatMap_cons, foldl_append, ← ih]
    rfl

theorem reconcileFromS3_answered (bucket : List SegmentObject) (s : Snapshot) :
    reconcileFromS3 answered bucket s =
      (some ((s.items bucket).foldl (registerObject answered (s.knownKeys answered)) (⟨0, 0, 0⟩, s.store)).1,
        ((s.items bucket).foldl (registerObject answered (s.knownKeys answered)) (⟨0, 0, 0⟩, s.store)).2) :=
  scanPrefixes_answered _ bucket _ _

theorem mem_items {bucket : List SegmentObject} {s : Snapshot} :
    item ∈ s.items bucket ↔ (item.dir, item.orgId) ∈ s.prefixes answered ∧ item.object ∈ bucket ∧
      item.object.key.dataPrefix = item.dir := by
  unfold items itemsOf
  rw [mem_flatMap]
  constructor
  · rintro ⟨scan, listed, member⟩
    obtain ⟨o, inside, rfl⟩ := mem_map.1 member
    obtain ⟨present, under⟩ := mem_filter.1 inside
    exact ⟨listed, present, by simpa using under⟩
  · rintro ⟨listed, present, under⟩
    exact ⟨_, listed, mem_map.2 ⟨item.object, mem_filter.2 ⟨present, by simpa using under⟩, rfl⟩⟩

/-- An organization's prefix is scanned for that organization. -/
theorem owns_of_mem_prefixes {s : Snapshot} {dir : DataPrefix} {orgId : String} (listed : (dir, orgId) ∈ s.prefixes answered) :
    Owns orgId dir := by
  unfold prefixes at listed
  simp only [answered, if_true] at listed
  have own : (dir, orgId) ∈ s.organizations.map (fun id => (DataPrefix.org id, id)) → Owns orgId dir := by
    intro member
    obtain ⟨id, -, same⟩ := mem_map.1 member
    obtain ⟨rfl, rfl⟩ := Prod.mk.inj same
    rfl
  split at listed
  · exact own listed
  · obtain same | member := mem_cons.1 listed
    · obtain ⟨rfl, -⟩ := Prod.mk.inj same
      trivial
    · exact own member

theorem mem_knownKeys_answered {s : Snapshot} {key : S3Key} :
    key ∈ s.knownKeys answered ↔ ∃ orgId ∈ s.organizations, ∃ topic ∈ s.topics orgId,
      ∃ partitionId ∈ s.partitions orgId topic, ∃ info ∈ s.store.rows ⟨orgId, topic, partitionId⟩, info.s3Key = key := by
  simp only [knownKeys, answered, if_true, mem_flatMap, mem_map, mem_getSegments]

/-- Metadata that may be behind the bucket: its watermarks are past its segments. Keys
have the ranges of their types, and each names one object. -/
structure Valid (bucket : List SegmentObject) (s : Snapshot) : Prop where
  covered : Metadata.Covered s.store
  unique : ∀ o ∈ bucket, ∀ o' ∈ bucket, o.key = o'.key → o = o'
  range : ∀ o ∈ bucket, ∀ dir topic partitionId baseOffset, o.key = .segment dir topic partitionId baseOffset →
    partitionId < 2 ^ 32 ∧ baseOffset < 2 ^ 64

/-- What an object that is not registered needs to be recovered: it was written by
`roll_segment`, is under a scanned prefix and readable, its topic has no slash and its
partition a row, and its id is neither taken nor tried for an object before it. -/
def Recoverable (bucket : List SegmentObject) (s : Snapshot) (o : SegmentObject) : Prop :=
  ∃ before item after topic partitionId baseOffset header, s.items bucket = before ++ item :: after ∧ item.object = o ∧
    o.key = .segment item.dir topic partitionId baseOffset ∧ o.header = some header ∧ '/' ∉ topic.toList ∧
    (s.store.highWatermark ⟨item.orgId, topic, partitionId⟩).isSome ∧ o.key ∉ s.knownKeys answered ∧
    Free s.store (.segment topic partitionId baseOffset) ∧
    ∀ other ∈ before, ∀ header', ¬ Attempt (s.knownKeys answered) other topic partitionId baseOffset header'

/-- Where the watermarks are past the segments, only the partition's row matters. -/
theorem registered_iff (covered : Metadata.Covered m) {o : SegmentObject} :
    Registered m o ↔ ∃ header r, o.header = some header ∧ r ∈ m.segments ∧ Describes r o header ∧
      (m.highWatermark r.partition).isSome := by
  constructor
  · rintro ⟨header, r, readable, member, describes, high, stored, -⟩
    exact ⟨header, r, readable, member, describes, by rw [Option.mem_def.1 stored]; rfl⟩
  · rintro ⟨header, r, readable, member, describes, present⟩
    obtain ⟨high, stored⟩ := Option.isSome_iff_exists.1 present
    refine ⟨header, r, readable, member, describes, high, stored, ?_⟩
    rw [← describes.endOffset]
    exact covered r member high stored

section

variable {bucket : List SegmentObject} {s : Snapshot}

theorem pass_scanned (bucket : List SegmentObject) (s : Snapshot) :
    Scanned (s.knownKeys answered) s.store (s.items bucket) (reconcileFromS3 answered bucket s).2 := by
  rw [reconcileFromS3_answered]
  exact scanned_run _ (⟨0, 0, 0⟩, s.store) _

/-- The row an attempt makes is that of its object, if the key is read back. -/
theorem row_describes (listed : item ∈ s.items bucket) {topic : String} {partitionId baseOffset : Nat}
    (key : item.object.key = .segment item.dir topic partitionId baseOffset) (header : SegmentHeader) :
    Describes (item.row topic partitionId baseOffset header) item.object header := by
  obtain ⟨scanned, -, under⟩ := mem_items.1 listed
  refine ⟨rfl, ?_, ?_, ?_, rfl, rfl⟩
  · rw [under]
    exact owns_of_mem_prefixes scanned
  · rw [key]
    rfl
  · rw [key]
    rfl

/-- A recoverable object is registered. -/
theorem Recoverable.registered (valid : Valid bucket s) {o : SegmentObject} (recoverable : Recoverable bucket s o) :
    Registered (reconcileFromS3 answered bucket s).2 o := by
  obtain ⟨before, item, after, topic, partitionId, baseOffset, header, cut, rfl, key, readable, plain, present, unknown, free,
    first⟩ := recoverable
  have listed : item ∈ s.items bucket := by rw [cut]; simp
  obtain ⟨-, inBucket, -⟩ := mem_items.1 listed
  obtain ⟨partitionRange, offsetRange⟩ := valid.range _ inBucket _ _ _ _ key
  have scanned := pass_scanned bucket s
  have attempt : Attempt (s.knownKeys answered) item topic partitionId baseOffset header := by
    refine ⟨?_, unknown, ?_, readable⟩
    · rw [key]
      exact endsWithSeg_segment _ _ _ _
    · rw [key]
      exact (parseKey_segment partitionRange offsetRange).2 plain
  rw [registered_iff (scanned.grown.covered valid.covered)]
  refine ⟨header, item.row topic partitionId baseOffset header, readable, ?_, row_describes listed key header, ?_⟩
  · rw [reconcileFromS3_answered, cut]
    exact registered_run attempt free first
  · rw [scanned.grown.partitions]
    exact present

/-- A registered object was registered before, or was recoverable. -/
theorem recoverable_of_registered (valid : Valid bucket s) {o : SegmentObject} (inBucket : o ∈ bucket)
    (registered : Registered (reconcileFromS3 answered bucket s).2 o) : Registered s.store o ∨ Recoverable bucket s o := by
  have scanned := pass_scanned bucket s
  obtain ⟨header, r, readable, member, describes, present⟩ :=
    (registered_iff (scanned.grown.covered valid.covered)).1 registered
  rw [scanned.grown.partitions] at present
  obtain old | ⟨before, item, after, topic, partitionId, baseOffset, header', cut, attempt, rfl, free, first⟩ :=
    scanned.origin r member
  · exact .inl ((registered_iff valid.covered).2 ⟨header, r, readable, old, describes, present⟩)
  · right
    have listed : item ∈ s.items bucket := by rw [cut]; simp
    obtain ⟨-, itemInBucket, under⟩ := mem_items.1 listed
    obtain rfl : item.object = o := valid.unique _ itemInBucket _ inBucket describes.s3Key
    -- only a key of `roll_segment` has the suffix
    obtain ⟨dir, topic', partitionId', baseOffset', key⟩ : ∃ dir topic' partitionId' baseOffset',
        item.object.key = .segment dir topic' partitionId' baseOffset' := by
      have suffix := attempt.suffix
      cases key : item.object.key with
      | segment dir topic' partitionId' baseOffset' => exact ⟨_, _, _, _, rfl⟩
      | compacted dir topic' partitionId' baseOffset' =>
        rw [key, endsWithSeg_compacted] at suffix
        cases suffix
    obtain rfl : dir = item.dir := by rw [← under, key]; rfl
    obtain rfl : topic = topic' := by
      have same := describes.topic
      rw [key] at same
      exact same
    obtain ⟨partitionRange, offsetRange⟩ := valid.range _ itemInBucket _ _ _ _ key
    have plain := parseKey_topic attempt.parsed
    have parsed := attempt.parsed
    rw [key, (parseKey_segment partitionRange offsetRange).2 plain] at parsed
    obtain ⟨rfl, rfl⟩ : partitionId' = partitionId ∧ baseOffset' = baseOffset := by simpa using parsed
    exact ⟨before, item, after, topic, partitionId', baseOffset', header, cut, rfl, key, readable, plain, present,
      attempt.unknown, free, first⟩

/-- What is known stays known. -/
theorem knownKeys_grown (grown : Grown s.store m) {key : S3Key} (known : key ∈ s.knownKeys answered) :
    key ∈ knownKeys answered { s with store := m } := by
  obtain ⟨orgId, org, topic, inTopics, partitionId, inPartitions, info, row, same⟩ := mem_knownKeys_answered.1 known
  obtain ⟨r, member, partition, rfl⟩ := mem_rows.1 row
  refine mem_knownKeys_answered.2 ⟨orgId, org, topic, inTopics, partitionId, inPartitions, r.info, ?_, same⟩
  exact mem_rows.2 ⟨r, grown.rows r member, partition, rfl⟩

/-- Where every id is taken the loop does nothing. -/
theorem idle_run {items : List Item} {s : ReconcileFromS3Stats × SegmentStore}
    (taken : ∀ item ∈ items, ∀ topic partitionId baseOffset header, Attempt known item topic partitionId baseOffset header →
      ¬ Free s.2 (.segment topic partitionId baseOffset)) :
    (items.foldl (registerObject answered known) s).1.segmentsRegistered = s.1.segmentsRegistered ∧
      (items.foldl (registerObject answered known) s).2 = s.2 := by
  induction items generalizing s with
  | nil => exact ⟨rfl, rfl⟩
  | cons item items ih =>
    obtain ⟨first, others⟩ := forall_mem_cons.1 taken
    rw [foldl_cons]
    cases registerObject_turned known s item with
    | registered topic partitionId baseOffset header attempt free store =>
      exact absurd free (first topic partitionId baseOffset header attempt)
    | passed _ count store =>
      rw [← count, ← store]
      apply ih
      rw [store]
      exact others

/-- A second pass finds every id it tries taken. -/
theorem second_pass (bucket : List SegmentObject) (s : Snapshot) :
    ∃ stats, reconcileFromS3 answered bucket { s with store := (reconcileFromS3 answered bucket s).2 } =
      (some stats, (reconcileFromS3 answered bucket s).2) ∧ stats.segmentsRegistered = 0 := by
  have scanned := pass_scanned bucket s
  generalize (reconcileFromS3 answered bucket s).2 = m at scanned ⊢
  have taken : ∀ item ∈ s.items bucket, ∀ topic partitionId baseOffset header,
      Attempt (knownKeys answered { s with store := m }) item topic partitionId baseOffset header →
      ¬ Free m (.segment topic partitionId baseOffset) := by
    intro item member topic partitionId baseOffset header attempt
    have unknown : item.object.key ∉ s.knownKeys answered :=
      fun known => attempt.unknown (knownKeys_grown scanned.grown known)
    exact scanned.taken item member topic partitionId baseOffset header ⟨attempt.suffix, unknown, attempt.parsed, attempt.header⟩
  have idle := idle_run (s := (⟨0, 0, 0⟩, m)) taken
  rw [reconcileFromS3_answered]
  refine ⟨_, Prod.ext rfl idle.2, idle.1⟩

end

namespace Example

/-- The file of `twoRecords`, offsets 5 and 7. -/
def segmentFile : Bytes :=
  match (appendAll packages 1 (.new .lz4) twoRecords).bind fun w => w.finish packages with
  | .ok bytes => bytes
  | .error _ => []

def rolledObject : SegmentObject := ⟨.segment (.org "1") "events" 0 5, segmentFile, 0⟩

def compactedObject : SegmentObject := ⟨.compacted (.org "1") "events" 0 5, segmentFile, 0⟩

/-- One organization with one partition, and no segment registered. -/
def restored : Snapshot :=
  ⟨["1"], fun orgId => if orgId = "1" then ["events"] else [], fun orgId topic => if orgId = "1" ∧ topic = "events" then [0] else [],
    ⟨[], fun k => if k = ⟨"1", "events", 0⟩ then some 0 else none⟩⟩

theorem restored_valid (o : SegmentObject) (range : ∀ dir topic partitionId baseOffset,
    o.key = .segment dir topic partitionId baseOffset → partitionId < 2 ^ 32 ∧ baseOffset < 2 ^ 64) : Valid [o] restored := by
  refine ⟨?_, ?_, ?_⟩
  · intro r member
    cases member
  · intro a inside b inside' _
    obtain rfl := mem_singleton.1 inside
    obtain rfl := mem_singleton.1 inside'
    rfl
  · intro a inside
    obtain rfl := mem_singleton.1 inside
    exact range

end Example

open Example

end StreamHouse.Storage
