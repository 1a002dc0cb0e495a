import StreamHouse.Metadata.Segments
import StreamHouse.Storage.ObjectKeys

/-!
# Deleting orphaned objects

`S3Reconciler::reconcile` (`reconciler.rs`): the `.seg` objects under the known
prefixes, less the keys that the metadata store knows, are deleted once they are old
enough. The store is asked call by call while others write to it, so a `Pass` holds,
for each call, the state it was answered from, or nothing if it failed; for each
deletion, the state at that moment.
-/

namespace StreamHouse.Storage
open Metadata List

/-- The columns of a `segments` row that `reconcile` reads. -/
structure KeyRow where
  partition : PartitionKey
  s3Key : String
deriving DecidableEq

/-- The metadata store as `reconcile` sees it. -/
structure Catalog where
  organizations : List String
  topics : String → List String
  partitions : String → String → List Nat
  rows : List KeyRow

/-- The keys `get_segments` gives for a partition. -/
def Catalog.keys (c : Catalog) (k : PartitionKey) : List String :=
  (c.rows.filter fun r => r.partition == k).map KeyRow.s3Key

/-- One run of `reconcile`: the clock, and what each call meets. -/
structure Pass where
  now : Int
  graceMs : Int
  /-- The first `list_organizations`, for the prefixes. -/
  orgsForPrefixes : Option Catalog
  /-- `list`: the objects under a prefix with their `last_modified`. -/
  listing : String → Option (List (String × Int))
  /-- The second `list_organizations`, for the known keys. -/
  orgsForKeys : Option Catalog
  topicsAt : String → Option Catalog
  partitionsAt : String → String → Option Catalog
  segmentsAt : PartitionKey → Option Catalog
  deleteAt : String → Catalog
  deletes : String → Bool

/-- A loop over fallible calls with `?`: everything they return, or the first failure. -/
def gather {α β : Type} (call : α → Option (List β)) : List α → Option (List β)
  | [] => some []
  | a :: as => do
    let found ← call a
    let others ← gather call as
    some (found ++ others)

namespace Pass

/-- The prefixes to scan; without an answer only the legacy one. -/
def prefixes (p : Pass) : List String :=
  match p.orgsForPrefixes with
  | none => ["data/"]
  | some c => c.organizations.foldl (fun known id =>
      let orgPrefix := "org-" ++ id ++ "/data/"
      if known.contains orgPrefix then known else known ++ [orgPrefix]) ["data/"]

def s3Keys (p : Pass) : Option (List (String × Int)) :=
  gather (fun dir => (p.listing dir).map fun found => found.filter fun object => endsWithSeg object.1.toList) p.prefixes

/-- `org_ids`: none if the call fails. -/
def orgIds (p : Pass) : List String :=
  match p.orgsForKeys with
  | none => []
  | some c => c.organizations

def knownKeys (p : Pass) : Option (List String) :=
  gather (fun orgId => (p.topicsAt orgId).bind fun c =>
    gather (fun topic => (p.partitionsAt orgId topic).bind fun c =>
      gather (fun partitionId => (p.segmentsAt ⟨orgId, topic, partitionId⟩).map fun c => c.keys ⟨orgId, topic, partitionId⟩)
        (c.partitions orgId topic))
      (c.topics orgId))
    p.orgIds

/-- `reconcile`: the keys it deletes, or nothing if it returns an error. -/
def reconcile (p : Pass) : Option (List String) := do
  let s3Keys ← p.s3Keys
  if s3Keys = [] then some []
  else
    let knownKeys ← p.knownKeys
    some ((s3Keys.filter fun (key, lastModified) =>
      !knownKeys.contains key && !decide (p.now - lastModified < p.graceMs) && p.deletes key).map Prod.fst)

end Pass

/-- No object is deleted while a segment with its key is registered. -/
def DeletesNoLive (p : Pass) (deleted : List String) : Prop :=
  ∀ key ∈ deleted, ∀ r ∈ (p.deleteAt key).rows, r.s3Key ≠ key

/-- An object that the pass deletes unless it knows the key: listed under a scanned
prefix, with the suffix, past the grace period, and the deletion goes through. -/
structure Candidate (p : Pass) (key : String) : Prop where
  listed : ∃ dir ∈ p.prefixes, ∃ found ∈ p.listing dir, ∃ lastModified, (key, lastModified) ∈ found ∧
    p.graceMs ≤ p.now - lastModified
  suffix : endsWithSeg key.toList = true
  deletes : p.deletes key = true

/-- A row that the pass can read: when it asked, the organization, the topic, the
partition and the row itself were in the answers. -/
structure Readable (p : Pass) (r : KeyRow) : Prop where
  organization : ∃ c ∈ p.orgsForKeys, r.partition.orgId ∈ c.organizations
  topic : ∃ c ∈ p.topicsAt r.partition.orgId, r.partition.topic ∈ c.topics r.partition.orgId
  partition : ∃ c ∈ p.partitionsAt r.partition.orgId r.partition.topic,
    r.partition.partitionId ∈ c.partitions r.partition.orgId r.partition.topic
  row : ∃ c ∈ p.segmentsAt r.partition, r ∈ c.rows

/-- A loop that ends well has collected what each of its calls returned. -/
theorem mem_gather {α β : Type} {call : α → Option (List β)} {as : List α} {all : List β} (done : gather call as = some all)
    {b : β} : b ∈ all ↔ ∃ a ∈ as, ∃ found ∈ call a, b ∈ found := by
  induction as generalizing all with
  | nil =>
    obtain rfl := Option.some.inj done
    simp
  | cons a as ih =>
    obtain ⟨found, first, done⟩ := Option.bind_eq_some_iff.1 done
    obtain ⟨others, rest, done⟩ := Option.bind_eq_some_iff.1 done
    obtain rfl := Option.some.inj done
    rw [mem_append, ih rest]
    constructor
    · rintro (here | ⟨a', member, there⟩)
      · exact ⟨a, mem_cons_self, found, first, here⟩
      · exact ⟨a', mem_cons_of_mem _ member, there⟩
    · rintro ⟨a', member, found', called, inside⟩
      obtain rfl | later := mem_cons.1 member
      · left
        obtain rfl := Option.some.inj (first.symm.trans called)
        exact inside
      · exact .inr ⟨a', later, found', called, inside⟩

/-- A call inside the loop is made only if the calls around it have ended well. -/
theorem gather_some {α β : Type} {call : α → Option (List β)} {as : List α} {all : List β} (done : gather call as = some all)
    {a : α} (member : a ∈ as) : ∃ found, call a = some found := by
  induction as generalizing all with
  | nil => cases member
  | cons b as ih =>
    obtain ⟨found, first, done⟩ := Option.bind_eq_some_iff.1 done
    obtain ⟨others, rest, done⟩ := Option.bind_eq_some_iff.1 done
    obtain rfl | later := mem_cons.1 member
    · exact ⟨found, first⟩
    · exact ih rest later

namespace Pass

variable {p : Pass}

theorem mem_keys {c : Catalog} {k : PartitionKey} {key : String} :
    key ∈ c.keys k ↔ ∃ r ∈ c.rows, r.partition = k ∧ r.s3Key = key := by
  simp [Catalog.keys, and_assoc]

theorem mem_orgIds {orgId : String} : orgId ∈ p.orgIds ↔ ∃ c ∈ p.orgsForKeys, orgId ∈ c.organizations := by
  unfold orgIds
  cases p.orgsForKeys <;> simp

/-- The known keys are those of the rows that can be read. -/
theorem mem_knownKeys {known : List String} (done : p.knownKeys = some known) {key : String} :
    key ∈ known ↔ ∃ r, r.s3Key = key ∧ Readable p r := by
  constructor
  · intro member
    obtain ⟨orgId, org, topics, listed, member⟩ := (mem_gather done).1 member
    obtain ⟨c, topicsAt, listed⟩ := Option.bind_eq_some_iff.1 (Option.mem_def.1 listed)
    obtain ⟨topic, inTopics, partitions, parts, member⟩ := (mem_gather listed).1 member
    obtain ⟨c', partitionsAt, parts⟩ := Option.bind_eq_some_iff.1 (Option.mem_def.1 parts)
    obtain ⟨partitionId, inPartitions, keys, segments, member⟩ := (mem_gather parts).1 member
    obtain ⟨c'', segmentsAt, rfl⟩ := Option.map_eq_some_iff.1 (Option.mem_def.1 segments)
    obtain ⟨r, row, same, rfl⟩ := mem_keys.1 member
    refine ⟨r, rfl, ?_⟩
    obtain ⟨k, s3Key⟩ := r
    obtain rfl : k = _ := same
    exact ⟨mem_orgIds.1 org, ⟨c, topicsAt, inTopics⟩, ⟨c', partitionsAt, inPartitions⟩, ⟨c'', segmentsAt, row⟩⟩
  · rintro ⟨⟨⟨orgId, topic, partitionId⟩, s3Key⟩, rfl, readable⟩
    obtain ⟨c, topicsAt, inTopics⟩ := readable.topic
    obtain ⟨c', partitionsAt, inPartitions⟩ := readable.partition
    obtain ⟨c'', segmentsAt, row⟩ := readable.row
    have org := mem_orgIds.2 readable.organization
    obtain ⟨topics, ofOrg⟩ := gather_some done org
    refine (mem_gather done).2 ⟨orgId, org, topics, ofOrg, ?_⟩
    obtain ⟨c1, answered, listed⟩ := Option.bind_eq_some_iff.1 ofOrg
    obtain rfl := Option.some.inj (answered.symm.trans topicsAt)
    obtain ⟨parts, ofTopic⟩ := gather_some listed inTopics
    refine (mem_gather listed).2 ⟨topic, inTopics, parts, ofTopic, ?_⟩
    obtain ⟨c2, answered, found⟩ := Option.bind_eq_some_iff.1 ofTopic
    obtain rfl := Option.some.inj (answered.symm.trans partitionsAt)
    refine (mem_gather found).2 ⟨partitionId, inPartitions, _, Option.map_eq_some_iff.2 ⟨c'', segmentsAt, rfl⟩, ?_⟩
    exact mem_keys.2 ⟨_, row, rfl, rfl⟩

theorem mem_s3Keys {s3Keys : List (String × Int)} (done : p.s3Keys = some s3Keys) {key : String} {lastModified : Int} :
    (key, lastModified) ∈ s3Keys ↔
      ∃ dir ∈ p.prefixes, ∃ found ∈ p.listing dir, (key, lastModified) ∈ found ∧ endsWithSeg key.toList = true := by
  rw [mem_gather done]
  constructor
  · rintro ⟨dir, scanned, kept, listed, member⟩
    obtain ⟨found, listing, rfl⟩ := Option.map_eq_some_iff.1 (Option.mem_def.1 listed)
    obtain ⟨inside, suffix⟩ := mem_filter.1 member
    exact ⟨dir, scanned, found, listing, inside, suffix⟩
  · rintro ⟨dir, scanned, found, listing, inside, suffix⟩
    exact ⟨dir, scanned, _, Option.map_eq_some_iff.2 ⟨found, listing, rfl⟩, mem_filter.2 ⟨inside, suffix⟩⟩

/-- A candidate is an object of the list that is old enough and whose deletion goes through. -/
theorem candidate_iff {s3Keys : List (String × Int)} (done : p.s3Keys = some s3Keys) {key : String} :
    Candidate p key ↔ ∃ lastModified, (key, lastModified) ∈ s3Keys ∧ p.graceMs ≤ p.now - lastModified ∧ p.deletes key = true := by
  constructor
  · rintro ⟨⟨dir, scanned, found, listing, lastModified, inside, old⟩, suffix, deletes⟩
    exact ⟨lastModified, (mem_s3Keys done).2 ⟨dir, scanned, found, listing, inside, suffix⟩, old, deletes⟩
  · rintro ⟨lastModified, member, old, deletes⟩
    obtain ⟨dir, scanned, found, listing, inside, suffix⟩ := (mem_s3Keys done).1 member
    exact ⟨⟨dir, scanned, found, listing, lastModified, inside, old⟩, suffix, deletes⟩

/-- What a pass that ends well deletes: the candidates without a row that it can read. -/
theorem mem_deleted {deleted : List String} (done : p.reconcile = some deleted) {key : String} :
    key ∈ deleted ↔ Candidate p key ∧ ¬ ∃ r, r.s3Key = key ∧ Readable p r := by
  obtain ⟨s3Keys, scanned, done⟩ := Option.bind_eq_some_iff.1 done
  rw [candidate_iff scanned]
  split at done
  · next empty =>
    obtain rfl := Option.some.inj done
    subst empty
    simp
  · obtain ⟨known, asked, done⟩ := Option.bind_eq_some_iff.1 done
    obtain rfl := Option.some.inj done
    rw [← mem_knownKeys asked, mem_map]
    constructor
    · rintro ⟨⟨key', lastModified⟩, member, rfl⟩
      obtain ⟨listed, doomed⟩ := mem_filter.1 member
      simp only [Bool.and_eq_true, Bool.not_eq_true', decide_eq_false_iff_not, contains_eq_mem] at doomed
      obtain ⟨⟨unknown, old⟩, deletes⟩ := doomed
      exact ⟨⟨lastModified, listed, by omega, deletes⟩, unknown⟩
    · rintro ⟨⟨lastModified, listed, old, deletes⟩, unknown⟩
      refine ⟨(key, lastModified), mem_filter.2 ⟨listed, ?_⟩, rfl⟩
      simp only [Bool.and_eq_true, Bool.not_eq_true', decide_eq_false_iff_not, contains_eq_mem]
      exact ⟨⟨unknown, by omega⟩, deletes⟩

end Pass

/-- A pass deletes no live object exactly if, whenever a candidate is registered at the
moment of its deletion, a row with its key could be read when the pass asked for it. -/
theorem deletesNoLive_iff {p : Pass} {deleted : List String} (done : p.reconcile = some deleted) :
    DeletesNoLive p deleted ↔
      ∀ key, Candidate p key → ∀ r ∈ (p.deleteAt key).rows, r.s3Key = key → ∃ r', r'.s3Key = key ∧ Readable p r' := by
  constructor
  · intro noLive key candidate r registered same
    by_contra unread
    exact noLive key ((Pass.mem_deleted done).2 ⟨candidate, unread⟩) r registered same
  · intro readable key member r registered same
    obtain ⟨candidate, unread⟩ := (Pass.mem_deleted done).1 member
    exact unread (readable key candidate r registered same)

namespace Example

def liveKey : String := "org-1/data/events/0/00000000000000000000.seg"

def liveRow : KeyRow := ⟨⟨"1", "events", 0⟩, liveKey⟩

/-- One organization with one topic, one partition and one segment. -/
def catalog : Catalog :=
  ⟨["1"], fun orgId => if orgId = "1" then ["events"] else [], fun orgId topic => if orgId = "1" ∧ topic = "events" then [0] else [],
    [liveRow]⟩

/-- Its object, written an hour before a pass with the default grace period. The second
`list_organizations` fails. -/
def forgetfulPass : Pass :=
  ⟨7200000, 3600000, some catalog, fun dir => some (if dir = "org-1/data/" then [(liveKey, 3600000)] else []), none,
    fun _ => some catalog, fun _ _ => some catalog, fun _ => some catalog, fun _ => catalog, fun _ => true⟩

/-- The same with every call answered. -/
def answeredPass : Pass := { forgetfulPass with orgsForKeys := some catalog }

end Example

open Example

theorem deletesNoLive_fails : ∃ deleted, forgetfulPass.reconcile = some deleted ∧
    ¬ DeletesNoLive forgetfulPass deleted := by
  refine ⟨[liveKey], by decide, ?_⟩
  intro noLive
  exact noLive liveKey mem_cons_self liveRow mem_cons_self rfl

theorem deletesNoLive_iff_answered : ∃ deleted, answeredPass.reconcile = some deleted ∧
    DeletesNoLive answeredPass deleted := by
  have done : answeredPass.reconcile = some [] := by decide
  refine ⟨[], done, (deletesNoLive_iff done).2 ?_⟩
  intro key _ r registered same
  obtain rfl := mem_singleton.1 registered
  exact ⟨liveRow, same, ⟨_, rfl, by decide⟩, ⟨_, rfl, by decide⟩, ⟨_, rfl, by decide⟩, ⟨_, rfl, by decide⟩⟩

end StreamHouse.Storage
