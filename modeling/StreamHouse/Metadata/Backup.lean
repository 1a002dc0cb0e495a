import StreamHouse.Lib.Run
import StreamHouse.Metadata.Catalog

/-!
# Metadata backups

`MetadataBackup` of `backup.rs`: the export of a whole store or of one organization, and the restore
through the statements of the store, whose errors are counted. What serde derives for the backup and
the ids that are drawn for organizations are parameters.
-/

namespace StreamHouse.Metadata

open Lib List OrganizationQuota

def backupVersion : Nat := 1

structure TopicBackup where
  topic : Topic
  segments : List SegmentInfo
deriving DecidableEq

structure ConsumerOffsetBackup where
  groupId : String
  topic : String
  partition : Nat
  offset : Nat
deriving DecidableEq

structure OrganizationBackup where
  organization : Organization
  quota : Option OrganizationQuota
deriving DecidableEq

structure MetadataBackup where
  version : Nat
  createdAt : Int
  description : Option String
  organizationId : Option String
  topics : List TopicBackup
  consumerOffsets : List ConsumerOffsetBackup
  organizations : List OrganizationBackup
deriving DecidableEq

structure RestoreStats where
  topicsCreated : Nat
  topicsSkipped : Nat
  segmentsRestored : Nat
  segmentsSkipped : Nat
  offsetsRestored : Nat
  offsetsFailed : Nat
  organizationsCreated : Nat
  organizationsSkipped : Nat

/-- `Default`. -/
def RestoreStats.none : RestoreStats := ⟨0, 0, 0, 0, 0, 0, 0, 0⟩

/-- What the restore reads of an organization. -/
def OrganizationBackup.create (b : OrganizationBackup) : CreateOrganization where
  name := b.organization.name
  slug := b.organization.slug
  plan := b.organization.plan
  settings := []
  externalId := b.organization.externalId
  deploymentMode := b.organization.deploymentMode

/-- What the restore reads of a topic. -/
def TopicBackup.config (b : TopicBackup) : TopicConfig where
  name := b.topic.name
  partitionCount := b.topic.partitionCount
  retentionMs := b.topic.retentionMs
  cleanupPolicy := b.topic.cleanupPolicy
  config := []

namespace MetadataBackup

/-! ## Export -/

/-- `MetadataBackup::new`. -/
def new (createdAt : Int) : MetadataBackup := ⟨backupVersion, createdAt, none, none, [], [], []⟩

variable (m : Catalog)

/-- The segments that the organizations have under the name of a topic. -/
def allSegments (orgIds : List String) (topic : Topic) : List SegmentInfo :=
  orgIds.flatMap fun orgId => (List.range topic.partitionCount).flatMap fun p => m.getSegments ⟨orgId, topic.name, p⟩

def exportOffsets : List ConsumerOffsetBackup :=
  m.listConsumerGroups.flatMap fun groupId =>
    (m.getConsumerOffsets groupId).map fun o => ⟨o.groupId, o.topic, o.partitionId, o.committedOffset⟩

/-- `from_store`. -/
def fromStore (createdAt : Int) : MetadataBackup :=
  let orgs := m.listOrganizations
  let orgIds := if orgs = [] then [""] else orgs.map Organization.id
  { new createdAt with
    topics := m.listTopics.map fun topic => ⟨topic, allSegments m orgIds topic⟩
    consumerOffsets := exportOffsets m
    organizations := orgs.map fun org => ⟨org, some (m.getOrganizationQuota org.id)⟩ }

/-- `from_store_for_org`. -/
def fromStoreForOrg (orgId : String) (createdAt : Int) : MetadataBackup :=
  { new createdAt with
    organizationId := some orgId
    topics := (m.listTopicsForOrg orgId).map fun topic => ⟨topic, allSegments m [orgId] topic⟩
    consumerOffsets := exportOffsets m
    organizations := ((m.getOrganization orgId).map fun org => ⟨org, some (m.getOrganizationQuota orgId)⟩).toList }

/-! ## Restore -/

variable (newId : Nat → String) (now : Int)

def restoreOrganization (state : Catalog × RestoreStats) (b : OrganizationBackup) : Catalog × RestoreStats :=
  match state.1.createOrganization (newId (state.2.organizationsCreated + state.2.organizationsSkipped)) b.create now with
  | some m => (m, { state.2 with organizationsCreated := state.2.organizationsCreated + 1 })
  | none => (state.1, { state.2 with organizationsSkipped := state.2.organizationsSkipped + 1 })

def restoreSegment (orgId : String) (state : Catalog × RestoreStats) (segment : SegmentInfo) : Catalog × RestoreStats :=
  match state.1.addSegment orgId segment with
  | some m => (m, { state.2 with segmentsRestored := state.2.segmentsRestored + 1 })
  | none => (state.1, { state.2 with segmentsSkipped := state.2.segmentsSkipped + 1 })

def restoreTopicAlone (orgId : String) (state : Catalog × RestoreStats) (b : TopicBackup) : Catalog × RestoreStats :=
  match state.1.createTopicForOrg orgId b.config now with
  | some m => (m, { state.2 with topicsCreated := state.2.topicsCreated + 1 })
  | none => (state.1, { state.2 with topicsSkipped := state.2.topicsSkipped + 1 })

def restoreTopic (orgId : String) (state : Catalog × RestoreStats) (b : TopicBackup) : Catalog × RestoreStats :=
  run (restoreSegment orgId) (restoreTopicAlone now orgId state b) b.segments

def restoreOffset (state : Catalog × RestoreStats) (b : ConsumerOffsetBackup) : Catalog × RestoreStats :=
  match state.1.commitOffset b.groupId b.topic b.partition b.offset none with
  | some m => (m, { state.2 with offsetsRestored := state.2.offsetsRestored + 1 })
  | none => (state.1, { state.2 with offsetsFailed := state.2.offsetsFailed + 1 })

/-- `restore_to`. -/
def restoreTo (b : MetadataBackup) : Catalog × RestoreStats :=
  let orgId := b.organizationId.getD ""
  let organizations := run (restoreOrganization newId now) (m, .none) b.organizations
  run restoreOffset (run (restoreTopic now orgId) organizations b.topics) b.consumerOffsets

end MetadataBackup

open MetadataBackup

/-- The code of other crates: what serde derives for backups, and `Uuid::new_v4`. -/
structure BackupCrates where
  toJson : MetadataBackup → String
  parse : String → Option MetadataBackup
  newId : Nat → String

namespace BackupCrates

/-- The backup is read as it was written; of `n` new ids no two are the same, and none is empty or the nil id. -/
structure Documented (crates : BackupCrates) (b : MetadataBackup) (n : Nat) : Prop where
  reads : crates.parse (crates.toJson b) = some b
  distinct : ∀ i < n, ∀ j < n, crates.newId i = crates.newId j → i = j
  versioned : ∀ i, crates.newId i ≠ "" ∧ crates.newId i ≠ Catalog.defaultOrganizationId

variable (crates : BackupCrates)

/-- `from_json`. -/
def fromJson (json : String) : Option MetadataBackup :=
  (crates.parse json).bind fun b => if backupVersion < b.version then none else some b

/-- The export of a store, written and read and restored into an empty store. -/
def restored (m : Catalog) (createdAt now : Int) : Option Catalog :=
  (crates.fromJson (crates.toJson (.fromStore m createdAt))).map fun b => (b.restoreTo .empty crates.newId now).1

end BackupCrates

namespace Catalog

/-- What the constraints of the tables say. -/
structure Valid (m : Catalog) : Prop where
  slugs : m.organizations.Pairwise fun a b => a.slug ≠ b.slug
  externalIds : m.organizations.Pairwise fun a b => b.externalId.isSome = true → a.externalId ≠ b.externalId
  partitions : ∀ k, (m.segments.highWatermark k).isSome = true → ∃ r ∈ m.topics, r.organizationId = k.orgId ∧ r.name = k.topic
  offsets : ∀ r ∈ m.consumerOffsets, ∀ r' ∈ m.consumerOffsets, r.key = r'.key → r = r'

/-! ## What a backup is for -/

/-- A topic without the time it was created at. -/
def described (topic : Topic) : TopicConfig where
  name := topic.name
  partitionCount := topic.partitionCount
  retentionMs := topic.retentionMs
  cleanupPolicy := topic.cleanupPolicy
  config := topic.config

/-- An organization has in `m'`, under another id, what it has in `m`. -/
structure Reproduces (m m' : Catalog) (org org' : Organization) : Prop where
  plan : org'.plan = org.plan
  quota : { m'.getOrganizationQuota org'.id with organizationId := org.id } = m.getOrganizationQuota org.id
  topics : (m'.listTopicsForOrg org'.id).map described = (m.listTopicsForOrg org.id).map described
  segments : ∀ topic p, m'.getSegments ⟨org'.id, topic, p⟩ = m.getSegments ⟨org.id, topic, p⟩
  watermarks : ∀ topic p, m'.segments.highWatermark ⟨org'.id, topic, p⟩ = m.segments.highWatermark ⟨org.id, topic, p⟩
  offsets : ∀ groupId topic p, m'.getCommittedOffsetForOrg org'.id groupId topic p = m.getCommittedOffsetForOrg org.id groupId topic p

/-- Every organization, known by its slug, has in `m'` what it has in `m`. -/
def RoundTrip (m m' : Catalog) : Prop :=
  ∀ org ∈ m.organizations, ∃ org' ∈ m'.organizations, org'.slug = org.slug ∧ Reproduces m m' org org'

/-- Nothing in the backup belongs to another organization. -/
structure OwnOnly (m : Catalog) (orgId : String) (b : MetadataBackup) : Prop where
  topics : ∀ t ∈ b.topics, (∃ r ∈ m.topics, r.organizationId = orgId ∧ r.topic = t.topic) ∧
    ∀ segment ∈ t.segments, ∃ r ∈ m.segments.segments, r.organizationId = orgId ∧ r.info = segment
  offsets : ∀ o ∈ b.consumerOffsets, ∃ r ∈ m.consumerOffsets,
    r.organizationId = orgId ∧ r.key = (o.groupId, o.topic, o.partition) ∧ r.committedOffset = o.offset
  organizations : ∀ o ∈ b.organizations, o.organization ∈ m.organizations ∧ o.organization.id = orgId ∧
    ∀ quota ∈ o.quota, quota.organizationId = orgId

/-- The organizations have default quotas, no topics, segments or offsets. -/
def OrganizationsOnly (m : Catalog) : Prop :=
  ∀ org ∈ m.organizations, m.getOrganizationQuota org.id = { default with organizationId := org.id } ∧
    (∀ r ∈ m.topics, r.organizationId ≠ org.id) ∧ (∀ r ∈ m.segments.segments, r.organizationId ≠ org.id) ∧
      ∀ r ∈ m.consumerOffsets, r.organizationId ≠ org.id

instance OrganizationsOnly.decidable (m : Catalog) : Decidable m.OrganizationsOnly :=
  inferInstanceAs (Decidable (∀ org ∈ m.organizations, _ ∧ (∀ r ∈ m.topics, _) ∧ (∀ r ∈ m.segments.segments, _) ∧ ∀ r ∈ m.consumerOffsets, _))

/-! ## A restore without an organization -/

/-- Organizations with drawn ids, and nothing else. -/
structure Bare (newId : Nat → String) (m : Catalog) : Prop where
  ids : ∀ org ∈ m.organizations, ∃ i, org.id = newId i
  quotas : m.quotas = []
  topics : m.topics = []
  segments : m.segments = ⟨[], fun _ => none⟩
  offsets : m.consumerOffsets = []

variable {crates : BackupCrates} {m m' : Catalog}

theorem Bare.hasOrganization (bare : Bare crates.newId m) (orgId : String) (never : ∀ i, crates.newId i ≠ orgId) :
    ¬ m.HasOrganization orgId := by
  rintro ⟨org, inside, rfl⟩
  obtain ⟨i, drawn⟩ := bare.ids org inside
  exact never i drawn.symm

end Catalog

namespace MetadataBackup

open Catalog

variable {crates : BackupCrates}

/-- The slugs and external ids of the organizations to come are new, and so are the ids drawn from now on, up to `n`. -/
structure Awaits (crates : BackupCrates) (n : Nat) (state : Catalog × RestoreStats) (backups : List OrganizationBackup) : Prop where
  slugs : ∀ org ∈ state.1.organizations, ∀ b ∈ backups, org.slug ≠ b.organization.slug
  externalIds : ∀ org ∈ state.1.organizations, ∀ b ∈ backups, b.organization.externalId.isSome = true →
    org.externalId ≠ b.organization.externalId
  ids : ∀ org ∈ state.1.organizations, ∃ i < state.2.organizationsCreated + state.2.organizationsSkipped, org.id = crates.newId i
  within : state.2.organizationsCreated + state.2.organizationsSkipped + backups.length ≤ n

theorem restoreOrganizations {whole : MetadataBackup} {total : Nat} (documented : crates.Documented whole total) (now : Int) {backups : List OrganizationBackup}
    (slugs : backups.Pairwise fun a b => a.organization.slug ≠ b.organization.slug)
    (externalIds : backups.Pairwise fun a b =>
      b.organization.externalId.isSome = true → a.organization.externalId ≠ b.organization.externalId)
    (state : Catalog × RestoreStats) (awaits : Awaits crates total state backups) :
    ∃ orgs, (∀ b ∈ backups, ∃ org ∈ orgs, org.slug = b.organization.slug ∧ org.plan = b.organization.plan) ∧
      (∀ org ∈ orgs, ∃ i, org.id = crates.newId i) ∧ (run (restoreOrganization crates.newId now) state backups).1 =
        { state.1 with organizations := state.1.organizations ++ orgs } := by
  induction backups generalizing state with
  | nil => exact ⟨[], (by rintro _ ⟨⟩), (by rintro _ ⟨⟩), by rw [append_nil]; rfl⟩
  | cons b rest ih =>
    obtain ⟨otherSlugs, slugs⟩ := pairwise_cons.mp slugs
    obtain ⟨otherIds, externalIds⟩ := pairwise_cons.mp externalIds
    let n := state.2.organizationsCreated + state.2.organizationsSkipped
    let org : Organization := {
      id := crates.newId n
      name := b.organization.name
      slug := b.organization.slug
      plan := b.organization.plan
      status := .active
      createdAt := now
      settings := []
      externalId := b.organization.externalId
      deploymentMode := b.organization.deploymentMode }
    have created : state.1.createOrganization (crates.newId n) b.create now =
        some { state.1 with organizations := state.1.organizations ++ [org] } := by
      unfold createOrganization
      rw [if_pos]
      · rfl
      · intro other inside
        refine ⟨?_, awaits.slugs other inside b mem_cons_self, awaits.externalIds other inside b mem_cons_self⟩
        obtain ⟨i, before, id⟩ := awaits.ids other inside
        rw [id]
        have within := awaits.within
        rw [length_cons] at within
        intro same
        have : i = n := documented.distinct i (by omega) n (by omega) same
        omega
    have step : restoreOrganization crates.newId now state b =
        ({ state.1 with organizations := state.1.organizations ++ [org] },
          { state.2 with organizationsCreated := state.2.organizationsCreated + 1 }) := by
      unfold restoreOrganization
      rw [created]
    have later : Awaits crates total (restoreOrganization crates.newId now state b) rest := by
      rw [step]
      refine ⟨fun other inside b' member => ?_, fun other inside b' member => ?_, fun other inside => ?_, ?_⟩
      · obtain old | new := mem_append.mp inside
        · exact awaits.slugs other old b' (mem_cons_of_mem _ member)
        · rw [mem_singleton.mp new]
          exact otherSlugs b' member
      · obtain old | new := mem_append.mp inside
        · exact awaits.externalIds other old b' (mem_cons_of_mem _ member)
        · rw [mem_singleton.mp new]
          exact otherIds b' member
      · show ∃ i < state.2.organizationsCreated + 1 + state.2.organizationsSkipped, other.id = crates.newId i
        obtain old | new := mem_append.mp inside
        · obtain ⟨i, before, id⟩ := awaits.ids other old
          exact ⟨i, by omega, id⟩
        · rw [mem_singleton.mp new]
          exact ⟨n, by omega, rfl⟩
      · have within := awaits.within
        rw [length_cons] at within
        show state.2.organizationsCreated + 1 + state.2.organizationsSkipped + rest.length ≤ total
        omega
    obtain ⟨orgs, restored, drawn, after⟩ := ih slugs externalIds _ later
    refine ⟨org :: orgs, fun b' member => ?_, fun other inside => ?_, ?_⟩
    · obtain rfl | member := mem_cons.mp member
      · exact ⟨org, mem_cons_self, rfl, rfl⟩
      · obtain ⟨other, inside, same⟩ := restored b' member
        exact ⟨other, mem_cons_of_mem _ inside, same⟩
    · obtain rfl | inside := mem_cons.mp inside
      · exact ⟨n, rfl⟩
      · exact drawn other inside
    · rw [run_cons, after, step]
      simp only [append_assoc, singleton_append]

/-- Without an organization of the given id neither the topic nor a segment is restored. -/
theorem restoreTopic_skips {state : Catalog × RestoreStats} {orgId : String} (missing : ¬ state.1.HasOrganization orgId) (now : Int)
    (b : TopicBackup) : (restoreTopic now orgId state b).1 = state.1 := by
  have refused : state.1.createTopicForOrg orgId b.config now = none := by
    unfold createTopicForOrg insertTopic
    rw [if_neg fun allowed => missing allowed.1]
  have alone : (restoreTopicAlone now orgId state b).1 = state.1 := by
    unfold restoreTopicAlone
    rw [refused]
  refine run_invariant (fun s : Catalog × RestoreStats => s.1 = state.1) (fun s segment same => ?_) alone b.segments
  have refused : s.1.addSegment orgId segment = none := by
    unfold addSegment
    rw [if_neg fun allowed => missing (same ▸ allowed.1)]
  unfold restoreSegment
  rw [refused]
  exact same

theorem restoreOffset_fails {state : Catalog × RestoreStats} (missing : ¬ state.1.HasOrganization defaultOrganizationId)
    (b : ConsumerOffsetBackup) : (restoreOffset state b).1 = state.1 := by
  have refused : state.1.commitOffset b.groupId b.topic b.partition b.offset none = none := by
    unfold commitOffset
    rw [if_neg missing]
  unfold restoreOffset
  rw [refused]

/-- What an organization becomes, for each organization that a whole store lists. -/
theorem restored_fromStore {m : Catalog} {createdAt : Int}
    (documented : crates.Documented (fromStore m createdAt) m.organizations.length) (valid : m.Valid) (now : Int) :
    ∃ m', crates.restored m createdAt now = some m' ∧ Bare crates.newId m' ∧
      ∀ org ∈ m.organizations, ∃ org' ∈ m'.organizations, org'.slug = org.slug ∧ org'.plan = org.plan := by
  let backups := (fromStore m createdAt).organizations
  have listed : m.listOrganizations.Perm m.organizations := perm_insertionSort _ _
  have slugs : backups.Pairwise fun a b => a.organization.slug ≠ b.organization.slug :=
    pairwise_map.mpr (listed.symm.pairwise valid.slugs fun different => different.symm)
  have externalIds : backups.Pairwise fun a b =>
      b.organization.externalId.isSome = true → a.organization.externalId ≠ b.organization.externalId :=
    pairwise_map.mpr (listed.symm.pairwise valid.externalIds fun different some same => different (same ▸ some) same.symm)
  have size : backups.length = m.organizations.length := (length_map _).trans listed.length_eq
  have awaits : Awaits crates m.organizations.length (Catalog.empty, .none) backups :=
    ⟨(by rintro _ ⟨⟩), (by rintro _ ⟨⟩), (by rintro _ ⟨⟩), by rw [size]; exact (Nat.zero_add _).le⟩
  obtain ⟨orgs, restored, drawn, organizations⟩ := restoreOrganizations documented now slugs externalIds _ awaits
  let t : Catalog := { Catalog.empty with organizations := orgs }
  have bare : Bare crates.newId t := ⟨drawn, rfl, rfl, rfl, rfl⟩
  have noDefault := bare.hasOrganization defaultOrganizationId fun i => (documented.versioned i).2
  have noEmpty := bare.hasOrganization "" fun i => (documented.versioned i).1
  refine ⟨t, ?_, bare, fun org inside => ?_⟩
  · unfold BackupCrates.restored BackupCrates.fromJson
    rw [documented.reads, Option.bind_some, if_neg (by exact Nat.lt_irrefl 1), Option.map_some]
    congr 1
    show (run restoreOffset (run (restoreTopic now "") (run (restoreOrganization crates.newId now) _ backups) _) _).1 = t
    refine run_invariant (fun s : Catalog × RestoreStats => s.1 = t) (fun s b same => ?_) ?_ _
    · rw [restoreOffset_fails (same ▸ noDefault), same]
    · refine run_invariant (fun s : Catalog × RestoreStats => s.1 = t) (fun s b same => ?_) organizations _
      rw [restoreTopic_skips (same ▸ noEmpty), same]
  · have backed : (⟨org, some (m.getOrganizationQuota org.id)⟩ : OrganizationBackup) ∈ backups :=
      mem_map_of_mem (listed.mem_iff.mpr inside)
    exact restored _ backed

end MetadataBackup

/-! ## What comes back -/

namespace Catalog

variable {crates : BackupCrates} {m m' : Catalog} {orgId : String}

theorem listTopicsForOrg_eq_nil : m.listTopicsForOrg orgId = [] ↔ ∀ r ∈ m.topics, r.organizationId ≠ orgId := by
  unfold listTopicsForOrg
  rw [map_eq_nil_iff, ← length_eq_zero_iff, length_insertionSort, length_eq_zero_iff, filter_eq_nil_iff]
  simp only [decide_eq_true_eq, ne_eq]

theorem getSegments_eq_nil :
    (∀ topic p, m.getSegments ⟨orgId, topic, p⟩ = []) ↔ ∀ r ∈ m.segments.segments, r.organizationId ≠ orgId := by
  constructor
  · rintro none r inside rfl
    have listed : r.info ∈ m.getSegments ⟨r.organizationId, r.info.topic, r.info.partitionId⟩ :=
      SegmentStore.mem_getSegments.mpr (SegmentStore.mem_rows.mpr ⟨r, inside, rfl, rfl⟩)
    rw [none] at listed
    cases listed
  · intro others topic p
    refine eq_nil_iff_forall_not_mem.mpr fun segment listed => ?_
    obtain ⟨r, inside, own, -⟩ := SegmentStore.mem_rows.mp (SegmentStore.mem_getSegments.mp listed)
    exact others r inside (congrArg PartitionKey.orgId own)

theorem getCommittedOffsetForOrg_eq_none : (∀ groupId topic p, m.getCommittedOffsetForOrg orgId groupId topic p = none) ↔
    ∀ r ∈ m.consumerOffsets, r.organizationId ≠ orgId := by
  simp only [getCommittedOffsetForOrg, Option.map_eq_none_iff, find?_eq_none, decide_eq_true_eq]
  constructor
  · exact fun none r inside own => none r.groupId r.topic r.partitionId r inside ⟨own, rfl⟩
  · exact fun others groupId topic p r inside found => others r inside found.1

theorem Bare.getOrganizationQuota (bare : Bare crates.newId m') (id : String) :
    m'.getOrganizationQuota id = { default with organizationId := id } := by
  unfold Catalog.getOrganizationQuota
  rw [bare.quotas]
  rfl

theorem Bare.watermarks (bare : Bare crates.newId m') (k : PartitionKey) : m'.segments.highWatermark k = none := by
  rw [bare.segments]

/-- A bare store gives back what organizations have that have nothing. -/
theorem Bare.reproduces_iff (bare : Bare crates.newId m') (valid : m.Valid) {org org' : Organization} (plan : org'.plan = org.plan) :
    Reproduces m m' org org' ↔ m.getOrganizationQuota org.id = { default with organizationId := org.id } ∧
      (∀ r ∈ m.topics, r.organizationId ≠ org.id) ∧ (∀ r ∈ m.segments.segments, r.organizationId ≠ org.id) ∧
        ∀ r ∈ m.consumerOffsets, r.organizationId ≠ org.id := by
  have noTopics : m'.listTopicsForOrg org'.id = [] := listTopicsForOrg_eq_nil.mpr (by rw [bare.topics]; rintro _ ⟨⟩)
  have noSegments : ∀ topic p, m'.getSegments ⟨org'.id, topic, p⟩ = [] :=
    getSegments_eq_nil.mpr (by rw [bare.segments]; rintro _ ⟨⟩)
  have noOffsets : ∀ groupId topic p, m'.getCommittedOffsetForOrg org'.id groupId topic p = none :=
    getCommittedOffsetForOrg_eq_none.mpr (by rw [bare.offsets]; rintro _ ⟨⟩)
  constructor
  · intro same
    refine ⟨?_, listTopicsForOrg_eq_nil.mp ?_, getSegments_eq_nil.mp fun topic p => ?_,
      getCommittedOffsetForOrg_eq_none.mp fun groupId topic p => ?_⟩
    · rw [← same.quota, bare.getOrganizationQuota]
    · have topics := same.topics
      rw [noTopics] at topics
      exact map_eq_nil_iff.mp topics.symm
    · rw [← same.segments, noSegments]
    · rw [← same.offsets, noOffsets]
  · rintro ⟨quota, topics, segments, offsets⟩
    refine ⟨plan, ?_, ?_, fun topic p => ?_, fun topic p => ?_, fun groupId topic p => ?_⟩
    · rw [bare.getOrganizationQuota, quota]
    · rw [noTopics, listTopicsForOrg_eq_nil.mpr topics]
    · rw [noSegments, getSegments_eq_nil.mpr segments]
    · rw [bare.watermarks]
      cases mark : m.segments.highWatermark ⟨org.id, topic, p⟩ with
      | none => rfl
      | some hw =>
        obtain ⟨r, inside, own, -⟩ := valid.partitions ⟨org.id, topic, p⟩ (by rw [mark]; rfl)
        exact absurd own (topics r inside)
    · rw [noOffsets, getCommittedOffsetForOrg_eq_none.mpr offsets]

theorem Bare.roundTrip_iff (bare : Bare crates.newId m') (valid : m.Valid)
    (restored : ∀ org ∈ m.organizations, ∃ org' ∈ m'.organizations, org'.slug = org.slug ∧ org'.plan = org.plan) :
    RoundTrip m m' ↔ m.OrganizationsOnly := by
  constructor
  · intro trip org inside
    obtain ⟨org', -, -, same⟩ := trip org inside
    exact (bare.reproduces_iff valid same.plan).mp same
  · intro only org inside
    obtain ⟨org', there, slug, plan⟩ := restored org inside
    exact ⟨org', there, slug, (bare.reproduces_iff valid plan).mpr (only org inside)⟩

/-! ## The export of one organization -/

theorem mem_exportOffsets {o : ConsumerOffsetBackup} : o ∈ exportOffsets m ↔
    ∃ r ∈ m.consumerOffsets, r.key = (o.groupId, o.topic, o.partition) ∧ r.committedOffset = o.offset := by
  unfold exportOffsets listConsumerGroups getConsumerOffsets
  simp only [mem_flatMap, mem_insertionSort, mem_dedup, mem_map, mem_filter, decide_eq_true_eq]
  constructor
  · rintro ⟨-, -, -, ⟨r, ⟨inside, -⟩, rfl⟩, rfl⟩
    exact ⟨r, inside, rfl, rfl⟩
  · rintro ⟨r, inside, key, offset⟩
    refine ⟨r.groupId, ⟨r, inside, rfl⟩, r.offset, ⟨r, ⟨inside, rfl⟩, rfl⟩, ?_⟩
    obtain ⟨groupId, rest⟩ := Prod.mk.inj key
    obtain ⟨topic, partition⟩ := Prod.mk.inj rest
    unfold OffsetRow.offset
    rw [groupId, topic, partition, offset]

/-- The offsets are those of all organizations, and the rest is its own. -/
theorem ownOnly_fromStoreForOrg_iff (valid : m.Valid) (orgId : String) (createdAt : Int) :
    OwnOnly m orgId (fromStoreForOrg m orgId createdAt) ↔ ∀ r ∈ m.consumerOffsets, r.organizationId = orgId := by
  constructor
  · intro own r inside
    obtain ⟨r', inside', belongs, key, -⟩ := own.offsets ⟨r.groupId, r.topic, r.partitionId, r.committedOffset⟩
      (mem_exportOffsets.mpr ⟨r, inside, rfl, rfl⟩)
    rw [← valid.offsets r' inside' r inside key, belongs]
  · intro all
    refine ⟨fun t backed => ⟨?_, fun segment listed => ?_⟩, fun o backed => ?_, fun o backed => ?_⟩
    · obtain ⟨topic, listed, rfl⟩ := mem_map.mp backed
      obtain ⟨r, sorted, rfl⟩ := mem_map.mp listed
      obtain ⟨inside, own⟩ := mem_filter.mp ((mem_insertionSort _).mp sorted)
      exact ⟨r, inside, of_decide_eq_true own, rfl⟩
    · obtain ⟨topic, -, rfl⟩ := mem_map.mp backed
      obtain ⟨org, same, listed⟩ := mem_flatMap.mp listed
      obtain ⟨p, -, listed⟩ := mem_flatMap.mp listed
      obtain ⟨r, inside, own, rfl⟩ := SegmentStore.mem_rows.mp (SegmentStore.mem_getSegments.mp listed)
      exact ⟨r, inside, (congrArg PartitionKey.orgId own).trans (mem_singleton.mp same), rfl⟩
    · obtain ⟨r, inside, key, offset⟩ := mem_exportOffsets.mp backed
      exact ⟨r, inside, all r inside, key, offset⟩
    · obtain ⟨org, found, rfl⟩ := Option.map_eq_some_iff.mp (Option.mem_toList.mp backed)
      have own := find?_some found
      refine ⟨mem_of_find?_eq_some found, of_decide_eq_true own, fun quota given => ?_⟩
      rw [← Option.some.inj given]
      unfold Catalog.getOrganizationQuota
      cases row : m.quotas.find? fun quota => quota.organizationId = orgId with
      | none => rfl
      | some q =>
        have named := find?_some row
        exact of_decide_eq_true named

/-- **When a backup is complete, and when it is of one organization only.** -/
theorem backup_complete_iff (crates : BackupCrates) (m : Catalog) (createdAt now : Int)
    (documented : crates.Documented (.fromStore m createdAt) m.organizations.length) (valid : m.Valid) :
    ((∃ m', crates.restored m createdAt now = some m' ∧ RoundTrip m m') ↔ m.OrganizationsOnly) ∧
      ∀ orgId, OwnOnly m orgId (fromStoreForOrg m orgId createdAt) ↔ ∀ r ∈ m.consumerOffsets, r.organizationId = orgId := by
  obtain ⟨m', comes, bare, restored⟩ := restored_fromStore documented valid now
  refine ⟨?_, fun orgId => ownOnly_fromStoreForOrg_iff valid orgId createdAt⟩
  rw [← bare.roundTrip_iff valid restored, comes]
  constructor
  · rintro ⟨other, same, trip⟩
    rwa [Option.some.inj same]
  · exact fun trip => ⟨m', rfl, trip⟩

/-! ## A store with one organization -/

/-- It has no quota of its own. -/
def acme : Catalog :=
  (Catalog.empty.createOrganization "9b2d4f6a-1c3e-4a5b-8d7f-0e1c2b3a4d5e" ⟨"Acme", "acme", .pro, [], none, .selfHosted⟩
    1700000000000).getD .empty

/-- The same with a topic. -/
def acmeOrders : Catalog :=
  (acme.createTopicForOrg "9b2d4f6a-1c3e-4a5b-8d7f-0e1c2b3a4d5e" ⟨"orders", 1, none, .delete, []⟩ 1700000000500).getD .empty

/-- The lines of the backup with those of its topics. -/
def acmeJson (topics : List String) : String :=
  String.intercalate "\n" ([
      "\x7b", "  \"version\": 1,", "  \"created_at\": 1700000001000,", "  \"description\": null,"
    ] ++ topics ++ [
      "  \"consumer_offsets\": [],", "  \"organizations\": [", "    \x7b", "      \"organization\": \x7b",
      "        \"id\": \"9b2d4f6a-1c3e-4a5b-8d7f-0e1c2b3a4d5e\",", "        \"name\": \"Acme\",",
      "        \"slug\": \"acme\",", "        \"plan\": \"pro\",", "        \"status\": \"active\",",
      "        \"created_at\": 1700000000000,", "        \"settings\": \x7b\x7d,", "        \"external_id\": null,",
      "        \"deployment_mode\": \"self_hosted\"", "      \x7d,", "      \"quota\": \x7b",
      "        \"organization_id\": \"9b2d4f6a-1c3e-4a5b-8d7f-0e1c2b3a4d5e\",", "        \"max_topics\": 10,",
      "        \"max_partitions_per_topic\": 12,", "        \"max_total_partitions\": 100,",
      "        \"max_storage_bytes\": 10737418240,", "        \"max_retention_days\": 7,",
      "        \"max_produce_bytes_per_sec\": 10485760,", "        \"max_consume_bytes_per_sec\": 52428800,",
      "        \"max_requests_per_sec\": 1000,", "        \"max_consumer_groups\": 50,", "        \"max_schemas\": 100,",
      "        \"max_schema_versions_per_subject\": 100,", "        \"max_connections\": 100", "      \x7d", "    \x7d",
      "  ]", "\x7d"])

def ordersJson : List String := [
  "  \"topics\": [", "    \x7b", "      \"topic\": \x7b", "        \"name\": \"orders\",",
  "        \"partition_count\": 1,", "        \"retention_ms\": null,", "        \"cleanup_policy\": \"delete\",",
  "        \"created_at\": 1700000000500,", "        \"config\": \x7b", "          \"cleanup.policy\": \"delete\"",
  "        \x7d", "      \x7d,", "      \"segments\": []", "    \x7d", "  ],"]

/-- serde on the backups of the two stores. -/
def acmeCrates : BackupCrates where
  toJson b := acmeJson (if b.topics = [] then ["  \"topics\": [],"] else ordersJson)
  parse json :=
    if json = acmeJson ["  \"topics\": [],"] then some (.fromStore acme 1700000001000)
    else if json = acmeJson ordersJson then some (.fromStore acmeOrders 1700000001000)
    else none
  newId _ := "3f2504e0-4f89-41d3-9a0c-0305e82c3301"

theorem acme_newId : "3f2504e0-4f89-41d3-9a0c-0305e82c3301" ≠ "" ∧ "3f2504e0-4f89-41d3-9a0c-0305e82c3301" ≠ defaultOrganizationId := by
  decide

theorem backup_of_acme_complete : (∃ m', acmeCrates.restored acme 1700000001000 1700000002000 = some m' ∧ RoundTrip acme m') ∧
    OwnOnly acme "9b2d4f6a-1c3e-4a5b-8d7f-0e1c2b3a4d5e"
      (fromStoreForOrg acme "9b2d4f6a-1c3e-4a5b-8d7f-0e1c2b3a4d5e" 1700000001000) := by
  have documented : acmeCrates.Documented (.fromStore acme 1700000001000) 1 :=
    ⟨by decide +kernel, fun i below j below' _ => by omega, fun _ => acme_newId⟩
  have valid : acme.Valid := ⟨by decide, by decide, (fun k some => by cases some), (by rintro _ ⟨⟩)⟩
  obtain ⟨complete, own⟩ := backup_complete_iff acmeCrates acme 1700000001000 1700000002000 documented valid
  exact ⟨complete.mpr (by decide), (own _).mpr (by rintro _ ⟨⟩)⟩

theorem backup_of_acmeOrders_incomplete : ¬ ∀ (crates : BackupCrates) (m : Catalog) (createdAt now : Int),
    crates.Documented (.fromStore m createdAt) m.organizations.length → m.Valid →
      (∃ m', crates.restored m createdAt now = some m' ∧ RoundTrip m m') ∧
        ∀ orgId, OwnOnly m orgId (fromStoreForOrg m orgId createdAt) := by
  intro complete
  have documented : acmeCrates.Documented (.fromStore acmeOrders 1700000001000) acmeOrders.organizations.length :=
    ⟨by decide +kernel, fun i below j below' _ => by have : acmeOrders.organizations.length = 1 := rfl; omega, fun _ => acme_newId⟩
  have valid : acmeOrders.Valid := by
    refine ⟨by decide, by decide, fun k there => ?_, (by rintro _ ⟨⟩)⟩
    have partition : acmeOrders.segments.highWatermark k =
      if k.orgId = "9b2d4f6a-1c3e-4a5b-8d7f-0e1c2b3a4d5e" ∧ k.topic = "orders" ∧ k.partitionId < 1 then some 0 else none := rfl
    rw [partition] at there
    split_ifs at there with own
    · rw [own.1, own.2.1]
      decide
    · cases there
  obtain ⟨⟨m', comes, trip⟩, -⟩ := complete acmeCrates acmeOrders 1700000001000 1700000002000 documented valid
  obtain ⟨t, same, bare, restored⟩ := restored_fromStore documented valid 1700000002000
  obtain rfl : m' = t := Option.some.inj (comes.symm.trans same)
  have only := (bare.roundTrip_iff valid restored).mp trip
  revert only
  decide

end Catalog

end StreamHouse.Metadata
