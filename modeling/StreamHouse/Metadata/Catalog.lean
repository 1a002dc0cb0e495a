import Mathlib.Data.String.Basic
import StreamHouse.Lib.OrderedMap
import StreamHouse.Metadata.Segments

/-!
# The catalog

The tables of `SqliteMetadataStore` that hold organizations and their quotas, topics, partitions
with their segments, and consumer offsets, and the statements on them. Most statements name an
organization; `create_topic`, `commit_offset` and `ensure_consumer_group` write to the default
organization, whose row a later migration deletes, and `get_topic`, `list_topics`, `delete_topic`
and `get_consumer_offsets` range over all of them.
-/

namespace StreamHouse.Metadata

open Lib Option

/-! ## Rows and what is made of them -/

inductive CleanupPolicy where
  | delete
  | compact
  | compactAndDelete
deriving DecidableEq

def CleanupPolicy.asStr : CleanupPolicy → String
  | .delete => "delete"
  | .compact => "compact"
  | .compactAndDelete => "compact,delete"

/-- No letter outside ASCII has one of these letters for its lowercase. -/
def CleanupPolicy.fromStr (s : String) : CleanupPolicy :=
  let lower := String.ofList (s.toList.map Char.toLower)
  if lower = "compact" then .compact
  else if lower = "compact,delete" ∨ lower = "delete,compact" then .compactAndDelete
  else .delete

structure TopicConfig where
  name : String
  partitionCount : Nat
  retentionMs : Option Int
  cleanupPolicy : CleanupPolicy
  /-- By key. -/
  config : List (String × String)

structure Topic where
  name : String
  partitionCount : Nat
  retentionMs : Option Int
  cleanupPolicy : CleanupPolicy
  createdAt : Int
  config : List (String × String)
deriving DecidableEq

structure Partition where
  topic : String
  partitionId : Nat
  highWatermark : Nat
deriving DecidableEq

/-- A row of `topics`, whose primary key is organization and name. -/
structure TopicRow where
  organizationId : String
  name : String
  partitionCount : Nat
  retentionMs : Option Int
  createdAt : Int
  config : List (String × String)

/-- The cleanup policy is read from the configuration. -/
def TopicRow.topic (r : TopicRow) : Topic where
  name := r.name
  partitionCount := r.partitionCount
  retentionMs := r.retentionMs
  cleanupPolicy := ((OrderedMap.get r.config "cleanup.policy").map CleanupPolicy.fromStr).getD .delete
  createdAt := r.createdAt
  config := r.config

inductive OrganizationPlan where
  | free
  | pro
  | enterprise
deriving DecidableEq

inductive OrganizationStatus where
  | active
  | suspended
  | deleted
deriving DecidableEq

inductive DeploymentMode where
  | selfHosted
  | byoc
  | managed
deriving DecidableEq

structure Organization where
  id : String
  name : String
  slug : String
  plan : OrganizationPlan
  status : OrganizationStatus
  createdAt : Int
  settings : List (String × String)
  externalId : Option String
  deploymentMode : DeploymentMode
deriving DecidableEq

structure CreateOrganization where
  name : String
  slug : String
  plan : OrganizationPlan
  settings : List (String × String)
  externalId : Option String
  deploymentMode : DeploymentMode

structure OrganizationQuota where
  organizationId : String
  maxTopics : Int
  maxPartitionsPerTopic : Int
  maxTotalPartitions : Int
  maxStorageBytes : Int
  maxRetentionDays : Int
  maxProduceBytesPerSec : Int
  maxConsumeBytesPerSec : Int
  maxRequestsPerSec : Int
  maxConsumerGroups : Int
  maxSchemas : Int
  maxSchemaVersionsPerSubject : Int
  maxConnections : Int
deriving DecidableEq

/-- `Default`, the free tier. -/
def OrganizationQuota.default : OrganizationQuota where
  organizationId := ""
  maxTopics := 10
  maxPartitionsPerTopic := 12
  maxTotalPartitions := 100
  maxStorageBytes := 10737418240
  maxRetentionDays := 7
  maxProduceBytesPerSec := 10485760
  maxConsumeBytesPerSec := 52428800
  maxRequestsPerSec := 1000
  maxConsumerGroups := 50
  maxSchemas := 100
  maxSchemaVersionsPerSubject := 100
  maxConnections := 100

/-- A row of `consumer_offsets`: unique in group, topic and partition, whatever the organization. -/
structure OffsetRow where
  organizationId : String
  groupId : String
  topic : String
  partitionId : Nat
  committedOffset : Nat
  metadata : Option String

structure Catalog.ConsumerOffset where
  groupId : String
  topic : String
  partitionId : Nat
  committedOffset : Nat
  metadata : Option String

def OffsetRow.offset (r : OffsetRow) : Catalog.ConsumerOffset := ⟨r.groupId, r.topic, r.partitionId, r.committedOffset, r.metadata⟩

/-- What the unique constraint of `consumer_offsets` is about. -/
def OffsetRow.key (r : OffsetRow) : String × String × Nat := (r.groupId, r.topic, r.partitionId)

structure Catalog where
  organizations : List Organization
  quotas : List OrganizationQuota
  topics : List TopicRow
  /-- Partitions and segments. -/
  segments : SegmentStore
  consumerOffsets : List OffsetRow

namespace Catalog

/-- A store after its migrations. -/
def empty : Catalog where
  organizations := []
  quotas := []
  topics := []
  segments := ⟨[], fun _ => none⟩
  consumerOffsets := []

/-- The default of the `organization_id` columns. -/
def defaultOrganizationId : String := "00000000-0000-0000-0000-000000000000"

variable (m : Catalog)

/-- What a foreign key to `organizations` asks for. -/
def HasOrganization (orgId : String) : Prop := ∃ org ∈ m.organizations, org.id = orgId

instance (orgId : String) : Decidable (m.HasOrganization orgId) := inferInstanceAs (Decidable (∃ org ∈ _, _))

/-! ## Organizations -/

/-- `create_organization` with the id drawn for it: that, the slug and an external id must be new. -/
def createOrganization (id : String) (config : CreateOrganization) (now : Int) : Option Catalog :=
  if ∀ org ∈ m.organizations, org.id ≠ id ∧ org.slug ≠ config.slug ∧
      (config.externalId.isSome = true → org.externalId ≠ config.externalId) then
    some { m with
      organizations := m.organizations ++ [{
        id
        name := config.name
        slug := config.slug
        plan := config.plan
        status := .active
        createdAt := now
        settings := config.settings
        externalId := config.externalId
        deploymentMode := config.deploymentMode }] }
  else none

/-- `list_organizations`. -/
def listOrganizations : List Organization := m.organizations.insertionSort fun a b => a.name ≤ b.name

/-- `get_organization`. -/
def getOrganization (id : String) : Option Organization := m.organizations.find? fun org => org.id = id

/-- `get_organization_quota`. -/
def getOrganizationQuota (orgId : String) : OrganizationQuota :=
  (m.quotas.find? fun quota => quota.organizationId = orgId).getD { OrganizationQuota.default with organizationId := orgId }

/-! ## Consumer offsets -/

/-- `commit_offset`: the insertion of the group fails without the default organization, and so does that of a new row. -/
def commitOffset (groupId topic : String) (partitionId offset : Nat) (metadata : Option String) : Option Catalog :=
  if m.HasOrganization defaultOrganizationId then
    let key := (groupId, topic, partitionId)
    if m.consumerOffsets.any fun r => r.key = key then
      some { m with consumerOffsets := m.consumerOffsets.map fun r =>
        if r.key = key then { r with committedOffset := offset, metadata } else r }
    else some { m with
      consumerOffsets := m.consumerOffsets ++ [⟨defaultOrganizationId, groupId, topic, partitionId, offset, metadata⟩] }
  else none

/-- `list_consumer_groups`. -/
def listConsumerGroups : List String := (m.consumerOffsets.map OffsetRow.groupId).dedup.insertionSort fun a b => a ≤ b

/-- `get_consumer_offsets`. -/
def getConsumerOffsets (groupId : String) : List Catalog.ConsumerOffset :=
  ((m.consumerOffsets.filter fun r => r.groupId = groupId).insertionSort fun a b =>
    a.topic < b.topic ∨ (a.topic = b.topic ∧ a.partitionId ≤ b.partitionId)).map OffsetRow.offset

/-- `get_committed_offset_for_org`. -/
def getCommittedOffsetForOrg (orgId groupId topic : String) (partitionId : Nat) : Option Nat :=
  (m.consumerOffsets.find? fun r => r.organizationId = orgId ∧ r.key = (groupId, topic, partitionId)).map OffsetRow.committedOffset

/-! ## Topics and partitions -/

/-- The partitions of a new topic. -/
def insertPartitions (orgId topic : String) (count : Nat) : SegmentStore :=
  { m.segments with highWatermark := fun k =>
      if k.orgId = orgId ∧ k.topic = topic ∧ k.partitionId < count then some 0 else m.segments.highWatermark k }

/-- The transaction that inserts a topic and its partitions. A constraint that fails leaves nothing of it: the
organization is there, the name is free, the count is positive, no partition is there yet. -/
def insertTopic (orgId : String) (config : TopicConfig) (now : Int) : Option Catalog :=
  if m.HasOrganization orgId ∧ (∀ r ∈ m.topics, ¬ (r.organizationId = orgId ∧ r.name = config.name)) ∧
      0 < config.partitionCount ∧ ∀ p < config.partitionCount, m.segments.highWatermark ⟨orgId, config.name, p⟩ = none then
    some { m with
      topics := m.topics ++ [{
        organizationId := orgId
        name := config.name
        partitionCount := config.partitionCount
        retentionMs := config.retentionMs
        createdAt := now
        config := OrderedMap.insert "cleanup.policy" config.cleanupPolicy.asStr config.config }]
      segments := m.insertPartitions orgId config.name config.partitionCount }
  else none

/-- `create_topic`. -/
def createTopic (config : TopicConfig) (now : Int) : Option Catalog := m.insertTopic defaultOrganizationId config now

/-- `create_topic_for_org`. -/
def createTopicForOrg (orgId : String) (config : TopicConfig) (now : Int) : Option Catalog := m.insertTopic orgId config now

/-- The partitions that deleted topics leave. -/
def deletePartitions (which : TopicRow → Bool) : SegmentStore :=
  let gone (k : PartitionKey) := m.topics.any fun r => which r && decide (r.organizationId = k.orgId ∧ r.name = k.topic)
  { m.segments with highWatermark := fun k => if gone k then none else m.segments.highWatermark k }

/-- `DELETE FROM topics` with the partitions of the rows, and no row is an error. -/
def deleteTopics (which : TopicRow → Bool) : Option Catalog :=
  if m.topics.any which then
    some { m with topics := m.topics.filter fun r => !which r, segments := m.deletePartitions which }
  else none

/-- `delete_topic`. -/
def deleteTopic (name : String) : Option Catalog := m.deleteTopics fun r => r.name = name

/-- `delete_topic_for_org`. -/
def deleteTopicForOrg (orgId name : String) : Option Catalog :=
  m.deleteTopics fun r => r.organizationId = orgId ∧ r.name = name

/-- `get_topic`: of several rows the one inserted first. -/
def getTopic (name : String) : Option Topic := (m.topics.find? fun r => r.name = name).map TopicRow.topic

/-- `list_topics`. -/
def listTopics : List Topic := (m.topics.insertionSort fun a b => a.name ≤ b.name).map TopicRow.topic

/-- `list_topics_for_org`. -/
def listTopicsForOrg (orgId : String) : List Topic :=
  ((m.topics.filter fun r => r.organizationId = orgId).insertionSort fun a b => a.name ≤ b.name).map TopicRow.topic

/-- `get_topic_for_org`. -/
def getTopicForOrg (orgId name : String) : Option Topic :=
  (m.topics.find? fun r => r.organizationId = orgId ∧ r.name = name).map TopicRow.topic

/-- `get_partition`. -/
def getPartition (k : PartitionKey) : Option Partition :=
  (m.segments.highWatermark k).map fun hw => ⟨k.topic, k.partitionId, hw⟩

/-- `update_high_watermark`. -/
def updateHighWatermark (k : PartitionKey) (offset : Nat) : Option Catalog :=
  (m.segments.updateHighWatermark k offset).toOption.map fun segments => { m with segments }

/-- `add_segment`, with the foreign key to the organization. -/
def addSegment (orgId : String) (segment : SegmentInfo) : Option Catalog :=
  if m.HasOrganization orgId ∧ segment.baseOffset ≤ segment.endOffset then
    (m.segments.addSegment orgId segment).toOption.map fun segments => { m with segments }
  else none

/-- `add_segment_and_update_watermark`. -/
def addSegmentAndUpdateWatermark (orgId : String) (segment : SegmentInfo) (highWatermark : Nat) : Option Catalog :=
  if m.HasOrganization orgId ∧ segment.baseOffset ≤ segment.endOffset then
    (m.segments.addSegmentAndUpdateWatermark orgId segment highWatermark).toOption.map fun segments => { m with segments }
  else none

/-- `get_segments`. -/
def getSegments (k : PartitionKey) : List SegmentInfo := m.segments.getSegments k

variable {m} {m' : Catalog}

variable {orgId : String} {config : TopicConfig} {k : PartitionKey}

theorem insertTopic_some {now : Int} (inserted : m.insertTopic orgId config now = some m') :
    (∃ r : TopicRow, r.name = config.name ∧ m'.topics = m.topics ++ [r]) ∧
      m'.segments = m.insertPartitions orgId config.name config.partitionCount ∧
        ∀ p < config.partitionCount, m.segments.highWatermark ⟨orgId, config.name, p⟩ = none := by
  unfold insertTopic at inserted
  split_ifs at inserted with allowed
  obtain rfl := some.inj inserted
  exact ⟨⟨_, rfl, rfl⟩, rfl, allowed.2.2.2⟩

theorem deleteTopics_some {which : TopicRow → Bool} (deleted : m.deleteTopics which = some m') :
    m' = { m with topics := m.topics.filter fun r => !which r, segments := m.deletePartitions which } := by
  unfold deleteTopics at deleted
  split_ifs at deleted
  exact (some.inj deleted).symm

/-- A new topic is found under its own name only. -/
theorem getTopic_of_insertTopic {now : Int}
    (inserted : m.insertTopic orgId config now = some m') {name : String} (other : name ≠ config.name) :
    m'.getTopic name = m.getTopic name := by
  obtain ⟨⟨r, named, topics⟩, -⟩ := insertTopic_some inserted
  have unlike : ¬ r.name = name := fun same => other (same.symm.trans named)
  unfold getTopic
  rw [topics, List.find?_append, List.find?_singleton, if_neg (by simpa using unlike), or_none]

/-- The partitions of a new topic were not there. -/
theorem getPartition_of_insertTopic {now : Int}
    (inserted : m.insertTopic orgId config now = some m') (there : (m.getPartition k).isSome = true) :
    m'.getPartition k = m.getPartition k := by
  obtain ⟨-, segments, free⟩ := insertTopic_some inserted
  have old : ¬ (k.orgId = orgId ∧ k.topic = config.name ∧ k.partitionId < config.partitionCount) := by
    rintro ⟨rfl, topic, below⟩
    have none : m.segments.highWatermark k = none := by
      have := free k.partitionId below
      rwa [← topic] at this
    unfold getPartition at there
    rw [none] at there
    cases there
  unfold getPartition
  rw [segments]
  show ((if _ then _ else _ : Option Nat)).map _ = _
  rw [if_neg old]

theorem getTopic_of_deleteTopic {name other : String} (deleted : m.deleteTopic name = some m') (different : other ≠ name) :
    m'.getTopic other = m.getTopic other := by
  rw [deleteTopics_some deleted]
  unfold getTopic
  rw [List.find?_filter]
  congr 2
  funext r
  by_cases named : r.name = other
  · have stays : ¬ r.name = name := fun same => different (named.symm.trans same)
    simp [named, different]
  · simp [named]

theorem getPartition_of_deleteTopic {name : String} (deleted : m.deleteTopic name = some m')
    (different : k.topic ≠ name) : m'.getPartition k = m.getPartition k := by
  rw [deleteTopics_some deleted]
  have stays : ¬ (m.topics.any fun r => decide (r.name = name) && decide (r.organizationId = k.orgId ∧ r.name = k.topic)) = true := by
    intro gone
    obtain ⟨r, -, both⟩ := List.any_eq_true.mp gone
    obtain ⟨named, -, same⟩ : r.name = name ∧ r.organizationId = k.orgId ∧ r.name = k.topic := by simpa using both
    exact different (same.symm.trans named)
  unfold getPartition
  show ((if _ then _ else _ : Option Nat)).map _ = _
  rw [if_neg stays]

/-- A statement on the watermark of one partition leaves topics and other partitions alone. -/
structure Touches (m m' : Catalog) (k : PartitionKey) : Prop where
  topics : m'.topics = m.topics
  others : ∀ other ≠ k, m'.segments.highWatermark other = m.segments.highWatermark other

theorem Touches.getTopic (touches : Touches m m' k) (name : String) : m'.getTopic name = m.getTopic name := by
  unfold Catalog.getTopic
  rw [touches.topics]

theorem Touches.listTopics (touches : Touches m m' k) : m'.listTopics = m.listTopics := by
  unfold Catalog.listTopics
  rw [touches.topics]

theorem Touches.getPartition {other : PartitionKey} (touches : Touches m m' k) (different : other ≠ k) :
    m'.getPartition other = m.getPartition other := by
  unfold Catalog.getPartition
  rw [touches.others other different]

theorem touches_updateHighWatermark {offset : Nat} (updated : m.updateHighWatermark k offset = some m') :
    Touches m m' k := by
  unfold updateHighWatermark SegmentStore.updateHighWatermark at updated
  split_ifs at updated
  · obtain rfl := some.inj updated
    exact ⟨rfl, fun other different => Function.update_of_ne different _ _⟩
  · cases updated

theorem touches_addSegmentAndUpdateWatermark {segment : SegmentInfo} {highWatermark : Nat}
    (added : m.addSegmentAndUpdateWatermark orgId segment highWatermark = some m') :
    Touches m m' ⟨orgId, segment.topic, segment.partitionId⟩ := by
  unfold addSegmentAndUpdateWatermark at added
  split_ifs at added
  cases inserted : m.segments.addSegmentAndUpdateWatermark orgId segment highWatermark with
  | error e =>
    rw [inserted] at added
    cases added
  | ok segments =>
    rw [inserted] at added
    obtain rfl := some.inj added
    refine ⟨rfl, fun other different => ?_⟩
    show segments.highWatermark other = _
    rw [(SegmentStore.addSegmentAndUpdateWatermark_ok inserted).2]
    exact Function.update_of_ne different _ _

end Catalog

end StreamHouse.Metadata
