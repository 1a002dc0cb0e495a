import StreamHouse.Lib.Noninterference
import StreamHouse.Sql.Execute

/-!
# Tenants

The executor of an organization against two systems that have the same of that organization: the
result is the same and the other organizations keep what they have, as long as what is found by
name alone, and what is cached by segment id alone, is the organization's own.
-/

namespace StreamHouse.Sql

open Lib Metadata List Option ViewTables

/-! ## What belongs to an organization -/

structure Belongings where
  organizations : List Organization
  quotas : List OrganizationQuota
  topics : List TopicRow
  /-- By topic and partition. -/
  highWatermarks : String → Nat → Option Nat
  segments : List SegmentRow
  /-- The objects of the segments. -/
  objects : List (Option Bytes)
  consumerOffsets : List OffsetRow
  views : Share

namespace SqlSystem

variable (s : SqlSystem) (orgId : String)

def ownSegments : List SegmentRow := s.catalog.segments.segments.filter fun r => r.organizationId = orgId

def belongings : Belongings where
  organizations := s.catalog.organizations.filter fun org => org.id = orgId
  quotas := s.catalog.quotas.filter fun quota => quota.organizationId = orgId
  topics := s.catalog.topics.filter fun r => r.organizationId = orgId
  highWatermarks := fun topic p => s.catalog.segments.highWatermark ⟨orgId, topic, p⟩
  segments := s.ownSegments orgId
  objects := (s.ownSegments orgId).map fun r => s.objects r.info.s3Key
  consumerOffsets := s.catalog.consumerOffsets.filter fun r => r.organizationId = orgId
  views := s.views.share orgId

/-- Under the ids of the organization's segments of the topics the cache has their objects, or nothing. -/
def Clean (topics : List String) : Prop :=
  ∀ r ∈ s.ownSegments orgId, r.info.topic ∈ topics → ∀ bytes, s.cache r.info.id = some bytes → s.objects r.info.s3Key = some bytes

end SqlSystem

open SqlSystem

/-- The id drawn is no view's yet. -/
def Call.Fresh (call : Call) (s : SqlSystem) : Prop := ∀ v ∈ s.views.views, ∀ name, v.id ≠ viewId call name

/-- The statement isolates the organization in the systems that are admitted. -/
def TenantIsolated (x : Externals) (useArrow : Bool) (orgId : String) (q : SqlQuery) (admits : SqlSystem → Prop) : Prop :=
  ∀ call : Call, Isolates belongings (fun s => execute x ⟨useArrow, some orgId⟩ call s q) orgId
    fun s => admits s ∧ call.Fresh s

/-- The query goes to the Arrow executor. -/
def WindowAggregateQuery.throughArrow (q : WindowAggregateQuery) (useArrow : Bool) : Bool :=
  match q.window with
  | .tumble _ => useArrow
  | _ => false

/-- The topic and the filters of a statement that goes to the Arrow executor. -/
def arrowScan (useArrow : Bool) : SqlQuery → Option (String × List Filter)
  | .windowAggregate q => if q.throughArrow useArrow then some (q.topic, q.filters) else none
  | .groupByAggregate q => if useArrow then some (q.topic, q.filters) else none
  | _ => none

/-- The name that a statement has for a view. -/
def viewName : SqlQuery → Option String
  | .createMaterializedView q => some q.name
  | .dropMaterializedView name => some name
  | .refreshMaterializedView name => some name
  | .describeMaterializedView name => some name
  | _ => none

/-- The statement asks for all views. -/
def listsViews : SqlQuery → Bool
  | .showMaterializedViews => true
  | _ => false

/-- The topics of which a statement reads segments. -/
def readTopics : SqlQuery → List String
  | .select q => [q.topic]
  | .count q => if onlyPartitionFilter q then [] else [q.topic]
  | .windowAggregate q => [q.topic]
  | .groupByAggregate q => [q.topic]
  | .join q => [q.left.topic, q.right.topic]
  | _ => []

/-- What a statement finds without the organization is the organization's all the same. -/
structure Owned (useArrow : Bool) (orgId : String) (q : SqlQuery) (s : SqlSystem) : Prop where
  cached : s.Clean orgId (readTopics q)
  named : ∀ name, viewName q = some name → ∀ v, s.views.getMaterializedView name = some v → v.organizationId = orgId
  listed : listsViews q = true → ∀ v ∈ s.views.views, v.organizationId = orgId
  scanned : ∀ name filters, arrowScan useArrow q = some (name, filters) → partitionFilter filters = none →
    (s.catalog.getTopic name).map Topic.partitionCount = (s.catalog.getTopicForOrg orgId name).map Topic.partitionCount

/-- The statement finds nothing without the organization, save that there is a topic of the name. -/
structure Confined (useArrow : Bool) (q : SqlQuery) : Prop where
  unnamed : viewName q = none
  unlisted : listsViews q = false
  partitioned : ∀ name filters, arrowScan useArrow q = some (name, filters) → (partitionFilter filters).isSome = true

theorem Confined.owned {useArrow : Bool} {orgId : String} {q : SqlQuery} (confined : Confined useArrow q) {s : SqlSystem}
    (cached : s.Clean orgId (readTopics q)) : Owned useArrow orgId q s where
  cached
  named := by
    intro name named
    rw [confined.unnamed] at named
    cases named
  listed := by
    intro listed
    rw [confined.unlisted] at listed
    cases listed
  scanned := by
    intro name filters scan none
    have some := confined.partitioned name filters scan
    rw [none] at some
    cases some

/-! ## Reading what is the organization's -/

theorem filter_of_filter {α : Type*} {p q : α → Bool} {l : List α} (weaker : ∀ a, p a = true → q a = true) :
    l.filter p = (l.filter q).filter p := (filter_filter_of_imp weaker).symm

theorem getTopicForOrg_own (m : Catalog) (orgId name : String) :
    m.getTopicForOrg orgId name =
      ((m.topics.filter fun r => r.organizationId = orgId).find? fun r => r.name = name).map TopicRow.topic := by
  unfold Catalog.getTopicForOrg
  rw [find?_filter]
  simp only [Bool.decide_and, Bool.decide_eq_true]

theorem getSegments_own (m : Catalog) (k : PartitionKey) :
    m.getSegments k = (((m.segments.segments.filter fun r => r.organizationId = k.orgId).filter fun r => r.partition == k).map
      SegmentRow.info).insertionSort fun a b => a.baseOffset ≤ b.baseOffset := by
  have weaker : ∀ r : SegmentRow, (r.partition == k) = true → decide (r.organizationId = k.orgId) = true := by
    intro r same
    exact decide_eq_true (congrArg PartitionKey.orgId (eq_of_beq same))
  rw [← filter_of_filter weaker]
  rfl

/-- A segment of an organization's partition has its row there. -/
theorem mem_getSegments {m : Catalog} {k : PartitionKey} {info : SegmentInfo} (member : info ∈ m.getSegments k) :
    ∃ r ∈ m.segments.segments.filter (fun r => r.organizationId = k.orgId), r.info = info ∧ info.topic = k.topic := by
  rw [getSegments_own, mem_insertionSort] at member
  obtain ⟨r, kept, rfl⟩ := mem_map.mp member
  exact ⟨r, mem_of_mem_filter kept, rfl, congrArg PartitionKey.topic (eq_of_beq (mem_filter.mp kept).2)⟩

/-- Two systems that an organization reads alike, the topics down to their segments. -/
structure Alike (orgId : String) (read : List String) (s t : SqlSystem) : Prop where
  topic : ∀ name, s.catalog.getTopicForOrg orgId name = t.catalog.getTopicForOrg orgId name
  topics : s.catalog.listTopicsForOrg orgId = t.catalog.listTopicsForOrg orgId
  partition : ∀ k, k.orgId = orgId → s.catalog.getPartition k = t.catalog.getPartition k
  segments : ∀ k, k.orgId = orgId → s.catalog.getSegments k = t.catalog.getSegments k
  fetched : ∀ k, k.orgId = orgId → k.topic ∈ read → ∀ info ∈ s.catalog.getSegments k, fetchSegment s info = fetchSegment t info

/-- From a clean cache a segment is read as from the objects. -/
theorem fetchSegment_clean {s : SqlSystem} {orgId : String} {read : List String} (clean : s.Clean orgId read) {r : SegmentRow}
    (own : r ∈ s.ownSegments orgId) (ofTopic : r.info.topic ∈ read) :
    fetchSegment s r.info = match s.objects r.info.s3Key with
      | some bytes => .ok bytes
      | none => .error .storageError := by
  unfold fetchSegment
  cases cached : s.cache r.info.id with
  | none => rfl
  | some bytes => rw [clean r own ofTopic bytes cached]

theorem getTopicForOrg_of_belongings {orgId : String} {s t : SqlSystem} (same : s.belongings orgId = t.belongings orgId) (name : String) :
    s.catalog.getTopicForOrg orgId name = t.catalog.getTopicForOrg orgId name := by
  rw [getTopicForOrg_own, getTopicForOrg_own]
  exact congrArg (fun b => (b.topics.find? fun r => r.name = name).map TopicRow.topic) same

theorem alike_of_belongings {orgId : String} {read : List String} {s t : SqlSystem} (same : s.belongings orgId = t.belongings orgId)
    (first : s.Clean orgId read) (second : t.Clean orgId read) : Alike orgId read s t := by
  have rows : s.ownSegments orgId = t.ownSegments orgId := congrArg Belongings.segments same
  have topics : (s.catalog.topics.filter fun r => r.organizationId = orgId) = t.catalog.topics.filter fun r => r.organizationId = orgId :=
    congrArg Belongings.topics same
  have objects : ∀ r ∈ t.ownSegments orgId, s.objects r.info.s3Key = t.objects r.info.s3Key := by
    apply map_inj_left.mp
    rw [← rows]
    have listed := congrArg Belongings.objects same
    rw [belongings, belongings, ← rows] at listed
    exact listed
  constructor
  · exact getTopicForOrg_of_belongings same
  · unfold Catalog.listTopicsForOrg
    rw [topics]
  · rintro k rfl
    have marks := congrArg Belongings.highWatermarks same
    unfold Catalog.getPartition
    rw [show s.catalog.segments.highWatermark k = _ from congrFun (congrFun marks k.topic) k.partitionId]
    rfl
  · rintro k rfl
    rw [getSegments_own, getSegments_own]
    exact congrArg _ (congrArg _ (congrArg _ rows))
  · rintro k rfl reads info member
    obtain ⟨r, own, rfl, ofTopic⟩ := mem_getSegments member
    rw [← ofTopic] at reads
    have there : r ∈ t.ownSegments k.orgId := by
      rw [← rows]
      exact own
    rw [fetchSegment_clean first own reads, fetchSegment_clean second there reads, objects r there]

/-! ## Statements on topics -/

section Topics

variable {x : Externals} {e : SqlExecutor} {call : Call} {s t : SqlSystem} {orgId : String}

theorem readSegment_congr {info : SegmentInfo} (fetched : fetchSegment s info = fetchSegment t info) :
    readSegment x s info = readSegment x t info := by
  unfold readSegment
  rw [fetched]

theorem readSegments_congr {keep : MessageRow → Bool} {segments : List SegmentInfo} {loaded : List MessageRow}
    (fetched : ∀ info ∈ segments, fetchSegment s info = fetchSegment t info) :
    readSegments x s keep segments loaded = readSegments x t keep segments loaded := by
  unfold readSegments
  induction segments generalizing loaded with
  | nil => rfl
  | cons info rest ih =>
    rw [foldlM_cons, foldlM_cons, readSegment_congr (fetched info mem_cons_self)]
    congr 1
    funext more
    exact ih fun other member => fetched other (mem_cons_of_mem _ member)

variable {filters : List Filter} {organizations : List String} {topics : List TopicRow}

theorem arrowSegments_congr {segments : List SegmentInfo} {loaded : List MessageRow}
    (fetched : ∀ info ∈ segments, fetchSegment s info = fetchSegment t info) :
    arrowSegments x s filters segments loaded = arrowSegments x t filters segments loaded := by
  induction segments generalizing loaded with
  | nil => rfl
  | cons info rest ih =>
    rw [arrowSegments, arrowSegments, readSegment_congr (fetched info mem_cons_self)]
    congr 1
    funext segment
    dsimp only
    split
    · rfl
    · exact ih fun other member => fetched other (mem_cons_of_mem _ member)

namespace Alike

variable {read : List String} (alike : Alike e.org read s t)
include alike

theorem findTopic (name : String) : findTopic e s name = findTopic e t name := by
  unfold Sql.findTopic
  rw [alike.topic]

theorem watermark (name : String) : watermark e s name = watermark e t name := by
  funext p
  unfold Sql.watermark
  rw [alike.partition (partitionKey e name p) rfl]

theorem loadMatching {name : String} (reads : name ∈ read) (filters : List Filter) (others : List MessageFilter) :
    loadMatching x e call s name filters others = loadMatching x e call t name filters others := by
  funext topic
  unfold Sql.loadMatching
  congr 1
  funext p loaded
  rw [← alike.segments (partitionKey e name p) rfl]
  exact readSegments_congr (alike.fetched _ rfl reads)

theorem selectPartition {q : SelectQuery} (reads : q.topic ∈ read) : selectPartition x e s q = selectPartition x e t q := by
  funext p loaded
  unfold Sql.selectPartition
  rw [← alike.segments (partitionKey e q.topic p) rfl, ← alike.partition (partitionKey e q.topic p) rfl]
  cases s.catalog.getPartition (partitionKey e q.topic p) with
  | none => rfl
  | some partition => exact readSegments_congr fun info member => alike.fetched _ rfl reads info (mem_of_mem_filter member)

theorem arrowPartition {name : String} (reads : name ∈ read) (filters : List Filter) : arrowPartition x e s name filters = arrowPartition x e t name filters := by
  funext p loaded
  unfold Sql.arrowPartition
  rw [← alike.segments (partitionKey e name p) rfl, ← alike.partition (partitionKey e name p) rfl]
  cases s.catalog.getPartition (partitionKey e name p) with
  | none => rfl
  | some partition => exact arrowSegments_congr fun info member => alike.fetched _ rfl reads info (mem_of_mem_filter member)

theorem loadTopicMessages {name : String} (reads : name ∈ read) : loadTopicMessages x e call s name = loadTopicMessages x e call t name := by
  unfold Sql.loadTopicMessages
  rw [alike.findTopic, alike.loadMatching reads]

variable {name : String}

/-- The Arrow executor reads the same where it scans the same partitions. -/
theorem arrowMessages (reads : name ∈ read) (scanned : (s.catalog.getTopic name).map (partitionsOf filters) = (t.catalog.getTopic name).map (partitionsOf filters)) :
    arrowMessages x e call s name filters = arrowMessages x e call t name filters := by
  unfold Sql.arrowMessages
  rw [alike.arrowPartition reads]
  cases first : s.catalog.getTopic name with
  | none =>
    cases second : t.catalog.getTopic name with
    | none => rfl
    | some topic =>
      rw [first, second] at scanned
      cases scanned
  | some topic =>
    cases second : t.catalog.getTopic name with
    | none =>
      rw [first, second] at scanned
      cases scanned
    | some other =>
      rw [first, second] at scanned
      show forPartitions call (partitionsOf filters topic) _ = forPartitions call (partitionsOf filters other) _
      rw [some.inj scanned]

/-! The statements, where the topics are the organization's. -/

theorem executeSelect {q : SelectQuery} (reads : q.topic ∈ read) (there : (s.catalog.getTopicForOrg e.org q.topic).isSome = true) :
    executeSelect x e call s q = executeSelect x e call t q := by
  obtain ⟨topic, found⟩ := isSome_iff_exists.mp there
  unfold Sql.executeSelect
  rw [← alike.topic, found]
  show (forPartitions call _ _ >>= _) = (forPartitions call _ _ >>= _)
  rw [alike.selectPartition reads]

theorem executeDescribe (name : String) : executeDescribe e s name = executeDescribe e t name := by
  have counted : (fun p => (s.catalog.getSegments (partitionKey e name p)).length) =
      fun p => (t.catalog.getSegments (partitionKey e name p)).length := by
    funext p
    rw [alike.segments (partitionKey e name p) rfl]
  unfold Sql.executeDescribe
  rw [alike.findTopic, alike.watermark]
  simp only [congrFun counted]

theorem executeCount {q : CountQuery} (reads : onlyPartitionFilter q = false → q.topic ∈ read) :
    executeCount x e call s q = executeCount x e call t q := by
  unfold Sql.executeCount
  rw [alike.findTopic, alike.watermark]
  split
  · rfl
  · next others => rw [alike.loadMatching (reads (Bool.eq_false_of_not_eq_true others))]

theorem executeWindowAggregateLegacy {q : WindowAggregateQuery} (reads : q.topic ∈ read) :
    executeWindowAggregateLegacy x e call s q = executeWindowAggregateLegacy x e call t q := by
  unfold Sql.executeWindowAggregateLegacy
  rw [alike.findTopic, alike.loadMatching reads]

theorem executeJoinQuery {q : JoinQuery} (left : q.left.topic ∈ read) (right : q.right.topic ∈ read) :
    executeJoinQuery x e call s q = executeJoinQuery x e call t q := by
  unfold Sql.executeJoinQuery
  rw [alike.findTopic, alike.findTopic, alike.loadTopicMessages left, alike.loadTopicMessages right]

theorem executeWindowAggregate {q : WindowAggregateQuery} (reads : q.topic ∈ read) (scanned : q.throughArrow e.useArrow = true →
      (s.catalog.getTopic q.topic).map (partitionsOf q.filters) = (t.catalog.getTopic q.topic).map (partitionsOf q.filters)) :
    executeWindowAggregate x e call s q = executeWindowAggregate x e call t q := by
  unfold Sql.executeWindowAggregate
  rw [alike.executeWindowAggregateLegacy reads]
  split
  · next arrow tumble =>
    rw [WindowAggregateQuery.throughArrow, tumble] at scanned
    rw [alike.arrowMessages reads (scanned arrow)]
  · rfl

theorem executeGroupByAggregate {q : GroupByAggregateQuery} (reads : q.topic ∈ read) (scanned : e.useArrow = true →
      (s.catalog.getTopic q.topic).map (partitionsOf q.filters) = (t.catalog.getTopic q.topic).map (partitionsOf q.filters)) :
    executeGroupByAggregate x e call s q = executeGroupByAggregate x e call t q := by
  unfold Sql.executeGroupByAggregate
  rw [alike.findTopic, alike.loadMatching reads]
  split
  · next arrow => rw [alike.arrowMessages reads (scanned arrow)]
  · rfl

end Alike

/-- A topic of the organization is a topic of its name. -/
theorem getTopic_isSome {m : Catalog} (there : (m.getTopicForOrg orgId name).isSome = true) :
    (m.getTopic name).isSome = true := by
  unfold Catalog.getTopicForOrg at there
  unfold Catalog.getTopic
  rw [isSome_map, find?_isSome] at there ⊢
  obtain ⟨r, member, both⟩ := there
  exact ⟨r, member, decide_eq_true (of_decide_eq_true both).2⟩

theorem scanned_congr {read : List String} (alike : Alike orgId read s t) (there : (s.catalog.getTopicForOrg orgId name).isSome = true)
    (first : partitionFilter filters = none →
      (s.catalog.getTopic name).map Topic.partitionCount = (s.catalog.getTopicForOrg orgId name).map Topic.partitionCount)
    (second : partitionFilter filters = none →
      (t.catalog.getTopic name).map Topic.partitionCount = (t.catalog.getTopicForOrg orgId name).map Topic.partitionCount) :
    (s.catalog.getTopic name).map (partitionsOf filters) = (t.catalog.getTopic name).map (partitionsOf filters) := by
  have counted : ∀ found : Option Topic, found.map (partitionsOf filters) =
      (found.map Topic.partitionCount).map fun count => queryPartitions filters (BitVec.ofNat 32 count) := by
    intro found
    rw [Option.map_map]
    rfl
  cases filter : partitionFilter filters with
  | none => rw [counted, counted, first filter, second filter, alike.topic]
  | some p =>
    have one : partitionsOf filters = fun _ => [p] := by
      funext topic
      unfold partitionsOf queryPartitions
      rw [filter]
    have same : (t.catalog.getTopicForOrg orgId name).isSome = true := by
      rw [← alike.topic]
      exact there
    obtain ⟨topic, found⟩ := isSome_iff_exists.mp (getTopic_isSome there)
    obtain ⟨other, found'⟩ := isSome_iff_exists.mp (getTopic_isSome same)
    rw [one, found, found']
    rfl

theorem foreignTopic_congr (same : s.belongings orgId = t.belongings orgId) (useArrow : Bool) (q : SqlQuery) :
    foreignTopic ⟨useArrow, some orgId⟩ s q = foreignTopic ⟨useArrow, some orgId⟩ t q := by
  unfold foreignTopic
  simp only [bind_some, getTopicForOrg_of_belongings same]

/-- Behind the check the topics are the organization's. -/
theorem isSome_of_foreignTopic {useArrow : Bool} {q : SqlQuery} (passed : foreignTopic ⟨useArrow, some orgId⟩ s q = none) (named : name ∈ extractTopicNames q) : (s.catalog.getTopicForOrg orgId name).isSome = true := by
  have missing := find?_eq_none.mp (show (extractTopicNames q).find? _ = none from passed) name named
  rw [Bool.not_eq_true, isNone_eq_false_iff] at missing
  exact missing

end Topics

/-! ## Statements on views -/

section Views

variable {x : Externals} {e : SqlExecutor} {call : Call} {s t : SqlSystem} {orgId other : String}

/-- A statement that changes the tables of views changes no more than the shares of these. -/
theorem belongings_views {views : ViewTables} (share : views.share other = s.views.share other) :
    belongings { s with views } other = s.belongings other := by
  unfold belongings
  rw [← share]
  rfl

theorem getMaterializedView_congr (own : s.views.own orgId = t.views.own orgId) {name : String}
    (first : ∀ v, s.views.getMaterializedView name = some v → v.organizationId = orgId)
    (second : ∀ v, t.views.getMaterializedView name = some v → v.organizationId = orgId) :
    s.views.getMaterializedView name = t.views.getMaterializedView name := by
  rw [getMaterializedView_own first, getMaterializedView_own second, own]

/-- The row of a created view. -/
def createdRow (q : CreateMaterializedViewQuery) : List Json :=
  [.string q.name, .string q.sourceTopic, .string (formatRefreshMode (convertRefreshMode q.refreshMode)), .string (formatStatus .initializing)]

/-- A view is inserted where its id and its key are free. -/
theorem insertView_ok (e : SqlExecutor) (call : Call) (s : SqlSystem) (other : String) {q : CreateMaterializedViewQuery} {views : ViewTables} (id : ∀ v ∈ views.views, v.id ≠ viewId call q.name)
    (key : ∀ v ∈ views.views, v.key ≠ (e.org, q.name)) (apart : other ≠ e.org) :
    (insertView e call s q views).2 = .ok [createdRow q] ∧
      (insertView e call s q views).1.views.share other = views.share other ∧
      (insertView e call s q views).1 = { s with views := (insertView e call s q views).1.views } := by
  unfold insertView
  cases created : views.create (viewId call q.name) (viewConfig e q) call.now with
  | none =>
    unfold create at created
    dsimp only at created
    split_ifs at created with free
    refine absurd ⟨?_, ?_⟩ free
    · intro taken
      obtain ⟨v, member, same⟩ := mem_map.mp taken
      exact id v member same
    · intro taken
      obtain ⟨v, member, same⟩ := mem_map.mp taken
      exact key v member same
  | some result =>
    obtain ⟨inserted, view⟩ := result
    have is := (create_some created).1
    refine ⟨?_, share_create created (fun same => apart same.symm), rfl⟩
    rw [is]
    rfl

theorem deleteMaterializedView_found {m : ViewTables} {name : String} {v : MaterializedView} (found : m.getMaterializedView name = some v) :
    m.deleteMaterializedView name = m.deleteById v.id := by
  unfold deleteMaterializedView
  rw [found]

/-- Without the view that has the key, the key is free. -/
theorem key_free {m : ViewTables} {v : MaterializedView} (member : v ∈ m.views) : ∀ w ∈ (m.deleteById v.id).views, w.key ≠ v.key := by
  intro w kept same
  obtain ⟨there, differs⟩ := mem_filter.mp kept
  obtain rfl := inj_on_of_nodup_map m.keys there member same
  exact of_decide_eq_true differs rfl

theorem executeCreateMaterializedView_replace {q : CreateMaterializedViewQuery} {topic : Topic} {existing : MaterializedView}
    (found : findTopic e s q.sourceTopic = .ok topic) (get : s.views.getMaterializedView q.name = some existing) (replace : q.orReplace = true) :
    executeCreateMaterializedView e call s q = insertView e call s q (s.views.deleteById existing.id) := by
  unfold executeCreateMaterializedView
  rw [found, get]
  dsimp only
  rw [if_pos replace, deleteMaterializedView_found get]

/-- CREATE fails if there is a view of the name that is not to be replaced, and else it succeeds. -/
theorem executeCreateMaterializedView_owned (e : SqlExecutor) (call : Call) (s : SqlSystem) {q : CreateMaterializedViewQuery} {topic : Topic} (found : findTopic e s q.sourceTopic = .ok topic)
    (owned : ∀ v, s.views.getMaterializedView q.name = some v → v.organizationId = e.org) (fresh : call.Fresh s) :
    (executeCreateMaterializedView e call s q).2 =
        (if (s.views.getMaterializedView q.name).isSome ∧ q.orReplace = false then .error (.viewAlreadyExists q.name) else .ok [createdRow q]) ∧
      ∀ other, other ≠ e.org → (executeCreateMaterializedView e call s q).1.belongings other = s.belongings other := by
  cases get : s.views.getMaterializedView q.name with
  | none =>
    have absent : ∀ v ∈ s.views.views, v.key ≠ (e.org, q.name) := by
      intro v member same
      unfold getMaterializedView at get
      have unlike := find?_eq_none.mp get v member
      exact unlike (decide_eq_true (Prod.mk.inj same).2)
    have inserted := fun other apart => insertView_ok e call s other (fun v member => fresh v member q.name) absent apart
    have is : executeCreateMaterializedView e call s q = insertView e call s q s.views := by
      unfold executeCreateMaterializedView
      rw [found, get]
    rw [if_neg (by simp), is]
    refine ⟨(inserted (e.org ++ "x") (by simp)).1, fun other apart => ?_⟩
    obtain ⟨-, share, is⟩ := inserted other apart
    rw [is]
    exact belongings_views share
  | some existing =>
    have member := getMaterializedView_mem get
    have named := getMaterializedView_name get
    cases replace : q.orReplace with
    | false =>
      have is : executeCreateMaterializedView e call s q = (s, .error (.viewAlreadyExists q.name)) := by
        unfold executeCreateMaterializedView
        rw [found, get]
        dsimp only
        rw [if_neg (by simp [replace]), named]
      rw [if_pos ⟨rfl, rfl⟩, is]
      exact ⟨rfl, fun other _ => rfl⟩
    | true =>
      have key : ∀ v ∈ (s.views.deleteById existing.id).views, v.key ≠ (e.org, q.name) := by
        have is : existing.key = (e.org, q.name) := by
          unfold MaterializedView.key
          rw [owned existing get, named]
        rw [← is]
        exact key_free member
      have inserted := fun other apart => insertView_ok e call s other
        (fun v kept => fresh v (mem_of_mem_filter kept) q.name) key apart
      rw [if_neg (by simp), executeCreateMaterializedView_replace found get replace]
      refine ⟨(inserted (e.org ++ "x") (by simp)).1, fun other apart => ?_⟩
      obtain ⟨-, share, is⟩ := inserted other apart
      rw [is]
      apply belongings_views
      rw [share]
      apply share_deleteById member
      rw [owned existing get]
      exact fun same => apart same.symm

variable {name : String}

theorem executeDropMaterializedView_owned (owned : ∀ v, s.views.getMaterializedView name = some v → v.organizationId = orgId)
    (apart : other ≠ orgId) : (executeDropMaterializedView s name).1.belongings other = s.belongings other := by
  unfold executeDropMaterializedView
  cases get : s.views.getMaterializedView name with
  | none => rfl
  | some v =>
    apply belongings_views
    rw [deleteMaterializedView_found get]
    apply share_deleteById (getMaterializedView_mem get)
    rw [owned v get]
    exact fun same => apart same.symm

theorem executeRefreshMaterializedView_owned (owned : ∀ v, s.views.getMaterializedView name = some v → v.organizationId = orgId)
    (apart : other ≠ orgId) : (executeRefreshMaterializedView call s name).1.belongings other = s.belongings other := by
  unfold executeRefreshMaterializedView
  cases get : s.views.getMaterializedView name with
  | none => rfl
  | some v =>
    apply belongings_views
    apply share_updateMaterializedViewStatus (getMaterializedView_mem get)
    rw [owned v get]
    exact fun same => apart same.symm

theorem executeDrop_congr (get : s.views.getMaterializedView name = t.views.getMaterializedView name) :
    (executeDropMaterializedView s name).2 = (executeDropMaterializedView t name).2 := by
  unfold executeDropMaterializedView
  rw [← get]
  cases s.views.getMaterializedView name <;> rfl

theorem executeRefresh_congr (get : s.views.getMaterializedView name = t.views.getMaterializedView name) :
    (executeRefreshMaterializedView call s name).2 = (executeRefreshMaterializedView call t name).2 := by
  unfold executeRefreshMaterializedView
  rw [← get]
  cases s.views.getMaterializedView name <;> rfl

theorem executeShow_congr (own : s.views.own orgId = t.views.own orgId) (first : ∀ v ∈ s.views.views, v.organizationId = orgId)
    (second : ∀ v ∈ t.views.views, v.organizationId = orgId) : executeShowMaterializedViews s = executeShowMaterializedViews t := by
  have same : s.views.views = t.views.views := by rw [← own_of_owned first, own, own_of_owned second]
  unfold executeShowMaterializedViews listMaterializedViews
  rw [same]

end Views

/-! ## Every statement -/

section Statements

variable {x : Externals} {useArrow : Bool} {call : Call} {s t : SqlSystem} {orgId : String} {q : SqlQuery}

theorem executeQuery_isolated (alike : Alike orgId (readTopics q) s t) (own : s.views.own orgId = t.views.own orgId)
    (first : Owned useArrow orgId q s) (second : Owned useArrow orgId q t) (freshFirst : call.Fresh s) (freshSecond : call.Fresh t)
    (passed : foreignTopic ⟨useArrow, some orgId⟩ s q = none) :
    (executeQuery x ⟨useArrow, some orgId⟩ call s q).2 = (executeQuery x ⟨useArrow, some orgId⟩ call t q).2 ∧
      ∀ other, other ≠ orgId → (executeQuery x ⟨useArrow, some orgId⟩ call s q).1.belongings other = s.belongings other := by
  have there : ∀ name ∈ extractTopicNames q, (s.catalog.getTopicForOrg orgId name).isSome = true :=
    fun name named => isSome_of_foreignTopic passed named
  have get : ∀ name, viewName q = some name → s.views.getMaterializedView name = t.views.getMaterializedView name :=
    fun name named => getMaterializedView_congr own (first.named name named) (second.named name named)
  have scan : ∀ name filters, name ∈ extractTopicNames q → arrowScan useArrow q = some (name, filters) →
      (s.catalog.getTopic name).map (partitionsOf filters) = (t.catalog.getTopic name).map (partitionsOf filters) :=
    fun name filters listed scan =>
      scanned_congr alike (there name listed) (first.scanned name filters scan) (second.scanned name filters scan)
  cases q with
  | select q =>
    refine ⟨?_, fun _ _ => rfl⟩
    exact congrArg (fun run => run.run' 0) (Alike.executeSelect (e := ⟨useArrow, some orgId⟩) alike mem_cons_self (there q.topic mem_cons_self))
  | showTopics =>
    refine ⟨?_, fun _ _ => rfl⟩
    show Except.ok ((s.catalog.listTopicsForOrg orgId).map _) = .ok ((t.catalog.listTopicsForOrg orgId).map _)
    rw [alike.topics]
  | describeTopic name =>
    refine ⟨?_, fun _ _ => rfl⟩
    exact congrArg (fun run => run.run' 0) (Alike.executeDescribe (e := ⟨useArrow, some orgId⟩) alike name)
  | count q =>
    refine ⟨?_, fun _ _ => rfl⟩
    have reads : onlyPartitionFilter q = false → q.topic ∈ readTopics (.count q) := by
      intro others
      rw [readTopics, others]
      exact mem_cons_self
    exact congrArg (fun run => run.run' 0) (Alike.executeCount (e := ⟨useArrow, some orgId⟩) alike reads)
  | windowAggregate q =>
    refine ⟨?_, fun _ _ => rfl⟩
    apply congrArg fun run => StateT.run' run 0
    apply Alike.executeWindowAggregate (e := ⟨useArrow, some orgId⟩) alike mem_cons_self
    intro arrow
    exact scan q.topic q.filters mem_cons_self (if_pos arrow)
  | groupByAggregate q =>
    refine ⟨?_, fun _ _ => rfl⟩
    apply congrArg fun run => StateT.run' run 0
    apply Alike.executeGroupByAggregate (e := ⟨useArrow, some orgId⟩) alike mem_cons_self
    intro arrow
    exact scan q.topic q.filters mem_cons_self (if_pos arrow)
  | join q =>
    refine ⟨?_, fun _ _ => rfl⟩
    exact congrArg (fun run => run.run' 0) (Alike.executeJoinQuery (e := ⟨useArrow, some orgId⟩) alike mem_cons_self (mem_cons_of_mem _ mem_cons_self))
  | createMaterializedView q =>
    obtain ⟨topic, found⟩ := isSome_iff_exists.mp (there q.sourceTopic mem_cons_self)
    have source : findTopic ⟨useArrow, some orgId⟩ s q.sourceTopic = .ok topic := by
      unfold findTopic SqlExecutor.org
      rw [getD_some, found]
    have source' : findTopic ⟨useArrow, some orgId⟩ t q.sourceTopic = .ok topic := by
      rw [← Alike.findTopic (e := ⟨useArrow, some orgId⟩) alike]
      exact source
    obtain ⟨result, kept⟩ := executeCreateMaterializedView_owned _ _ _ source (first.named q.name rfl) freshFirst
    have result' := (executeCreateMaterializedView_owned _ _ _ source' (second.named q.name rfl) freshSecond).1
    refine ⟨?_, kept⟩
    show (executeCreateMaterializedView _ call s q).2 = (executeCreateMaterializedView _ call t q).2
    rw [result, result', get q.name rfl]
  | dropMaterializedView name => exact ⟨executeDrop_congr (get name rfl), fun other apart => executeDropMaterializedView_owned (first.named name rfl) apart⟩
  | refreshMaterializedView name =>
    exact ⟨executeRefresh_congr (get name rfl), fun other apart => executeRefreshMaterializedView_owned (first.named name rfl) apart⟩
  | showMaterializedViews =>
    refine ⟨?_, fun _ _ => rfl⟩
    exact congrArg Except.ok (executeShow_congr own (first.listed rfl) (second.listed rfl))
  | describeMaterializedView name =>
    refine ⟨?_, fun _ _ => rfl⟩
    show executeDescribeMaterializedView s name = executeDescribeMaterializedView t name
    unfold executeDescribeMaterializedView
    rw [get name rfl]

/-- **A statement isolates the organization where it finds what is the organization's own**, if it
gets past the check of its topics. -/
theorem isolated_of_owned (x : Externals) (useArrow : Bool) (orgId : String) (q : SqlQuery) :
    TenantIsolated x useArrow orgId q fun s => foreignTopic ⟨useArrow, some orgId⟩ s q = none → Owned useArrow orgId q s := by
  rintro call s t ⟨admitsFirst, freshFirst⟩ ⟨admitsSecond, freshSecond⟩ same
  have own : s.views.own orgId = t.views.own orgId := congrArg (fun b => b.views.views) same
  have check := foreignTopic_congr same useArrow q
  dsimp only
  unfold execute
  rw [← check]
  cases passed : foreignTopic ⟨useArrow, some orgId⟩ s q with
  | some name => exact ⟨rfl, fun _ _ => rfl⟩
  | none =>
    have first := admitsFirst passed
    have second := admitsSecond (check.symm.trans passed)
    exact executeQuery_isolated (alike_of_belongings same first.cached second.cached) own first second freshFirst freshSecond passed

end Statements

/-! ## Another organization's things in the way -/

section Foreign

/-- A system without segments. -/
def bare (catalog : Catalog) (views : ViewTables) : SqlSystem where
  catalog
  views
  objects := fun _ => none
  cache := fun _ => none

def plainOrganization (id : String) : Organization where
  id
  name := id
  slug := id
  plan := .free
  status := .active
  createdAt := 0
  settings := []
  externalId := none
  deploymentMode := .selfHosted

def plainTopic (organizationId name : String) (partitionCount : Nat) : TopicRow where
  organizationId
  name
  partitionCount
  retentionMs := none
  createdAt := 0
  config := []

/-- The organizations with the topics, whose partitions are empty. -/
def plainCatalog (organizations : List String) (topics : List TopicRow) : Catalog where
  organizations := organizations.map plainOrganization
  quotas := []
  topics
  segments := {
    segments := []
    highWatermark := fun k =>
      if topics.any fun r => decide (r.organizationId = k.orgId ∧ r.name = k.topic ∧ k.partitionId < r.partitionCount) then some 0 else none }
  consumerOffsets := []

def plainView (organizationId name : String) : MaterializedView where
  id := "view"
  organizationId
  name
  sourceTopic := "topic"
  querySql := ""
  refreshMode := .continuous
  status := .running
  errorMessage := none
  rowCount := 0
  lastRefreshAt := none
  createdAt := 0
  updatedAt := 0

/-- The tables with one view. -/
def oneView (v : MaterializedView) : ViewTables where
  views := [v]
  data := []
  offsets := []
  ids := nodup_singleton _
  keys := nodup_singleton _

/-- A call that takes a millisecond from one look at the clock to the next, without time. -/
def hastyCall : Call where
  timeoutMs := 0
  elapsed := fun asked => asked
  monotone := monotone_id
  uuid := ""
  now := 0

variable {x : Externals} {useArrow : Bool} {orgId : String}

theorem clean_bare {read : List String} (catalog : Catalog) (views : ViewTables) : (bare catalog views).Clean orgId read := by
  intro r _ _ bytes cached
  cases cached

theorem get_oneView (organizationId name : String) :
    (oneView (plainView organizationId name)).getMaterializedView name = some (plainView organizationId name) := by
  unfold getMaterializedView
  exact find?_cons_of_pos (decide_eq_true rfl)

theorem fresh_empty (call : Call) (catalog : Catalog) : call.Fresh (bare catalog empty) := by
  intro v member
  cases member

theorem fresh_oneView (call : Call) (catalog : Catalog) (organizationId name : String) :
    call.Fresh (bare catalog (oneView (plainView organizationId name))) := by
  intro v member other same
  obtain rfl := mem_singleton.mp member
  have first := congrArg (fun text => text.toList.head?) same
  simp [plainView, viewId] at first

/-- A view of another organization is none of the organization's things. -/
theorem belongings_oneView (catalog : Catalog) {organizationId : String} (name : String) (apart : organizationId ≠ orgId) :
    (bare catalog (oneView (plainView organizationId name))).belongings orgId = (bare catalog empty).belongings orgId := by
  have share : (oneView (plainView organizationId name)).share orgId = empty.share orgId := by
    have own : (oneView (plainView organizationId name)).own orgId = [] :=
      filter_cons_of_neg fun same => apart (of_decide_eq_true same)
    unfold ViewTables.share
    rw [own]
    rfl
  unfold belongings
  rw [show (bare catalog (oneView _)).views.share orgId = _ from share]
  rfl

/-- A topic of another organization is none of the organization's things. -/
theorem belongings_plainTopic (organizations : List String) (topics : List TopicRow) {r : TopicRow} (apart : r.organizationId ≠ orgId) :
    (bare (plainCatalog organizations (r :: topics)) empty).belongings orgId =
      (bare (plainCatalog organizations topics) empty).belongings orgId := by
  have rows : ((r :: topics).filter fun r => r.organizationId = orgId) = topics.filter fun r => r.organizationId = orgId :=
    filter_cons_of_neg fun same => apart (of_decide_eq_true same)
  have marks : ∀ topic p, (plainCatalog organizations (r :: topics)).segments.highWatermark ⟨orgId, topic, p⟩ =
      (plainCatalog organizations topics).segments.highWatermark ⟨orgId, topic, p⟩ := by
    intro topic p
    have missed : decide (r.organizationId = orgId ∧ r.name = topic ∧ p < r.partitionCount) = false :=
      decide_eq_false fun all => apart all.1
    show (if ((r :: topics).any _) = true then _ else _) = if (topics.any _) = true then _ else _
    rw [any_cons, missed, Bool.false_or]
  unfold belongings
  congr 1
  funext topic p
  exact marks topic p

theorem execute_of_own {call : Call} {s : SqlSystem} {q : SqlQuery} (passed : foreignTopic ⟨useArrow, some orgId⟩ s q = none) :
    execute x ⟨useArrow, some orgId⟩ call s q = executeQuery x ⟨useArrow, some orgId⟩ call s q := by
  unfold execute
  rw [passed]

theorem getTopicForOrg_plainTopic (organizations : List String) (name : String) (count : Nat) (topics : List TopicRow) (views : ViewTables) :
    (bare (plainCatalog organizations (plainTopic orgId name count :: topics)) views).catalog.getTopicForOrg orgId name =
      some (plainTopic orgId name count).topic := by
  unfold Catalog.getTopicForOrg
  have found : (plainTopic orgId name count :: topics).find? (fun r => r.organizationId = orgId ∧ r.name = name) =
      some (plainTopic orgId name count) := find?_cons_of_pos (decide_eq_true ⟨rfl, rfl⟩)
  exact congrArg (Option.map TopicRow.topic) found

theorem own_oneView (organizationId name : String) :
    (oneView (plainView organizationId name)).own organizationId = [plainView organizationId name] :=
  filter_cons_of_pos (decide_eq_true rfl)

theorem findTopic_plainTopic {name : String} {count : Nat} {views : ViewTables} :
    findTopic ⟨useArrow, some orgId⟩ (bare (plainCatalog organizations (plainTopic orgId name count :: topics)) views) name =
      .ok (plainTopic orgId name count).topic := by
  unfold findTopic SqlExecutor.org
  rw [getD_some, getTopicForOrg_plainTopic]

theorem foreignTopic_plainTopic {name : String} {count : Nat} {views : ViewTables}
    {q : SqlQuery} (named : extractTopicNames q = [name]) :
    foreignTopic ⟨useArrow, some orgId⟩ (bare (plainCatalog organizations (plainTopic orgId name count :: topics)) views) q = none := by
  unfold foreignTopic
  rw [bind_some, named, find?_cons_of_neg]
  · rfl
  · rw [getTopicForOrg_plainTopic]
    exact Bool.false_ne_true

/-- A view that is replaced is lost to the organization it is of. -/
theorem create_takes {q : CreateMaterializedViewQuery} {s : SqlSystem} {topic : Topic} (replace : q.orReplace = true)
    (views : s.views = oneView (plainView (orgId ++ "x") q.name))
    (found : findTopic ⟨useArrow, some orgId⟩ s q.sourceTopic = .ok topic) :
    (executeCreateMaterializedView ⟨useArrow, some orgId⟩ hastyCall s q).1.belongings (orgId ++ "x") ≠ s.belongings (orgId ++ "x") := by
  have emptied : (s.views.deleteById "view").views = [] := by
    rw [views]
    rfl
  have get : s.views.getMaterializedView q.name = some (plainView (orgId ++ "x") q.name) := by
    rw [views]
    exact get_oneView _ _
  have empty : ∀ p : MaterializedView → Prop, ∀ v ∈ (s.views.deleteById "view").views, p v := by
    intro p v member
    rw [emptied] at member
    cases member
  have inserted := insertView_ok ⟨useArrow, some orgId⟩ hastyCall s (orgId ++ "x") (q := q)
    (empty _) (empty _) (by simp [SqlExecutor.org])
  rw [executeCreateMaterializedView_replace found get replace]
  intro same
  have shares : share _ (orgId ++ "x") = s.views.share (orgId ++ "x") := congrArg Belongings.views same
  have lost : (s.views.deleteById "view").own (orgId ++ "x") = s.views.own (orgId ++ "x") :=
    congrArg Share.views (inserted.2.1.symm.trans shares)
  rw [own, emptied, views, own_oneView] at lost
  cases lost

/-- A statement on the name of another organization's view tells of the view, or takes it. -/
theorem not_isolated_of_named {q : SqlQuery} {name : String} (named : viewName q = some name) :
    ¬ TenantIsolated x useArrow orgId q fun s => s.Clean orgId (readTopics q) := by
  intro isolated
  have apart : orgId ++ "x" ≠ orgId := by simp
  have results : ∀ catalog, (execute x ⟨useArrow, some orgId⟩ hastyCall (bare catalog empty) q).2 =
      (execute x ⟨useArrow, some orgId⟩ hastyCall (bare catalog (oneView (plainView (orgId ++ "x") name))) q).2 := fun catalog =>
    (isolated hastyCall _ _ ⟨clean_bare _ _, fresh_empty _ _⟩ ⟨clean_bare _ _, fresh_oneView _ _ _ _⟩ (belongings_oneView catalog name apart).symm).1
  have get : ∀ catalog, (bare catalog (oneView (plainView (orgId ++ "x") name))).views.getMaterializedView name =
      some (plainView (orgId ++ "x") name) := fun _ => get_oneView _ _
  have differs := results Catalog.empty
  cases q with
  | createMaterializedView q =>
    obtain rfl := some.inj named
    let catalog := plainCatalog [orgId, orgId ++ "x"] [plainTopic orgId q.sourceTopic 1]
    cases replace : q.orReplace with
    | true =>
      have kept := (isolated hastyCall _ _ ⟨clean_bare catalog _, fresh_oneView _ _ (orgId ++ "x") q.name⟩
        ⟨clean_bare catalog _, fresh_oneView _ _ (orgId ++ "x") q.name⟩ rfl).2 (orgId ++ "x") apart
      dsimp only at kept
      rw [execute_of_own (foreignTopic_plainTopic rfl)] at kept
      exact create_takes replace rfl findTopic_plainTopic kept
    | false =>
      have differs := results catalog
      rw [execute_of_own (foreignTopic_plainTopic rfl), execute_of_own (foreignTopic_plainTopic rfl)] at differs
      have created := (executeCreateMaterializedView_owned ⟨useArrow, some orgId⟩ hastyCall (bare catalog empty) (q := q)
        findTopic_plainTopic (fun v none => by cases none) (fresh_empty _ _)).1
      change (executeCreateMaterializedView _ _ _ q).2 = (executeCreateMaterializedView _ _ _ q).2 at differs
      rw [created] at differs
      unfold executeCreateMaterializedView at differs
      rw [findTopic_plainTopic, get catalog, replace] at differs
      cases differs
  | dropMaterializedView name' =>
    obtain rfl := some.inj named
    change (executeDropMaterializedView _ name').2 = (executeDropMaterializedView _ name').2 at differs
    unfold executeDropMaterializedView at differs
    rw [get Catalog.empty] at differs
    cases differs
  | refreshMaterializedView name' =>
    obtain rfl := some.inj named
    change (executeRefreshMaterializedView _ _ name').2 = (executeRefreshMaterializedView _ _ name').2 at differs
    unfold executeRefreshMaterializedView at differs
    rw [get Catalog.empty] at differs
    cases differs
  | describeMaterializedView name' =>
    obtain rfl := some.inj named
    change executeDescribeMaterializedView (bare Catalog.empty empty) name' = executeDescribeMaterializedView (bare Catalog.empty _) name'
      at differs
    unfold executeDescribeMaterializedView at differs
    rw [get Catalog.empty] at differs
    cases differs
  | _ => cases named

theorem not_isolated_of_listed {q : SqlQuery} (listed : listsViews q = true) : ¬ TenantIsolated x useArrow orgId q fun s => s.Clean orgId (readTopics q) := by
  intro isolated
  have apart : orgId ++ "x" ≠ orgId := by simp
  cases q with
  | showMaterializedViews =>
    have same := (isolated hastyCall _ _ ⟨clean_bare Catalog.empty _, fresh_empty _ _⟩ ⟨clean_bare _ _, fresh_oneView _ _ _ _⟩
      (belongings_oneView Catalog.empty "" apart).symm).1
    change Except.ok (executeShowMaterializedViews (bare Catalog.empty empty)) =
      .ok (executeShowMaterializedViews (bare Catalog.empty (oneView (plainView (orgId ++ "x") "")))) at same
    have lengths := congrArg List.length (Except.ok.inj same)
    unfold executeShowMaterializedViews listMaterializedViews at lengths
    rw [length_map, length_map, length_insertionSort, length_insertionSort] at lengths
    cases lengths
  | _ => cases listed

theorem arrowPartition_bare {e : SqlExecutor} (catalog : Catalog) (none : catalog.segments.segments = []) (views : ViewTables) (name : String)
    (filters : List Filter) : arrowPartition x e (bare catalog views) name filters = fun _ loaded => pure loaded := by
  funext p loaded
  have segments : (bare catalog views).catalog.getSegments (partitionKey e name p) = [] := by
    unfold Catalog.getSegments SegmentStore.getSegments SegmentStore.rows
    rw [show (bare catalog views).catalog.segments.segments = [] from none]
    rfl
  unfold arrowPartition
  rw [segments]
  cases (bare catalog views).catalog.getPartition (partitionKey e name p) <;> rfl

/-- The partitions that the first topic of the name has are scanned. -/
theorem arrowMessages_plainTopic {e : SqlExecutor} {organizationId name : String} {count : Nat} (all : partitionFilter filters = none) :
    arrowMessages x e hastyCall (bare (plainCatalog organizations (plainTopic organizationId name count :: topics)) empty) name filters =
      forPartitions hastyCall ((List.range (BitVec.ofNat 32 count).toNat).map (BitVec.ofNat 32)) fun _ loaded => pure loaded := by
  have found : (plainTopic organizationId name count :: topics).find? (fun r => r.name = name) = some (plainTopic organizationId name count) :=
    find?_cons_of_pos (decide_eq_true rfl)
  have first : (bare (plainCatalog organizations (plainTopic organizationId name count :: topics)) empty).catalog.getTopic name =
      some (plainTopic organizationId name count).topic := congrArg (Option.map TopicRow.topic) found
  have scanned : partitionsOf filters (plainTopic organizationId name count).topic =
      (List.range (BitVec.ofNat 32 count).toNat).map (BitVec.ofNat 32) := by
    unfold partitionsOf queryPartitions
    rw [all]
    rfl
  unfold arrowMessages
  rw [first, arrowPartition_bare (plainCatalog organizations _) rfl]
  dsimp only
  rw [scanned]

theorem run'_ok {α : Type} {m : Timed α} {f : α → Timed Rows} {a : α} {asked : Nat} (done : m 0 = .ok (a, asked)) :
    (m >>= f).run' 0 = Prod.fst <$> f a asked := by
  show Prod.fst <$> ((m 0) >>= fun r => f r.1 r.2) = _
  rw [done]
  rfl

theorem run'_error {α : Type} {m : Timed α} {f : α → Timed Rows} {error : ExecuteError} (failed : m 0 = .error error) :
    (m >>= f).run' 0 = .error error := by
  show Prod.fst <$> ((m 0) >>= fun r => f r.1 r.2) = _
  rw [failed]
  rfl

/-- A statement that scans all partitions through Arrow runs out of time for those of another organization's topic. -/
theorem not_isolated_of_scanned {q : SqlQuery} {name : String} (scan : arrowScan useArrow q = some (name, filters))
    (all : partitionFilter filters = none) : ¬ TenantIsolated x useArrow orgId q fun s => s.Clean orgId (readTopics q) := by
  intro isolated
  have apart : orgId ++ "x" ≠ orgId := by simp
  let organizations := [orgId, orgId ++ "x"]
  let own := plainTopic orgId name 1
  let s := bare (plainCatalog organizations [own]) empty
  let t := bare (plainCatalog organizations [plainTopic (orgId ++ "x") name 2, own]) empty
  have same : s.belongings orgId = t.belongings orgId := (belongings_plainTopic organizations [own] apart).symm
  have differs : (execute x ⟨useArrow, some orgId⟩ hastyCall s q).2 = (execute x ⟨useArrow, some orgId⟩ hastyCall t q).2 :=
    (isolated hastyCall s t ⟨clean_bare _ _, fresh_empty _ _⟩ ⟨clean_bare _ _, fresh_empty _ _⟩ same).1
  have first : ∀ e, arrowMessages x e hastyCall s name filters 0 = .ok ([], 1) := by
    intro e
    rw [arrowMessages_plainTopic all]
    rfl
  have second : ∀ e, arrowMessages x e hastyCall t name filters 0 = .error (.timeout 0) := by
    intro e
    rw [arrowMessages_plainTopic all]
    rfl
  have passed : ∀ q, extractTopicNames q = [name] → foreignTopic ⟨useArrow, some orgId⟩ s q = none ∧ foreignTopic ⟨useArrow, some orgId⟩ t q = none := by
    intro q named
    rw [← foreignTopic_congr same useArrow q]
    exact ⟨foreignTopic_plainTopic named, foreignTopic_plainTopic named⟩
  cases q with
  | windowAggregate q =>
    change (if q.throughArrow useArrow = true then some (q.topic, q.filters) else none) = _ at scan
    split_ifs at scan with arrow
    obtain ⟨rfl, rfl⟩ := Prod.mk.inj (some.inj scan)
    rw [execute_of_own (passed _ rfl).1, execute_of_own (passed _ rfl).2] at differs
    change (executeWindowAggregate x _ hastyCall s q).run' 0 = (executeWindowAggregate x _ hastyCall t q).run' 0 at differs
    unfold executeWindowAggregate at differs
    unfold WindowAggregateQuery.throughArrow at arrow
    cases window : q.window with
    | tumble size =>
      rw [window] at arrow differs
      dsimp only at arrow differs
      rw [arrow] at differs
      rw [run'_ok (first _), run'_error (second _)] at differs
      cases differs
    | hop size slide =>
      rw [window] at arrow
      cases arrow
    | session gap =>
      rw [window] at arrow
      cases arrow
  | groupByAggregate q =>
    change (if useArrow = true then some (q.topic, q.filters) else none) = _ at scan
    split_ifs at scan with arrow
    obtain ⟨rfl, rfl⟩ := Prod.mk.inj (some.inj scan)
    rw [execute_of_own (passed _ rfl).1, execute_of_own (passed _ rfl).2] at differs
    change (executeGroupByAggregate x _ hastyCall s q).run' 0 = (executeGroupByAggregate x _ hastyCall t q).run' 0 at differs
    unfold executeGroupByAggregate at differs
    rw [if_pos arrow, if_pos arrow, run'_ok (first _), run'_error (second _)] at differs
    cases differs
  | _ => cases scan

end Foreign

/-! ## Tenants -/

def plainExternals : Externals where
  packages := ⟨id, fun bytes => .ok bytes, fun _ => 0⟩
  fromUtf8Lossy := fun bytes => String.ofList (bytes.map fun b => Char.ofNat b.toNat)
  display := fun _ => ""
  parse := fun _ => none
  toLowercase := id
  iteration := ⟨reverse, reverse_perm⟩
  sortMessages := fun _ messages => some messages

end StreamHouse.Sql
