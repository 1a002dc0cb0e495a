import StreamHouse.Lib.ReadThrough
import StreamHouse.Metadata.Catalog

/-!
# The cached metadata store

`CachedMetadataStore` in front of the catalog: three caches, what each call takes out of them, and
all interleavings of the calls' steps. Creating and deleting a topic for an organization are only
forwarded.
-/

namespace StreamHouse.Metadata

open Lib ReadThrough List Catalog

/-- `CacheConfig`. -/
structure CacheConfig where
  topicCapacity : Nat
  topicTtlMs : Int
  partitionCapacity : Nat
  partitionTtlMs : Int
  topicListCapacity : Nat
  topicListTtlMs : Int

/-- `Default`. -/
def CacheConfig.default : CacheConfig where
  topicCapacity := 10000
  topicTtlMs := 5 * 60 * 1000
  partitionCapacity := 100000
  partitionTtlMs := 30 * 1000
  topicListCapacity := 1
  topicListTtlMs := 30 * 1000

/-- The calls that are answered from a cache, which are also the keys of the three caches. -/
inductive CachedRead where
  | getTopic (name : String)
  | listTopics
  | getPartition (k : PartitionKey)
deriving DecidableEq

inductive CachedAnswer where
  | topic (found : Option Topic)
  | topics (list : List Topic)
  | partition (found : Option Partition)
deriving DecidableEq

/-- The tables other than topics and partitions. -/
structure OtherTables where
  organizations : List Organization
  quotas : List OrganizationQuota
  segments : List SegmentRow
  consumerOffsets : List OffsetRow

/-- The calls that write. A call that writes to other tables only is forwarded, whatever it does there. -/
inductive CachedWrite where
  | createTopic (config : TopicConfig) (now : Int)
  | deleteTopic (name : String)
  | createTopicForOrg (orgId : String) (config : TopicConfig) (now : Int)
  | deleteTopicForOrg (orgId name : String)
  | updateHighWatermark (k : PartitionKey) (offset : Nat)
  | addSegmentAndUpdateWatermark (orgId : String) (segment : SegmentInfo) (highWatermark : Nat)
  | elsewhere (tables : OtherTables)

namespace CachedStore

def answer (m : Catalog) : CachedRead → CachedAnswer
  | .getTopic name => .topic (m.getTopic name)
  | .listTopics => .topics m.listTopics
  | .getPartition k => .partition (m.getPartition k)

/-- That something is not there is not remembered. -/
def found : CachedAnswer → Bool
  | .topic t => t.isSome
  | .topics _ => true
  | .partition p => p.isSome

def perform (m : Catalog) : CachedWrite → Option Catalog
  | .createTopic config now => m.createTopic config now
  | .deleteTopic name => m.deleteTopic name
  | .createTopicForOrg orgId config now => m.createTopicForOrg orgId config now
  | .deleteTopicForOrg orgId name => m.deleteTopicForOrg orgId name
  | .updateHighWatermark k offset => m.updateHighWatermark k offset
  | .addSegmentAndUpdateWatermark orgId segment highWatermark => m.addSegmentAndUpdateWatermark orgId segment highWatermark
  | .elsewhere tables =>
    some { m with
      organizations := tables.organizations
      quotas := tables.quotas
      segments := { m.segments with segments := tables.segments }
      consumerOffsets := tables.consumerOffsets }

/-- `invalidate_topic`. -/
def invalidateTopic (name : String) : CachedRead → Bool := fun key => key = .getTopic name

/-- `invalidate_partition`. -/
def invalidatePartition (k : PartitionKey) : CachedRead → Bool := fun key => key = .getPartition k

/-- `invalidate_topic_partitions`, in all organizations. -/
def invalidateTopicPartitions (topic : String) : CachedRead → Bool
  | .getPartition k => k.topic = topic
  | _ => false

/-- `invalidate_topic_list`. -/
def invalidateTopicList : CachedRead → Bool := fun key => key = .listTopics

/-- What a call takes out of the caches once the inner call has succeeded, lock by lock. -/
def invalidates : CachedWrite → List (CachedRead → Bool)
  | .createTopic config _ => [invalidateTopic config.name, invalidateTopicList]
  | .deleteTopic name => [invalidateTopic name, invalidateTopicPartitions name, invalidateTopicList]
  | .createTopicForOrg _ _ _ => []
  | .deleteTopicForOrg _ _ => []
  | .updateHighWatermark k _ => [invalidatePartition k]
  | .addSegmentAndUpdateWatermark orgId segment _ => [invalidatePartition ⟨orgId, segment.topic, segment.partitionId⟩]
  | .elsewhere _ => []

variable (config : CacheConfig)

def ttlMs : CachedRead → Int
  | .getTopic _ => config.topicTtlMs
  | .listTopics => config.topicListTtlMs
  | .getPartition _ => config.partitionTtlMs

def isTopic : CachedRead → Bool
  | .getTopic _ => true
  | _ => false

def isTopicList : CachedRead → Bool
  | .listTopics => true
  | _ => false

def isPartition : CachedRead → Bool
  | .getPartition _ => true
  | _ => false

/-- The three `LruCache`s, each with its own capacity. -/
def evictOldest {α : Type} (entries : List (CachedRead × α)) : List (CachedRead × α) :=
  (entries.filter fun entry => isTopic entry.1).take config.topicCapacity ++
    (entries.filter fun entry => isTopicList entry.1).take config.topicListCapacity ++
    (entries.filter fun entry => isPartition entry.1).take config.partitionCapacity

/-- The cache in front of the catalog. -/
def source : Source Catalog CachedRead CachedRead CachedAnswer CachedWrite where
  query := answer
  key := id
  keeps := found
  apply w m := perform m w
  removes := invalidates
  ttl := ttlMs config
  trim := evictOldest config

/-! ## What a call takes out is what it changes -/

theorem evictOldest_subset (entries : List (CachedRead × Entry CachedRead CachedAnswer)) :
    evictOldest config entries ⊆ entries := by
  intro entry inside
  simp only [evictOldest, mem_append] at inside
  obtain (inside | inside) | inside := inside
  all_goals exact (mem_filter.mp (mem_of_mem_take inside)).1

/-- The calls that take out every answer they change. -/
def Thorough : CachedWrite → Prop
  | .deleteTopic _ => True
  | .updateHighWatermark _ _ => True
  | .addSegmentAndUpdateWatermark _ _ _ => True
  | .elsewhere _ => True
  | _ => False

instance Thorough.decidable : DecidablePred Thorough
  | .deleteTopic _ => .isTrue trivial
  | .updateHighWatermark _ _ => .isTrue trivial
  | .addSegmentAndUpdateWatermark _ _ _ => .isTrue trivial
  | .elsewhere _ => .isTrue trivial
  | .createTopic _ _ => .isFalse id
  | .createTopicForOrg _ _ _ => .isFalse id
  | .deleteTopicForOrg _ _ => .isFalse id

variable {m m' : Catalog}

theorem covers_touches {k : PartitionKey} (touches : Touches m m' k) {read : CachedRead}
    (changed : answer m read ≠ answer m' read) : invalidatePartition k read = true := by
  cases read with
  | getTopic name => exact absurd (congrArg CachedAnswer.topic (touches.getTopic name).symm) changed
  | listTopics => exact absurd (congrArg CachedAnswer.topics touches.listTopics.symm) changed
  | getPartition other =>
    by_cases same : other = k
    · rw [same]
      exact decide_eq_true rfl
    · exact absurd (congrArg CachedAnswer.partition (touches.getPartition same).symm) changed

theorem Thorough.covers {w : CachedWrite} (thorough : Thorough w) (performed : perform m w = some m') {read : CachedRead}
    (changed : answer m read ≠ answer m' read) : ∃ which ∈ invalidates w, which read = true := by
  cases w with
  | deleteTopic name =>
    have deleted : m.deleteTopic name = some m' := performed
    cases read with
    | getTopic other =>
      by_cases same : other = name
      · refine ⟨invalidateTopic name, mem_cons_self, ?_⟩
        rw [same]
        exact decide_eq_true rfl
      · exact absurd (congrArg CachedAnswer.topic (getTopic_of_deleteTopic deleted same).symm) changed
    | listTopics =>
      exact ⟨invalidateTopicList, mem_cons_of_mem _ (mem_cons_of_mem _ mem_cons_self), rfl⟩
    | getPartition k =>
      by_cases same : k.topic = name
      · exact ⟨invalidateTopicPartitions name, mem_cons_of_mem _ mem_cons_self, decide_eq_true same⟩
      · exact absurd (congrArg CachedAnswer.partition (getPartition_of_deleteTopic deleted same).symm) changed
  | updateHighWatermark k offset =>
    exact ⟨_, mem_cons_self, covers_touches (touches_updateHighWatermark performed) changed⟩
  | addSegmentAndUpdateWatermark orgId segment highWatermark =>
    exact ⟨_, mem_cons_self, covers_touches (touches_addSegmentAndUpdateWatermark performed) changed⟩
  | elsewhere tables =>
    obtain rfl := Option.some.inj performed
    cases read <;> exact absurd rfl changed
  | createTopic config now => exact absurd thorough id
  | createTopicForOrg orgId config now => exact absurd thorough id
  | deleteTopicForOrg orgId name => exact absurd thorough id

/-- The calls that take nothing out whatever they change. -/
def Forwarded : CachedWrite → Prop
  | .createTopicForOrg _ _ _ => True
  | .deleteTopicForOrg _ _ => True
  | _ => False

instance Forwarded.decidable : DecidablePred Forwarded
  | .createTopicForOrg _ _ _ => .isTrue trivial
  | .deleteTopicForOrg _ _ => .isTrue trivial
  | .deleteTopic _ => .isFalse id
  | .updateHighWatermark _ _ => .isFalse id
  | .addSegmentAndUpdateWatermark _ _ _ => .isFalse id
  | .elsewhere _ => .isFalse id
  | .createTopic _ _ => .isFalse id

/-- Creating a topic takes out what it changes, the partitions apart that were not there before. -/
theorem createTopic_covers {config : TopicConfig} {now : Int} (created : m.createTopic config now = some m')
    {read : CachedRead} (isFound : found (answer m read) = true) (changed : answer m read ≠ answer m' read) :
    ∃ which ∈ invalidates (.createTopic config now), which read = true := by
  cases read with
  | getTopic name =>
    by_cases same : name = config.name
    · refine ⟨invalidateTopic config.name, mem_cons_self, ?_⟩
      rw [same]
      exact decide_eq_true rfl
    · exact absurd (congrArg CachedAnswer.topic (getTopic_of_insertTopic created same).symm) changed
  | listTopics => exact ⟨invalidateTopicList, mem_cons_of_mem _ mem_cons_self, rfl⟩
  | getPartition k =>
    exact absurd (congrArg CachedAnswer.partition (getPartition_of_insertTopic created isFound).symm) changed

theorem covers_of_not_forwarded {w : CachedWrite} (own : ¬ Forwarded w) (performed : perform m w = some m') {read : CachedRead}
    (isFound : found (answer m read) = true) (changed : answer m read ≠ answer m' read) :
    ∃ which ∈ invalidates w, which read = true := by
  cases w with
  | createTopic config now => exact createTopic_covers performed isFound changed
  | createTopicForOrg orgId config now => exact absurd trivial own
  | deleteTopicForOrg orgId name => exact absurd trivial own
  | deleteTopic name => exact (show Thorough (.deleteTopic name) from trivial).covers performed changed
  | updateHighWatermark k offset => exact (show Thorough (.updateHighWatermark k offset) from trivial).covers performed changed
  | addSegmentAndUpdateWatermark orgId segment highWatermark =>
    exact (show Thorough (.addSegmentAndUpdateWatermark orgId segment highWatermark) from trivial).covers performed changed
  | elsewhere tables => exact (show Thorough (.elsewhere tables) from trivial).covers performed changed

/-! ## Runs -/

abbrev CacheState := ReadThrough.State Catalog CachedRead CachedRead CachedAnswer

abbrev CacheStep := ReadThrough.Action CachedRead CachedRead CachedWrite

abbrev CacheCall := ReadThrough.Call CachedRead CachedWrite

/-- The condition on a step: a read puts in nothing that a write has changed whose invalidation it has missed, and a
write that does not take out all it changes changes nothing that is cached. -/
def Fit (s : CacheState) : CacheStep → Prop
  | .put id _ => PutsCurrent (source config) s (s.reads id)
  | .write w lost => (Thorough w ∧ lost = false) ∨ RemovesChanged (source config) s w lost
  | _ => True

instance Fit.decidable (s : CacheState) : DecidablePred (Fit config s)
  | .lookup _ _ _ => .isTrue trivial
  | .fetch _ => .isTrue trivial
  | .put id _ => inferInstanceAs (Decidable (PutsCurrent (source config) s (s.reads id)))
  | .write w lost => inferInstanceAs (Decidable ((Thorough w ∧ lost = false) ∨ RemovesChanged (source config) s w lost))
  | .remove _ => .isTrue trivial
  | .evict _ => .isTrue trivial

/-- The condition on a whole call, when calls do not overlap. -/
def FitCall (s : CacheState) : CacheCall → Prop
  | .read _ _ _ _ => True
  | .write w lost => (¬ Forwarded w ∧ lost = false) ∨ RemovesChanged (source config) s w lost

instance FitCall.decidable (s : CacheState) : DecidablePred (FitCall config s)
  | .read _ _ _ _ => .isTrue trivial
  | .write w lost => inferInstanceAs (Decidable ((¬ Forwarded w ∧ lost = false) ∨ RemovesChanged (source config) s w lost))

variable {config} {s : CacheState}

theorem Fit.orderly {a : CacheStep} (inv : Inv (source config) s) (fit : Fit config s a) : Orderly (source config) s a := by
  cases a with
  | lookup id read now => exact inv.findsOwn Function.injective_id read now
  | put id now => exact fit
  | write w lost =>
    obtain ⟨thorough, rfl⟩ | unseen := fit
    · intro catalog performed entry inside changed
      have named : entry.2.request = entry.1 := (inv.sound entry inside).named
      rw [← named]
      exact thorough.covers performed changed
    · exact unseen
  | _ => trivial

theorem FitCall.orderly {c : CacheCall} (still : Still (source config) s) (fit : FitCall config s c) :
    OrderlyCall (source config) s c := by
  cases c with
  | read id read now later => exact still.inv.findsOwn Function.injective_id read now
  | write w lost =>
    obtain ⟨own, rfl⟩ | unseen := fit
    · exact still.removesChanged fun catalog performed read isFound changed =>
        covers_of_not_forwarded own performed isFound changed
    · exact unseen

theorem fit_invariant {m : Catalog} {as : List CacheStep} (fit : Meets (step (source config)) (Fit config) (initial m) as) :
    Inv (source config) (run (step (source config)) (initial m) as) :=
  fit.invariant (fun s a inv fit => inv_step (evictOldest_subset config) s a inv (fit.orderly inv)) (inv_initial m)

theorem fitCall_invariant {m : Catalog} {calls : List CacheCall}
    (fit : Meets (ReadThrough.perform (source config)) (FitCall config) (initial m) calls) :
    Still (source config) (run (ReadThrough.perform (source config)) (initial m) calls) :=
  fit.invariant (fun s c still fit => still_perform (evictOldest_subset config) s c still (fit.orderly still))
    ⟨inv_initial m, fun _ => rfl⟩

/-- **Reads are current.** In a run whose steps meet the condition no read is answered from before a change whose call
had returned when the read started; of calls made one after another, every read is answered as the inner store would. -/
theorem cached_reads_current (config : CacheConfig) (m : Catalog) :
    (∀ as, Meets (step (source config)) (Fit config) (initial m) as → ∀ id read since value,
      (run (step (source config)) (initial m) as).reads id = .answered read since value →
        Since (source config) (run (step (source config)) (initial m) as) read value since) ∧
    ∀ calls, Meets (ReadThrough.perform (source config)) (FitCall config) (initial m) calls → ∀ id read now later, ∃ since,
      (run (ReadThrough.perform (source config)) (initial m) (calls ++ [.read id read now later])).reads id =
        .answered read since (answer (run (ReadThrough.perform (source config)) (initial m) calls).store read) := by
  constructor
  · intro as fit id read since value answered
    have going := (fit_invariant fit).going id
    rwa [answered] at going
  · intro calls fit id read now later
    have still := fitCall_invariant fit
    rw [run_append]
    exact (read_settled (evictOldest_subset config) still.inv still.settled id
      (still.inv.findsOwn Function.injective_id read now) later).2.2

def acme : Organization where
  id := defaultOrganizationId
  name := "Acme"
  slug := "acme"
  plan := .free
  status := .active
  createdAt := 0
  settings := []
  externalId := none
  deploymentMode := .selfHosted

def acmeCatalog : Catalog := { empty with organizations := [acme] }

def orders : TopicConfig := ⟨"orders", 1, none, .delete, []⟩

/-- While a topic is being created a read may still get the old list, and afterwards it gets the new one. -/
theorem cached_reads_of_created_topic :
    (∀ value, (run (step (source .default)) (initial acmeCatalog)
        [.lookup 0 .listTopics 0, .fetch 0, .put 0 1, .write (.createTopic orders 5) false, .lookup 1 .listTopics 2, .remove 1,
          .remove 1, .lookup 2 .listTopics 3, .fetch 2, .put 2 4]).reads 2 = .answered .listTopics 1 value →
      Since (source .default) (run (step (source .default)) (initial acmeCatalog)
        [.lookup 0 .listTopics 0, .fetch 0, .put 0 1, .write (.createTopic orders 5) false, .lookup 1 .listTopics 2, .remove 1,
          .remove 1, .lookup 2 .listTopics 3, .fetch 2, .put 2 4]) .listTopics value 1) ∧
    ∃ since, (run (ReadThrough.perform (source .default)) (initial acmeCatalog)
        ([.read 0 .listTopics 0 1, .write (.createTopic orders 5) false] ++ [.read 1 .listTopics 6 7])).reads 1 =
      .answered .listTopics since (answer (run (ReadThrough.perform (source .default)) (initial acmeCatalog)
        [.read 0 .listTopics 0 1, .write (.createTopic orders 5) false]).store .listTopics) :=
  ⟨fun value => (cached_reads_current .default acmeCatalog).1 _ (by decide) 2 .listTopics 1 value,
    (cached_reads_current .default acmeCatalog).2 _ (by decide) 1 .listTopics 6 7⟩

/-- A topic that is created for an organization is missing from the list that is cached. -/
theorem created_topic_not_listed :
    (run (ReadThrough.perform (source .default)) (initial acmeCatalog)
      [.read 0 .listTopics 0 1, .write (.createTopicForOrg acme.id orders 5) false, .read 1 .listTopics 6 7]).reads 1 =
        .answered .listTopics 1 (.topics []) ∧
    answer (run (ReadThrough.perform (source .default)) (initial acmeCatalog)
      [.read 0 .listTopics 0 1, .write (.createTopicForOrg acme.id orders 5) false]).store .listTopics ≠ .topics [] := by
  constructor
  · rfl
  · decide

end CachedStore

end StreamHouse.Metadata
