import StreamHouse.Connectors.Pipeline
import StreamHouse.Lib.Bytes
import StreamHouse.Metadata.Catalog
import StreamHouse.Metadata.Transactions

/-!
# The client's consumer

`Consumer` of `consumer.rs`: a position and a last-committed mark for each subscribed partition, beside the
offset that the metadata store has for the group. A poll reads the partitions from their positions, filters by
isolation level, moves the positions behind what it has collected, and may commit; a seek sets a position. What
fails in a call, what the clock says and what the registry knows are arguments.
-/

namespace StreamHouse.Client

open Metadata Storage
open Connectors (Follows offsetAbove)

inductive OffsetReset where
  | earliest
  | latest
  | none

inductive IsolationLevel where
  | readUncommitted
  | readCommitted

/-- `ConsumerConfig` with the organization of the builder; times are in milliseconds. -/
structure ConsumerConfig where
  orgId : String
  groupId : Option String
  topics : List String
  autoCommit : Bool
  autoCommitInterval : Nat
  offsetReset : OffsetReset
  maxPollRecords : Nat
  isolationLevel : IsolationLevel
  schemaRegistry : Bool

/-- `ClientError`, the variants of a consumer. -/
inductive ConsumerError where
  | configError (message : String)
  | topicNotFound (topic : String)
  | invalidPartition (partitionId : Nat) (topic : String) (partitionCount : Nat)
  | storageError (e : ReadError)
  | metadataError (e : MetadataError)

structure PartitionConsumer where
  currentOffset : Nat
  lastCommittedOffset : Nat

structure ConsumedRecord where
  topic : String
  partition : Nat
  offset : Nat
  timestamp : Nat
  key : Option Bytes
  value : Bytes
  schemaId : Option Int
  schema : Option String

def ConsumedRecord.at (r : ConsumedRecord) : TopicPartition := ⟨r.topic, r.partition⟩

/-! ## Schemas -/

/-- A zero, a schema id and the payload. -/
def extractSchemaId : Bytes → Option (Int × Bytes)
  | magic :: a :: b :: c :: d :: payload =>
    if magic = 0 then some ((BitVec.ofNat 32 (Lib.valueBE [a, b, c, d])).toInt, payload) else none
  | _ => none

/-- The record with the schema that its value names, if that can be had. -/
def ConsumedRecord.resolve (getSchema : Int → Option String) (r : ConsumedRecord) : ConsumedRecord :=
  match extractSchemaId r.value with
  | some (schemaId, payload) =>
    match getSchema schemaId with
    | some schema => { r with schemaId := some schemaId, schema := some schema, value := payload }
    | none => r
  | none => r

/-! ## Where a consumer starts -/

/-- What the store has committed for the group and partition, whoever has committed it. -/
def storedOffset (m : Metadata.Catalog) (groupId : String) (key : TopicPartition) : Option Nat :=
  ((m.getConsumerOffsets groupId).find? fun o => o.topic = key.topic ∧ o.partitionId = key.partitionId).map
    Metadata.Catalog.ConsumerOffset.committedOffset

/-- `determine_start_offset`. -/
def determineStartOffset (config : ConsumerConfig) (m : Metadata.Catalog) (key : TopicPartition) : Except ConsumerError Nat :=
  match config.groupId.bind fun groupId => storedOffset m groupId key with
  | some offset => .ok offset
  | none =>
    match config.offsetReset with
    | .earliest => .ok 0
    | .latest =>
      match m.getPartition ⟨config.orgId, key.topic, key.partitionId⟩ with
      | some partition => .ok partition.highWatermark
      | none => .error (.invalidPartition key.partitionId key.topic 0)
    | .none => .error (.configError s!"No committed offset for {key.topic}-{key.partitionId} and offset_reset=None")

/-- `subscribe_topics`: the partitions with their starting offsets, as they go into the map of readers. -/
def subscribeTopics (config : ConsumerConfig) (m : Metadata.Catalog) : List String → Except ConsumerError (List (TopicPartition × Nat))
  | [] => .ok []
  | topic :: topics =>
    match m.getTopic topic with
    | none => .error (.topicNotFound topic)
    | some row => do
      let starts ← (List.range row.partitionCount).mapM fun partitionId =>
        (determineStartOffset config m ⟨topic, partitionId⟩).map fun offset => (⟨topic, partitionId⟩, offset)
      let rest ← subscribeTopics config m topics
      .ok (starts ++ rest)

/-! ## The consumer and what it reads from -/

/-- The positions and the store when a commit has returned without an error. -/
structure CommitDone where
  store : Metadata.Catalog
  positions : TopicPartition → Nat

structure ConsumerHistory where
  /-- What has been returned of a partition since its last seek. -/
  returned : TopicPartition → List ConsumedRecord
  /-- The position at the last seek, or at the start. -/
  soughtTo : TopicPartition → Nat
  /-- The records that a partition has had. -/
  stored : TopicPartition → List Record
  commits : List CommitDone

/-- `keys` are the subscribed partitions in the order in which the map of readers is iterated; `next` is the
offset that a partition assigns next. -/
structure ConsumerState where
  keys : List TopicPartition
  readers : TopicPartition → PartitionConsumer
  lastCommit : Nat
  store : Metadata.Catalog
  log : TopicPartition → StoredLog
  next : TopicPartition → Nat
  history : ConsumerHistory

/-- A `commit_offset` of a partition that does not reach the store. -/
structure CommitConditions where
  commitOffset : TopicPartition → Option MetadataError

/-- What one poll meets. -/
structure ConsumerPoll where
  /-- The timeout has passed when the partition's result is looked at. -/
  timedOut : TopicPartition → Bool
  reader : TopicPartition → ReadFaults
  /-- The text of another error of the read says `Offset not found`. -/
  saysNotFound : TopicPartition → Bool
  lastStableOffset : TopicPartition → Except MetadataError Nat
  getSchema : Int → Option String
  /-- When the positions have been updated. -/
  now : Nat
  commit : CommitConditions

namespace ConsumerState

variable (config : ConsumerConfig) (s : ConsumerState)

/-- `build`, with the order that the map of readers has. A topic that is listed twice has its readers once. -/
def build (m : Metadata.Catalog) (log : TopicPartition → StoredLog) (now : Nat) (order : List TopicPartition) : Except ConsumerError ConsumerState :=
  if config.topics = [] then .error (.configError "topics required")
  else do
    let starts ← subscribeTopics config m config.topics
    let keys := (starts.map Prod.fst).dedup
    let start key := ((starts.find? fun p => p.1 = key).map Prod.snd).getD 0
    .ok {
      keys := order.dedup.filter (· ∈ keys) ++ keys.filter (· ∉ order)
      readers := fun key => ⟨start key, start key⟩
      lastCommit := now
      store := m
      log
      next := fun key => offsetAbove (log key).segments 0
      history := ⟨fun _ => [], start, fun key => (log key).records, []⟩ }

def position (key : TopicPartition) : Nat := (s.readers key).currentOffset

/-! ## Polls -/

/-- A read-committed consumer passes over what is not below the last stable offset, if it learns of that. -/
def visible (c : ConsumerPoll) (key : TopicPartition) (r : Record) : Bool :=
  match config.isolationLevel, c.lastStableOffset key with
  | .readCommitted, .ok lastStable => r.offset < lastStable
  | .readCommitted, .error _ => true
  | .readUncommitted, _ => true

def consumed (key : TopicPartition) (r : Record) : ConsumedRecord :=
  ⟨key.topic, key.partitionId, r.offset, r.timestamp, r.key, r.value, none, none⟩

/-- What a read gives for the poll: an offset that is not found is passed over. -/
def readPartition (c : ConsumerPoll) (key : TopicPartition) : Except ConsumerError (List ConsumedRecord) :=
  match ((s.log key).view (c.reader key)).read (s.position key) config.maxPollRecords with
  | .ok result => .ok ((result.records.filter (visible config c key)).map (consumed key))
  | .error (.offsetNotFound _) => .ok []
  | .error e => if c.saysNotFound key then .ok [] else .error (.storageError e)

/-- The loop over the results of the reads. -/
def collect (c : ConsumerPoll) : List TopicPartition → Except ConsumerError (List ConsumedRecord)
  | [] => .ok []
  | key :: rest =>
    if c.timedOut key then .ok []
    else
      match s.readPartition config c key with
      | .error e => .error e
      | .ok records => (collect c rest).map fun more => records ++ more

/-- `all_records`, with their schemas. -/
def allRecords (c : ConsumerPoll) : Except ConsumerError (List ConsumedRecord) :=
  (s.collect config c s.keys).map fun records => if config.schemaRegistry then records.map (ConsumedRecord.resolve c.getSchema) else records

/-- The positions move behind the records. -/
def advance (records : List ConsumedRecord) : ConsumerState :=
  { s with readers := records.foldl (fun readers r =>
      Function.update readers r.at { readers r.at with currentOffset := r.offset + 1 }) s.readers }

/-- The records go to the caller. -/
def giveBack (records : List ConsumedRecord) : ConsumerState :=
  { s with history := { s.history with
      returned := fun key => s.history.returned key ++ records.filter fun r => r.at = key } }

/-! ## Commits -/

/-- The loop of `commit` over the partitions whose position has passed the mark. -/
def commitRows (c : CommitConditions) (groupId : String) : List TopicPartition → Metadata.Catalog → Metadata.Catalog × Except ConsumerError Unit
  | [], m => (m, .ok ())
  | key :: rest, m =>
    if (s.readers key).lastCommittedOffset < s.position key then
      match c.commitOffset key, m.commitOffset groupId key.topic key.partitionId (s.position key) none with
      | some e, _ => (m, .error (.metadataError e))
      | none, none => (m, .error (.metadataError .database))
      | none, some m' => commitRows c groupId rest m'
    else commitRows c groupId rest m

/-- The marks are set to the positions. -/
def marked (m : Metadata.Catalog) : ConsumerState :=
  { s with
    readers := fun key => { s.readers key with lastCommittedOffset := s.position key }
    store := m
    history := { s.history with commits := s.history.commits ++ [⟨m, s.position⟩] } }

def commit (c : CommitConditions) : ConsumerState × Except ConsumerError Unit :=
  match config.groupId with
  | none => (s, .error (.configError "commit requires group_id"))
  | some groupId =>
    match s.commitRows c groupId s.keys s.store with
    | (m, .error e) => ({ s with store := m }, .error e)
    | (m, .ok ()) => (s.marked m, .ok ())

/-- Whether a poll is to commit. -/
def CommitDue (now : Nat) : Prop := config.autoCommit = true ∧ config.autoCommitInterval ≤ now - s.lastCommit

instance CommitDue.decidable (now : Nat) : Decidable (s.CommitDue config now) :=
  inferInstanceAs (Decidable (config.autoCommit = true ∧ config.autoCommitInterval ≤ now - s.lastCommit))

/-- A commit that fails is the error of the poll. -/
def poll (c : ConsumerPoll) : ConsumerState × Except ConsumerError (List ConsumedRecord) :=
  match s.allRecords config c with
  | .error e => (s, .error e)
  | .ok records =>
    let s' := s.advance records
    if s'.CommitDue config c.now then
      match s'.commit config c.commit with
      | (s'', .error e) => (s'', .error e)
      | (s'', .ok ()) => ({ s'' with lastCommit := c.now }.giveBack records, .ok records)
    else (s'.giveBack records, .ok records)

/-- `seek`, of a partition that is subscribed. -/
def seek (key : TopicPartition) (offset : Nat) : ConsumerState × Except ConsumerError Unit :=
  if key ∈ s.keys then
    ({ s with
      readers := Function.update s.readers key { s.readers key with currentOffset := offset }
      history := { s.history with
        returned := Function.update s.history.returned key []
        soughtTo := Function.update s.history.soughtTo key offset } }, .ok ())
  else (s, .error (.invalidPartition key.partitionId key.topic 0))

end ConsumerState

/-! ## Runs -/

/-- Calls, and in between what writers, retention and compaction make of a partition, and what others make of
the metadata store. -/
inductive ConsumerStep where
  | poll (c : ConsumerPoll)
  | commit (c : CommitConditions)
  | seek (key : TopicPartition) (offset : Nat)
  | store (key : TopicPartition) (log : StoredLog)
  | metadata (m : Metadata.Catalog)

namespace ConsumerState

variable (config : ConsumerConfig) (s : ConsumerState)

/-- A log that does not follow the old one changes nothing. -/
def step : ConsumerStep → ConsumerState
  | .poll c => (s.poll config c).1
  | .commit c => (s.commit config c).1
  | .seek key offset => (s.seek key offset).1
  | .store key log =>
    if Follows log (s.log key) (s.next key) then
      { s with
        log := Function.update s.log key log
        next := Function.update s.next key (offsetAbove log.segments (s.next key))
        history := { s.history with stored := Function.update s.history.stored key (s.history.stored key ++ log.records) } }
    else s
  | .metadata m => { s with store := m }

end ConsumerState

end StreamHouse.Client
