import StreamHouse.Agent.ProducerEpochs
import StreamHouse.Metadata.Tenants

/-!
# Transactions over the Kafka protocol

The handlers InitProducerId, AddPartitionsToTxn, AddOffsetsToTxn, EndTxn,
TxnOffsetCommit, OffsetCommit and OffsetFetch of the Kafka server and the tables they
work on. Each handler of a transaction looks for it by `begin_transaction_for_org`,
which makes a new one. The producer id and the epoch of a request are parsed and not
used, and TxnOffsetCommit is an OffsetCommit that carries a transactional id.
-/

namespace StreamHouse.Kafka
open Lib Metadata Agent

/-- `ErrorCode`, the codes of these handlers. -/
inductive TxnErrorCode where
  | none
  | invalidProducerIdMapping
  | invalidTxnState
  | unknownServerError
deriving DecidableEq

/-- A row of `transaction_markers`. -/
structure TransactionMarker where
  transactionId : TransactionId
  key : TopicPartition
  offset : Nat
  markerType : TransactionMarkerType

/-- The tables; `producerOf` is `transactions.producer_id`. -/
structure TxnTables where
  producers : ProducerStore
  transactions : TransactionStore
  consumerOffsets : ConsumerOffsets
  producerOf : TransactionId → Option String
  markers : List TransactionMarker

/-- `hash_producer_id`. -/
def hashProducerId (id : String) : BitVec 64 :=
  let hash : UInt64 := id.toUTF8.toList.foldl (fun hash byte => (hash ^^^ byte.toUInt64) * 1099511628211) 14695981039346656037
  (hash &&& 0x7FFFFFFFFFFFFFFF).toBitVec

/-- `simple_group_partition`. -/
def simpleGroupPartition (groupId : String) : Nat :=
  let hash : UInt32 := groupId.toUTF8.toList.foldl (fun hash byte => hash * 31 + byte.toUInt32) 0
  (hash % 50).toNat

/-- How the database fares with a request: its lookup of the producer, the statements on the
transaction, and then the writes for the single partitions, in order. -/
structure TxnEnv where
  looksUp : Bool
  begins : Bool
  lists : Bool
  ends : Bool
  writes : List Bool

/-- What the requests of a transaction say of their sender. Its names get into SQL. -/
structure TxnSender where
  orgId : String
  transactionalId : String
  producerId : BitVec 64
  producerEpoch : BitVec 16
  plain : QuoteFree orgId ∧ QuoteFree transactionalId

namespace TxnTables

def empty : TxnTables :=
  ⟨.empty, ⟨fun _ => none, fun _ => none⟩, fun _ => none, fun _ => none, []⟩

/-! ## The store -/

def setTransactions (s : TxnTables) (m : TransactionStore) : TxnTables := { s with transactions := m }

/-- `begin_transaction_for_org`. -/
def beginTransactionForOrg (s : TxnTables) (id : TransactionId) (orgId producerId : String) : Except TransactionError TxnTables :=
  match s.transactions.beginTransaction id (some orgId) with
  | .ok m => .ok { s.setTransactions m with producerOf := Function.update s.producerOf id (some producerId) }
  | .error e => .error e

/-- `commit_transaction_for_org` and `abort_transaction_for_org`, with the markers at the partitions' last offsets. -/
def endTransactionForOrg (s : TxnTables) (marker : TransactionMarkerType) (orgId : String) (id : TransactionId) :
    Except TransactionError TxnTables :=
  let partitions := s.transactions.getTransactionPartitions id
  match s.transactions.endTransaction marker (some orgId) id partitions with
  | .ok m => .ok { s.setTransactions m with markers := s.markers ++ partitions.map fun p => ⟨id, p.key, p.lastOffset, marker⟩ }
  | .error e => .error e

/-- `add_transaction_marker`. -/
def addTransactionMarker (s : TxnTables) (marker : TransactionMarker) : TxnTables := { s with markers := s.markers ++ [marker] }

end TxnTables

/-! ## The handlers -/

/-- `handle_init_producer_id`: the code, the producer id and the epoch. -/
def handleInitProducerId (env : InitEnv) (s : TxnTables) (orgId : String) (transactionalId : Option String) (freshId : String) :
    TxnTables × TxnErrorCode × BitVec 64 × BitVec 16 :=
  match initProducer env s.producers (some orgId) transactionalId freshId with
  | (.ok row, producers) => ({ s with producers }, .none, hashProducerId row.id, BitVec.ofNat 16 row.epoch)
  | (.error _, producers) => ({ s with producers }, .unknownServerError, -1, -1)

/-- How the handlers find their transaction; `freshId` is the UUID of a new one. -/
def findTransaction (env : TxnEnv) (s : TxnTables) (sender : TxnSender) (freshId : TransactionId) : Except TxnErrorCode TxnTables :=
  if env.looksUp = false then .error .unknownServerError
  else
    match s.producers.getProducerByTransactionalId sender.transactionalId (some sender.orgId) with
    | none => .error .invalidProducerIdMapping
    | some producer =>
      if env.begins = false then .error .invalidTxnState
      else (s.beginTransactionForOrg freshId sender.orgId producer.id).mapError fun _ => .invalidTxnState

/-- One partition of a request: a failure is its code. -/
def addPartition (orgId : String) (id : TransactionId) (s : TxnTables) (carriedOut : Bool) (key : TopicPartition) :
    TxnTables × TxnErrorCode :=
  if carriedOut then
    match s.transactions.addTransactionPartitionForOrg orgId id key 0 with
    | .ok m => (s.setTransactions m, .none)
    | .error _ => (s, .unknownServerError)
  else (s, .unknownServerError)

/-- The partitions of a request, one after the other. -/
def addPartitions (orgId : String) (id : TransactionId) : TxnTables → List Bool → List TopicPartition → TxnTables × List TxnErrorCode
  | s, _, [] => (s, [])
  | s, writes, key :: keys =>
    let (s, code) := addPartition orgId id s (writes.headD true) key
    let (s, codes) := addPartitions orgId id s writes.tail keys
    (s, code :: codes)

/-- The topics of a request as single partitions; an index is read as `u32`. -/
def requested (topics : List (String × List (BitVec 32))) : List TopicPartition :=
  topics.flatMap fun (topic, indexes) => indexes.map fun index => ⟨topic, index.toNat⟩

/-- `handle_add_partitions_to_txn`, with a code for each partition in turn. -/
def handleAddPartitionsToTxn (env : TxnEnv) (s : TxnTables) (sender : TxnSender) (topics : List (String × List (BitVec 32)))
    (freshId : TransactionId) : TxnTables × List TxnErrorCode :=
  match findTransaction env s sender freshId with
  | .ok s => addPartitions sender.orgId freshId s env.writes (requested topics)
  | .error code => (s, (requested topics).map fun _ => code)

/-- The partition of `__consumer_offsets` that stands for a group. -/
def offsetsPartition (groupId : String) : TopicPartition := ⟨"__consumer_offsets", simpleGroupPartition groupId⟩

/-- `handle_add_offsets_to_txn`. -/
def handleAddOffsetsToTxn (env : TxnEnv) (s : TxnTables) (sender : TxnSender) (groupId : String) (freshId : TransactionId) :
    TxnTables × TxnErrorCode :=
  match findTransaction env s sender freshId with
  | .ok s =>
    let (s, codes) := addPartitions sender.orgId freshId s env.writes [offsetsPartition groupId]
    (s, codes.headD .none)
  | .error code => (s, code)

/-- The markers that EndTxn writes itself and, for a commit, the last stable offsets it sets. Failures are logged. -/
def markPartitions (marker : TransactionMarkerType) (id : TransactionId) :
    TxnTables → List Bool → List TransactionPartition → TxnTables
  | s, _, [] => s
  | s, writes, p :: rest =>
    let marked := if writes.headD true then s.addTransactionMarker ⟨id, p.key, p.lastOffset + 1, marker⟩ else s
    match marker with
    | .abort => markPartitions marker id marked writes.tail rest
    | .commit =>
      let advanced := if writes.tail.headD true then
        marked.setTransactions (marked.transactions.updateLastStableOffset p.key (p.lastOffset + 1)) else marked
      markPartitions marker id advanced writes.tail.tail rest

/-- `handle_end_txn`. -/
def handleEndTxn (env : TxnEnv) (s : TxnTables) (sender : TxnSender) (marker : TransactionMarkerType) (freshId : TransactionId) :
    TxnTables × TxnErrorCode :=
  match findTransaction env s sender freshId with
  | .error code => (s, code)
  | .ok s =>
    if env.lists = false then (s, .unknownServerError)
    else
      let partitions := s.transactions.getTransactionPartitionsForOrg sender.orgId freshId
      if env.ends = false then (s, .unknownServerError)
      else
        match s.endTransactionForOrg marker sender.orgId freshId with
        | .error _ => (s, .unknownServerError)
        | .ok s => (markPartitions marker freshId s env.writes partitions, .none)

/-- An offset that a group commits for a partition. -/
structure CommittedOffset where
  key : OffsetKey
  offset : BitVec 64
  metadata : Option String

/-- `commit_offset`, and the like in TxnOffsetCommit. -/
def commitOffset (orgId : String) (s : TxnTables) (carriedOut : Bool) (c : CommittedOffset) : TxnTables × TxnErrorCode :=
  if carriedOut then ({ s with consumerOffsets := s.consumerOffsets.commitOffsetForOrg orgId c.key c.offset.toNat c.metadata }, .none)
  else (s, .unknownServerError)

/-- The offsets of a request, one after the other. -/
def commitOffsets (orgId : String) : TxnTables → List Bool → List CommittedOffset → TxnTables × List TxnErrorCode
  | s, _, [] => (s, [])
  | s, writes, c :: rest =>
    let (s, code) := commitOffset orgId s (writes.headD true) c
    let (s, codes) := commitOffsets orgId s writes.tail rest
    (s, code :: codes)

/-- The offsets of a request as it lists them. -/
def sentOffsets (groupId : String) (topics : List (String × List (BitVec 32 × BitVec 64 × Option String))) : List CommittedOffset :=
  topics.flatMap fun (topic, partitions) =>
    partitions.map fun (index, offset, metadata) => ⟨⟨groupId, topic, index.toNat⟩, offset, metadata⟩

/-- `handle_offset_commit`. -/
def handleOffsetCommit (writes : List Bool) (s : TxnTables) (orgId groupId : String)
    (topics : List (String × List (BitVec 32 × BitVec 64 × Option String))) : TxnTables × List TxnErrorCode :=
  commitOffsets orgId s writes (sentOffsets groupId topics)

/-- `handle_txn_offset_commit`: the sender's transaction is not looked for. -/
def handleTxnOffsetCommit (writes : List Bool) (s : TxnTables) (sender : TxnSender) (groupId : String)
    (topics : List (String × List (BitVec 32 × BitVec 64 × Option String))) : TxnTables × List TxnErrorCode :=
  commitOffsets sender.orgId s writes (sentOffsets groupId topics)

/-- `fetch_offset`. -/
def fetchOffset (reads : Bool) (s : TxnTables) (orgId : String) (key : OffsetKey) : BitVec 64 × TxnErrorCode :=
  if reads then
    match s.consumerOffsets.getCommittedOffsetForOrg orgId key with
    | some offset => (BitVec.ofNat 64 offset, .none)
    | none => (-1, .none)
  else (-1, .unknownServerError)

end StreamHouse.Kafka
