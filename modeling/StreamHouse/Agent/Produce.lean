import StreamHouse.Metadata.Leases
import StreamHouse.Storage.PartitionWriter

/-!
# Agents producing to shared partitions

Any number of agents over one metadata store and one object store. A produce
request (`grpc_service.rs`) checks the lease, takes the partition's writer from the
agent's pool (`writer_pool.rs`), opening it if this is the first request, and
appends. A writer is opened once and kept. Everything another agent can come
between is a step of its own: the lease check and the append, the read of the high
watermark and the end of `PartitionWriter::new`, and in a roll the upload and the
registration, during which the writer's lock is held.

The append does not look at the lease or its epoch again.
-/

namespace StreamHouse.Agent
open Metadata Storage Lib

/-- A writer in a pool. `rolling` is the segment a roll has uploaded and not yet
registered; the writer's lock is held until then. -/
structure Slot where
  writer : PartitionWriter
  rolling : Option (RollEnv × List Record)

/-- `WriterPool`. `opening` is the one `get_writer` that has the pool's write lock,
with the metadata as it read them. -/
structure Pool where
  agentId : String
  config : WriteConfig
  writers : PartitionKey → Option Slot
  opening : Option (PartitionKey × SegmentStore)

/-- A produce request after its lease check. -/
structure ProduceRequest (n : Nat) where
  agent : Fin n
  key : PartitionKey
  records : List (Option Bytes × Bytes × Nat)

/-- `n` agents with what they share. `acked` are the offsets given to records that
were acknowledged, in order. -/
structure System (n : Nat) where
  shared : Shared
  leases : Cluster
  pools : Fin n → Pool
  requests : List (ProduceRequest n)
  acked : List (PartitionKey × Nat)

inductive Event (n : Nat) where
  | lease (e : LeaseEvent)
  /-- A request arrives and its lease is checked. -/
  | produce (a : Fin n) (k : PartitionKey) (records : List (Option Bytes × Bytes × Nat))
  /-- `get_writer` misses, takes the write lock and reads the partition's row. -/
  | openStart (a : Fin n) (k : PartitionKey)
  /-- The rest of `PartitionWriter::new`, with what WAL recovery found. -/
  | openFinish (a : Fin n) (otherAgentRecords : List WALRecord) (wal : Option Wal) (nowMs : Int)
  | append (i : Nat) (walOk : Bool) (walNow : Nat)
  /-- A flush takes the writer's lock, swaps the segment out and uploads it. -/
  | upload (a : Fin n) (k : PartitionKey) (env : RollEnv)
  /-- The flush goes on to register what it uploaded. -/
  | register (a : Fin n) (k : PartitionKey)

/-- `validate_lease`. -/
def validateLease (c : Cluster) (agentId : String) (k : PartitionKey) : Bool :=
  match c.store.getPartitionLease ⟨k.topic, k.partitionId⟩ c.now with
  | some l => l.leaderAgentId == agentId && !decide (l.leaseExpiresAt ≤ c.now)
  | none => false

namespace System

variable {n : Nat}

def slot (s : System n) (a : Fin n) (k : PartitionKey) : Option Slot := (s.pools a).writers k

def setPool (s : System n) (a : Fin n) (p : Pool) : System n := { s with pools := Function.update s.pools a p }

def setSlot (s : System n) (a : Fin n) (k : PartitionKey) (sl : Slot) : System n :=
  s.setPool a { s.pools a with writers := Function.update (s.pools a).writers k (some sl) }

/-- The `produce` handler after `get_writer`; `i` is the request. -/
def appendStep (s : System n) (i : Nat) (walOk : Bool) (walNow : Nat) : System n :=
  match s.requests[i]? with
  | none => s
  | some req =>
    match s.slot req.agent req.key with
    | some ⟨w, none⟩ =>
      let s := { s with requests := s.requests.eraseIdx i }
      match w.appendBatch walOk walNow req.records with
      | (.ok offsets, w) =>
        { s.setSlot req.agent req.key ⟨w, none⟩ with acked := s.acked ++ offsets.map fun o => (req.key, o) }
      | (.error _, w) => s.setSlot req.agent req.key ⟨w, none⟩
    -- no writer yet, or its lock is held by a roll
    | _ => s

def openFinishStep (s : System n) (a : Fin n) (otherAgentRecords : List WALRecord) (wal : Option Wal) (nowMs : Int) :
    System n :=
  match (s.pools a).opening with
  | none => s
  | some (k, m) =>
    let s := s.setPool a { s.pools a with opening := none }
    match PartitionWriter.new k (s.pools a).config (.ofOrg k.orgId) otherAgentRecords wal nowMs m with
    | .ok w => s.setSlot a k ⟨w, none⟩
    | .error _ => s

def uploadStep (s : System n) (a : Fin n) (k : PartitionKey) (env : RollEnv) : System n :=
  match s.slot a k with
  | some ⟨w, none⟩ =>
    if w.currentSegment = [] then s
    else
      match w.rollUpload env s.shared with
      | (.error _, w, shared) => { s.setSlot a k ⟨w, none⟩ with shared := shared }
      | (.ok segment, w, shared) => { s.setSlot a k ⟨w, some (env, segment)⟩ with shared := shared }
  | _ => s

def registerStep (s : System n) (a : Fin n) (k : PartitionKey) : System n :=
  match s.slot a k with
  | some ⟨w, some (env, segment)⟩ =>
    let (_, w, shared) := w.rollRegister env segment s.shared
    { s.setSlot a k ⟨w, none⟩ with shared := shared }
  | _ => s

def step (s : System n) : Event n → System n
  | .lease e => { s with leases := s.leases.step e }
  | .produce a k records =>
    if k.topic ≠ "" ∧ records ≠ [] ∧ validateLease s.leases (s.pools a).agentId k then
      { s with requests := s.requests ++ [⟨a, k, records⟩] }
    else s
  | .openStart a k =>
    if (s.pools a).opening.isNone ∧ (s.slot a k).isNone then
      s.setPool a { s.pools a with opening := some (k, s.shared.metadata) }
    else s
  | .openFinish a otherAgentRecords wal nowMs => s.openFinishStep a otherAgentRecords wal nowMs
  | .append i walOk walNow => s.appendStep i walOk walNow
  | .upload a k env => s.uploadStep a k env
  | .register a k => s.registerStep a k

/-- The offsets acknowledged on a partition. -/
def ackedOn (s : System n) (k : PartitionKey) : List Nat :=
  s.acked.filterMap fun x => if x.1 = k then some x.2 else none

/-- No offset of a partition was acknowledged twice, and its registered segments agree
on every offset they share. -/
structure Unique (s : System n) (k : PartitionKey) : Prop where
  acked : (s.ackedOn k).Nodup
  agree : ∀ seg ∈ s.shared.metadata.rows k, ∀ seg' ∈ s.shared.metadata.rows k,
    ∀ r ∈ (s.shared.objects seg.s3Key).getD [], ∀ r' ∈ (s.shared.objects seg'.s3Key).getD [], r.offset = r'.offset → r = r'

/-- Agents with empty pools on stores without segments. -/
structure Initial (s : System n) : Prop where
  segments : s.shared.metadata.segments = []
  writers : ∀ a k, s.slot a k = none
  opening : ∀ a, (s.pools a).opening = none
  acked : s.acked = []

/-- Nobody but `a` has unregistered records of the partition. -/
def OthersEmpty (s : System n) (a : Fin n) (k : PartitionKey) : Prop :=
  ∀ b, b ≠ a → ∀ sl ∈ s.slot b k, sl.writer.bufferedRecords = []

instance (s : System n) (a : Fin n) (k : PartitionKey) : Decidable (s.OthersEmpty a k) :=
  inferInstanceAs (Decidable (∀ b, b ≠ a → ∀ sl ∈ s.slot b k, sl.writer.bufferedRecords = []))

/-- The watermark is not beyond `o`. -/
def Reached (s : System n) (k : PartitionKey) (o : Nat) : Prop :=
  ∀ hw ∈ s.shared.metadata.highWatermark k, hw ≤ o

instance (s : System n) (k : PartitionKey) (o : Nat) : Decidable (s.Reached k o) :=
  inferInstanceAs (Decidable (∀ hw ∈ s.shared.metadata.highWatermark k, hw ≤ o))

/-- An append finds no unregistered records of the partition with another agent and
the writer's next offset at or above the stored watermark; so does an opening that
recovers records, at the watermark it has read. -/
def Sound (s : System n) : Event n → Prop
  | .append i _ _ => ∀ req ∈ s.requests[i]?, ∀ sl ∈ s.slot req.agent req.key,
      s.OthersEmpty req.agent req.key ∧ s.Reached req.key sl.writer.currentOffset
  | .openFinish a otherAgentRecords wal _ => ∀ o ∈ (s.pools a).opening,
      PartitionWriter.allRecovered otherAgentRecords wal = [] ∨
        s.OthersEmpty a o.1 ∧ ∀ hw ∈ o.2.highWatermark o.1, s.Reached o.1 hw
  | _ => True

instance (s : System n) (e : Event n) : Decidable (s.Sound e) := by
  cases e with
  | append i walOk walNow => exact inferInstanceAs (Decidable (∀ req ∈ s.requests[i]?, ∀ sl ∈ s.slot req.agent req.key, _))
  | openFinish a others wal nowMs => exact inferInstanceAs (Decidable (∀ o ∈ (s.pools a).opening, _))
  | _ => exact inferInstanceAs (Decidable True)

end System

end StreamHouse.Agent
