import StreamHouse.Core.Record
import StreamHouse.Lib.Run
import StreamHouse.Metadata.Transactions

/-!
# Idempotent produce

The two ways an idempotent producer's batch gets into a partition: `produce` of the
agent (`grpc_service.rs`), and `process_records` of the Kafka server, which checks the
batch itself and forwards it to an agent through the `AgentRouter` as one of no
producer. Both first move the stored sequence number past the batch and then write it.
What the database, the lease, the writer and the network do is the environment's choice
with each request; `append_batch` takes all records of a batch or none. A batch is in the
current segment of its agent until a roll has stored that; a roll that fails has swapped
the segment out before, and loses it. A producer numbers its batches one after the other,
and sends each as often as it likes.
-/

namespace StreamHouse.Agent
open Lib Metadata List

/-- An id that goes into the statements as it is. -/
abbrev ProducerId : Type := { id : String // QuoteFree id }

/-- The primary key of `producer_sequences`, for a topic that has a name. -/
structure SequenceKey where
  producerId : ProducerId
  partition : TopicPartition
  named : partition.topic ≠ ""
  plain : QuoteFree partition.topic
deriving DecidableEq

inductive ProducerState where
  | active
  | fenced
  | expired
deriving DecidableEq

structure Producer where
  epoch : Nat
  state : ProducerState

abbrev BatchRecords := List (Option Bytes × Bytes × Nat)

/-! ## `check_and_update_sequence` -/

/-- How the database fares. `stores` is whether a commit that was reported as failed has taken effect. -/
structure SequenceEnv where
  begins : Bool
  reads : Bool
  updates : Bool
  commits : Bool
  stores : Bool
deriving DecidableEq

inductive SequenceError where
  | database
  | gap (expected got : Int)
deriving DecidableEq

/-- The sequence the check goes by: a failed read is taken for no row. -/
def lastSequence (env : SequenceEnv) (stored : Option Int) : Int := if env.reads then stored.getD (-1) else -1

def checkAndUpdateSequence (env : SequenceEnv) (stored : Option Int) (baseSequence : Int) (recordCount : Nat) :
    Except SequenceError Bool × Option Int :=
  if env.begins = false then (.error .database, stored)
  else if baseSequence ≤ lastSequence env stored then (.ok false, stored)
  else if baseSequence > lastSequence env stored + 1 then (.error (.gap (lastSequence env stored + 1) baseSequence), stored)
  else
    let newSequence := baseSequence + recordCount - 1
    if env.updates = false then (.error .database, stored)
    else if env.commits then (.ok true, some newSequence)
    else (.error .database, if env.stores then some newSequence else stored)

/-! ## The agent -/

inductive ProduceError where
  | shuttingDown
  | topicRequired
  | recordsRequired
  | leaseNotHeld
  | leaseCheck
  | unknownProducer
  | producerLookup
  | producerFenced
  | producerExpired
  | epochMismatch (expected got : Nat)
  | sequence (e : SequenceError)
  | writer
  | append
  | durableFlush
  | transport
  | leaseMoved
deriving DecidableEq

inductive Answer where
  | success
  | duplicate
  | refused (e : ProduceError)
deriving DecidableEq

/-- `validate_lease`: `NOT_FOUND` and `FAILED_PRECONDITION` are `notHeld`. -/
inductive LeaseCheck where
  | held
  | notHeld
  | failed
deriving DecidableEq

/-- What comes of a durable flush: its roll succeeds, fails after the segment is registered (the WAL is not
truncated), or fails before; or no flush task takes it. -/
inductive DurableFlush where
  | done
  | late
  | lost
  | unreached
deriving DecidableEq

/-- How an agent fares with a produce call. -/
structure AgentEnv where
  agentId : String
  shuttingDown : Bool
  lease : LeaseCheck
  writerOpens : Bool
  appends : Bool
  flush : DurableFlush
deriving DecidableEq

open AgentEnv

/-- What becomes of a batch, and with it of the current segment of the agent that takes it. -/
inductive WriteEffect where
  | nothing
  | buffered (agentId : String)
  | stored (agentId : String)
  | dropped (agentId : String)
deriving DecidableEq

/-- What a request leaves: the answer, the stored sequence, and what the log undergoes. -/
structure Produced where
  answer : Answer
  stored : Option Int
  effect : WriteEffect

/-- The checks of `produce` before the producer's. -/
def agentChecks (env : AgentEnv) (topic : String) (records : BatchRecords) : Option ProduceError :=
  if env.shuttingDown then some .shuttingDown
  else if topic = "" then some .topicRequired
  else if records = [] then some .recordsRequired
  else
    match env.lease with
    | .held => none
    | .notHeld => some .leaseNotHeld
    | .failed => some .leaseCheck

/-- `produce` from `get_writer` on; `durable` is `ack_mode == 1`. -/
def agentWrite (env : AgentEnv) (durable : Bool) : Answer × WriteEffect :=
  if env.writerOpens = false then (.refused .writer, .nothing)
  else if env.appends = false then (.refused .append, .nothing)
  else if durable = true then
    match env.flush with
    | .done => (.success, .stored env.agentId)
    | .late => (.refused .durableFlush, .stored env.agentId)
    | .lost => (.refused .durableFlush, .dropped env.agentId)
    | .unreached => (.refused .durableFlush, .buffered env.agentId)
  else (.success, .buffered env.agentId)

/-- `produce`. `validation` is `validate_idempotent` for a request with a producer, and `Ok(true)` for one without. -/
def produce (env : AgentEnv) (durable : Bool) (topic : String) (records : BatchRecords)
    (validation : Option Int → Except ProduceError Bool × Option Int) (stored : Option Int) : Produced :=
  match agentChecks env topic records with
  | some e => ⟨.refused e, stored, .nothing⟩
  | none =>
    match validation stored with
    | (.error e, stored) => ⟨.refused e, stored, .nothing⟩
    | (.ok false, stored) => ⟨.duplicate, stored, .nothing⟩
    | (.ok true, stored) => ⟨(agentWrite env durable).1, stored, (agentWrite env durable).2⟩

/-- `validate_idempotent`; `producer` is what `get_producer` returns. -/
def validateIdempotent (producer : Except Unit (Option Producer)) (producerEpoch : Nat) (env : SequenceEnv) (baseSequence : Int)
    (recordCount : Nat) (stored : Option Int) : Except ProduceError Bool × Option Int :=
  match producer with
  | .error _ => (.error .producerLookup, stored)
  | .ok none => (.error .unknownProducer, stored)
  | .ok (some p) =>
    if p.state = .fenced then (.error .producerFenced, stored)
    else if p.state = .expired then (.error .producerExpired, stored)
    else if p.epoch ≠ producerEpoch then (.error (.epochMismatch p.epoch producerEpoch), stored)
    else
      let (checked, stored) := checkAndUpdateSequence env stored baseSequence recordCount
      (checked.mapError .sequence, stored)

/-! ## The Kafka server -/

/-- One attempt of the router: the lease is looked up, the agent called, its answer received. -/
inductive Attempt where
  | noLease
  | unreachable
  | lostAnswer (agent : AgentEnv)
  | answered (agent : AgentEnv)

open Attempt

/-- `AgentRouter::produce` with no producer and `ACK_BUFFERED`: another attempt only where the lease has moved. -/
def routerProduce (topic : String) (records : BatchRecords) : List Attempt → Answer × WriteEffect
  | [] => (.refused .leaseMoved, .nothing)
  | .noLease :: rest => routerProduce topic records rest
  | .unreachable :: _ => (.refused .transport, .nothing)
  | .lostAnswer agent :: _ => (.refused .transport, (produce agent false topic records (fun s => (.ok true, s)) none).effect)
  | .answered agent :: rest =>
    match (produce agent false topic records (fun s => (.ok true, s)) none).answer with
    | .refused .leaseNotHeld => routerProduce topic records rest
    | answer => (answer, (produce agent false topic records (fun s => (.ok true, s)) none).effect)

/-- `MAX_RETRIES + 1`. -/
def maxAttempts : Nat := 4

/-- `process_records` for a batch with a producer; `producer` is what `get_producer_by_numeric_id`
returns. The state of the producer is not looked at. -/
def processRecords (producer : Except Unit (Option Producer)) (producerEpoch : Nat) (env : SequenceEnv) (attempts : List Attempt)
    (topic : String) (records : BatchRecords) (baseSequence : Int) (stored : Option Int) : Produced :=
  match producer with
  | .error _ => ⟨.refused .producerLookup, stored, .nothing⟩
  | .ok none => ⟨.refused .unknownProducer, stored, .nothing⟩
  | .ok (some p) =>
    if p.epoch ≠ producerEpoch then ⟨.refused (.epochMismatch p.epoch producerEpoch), stored, .nothing⟩
    else
      match checkAndUpdateSequence env stored baseSequence records.length with
      | (.error e, stored) => ⟨.refused (.sequence e), stored, .nothing⟩
      | (.ok false, stored) => ⟨.duplicate, stored, .nothing⟩
      | (.ok true, stored) =>
        let (answer, effect) := routerProduce topic records (attempts.take maxAttempts)
        ⟨answer, stored, effect⟩

/-! ## Producers and their requests -/

/-- The batches of a producer for a partition, in order. None is empty. -/
structure BatchStream where
  batch : Nat → BatchRecords
  nonempty : ∀ i, batch i ≠ []

open BatchStream

/-- The sequence number a batch begins with. -/
def BatchStream.base (b : BatchStream) : Nat → Nat
  | 0 => 0
  | i + 1 => b.base i + (b.batch i).length

inductive ProducePath where
  | grpc (agent : AgentEnv) (durable : Bool)
  | kafka (attempts : List Attempt)

/-- A request for the batch `index`, with what it meets on its way. `rolled` are the agents whose background flush has stored
their segment since the request before. -/
structure IdempotentRequest where
  key : SequenceKey
  index : Nat
  rolled : List String
  epoch : Nat
  producer : Except Unit (Option Producer)
  sequence : SequenceEnv
  path : ProducePath

/-- What the request leaves. A batch whose number is no `i32` cannot be sent to the Kafka server. -/
def IdempotentRequest.produced (r : IdempotentRequest) (b : BatchStream) (stored : Option Int) : Option Produced :=
  match r.path with
  | .grpc agent durable =>
    some (produce agent durable r.key.partition.topic (b.batch r.index)
      (validateIdempotent r.producer r.epoch r.sequence (b.base r.index) (b.batch r.index).length) stored)
  | .kafka attempts =>
    if b.base r.index < 2 ^ 31 then
      some (processRecords r.producer r.epoch r.sequence attempts r.key.partition.topic (b.batch r.index) (b.base r.index) stored)
    else none

/-- A batch in a log, under its producer and its number. `heldBy` is the agent in whose current segment it still is. -/
structure LoggedBatch where
  batch : ProducerId × Nat
  heldBy : Option String

/-- The segments of the agents are stored. -/
def storeHeld (agents : List String) (log : List LoggedBatch) : List LoggedBatch :=
  log.map fun e => if ∃ agent ∈ agents, e.heldBy = some agent then { e with heldBy := none } else e

def WriteEffect.apply (batch : ProducerId × Nat) (log : List LoggedBatch) : WriteEffect → List LoggedBatch
  | .nothing => log
  | .buffered agentId => log ++ [⟨batch, some agentId⟩]
  | .stored agentId => storeHeld [agentId] (log ++ [⟨batch, some agentId⟩])
  | .dropped agentId => log.filter fun e => e.heldBy ≠ some agentId

/-- The stored sequences and the partitions' logs; `answered` are the batches that were answered with success or as a duplicate. -/
structure IdempotentSystem where
  sequences : SequenceKey → Option Int
  log : TopicPartition → List LoggedBatch
  answered : List (SequenceKey × Nat)

namespace IdempotentSystem

def start : IdempotentSystem := ⟨fun _ => none, fun _ => [], []⟩

def step (streams : SequenceKey → BatchStream) (s : IdempotentSystem) (r : IdempotentRequest) : IdempotentSystem :=
  match r.produced (streams r.key) (s.sequences r.key) with
  | none => s
  | some produced =>
    { sequences := Function.update s.sequences r.key produced.stored
      log := Function.update s.log r.key.partition
        (produced.effect.apply (r.key.producerId, r.index) (storeHeld r.rolled (s.log r.key.partition)))
      answered := match produced.answer with
        | .refused _ => s.answered
        | _ => s.answered ++ [(r.key, r.index)] }

/-- How often the batch is in the log of its partition. -/
def copies (s : IdempotentSystem) (k : SequenceKey) (index : Nat) : Nat :=
  ((s.log k.partition).map LoggedBatch.batch).count (k.producerId, index)

/-- The batches in the segment of an agent when the request comes. -/
def segment (s : IdempotentSystem) (r : IdempotentRequest) (agentId : String) : List (ProducerId × Nat) :=
  ((storeHeld r.rolled (s.log r.key.partition)).filter fun e => e.heldBy = some agentId).map LoggedBatch.batch

end IdempotentSystem

/-- Every batch that was answered with success or as a duplicate is in the log once. -/
def ExactlyOnce (s : IdempotentSystem) : Prop := ∀ a ∈ s.answered, s.copies a.1 a.2 = 1

/-! ## What a request can do -/

/-- The writer is there and its log can be written. -/
def AgentEnv.writes (env : AgentEnv) : Bool := env.writerOpens && env.appends

/-- The batch is in the log afterwards. -/
def AgentEnv.keeps (env : AgentEnv) (durable : Bool) : Bool := env.writes && !(durable && decide (env.flush = .lost))

/-- The agent is up, has the lease, and writes. -/
def AgentEnv.takes (env : AgentEnv) : Bool := !env.shuttingDown && decide (env.lease = .held) && env.writes

/-- The attempt finds the lease elsewhere. -/
def Attempt.moved : Attempt → Bool
  | .noLease => true
  | .answered agent => !agent.shuttingDown && decide (agent.lease = .notHeld)
  | _ => false

/-- The first attempt that does not find the lease elsewhere gets to an agent that takes the batch. -/
def delivered (attempts : List Attempt) : Bool :=
  match attempts.dropWhile moved with
  | .lostAnswer agent :: _ => agent.takes
  | .answered agent :: _ => agent.takes
  | _ => false

namespace IdempotentRequest

/-- The request gets to the check of its sequence number. -/
def Reaches (r : IdempotentRequest) (b : BatchStream) : Prop :=
  match r.path with
  | .grpc agent _ =>
    agentChecks agent r.key.partition.topic (b.batch r.index) = none ∧
      ∃ p, r.producer = .ok (some p) ∧ p.state = .active ∧ p.epoch = r.epoch
  | .kafka _ => b.base r.index < 2 ^ 31 ∧ ∃ p, r.producer = .ok (some p) ∧ p.epoch = r.epoch

/-- The sequence of the last record of the batch. -/
abbrev last (r : IdempotentRequest) (b : BatchStream) : Int := b.base r.index + (b.batch r.index).length - 1

/-- An accepted request leaves the sequence past its batch. -/
def stores (r : IdempotentRequest) : Bool := r.sequence.commits || r.sequence.stores

/-- An accepted request leaves its batch in the log. -/
def logs (r : IdempotentRequest) : Bool :=
  r.sequence.commits &&
    match r.path with
    | .grpc agent durable => agent.keeps durable
    | .kafka attempts => delivered (attempts.take maxAttempts)

/-- The agent whose segment an accepted request loses. -/
def drops (r : IdempotentRequest) : Option String :=
  match r.path with
  | .grpc agent durable =>
    if r.sequence.commits = true ∧ agent.writes = true ∧ durable = true ∧ agent.flush = .lost then some agent.agentId else none
  | .kafka _ => none

/-- What comes of the write, once it is made. -/
def write (r : IdempotentRequest) (b : BatchStream) : Answer × WriteEffect :=
  match r.path with
  | .grpc agent durable => agentWrite agent durable
  | .kafka attempts => routerProduce r.key.partition.topic (b.batch r.index) (attempts.take maxAttempts)

end IdempotentRequest

open IdempotentRequest

/-- The check finds the batch to be the next one, and the update goes through. -/
structure Accepted (r : IdempotentRequest) (b : BatchStream) (stored : Option Int) : Prop where
  reaches : r.Reaches b
  begins : r.sequence.begins = true
  next : (b.base r.index : Int) = lastSequence r.sequence stored + 1
  updates : r.sequence.updates = true

/-- A lost segment takes the producer back to where it was: all its batches after that of the request are in the segment, no others
are, and none of them was answered. -/
structure TakesBack (r : IdempotentRequest) (b : BatchStream) (s : IdempotentSystem) (agentId : String) : Prop where
  later : ∀ i, r.index < i → (b.base i : Int) ≤ (s.sequences r.key).getD (-1) → (r.key.producerId, i) ∈ s.segment r agentId
  alone : ∀ x ∈ s.segment r agentId, x.1 = r.key.producerId ∧ r.index < x.2 ∧ (r.key, x.2) ∉ s.answered

/-- An accepted batch that really is the next one is written if its sequence is stored. One that is taken for the next because the
read failed is not, and stores what is stored, or loses a segment with the batches whose sequences it takes back. -/
def IdempotentRequest.Safe (r : IdempotentRequest) (b : BatchStream) (s : IdempotentSystem) : Prop :=
  Accepted r b (s.sequences r.key) →
    ((s.sequences r.key).getD (-1) + 1 = b.base r.index → r.stores = true → r.logs = true) ∧
    ((s.sequences r.key).getD (-1) + 1 ≠ b.base r.index → r.logs = false ∧
      match r.drops with
      | none => r.stores = true → (s.sequences r.key).getD (-1) = r.last b
      | some agentId => TakesBack r b s agentId)

/-- Whether the batch is in the log afterwards. -/
def WriteEffect.logs : WriteEffect → Bool
  | .buffered _ | .stored _ => true
  | .nothing | .dropped _ => false

def WriteEffect.drops : WriteEffect → Option String
  | .dropped agentId => some agentId
  | _ => none

/-- The ways a request can go. -/
inductive Course (r : IdempotentRequest) (b : BatchStream) (stored : Option Int) : Prop where
  | unsent (stays : ¬ Accepted r b stored) (result : r.produced b stored = none)
  | refused (stays : ¬ Accepted r b stored) (e : ProduceError) (result : r.produced b stored = some ⟨.refused e, stored, .nothing⟩)
  | duplicate (seen : (b.base r.index : Int) ≤ lastSequence r.sequence stored)
      (result : r.produced b stored = some ⟨.duplicate, stored, .nothing⟩)
  | accepted (taken : Accepted r b stored) (answer : Answer) (effect : WriteEffect) (answers : answer ≠ .duplicate)
      (done : answer = .success → r.logs = true) (logs : effect.logs = r.logs) (drops : effect.drops = r.drops)
      (result : r.produced b stored =
        some ⟨answer, if r.stores then some (r.last b) else stored, effect⟩)

variable {r : IdempotentRequest}

theorem agentWrite_answer (env : AgentEnv) (durable : Bool) :
    (agentWrite env durable).1 ≠ .duplicate ∧ ((agentWrite env durable).1 = .success → (agentWrite env durable).2.logs = true) := by
  unfold agentWrite
  split_ifs
  · exact ⟨(fun no => nomatch no), (fun no => nomatch no)⟩
  · exact ⟨(fun no => nomatch no), (fun no => nomatch no)⟩
  · split
    · exact ⟨(fun no => nomatch no), fun _ => rfl⟩
    · exact ⟨(fun no => nomatch no), (fun no => nomatch no)⟩
    · exact ⟨(fun no => nomatch no), (fun no => nomatch no)⟩
    · exact ⟨(fun no => nomatch no), (fun no => nomatch no)⟩
  · exact ⟨(fun no => nomatch no), fun _ => rfl⟩

theorem agentWrite_logs (env : AgentEnv) (durable : Bool) : (agentWrite env durable).2.logs = env.keeps durable := by
  obtain ⟨agentId, down, lease, opens, appends, flush⟩ := env
  cases opens <;> cases appends <;> cases durable <;> cases flush <;> rfl

theorem agentWrite_drops (env : AgentEnv) (durable : Bool) : (agentWrite env durable).2.drops =
    if env.writes = true ∧ durable = true ∧ env.flush = .lost then some env.agentId else none := by
  obtain ⟨agentId, down, lease, opens, appends, flush⟩ := env
  cases opens <;> cases appends <;> cases durable <;> cases flush <;> rfl

section router
variable {topic : String} {records : BatchRecords}

/-- A produce call of no producer is answered with success only where it is in the log, and never as a duplicate. -/
theorem produce_answer (env : AgentEnv) (durable : Bool) :
    (produce env durable topic records (fun s => (.ok true, s)) none).answer ≠ .duplicate ∧
      ((produce env durable topic records (fun s => (.ok true, s)) none).answer = .success →
        (produce env durable topic records (fun s => (.ok true, s)) none).effect.logs = true) := by
  unfold produce
  cases agentChecks env topic records with
  | some e => exact ⟨(fun no => nomatch no), (fun no => nomatch no)⟩
  | none => exact agentWrite_answer env durable

theorem produce_logs (named : topic ≠ "") (nonempty : records ≠ []) (env : AgentEnv) :
    (produce env false topic records (fun s => (.ok true, s)) none).effect.logs = env.takes := by
  obtain ⟨agentId, down, lease, opens, appends, flush⟩ := env
  cases down with
  | true => rfl
  | false =>
    cases lease with
    | held => simp [produce, agentChecks, named, nonempty, takes, agentWrite_logs, keeps]
    | notHeld => simp [produce, agentChecks, named, nonempty, takes, WriteEffect.logs]
    | failed => simp [produce, agentChecks, named, nonempty, takes, WriteEffect.logs]

/-- `ACK_BUFFERED` flushes nothing. -/
theorem produce_drops (env : AgentEnv) : (produce env false topic records (fun s => (.ok true, s)) none).effect.drops = none := by
  unfold produce
  cases agentChecks env topic records with
  | some e => rfl
  | none => exact (agentWrite_drops env false).trans (if_neg fun all => Bool.false_ne_true all.2.1)

theorem produce_moved (named : topic ≠ "") (nonempty : records ≠ []) (env : AgentEnv) (durable : Bool) :
    (produce env durable topic records (fun s => (.ok true, s)) none).answer = .refused .leaseNotHeld ↔
      (answered env).moved = true := by
  obtain ⟨agentId, down, lease, opens, appends, flush⟩ := env
  cases down with
  | true => simp [produce, agentChecks, moved]
  | false =>
    cases lease with
    | held =>
      simp only [produce, agentChecks, named, nonempty, moved, agentWrite]
      split_ifs <;> cases flush <;> simp
    | notHeld => simp [produce, agentChecks, named, nonempty, moved]
    | failed => simp [produce, agentChecks, named, nonempty, moved]

theorem routerProduce_answer (attempts : List Attempt) :
    (routerProduce topic records attempts).1 ≠ .duplicate ∧
      ((routerProduce topic records attempts).1 = .success → (routerProduce topic records attempts).2.logs = true) := by
  induction attempts with
  | nil => exact ⟨(fun no => nomatch no), (fun no => nomatch no)⟩
  | cons attempt rest ih =>
    cases attempt with
    | noLease => exact ih
    | unreachable => exact ⟨(fun no => nomatch no), (fun no => nomatch no)⟩
    | lostAnswer agent => exact ⟨(fun no => nomatch no), (fun no => nomatch no)⟩
    | answered agent =>
      have called := @produce_answer topic records agent false
      unfold routerProduce
      split
      · exact ih
      · exact called

theorem routerProduce_logs (named : topic ≠ "") (nonempty : records ≠ []) (attempts : List Attempt) :
    (routerProduce topic records attempts).2.logs = delivered attempts := by
  induction attempts with
  | nil => rfl
  | cons attempt rest ih =>
    cases attempt with
    | noLease => exact ih
    | unreachable => rfl
    | lostAnswer agent => exact produce_logs named nonempty agent
    | answered agent =>
      have turned := produce_moved named nonempty agent false
      unfold routerProduce
      split
      case h_1 refused =>
        rw [ih, delivered, delivered, dropWhile_cons_of_pos (turned.1 refused)]
      case h_2 other =>
        have stays : ¬ (answered agent).moved = true := fun moved => other (turned.2 moved)
        rw [delivered, dropWhile_cons_of_neg stays]
        exact produce_logs named nonempty agent

theorem routerProduce_drops (attempts : List Attempt) : (routerProduce topic records attempts).2.drops = none := by
  induction attempts with
  | nil => rfl
  | cons attempt rest ih =>
    cases attempt with
    | noLease => exact ih
    | unreachable => rfl
    | lostAnswer agent => exact produce_drops agent
    | answered agent =>
      unfold routerProduce
      split
      · exact ih
      · exact produce_drops agent

end router

theorem write_answer (r : IdempotentRequest) (b : BatchStream) :
    (r.write b).1 ≠ .duplicate ∧ ((r.write b).1 = .success → (r.write b).2.logs = true) := by
  unfold write
  cases r.path with
  | grpc agent durable => exact agentWrite_answer agent durable
  | kafka attempts => exact routerProduce_answer _

theorem logs_eq (r : IdempotentRequest) (b : BatchStream) : r.logs = (r.sequence.commits && (r.write b).2.logs) := by
  unfold logs write
  cases r.path with
  | grpc agent durable => simp only [agentWrite_logs]
  | kafka attempts => simp only [routerProduce_logs r.key.named (b.nonempty r.index)]

theorem drops_eq (r : IdempotentRequest) (b : BatchStream) : r.drops = if r.sequence.commits then (r.write b).2.drops else none := by
  unfold drops write
  cases r.path with
  | grpc agent durable => cases r.sequence.commits <;> simp [agentWrite_drops]
  | kafka attempts => simp [routerProduce_drops]

/-- The three outcomes of the check. -/
theorem check_cases (env : SequenceEnv) (stored : Option Int) (base : Int) (count : Nat) :
    (¬ (env.begins = true ∧ base = lastSequence env stored + 1 ∧ env.updates = true) ∧
      ∃ e, checkAndUpdateSequence env stored base count = (.error e, stored)) ∨
    (base ≤ lastSequence env stored ∧ checkAndUpdateSequence env stored base count = (.ok false, stored)) ∨
    (env.begins = true ∧ base = lastSequence env stored + 1 ∧ env.updates = true ∧
      checkAndUpdateSequence env stored base count =
        if env.commits then (.ok true, some (base + count - 1))
        else (.error .database, if env.stores then some (base + count - 1) else stored)) := by
  unfold checkAndUpdateSequence
  by_cases begins : env.begins = false
  · exact .inl ⟨fun all => by simp [begins] at all, .database, by rw [if_pos begins]⟩
  rw [if_neg begins]
  by_cases seen : base ≤ lastSequence env stored
  · exact .inr (.inl ⟨seen, by rw [if_pos seen]⟩)
  rw [if_neg seen]
  by_cases ahead : base > lastSequence env stored + 1
  · exact .inl ⟨by omega, _, by rw [if_pos ahead]⟩
  rw [if_neg ahead]
  by_cases updates : env.updates = false
  · exact .inl ⟨fun all => by simp [updates] at all, .database, by simp only [if_pos updates]⟩
  exact .inr (.inr ⟨by simpa using begins, by omega, by simpa using updates, by simp only [if_neg updates]⟩)

/-- Past the lookup of its producer, a request of either path goes by the check and then by its write. -/
theorem course_of_check {b : BatchStream} {stored : Option Int} (reaches : r.Reaches b)
    (failed : ∀ e stored', checkAndUpdateSequence r.sequence stored (b.base r.index) (b.batch r.index).length = (.error e, stored') →
      r.produced b stored = some ⟨.refused (.sequence e), stored', .nothing⟩)
    (seen : ∀ stored', checkAndUpdateSequence r.sequence stored (b.base r.index) (b.batch r.index).length = (.ok false, stored') →
      r.produced b stored = some ⟨.duplicate, stored', .nothing⟩)
    (taken : ∀ stored', checkAndUpdateSequence r.sequence stored (b.base r.index) (b.batch r.index).length = (.ok true, stored') →
      r.produced b stored = some ⟨(r.write b).1, stored', (r.write b).2⟩) : Course r b stored := by
  obtain ⟨stays, e, equal⟩ | ⟨old, equal⟩ | ⟨begins, next, updates, equal⟩ :=
    check_cases r.sequence stored (b.base r.index) (b.batch r.index).length
  · exact .refused (fun taken => stays ⟨taken.begins, taken.next, taken.updates⟩) _ (failed e stored equal)
  · exact .duplicate old (seen stored equal)
  · have accepted : Accepted r b stored := ⟨reaches, begins, next, updates⟩
    cases commits : r.sequence.commits with
    | true =>
      rw [if_pos commits] at equal
      have logs : r.logs = (r.write b).2.logs := by simp [logs_eq r b, commits]
      have stores : r.stores = true := by simp [stores, commits]
      refine .accepted accepted (r.write b).1 (r.write b).2 (write_answer r b).1 (fun success => ?_) logs.symm ?_ ?_
      · rw [logs]
        exact (write_answer r b).2 success
      · rw [drops_eq r b, if_pos commits]
      · rw [taken _ equal, if_pos stores]
    | false =>
      rw [if_neg (by simp [commits])] at equal
      have logs : r.logs = false := by simp [logs_eq r b, commits]
      have stores : r.stores = r.sequence.stores := by simp [stores, commits]
      refine .accepted accepted (.refused (.sequence .database)) .nothing (fun no => nomatch no) (fun no => nomatch no) logs.symm ?_ ?_
      · rw [drops_eq r b, if_neg (by simp [commits])]
        rfl
      · rw [failed _ _ equal, stores]

/-- `validate_idempotent` goes by the check, for an active producer of the same epoch. -/
theorem validateIdempotent_cases (producer : Except Unit (Option Producer)) (epoch : Nat) (env : SequenceEnv) (base : Int) (count : Nat)
    (stored : Option Int) :
    (¬ (∃ p, producer = .ok (some p) ∧ p.state = .active ∧ p.epoch = epoch) ∧
      ∃ e, validateIdempotent producer epoch env base count stored = (.error e, stored)) ∨
    ((∃ p, producer = .ok (some p) ∧ p.state = .active ∧ p.epoch = epoch) ∧
      validateIdempotent producer epoch env base count stored =
        ((checkAndUpdateSequence env stored base count).1.mapError .sequence, (checkAndUpdateSequence env stored base count).2)) := by
  obtain _ | (_ | ⟨current, state⟩) := producer
  · exact .inl ⟨by rintro ⟨p, ⟨⟩, -⟩, _, rfl⟩
  · exact .inl ⟨by rintro ⟨p, ⟨⟩, -⟩, _, rfl⟩
  cases state with
  | fenced => exact .inl ⟨by rintro ⟨p, ⟨⟩, ⟨⟩, -⟩, _, rfl⟩
  | expired => exact .inl ⟨by rintro ⟨p, ⟨⟩, ⟨⟩, -⟩, _, rfl⟩
  | active =>
    by_cases same : current = epoch
    · exact .inr ⟨⟨_, rfl, rfl, same⟩, by simp [validateIdempotent, same]⟩
    · refine .inl ⟨?_, .epochMismatch current epoch, by simp [validateIdempotent, same]⟩
      rintro ⟨p, ⟨⟩, -, equal⟩
      exact same equal

/-- `process_records` goes by the check and then by the router, for a producer of the same epoch. -/
theorem processRecords_cases (producer : Except Unit (Option Producer)) (epoch : Nat) (env : SequenceEnv) (attempts : List Attempt)
    (topic : String) (records : BatchRecords) (base : Int) (stored : Option Int) :
    (¬ (∃ p, producer = .ok (some p) ∧ p.epoch = epoch) ∧
      ∃ e, processRecords producer epoch env attempts topic records base stored = ⟨.refused e, stored, .nothing⟩) ∨
    ((∃ p, producer = .ok (some p) ∧ p.epoch = epoch) ∧
      processRecords producer epoch env attempts topic records base stored =
        match checkAndUpdateSequence env stored base records.length with
        | (.error e, stored) => ⟨.refused (.sequence e), stored, .nothing⟩
        | (.ok false, stored) => ⟨.duplicate, stored, .nothing⟩
        | (.ok true, stored) =>
          ⟨(routerProduce topic records (attempts.take maxAttempts)).1, stored, (routerProduce topic records (attempts.take maxAttempts)).2⟩) := by
  obtain _ | (_ | ⟨current, state⟩) := producer
  · exact .inl ⟨by rintro ⟨p, ⟨⟩, -⟩, _, rfl⟩
  · exact .inl ⟨by rintro ⟨p, ⟨⟩, -⟩, _, rfl⟩
  by_cases same : current = epoch
  · refine .inr ⟨⟨_, rfl, same⟩, ?_⟩
    simp only [processRecords, same, ne_eq, not_true_eq_false, if_false]
  · refine .inl ⟨?_, .epochMismatch current epoch, by simp [processRecords, same]⟩
    rintro ⟨p, ⟨⟩, equal⟩
    exact same equal

theorem course_grpc {agent : AgentEnv} {durable : Bool} (path : r.path = .grpc agent durable) (b : BatchStream)
    (stored : Option Int) : Course r b stored := by
  have reaches : r.Reaches b ↔ agentChecks agent r.key.partition.topic (b.batch r.index) = none ∧
      ∃ p, r.producer = .ok (some p) ∧ p.state = .active ∧ p.epoch = r.epoch := by rw [IdempotentRequest.Reaches, path]
  cases checks : agentChecks agent r.key.partition.topic (b.batch r.index) with
  | some e =>
    refine .refused (fun taken => ?_) e (by simp only [produced, path, produce, checks])
    have none := (reaches.1 taken.reaches).1
    rw [checks] at none
    cases none
  | none =>
    obtain ⟨stays, e, equal⟩ | ⟨found, equal⟩ :=
      validateIdempotent_cases r.producer r.epoch r.sequence (b.base r.index) (b.batch r.index).length stored
    · refine .refused (fun taken => stays (reaches.1 taken.reaches).2) e ?_
      simp only [produced, path, produce, checks, equal]
    · refine course_of_check (reaches.2 ⟨checks, found⟩) ?_ ?_ ?_
      · intro e stored' checked
        simp only [produced, path, produce, checks, equal, checked, Except.mapError]
      · intro stored' checked
        simp only [produced, path, produce, checks, equal, checked, Except.mapError]
      · intro stored' checked
        simp only [produced, path, produce, checks, equal, checked, Except.mapError, write]

theorem course_kafka {attempts : List Attempt} (path : r.path = .kafka attempts) (b : BatchStream)
    (stored : Option Int) : Course r b stored := by
  have reaches : r.Reaches b ↔ b.base r.index < 2 ^ 31 ∧ ∃ p, r.producer = .ok (some p) ∧ p.epoch = r.epoch := by
    rw [IdempotentRequest.Reaches, path]
  by_cases fits : b.base r.index < 2 ^ 31
  · obtain ⟨stays, e, equal⟩ | ⟨found, equal⟩ :=
      processRecords_cases r.producer r.epoch r.sequence attempts r.key.partition.topic (b.batch r.index) (b.base r.index) stored
    · refine .refused (fun taken => stays (reaches.1 taken.reaches).2) e ?_
      simp only [produced, path, if_pos fits, equal]
    · refine course_of_check (reaches.2 ⟨fits, found⟩) ?_ ?_ ?_
      · intro e stored' checked
        simp only [produced, path, if_pos fits, equal, checked]
      · intro stored' checked
        simp only [produced, path, if_pos fits, equal, checked]
      · intro stored' checked
        simp only [produced, path, if_pos fits, equal, checked, write]
  · exact .unsent (fun taken => fits (reaches.1 taken.reaches).1) (by simp only [produced, path, if_neg fits])

theorem course (r : IdempotentRequest) (b : BatchStream) (stored : Option Int) : Course r b stored := by
  cases path : r.path with
  | grpc agent durable => exact course_grpc path b stored
  | kafka attempts => exact course_kafka path b stored

/-- What an accepted request leaves. -/
theorem Accepted.produced {b : BatchStream} {stored : Option Int} (taken : Accepted r b stored) :
    ∃ answer effect, effect.logs = r.logs ∧ effect.drops = r.drops ∧ r.produced b stored =
      some ⟨answer, if r.stores then some (r.last b) else stored, effect⟩ := by
  obtain ⟨stays, -⟩ | ⟨stays, -⟩ | ⟨seen, -⟩ | ⟨-, answer, effect, -, -, logs, drops, result⟩ := course r b stored
  · exact absurd taken stays
  · exact absurd taken stays
  · have := taken.next
    omega
  · exact ⟨answer, effect, logs, drops, result⟩

variable {agentId : String}

/-- A lost segment leaves the sequence stored. -/
theorem stores_of_drops (drops : r.drops = some agentId) : r.stores = true ∧ r.logs = false := by
  unfold IdempotentRequest.drops at drops
  cases path : r.path with
  | grpc agent durable =>
    rw [path] at drops
    obtain ⟨commits, -, durably, lost⟩ : r.sequence.commits = true ∧ agent.writes = true ∧ durable = true ∧ agent.flush = .lost := by
      by_contra none
      simp [none] at drops
    simp [stores, logs, path, commits, keeps, durably, lost]
  | kafka attempts =>
    rw [path] at drops
    cases drops

/-! ## The invariant -/

theorem BatchStream.base_strictMono (b : BatchStream) : StrictMono b.base := by
  apply strictMono_nat_of_lt_succ
  intro i
  have := length_pos_of_ne_nil (b.nonempty i)
  simp only [base]
  omega

/-- The batches before the `n`th are in the log once each and no others are; the stored sequence is that
of their last record. -/
structure Written (b : BatchStream) (s : IdempotentSystem) (k : SequenceKey) (n : Nat) : Prop where
  last : (s.sequences k).getD (-1) = b.base n - 1
  copies : ∀ i, s.copies k i = if i < n then 1 else 0
  answered : ∀ i, (k, i) ∈ s.answered → i < n

def Aligned (streams : SequenceKey → BatchStream) (s : IdempotentSystem) : Prop := ∀ k, ∃ n, Written (streams k) s k n

abbrev Makes (streams : SequenceKey → BatchStream) (s : IdempotentSystem) (r : IdempotentRequest) (p : Produced) : Prop :=
  r.produced (streams r.key) (s.sequences r.key) = some p

section step
variable {streams : SequenceKey → BatchStream} {s : IdempotentSystem} {p : Produced}

theorem step_sequences (result : Makes streams s r p) (k : SequenceKey) :
    (s.step streams r).sequences k = if k = r.key then p.stored else s.sequences k := by
  simp only [IdempotentSystem.step, result, Function.update_apply]

theorem storeHeld_batches (agents : List String) (log : List LoggedBatch) :
    (storeHeld agents log).map LoggedBatch.batch = log.map LoggedBatch.batch := by
  rw [storeHeld, map_map]
  apply map_congr_left
  intro e _
  simp only [Function.comp_apply]
  split <;> rfl

theorem step_log (result : Makes streams s r p) (q : TopicPartition) :
    (s.step streams r).log q = if q = r.key.partition then
      p.effect.apply (r.key.producerId, r.index) (storeHeld r.rolled (s.log r.key.partition)) else s.log q := by
  simp only [IdempotentSystem.step, result, Function.update_apply]

/-- The batches of a log that loses nothing. -/
theorem apply_batches {effect : WriteEffect} (quiet : effect.drops = none) (batch : ProducerId × Nat) (log : List LoggedBatch) :
    (effect.apply batch log).map LoggedBatch.batch = log.map LoggedBatch.batch ++ if effect.logs then [batch] else [] := by
  cases effect with
  | nothing => exact (append_nil _).symm
  | buffered agentId => rw [WriteEffect.apply, map_append]; rfl
  | stored agentId => rw [WriteEffect.apply, storeHeld_batches, map_append]; rfl
  | dropped agentId => cases quiet

theorem step_copies (result : Makes streams s r p) (quiet : p.effect.drops = none)
    (k : SequenceKey) (i : Nat) :
    (s.step streams r).copies k i = s.copies k i + if p.effect.logs = true ∧ k = r.key ∧ i = r.index then 1 else 0 := by
  rw [IdempotentSystem.copies, step_log result]
  by_cases same : k.partition = r.key.partition
  · have entry : ((r.key.producerId, r.index) = (k.producerId, i)) ↔ k = r.key ∧ i = r.index := by
      rw [Prod.mk.injEq, SequenceKey.mk.injEq]
      constructor
      · rintro ⟨producer, index⟩
        exact ⟨⟨producer.symm, same⟩, index.symm⟩
      · rintro ⟨⟨producer, -⟩, index⟩
        exact ⟨producer.symm, index.symm⟩
    rw [if_pos same, apply_batches quiet, storeHeld_batches, count_append, IdempotentSystem.copies, same]
    cases logs : p.effect.logs <;> simp [count_singleton, entry]
  · have other : k ≠ r.key := fun equal => same (by rw [equal])
    simp [IdempotentSystem.copies, same, other]

/-- The batches of a lost segment are gone, and no others. -/
theorem dropped_copies (result : Makes streams s r p) (drops : p.effect.drops = some agentId) (k : SequenceKey) (i : Nat) :
    (s.step streams r).copies k i + (if k.partition = r.key.partition then (s.segment r agentId).count (k.producerId, i) else 0) =
      s.copies k i := by
  rw [IdempotentSystem.copies, step_log result]
  by_cases same : k.partition = r.key.partition
  · rw [if_pos same, if_pos same, IdempotentSystem.copies, same, ← storeHeld_batches r.rolled (s.log r.key.partition)]
    obtain ⟨answer, stored, effect⟩ := p
    cases effect with
    | dropped agent =>
      cases drops
      have parts := ((filter_append_perm (fun e : LoggedBatch => decide (e.heldBy = some agentId))
        (storeHeld r.rolled (s.log r.key.partition))).map LoggedBatch.batch).count_eq (k.producerId, i)
      rw [map_append, count_append, Nat.add_comm] at parts
      simpa [WriteEffect.apply, IdempotentSystem.segment] using parts
    | _ => cases drops
  · rw [if_neg same, if_neg same, Nat.add_zero, IdempotentSystem.copies]

theorem mem_step_answered (result : Makes streams s r p) (a : SequenceKey × Nat) :
    a ∈ (s.step streams r).answered ↔ a ∈ s.answered ∨ (a = (r.key, r.index) ∧ (p.answer = .success ∨ p.answer = .duplicate)) := by
  cases answer : p.answer with
  | success => simp [IdempotentSystem.step, result, answer]
  | duplicate => simp [IdempotentSystem.step, result, answer]
  | refused e => simp [IdempotentSystem.step, result, answer]

variable {n : Nat}

/-- A request touches the batches of its own key only, but for a segment it loses. -/
theorem Written.frame {k : SequenceKey} (written : Written (streams k) s k n) (other : k ≠ r.key)
    (untouched : ∀ p, r.produced (streams r.key) (s.sequences r.key) = some p → ∀ agentId, p.effect.drops = some agentId →
      TakesBack r (streams r.key) s agentId) : Written (streams k) (s.step streams r) k n := by
  cases result : r.produced (streams r.key) (s.sequences r.key) with
  | none =>
    rw [IdempotentSystem.step, result]
    exact written
  | some p =>
    refine ⟨?_, fun i => ?_, fun i answered => ?_⟩
    · rw [step_sequences result, if_neg other]
      exact written.last
    · cases drops : p.effect.drops with
      | none =>
        rw [step_copies result drops, if_neg (fun both => other both.2.1)]
        exact written.copies i
      | some agentId =>
        have parts := dropped_copies result drops k i
        rw [← written.copies i, ← parts]
        split_ifs with same
        · have absent : (k.producerId, i) ∉ s.segment r agentId := by
            intro inside
            obtain ⟨k', partition, named, plain⟩ := k
            exact other (by
              rw [SequenceKey.mk.injEq]
              exact ⟨((untouched p result agentId drops).alone _ inside).1, same⟩)
          rw [count_eq_zero_of_not_mem absent, Nat.add_zero]
        · rfl
    · obtain before | ⟨equal, -⟩ := (mem_step_answered result _).1 answered
      · exact written.answered i before
      · exact absurd (Prod.mk.inj equal).1 other

/-- A request that logs nothing, loses nothing and stores what is stored may answer for a batch that is written. -/
theorem Written.unlogged (written : Written (streams r.key) s r.key n)
    (result : Makes streams s r p) (logs : p.effect.logs = false) (quiet : p.effect.drops = none)
    (same : p.stored.getD (-1) = (s.sequences r.key).getD (-1))
    (answers : p.answer = .success ∨ p.answer = .duplicate → r.index < n) : Written (streams r.key) (s.step streams r) r.key n := by
  refine ⟨?_, fun i => ?_, fun i answered => ?_⟩
  · rw [step_sequences result, if_pos rfl, same]
    exact written.last
  · rw [step_copies result quiet, if_neg (fun both => Bool.false_ne_true (logs.symm.trans both.1))]
    exact written.copies i
  · obtain before | ⟨equal, kind⟩ := (mem_step_answered result _).1 answered
    · exact written.answered i before
    · rw [(Prod.mk.inj equal).2]
      exact answers kind

/-- The next batch is written, and its sequence stored. -/
theorem Written.logged (written : Written (streams r.key) s r.key r.index)
    (result : Makes streams s r p) (logs : p.effect.logs = true)
    (stored : p.stored = some (r.last (streams r.key))) :
    Written (streams r.key) (s.step streams r) r.key (r.index + 1) := by
  have quiet : p.effect.drops = none := by
    cases effect : p.effect with
    | dropped agentId =>
      rw [effect] at logs
      cases logs
    | _ => rfl
  refine ⟨?_, fun i => ?_, fun i answered => ?_⟩
  · rw [step_sequences result, if_pos rfl, stored, Option.getD_some, base, Int.natCast_add]
  · rw [step_copies result quiet, written.copies i]
    by_cases this : i = r.index
    · simp [this, logs]
    · have order : i < r.index ↔ i < r.index + 1 := by omega
      simp [this, order]
  · obtain before | ⟨equal, -⟩ := (mem_step_answered result _).1 answered
    · have := written.answered i before
      omega
    · rw [(Prod.mk.inj equal).2]
      omega

section

variable (written : Written (streams r.key) s r.key n)
include written

/-- What a lost segment takes back is as if it had never been sent. -/
theorem Written.takenBack (before : r.index < n)
    (result : Makes streams s r p) (drops : p.effect.drops = some agentId)
    (refused : p.answer ≠ .success ∧ p.answer ≠ .duplicate)
    (stored : p.stored = some (r.last (streams r.key)))
    (back : TakesBack r (streams r.key) s agentId) : Written (streams r.key) (s.step streams r) r.key (r.index + 1) := by
  have inside : ∀ i, r.index < i → i < n → (r.key.producerId, i) ∈ s.segment r agentId := by
    intro i after this
    have := (streams r.key).base_strictMono this
    refine back.later i after ?_
    rw [written.last]
    omega
  refine ⟨?_, fun i => ?_, fun i answered => ?_⟩
  · rw [step_sequences result, if_pos rfl, stored, Option.getD_some, base, Int.natCast_add]
  · have parts := dropped_copies result drops r.key i
    rw [if_pos rfl, written.copies i] at parts
    by_cases after : r.index < i
    · rw [if_neg (by omega)]
      by_cases known : i < n
      · have := count_pos_iff.mpr (inside i after known)
        rw [if_pos known] at parts
        omega
      · rw [if_neg known] at parts
        omega
    · have absent : (r.key.producerId, i) ∉ s.segment r agentId := fun there => after (back.alone _ there).2.1
      rw [count_eq_zero_of_not_mem absent, if_pos (by omega)] at parts
      rw [if_pos (by omega)]
      exact parts
  · obtain known | ⟨equal, kind⟩ := (mem_step_answered result _).1 answered
    · by_contra after
      exact (back.alone _ (inside i (by omega) (written.answered i known))).2.2 known
    · rcases kind with success | duplicate
      · exact absurd success refused.1
      · exact absurd duplicate refused.2

/-- What the check takes for seen has been written. -/
theorem Written.of_seen
    (seen : ((streams r.key).base r.index : Int) ≤ lastSequence r.sequence (s.sequences r.key)) : r.index < n := by
  unfold lastSequence at seen
  split_ifs at seen
  · rw [written.last] at seen
    exact (streams r.key).base_strictMono.lt_iff_lt.1 (by omega)
  · omega

/-- A batch that really is the next one. -/
theorem Written.of_fresh
    (fresh : (s.sequences r.key).getD (-1) + 1 = (streams r.key).base r.index) : n = r.index := by
  rw [written.last] at fresh
  exact (streams r.key).base_strictMono.injective (by omega)

/-- A batch that is taken for the next one and is not: the first, after a read that failed. -/
theorem Written.of_not_fresh (taken : Accepted r (streams r.key) (s.sequences r.key))
    (behind : (s.sequences r.key).getD (-1) + 1 ≠ (streams r.key).base r.index) : r.index = 0 ∧ 0 < n := by
  have next := taken.next
  unfold lastSequence at next
  split_ifs at next
  · exact absurd next.symm behind
  have first : r.index = 0 := (streams r.key).base_strictMono.injective (by simp only [base]; omega)
  refine ⟨first, Nat.pos_of_ne_zero fun none => behind ?_⟩
  rw [written.last, none, first]
  omega


end
/-- A safe request loses a segment only where it takes the producer back. -/
theorem IdempotentRequest.Safe.takesBack (safe : r.Safe (streams r.key) s) (result : Makes streams s r p) (drops : p.effect.drops = some agentId) :
    TakesBack r (streams r.key) s agentId := by
  obtain ⟨-, unsent⟩ | ⟨-, e, refused⟩ | ⟨-, duplicate⟩ | ⟨taken, answer, effect, -, -, -, lost, accepted⟩ :=
    course r (streams r.key) (s.sequences r.key)
  · cases unsent.symm.trans result
  · cases refused.symm.trans result
    cases drops
  · cases duplicate.symm.trans result
    cases drops
  · cases accepted.symm.trans result
    obtain ⟨fresh, repeated⟩ := safe taken
    rw [lost] at drops
    obtain ⟨stores, quiet⟩ := stores_of_drops drops
    by_cases next : (s.sequences r.key).getD (-1) + 1 = (streams r.key).base r.index
    · rw [fresh next stores] at quiet
      cases quiet
    · have back := (repeated next).2
      rw [drops] at back
      exact back

theorem written_step (written : Written (streams r.key) s r.key n) (safe : r.Safe (streams r.key) s) :
    ∃ n, Written (streams r.key) (s.step streams r) r.key n := by
  obtain ⟨-, result⟩ | ⟨-, e, result⟩ | ⟨seen, result⟩ | ⟨taken, answer, effect, answers, done, logged, lost, result⟩ :=
    course r (streams r.key) (s.sequences r.key)
  · rw [IdempotentSystem.step, result]
    exact ⟨n, written⟩
  · exact ⟨n, written.unlogged result rfl rfl rfl (by simp)⟩
  · exact ⟨n, written.unlogged result rfl rfl rfl fun _ => written.of_seen seen⟩
  · obtain ⟨fresh, repeated⟩ := safe taken
    -- An accepted request that logs nothing is refused.
    have refused : r.logs = false → answer ≠ .success ∧ answer ≠ .duplicate := by
      refine fun quiet => ⟨fun success => ?_, answers⟩
      rw [done success] at quiet
      cases quiet
    have silent : r.logs = false → answer = .success ∨ answer = .duplicate → r.index < n := by
      rintro quiet (success | duplicate)
      · exact absurd success (refused quiet).1
      · exact absurd duplicate answers
    by_cases next : (s.sequences r.key).getD (-1) + 1 = (streams r.key).base r.index
    · obtain rfl := written.of_fresh next
      cases stores : r.stores with
      | true =>
        rw [stores, if_pos rfl] at result
        exact ⟨_, written.logged result (logged.trans (fresh next stores)) rfl⟩
      | false =>
        have quiet : r.logs = false := by
          rw [IdempotentRequest.stores, Bool.or_eq_false_iff] at stores
          rw [IdempotentRequest.logs, stores.1, Bool.false_and]
        have kept : r.drops = none := by
          by_contra some
          obtain ⟨agentId, drops⟩ := Option.ne_none_iff_exists'.mp some
          rw [(stores_of_drops drops).1] at stores
          cases stores
        rw [stores] at result
        exact ⟨_, written.unlogged result (logged.trans quiet) (lost.trans kept) rfl (silent quiet)⟩
    · obtain ⟨quiet, kept⟩ := repeated next
      cases drops : r.drops with
      | none =>
        rw [drops] at kept
        refine ⟨n, written.unlogged result (logged.trans quiet) (lost.trans drops) ?_ (silent quiet)⟩
        dsimp only
        split_ifs with stores
        · exact (kept stores).symm
        · rfl
      | some agentId =>
        rw [drops] at kept
        rw [(stores_of_drops drops).1, if_pos rfl] at result
        obtain ⟨first, later⟩ := written.of_not_fresh taken next
        exact ⟨_, written.takenBack (by omega) result (lost.trans drops) (refused quiet) rfl kept⟩

theorem aligned_step (aligned : Aligned streams s) (safe : r.Safe (streams r.key) s) : Aligned streams (s.step streams r) := by
  intro k
  obtain ⟨n, written⟩ := aligned k
  by_cases this : k = r.key
  · subst this
    exact written_step written safe
  · exact ⟨n, written.frame this fun p result agentId drops => safe.takesBack result drops⟩

theorem Aligned.exactlyOnce (aligned : Aligned streams s) : ExactlyOnce s := by
  rintro ⟨k, i⟩ answered
  obtain ⟨n, written⟩ := aligned k
  rw [written.copies i, if_pos (written.answered i answered)]

theorem aligned_start : Aligned streams .start := by
  intro k
  exact ⟨0, by simp [IdempotentSystem.start, base], by simp [IdempotentSystem.copies, IdempotentSystem.start],
    by simp [IdempotentSystem.start]⟩

end step

/-! ## Requests that meet no failure -/

def SequenceEnv.fine : SequenceEnv := ⟨true, true, true, true, true⟩

def AgentEnv.fine : AgentEnv := ⟨"agent", false, .held, true, true, .done⟩

/-- The producer is active, and nothing fails on the way. -/
structure IdempotentRequest.Clean (r : IdempotentRequest) : Prop where
  producer : r.producer = .ok (some ⟨r.epoch, .active⟩)
  sequence : r.sequence = .fine
  path : (∃ durable, r.path = .grpc .fine durable) ∨ r.path = .kafka [.answered .fine]

theorem IdempotentRequest.Clean.safe (clean : r.Clean) (b : BatchStream) (s : IdempotentSystem) : r.Safe b s := by
  intro taken
  have logs : r.logs = true := by
    obtain ⟨durable, path⟩ | path := clean.path
    · simp [logs, clean.sequence, path, SequenceEnv.fine, fine, writes, keeps]
    · simp only [logs, clean.sequence, path]
      decide
  have reads : r.sequence.reads = true := by rw [clean.sequence, SequenceEnv.fine]
  have next := taken.next
  rw [lastSequence, if_pos reads] at next
  exact ⟨fun _ _ => logs, fun behind => absurd next.symm behind⟩

/-- A clean request of the agent. -/
def retry (k : SequenceKey) (i : Nat) : IdempotentRequest :=
  { key := k
    index := i
    rolled := []
    epoch := 0
    producer := .ok (some ⟨0, .active⟩)
    sequence := .fine
    path := .grpc .fine false }

theorem retry_clean (k : SequenceKey) (i : Nat) : (retry k i).Clean := ⟨rfl, rfl, .inl ⟨false, rfl⟩⟩

section retry
variable {b : BatchStream} {k : SequenceKey} {i : Nat} {stored : Option Int}

/-- A clean request goes by the check alone. -/
theorem retry_checked : (retry k i).produced b stored =
    some (match checkAndUpdateSequence .fine stored (b.base i) (b.batch i).length with
      | (.error e, stored) => ⟨.refused (.sequence e), stored, .nothing⟩
      | (.ok false, stored) => ⟨.duplicate, stored, .nothing⟩
      | (.ok true, stored) => ⟨.success, stored, .buffered "agent"⟩) := by
  have checks : agentChecks .fine k.partition.topic (b.batch i) = none := by
    simp [agentChecks, fine, k.named, b.nonempty i]
  have write : agentWrite .fine false = (.success, .buffered "agent") := by decide
  simp only [retry, produced, produce, checks, validateIdempotent, write]
  obtain ⟨e | (_ | _), stored'⟩ := checkAndUpdateSequence .fine stored (b.base i) (b.batch i).length <;> simp [Except.mapError]

theorem retry_seen (seen : (b.base i : Int) ≤ stored.getD (-1)) : (retry k i).produced b stored = some ⟨.duplicate, stored, .nothing⟩ := by
  simp [retry_checked, checkAndUpdateSequence, lastSequence, SequenceEnv.fine, seen]

theorem retry_next (next : (b.base i : Int) = stored.getD (-1) + 1) :
    (retry k i).produced b stored = some ⟨.success, some (b.base i + (b.batch i).length - 1), .buffered "agent"⟩ := by
  have unseen : ¬ stored.getD (-1) + 1 ≤ stored.getD (-1) := by omega
  simp [retry_checked, checkAndUpdateSequence, lastSequence, SequenceEnv.fine, next, unseen]

end retry

/-! ## What goes wrong -/

section exposed
variable {streams : SequenceKey → BatchStream} {s : IdempotentSystem} {n : Nat} {p : Produced}

theorem copies_of_retry_seen {k : SequenceKey} {i : Nat} (seen : ((streams k).base i : Int) ≤ (s.sequences k).getD (-1))
    (once : ExactlyOnce (s.step streams (retry k i))) : s.copies k i = 1 := by
  have result : (retry k i).produced (streams k) (s.sequences k) = some ⟨.duplicate, s.sequences k, .nothing⟩ := retry_seen seen
  have copies := once (k, i) ((mem_step_answered result _).2 (.inr ⟨rfl, .inr rfl⟩))
  rw [step_copies result rfl, if_neg (fun both => nomatch both.1)] at copies
  exact copies

/-- The next batch of a producer, sent and not failing. -/
theorem step_retry_next {k : SequenceKey} {i : Nat} (next : ((streams k).base i : Int) = (s.sequences k).getD (-1) + 1) :
    (((s.step streams (retry k i)).sequences k).getD (-1) = ((streams k).base (i + 1) : Int) - 1) ∧
      (∀ j, (s.step streams (retry k i)).copies k j = s.copies k j + if j = i then 1 else 0) ∧
      (k, i) ∈ (s.step streams (retry k i)).answered := by
  have result := retry_next (k := k) next
  refine ⟨?_, fun j => ?_, (mem_step_answered (r := retry k i) result _).2 (.inr ⟨rfl, .inl rfl⟩)⟩
  · rw [step_sequences (r := retry k i) result k, if_pos (show k = (retry k i).key from rfl), Option.getD_some, base, Int.natCast_add]
  · rw [step_copies (r := retry k i) result rfl]
    have same : (WriteEffect.buffered "agent").logs = true ∧ k = (retry k i).key ∧ j = (retry k i).index ↔ j = i :=
      ⟨fun all => all.2.2, fun equal => ⟨rfl, rfl, equal⟩⟩
    simp only [same]

theorem copies_of_retry_next {k : SequenceKey} {i : Nat} (next : ((streams k).base i : Int) = (s.sequences k).getD (-1) + 1)
    (once : ExactlyOnce (s.step streams (retry k i))) : s.copies k i = 0 := by
  obtain ⟨-, copies, answered⟩ := step_retry_next next
  have here := once (k, i) answered
  rw [copies, if_pos rfl] at here
  exact Nat.succ.inj here

/-- The batches from one on to another are sent again, one after the other. -/
theorem retries_next {k : SequenceKey} (first count : Nat) (next : ((streams k).base first : Int) = (s.sequences k).getD (-1) + 1) :
    let t := run (IdempotentSystem.step streams) s ((range' first count).map (retry k))
    (t.sequences k).getD (-1) = ((streams k).base (first + count) : Int) - 1 ∧
      ∀ j, first + count ≤ j → t.copies k j = s.copies k j := by
  induction count generalizing s first with
  | zero => exact ⟨by simp only [range', map_nil, run, foldl_nil, Nat.add_zero]; omega, fun _ _ => rfl⟩
  | succ count ih =>
    obtain ⟨stored, copies, -⟩ := step_retry_next next
    obtain ⟨last, kept⟩ := ih (first + 1) (s := s.step streams (retry k first)) (by omega)
    have there : first + 1 + count = first + (count + 1) := by omega
    rw [there] at last kept
    refine ⟨last, fun j after => (kept j after).trans ?_⟩
    rw [copies, if_neg (by omega), Nat.add_zero]

/-- Where the sequence is stored, the check has seen the batch. -/
theorem seen_of_stored (result : Makes streams s r p)
    (stored : p.stored = some (r.last (streams r.key))) :
    ((streams r.key).base r.index : Int) ≤ ((s.step streams r).sequences r.key).getD (-1) := by
  have := length_pos_of_ne_nil ((streams r.key).nonempty r.index)
  rw [step_sequences result, if_pos rfl, stored, Option.getD_some, IdempotentRequest.last]
  omega

/-- The sequence is stored and the batch not written: the retry is answered as a duplicate. -/
theorem unwritten_exposed (written : Written (streams r.key) s r.key r.index)
    (result : Makes streams s r p) (logs : p.effect.logs = false)
    (stored : p.stored = some (r.last (streams r.key))) :
    ¬ ExactlyOnce ((s.step streams r).step streams (retry r.key r.index)) := by
  intro once
  have copies := copies_of_retry_seen (seen_of_stored result stored) once
  have before := written.copies r.index
  rw [if_neg (lt_irrefl _)] at before
  cases drops : p.effect.drops with
  | none =>
    rw [step_copies result drops, if_neg (fun both => Bool.false_ne_true (logs.symm.trans both.1))] at copies
    omega
  | some agentId =>
    have parts := dropped_copies result drops r.key r.index
    omega

/-- A batch that is in the log is written again. -/
theorem rewritten_exposed (written : Written (streams r.key) s r.key n) (before : r.index < n)
    (result : Makes streams s r p) (logs : p.effect.logs = true) (quiet : p.effect.drops = none)
    (stored : p.stored = some (r.last (streams r.key))) :
    ¬ ExactlyOnce ((s.step streams r).step streams (retry r.key r.index)) := by
  intro once
  have copies := copies_of_retry_seen (seen_of_stored result stored) once
  rw [step_copies result quiet, if_pos ⟨logs, rfl, rfl⟩, written.copies, if_pos before] at copies
  omega

/-- Behind a sequence that is set back, the next batch is the one after the request's. -/
theorem next_of_stored (result : Makes streams s r p)
    (stored : p.stored = some (r.last (streams r.key))) :
    ((streams r.key).base (r.index + 1) : Int) = ((s.step streams r).sequences r.key).getD (-1) + 1 := by
  rw [step_sequences result, if_pos rfl, stored, Option.getD_some, base, Int.natCast_add, IdempotentRequest.last]
  omega

/-- The sequence is set back: the batch after is taken for the next one. -/
theorem rewound_exposed (written : Written (streams r.key) s r.key n) (before : r.index + 1 < n)
    (result : Makes streams s r p) (logs : p.effect.logs = false) (quiet : p.effect.drops = none)
    (stored : p.stored = some (r.last (streams r.key))) :
    ¬ ExactlyOnce ((s.step streams r).step streams (retry r.key (r.index + 1))) := by
  intro once
  have copies := copies_of_retry_next (next_of_stored result stored) once
  rw [step_copies result quiet, if_neg (fun both => Bool.false_ne_true (logs.symm.trans both.1)), written.copies, if_pos before] at copies
  omega

/-- A batch in a lost segment had one copy, and has none. -/
theorem lost_copies (aligned : Aligned streams s) (result : Makes streams s r p) (drops : p.effect.drops = some agentId) {k : SequenceKey}
    (same : k.partition = r.key.partition) {i : Nat} (inside : (k.producerId, i) ∈ s.segment r agentId) :
    (s.step streams r).copies k i = 0 ∧ ∃ n, Written (streams k) s k n ∧ i < n := by
  obtain ⟨n, written⟩ := aligned k
  have parts := dropped_copies result drops k i
  have here := count_pos_iff.mpr inside
  rw [if_pos same, written.copies] at parts
  by_cases known : i < n
  · rw [if_pos known] at parts
    exact ⟨by omega, n, written, known⟩
  · rw [if_neg known] at parts
    omega

/-- A segment is lost that takes the producer back to no former state. -/
theorem lost_exposed (aligned : Aligned streams s) (result : Makes streams s r p) (drops : p.effect.drops = some agentId)
    (stored : p.stored = some (r.last (streams r.key)))
    (stays : ¬ TakesBack r (streams r.key) s agentId) :
    ∃ more, (∀ a ∈ more, ∃ k i, a = retry k i) ∧ ¬ ExactlyOnce (run (IdempotentSystem.step streams) (s.step streams r) more) := by
  by_contra fine
  have always : ∀ more, (∀ a ∈ more, ∃ k i, a = retry k i) → ExactlyOnce (run (IdempotentSystem.step streams) (s.step streams r) more) :=
    fun more plain => by_contra fun fails => fine ⟨more, plain, fails⟩
  have retried (k : SequenceKey) (i : Nat) : ExactlyOnce ((s.step streams r).step streams (retry k i)) :=
    always [retry k i] fun a member => ⟨k, i, mem_singleton.mp member⟩
  refine stays ⟨fun i after known => ?_, fun x inside => ?_⟩
  · -- Sent again up to this batch, which is in the log still, it is there twice.
    by_contra absent
    obtain ⟨n, written⟩ := aligned r.key
    have parts := dropped_copies result drops r.key i
    rw [if_pos rfl, count_eq_zero_of_not_mem absent, written.copies, if_pos, Nat.add_zero] at parts
    · obtain ⟨last, kept⟩ := retries_next (r.index + 1) (i - (r.index + 1)) (next_of_stored result stored)
      have there : r.index + 1 + (i - (r.index + 1)) = i := by omega
      rw [there] at last kept
      have due : ((streams r.key).base i : Int) = ((run (IdempotentSystem.step streams) (s.step streams r)
          ((range' (r.index + 1) (i - (r.index + 1))).map (retry r.key))).sequences r.key).getD (-1) + 1 := by omega
      obtain ⟨-, copies, answered⟩ := step_retry_next due
      have once := always ((range' (r.index + 1) (i - (r.index + 1))).map (retry r.key) ++ [retry r.key i]) (by
        intro a member
        rcases mem_append.mp member with earlier | last
        · obtain ⟨j, -, rfl⟩ := mem_map.mp earlier
          exact ⟨_, _, rfl⟩
        · exact ⟨_, _, mem_singleton.mp last⟩)
      rw [run_append] at once
      have twice := (copies i).symm.trans (once _ answered)
      rw [if_pos rfl, kept i (le_refl i), ← parts] at twice
      omega
    · rw [written.last] at known
      exact (streams r.key).base_strictMono.lt_iff_lt.1 (by omega)
  · obtain ⟨producer, i⟩ := x
    have mine : producer = r.key.producerId := by
      by_contra other
      obtain ⟨gone, n, written, known⟩ := lost_copies (k := ⟨producer, r.key.partition, r.key.named, r.key.plain⟩) aligned result drops rfl inside
      have copies := copies_of_retry_seen (k := ⟨producer, r.key.partition, r.key.named, r.key.plain⟩) (i := i) (by
        rw [step_sequences result, if_neg fun equal => other (congrArg SequenceKey.producerId equal), written.last]
        have := (streams ⟨producer, r.key.partition, r.key.named, r.key.plain⟩).base_strictMono known
        omega) (retried _ _)
      omega
    obtain rfl := mine
    obtain ⟨gone, -⟩ := lost_copies aligned result drops rfl inside
    refine ⟨rfl, ?_, fun answered => ?_⟩
    · by_contra before
      have first : (streams r.key).base i ≤ (streams r.key).base r.index :=
        (streams r.key).base_strictMono.monotone (Nat.not_lt.mp before)
      have copies := copies_of_retry_seen (k := r.key) (i := i) (by
        have := seen_of_stored result stored
        omega) (retried _ _)
      omega
    · have once := always [] (fun a member => nomatch member) (r.key, i) ((mem_step_answered result _).2 (.inl answered))
      exact absurd (once.symm.trans gone) (by decide)

/-- An unsafe request shows after some clean ones. -/
theorem exposed (aligned : Aligned streams s) (risky : ¬ r.Safe (streams r.key) s) :
    ∃ more, (∀ a ∈ more, ∃ k i, a = retry k i) ∧ ¬ ExactlyOnce (run (IdempotentSystem.step streams) (s.step streams r) more) := by
  obtain ⟨n, written⟩ := aligned r.key
  obtain ⟨taken, fails⟩ := Classical.not_imp.1 risky
  obtain ⟨answer, effect, logged, lost, result⟩ := taken.produced
  have single (i : Nat) (fails : ¬ ExactlyOnce ((s.step streams r).step streams (retry r.key i))) :
      ∃ more, (∀ a ∈ more, ∃ k i, a = retry k i) ∧ ¬ ExactlyOnce (run (IdempotentSystem.step streams) (s.step streams r) more) :=
    ⟨[retry r.key i], fun a member => ⟨_, _, mem_singleton.mp member⟩, fails⟩
  by_cases fresh : (s.sequences r.key).getD (-1) + 1 = (streams r.key).base r.index
  · obtain rfl := written.of_fresh fresh
    have quiet : r.stores = true ∧ r.logs = false := by
      by_contra kept
      refine fails ⟨fun _ stores => ?_, fun behind => absurd fresh behind⟩
      cases logs : r.logs with
      | true => rfl
      | false => exact absurd ⟨stores, logs⟩ kept
    rw [quiet.1, if_pos rfl] at result
    exact single _ (unwritten_exposed written result (logged.trans quiet.2) rfl)
  · obtain ⟨first, later⟩ := written.of_not_fresh taken fresh
    cases drops : r.drops with
    | some agentId =>
      obtain ⟨stores, quiet⟩ := stores_of_drops drops
      rw [stores, if_pos rfl] at result
      refine lost_exposed aligned result (lost.trans drops) rfl fun back => fails ⟨fun equal => absurd equal fresh, fun _ => ⟨quiet, ?_⟩⟩
      rw [drops]
      exact back
    | none =>
      cases logs : r.logs with
      | true =>
        have stores : r.stores = true := by
          rw [IdempotentRequest.logs, Bool.and_eq_true] at logs
          rw [IdempotentRequest.stores, logs.1, Bool.true_or]
        rw [stores, if_pos rfl] at result
        exact single _ (rewritten_exposed written (by omega) result (logged.trans logs) (lost.trans drops) rfl)
      | false =>
        have back : r.stores = true ∧
            (s.sequences r.key).getD (-1) ≠ r.last (streams r.key) := by
          by_contra kept
          refine fails ⟨fun equal => absurd equal fresh, fun _ => ⟨logs, ?_⟩⟩
          rw [drops]
          refine fun stores => ?_
          by_contra different
          exact kept ⟨stores, different⟩
        have beyond : n ≠ r.index + 1 := by
          rintro rfl
          refine back.2 ?_
          rw [written.last, base, Int.natCast_add]
        rw [back.1, if_pos rfl] at result
        exact single _ (rewound_exposed written (by omega) result (logged.trans logs) (lost.trans drops) rfl)

end exposed

end StreamHouse.Agent
