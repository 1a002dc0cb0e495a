import StreamHouse.Agent.Idempotence

/-!
# The client's producer

`Producer` of `producer.rs` with its `BatchManager` (`batch.rs`): sends append to the buffer of a
partition and then queue the sender of their offset, under two locks; the background task and
`flush()` calls take the buffers that are ready, read the transaction id, and number, send and settle
one batch after the other. A commit flushes and then asks for the commit. Every lock and every
request is a step of its own. What an agent does with a request is the environment's choice, except
for the check of sequence numbers.
-/

namespace StreamHouse.Client

open Metadata Agent

/-! ## Buffers -/

structure BatchRecord where
  key : Option Bytes
  value : Bytes
  timestamp : Nat
deriving DecidableEq

def BatchRecord.sizeBytes (r : BatchRecord) : Nat := (r.key.map List.length).getD 0 + r.value.length + 16

/-- A record, the number of the `send` call it comes from, and the transaction that was current then. -/
structure Sent where
  record : BatchRecord
  number : Nat
  transaction : Option String
deriving DecidableEq

structure ProducerConfig where
  maxBatchSize : Nat
  maxBatchBytes : Nat
  lingerMs : Nat
  idempotent : Bool

structure BatchBuffer where
  records : List Sent
  sizeBytes : Nat
  createdAt : Nat

namespace BatchBuffer

def new (now : Nat) : BatchBuffer := ⟨[], 0, now⟩

def append (b : BatchBuffer) (r : Sent) : BatchBuffer :=
  { b with records := b.records ++ [r], sizeBytes := b.sizeBytes + r.record.sizeBytes }

def shouldFlush (config : ProducerConfig) (now : Nat) (b : BatchBuffer) : Bool :=
  b.records ≠ [] ∧
    (config.maxBatchSize ≤ b.records.length ∨ config.maxBatchBytes ≤ b.sizeBytes ∨ config.lingerMs ≤ now - b.createdAt)

end BatchBuffer

/-- What `ready_batches` takes of a partition. -/
structure ReadyBatch where
  key : TopicPartition
  records : List Sent
deriving DecidableEq

def ReadyBatch.sends (b : ReadyBatch) : List Nat := b.records.map Sent.number

/-! ## The producer -/

/-- Where a flush is: the background task's, a `flush()` call's, or that of a commit of the given transaction. -/
inductive Flushing where
  | idle
  | drained (commit : Option String) (batches : List ReadyBatch)
  /-- The transaction id has been read. -/
  | flushing (commit txn : Option String) (batches : List ReadyBatch)
  | sending (commit txn : Option String) (baseSequence : Option Int) (batch : ReadyBatch) (rest : List ReadyBatch)
  /-- The batch has got an offset, or has failed. -/
  | answered (commit txn : Option String) (batch : ReadyBatch) (firstOffset : Option Nat) (rest : List ReadyBatch)
  /-- The flush of a commit has succeeded. -/
  | flushed (transactionId : String)
  | committed (transactionId : String)
deriving DecidableEq

/-- The next batch, or the end of the flush. -/
def Flushing.next (commit txn : Option String) : List ReadyBatch → Flushing
  | [] => (commit.map Flushing.flushed).getD .idle
  | batch :: rest => .flushing commit txn (batch :: rest)

/-- What the receiver of a send has got. -/
inductive Receiver where
  | waiting
  | offset (n : Nat)
  | failed
deriving DecidableEq

/-- A batch has been given a base sequence. -/
structure Numbering where
  key : TopicPartition
  firstSend : Nat
  base : Int
  count : Nat

/-- A successful `CommitTransaction`, with what had been sent and what had been transmitted before the request. -/
structure CommitRequest where
  transactionId : String
  sent : List (Sent × TopicPartition)
  transmitted : List (Sent × Option String)

/-- What has happened, which the code keeps no record of. -/
structure History where
  /-- The sends that have returned. -/
  sent : List (Sent × TopicPartition)
  /-- The records that have arrived at an agent, with the transaction id of the request. -/
  transmitted : List (Sent × Option String)
  /-- The offsets that agents have given to the record of a send. -/
  assigned : List (Nat × Nat)
  /-- The sends whose batch has failed. -/
  failed : List Nat
  /-- The records that were given up without having arrived. -/
  dropped : List Sent
  numbered : List Numbering
  /-- The batches that were given up while their number was still ahead of the server's. -/
  lost : List Numbering
  commits : List CommitRequest

/-- `lastSequence` is the server's row for the producer. -/
structure ProducerState where
  buffers : TopicPartition → Option BatchBuffer
  pendingRecords : TopicPartition → List Nat
  sequenceNumbers : TopicPartition → Int
  currentTransactionId : Option String
  flushers : Nat → Flushing
  /-- The flushers that have begun. -/
  begun : List Nat
  /-- How many sends there have been. -/
  sends : Nat
  /-- The sends between their two locks, in the order in which they appended. -/
  unqueued : List (Sent × TopicPartition)
  receivers : Nat → Receiver
  lastSequence : TopicPartition → Option Int
  history : History

/-- One request of a batch: whether it passes the checks before that of its number, at which offset its records are
appended, if they are, whether the answer comes back, and whether the client tries again without one. -/
structure Attempt where
  arrives : Bool
  appends : Option Nat
  answerArrives : Bool
  retries : Bool

/-- Flusher 0 is the background task. `drain` has the order in which the map of buffers is iterated, and the transaction
of the commit that it belongs to. -/
inductive ProducerStep where
  | append (key : TopicPartition) (record : BatchRecord) (now : Nat)
  | enqueue (send : Nat)
  | drain (f : Nat) (commit : Option String) (now : Nat) (order : List TopicPartition)
  | readIds (f : Nat)
  | number (f : Nat)
  | attempt (f : Nat) (a : Attempt)
  | deliver (f : Nat)
  | beginTransaction (transactionId : String)
  | commitRequest (f : Nat) (succeeds : Bool)
  | commitEnd (f : Nat)
  | abortTransaction

namespace ProducerState

/-- A producer that has just been built, new to the server. -/
def initial : ProducerState where
  buffers := fun _ => none
  pendingRecords := fun _ => []
  sequenceNumbers := fun _ => 0
  currentTransactionId := none
  flushers := fun _ => .idle
  begun := []
  sends := 0
  unqueued := []
  receivers := fun _ => .waiting
  lastSequence := fun _ => none
  history := ⟨[], [], [], [], [], [], [], []⟩

variable (config : ProducerConfig) (s : ProducerState)

def setFlusher (f : Nat) (phase : Flushing) : ProducerState := { s with flushers := Function.update s.flushers f phase }

/-- The records of a buffer. -/
def buffered (key : TopicPartition) : List Sent := ((s.buffers key).map BatchBuffer.records).getD []

/-- `send` up to the first lock's release. -/
def append (key : TopicPartition) (record : BatchRecord) (now : Nat) : ProducerState :=
  let r : Sent := ⟨record, s.sends, s.currentTransactionId⟩
  { s with
    buffers := Function.update s.buffers key (some (((s.buffers key).getD (.new now)).append r))
    sends := s.sends + 1
    unqueued := s.unqueued ++ [(r, key)] }

/-- The rest of `send`. -/
def enqueue (send : Nat) : ProducerState :=
  match s.unqueued.find? fun w => w.1.number = send with
  | some (r, key) =>
    { s with
      pendingRecords := Function.update s.pendingRecords key (s.pendingRecords key ++ [send])
      unqueued := s.unqueued.filter fun w => w.1.number ≠ send
      history := { s.history with sent := s.history.sent ++ [(r, key)] } }
  | none => s

/-- The partitions whose buffers should be flushed. -/
def ready (now : Nat) (order : List TopicPartition) : List TopicPartition :=
  order.dedup.filter fun key => (s.buffers key).any (BatchBuffer.shouldFlush config now)

/-- `ready_batches`. -/
def readyBatches (now : Nat) (order : List TopicPartition) : List ReadyBatch :=
  (s.ready config now order).map fun key => ⟨key, s.buffered key⟩

def drain (f : Nat) (commit : Option String) (now : Nat) (order : List TopicPartition) : ProducerState :=
  match s.flushers f with
  | .idle =>
    { s with
      buffers := fun key => if key ∈ s.ready config now order then some (.new now) else s.buffers key
      begun := f :: s.begun }.setFlusher f (.drained commit (s.readyBatches config now order))
  | _ => s

/-- The transaction id is read after the buffers have been drained. -/
def readIds (f : Nat) : ProducerState :=
  match s.flushers f with
  | .drained commit batches => s.setFlusher f (.next commit s.currentTransactionId batches)
  | _ => s

/-- The counter moves past the batch before it is sent. -/
def countUp (batch : ReadyBatch) : ProducerState :=
  let seq := s.sequenceNumbers batch.key
  { s with
    sequenceNumbers := Function.update s.sequenceNumbers batch.key (seq + batch.records.length)
    history := { s.history with
      numbered := s.history.numbered ++ [⟨batch.key, batch.sends.headD 0, seq, batch.records.length⟩] } }

def number (f : Nat) : ProducerState :=
  match s.flushers f with
  | .flushing commit txn (batch :: rest) =>
    if config.idempotent then
      (s.countUp batch).setFlusher f (.sending commit txn (some (s.sequenceNumbers batch.key)) batch rest)
    else s.setFlusher f (.sending commit txn none batch rest)
  | _ => s

/-- The server's check of a batch. -/
def check (baseSequence : Option Int) (batch : ReadyBatch) : Except SequenceError Bool × Option Int :=
  match baseSequence with
  | some base => checkAndUpdateSequence ⟨true, true, true, true, true⟩ (s.lastSequence batch.key) base batch.records.length
  | none => (.ok true, s.lastSequence batch.key)

/-- A request is answered with the offset of its first record, which for a duplicate is said to be 0. -/
def reply (baseSequence : Option Int) (batch : ReadyBatch) (appends : Option Nat) : Option Nat :=
  match (s.check baseSequence batch).1 with
  | .ok true => appends
  | .ok false => some 0
  | .error _ => none

/-- The records that a request appends, with their offsets. -/
def appended (baseSequence : Option Int) (batch : ReadyBatch) (appends : Option Nat) : List (Nat × Nat) :=
  match (s.check baseSequence batch).1, appends with
  | .ok true, some first => batch.sends.zipIdx first
  | _, _ => []

/-- What an agent does with a request that arrives. -/
def arrive (txn : Option String) (baseSequence : Option Int) (batch : ReadyBatch) (appends : Option Nat) : ProducerState :=
  { s with
    lastSequence := Function.update s.lastSequence batch.key (s.check baseSequence batch).2
    history := { s.history with
      transmitted := s.history.transmitted ++ batch.records.map fun r => (r, txn)
      assigned := s.history.assigned ++ s.appended baseSequence batch appends } }

/-- The server's number has moved past the base. -/
def Taken (key : TopicPartition) (base : Int) : Prop := base ≤ (s.lastSequence key).getD (-1)

instance Taken.decidable (key : TopicPartition) (base : Int) : Decidable (s.Taken key base) :=
  inferInstanceAs (Decidable (base ≤ (s.lastSequence key).getD (-1)))

/-- The batch fails for the client. -/
def giveUp (txn : Option String) (baseSequence : Option Int) (batch : ReadyBatch) : ProducerState :=
  { s with
    history := { s.history with
      failed := s.history.failed ++ batch.sends
      dropped := s.history.dropped ++ batch.records.filter fun r => (r, txn) ∉ s.history.transmitted
      lost := s.history.lost ++ (baseSequence.toList.filter fun base => ¬ s.Taken batch.key base).map fun base =>
        ⟨batch.key, batch.sends.headD 0, base, batch.records.length⟩ } }

/-- One round of the retry loop in `send_batch_to_agent`. -/
def attempt (f : Nat) (a : Attempt) : ProducerState :=
  match s.flushers f with
  | .sending commit txn base batch rest =>
    let s' := if a.arrives then s.arrive txn base batch a.appends else s
    match if a.arrives ∧ a.answerArrives then s.reply base batch a.appends else none with
    | some first => s'.setFlusher f (.answered commit txn batch (some first) rest)
    | none =>
      if a.retries then s' else (s'.giveUp txn base batch).setFlusher f (.answered commit txn batch none rest)
  | _ => s

/-- What the first waiting sends of a partition get. -/
def settle (key : TopicPartition) (count : Nat) (outcome : Nat → Receiver) : ProducerState :=
  let popped := (s.pendingRecords key).take count
  { s with
    pendingRecords := Function.update s.pendingRecords key ((s.pendingRecords key).drop count)
    receivers := fun send => ((popped.idxOf? send).map outcome).getD (s.receivers send) }

/-- `notify_pending_offsets`. -/
def notifyPendingOffsets (key : TopicPartition) (firstOffset count : Nat) : ProducerState :=
  s.settle key count fun i => .offset (firstOffset + i)

/-- `fail_pending_offsets`. -/
def failPendingOffsets (key : TopicPartition) (count : Nat) : ProducerState := s.settle key count fun _ => .failed

/-- A `flush()` that returns an error leaves the batches that it has drained behind. -/
def abandon (batches : List ReadyBatch) : ProducerState :=
  { s with history := { s.history with dropped := s.history.dropped ++ batches.flatMap ReadyBatch.records } }

def deliver (f : Nat) : ProducerState :=
  match s.flushers f with
  | .answered commit txn batch (some first) rest =>
    (s.notifyPendingOffsets batch.key first batch.records.length).setFlusher f (.next commit txn rest)
  | .answered commit txn batch none rest =>
    let s' := s.failPendingOffsets batch.key batch.records.length
    if f = 0 then s'.setFlusher f (.next commit txn rest) else (s'.abandon rest).setFlusher f .idle
  | _ => s

def noteCommit (transactionId : String) : ProducerState :=
  { s with history := { s.history with
      commits := s.history.commits ++ [⟨transactionId, s.history.sent, s.history.transmitted⟩] } }

/-- The request of `commit_transaction`. -/
def commitRequest (f : Nat) (succeeds : Bool) : ProducerState :=
  match s.flushers f with
  | .flushed transactionId =>
    if succeeds then (s.noteCommit transactionId).setFlusher f (.committed transactionId) else s.setFlusher f .idle
  | _ => s

def commitEnd (f : Nat) : ProducerState :=
  match s.flushers f with
  | .committed _ => { s with currentTransactionId := none }.setFlusher f .idle
  | _ => s

/-- Calls of `begin_transaction` and `abort_transaction` that fail change nothing. -/
def step : ProducerStep → ProducerState
  | .append key record now => s.append key record now
  | .enqueue send => s.enqueue send
  | .drain f commit now order => s.drain config f commit now order
  | .readIds f => s.readIds f
  | .number f => s.number config f
  | .attempt f a => s.attempt f a
  | .deliver f => s.deliver f
  | .beginTransaction transactionId => { s with currentTransactionId := some transactionId }
  | .commitRequest f succeeds => s.commitRequest f succeeds
  | .commitEnd f => s.commitEnd f
  | .abortTransaction => { s with currentTransactionId := none }

end ProducerState

end StreamHouse.Client
