import StreamHouse.Lib.HashMaps
import StreamHouse.Lib.Run

/-!
# The transaction coordinator

`TransactionCoordinator` (`transaction.rs`): a map of transaction records, and the calls that take a
record through the two phases. The clock is read where the source reads it, for each record anew
where it looks at all of them. A record that is found past its timeout by `prepare` or `commit`
is timed out then and there, with an error.
-/

namespace StreamHouse.Metadata.TransactionCoordinator
open Lib Lib.HashMaps

inductive CoordinatorTransactionState where
  | ongoing
  | preparing
  | committed
  | aborted
  | timedOut
  deriving DecidableEq

namespace CoordinatorTransactionState

def toString : CoordinatorTransactionState → String
  | ongoing => "ongoing"
  | preparing => "preparing"
  | committed => "committed"
  | aborted => "aborted"
  | timedOut => "timed_out"

/-- `is_terminal`. -/
def isTerminal : CoordinatorTransactionState → Bool
  | committed | aborted | timedOut => true
  | ongoing | preparing => false

end CoordinatorTransactionState

inductive TransactionCoordinatorError where
  | transactionNotFound (transactionId : String)
  | invalidStateTransition (source target : String)
  | transactionTimedOut (transactionId : String)
  | duplicatePartition (transactionId topic : String) (partitionId : Nat)
  | prepareFailed (message : String)
  deriving DecidableEq

structure TransactionPartition where
  topic : String
  partitionId : Nat
  firstOffset : Nat
  lastOffset : Nat
  deriving DecidableEq

/-- Instants and durations are in nanoseconds. -/
structure TransactionRecord where
  id : String
  producerId : String
  state : CoordinatorTransactionState
  partitions : List TransactionPartition
  startedAt : Nat
  timeout : Nat
  prepareTimestamp : Option Nat
  deriving DecidableEq

/-- `is_timed_out`. -/
def TransactionRecord.isTimedOut (record : TransactionRecord) (now : Nat) : Bool := record.timeout < now - record.startedAt

abbrev Transactions := AList fun _ : String => TransactionRecord

/-- What the calls that change one transaction make of its record. Where it is an error, the record may have
been changed before. -/
abbrev Change (β : Type) := TransactionRecord → TransactionRecord × Except TransactionCoordinatorError β

/-- `txns.get_mut(transaction_id)`, and a change of what is there. -/
def onRecord {β : Type} (txns : Transactions) (transactionId : String) (change : Change β) :
    Transactions × Except TransactionCoordinatorError β :=
  match txns.lookup transactionId with
  | none => (txns, .error (.transactionNotFound transactionId))
  | some record => (txns.insert transactionId (change record).1, (change record).2)

/-- `begin`. -/
def begin (timeout : Nat) (txns : Transactions) (transactionId producerId : String) (now : Nat) :
    Transactions × Except TransactionCoordinatorError String :=
  if transactionId ∈ txns then (txns, .error (.invalidStateTransition "new" "already exists"))
  else (txns.insert transactionId ⟨transactionId, producerId, .ongoing, [], now, timeout, none⟩, .ok transactionId)

def addPartition (transactionId : String) (partition : TransactionPartition) : Change Unit := fun record =>
  if record.state ≠ .ongoing then
    (record, .error (.invalidStateTransition record.state.toString "add_partition (requires ongoing)"))
  else if record.partitions.any fun p => p.topic = partition.topic && p.partitionId = partition.partitionId then
    (record, .error (.duplicatePartition transactionId partition.topic partition.partitionId))
  else ({ record with partitions := record.partitions ++ [partition] }, .ok ())

/-- The clock is read once for the timeout and once for the timestamp. -/
def prepare (transactionId : String) (now stamp : Nat) : Change Unit := fun record =>
  if record.state ≠ .ongoing then (record, .error (.invalidStateTransition record.state.toString "preparing"))
  else if record.isTimedOut now then ({ record with state := .timedOut }, .error (.transactionTimedOut transactionId))
  else if record.partitions = [] then (record, .error (.prepareFailed "No partitions enrolled in transaction"))
  else ({ record with state := .preparing, prepareTimestamp := some stamp }, .ok ())

def commit (transactionId : String) (now : Nat) : Change (List TransactionPartition) := fun record =>
  if record.state ≠ .preparing then (record, .error (.invalidStateTransition record.state.toString "committed"))
  else if record.isTimedOut now then ({ record with state := .timedOut }, .error (.transactionTimedOut transactionId))
  else ({ record with state := .committed }, .ok record.partitions)

def abort : Change (List TransactionPartition) := fun record =>
  match record.state with
  | .ongoing | .preparing => ({ record with state := .aborted }, .ok record.partitions)
  | _ => (record, .error (.invalidStateTransition record.state.toString "aborted"))

/-- Whether `check_timeouts` times a record out. -/
def timesOut (clock : String → Nat) (id : String) (record : TransactionRecord) : Bool :=
  record.isTimedOut (clock id) && record.state ≠ .committed && record.state ≠ .aborted && record.state ≠ .timedOut

/-- `check_timeouts`, with the ids of those that were timed out, in some order. -/
def checkTimeouts (txns : Transactions) (clock : String → Nat) : Transactions × List String :=
  (mapValues (fun id record => if timesOut clock id record then { record with state := .timedOut } else record) txns,
    txns.keys.filter fun id => (txns.lookup id).any (timesOut clock id))

/-- `recover_pending`, with the ids of those that were recovered, in some order. -/
def recoverPending (txns : Transactions) : Transactions × List String :=
  (mapValues (fun _ record => if record.state = .preparing then { record with state := .aborted } else record) txns,
    txns.keys.filter fun id => (txns.lookup id).any fun record => record.state = .preparing)

/-- `cleanup_completed`, with the number of those that were removed. -/
def cleanupCompleted (txns : Transactions) (olderThan : Nat) (clock : String → Nat) : Transactions × Nat :=
  let retained := filterValues (fun record => !record.state.isTerminal || clock record.id - record.startedAt ≤ olderThan) txns
  (retained, txns.entries.length - retained.entries.length)

/-- The calls, with their arguments and what the clock reads. -/
inductive Call where
  | begin (transactionId producerId : String) (now : Nat)
  | addPartition (transactionId : String) (partition : TransactionPartition)
  | prepare (transactionId : String) (now stamp : Nat)
  | commit (transactionId : String) (now : Nat)
  | abort (transactionId : String)
  | checkTimeouts (clock : String → Nat)
  | recoverPending
  | cleanupCompleted (olderThan : Nat) (clock : String → Nat)

/-- The records after a call. -/
def step (timeout : Nat) (txns : Transactions) : Call → Transactions
  | .begin transactionId producerId now => (begin timeout txns transactionId producerId now).1
  | .addPartition transactionId partition => (onRecord txns transactionId (addPartition transactionId partition)).1
  | .prepare transactionId now stamp => (onRecord txns transactionId (prepare transactionId now stamp)).1
  | .commit transactionId now => (onRecord txns transactionId (commit transactionId now)).1
  | .abort transactionId => (onRecord txns transactionId abort).1
  | .checkTimeouts clock => (checkTimeouts txns clock).1
  | .recoverPending => (recoverPending txns).1
  | .cleanupCompleted olderThan clock => (cleanupCompleted txns olderThan clock).1

def errorOf {β : Type} : Except TransactionCoordinatorError β → Option TransactionCoordinatorError
  | .error e => some e
  | .ok _ => none

/-- The error that a call returns; the last three cannot fail. -/
def error (timeout : Nat) (txns : Transactions) : Call → Option TransactionCoordinatorError
  | .begin transactionId producerId now => errorOf (begin timeout txns transactionId producerId now).2
  | .addPartition transactionId partition => errorOf (onRecord txns transactionId (addPartition transactionId partition)).2
  | .prepare transactionId now stamp => errorOf (onRecord txns transactionId (prepare transactionId now stamp)).2
  | .commit transactionId now => errorOf (onRecord txns transactionId (commit transactionId now)).2
  | .abort transactionId => errorOf (onRecord txns transactionId abort).2
  | .checkTimeouts _ | .recoverPending | .cleanupCompleted _ _ => none

/-- The records of a coordinator made with a timeout, after calls. -/
abbrev after (timeout : Nat) (calls : List Call) : Transactions := run (step timeout) ∅ calls

/-! ## What a call does to one transaction -/

/-- What a call can make of the record of an id, and with which error. -/
inductive Moved (call : Call) (id : String) (failed : Option TransactionCoordinatorError) :
    Option TransactionRecord → Option TransactionRecord → Prop where
  | same (record : Option TransactionRecord) : Moved call id failed record record
  | begun (producerId : String) (now timeout : Nat) (fine : failed = none) :
      Moved call id failed none (some ⟨id, producerId, .ongoing, [], now, timeout, none⟩)
  | enrolled (record : TransactionRecord) (partition : TransactionPartition) (fine : failed = none) (ongoing : record.state = .ongoing) :
      Moved call id failed (some record) (some { record with partitions := record.partitions ++ [partition] })
  | prepared (record : TransactionRecord) (now stamp : Nat) (called : call = .prepare id now stamp) (fine : failed = none)
      (ongoing : record.state = .ongoing) :
      Moved call id failed (some record) (some { record with state := .preparing, prepareTimestamp := some stamp })
  | committed (record : TransactionRecord) (fine : failed = none) (preparing : record.state = .preparing) :
      Moved call id failed (some record) (some { record with state := .committed })
  | aborted (record : TransactionRecord) (fine : failed = none) (active : record.state.isTerminal = false) :
      Moved call id failed (some record) (some { record with state := .aborted })
  | timedOut (record : TransactionRecord) (active : record.state.isTerminal = false)
      (told : failed = none ∨ failed = some (.transactionTimedOut id)) :
      Moved call id failed (some record) (some { record with state := .timedOut })
  | removed (record : TransactionRecord) (olderThan : Nat) (clock : String → Nat) (called : call = .cleanupCompleted olderThan clock)
      (fine : failed = none) (terminal : record.state.isTerminal = true) : Moved call id failed (some record) none
variable {timeout : Nat} {txns : Transactions} {call : Call}

/-- A change of one record leaves the others as they are. -/
theorem moved_onRecord {β : Type} {transactionId : String} {change : Change β}
    (one : ∀ record, Moved call transactionId (errorOf (change record).2) (some record) (some (change record).1)) (id : String) :
    Moved call id (errorOf (onRecord txns transactionId change).2) (txns.lookup id) ((onRecord txns transactionId change).1.lookup id) := by
  unfold onRecord
  cases found : txns.lookup transactionId with
  | none => exact .same _
  | some record =>
    dsimp only
    by_cases itself : id = transactionId
    · rw [itself, AList.lookup_insert, found]
      exact one record
    · rw [AList.lookup_insert_ne itself]
      exact .same _

theorem moved_begin (transactionId producerId : String) (now : Nat) (id : String) :
    Moved call id (errorOf (begin timeout txns transactionId producerId now).2) (txns.lookup id)
      ((begin timeout txns transactionId producerId now).1.lookup id) := by
  unfold begin
  split
  · exact .same _
  · next absent =>
    dsimp only
    by_cases itself : id = transactionId
    · rw [itself, AList.lookup_insert, AList.lookup_eq_none.mpr absent]
      exact .begun producerId now timeout rfl
    · rw [AList.lookup_insert_ne itself]
      exact .same _

theorem moved_addPartition (transactionId : String) (partition : TransactionPartition) (record : TransactionRecord) :
    Moved call transactionId (errorOf (addPartition transactionId partition record).2) (some record)
      (some (addPartition transactionId partition record).1) := by
  unfold addPartition
  split
  · exact .same _
  · next ongoing =>
    split
    · exact .same _
    · exact .enrolled record partition rfl (not_not.mp ongoing)

theorem moved_prepare (transactionId : String) (now stamp : Nat) (record : TransactionRecord) :
    Moved (.prepare transactionId now stamp) transactionId (errorOf (prepare transactionId now stamp record).2) (some record)
      (some (prepare transactionId now stamp record).1) := by
  unfold prepare
  split
  · exact .same _
  · next other =>
    have ongoing := not_not.mp other
    split
    · exact .timedOut record (by rw [ongoing]; rfl) (.inr rfl)
    · split
      · exact .same _
      · exact .prepared record now stamp rfl rfl ongoing

theorem moved_commit (transactionId : String) (now : Nat) (record : TransactionRecord) :
    Moved call transactionId (errorOf (commit transactionId now record).2) (some record) (some (commit transactionId now record).1) := by
  unfold commit
  split
  · exact .same _
  · next other =>
    have preparing := not_not.mp other
    split
    · exact .timedOut record (by rw [preparing]; rfl) (.inr rfl)
    · exact .committed record rfl preparing

theorem moved_abort (transactionId : String) (record : TransactionRecord) :
    Moved call transactionId (errorOf (abort record).2) (some record) (some (abort record).1) := by
  unfold abort
  split
  · next ongoing => exact .aborted record rfl (by rw [ongoing]; rfl)
  · next preparing => exact .aborted record rfl (by rw [preparing]; rfl)
  · exact .same _

theorem moved_checkTimeouts (clock : String → Nat) (id : String) :
    Moved call id none (txns.lookup id) ((checkTimeouts txns clock).1.lookup id) := by
  rw [checkTimeouts, lookup_mapValues]
  cases txns.lookup id with
  | none => exact .same _
  | some record =>
    rw [Option.map_some]
    split
    · next late =>
      refine .timedOut record ?_ (.inl rfl)
      cases state : record.state <;> simp_all [timesOut, CoordinatorTransactionState.isTerminal]
    · exact .same _

theorem moved_recoverPending (id : String) : Moved call id none (txns.lookup id) ((recoverPending txns).1.lookup id) := by
  rw [recoverPending, lookup_mapValues]
  cases txns.lookup id with
  | none => exact .same _
  | some record =>
    rw [Option.map_some]
    split
    · next preparing => exact .aborted record rfl (by rw [preparing]; rfl)
    · exact .same _

theorem moved_cleanupCompleted (olderThan : Nat) (clock : String → Nat) (id : String) :
    Moved (.cleanupCompleted olderThan clock) id none (txns.lookup id) ((cleanupCompleted txns olderThan clock).1.lookup id) := by
  rw [cleanupCompleted, lookup_filterValues]
  cases txns.lookup id with
  | none => exact .same _
  | some record =>
    rw [Option.filter_some]
    split
    · exact .same _
    · next dropped =>
      refine .removed record olderThan clock rfl rfl ?_
      cases terminal : record.state.isTerminal with
      | true => rfl
      | false => exact absurd (by rw [terminal]; rfl) dropped

/-- **What a call does**, to any transaction. -/
theorem moved_step (timeout : Nat) (txns : Transactions) (call : Call) (id : String) :
    Moved call id (error timeout txns call) (txns.lookup id) ((step timeout txns call).lookup id) := by
  cases call with
  | begin transactionId producerId now => exact moved_begin transactionId producerId now id
  | addPartition transactionId partition => exact moved_onRecord (moved_addPartition transactionId partition) id
  | prepare transactionId now stamp => exact moved_onRecord (moved_prepare transactionId now stamp) id
  | commit transactionId now => exact moved_onRecord (moved_commit transactionId now) id
  | abort transactionId => exact moved_onRecord (moved_abort transactionId) id
  | checkTimeouts clock => exact moved_checkTimeouts clock id
  | recoverPending => exact moved_recoverPending id
  | cleanupCompleted olderThan clock => exact moved_cleanupCompleted olderThan clock id

end StreamHouse.Metadata.TransactionCoordinator
