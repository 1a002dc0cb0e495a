import Mathlib.Data.List.Sort
import Mathlib.Data.String.Basic

/-!
# The metadata store: transactions

The tables `transactions`, `transaction_partitions` and `partition_lso` of
`SqliteMetadataStore` (`store.rs`) and the statements on them. Ending a transaction
reads its partitions and then, in one database transaction, changes its state and
raises the last stable offset of each partition to the offset after its own last
one. Ids and topics stand between quotes in these statements, as they are: the model
is for texts that are `QuoteFree`.
-/

namespace StreamHouse.Metadata

/-- A text without a quote, behind which it would go on as SQL. -/
def QuoteFree (text : String) : Prop := Char.ofNat 39 ∉ text.toList

instance (text : String) : Decidable (QuoteFree text) := inferInstanceAs (Decidable (¬ _))

abbrev TransactionId := String

inductive TransactionState where
  | ongoing
  | preparing
  | committed
  | aborted
deriving DecidableEq

inductive TransactionMarkerType where
  | commit
  | abort
deriving DecidableEq

/-- The state a transaction is in once it has ended this way. -/
def TransactionMarkerType.state : TransactionMarkerType → TransactionState
  | .commit => .committed
  | .abort => .aborted

/-- The primary key of `partition_lso`. No organization is part of it. -/
structure TopicPartition where
  topic : String
  partitionId : Nat
deriving DecidableEq

/-- A row of `transaction_partitions`. -/
structure TransactionPartition where
  key : TopicPartition
  firstOffset : Nat
  lastOffset : Nat
deriving DecidableEq

/-- A row of `transactions` with the rows of `transaction_partitions` that refer to it. -/
structure Transaction where
  organizationId : Option String
  state : TransactionState
  partitions : List TransactionPartition
deriving DecidableEq

inductive TransactionError where
  | uniqueViolation
  | foreignKeyViolation
  | notFoundForOrganization (id : TransactionId) (orgId : String)
  | notOngoing (id : TransactionId)
  | cannotBeEnded (id : TransactionId) (marker : TransactionMarkerType)

/-- The `_for_org` variants, with `scope = some org_id`, look at the rows of that organization only. -/
def Transaction.Visible (t : Transaction) (scope : Option String) : Prop :=
  scope = none ∨ t.organizationId = scope

instance (t : Transaction) (scope : Option String) : Decidable (t.Visible scope) :=
  inferInstanceAs (Decidable (_ ∨ _))

/-- `INSERT INTO transaction_partitions … ON CONFLICT DO NOTHING`. -/
def Transaction.enroll (t : Transaction) (key : TopicPartition) (firstOffset : Nat) : Transaction :=
  if t.partitions.any (fun p => p.key == key) then t
  else { t with partitions := t.partitions ++ [⟨key, firstOffset, firstOffset⟩] }

/-- `ORDER BY topic, partition_id`. -/
def TransactionPartition.Before (p q : TransactionPartition) : Prop :=
  p.key.topic < q.key.topic ∨ p.key.topic = q.key.topic ∧ p.key.partitionId ≤ q.key.partitionId

instance (p q : TransactionPartition) : Decidable (p.Before q) :=
  inferInstanceAs (Decidable (_ ∨ _))

structure TransactionStore where
  transactions : TransactionId → Option Transaction
  /-- `partition_lso.last_stable_offset`, for the partitions that have a row. -/
  partitionLso : TopicPartition → Option Nat

namespace TransactionStore

/-! ## The statements -/

def setTransaction (m : TransactionStore) (id : TransactionId) (t : Transaction) : TransactionStore :=
  { m with transactions := Function.update m.transactions id (some t) }

def setLso (m : TransactionStore) (k : TopicPartition) (lso : Nat) : TransactionStore :=
  { m with partitionLso := Function.update m.partitionLso k (some lso) }

/-- `begin_transaction`: always a new row, under the identifier drawn for it. -/
def beginTransaction (m : TransactionStore) (id : TransactionId) (organizationId : Option String) :
    Except TransactionError TransactionStore :=
  if (m.transactions id).isSome then .error .uniqueViolation
  else .ok (m.setTransaction id ⟨organizationId, .ongoing, []⟩)

/-- `add_transaction_partition`; the state of the transaction is not looked at. -/
def addTransactionPartition (m : TransactionStore) (id : TransactionId) (key : TopicPartition) (firstOffset : Nat) :
    Except TransactionError TransactionStore :=
  match m.transactions id with
  | some t => .ok (m.setTransaction id (t.enroll key firstOffset))
  | none => .error .foreignKeyViolation

/-- `add_transaction_partition_for_org`. -/
def addTransactionPartitionForOrg (m : TransactionStore) (orgId : String) (id : TransactionId) (key : TopicPartition)
    (firstOffset : Nat) : Except TransactionError TransactionStore :=
  match m.transactions id with
  | some t =>
    if t.organizationId = some orgId then m.addTransactionPartition id key firstOffset
    else .error (.notFoundForOrganization id orgId)
  | none => .error (.notFoundForOrganization id orgId)

/-- `update_transaction_partition_offset`: no row, no effect. -/
def updateTransactionPartitionOffset (m : TransactionStore) (id : TransactionId) (key : TopicPartition) (lastOffset : Nat) :
    TransactionStore :=
  match m.transactions id with
  | some t =>
    m.setTransaction id { t with partitions := t.partitions.map fun p => if p.key = key then { p with lastOffset } else p }
  | none => m

/-- `get_transaction_partitions`. -/
def getTransactionPartitions (m : TransactionStore) (id : TransactionId) : List TransactionPartition :=
  match m.transactions id with
  | some t => t.partitions.insertionSort TransactionPartition.Before
  | none => []

/-- `get_transaction_partitions_for_org`. -/
def getTransactionPartitionsForOrg (m : TransactionStore) (orgId : String) (id : TransactionId) : List TransactionPartition :=
  match m.transactions id with
  | some t => if t.organizationId = some orgId then m.getTransactionPartitions id else []
  | none => []

/-- `prepare_transaction`. -/
def prepareTransaction (m : TransactionStore) (scope : Option String) (id : TransactionId) :
    Except TransactionError TransactionStore :=
  match m.transactions id with
  | some t =>
    if t.Visible scope ∧ t.state = .ongoing then .ok (m.setTransaction id { t with state := .preparing })
    else .error (.notOngoing id)
  | none => .error (.notOngoing id)

/-- `get_last_stable_offset`. -/
def getLastStableOffset (m : TransactionStore) (k : TopicPartition) : Nat := (m.partitionLso k).getD 0

/-- `update_last_stable_offset`: set to the value given, whatever it was. -/
def updateLastStableOffset (m : TransactionStore) (k : TopicPartition) (lso : Nat) : TransactionStore := m.setLso k lso

/-- The upsert of a commit or an abort, with `MAX`. -/
def raiseLso (m : TransactionStore) (p : TransactionPartition) : TransactionStore :=
  m.setLso p.key (match m.partitionLso p.key with
    | some lso => max lso (p.lastOffset + 1)
    | none => p.lastOffset + 1)

/-- The database transaction of `commit_transaction` and `abort_transaction`, with the
partitions read before it. -/
def endTransaction (m : TransactionStore) (marker : TransactionMarkerType) (scope : Option String) (id : TransactionId)
    (partitions : List TransactionPartition) : Except TransactionError TransactionStore :=
  match m.transactions id with
  | some t =>
    if t.Visible scope ∧ (t.state = .ongoing ∨ t.state = .preparing) then
      .ok (partitions.foldl raiseLso (m.setTransaction id { t with state := marker.state }))
    else .error (.cannotBeEnded id marker)
  | none => .error (.cannotBeEnded id marker)

/-- The store after a statement, unchanged if it failed. -/
def settle (m : TransactionStore) : Except TransactionError TransactionStore → TransactionStore
  | .ok m' => m'
  | .error _ => m

end TransactionStore

/-! ## What the statements leave -/

namespace TransactionStore

theorem setTransaction_self (m : TransactionStore) (id : TransactionId) (t : Transaction) :
    (m.setTransaction id t).transactions id = some t :=
  Function.update_self _ _ _

variable {m : TransactionStore} {id : TransactionId} {scope : Option String}

theorem setTransaction_of_ne {other : TransactionId} (different : other ≠ id) (t : Transaction) :
    (m.setTransaction id t).transactions other = m.transactions other :=
  Function.update_of_ne different _ _

theorem setLso_self (m : TransactionStore) (k : TopicPartition) (lso : Nat) : (m.setLso k lso).getLastStableOffset k = lso := by
  simp [setLso, getLastStableOffset]

theorem setLso_of_ne {k other : TopicPartition} (different : other ≠ k) (lso : Nat) :
    (m.setLso k lso).getLastStableOffset other = m.getLastStableOffset other := by
  simp [setLso, getLastStableOffset, Function.update_of_ne different]

theorem raiseLso_self (m : TransactionStore) (p : TransactionPartition) :
    (m.raiseLso p).getLastStableOffset p.key = max (m.getLastStableOffset p.key) (p.lastOffset + 1) := by
  rw [raiseLso, setLso_self, getLastStableOffset]
  cases m.partitionLso p.key with
  | some lso => rfl
  | none => exact (Nat.zero_max _).symm

/-- The offset after the upserts is the least one above what was stored and what each sets. -/
theorem foldl_raiseLso_le_iff {partitions : List TransactionPartition} {k : TopicPartition} {bound : Nat} :
    (partitions.foldl raiseLso m).getLastStableOffset k ≤ bound ↔
      m.getLastStableOffset k ≤ bound ∧ ∀ p ∈ partitions, p.key = k → p.lastOffset + 1 ≤ bound := by
  induction partitions generalizing m with
  | nil => simp
  | cons p partitions ih =>
    rw [List.foldl_cons, ih, List.forall_mem_cons]
    by_cases same : p.key = k
    · subst same
      rw [raiseLso_self, Nat.max_le, forall_prop_of_true rfl, and_assoc]
    · have kept : (m.raiseLso p).getLastStableOffset k = m.getLastStableOffset k := setLso_of_ne (Ne.symm same) _
      rw [kept]
      simp only [same, false_implies, true_and]

theorem le_foldl_raiseLso (partitions : List TransactionPartition) (m : TransactionStore) (k : TopicPartition) :
    m.getLastStableOffset k ≤ (partitions.foldl raiseLso m).getLastStableOffset k :=
  (foldl_raiseLso_le_iff.1 (Nat.le_refl _)).1

theorem foldl_raiseLso_transactions (partitions : List TransactionPartition) (m : TransactionStore) :
    (partitions.foldl raiseLso m).transactions = m.transactions := by
  induction partitions generalizing m with
  | nil => rfl
  | cons p partitions ih => rw [List.foldl_cons, ih]; rfl

/-! ## Ending a transaction in one go -/

/-- The store after `commit_transaction` or `abort_transaction`. -/
def ended (m : TransactionStore) (marker : TransactionMarkerType) (scope : Option String) (id : TransactionId) : TransactionStore :=
  m.settle (m.endTransaction marker scope id (m.getTransactionPartitions id))

/-- Whether the call changes the row. -/
def Ends (scope : Option String) (t : Transaction) : Prop := t.Visible scope ∧ (t.state = .ongoing ∨ t.state = .preparing)

instance (scope : Option String) (t : Transaction) : Decidable (Ends scope t) := inferInstanceAs (Decidable (_ ∧ _))

theorem idle_or_ends (m : TransactionStore) (scope : Option String) (id : TransactionId) :
    (∀ t, m.transactions id = some t → ¬ Ends scope t) ∨ ∃ t, m.transactions id = some t ∧ Ends scope t := by
  by_cases ends : ∃ t, m.transactions id = some t ∧ Ends scope t
  · exact .inr ends
  · exact .inl fun t present yes => ends ⟨t, present, yes⟩

theorem ended_of_not (idle : ∀ t, m.transactions id = some t → ¬ Ends scope t) (marker : TransactionMarkerType) : m.ended marker scope id = m := by
  unfold ended endTransaction
  cases present : m.transactions id with
  | none => rfl
  | some t =>
    have refused : ¬ (t.Visible scope ∧ (t.state = .ongoing ∨ t.state = .preparing)) := idle t present
    simp only [refused, if_false]
    rfl

theorem ended_of_ends {t : Transaction}
    (present : m.transactions id = some t) (ends : Ends scope t) (marker : TransactionMarkerType) :
    m.ended marker scope id =
      (m.getTransactionPartitions id).foldl raiseLso (m.setTransaction id { t with state := marker.state }) := by
  have taken : t.Visible scope ∧ (t.state = .ongoing ∨ t.state = .preparing) := ends
  unfold ended endTransaction
  simp only [present, taken, and_self, if_true]
  rfl

theorem ended_row (m : TransactionStore) (marker : TransactionMarkerType) (scope : Option String) (id : TransactionId) :
    (m.ended marker scope id).transactions id =
      (m.transactions id).map fun t => if Ends scope t then { t with state := marker.state } else t := by
  obtain idle | ⟨t, present, ends⟩ := idle_or_ends m scope id
  · rw [ended_of_not idle]
    cases present : m.transactions id with
    | none => rfl
    | some t => rw [Option.map_some, if_neg (idle t present)]
  · rw [ended_of_ends present ends, foldl_raiseLso_transactions, setTransaction_self, present, Option.map_some, if_pos ends]

theorem ended_of_ne {other : TransactionId} (different : other ≠ id) (marker : TransactionMarkerType)
    (scope : Option String) : (m.ended marker scope id).transactions other = m.transactions other := by
  obtain idle | ⟨t, present, ends⟩ := idle_or_ends m scope id
  · rw [ended_of_not idle]
  · rw [ended_of_ends present ends, foldl_raiseLso_transactions, setTransaction_of_ne different]

/-- An end leaves every transaction its partitions. -/
theorem mem_of_ended {marker : TransactionMarkerType} {other : TransactionId} {t : Transaction} {p : TransactionPartition}
    (present : (m.ended marker scope id).transactions other = some t) (member : p ∈ t.partitions) :
    ∃ row, m.transactions other = some row ∧ p ∈ row.partitions := by
  by_cases same : other = id
  · subst same
    rw [ended_row] at present
    obtain ⟨row, found, rfl⟩ := Option.map_eq_some_iff.1 present
    refine ⟨row, found, ?_⟩
    split at member <;> exact member
  · rw [ended_of_ne same] at present
    exact ⟨t, present, member⟩

/-- The last stable offset after the call is the least one above the stored one and above the
records of the transaction, if it ends. -/
theorem ended_lso_le_iff {marker : TransactionMarkerType} {k : TopicPartition} {bound : Nat} :
    (m.ended marker scope id).getLastStableOffset k ≤ bound ↔
      m.getLastStableOffset k ≤ bound ∧
        ∀ t, m.transactions id = some t → Ends scope t → ∀ p ∈ t.partitions, p.key = k → p.lastOffset + 1 ≤ bound := by
  obtain idle | ⟨t, present, ends⟩ := idle_or_ends m scope id
  · rw [ended_of_not idle]
    refine (and_iff_left ?_).symm
    intro t present ends
    exact absurd ends (idle t present)
  · have sorted : ∀ p, p ∈ m.getTransactionPartitions id ↔ p ∈ t.partitions := by
      intro p
      rw [getTransactionPartitions, present]
      exact List.mem_insertionSort _
    rw [ended_of_ends present ends, foldl_raiseLso_le_iff]
    refine and_congr_right fun _ => ?_
    constructor
    · intro raised row found _ p member
      obtain rfl := Option.some.inj (present.symm.trans found)
      exact raised p ((sorted p).2 member)
    · intro raised p member
      exact raised t present ends p ((sorted p).1 member)

theorem le_ended_lso (m : TransactionStore) (marker : TransactionMarkerType) (scope : Option String) (id : TransactionId)
    (k : TopicPartition) : m.getLastStableOffset k ≤ (m.ended marker scope id).getLastStableOffset k :=
  (ended_lso_le_iff.1 (Nat.le_refl _)).1

end TransactionStore

end StreamHouse.Metadata
