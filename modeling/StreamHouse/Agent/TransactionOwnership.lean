import StreamHouse.Agent.ProducerEpochs

/-!
# Who ends a transaction

The transaction requests of the agent's producer service (`grpc_service.rs`), one
statement at a time with the statements of other requests in between. A commit or
an abort looks up the producer it names and compares the epochs, then ends the
transaction it names, whose `producer_id` is not read. A produce request enrolls
its partition in the transaction it names without a look at either.
-/

namespace StreamHouse.Agent
open Lib Metadata Option Function TransactionPartition TransactionStore

/-- The producer id and the epoch that a request carries. -/
structure ProducerRef where
  producerId : String
  producerEpoch : Nat
deriving DecidableEq

/-- What a request fails with. -/
inductive TransactionStatus where
  | unknownProducer (producerId : String)
  | producerLookup
  | epochMismatch (expected got : Nat)
  | notActive (producerId : String)
  | database
  | store (e : TransactionError)

inductive TransactionAnswer where
  | begun (id : TransactionId)
  | ended (id : TransactionId) (marker : TransactionMarkerType)
  | produced (answer : Answer)
  | failed (status : TransactionStatus)

/-- A `ProduceRequest`, the offset its records get and how the agent and the stores fare with it. -/
structure TransactionalProduce where
  who : Option ProducerRef
  baseSequence : Int
  key : TopicPartition
  records : BatchRecords
  transactionId : Option TransactionId
  durable : Bool
  env : AgentEnv
  sequence : SequenceEnv
  baseOffset : Nat
deriving DecidableEq

/-- A request before its next statement, with what it has read. -/
inductive TransactionCall where
  | beginTransaction (who : ProducerRef) (freshId : TransactionId)
  | beginInsert (who : ProducerRef) (freshId : TransactionId)
  | endTransaction (marker : TransactionMarkerType) (who : ProducerRef) (id : TransactionId)
  | endRead (marker : TransactionMarkerType) (who : ProducerRef) (id : TransactionId)
  | endWrite (marker : TransactionMarkerType) (who : ProducerRef) (id : TransactionId) (partitions : List TransactionPartition)
  | produce (r : TransactionalProduce)
  | addPartition (id : TransactionId) (key : TopicPartition) (baseOffset lastOffset : Nat)
  | updateOffset (id : TransactionId) (key : TopicPartition) (lastOffset : Nat)

/-- The tables, and who began each transaction: its `producer_id` and the epoch of the request. -/
structure TransactionTables where
  producers : ProducerStore
  store : TransactionStore
  begunBy : TransactionId → Option ProducerRef

/-- The check of the producer in `begin_transaction`, `commit_transaction` and `abort_transaction`. -/
def checkProducer (s : ProducerStore) (who : ProducerRef) : Except TransactionStatus ProducerRow :=
  match s.getProducer who.producerId with
  | none => .error (.unknownProducer who.producerId)
  | some row => if row.epoch ≠ who.producerEpoch then .error (.epochMismatch row.epoch who.producerEpoch) else .ok row

/-- `produce` up to its answer, as `Agent.Idempotence` has it; and the stored sequence after it. -/
def TransactionTables.produce (s : TransactionTables) (lookup : Bool) (r : TransactionalProduce) : TransactionTables × Answer :=
  match r.who with
  | none => (s, (Agent.produce r.env r.durable r.key.topic r.records (fun stored => (.ok true, stored)) none).answer)
  | some who =>
    let producer := if lookup then .ok ((s.producers.getProducer who.producerId).map ProducerRow.producer) else .error ()
    let produced := Agent.produce r.env r.durable r.key.topic r.records
      (validateIdempotent producer who.producerEpoch r.sequence r.baseSequence r.records.length)
      (s.producers.sequences (who.producerId, r.key))
    ({ s with producers :=
        { s.producers with sequences := update s.producers.sequences (who.producerId, r.key) produced.stored } },
      produced.answer)

/-- The next statement of a request, and whether the database carries it out. -/
def TransactionCall.next (s : TransactionTables) (carriedOut : Bool) :
    TransactionCall → TransactionTables × (TransactionCall ⊕ TransactionAnswer)
  | .beginTransaction who freshId =>
    if carriedOut then
      match checkProducer s.producers who with
      | .ok row => if row.state ≠ .active then (s, .inr (.failed (.notActive who.producerId))) else (s, .inl (.beginInsert who freshId))
      | .error status => (s, .inr (.failed status))
    else (s, .inr (.failed .producerLookup))
  | .beginInsert who freshId =>
    if carriedOut then
      match s.store.beginTransaction freshId none with
      | .ok store => ({ s with store, begunBy := update s.begunBy freshId (some who) }, .inr (.begun freshId))
      | .error e => (s, .inr (.failed (.store e)))
    else (s, .inr (.failed .database))
  | .endTransaction marker who id =>
    if carriedOut then
      match checkProducer s.producers who with
      | .ok _ => (s, .inl (.endRead marker who id))
      | .error status => (s, .inr (.failed status))
    else (s, .inr (.failed .producerLookup))
  | .endRead marker who id =>
    if carriedOut then (s, .inl (.endWrite marker who id (s.store.getTransactionPartitions id)))
    else (s, .inr (.failed .database))
  | .endWrite marker _ id partitions =>
    if carriedOut then
      match s.store.endTransaction marker none id partitions with
      | .ok store => ({ s with store }, .inr (.ended id marker))
      | .error e => (s, .inr (.failed (.store e)))
    else (s, .inr (.failed .database))
  | .produce r =>
    let (s, answer) := s.produce carriedOut r
    match answer, r.transactionId with
    | .success, some id => (s, .inl (.addPartition id r.key r.baseOffset (r.baseOffset + r.records.length - 1)))
    | _, _ => (s, .inr (.produced answer))
  | .addPartition id key baseOffset lastOffset =>
    -- a failure is logged, and the offset is updated all the same
    (if carriedOut then { s with store := s.store.settle (s.store.addTransactionPartition id key baseOffset) } else s,
      .inl (.updateOffset id key lastOffset))
  | .updateOffset id key lastOffset =>
    (if carriedOut then { s with store := s.store.updateTransactionPartitionOffset id key lastOffset } else s,
      .inr (.produced .success))

/-- What producers ask for. -/
inductive TransactionRequest where
  | beginTransaction (who : ProducerRef) (freshId : TransactionId)
  | commitTransaction (who : ProducerRef) (id : TransactionId)
  | abortTransaction (who : ProducerRef) (id : TransactionId)
  | produce (r : TransactionalProduce)
deriving DecidableEq

def TransactionRequest.call : TransactionRequest → TransactionCall
  | .beginTransaction who freshId => .beginTransaction who freshId
  | .commitTransaction who id => .endTransaction .commit who id
  | .abortTransaction who id => .endTransaction .abort who id
  | .produce r => .produce r

/-- What a request puts into SQL as it is. -/
def TransactionRequest.texts : TransactionRequest → List String
  | .beginTransaction who id | .commitTransaction who id | .abortTransaction who id => [who.producerId, id]
  | .produce r => r.key.topic :: ((r.who.map ProducerRef.producerId).toList ++ r.transactionId.toList)

structure TransactionService where
  tables : TransactionTables
  calls : List TransactionCall

/-- No text that gets into SQL has a quote in it. -/
inductive ServiceEvent where
  | start (r : TransactionRequest) (plain : ∀ t ∈ r.texts, QuoteFree t)
  /-- The next statement of the request at this place in the list. -/
  | proceed (i : Nat) (carriedOut : Bool)
  /-- `init_producer`, or another request's check of its sequence. -/
  | producer (call : ProducerCall)
deriving DecidableEq

namespace TransactionService

def advance (s : TransactionService) (i : Nat) (carriedOut : Bool) (c : TransactionCall) : TransactionService :=
  let (tables, rest) := c.next s.tables carriedOut
  { tables := tables
    calls := match rest with
      | .inl c => s.calls.set i c
      | .inr _ => s.calls.eraseIdx i }

def step (s : TransactionService) : ServiceEvent → TransactionService
  | .start r _ => { s with calls := s.calls ++ [r.call] }
  | .proceed i carriedOut =>
    match s.calls[i]? with
    | some c => s.advance i carriedOut c
    | none => s
  | .producer call => { s with tables := { s.tables with producers := s.tables.producers.step call } }

def initial : TransactionService := ⟨⟨.empty, ⟨fun _ => none, fun _ => none⟩, fun _ => none⟩, []⟩

/-- The commit or abort that this step answers with success. -/
def ending (s : TransactionService) : ServiceEvent → Option (TransactionId × TransactionMarkerType × ProducerRef)
  | .proceed i true => match s.calls[i]? with
    | some (.endWrite marker who id partitions) =>
      match s.tables.store.endTransaction marker none id partitions with
      | .ok _ => some (id, marker, who)
      | .error _ => none
    | _ => none
  | _ => none

/-- The producer that is meant began the transaction, with this epoch, and has it still. -/
def Owns (s : TransactionTables) (who : ProducerRef) (id : TransactionId) : Prop :=
  s.begunBy id = some who ∧ ∃ row ∈ s.producers.getProducer who.producerId, row.epoch = who.producerEpoch

instance (s : TransactionTables) (who : ProducerRef) (id : TransactionId) : Decidable (Owns s who id) :=
  inferInstanceAs (Decidable (_ ∧ _))

/-- A transaction with its outcome. -/
def Decided (t : Transaction) : Prop := t.state = .committed ∨ t.state = .aborted

instance (t : Transaction) : Decidable (Decided t) := inferInstanceAs (Decidable (_ ∨ _))

/-- What a run promises about transactions. -/
structure Ownership (s : TransactionService) (events : List ServiceEvent) : Prop where
  /-- A transaction is committed or aborted by one request at most. -/
  once : ∀ before e middle e' after, events = before ++ e :: (middle ++ e' :: after) → ∀ id marker who marker' who',
    (run step s before).ending e = some (id, marker, who) →
      (run step s (before ++ e :: middle)).ending e' ≠ some (id, marker', who')
  /-- An outcome is that of an earlier request. -/
  outcome : ∀ before after, events = before ++ after → ∀ id t, (run step s before).tables.store.transactions id = some t →
    Decided t → ∃ earlier e later marker who, before = earlier ++ e :: later ∧
      (run step s earlier).ending e = some (id, marker, who) ∧ t.state = marker.state
  /-- The request is its owner's. -/
  owner : ∀ before e after, events = before ++ e :: after → ∀ id marker who,
    (run step s before).ending e = some (id, marker, who) → Owns (run step s before).tables who id
  /-- A transaction with an outcome keeps it, and its partitions. -/
  closed : ∀ before middle after, events = before ++ (middle ++ after) → ∀ id t,
    (run step s before).tables.store.transactions id = some t → Decided t →
      ∃ t', (run step (run step s before) middle).tables.store.transactions id = some t' ∧ t'.state = t.state ∧
        t'.partitions.map key = t.partitions.map key

/-- What the two writes leave unchecked: a commit or an abort that finds its transaction open
is its owner's, and a partition that a decided transaction is to get is in it already. -/
def Guarded (s : TransactionService) : ServiceEvent → Prop
  | .proceed i true => match s.calls[i]? with
    | some (.endWrite _ who id _) => ∀ t ∈ s.tables.store.transactions id, ¬ Decided t → Owns s.tables who id
    | some (.addPartition id key _ _) => ∀ t ∈ s.tables.store.transactions id, Decided t → ∃ p ∈ t.partitions, p.key = key
    | _ => True
  | _ => True

instance (s : TransactionService) (e : ServiceEvent) : Decidable (s.Guarded e) := by
  cases e with
  | proceed i carriedOut =>
    cases carriedOut with
    | false => exact inferInstanceAs (Decidable True)
    | true =>
      simp only [Guarded]
      cases s.calls[i]? with
      | none => exact inferInstanceAs (Decidable True)
      | some c => cases c <;> infer_instance
  | _ => exact inferInstanceAs (Decidable True)

/-! ## What a step does to a transaction -/

theorem not_decided_iff {t : Transaction} : ¬ Decided t ↔ t.state = .ongoing ∨ t.state = .preparing := by
  rw [Decided]
  cases t.state with
  | ongoing => decide
  | preparing => decide
  | committed => decide
  | aborted => decide

/-- A commit or an abort is refused or ends a transaction that had no outcome. -/
theorem endTransaction_cases (m : TransactionStore) (marker : TransactionMarkerType) (id : TransactionId)
    (partitions : List TransactionPartition) :
    (∃ e, m.endTransaction marker none id partitions = .error e ∧ ∀ t, m.transactions id = some t → Decided t) ∨
      ∃ m' t, m.endTransaction marker none id partitions = .ok m' ∧ m.transactions id = some t ∧ ¬ Decided t ∧
        m'.transactions = update m.transactions id (some { t with state := marker.state }) := by
  unfold endTransaction
  cases present : m.transactions id with
  | none => exact .inl ⟨_, rfl, fun t no => nomatch no⟩
  | some t =>
    have all : t.Visible none := .inl rfl
    by_cases decided : Decided t
    · have refused : ¬ (t.Visible none ∧ (t.state = .ongoing ∨ t.state = .preparing)) :=
        fun both => not_decided_iff.mpr both.2 decided
      simp only [refused, if_false]
      refine .inl ⟨_, rfl, ?_⟩
      intro row same
      rw [← some.inj same]
      exact decided
    · have taken : t.Visible none ∧ (t.state = .ongoing ∨ t.state = .preparing) := ⟨all, not_decided_iff.mp decided⟩
      simp only [taken, and_self, if_true]
      refine .inr ⟨_, t, rfl, rfl, decided, ?_⟩
      rw [foldl_raiseLso_transactions]
      rfl

/-- What a step may do to the table of transactions. -/
inductive Writes (s : TransactionService) (e : ServiceEvent) : (TransactionId → Option Transaction) → Prop
  | nothing : Writes s e s.tables.store.transactions
  | begins (id : TransactionId) (fresh : s.tables.store.transactions id = none) :
      Writes s e (update s.tables.store.transactions id (some ⟨none, .ongoing, []⟩))
  | ends (id : TransactionId) (marker : TransactionMarkerType) (who : ProducerRef) (t : Transaction)
      (call : s.ending e = some (id, marker, who)) (present : s.tables.store.transactions id = some t) (undecided : ¬ Decided t) :
      Writes s e (update s.tables.store.transactions id (some { t with state := marker.state }))
  | enrolls (i : Nat) (id : TransactionId) (key : TopicPartition) (baseOffset lastOffset : Nat) (t : Transaction)
      (proceeds : e = .proceed i true) (call : s.calls[i]? = some (.addPartition id key baseOffset lastOffset))
      (present : s.tables.store.transactions id = some t) :
      Writes s e (update s.tables.store.transactions id (some (t.enroll key baseOffset)))
  | moves (id : TransactionId) (key : TopicPartition) (lastOffset : Nat) (t : Transaction)
      (present : s.tables.store.transactions id = some t) :
      Writes s e (update s.tables.store.transactions id (some { t with
        partitions := t.partitions.map fun p => if p.key = key then { p with lastOffset } else p }))

variable {s : TransactionService} {id : TransactionId} {t : Transaction}

theorem produce_store (tables : TransactionTables) (lookup : Bool) (r : TransactionalProduce) :
    (tables.produce lookup r).1.store = tables.store := by
  unfold TransactionTables.produce
  split <;> rfl

theorem step_proceed {i : Nat} {c : TransactionCall} (found : s.calls[i]? = some c) (carriedOut : Bool) :
    (s.step (.proceed i carriedOut)).tables = (c.next s.tables carriedOut).1 := by
  simp only [step, found, advance]

theorem ending_of {i : Nat} {marker : TransactionMarkerType} {who : ProducerRef} {partitions : List TransactionPartition}
    {store : TransactionStore} (call : s.calls[i]? = some (.endWrite marker who id partitions))
    (ok : s.tables.store.endTransaction marker none id partitions = .ok store) :
    s.ending (.proceed i true) = some (id, marker, who) := by
  simp only [ending, call, ok]

/-- A statement that is not carried out leaves the table alone. -/
theorem next_failed (tables : TransactionTables) (c : TransactionCall) : (c.next tables false).1.store = tables.store := by
  cases c with
  | produce r =>
    rw [TransactionCall.next]
    dsimp only
    split <;> exact produce_store tables false r
  | _ => rfl

theorem writes_proceed {i : Nat} {c : TransactionCall} (found : s.calls[i]? = some c) :
    Writes s (.proceed i true) (c.next s.tables true).1.store.transactions := by
  cases c with
  | beginTransaction who freshId =>
    simp only [TransactionCall.next, if_true]
    split
    · split <;> exact .nothing
    · exact .nothing
  | beginInsert who freshId =>
    simp only [TransactionCall.next, if_true, beginTransaction]
    cases present : s.tables.store.transactions freshId with
    | some t => exact .nothing
    | none => exact .begins freshId present
  | endTransaction marker who id =>
    simp only [TransactionCall.next, if_true]
    split <;> exact .nothing
  | endRead marker who id => exact .nothing
  | endWrite marker who id partitions =>
    simp only [TransactionCall.next, if_true]
    obtain ⟨e, refused, -⟩ | ⟨store, t, ok, present, undecided, written⟩ :=
      endTransaction_cases s.tables.store marker id partitions
    · rw [refused]
      exact .nothing
    · rw [ok]
      dsimp only
      rw [written]
      exact .ends id marker who t (ending_of found ok) present undecided
  | produce r =>
    rw [TransactionCall.next]
    dsimp only
    split <;> rw [produce_store] <;> exact .nothing
  | addPartition id key baseOffset lastOffset =>
    simp only [TransactionCall.next, if_true, addTransactionPartition]
    cases present : s.tables.store.transactions id with
    | none => exact .nothing
    | some t => exact .enrolls i id key baseOffset lastOffset t rfl found present
  | updateOffset id key lastOffset =>
    simp only [TransactionCall.next, if_true, updateTransactionPartitionOffset]
    cases present : s.tables.store.transactions id with
    | none => exact .nothing
    | some t => exact .moves id key lastOffset t present

theorem step_writes (s : TransactionService) (e : ServiceEvent) : Writes s e (s.step e).tables.store.transactions := by
  cases e with
  | start r => exact .nothing
  | producer call => exact .nothing
  | proceed i carriedOut =>
    cases found : s.calls[i]? with
    | none =>
      simp only [step, found]
      exact .nothing
    | some c =>
      rw [step_proceed found]
      cases carriedOut with
      | true => exact writes_proceed found
      | false =>
        rw [next_failed]
        exact .nothing

/-- How a step may change a transaction. -/
inductive Change (s : TransactionService) (e : ServiceEvent) (id : TransactionId) (t : Transaction) : Transaction → Prop
  | same : Change s e id t t
  | ended (marker : TransactionMarkerType) (who : ProducerRef) (call : s.ending e = some (id, marker, who))
      (undecided : ¬ Decided t) : Change s e id t { t with state := marker.state }
  | enrolled (i : Nat) (key : TopicPartition) (baseOffset lastOffset : Nat) (proceeds : e = .proceed i true)
      (call : s.calls[i]? = some (.addPartition id key baseOffset lastOffset)) : Change s e id t (t.enroll key baseOffset)
  | moved (key : TopicPartition) (lastOffset : Nat) : Change s e id t { t with
      partitions := t.partitions.map fun p => if p.key = key then { p with lastOffset } else p }

variable {e : ServiceEvent} {key : TopicPartition} {events : List ServiceEvent}

theorem Change.update {j : TransactionId} {row new : Transaction}
    (present : s.tables.store.transactions id = some t) (there : s.tables.store.transactions j = some row)
    (change : j = id → row = t → Change s e id t new) :
    ∃ t', update s.tables.store.transactions j (some new) id = some t' ∧ Change s e id t t' := by
  by_cases same : j = id
  · subst same
    exact ⟨new, update_self _ _ _, change rfl (some.inj (there.symm.trans present))⟩
  · exact ⟨t, by rw [update_of_ne (Ne.symm same), present], .same⟩

theorem step_row (e : ServiceEvent) (present : s.tables.store.transactions id = some t) :
    ∃ t', (s.step e).tables.store.transactions id = some t' ∧ Change s e id t t' := by
  have written := step_writes s e
  generalize (s.step e).tables.store.transactions = after at written
  cases written with
  | nothing => exact ⟨t, present, .same⟩
  | begins j fresh =>
    have other : id ≠ j := by
      rintro rfl
      rw [fresh] at present
      cases present
    exact ⟨t, by rw [update_of_ne other, present], .same⟩
  | ends j marker who row call there undecided =>
    refine Change.update present there fun isId isRow => ?_
    subst isId isRow
    exact .ended marker who call undecided
  | enrolls i j key baseOffset lastOffset row proceeds call there =>
    refine Change.update present there fun isId isRow => ?_
    subst isId isRow
    exact .enrolled i key baseOffset lastOffset proceeds call
  | moves j key lastOffset row there =>
    refine Change.update present there fun isId isRow => ?_
    subst isRow
    exact .moved key lastOffset

/-- A transaction begins as ongoing. -/
theorem step_new (absent : s.tables.store.transactions id = none)
    (present : (s.step e).tables.store.transactions id = some t) : ¬ Decided t := by
  have written := step_writes s e
  generalize (s.step e).tables.store.transactions = after at written present
  have kept : ∀ {j : TransactionId} {row new : Transaction}, s.tables.store.transactions j = some row →
      update s.tables.store.transactions j (some new) id ≠ some t := by
    intro j row new there same
    have other : id ≠ j := by
      rintro rfl
      rw [absent] at there
      cases there
    rw [update_of_ne other, absent] at same
    cases same
  cases written with
  | nothing => exact (nomatch absent.symm.trans present)
  | begins j fresh =>
    by_cases same : id = j
    · rw [same, update_self] at present
      rw [← some.inj present]
      decide
    · rw [update_of_ne same, absent] at present
      cases present
  | ends j marker who row call there undecided => exact (kept there present).elim
  | enrolls i j key baseOffset lastOffset row proceeds call there => exact (kept there present).elim
  | moves j key lastOffset row there => exact (kept there present).elim

theorem enroll_state (t : Transaction) (key : TopicPartition) (baseOffset : Nat) : (t.enroll key baseOffset).state = t.state := by
  unfold Transaction.enroll
  split <;> rfl

theorem enroll_of_mem (enrolled : ∃ p ∈ t.partitions, p.key = key) (baseOffset : Nat) : t.enroll key baseOffset = t := by
  obtain ⟨p, member, rfl⟩ := enrolled
  have found : t.partitions.any (fun q => q.key == p.key) = true := List.any_eq_true.mpr ⟨p, member, beq_self_eq_true _⟩
  rw [Transaction.enroll, if_pos found]

theorem marker_decided (marker : TransactionMarkerType) : marker.state = .committed ∨ marker.state = .aborted := by
  cases marker with
  | commit => exact .inl rfl
  | abort => exact .inr rfl

theorem decided_congr {t' : Transaction} (same : t'.state = t.state) : Decided t' ↔ Decided t := by
  rw [Decided, Decided, same]

/-- An outcome stays. -/
theorem decided_step (e : ServiceEvent) (present : s.tables.store.transactions id = some t) (decided : Decided t) :
    ∃ t', (s.step e).tables.store.transactions id = some t' ∧ t'.state = t.state := by
  obtain ⟨t', after, change⟩ := step_row e present
  refine ⟨t', after, ?_⟩
  cases change with
  | same => rfl
  | ended marker who call undecided => exact (undecided decided).elim
  | enrolled i key baseOffset lastOffset proceeds call => exact enroll_state t key baseOffset
  | moved key lastOffset => rfl

theorem decided_run (events : List ServiceEvent) (present : s.tables.store.transactions id = some t) (decided : Decided t) :
    ∃ t', (run step s events).tables.store.transactions id = some t' ∧ Decided t' := by
  refine run_invariant (fun s : TransactionService => ∃ t', s.tables.store.transactions id = some t' ∧ Decided t') ?_ ⟨t, present, decided⟩ events
  rintro s e ⟨row, there, decided⟩
  obtain ⟨t', after, same⟩ := decided_step e there decided
  exact ⟨t', after, (decided_congr same).mpr decided⟩

/-- A request that is answered with success ends a transaction that had no outcome. -/
theorem ending_spec {marker : TransactionMarkerType} {who : ProducerRef} (call : s.ending e = some (id, marker, who)) :
    ∃ t, s.tables.store.transactions id = some t ∧ ¬ Decided t ∧
      (∃ t', (s.step e).tables.store.transactions id = some t' ∧ Decided t') ∧
      ∃ i partitions, e = .proceed i true ∧ s.calls[i]? = some (.endWrite marker who id partitions) := by
  unfold ending at call
  split at call
  · next i =>
    split at call
    · next marker' who' id' partitions found =>
      split at call
      · next store ok =>
        cases call
        obtain ⟨e, refused, -⟩ | ⟨store', t, ok', present, undecided, written⟩ :=
          endTransaction_cases s.tables.store marker id partitions
        · rw [refused] at ok
          cases ok
        · refine ⟨t, present, undecided, ⟨{ t with state := marker.state }, ?_, marker_decided marker⟩, i, partitions, rfl, found⟩
          rw [step_proceed found]
          simp only [TransactionCall.next, if_true, ok', written]
          exact update_self _ _ _
      · cases call
    · cases call
  · cases call

/-! ## The promise and the condition -/

theorem closed_step (guarded : s.Guarded e) (present : s.tables.store.transactions id = some t) (decided : Decided t) :
    ∃ t', (s.step e).tables.store.transactions id = some t' ∧ t'.state = t.state ∧
      t'.partitions.map TransactionPartition.key = t.partitions.map TransactionPartition.key := by
  obtain ⟨t', after, change⟩ := step_row e present
  refine ⟨t', after, ?_⟩
  cases change with
  | same => exact ⟨rfl, rfl⟩
  | ended marker who call undecided => exact (undecided decided).elim
  | enrolled i key baseOffset lastOffset proceeds call =>
    subst proceeds
    simp only [Guarded, call] at guarded
    rw [enroll_of_mem (guarded t present decided)]
    exact ⟨rfl, rfl⟩
  | moved key lastOffset =>
    refine ⟨rfl, ?_⟩
    rw [List.map_map]
    apply List.map_congr_left
    intro p member
    by_cases same : p.key = key
    · simp [same]
    · simp [same]

theorem outcome_step (present : (s.step e).tables.store.transactions id = some t) (decided : Decided t) :
    (∃ t', s.tables.store.transactions id = some t' ∧ Decided t' ∧ t'.state = t.state) ∨
      ∃ marker who, s.ending e = some (id, marker, who) ∧ t.state = marker.state := by
  cases before : s.tables.store.transactions id with
  | none => exact (step_new before present decided).elim
  | some row =>
    obtain ⟨t', after, change⟩ := step_row e before
    obtain rfl := some.inj (after.symm.trans present)
    cases change with
    | same => exact .inl ⟨_, rfl, decided, rfl⟩
    | ended marker who call undecided => exact .inr ⟨marker, who, call, rfl⟩
    | enrolled i key baseOffset lastOffset proceeds call =>
      have state := enroll_state row key baseOffset
      exact .inl ⟨row, rfl, (decided_congr state).mp decided, state.symm⟩
    | moved key lastOffset => exact .inl ⟨row, rfl, decided, rfl⟩

theorem owner_iff {marker : TransactionMarkerType} {who : ProducerRef}
    (call : s.ending e = some (id, marker, who)) : s.Guarded e ↔ Owns s.tables who id := by
  obtain ⟨t, present, undecided, -, i, partitions, rfl, found⟩ := ending_spec call
  simp only [Guarded, found, present, mem_some_iff, forall_eq']
  exact ⟨fun owner => owner undecided, fun owns _ => owns⟩

/-- The insert of a produce request looks at no state. -/
theorem addPartition_enrolls {i : Nat} {baseOffset lastOffset : Nat}
    (call : s.calls[i]? = some (.addPartition id key baseOffset lastOffset)) (present : s.tables.store.transactions id = some t) :
    (s.step (.proceed i true)).tables.store.transactions id = some (t.enroll key baseOffset) := by
  have added : s.tables.store.addTransactionPartition id key baseOffset =
      .ok (s.tables.store.setTransaction id (t.enroll key baseOffset)) := by
    rw [addTransactionPartition, present]
  rw [step_proceed call]
  simp only [TransactionCall.next, if_true, added, settle]
  exact setTransaction_self _ _ _

/-- A partition that adds nothing was there before. -/
theorem mem_of_enroll {baseOffset : Nat}
    (same : (t.enroll key baseOffset).partitions.map TransactionPartition.key = t.partitions.map TransactionPartition.key) :
    ∃ p ∈ t.partitions, p.key = key := by
  by_contra missing
  have apart : t.partitions.any (fun p => p.key == key) = false := by
    rw [List.any_eq_false]
    intro p member same
    exact missing ⟨p, member, beq_iff_eq.mp same⟩
  rw [Transaction.enroll, apart] at same
  simp at same

/-! ## Runs -/

/-- A transaction ends once. -/
theorem ending_once {e' : ServiceEvent} {marker marker' : TransactionMarkerType} {who who' : ProducerRef}
    (first : s.ending e = some (id, marker, who)) (middle : List ServiceEvent) :
    (run step s (e :: middle)).ending e' ≠ some (id, marker', who') := by
  intro second
  obtain ⟨-, -, -, ⟨t, present, decided⟩, -⟩ := ending_spec first
  obtain ⟨t', later, stays⟩ := decided_run middle present decided
  obtain ⟨row, there, undecided, -⟩ := ending_spec second
  rw [run_cons] at there
  obtain rfl := some.inj (there.symm.trans later)
  exact undecided stays

/-- The outcome of a transaction that is made in the run is that of a request of the run. -/
theorem outcome_run (fresh : s.tables.store.transactions id = none)
    (present : (run step s events).tables.store.transactions id = some t) (decided : Decided t) :
    ∃ earlier e later marker who, events = earlier ++ e :: later ∧ (run step s earlier).ending e = some (id, marker, who) ∧
      t.state = marker.state := by
  have cause := exists_cause
    (fun s : TransactionService => ∃ t', s.tables.store.transactions id = some t' ∧ Decided t' ∧ t'.state = t.state)
    (fun s e => ∃ marker who, s.ending e = some (id, marker, who) ∧ t.state = marker.state) ?_ ⟨t, present, decided, rfl⟩
  · obtain ⟨row, there, -⟩ | ⟨earlier, e, later, cut, marker, who, call, state⟩ := cause
    · cases fresh.symm.trans there
    · exact ⟨earlier, e, later, marker, who, cut, call, state⟩
  · rintro before e after - ⟨t', there, decided, same⟩
    obtain ⟨row, old, decided, state⟩ | ⟨marker, who, call, state⟩ := outcome_step there decided
    · exact .inl ⟨row, old, decided, state.trans same⟩
    · exact .inr ⟨marker, who, call, same.symm.trans state⟩

/-- In a guarded run a transaction with an outcome stays as it is. -/
theorem closed_run (guarded : Meets step Guarded s events)
    (present : s.tables.store.transactions id = some t) (decided : Decided t) :
    ∃ t', (run step s events).tables.store.transactions id = some t' ∧ t'.state = t.state ∧
      t'.partitions.map TransactionPartition.key = t.partitions.map TransactionPartition.key := by
  refine @Meets.invariant _ _ step Guarded (fun s => ∃ t', s.tables.store.transactions id = some t' ∧ t'.state = t.state ∧
    t'.partitions.map key = t.partitions.map key) ?_ events s guarded ⟨t, present, rfl, rfl⟩
  rintro s e ⟨row, there, state, keys⟩ ok
  obtain ⟨t', after, state', keys'⟩ := closed_step ok there ((decided_congr state).mpr decided)
  exact ⟨t', after, state'.trans state, keys'.trans keys⟩

/-- A run that keeps the promise is guarded at each step. -/
theorem Ownership.guarded {before after : List ServiceEvent} (promise : s.Ownership events)
    (cut : events = before ++ e :: after) : (run step s before).Guarded e := by
  have owner := promise.owner before e after cut
  have closed := promise.closed before [e] after cut
  rw [run_cons, run_nil] at closed
  generalize run step s before = s' at owner closed
  cases e with
  | proceed i carriedOut =>
    cases carriedOut with
    | false => trivial
    | true =>
      cases found : s'.calls[i]? with
      | none => simp only [Guarded, found]
      | some c =>
        cases c with
        | endWrite marker who id partitions =>
          simp only [Guarded, found]
          intro t present undecided
          obtain ⟨e, -, all⟩ | ⟨store, -, ok, -⟩ := endTransaction_cases s'.tables.store marker id partitions
          · exact (undecided (all t present)).elim
          · exact owner id marker who (ending_of found ok)
        | addPartition id key baseOffset lastOffset =>
          simp only [Guarded, found]
          intro t present decided
          obtain ⟨t', there, -, same⟩ := closed id t present decided
          obtain rfl := some.inj ((addPartition_enrolls found present).symm.trans there)
          exact mem_of_enroll same
        | _ => simp only [Guarded, found]
  | _ => trivial

end TransactionService

open TransactionService

/-- **Single outcome and ownership** hold in exactly the runs in which every commit or abort that
ends a transaction is its owner's, and no decided transaction is given another partition. -/
theorem ownership_iff (events : List ServiceEvent) :
    initial.Ownership events ↔
      Meets step Guarded initial events := by
  constructor
  · intro promise
    exact meets_iff_forall.2 fun before e after cut => promise.guarded cut
  · intro meets
    constructor
    · intro before e middle e' after cut id marker who marker' who' first
      rw [run_append]
      exact ending_once first middle
    · intro before after cut id t present decided
      exact outcome_run rfl present decided
    · intro before e after cut id marker who call
      exact (owner_iff call).mp (meets_iff_forall.1 meets before e after cut)
    · intro before middle after cut id t present decided
      subst cut
      exact closed_run meets.between present decided

namespace Example

def p : ProducerRef := ⟨"p", 0⟩

def q : ProducerRef := ⟨"q", 0⟩

/-- Two producers are made, and `p` begins `x`. -/
def xBegun : List ServiceEvent :=
  [.producer (.init working (some "o") (some "txn-p") "p" (by decide)), .producer (.init working (some "o") (some "txn-q") "q" (by decide)),
    .start (.beginTransaction p "x") (by decide), .proceed 0 true, .proceed 0 true]

/-- A record is produced in the transaction `x`, to a partition. -/
def producesTo (partitionId : Nat) : List ServiceEvent :=
  [.start (.produce ⟨some p, 0, ⟨"t", partitionId⟩, [⟨none, [1], 0⟩], some "x", false, .fine, healthy, 0⟩) (by change ∀ t ∈ ["t", "p", "x"], _; decide),
    .proceed 0 true, .proceed 0 true, .proceed 0 true]

def commits (who : ProducerRef) (plain : ∀ t ∈ [who.producerId, "x"], QuoteFree t) : List ServiceEvent :=
  [.start (.commitTransaction who "x") plain, .proceed 0 true, .proceed 0 true, .proceed 0 true]

end Example

open Example

theorem ownership_commit :
    (run step initial
      (xBegun ++ producesTo 0 ++ commits p (by decide))).tables.store.transactions "x" =
        some ⟨none, .committed, [⟨⟨"t", 0⟩, 0, 0⟩]⟩ ∧
      initial.Ownership (xBegun ++ producesTo 0 ++ commits p (by decide)) :=
  ⟨by decide, (ownership_iff _).mpr (by decide)⟩

/-- `q` commits the transaction of `p`, and `p` then writes to another partition in it. -/
theorem ownership_fails :
    (run step initial
      (xBegun ++ commits q (by decide) ++ producesTo 1)).tables.store.transactions "x" =
        some ⟨none, .committed, [⟨⟨"t", 1⟩, 0, 0⟩]⟩ ∧
      ¬ ∀ events : List ServiceEvent, initial.Ownership events := by
  refine ⟨by decide, ?_⟩
  intro always
  have owns := (always (xBegun ++ commits q (by decide))).owner (xBegun ++ (commits q (by decide)).dropLast)
    (.proceed 0 true) [] (by decide) "x" .commit q (by decide)
  revert owns
  decide

end StreamHouse.Agent
