import StreamHouse.Kafka.Transactions

/-!
# What an EndTxn ends

Sequences of InitProducerId, AddPartitionsToTxn, AddOffsetsToTxn and EndTxn requests
of any clients. Since each of the last three begins a transaction of its own, the
partitions of two requests are never in one transaction, and an EndTxn ends the one
it has just made: it ends a transaction as a whole only where there is nothing to end.
-/

namespace StreamHouse.Kafka
open Lib Metadata Agent List Function TransactionStore TxnTables

/-- The requests, with how the database fares and the UUID that is drawn. -/
inductive TxnRequest where
  | initProducerId (env : InitEnv) (orgId : String) (transactionalId : Option String) (freshId : String)
      (plain : ∀ t ∈ freshId :: orgId :: transactionalId.toList, QuoteFree t)
  | addPartitionsToTxn (env : TxnEnv) (sender : TxnSender) (topics : List (String × List (BitVec 32))) (freshId : TransactionId)
      (plain : ∀ t ∈ topics, QuoteFree t.1)
  | addOffsetsToTxn (env : TxnEnv) (sender : TxnSender) (groupId : String) (freshId : TransactionId)
  | endTxn (env : TxnEnv) (sender : TxnSender) (marker : TransactionMarkerType) (freshId : TransactionId)

/-- The tables, and for each producer what it was told it has enrolled since its last EndTxn
that was answered without error: transaction and partition. -/
structure TxnSession where
  tables : TxnTables
  enrolled : String → List (TransactionId × TopicPartition)

/-- The producer of the sender's transactional id. -/
def TxnTables.producer (s : TxnTables) (sender : TxnSender) : Option ProducerRow :=
  s.producers.getProducerByTransactionalId sender.transactionalId (some sender.orgId)

/-- The sender carries the producer id and the epoch that InitProducerId gave out last. -/
def Current (s : TxnTables) (sender : TxnSender) : Prop :=
  ∃ row ∈ s.producer sender, hashProducerId row.id = sender.producerId ∧ BitVec.ofNat 16 row.epoch = sender.producerEpoch

instance (s : TxnTables) (sender : TxnSender) : Decidable (Current s sender) :=
  inferInstanceAs (Decidable (∃ row ∈ s.producer sender, _))

namespace TxnSession

def empty : TxnSession := ⟨.empty, fun _ => []⟩

/-- The partitions that were answered without error are noted for the sender's producer. -/
def note (s : TxnSession) (sender : TxnSender) (id : TransactionId) (keys : List TopicPartition) (codes : List TxnErrorCode) :
    String → List (TransactionId × TopicPartition) :=
  match s.tables.producer sender with
  | some row => update s.enrolled row.id
      (s.enrolled row.id ++ ((keys.zip codes).filter fun a => a.2 = .none).map fun a => (id, a.1))
  | none => s.enrolled

def step (s : TxnSession) : TxnRequest → TxnSession
  | .initProducerId env orgId transactionalId freshId _ =>
    { s with tables := (handleInitProducerId env s.tables orgId transactionalId freshId).1 }
  | .addPartitionsToTxn env sender topics freshId _ =>
    let (tables, codes) := handleAddPartitionsToTxn env s.tables sender topics freshId
    { tables, enrolled := s.note sender freshId (requested topics) codes }
  | .addOffsetsToTxn env sender groupId freshId =>
    let (tables, code) := handleAddOffsetsToTxn env s.tables sender groupId freshId
    { tables, enrolled := s.note sender freshId [offsetsPartition groupId] [code] }
  | .endTxn env sender marker freshId =>
    let (tables, code) := handleEndTxn env s.tables sender marker freshId
    { tables
      enrolled := match code, s.tables.producer sender with
        | .none, some row => update s.enrolled row.id []
        | _, _ => s.enrolled }

end TxnSession

open TxnSession

/-! ## The promise -/

/-- The markers of a transaction on a partition. -/
def markerCount (s : TxnTables) (id : TransactionId) (key : TopicPartition) : Nat :=
  s.markers.countP fun m => m.transactionId = id ∧ m.key = key

/-- From the one state to the other, what the producer enrolled has ended as one transaction,
and with it everything the producer had open. -/
structure EndedWhole (s s' : TxnSession) (producerId : String) (marker : TransactionMarkerType) : Prop where
  one : ∀ a ∈ s.enrolled producerId, ∀ b ∈ s.enrolled producerId, a.1 = b.1
  ended : ∀ a ∈ s.enrolled producerId, ∃ t, s'.tables.transactions.transactions a.1 = some t ∧ t.state = marker.state
  marked : ∀ a ∈ s.enrolled producerId, ∀ key,
    markerCount s'.tables a.1 key = if (a.1, key) ∈ s.enrolled producerId then 1 else 0
  others : ∀ id t, s.tables.transactions.transactions id = some t → (∀ a ∈ s.enrolled producerId, a.1 ≠ id) →
    s'.tables.transactions.transactions id = some t
  settled : ∀ id t, s'.tables.transactions.transactions id = some t → s'.tables.producerOf id = some producerId →
    t.state ≠ .ongoing

def TxnRequest.sender : TxnRequest → Option TxnSender
  | .initProducerId _ _ _ _ _ => none
  | .addPartitionsToTxn _ sender _ _ _ => some sender
  | .addOffsetsToTxn _ sender _ _ => some sender
  | .endTxn _ sender _ _ => some sender

/-- What is promised of a request. -/
structure TxnSession.Keeps (s : TxnSession) (r : TxnRequest) : Prop where
  stale : ∀ sender, r.sender = some sender → ¬ Current s.tables sender → (s.step r).tables = s.tables
  whole : ∀ env sender marker freshId row, r = .endTxn env sender marker freshId → s.tables.producer sender = some row →
    (handleEndTxn env s.tables sender marker freshId).2 = .none → EndedWhole s (s.step r) row.id marker

/-! ## The condition -/

/-- The request gets as far as to begin its transaction. -/
def Begins (env : TxnEnv) (s : TxnTables) (sender : TxnSender) (freshId : TransactionId) : Prop :=
  env.looksUp = true ∧ env.begins = true ∧ (s.producer sender).isSome = true ∧
    s.transactions.transactions freshId = none

/-- No transaction of the sender's producer is open. -/
def NothingOpen (s : TxnTables) (sender : TxnSender) : Prop :=
  ∀ row ∈ s.producer sender, ∀ id t, s.transactions.transactions id = some t → s.producerOf id = some row.id →
    t.state ≠ .ongoing

def TxnRequest.Begins (s : TxnTables) : TxnRequest → Prop
  | .initProducerId _ _ _ _ _ => False
  | .addPartitionsToTxn env sender _ freshId _ => Kafka.Begins env s sender freshId
  | .addOffsetsToTxn env sender _ freshId => Kafka.Begins env s sender freshId
  | .endTxn env sender _ freshId => Kafka.Begins env s sender freshId

/-- A request that begins its transaction is from the current producer, and where an EndTxn
goes through the producer has nothing open. -/
structure TxnSession.Sound (s : TxnSession) (r : TxnRequest) : Prop where
  current : ∀ sender, r.sender = some sender → r.Begins s.tables → Current s.tables sender
  nothingOpen : ∀ env sender marker freshId, r = .endTxn env sender marker freshId → r.Begins s.tables →
    env.lists = true → env.ends = true → NothingOpen s.tables sender

/-! ## What the requests do -/

variable {s : TxnTables} {sender : TxnSender} {env : TxnEnv} {freshId : TransactionId}

/-- The tables after `begin_transaction_for_org`. -/
def begun (s : TxnTables) (sender : TxnSender) (freshId : TransactionId) (producerId : String) : TxnTables :=
  { s.setTransactions (s.transactions.setTransaction freshId ⟨some sender.orgId, .ongoing, []⟩) with
    producerOf := update s.producerOf freshId (some producerId) }

/-- A request begins a transaction of its own, or changes nothing. -/
theorem findTransaction_cases (env : TxnEnv) (s : TxnTables) (sender : TxnSender) (freshId : TransactionId) :
    (¬ Begins env s sender freshId ∧ ∃ code, code ≠ .none ∧ findTransaction env s sender freshId = .error code) ∨
      ∃ row, Begins env s sender freshId ∧ s.producer sender = some row ∧
        findTransaction env s sender freshId = .ok (begun s sender freshId row.id) := by
  unfold findTransaction Begins
  by_cases looksUp : env.looksUp = false
  · rw [if_pos looksUp, looksUp]
    exact .inl ⟨(fun no => nomatch no.1), _, by decide, rfl⟩
  · rw [if_neg looksUp]
    cases known : s.producer sender with
    | none =>
      rw [producer] at known
      rw [known]
      exact .inl ⟨(fun no => nomatch no.2.2.1), _, by decide, rfl⟩
    | some row =>
      rw [producer] at known
      rw [known]
      dsimp only
      by_cases begins : env.begins = false
      · rw [if_pos begins, begins]
        exact .inl ⟨(fun no => nomatch no.2.1), _, by decide, rfl⟩
      · rw [if_neg begins, beginTransactionForOrg, beginTransaction]
        cases taken : s.transactions.transactions freshId with
        | some t => exact .inl ⟨(fun no => nomatch no.2.2.2), _, by decide, rfl⟩
        | none =>
          refine .inr ⟨row, ⟨?_, ?_, rfl, rfl⟩, rfl, rfl⟩
          · exact (Bool.not_eq_false _).mp looksUp
          · exact (Bool.not_eq_false _).mp begins

/-- Of the transactions only `id` may have changed, and not its state; all else is the same. -/
structure Extends (id : TransactionId) (s s' : TxnTables) : Prop where
  producers : s'.producers = s.producers
  producerOf : s'.producerOf = s.producerOf
  markers : s'.markers = s.markers
  offsets : s'.consumerOffsets = s.consumerOffsets
  others : ∀ j, j ≠ id → s'.transactions.transactions j = s.transactions.transactions j
  row : ∀ t, s.transactions.transactions id = some t →
    ∃ t', s'.transactions.transactions id = some t' ∧ t'.state = t.state

theorem Extends.refl (id : TransactionId) (s : TxnTables) : Extends id s s :=
  ⟨rfl, rfl, rfl, rfl, fun _ _ => rfl, fun t present => ⟨t, present, rfl⟩⟩

theorem Extends.trans {id : TransactionId} {a b c : TxnTables} (first : Extends id a b) (second : Extends id b c) : Extends id a c where
  producers := second.producers.trans first.producers
  producerOf := second.producerOf.trans first.producerOf
  markers := second.markers.trans first.markers
  offsets := second.offsets.trans first.offsets
  others j other := (second.others j other).trans (first.others j other)
  row t present := by
    obtain ⟨t', there, same⟩ := first.row t present
    obtain ⟨t'', there', same'⟩ := second.row t' there
    exact ⟨t'', there', same'.trans same⟩

theorem addPartition_extends (orgId : String) (id : TransactionId) (s : TxnTables) (carriedOut : Bool) (key : TopicPartition) :
    Extends id s (addPartition orgId id s carriedOut key).1 := by
  unfold addPartition
  cases carriedOut with
  | false => exact .refl id s
  | true =>
    rw [if_pos rfl, addTransactionPartitionForOrg]
    cases present : s.transactions.transactions id with
    | none => exact .refl id s
    | some t =>
      dsimp only
      by_cases own : t.organizationId = some orgId
      · rw [if_pos own, addTransactionPartition, present]
        refine ⟨rfl, rfl, rfl, rfl, fun j other => update_of_ne other _ _, ?_⟩
        intro row there
        obtain rfl := Option.some.inj (present.symm.trans there)
        refine ⟨t.enroll key 0, update_self _ _ _, ?_⟩
        unfold Transaction.enroll
        split <;> rfl
      · rw [if_neg own]
        exact .refl id s

theorem addPartitions_extends (orgId : String) (id : TransactionId) (keys : List TopicPartition) (s : TxnTables) (writes : List Bool) :
    Extends id s (addPartitions orgId id s writes keys).1 := by
  induction keys generalizing s writes with
  | nil => exact .refl id s
  | cons key keys ih => exact (addPartition_extends orgId id s (writes.headD true) key).trans (ih _ writes.tail)

/-- The tables after an EndTxn that goes through: its own transaction, which is empty, has ended. -/
def concluded (s : TxnTables) (sender : TxnSender) (freshId : TransactionId) (producerId : String)
    (marker : TransactionMarkerType) : TxnTables :=
  (begun s sender freshId producerId).setTransactions
    ((begun s sender freshId producerId).transactions.setTransaction freshId ⟨some sender.orgId, marker.state, []⟩)

theorem begun_row (s : TxnTables) (sender : TxnSender) (freshId : TransactionId) (producerId : String) :
    (begun s sender freshId producerId).transactions.transactions freshId = some ⟨some sender.orgId, .ongoing, []⟩ :=
  update_self _ _ _

/-- The transaction that EndTxn finds has no partitions, so neither the store nor the handler marks any. -/
theorem handleEndTxn_ok (row : ProducerRow) (marker : TransactionMarkerType)
    (found : findTransaction env s sender freshId = .ok (begun s sender freshId row.id)) :
    handleEndTxn env s sender marker freshId =
      if env.lists = true ∧ env.ends = true then (concluded s sender freshId row.id marker, .none)
      else (begun s sender freshId row.id, .unknownServerError) := by
  have present := begun_row s sender freshId row.id
  have empty : (begun s sender freshId row.id).transactions.getTransactionPartitions freshId = [] := by
    rw [getTransactionPartitions, present]
    rfl
  have listed : (begun s sender freshId row.id).transactions.getTransactionPartitionsForOrg sender.orgId freshId = [] := by
    rw [getTransactionPartitionsForOrg, present]
    simp only [if_true, empty]
  have ended : (begun s sender freshId row.id).endTransactionForOrg marker sender.orgId freshId =
      .ok (concluded s sender freshId row.id marker) := by
    have visible : Transaction.Visible ⟨some sender.orgId, .ongoing, []⟩ (some sender.orgId) := .inr rfl
    rw [endTransactionForOrg, empty]
    simp only [endTransaction, present, visible, true_and, true_or, if_true, foldl_nil, map_nil,
      append_nil]
    rfl
  rw [handleEndTxn, found]
  dsimp only
  rw [listed, ended]
  cases env.lists with
  | false => rfl
  | true =>
    cases env.ends with
    | false => rfl
    | true => rfl

theorem handleEndTxn_error (marker : TransactionMarkerType) {code : TxnErrorCode}
    (failed : findTransaction env s sender freshId = .error code) : handleEndTxn env s sender marker freshId = (s, code) := by
  rw [handleEndTxn, failed]

namespace TxnSession

variable {s : TxnSession}

/-- What a request may leave. -/
inductive Effect (s : TxnSession) : TxnSession → Prop
  | producers (producers : ProducerStore) : Effect s { s with tables := { s.tables with producers } }
  | refused : Effect s s
  | begins (sender : TxnSender) (freshId : TransactionId) (row : ProducerRow) (tables : TxnTables) (keys : List TopicPartition)
      (fresh : s.tables.transactions.transactions freshId = none)
      (extended : Extends freshId (begun s.tables sender freshId row.id) tables) :
      Effect s ⟨tables, update s.enrolled row.id (s.enrolled row.id ++ keys.map fun key => (freshId, key))⟩
  | concludes (sender : TxnSender) (freshId : TransactionId) (row : ProducerRow) (marker : TransactionMarkerType)
      (fresh : s.tables.transactions.transactions freshId = none) :
      Effect s ⟨concluded s.tables sender freshId row.id marker, update s.enrolled row.id []⟩

variable {row : ProducerRow} {marker : TransactionMarkerType}

theorem note_known (known : s.tables.producer sender = some row) (freshId : TransactionId) (keys : List TopicPartition)
    (codes : List TxnErrorCode) :
    ∃ noted : List TopicPartition, s.note sender freshId keys codes =
      update s.enrolled row.id (s.enrolled row.id ++ noted.map fun key => (freshId, key)) := by
  refine ⟨((keys.zip codes).filter fun a => a.2 = .none).map Prod.fst, ?_⟩
  rw [note, known, map_map]
  rfl

/-- Nothing is noted where every code is an error. -/
theorem note_refused (keys : List TopicPartition) {codes : List TxnErrorCode} (errors : ∀ code ∈ codes, code ≠ .none) :
    s.note sender freshId keys codes = s.enrolled := by
  have nothing : (keys.zip codes).filter (fun a => decide (a.2 = TxnErrorCode.none)) = [] := by
    apply filter_eq_nil_iff.mpr
    intro a member
    have error := errors a.2 (of_mem_zip member).2
    simpa using error
  unfold note
  cases s.tables.producer sender with
  | none => rfl
  | some row =>
    dsimp only
    rw [nothing, map_nil, append_nil]
    exact update_eq_self _ _

/-- Beginning a transaction changes the tables. -/
theorem ne_of_extends {tables : TxnTables} (fresh : s.tables.transactions.transactions freshId = none)
    (extended : Extends freshId (begun s.tables sender freshId row.id) tables) : tables ≠ s.tables := by
  intro same
  obtain ⟨t, present, -⟩ := extended.row _ (begun_row s.tables sender freshId row.id)
  rw [same, fresh] at present
  cases present

theorem ne_of_concluded (fresh : s.tables.transactions.transactions freshId = none) :
    concluded s.tables sender freshId row.id marker ≠ s.tables := by
  intro same
  have present : (concluded s.tables sender freshId row.id marker).transactions.transactions freshId =
      some ⟨some sender.orgId, marker.state, []⟩ := update_self _ _ _
  rw [same, fresh] at present
  cases present

/-- A request that enrolls partitions, once its transaction is begun. -/
theorem effect_enrolls {tables : TxnTables} (begins : Begins env s.tables sender freshId)
    (known : s.tables.producer sender = some row) (extended : Extends freshId (begun s.tables sender freshId row.id) tables)
    (keys : List TopicPartition) (codes : List TxnErrorCode) :
    Effect s ⟨tables, s.note sender freshId keys codes⟩ ∧ tables ≠ s.tables := by
  obtain ⟨noted, note⟩ := note_known known freshId keys codes
  rw [note]
  exact ⟨.begins sender freshId row tables noted begins.2.2.2 extended, ne_of_extends begins.2.2.2 extended⟩

/-- A request of a transaction changes nothing, or begins its transaction and goes on from there. -/
theorem sent_effect {r : TxnRequest} (sends : r.sender = some sender) :
    (¬ r.Begins s.tables ∧ s.step r = s) ∨ (r.Begins s.tables ∧ Effect s (s.step r) ∧ (s.step r).tables ≠ s.tables) := by
  cases r with
  | initProducerId env orgId transactionalId freshId => cases sends
  | addPartitionsToTxn env from' topics freshId =>
    simp only [step, handleAddPartitionsToTxn, TxnRequest.Begins]
    obtain ⟨refused, code, error, failed⟩ | ⟨row, begins, known, found⟩ := findTransaction_cases env s.tables from' freshId
    · rw [failed]
      dsimp only
      rw [note_refused]
      · exact .inl ⟨refused, rfl⟩
      · intro c member
        obtain ⟨key, -, rfl⟩ := mem_map.mp member
        exact error
    · rw [found]
      exact .inr ⟨begins, effect_enrolls begins known (addPartitions_extends _ _ _ _ _) _ _⟩
  | addOffsetsToTxn env from' groupId freshId =>
    simp only [step, handleAddOffsetsToTxn, TxnRequest.Begins]
    obtain ⟨refused, code, error, failed⟩ | ⟨row, begins, known, found⟩ := findTransaction_cases env s.tables from' freshId
    · rw [failed]
      dsimp only
      rw [note_refused]
      · exact .inl ⟨refused, rfl⟩
      · intro c member
        obtain rfl := mem_singleton.mp member
        exact error
    · rw [found]
      exact .inr ⟨begins, effect_enrolls begins known (addPartitions_extends _ _ _ _ _) _ _⟩
  | endTxn env from' marker freshId =>
    simp only [step, TxnRequest.Begins]
    obtain ⟨refused, code, error, failed⟩ | ⟨row, begins, known, found⟩ := findTransaction_cases env s.tables from' freshId
    · rw [handleEndTxn_error marker failed]
      refine .inl ⟨refused, ?_⟩
      cases code with
      | none => exact (error rfl).elim
      | _ => rfl
    · rw [handleEndTxn_ok row marker found, known]
      refine .inr ⟨begins, ?_⟩
      by_cases through : env.lists = true ∧ env.ends = true
      · rw [if_pos through]
        exact ⟨.concludes from' freshId row marker begins.2.2.2, ne_of_concluded begins.2.2.2⟩
      · rw [if_neg through]
        -- the transaction stays open, with nothing enrolled
        have enrolled := effect_enrolls begins known (.refl freshId _) [] []
        rw [note_refused [] (forall_mem_nil _)] at enrolled
        exact enrolled

theorem step_effect (s : TxnSession) (r : TxnRequest) : Effect s (s.step r) := by
  cases sends : r.sender with
  | none =>
    cases r with
    | initProducerId env orgId transactionalId freshId =>
      simp only [step, handleInitProducerId]
      split <;> exact .producers _
    | _ => cases sends
  | some sender =>
    obtain ⟨-, same⟩ | ⟨-, effect, -⟩ := sent_effect sends
    · rw [same]
      exact .refused
    · exact effect

/-- The tables change if the request begins its transaction, and only then. -/
theorem tables_eq_iff {r : TxnRequest} (sends : r.sender = some sender) :
    (s.step r).tables = s.tables ↔ ¬ r.Begins s.tables := by
  obtain ⟨refused, same⟩ | ⟨begins, -, changed⟩ := sent_effect sends
  · rw [same]
    exact iff_of_true rfl refused
  · exact iff_of_false changed (not_not.mpr begins)

/-- A transaction that is there is not the one to be begun. -/
theorem ne_of_fresh {id : TransactionId} {t : Transaction} (fresh : s.tables.transactions.transactions freshId = none)
    (present : s.tables.transactions.transactions id = some t) : id ≠ freshId := by
  rintro rfl
  cases fresh.symm.trans present

/-- What a producer has enrolled since its last EndTxn is in open transactions of its own. -/
def Owned (s : TxnSession) : Prop :=
  ∀ producerId, ∀ a ∈ s.enrolled producerId, s.tables.producerOf a.1 = some producerId ∧
    ∃ t, s.tables.transactions.transactions a.1 = some t ∧ t.state = .ongoing

theorem Owned.step (owned : s.Owned) (r : TxnRequest) : (s.step r).Owned := by
  have effect := step_effect s r
  generalize s.step r = s' at effect
  cases effect with
  | producers producers => exact owned
  | refused => exact owned
  | begins sender freshId row tables keys fresh extended =>
    have kept : ∀ producerId, ∀ a ∈ s.enrolled producerId, tables.producerOf a.1 = some producerId ∧
        ∃ t, tables.transactions.transactions a.1 = some t ∧ t.state = .ongoing := by
      intro producerId a member
      obtain ⟨owner, t, present, ongoing⟩ := owned producerId a member
      have other := ne_of_fresh fresh present
      refine ⟨?_, t, ?_, ongoing⟩
      · rw [extended.producerOf]
        exact (update_of_ne other _ _).trans owner
      · rw [extended.others a.1 other]
        exact (update_of_ne other _ _).trans present
    intro producerId a member
    by_cases same : producerId = row.id
    · subst same
      dsimp only at member
      rw [update_self] at member
      obtain old | new := mem_append.mp member
      · exact kept _ a old
      · obtain ⟨key, -, rfl⟩ := mem_map.mp new
        obtain ⟨t, present, ongoing⟩ := extended.row _ (begun_row s.tables sender freshId row.id)
        refine ⟨?_, t, present, ongoing⟩
        rw [extended.producerOf]
        exact update_self _ _ _
    · dsimp only at member
      rw [update_of_ne same] at member
      exact kept _ a member
  | concludes sender freshId row marker fresh =>
    intro producerId a member
    by_cases same : producerId = row.id
    · subst same
      dsimp only at member
      rw [update_self] at member
      cases member
    · dsimp only at member
      rw [update_of_ne same] at member
      obtain ⟨owner, t, present, ongoing⟩ := owned producerId a member
      have other := ne_of_fresh fresh present
      refine ⟨(update_of_ne other _ _).trans owner, t, ?_, ongoing⟩
      exact (update_of_ne other _ _).trans ((update_of_ne other _ _).trans present)

theorem empty_owned : empty.Owned := by
  intro producerId a member
  cases member

/-! ## Which requests keep the promise -/

/-- When an EndTxn is answered without error, and what it leaves. -/
theorem endTxn_none (known : s.tables.producer sender = some row)
    (none : (handleEndTxn env s.tables sender marker freshId).2 = .none) :
    Begins env s.tables sender freshId ∧ env.lists = true ∧ env.ends = true ∧
      s.step (.endTxn env sender marker freshId) =
        ⟨concluded s.tables sender freshId row.id marker, update s.enrolled row.id []⟩ := by
  obtain ⟨-, code, error, failed⟩ | ⟨found, begins, isFound, begun⟩ := findTransaction_cases env s.tables sender freshId
  · rw [handleEndTxn_error marker failed] at none
    exact (error none).elim
  · obtain rfl := Option.some.inj (isFound.symm.trans known)
    rw [step]
    rw [handleEndTxn_ok found marker begun] at none ⊢
    by_cases through : env.lists = true ∧ env.ends = true
    · rw [if_pos through]
      exact ⟨begins, through.1, through.2, by rw [known]⟩
    · rw [if_neg through] at none
      cases none

theorem concluded_of_ne {producerId : String} {id : TransactionId} (other : id ≠ freshId) :
    (concluded s.tables sender freshId producerId marker).transactions.transactions id =
      s.tables.transactions.transactions id :=
  (update_of_ne other _ _).trans (update_of_ne other _ _)

/-- An EndTxn that goes through ends a transaction as a whole exactly if the producer has nothing open. -/
theorem endedWhole_iff (owned : s.Owned) (known : s.tables.producer sender = some row) (none : (handleEndTxn env s.tables sender marker freshId).2 = .none) :
    EndedWhole s (s.step (.endTxn env sender marker freshId)) row.id marker ↔ NothingOpen s.tables sender := by
  obtain ⟨begins, -, -, after⟩ := endTxn_none known none
  have fresh := begins.2.2.2
  rw [after]
  constructor
  · intro whole found isFound id t present owner
    obtain rfl := Option.some.inj (isFound.symm.trans known)
    refine whole.settled id t ?_ ?_
    · rw [concluded_of_ne (ne_of_fresh fresh present)]
      exact present
    · exact (update_of_ne (ne_of_fresh fresh present) _ _).trans owner
  · intro nothing
    have unenrolled : ∀ a, a ∉ s.enrolled row.id := by
      intro a member
      obtain ⟨owner, t, present, ongoing⟩ := owned row.id a member
      exact nothing row known a.1 t present owner ongoing
    refine ⟨?_, ?_, ?_, ?_, ?_⟩
    · exact fun a member => (unenrolled a member).elim
    · exact fun a member => (unenrolled a member).elim
    · exact fun a member => (unenrolled a member).elim
    · intro id t present _
      rw [concluded_of_ne (ne_of_fresh fresh present)]
      exact present
    · intro id t present owner
      by_cases same : id = freshId
      · subst same
        have isThis : (concluded s.tables sender id row.id marker).transactions.transactions id =
            some ⟨some sender.orgId, marker.state, []⟩ := update_self _ _ _
        obtain rfl := Option.some.inj (isThis.symm.trans present)
        cases marker with
        | commit => exact fun no => nomatch no
        | abort => exact fun no => nomatch no
      · rw [concluded_of_ne same] at present
        exact nothing row known id t present ((update_of_ne same _ _).symm.trans owner)

theorem keeps_iff (owned : s.Owned) (r : TxnRequest) : s.Keeps r ↔ s.Sound r := by
  constructor
  · intro keeps
    constructor
    · intro sender sends begins
      by_contra stale
      exact (tables_eq_iff sends).mp (keeps.stale sender sends stale) begins
    · rintro env sender marker freshId rfl begins lists ends
      obtain ⟨refused, -⟩ | ⟨row, -, known, found⟩ := findTransaction_cases env s.tables sender freshId
      · exact (refused begins).elim
      · have none : (handleEndTxn env s.tables sender marker freshId).2 = .none := by
          rw [handleEndTxn_ok row marker found, if_pos ⟨lists, ends⟩]
        exact (endedWhole_iff owned known none).mp (keeps.whole env sender marker freshId row rfl known none)
  · intro sound
    constructor
    · intro sender sends stale
      exact (tables_eq_iff sends).mpr fun begins => stale (sound.current sender sends begins)
    · rintro env sender marker freshId row rfl known none
      obtain ⟨begins, lists, ends, -⟩ := endTxn_none known none
      exact (endedWhole_iff owned known none).mpr (sound.nothingOpen env sender marker freshId rfl begins lists ends)

end TxnSession

/-- **EndTxn ends a transaction as a whole**, and a stale sender changes nothing, in exactly the
runs in which only current senders come to begin a transaction and every EndTxn that goes
through finds nothing open of its producer: neither partitions nor offsets were ever added. -/
theorem ended_whole_iff (requests : List TxnRequest) :
    (∀ before r after, requests = before ++ r :: after → (run step .empty before).Keeps r) ↔
      Meets step Sound .empty requests := by
  rw [← meets_iff_forall]
  apply meets_congr Owned (fun s r owned => keeps_iff owned r) (fun s r owned _ => owned.step r)
  exact empty_owned

namespace Example

def working : TxnEnv := ⟨true, true, true, true, []⟩

/-- The producer "p" of the transactional id "txn", as InitProducerId made it. -/
def txnSender : TxnSender := ⟨"o", "txn", hashProducerId "p", 0, by decide⟩

theorem plain_ids : ∀ t ∈ "p" :: "o" :: (some "txn").toList, QuoteFree t := by decide

/-- A producer is made, enrolls a partition and commits. -/
def oneTransaction : List TxnRequest :=
  [.initProducerId ⟨true, true⟩ "o" (some "txn") "p" plain_ids, .addPartitionsToTxn working txnSender [("t", [0])] "x" (by decide),
    .endTxn working txnSender .commit "y"]

end Example

open Example

/-- The commit is answered without error; the transaction with the partition stays open, and
an empty one is committed. -/
theorem ended_whole_fails :
    (handleEndTxn working (run step .empty (oneTransaction.take 2)).tables txnSender .commit "y").2 =
        .none ∧
      (run step .empty oneTransaction).tables.transactions.transactions "x" =
        some ⟨some "o", .ongoing, [⟨⟨"t", 0⟩, 0, 0⟩]⟩ ∧
      (run step .empty oneTransaction).tables.transactions.transactions "y" =
        some ⟨some "o", .committed, []⟩ ∧
      ¬ ∀ (requests before : List TxnRequest) r after, requests = before ++ r :: after →
        (run step .empty before).Keeps r := by
  refine ⟨by decide, by decide, by decide, ?_⟩
  intro always
  have keeps := always oneTransaction (oneTransaction.take 2) _ [] rfl
  have whole := keeps.whole working txnSender .commit "y" ⟨"p", some "o", some "txn", 0, .active, none⟩ rfl (by decide)
    (by decide)
  obtain ⟨t, present, committed⟩ := whole.ended ("x", ⟨"t", 0⟩) (by decide)
  have isOpen : (run step .empty oneTransaction).tables.transactions.transactions "x" =
      some ⟨some "o", .ongoing, [⟨⟨"t", 0⟩, 0, 0⟩]⟩ := by decide
  obtain rfl := Option.some.inj (isOpen.symm.trans present)
  cases committed

end StreamHouse.Kafka
