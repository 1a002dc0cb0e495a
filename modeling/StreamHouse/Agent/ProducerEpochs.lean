import StreamHouse.Agent.Idempotence
import StreamHouse.Metadata.Segments

/-!
# Producer epochs

`init_producer` of `SqliteMetadataStore` and the two checks of a batch's epoch, in the
agent (`validate_idempotent`) and in the Kafka server (`process_records`). A second
`init_producer` under a transactional id raises the producer's epoch. The sequences
it has stored stay, and are asked for by the producer's id alone. Ids and topics get into
SQL as they are, so calls are modelled for those that are `QuoteFree`.
-/

namespace StreamHouse.Agent
open Lib Metadata List Option

/-- A row of `producers`, the columns that are read. -/
structure ProducerRow where
  id : String
  organizationId : Option String
  transactionalId : Option String
  epoch : Nat
  state : ProducerState
  numericId : Option Int
deriving DecidableEq

open ProducerRow

/-- What the checks of a batch look at. -/
def ProducerRow.producer (row : ProducerRow) : Producer := ⟨row.epoch, row.state⟩

/-- The tables `producers` and `producer_sequences`. -/
structure ProducerStore where
  producers : List ProducerRow
  sequences : String × TopicPartition → Option Int

namespace ProducerStore

def empty : ProducerStore := ⟨[], fun _ => none⟩

/-- `get_producer`. -/
def getProducer (s : ProducerStore) (producerId : String) : Option ProducerRow :=
  s.producers.find? fun row => row.id = producerId

/-- `get_producer_by_transactional_id`; no organization is `IS NULL`. -/
def getProducerByTransactionalId (s : ProducerStore) (transactionalId : String) (organizationId : Option String) :
    Option ProducerRow :=
  s.producers.find? fun row => row.transactionalId = some transactionalId ∧ row.organizationId = organizationId

/-- `get_producer_by_numeric_id`. -/
def getProducerByNumericId (s : ProducerStore) (numericId : Int) : Option ProducerRow :=
  s.producers.find? fun row => row.numericId = some numericId

end ProducerStore

open ProducerStore

/-- `NULLIF('{}', '')` of `unwrap_or("")`. -/
def nullIfEmpty (text : Option String) : Option String := text.filter fun t => t ≠ ""

/-- How the database fares with a call of `init_producer`. -/
structure InitEnv where
  reads : Bool
  writes : Bool
deriving DecidableEq

/-- `init_producer`; `freshId` is the UUID it makes. -/
def initProducer (env : InitEnv) (s : ProducerStore) (organizationId transactionalId : Option String) (freshId : String) :
    Except MetadataError ProducerRow × ProducerStore :=
  if env.reads = false ∧ transactionalId.isSome = true then (.error .database, s)
  else
    match transactionalId.bind fun t => s.getProducerByTransactionalId t organizationId with
    | some row =>
      if env.writes = false then (.error .database, s)
      else
        let newEpoch := (row.epoch + 1) % 2 ^ 32
        (.ok { row with epoch := newEpoch, state := .active },
          { s with producers := s.producers.map fun r =>
              if r.id = row.id then { r with epoch := newEpoch, state := .active } else r })
    | none =>
      if env.writes = false then (.error .database, s)
      else if s.producers.any (fun r => r.id = freshId) = true then (.error .uniqueViolation, s)
      else
        (.ok ⟨freshId, organizationId, transactionalId, 0, .active, none⟩,
          { s with producers := s.producers ++
              [⟨freshId, nullIfEmpty organizationId, nullIfEmpty transactionalId, 0, .active, none⟩] })

/-- The calls of a history. -/
inductive ProducerCall where
  | init (env : InitEnv) (organizationId transactionalId : Option String) (freshId : String)
      (plain : ∀ t ∈ freshId :: (organizationId.toList ++ transactionalId.toList), QuoteFree t)
  | check (env : SequenceEnv) (producerId : String) (partition : TopicPartition) (baseSequence : Int) (recordCount : Nat)
      (plain : ∀ t ∈ [producerId, partition.topic], QuoteFree t)
deriving DecidableEq

def ProducerStore.step (s : ProducerStore) : ProducerCall → ProducerStore
  | .init env organizationId transactionalId freshId _ => (initProducer env s organizationId transactionalId freshId).2
  | .check env producerId partition baseSequence recordCount _ =>
    let (_, stored) := checkAndUpdateSequence env (s.sequences (producerId, partition)) baseSequence recordCount
    { s with sequences := Function.update s.sequences (producerId, partition) stored }

/-- `producer_epoch as u32`, for the `i16` of a batch that carries this epoch. -/
def kafkaEpoch (epoch : Nat) : Nat := ((BitVec.ofNat 16 epoch).signExtend 32).toNat

/-- A database that does what it is asked. -/
def healthy : SequenceEnv := ⟨true, true, true, true, true⟩

/-- A first batch of the producer, with base sequence 0 and its epoch, is new on every partition. -/
def CanProduce (s : ProducerStore) (row : ProducerRow) : Prop :=
  ∀ partition recordCount, QuoteFree partition.topic → (validateIdempotent (.ok ((s.getProducer row.id).map producer)) row.epoch healthy 0
    recordCount (s.sequences (row.id, partition))).1 = .ok true

/-- A batch with an earlier epoch than the producer's is refused by the agent and by the
Kafka server, whatever numeric id it comes under. -/
def Fenced (s : ProducerStore) (row : ProducerRow) : Prop :=
  ∀ epoch < row.epoch, ∀ (env : SequenceEnv) (baseSequence : Int) (topic : String) (records : BatchRecords) (stored : Option Int),
    (∃ e, validateIdempotent (.ok ((s.getProducer row.id).map producer)) epoch env baseSequence records.length stored =
      (.error e, stored)) ∧
    ∀ numericId attempts, ∃ e, processRecords (.ok ((s.getProducerByNumericId numericId).map producer))
      (kafkaEpoch epoch) env attempts topic records baseSequence stored = ⟨.refused e, stored, .nothing⟩

/-! ## Reachable stores -/

/-- The primary key of `producers`, and no numeric ids: `init_producer` leaves them null. -/
structure ProducerStore.Inv (s : ProducerStore) : Prop where
  distinct : s.producers.Pairwise fun a b => a.id ≠ b.id
  numberless : ∀ row ∈ s.producers, row.numericId = none

theorem ProducerStore.Inv.empty : empty.Inv := ⟨List.Pairwise.nil, fun _ no => nomatch no⟩

/-- What a call of `init_producer` does to the tables: nothing, a raised epoch, or a new row. -/
theorem initProducer_cases (env : InitEnv) (s : ProducerStore) (organizationId transactionalId : Option String) (freshId : String) :
    (∃ e, initProducer env s organizationId transactionalId freshId = (.error e, s)) ∨
      (∃ row, (transactionalId.bind fun t => s.getProducerByTransactionalId t organizationId) = some row ∧
        initProducer env s organizationId transactionalId freshId =
          (.ok { row with epoch := (row.epoch + 1) % 2 ^ 32, state := .active },
            { s with producers := s.producers.map fun r =>
                if r.id = row.id then { r with epoch := (row.epoch + 1) % 2 ^ 32, state := .active } else r })) ∨
      ((transactionalId.bind fun t => s.getProducerByTransactionalId t organizationId) = none ∧
        (∀ row ∈ s.producers, row.id ≠ freshId) ∧
        initProducer env s organizationId transactionalId freshId =
          (.ok ⟨freshId, organizationId, transactionalId, 0, .active, none⟩,
            { s with producers := s.producers ++
                [⟨freshId, nullIfEmpty organizationId, nullIfEmpty transactionalId, 0, .active, none⟩] })) := by
  unfold initProducer
  split
  · exact .inl ⟨_, rfl⟩
  · split
    · next row found =>
      split
      · exact .inl ⟨_, rfl⟩
      · exact .inr (.inl ⟨row, found, rfl⟩)
    · next missing =>
      split
      · exact .inl ⟨_, rfl⟩
      · split
        · exact .inl ⟨_, rfl⟩
        · next free =>
          refine .inr (.inr ⟨missing, fun row inside same => ?_, rfl⟩)
          exact free (any_eq_true.mpr ⟨row, inside, by simpa using same⟩)

theorem ProducerStore.Inv.step {s : ProducerStore} (inv : s.Inv) (call : ProducerCall) : (s.step call).Inv := by
  cases call with
  | check env producerId partition baseSequence recordCount => exact ⟨inv.distinct, inv.numberless⟩
  | init env organizationId transactionalId freshId =>
    rw [ProducerStore.step]
    obtain ⟨e, failed⟩ | ⟨row, -, raised⟩ | ⟨-, fresh, made⟩ := initProducer_cases env s organizationId transactionalId freshId
    · rw [failed]
      exact inv
    · rw [raised]
      constructor
      · apply pairwise_map.mpr
        apply inv.distinct.imp
        intro a b apart
        split <;> split <;> exact apart
      · intro r inside
        obtain ⟨a, old, rfl⟩ := mem_map.mp inside
        have bare := inv.numberless a old
        split <;> exact bare
    · rw [made]
      constructor
      · apply List.pairwise_append.mpr
        refine ⟨inv.distinct, pairwise_singleton _ _, fun a old b new => ?_⟩
        rw [mem_singleton.mp new]
        exact fresh a old
      · intro r inside
        obtain old | new := mem_append.mp inside
        · exact inv.numberless r old
        · rw [mem_singleton.mp new]

theorem ProducerStore.Inv.run {s : ProducerStore} (inv : s.Inv) (calls : List ProducerCall) :
    (run ProducerStore.step s calls).Inv :=
  run_invariant ProducerStore.Inv (fun _ call inv => inv.step call) inv calls

namespace ProducerStore

variable {s : ProducerStore}

theorem getProducer_of_mem (inv : s.Inv) {row : ProducerRow} (inside : row ∈ s.producers) : s.getProducer row.id = some row := by
  obtain ⟨before, after, whole⟩ := append_of_mem inside
  have distinct := inv.distinct
  rw [whole] at distinct
  have earlier : ∀ r ∈ before, r.id ≠ row.id := fun r early =>
    (List.pairwise_append.mp distinct).2.2 r early row mem_cons_self
  rw [getProducer, whole, find?_append, find?_eq_none.mpr (fun r early => by simpa using earlier r early),
    find?_cons_of_pos (by simp)]
  rfl

/-- The store after an epoch was raised has the raised row. -/
theorem getProducer_raised (inv : s.Inv) {row : ProducerRow} (inside : row ∈ s.producers) (epoch : Nat) :
    ({ s with producers := s.producers.map fun r => if r.id = row.id then { r with epoch, state := .active } else r } :
      ProducerStore).getProducer row.id = some { row with epoch, state := .active } := by
  have same : (fun r : ProducerRow => decide (r.id = row.id)) ∘ (fun r : ProducerRow =>
      if r.id = row.id then { r with epoch, state := .active } else r) = fun r => decide (r.id = row.id) := by
    funext r
    rw [Function.comp_apply]
    split <;> rfl
  have found := getProducer_of_mem inv inside
  rw [getProducer] at found ⊢
  rw [find?_map, same, found, map_some, if_pos rfl]

theorem getProducerByNumericId_eq_none (inv : s.Inv) (numericId : Int) : s.getProducerByNumericId numericId = none := by
  apply find?_eq_none.mpr
  intro row inside
  rw [inv.numberless row inside]
  simp

end ProducerStore

/-! ## After an epoch was raised -/

/-- Base sequence 0 is new where nothing is stored, or the sequence before 0. -/
theorem checkAndUpdateSequence_zero (stored : Option Int) (recordCount : Nat) :
    (checkAndUpdateSequence healthy stored 0 recordCount).1 = .ok true ↔ stored.getD (-1) = -1 := by
  have last : lastSequence healthy stored = stored.getD (-1) := rfl
  rw [checkAndUpdateSequence, if_neg (by decide), last]
  by_cases duplicate : 0 ≤ stored.getD (-1)
  · rw [if_pos duplicate]
    apply iff_of_false
    · intro same
      cases same
    · omega
  · rw [if_neg duplicate]
    by_cases gap : 0 > stored.getD (-1) + 1
    · rw [if_pos gap]
      apply iff_of_false
      · intro same
        cases same
      · omega
    · rw [if_neg gap]
      refine iff_of_true rfl ?_
      omega

theorem validateIdempotent_active {p : Producer} (active : p.state = .active) (epoch : Nat) (env : SequenceEnv) (baseSequence : Int)
    (recordCount : Nat) (stored : Option Int) :
    validateIdempotent (.ok (some p)) epoch env baseSequence recordCount stored =
      if p.epoch ≠ epoch then (.error (.epochMismatch p.epoch epoch), stored)
      else ((checkAndUpdateSequence env stored baseSequence recordCount).1.mapError .sequence,
        (checkAndUpdateSequence env stored baseSequence recordCount).2) := by
  rw [validateIdempotent, active, if_neg (by decide), if_neg (by decide)]

theorem canProduce_iff {s : ProducerStore} {row : ProducerRow} (stored : s.getProducer row.id = some row)
    (active : row.state = .active) : CanProduce s row ↔
      ∀ partition, QuoteFree partition.topic → (s.sequences (row.id, partition)).getD (-1) = -1 := by
  have validated : ∀ partition recordCount, (validateIdempotent (.ok ((s.getProducer row.id).map producer)) row.epoch
      healthy 0 recordCount (s.sequences (row.id, partition))).1 =
        (checkAndUpdateSequence healthy (s.sequences (row.id, partition)) 0 recordCount).1.mapError .sequence := by
    intro partition recordCount
    have current : ¬ row.producer.epoch ≠ row.epoch := not_not.mpr rfl
    rw [stored, map_some, validateIdempotent_active active, if_neg current]
  have mapped : ∀ result : Except SequenceError Bool, result.mapError ProduceError.sequence = .ok true ↔ result = .ok true := by
    intro result
    cases result with
    | error e => exact iff_of_false (fun no => nomatch no) (fun no => nomatch no)
    | ok b => exact ⟨fun same => by rw [Except.ok.inj same], fun same => by rw [same]; rfl⟩
  constructor
  · intro can partition plain
    have accepted := can partition 1 plain
    rw [validated, mapped, checkAndUpdateSequence_zero] at accepted
    exact accepted
  · intro blank partition recordCount plain
    rw [validated, mapped, checkAndUpdateSequence_zero]
    exact blank partition plain

theorem fenced_of {s : ProducerStore} (inv : s.Inv) {row : ProducerRow} (stored : s.getProducer row.id = some row)
    (active : row.state = .active) : Fenced s row := by
  intro epoch earlier env baseSequence topic records last
  constructor
  · refine ⟨.epochMismatch row.epoch epoch, ?_⟩
    have other : row.producer.epoch ≠ epoch := Nat.ne_of_gt earlier
    rw [stored, map_some, validateIdempotent_active active, if_pos other]
    rfl
  · intro numericId attempts
    exact ⟨.unknownProducer, by rw [getProducerByNumericId_eq_none inv]; rfl⟩

/-- **When a raised epoch takes effect**: earlier epochs are refused everywhere; the new one
can begin at sequence 0 exactly if the producer has stored no sequence yet, since
`init_producer` leaves the sequences as they are. -/
theorem new_epoch_iff (calls : List ProducerCall) (env : InitEnv) (organizationId : Option String) (transactionalId freshId : String)
    (plain : ∀ t ∈ freshId :: (organizationId.toList ++ [transactionalId]), QuoteFree t) (before row : ProducerRow)
    (after : ProducerStore)
    (known : (run step .empty calls).getProducerByTransactionalId transactionalId organizationId = some before)
    (returned : initProducer env (run step .empty calls) organizationId (some transactionalId) freshId =
      (.ok row, after)) (_raised : before.epoch < row.epoch) :
    (CanProduce after row ∧ Fenced after row) ↔
      ∀ partition, QuoteFree partition.topic → ((run ProducerStore.step .empty calls).sequences (before.id, partition)).getD (-1) = -1 := by
  have inv := ProducerStore.Inv.empty.run calls
  have kept : (initProducer env (run step .empty calls) organizationId (some transactionalId) freshId).2.Inv :=
    inv.step (.init env organizationId (some transactionalId) freshId plain)
  rw [returned] at kept
  generalize run step .empty calls = s at *
  obtain ⟨e, failed⟩ | ⟨found, isFound, raised⟩ | ⟨missing, -, -⟩ :=
    initProducer_cases env s organizationId (some transactionalId) freshId
  · rw [failed] at returned
    cases (Prod.mk.inj returned).1
  · have same : found = before := some.inj (isFound.symm.trans known)
    rw [same] at raised
    obtain ⟨isRow, isAfter⟩ := Prod.mk.inj (raised.symm.trans returned)
    have isRow := Except.ok.inj isRow
    have inside : before ∈ s.producers := mem_of_find?_eq_some known
    have stored := getProducer_raised inv inside ((before.epoch + 1) % 2 ^ 32)
    rw [isAfter, isRow] at stored
    have id : row.id = before.id := by rw [← isRow]
    have active : row.state = .active := by rw [← isRow]
    have sequences : after.sequences = s.sequences := by rw [← isAfter]
    rw [← id] at stored
    rw [canProduce_iff stored active, sequences, id]
    exact ⟨fun both => both.1, fun blank => ⟨blank, fenced_of kept stored active⟩⟩
  · rw [bind_some, known] at missing
    cases missing

namespace Example

def working : InitEnv := ⟨true, true⟩

/-- A producer is made, and made again. -/
def twoInits : List ProducerCall := [.init working (some "o") (some "txn") "p" (by decide)]

/-- In between it produces one record. -/
def initAndProduce : List ProducerCall := twoInits ++ [.check healthy "p" ⟨"t", 0⟩ 0 1 (by decide)]

def raisedRow : ProducerRow := ⟨"p", some "o", some "txn", 1, .active, none⟩

end Example

open Example

theorem new_epoch_first_batch :
    CanProduce (initProducer working (run step .empty twoInits) (some "o") (some "txn") "q").2
      raisedRow := by
  have works := (new_epoch_iff twoInits working (some "o") "txn" "q" (by decide) ⟨"p", some "o", some "txn", 0, .active, none⟩
    raisedRow _ (by decide) rfl (by decide)).mpr (fun _ _ => rfl)
  exact works.1

/-- The new epoch's first batch, for a partition the old one has produced to, is taken for a duplicate. -/
theorem new_epoch_duplicate :
    ¬ ∀ (calls : List ProducerCall) (env : InitEnv) (organizationId : Option String) (transactionalId freshId : String)
      (before row : ProducerRow) (after : ProducerStore),
      (run step .empty calls).getProducerByTransactionalId transactionalId organizationId = some before →
        initProducer env (run step .empty calls) organizationId (some transactionalId) freshId = (.ok row, after) →
          before.epoch < row.epoch → CanProduce after row ∧ Fenced after row := by
  intro always
  obtain ⟨can, -⟩ := always initAndProduce working (some "o") "txn" "q" ⟨"p", some "o", some "txn", 0, .active, none⟩
    raisedRow _ (by decide) rfl (by decide)
  have accepted := can ⟨"t", 0⟩ 1 (by decide)
  revert accepted
  decide

end StreamHouse.Agent
