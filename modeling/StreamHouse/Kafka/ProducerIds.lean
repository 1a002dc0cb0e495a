import StreamHouse.Kafka.Transactions

/-!
# Producer ids over the Kafka protocol

InitProducerId is answered with a hash of the producer's UUID. The produce handler looks
the producer of a batch up by the column `numeric_id`, which only
`allocate_numeric_producer_id` fills in. Nothing calls that, so no id that was given out
leads back to its producer.
-/

namespace StreamHouse.Kafka
open Lib Metadata Agent TxnTables

/-- An InitProducerId request, with how the database fares and the UUID that is drawn. -/
structure InitRequest where
  env : InitEnv
  orgId : String
  transactionalId : Option String
  freshId : String
  plain : ∀ t ∈ freshId :: orgId :: transactionalId.toList, QuoteFree t

namespace InitRequest

variable (r : InitRequest) (s : TxnTables)

/-- The code, the producer id and the epoch of the answer. -/
def answer : TxnErrorCode × BitVec 64 × BitVec 16 :=
  (handleInitProducerId r.env s r.orgId r.transactionalId r.freshId).2

/-- The producer of the answer, if it is not an error. -/
def producer : Option ProducerRow :=
  (initProducer r.env s.producers (some r.orgId) r.transactionalId r.freshId).1.toOption

/-- The request raises the epoch that `earlier` was answered with. -/
def Supersedes (earlier : InitRequest) : Prop :=
  r.orgId = earlier.orgId ∧ r.transactionalId = earlier.transactionalId ∧ r.transactionalId.isSome = true

end InitRequest

def TxnTables.initStep (s : TxnTables) (r : InitRequest) : TxnTables :=
  (handleInitProducerId r.env s r.orgId r.transactionalId r.freshId).1

/-- The producer that `process_records` takes a batch for: the row under the batch's producer
id, if its epoch is `producer_epoch as u32`. -/
def resolveProducer (s : ProducerStore) (producerId : BitVec 64) (producerEpoch : BitVec 16) : Option ProducerRow :=
  (s.getProducerByNumericId producerId.toInt).filter fun row => row.epoch = (producerEpoch.signExtend 32).toNat

/-- Every id and epoch that is given out is resolved to its producer until the epoch is raised,
and no other producer is given the same id. -/
def Unambiguous (requests : List InitRequest) : Prop :=
  ∀ before r after row, requests = before ++ r :: after → r.producer (run initStep .empty before) = some row →
    (∀ later rest, after = later ++ rest → (∀ l ∈ later, ¬ l.Supersedes r) →
      (resolveProducer (run initStep .empty (before ++ r :: later)).producers
        (r.answer (run initStep .empty before)).2.1 (r.answer (run initStep .empty before)).2.2).map
          ProducerRow.id = some row.id) ∧
    ∀ before' r' after' row', requests = before' ++ r' :: after' →
      r'.producer (run initStep .empty before') = some row' → row'.id ≠ row.id →
        (r'.answer (run initStep .empty before')).2.1 ≠ (r.answer (run initStep .empty before)).2.1

/-- The request is answered with an error: a statement fails, or a new producer's UUID is taken. -/
def InitRequest.Refused (s : TxnTables) (r : InitRequest) : Prop :=
  (r.env.reads = false ∧ r.transactionalId.isSome = true) ∨ r.env.writes = false ∨
    ((r.transactionalId.bind fun t => s.producers.getProducerByTransactionalId t (some r.orgId)) = none ∧
      ∃ row ∈ s.producers.producers, row.id = r.freshId)

instance (s : TxnTables) (r : InitRequest) : Decidable (r.Refused s) :=
  inferInstanceAs (Decidable (_ ∨ _ ∨ _))

/-! ## Numeric ids are never set -/

theorem initStep_producers (s : TxnTables) (r : InitRequest) :
    (s.initStep r).producers = s.producers.step (.init r.env (some r.orgId) r.transactionalId r.freshId r.plain) := by
  show (s.initStep r).producers = (initProducer r.env s.producers (some r.orgId) r.transactionalId r.freshId).2
  rw [initStep, handleInitProducerId]
  cases initProducer r.env s.producers (some r.orgId) r.transactionalId r.freshId with
  | mk result producers => cases result <;> rfl

/-- What is stored after InitProducerId requests has no numeric ids. -/
theorem numberless_run (requests : List InitRequest) : (run initStep .empty requests).producers.Inv := by
  refine run_invariant (fun s : TxnTables => s.producers.Inv) (fun s r inv => ?_) ProducerStore.Inv.empty requests
  rw [initStep_producers]
  exact inv.step _

theorem resolveProducer_eq_none {s : ProducerStore} (inv : s.Inv) (producerId : BitVec 64) (producerEpoch : BitVec 16) :
    resolveProducer s producerId producerEpoch = none := by
  rw [resolveProducer, ProducerStore.getProducerByNumericId_eq_none inv]
  rfl

/-- A request is answered for a producer unless it is refused. -/
theorem InitRequest.producer_isSome (s : TxnTables) (r : InitRequest) : (r.producer s).isSome = true ↔ ¬ r.Refused s := by
  rw [InitRequest.producer, initProducer, InitRequest.Refused]
  split
  · next unread => exact iff_of_false (fun no => nomatch no) (fun no => no (.inl unread))
  · next read =>
    split
    · next row found =>
      split
      · next unwritten => exact iff_of_false (fun no => nomatch no) (fun no => no (.inr (.inl unwritten)))
      · next written =>
        refine iff_of_true rfl ?_
        rintro (unread | unwritten | ⟨missing, -⟩)
        · exact read unread
        · exact written unwritten
        · rw [found] at missing
          cases missing
    · next missing =>
      split
      · next unwritten => exact iff_of_false (fun no => nomatch no) (fun no => no (.inr (.inl unwritten)))
      · next written =>
        split
        · next taken =>
          obtain ⟨row, inside, same⟩ := List.any_eq_true.mp taken
          exact iff_of_false (fun no => nomatch no) (fun no => no (.inr (.inr ⟨missing, row, inside, of_decide_eq_true same⟩)))
        · next free =>
          refine iff_of_true rfl ?_
          rintro (unread | unwritten | ⟨-, row, inside, same⟩)
          · exact read unread
          · exact written unwritten
          · exact free (List.any_eq_true.mpr ⟨row, inside, decide_eq_true same⟩)

/-- Whatever was given out, it is resolved to no producer. -/
theorem not_unambiguous {requests before after : List InitRequest} {r : InitRequest} (cut : requests = before ++ r :: after)
    (accepted : ¬ r.Refused (run initStep .empty before)) : ¬ Unambiguous requests := by
  intro all
  obtain ⟨row, given⟩ := Option.isSome_iff_exists.mp ((r.producer_isSome _).mpr accepted)
  have resolved := (all before r after row cut given).1 [] after rfl (fun _ no => nomatch no)
  rw [resolveProducer_eq_none (numberless_run _)] at resolved
  cases resolved

/-- **No id is usable**: an id and epoch that InitProducerId gives out is never resolved by the
produce handler, so the promise is kept only where every request is refused. -/
theorem producer_ids_iff (requests : List InitRequest) :
    Unambiguous requests ↔ Meets initStep (fun s r => r.Refused s) .empty requests := by
  rw [meets_iff_forall]
  constructor
  · intro all before r after cut
    by_contra accepted
    exact not_unambiguous cut accepted all
  · intro refused before r after row cut given
    have accepted := (r.producer_isSome (run initStep .empty before)).mp (by rw [given]; rfl)
    exact absurd (refused before r after cut) accepted

/-- The first InitProducerId of an idempotent producer. -/
theorem producer_ids_fail : ¬ ∀ requests, Unambiguous requests := fun all =>
  @not_unambiguous [⟨⟨true, true⟩, "o", none, "p", by decide⟩] [] [] ⟨⟨true, true⟩, "o", none, "p", by decide⟩ rfl (by decide) (all _)

end StreamHouse.Kafka
