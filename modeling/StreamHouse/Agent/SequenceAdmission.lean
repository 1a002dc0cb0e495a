import StreamHouse.Agent.Idempotence
import StreamHouse.Core.I64

/-!
# Which sequence numbers are admitted

`check_and_update_sequence` on its own: every call of every producer, in any order and with any
sequence numbers, and the database as in `SequenceEnv`. It looks at the first number of a batch
only: a batch that begins within what is admitted is a duplicate, however far it goes on.
`admitsOnce_iff` says which calls do no harm.
-/

namespace StreamHouse.Agent.Sequences
open Lib List Function

/-- The primary key of `producer_sequences`; the statements hold the names as they are. -/
structure ProducerPartition where
  producerId : String
  topic : String
  partitionId : Nat
  plain : Metadata.QuoteFree producerId ∧ Metadata.QuoteFree topic
deriving DecidableEq

/-- Sequence numbers from `baseSequence` on, `recordCount` of them. -/
structure Batch where
  baseSequence : Int
  recordCount : Nat

/-- The number is one of the batch. -/
def Batch.Has (b : Batch) (n : Int) : Prop := b.baseSequence ≤ n ∧ n < b.baseSequence + b.recordCount

/-- `base_sequence + record_count as i64 - 1`. -/
def Batch.newSequence (b : Batch) : Int := I64.wrap (b.baseSequence + b.recordCount - 1)

/-- `check_and_update_sequence`. Where `last_sequence + 1` is computed, it is an `i64`. -/
def checkAndUpdateSequence (env : SequenceEnv) (stored : Option Int) (b : Batch) : Except SequenceError Bool × Option Int :=
  if env.begins = false then (.error .database, stored)
  else if b.baseSequence ≤ lastSequence env stored then (.ok false, stored)
  else if b.baseSequence > lastSequence env stored + 1 then
    (.error (.gap (lastSequence env stored + 1) b.baseSequence), stored)
  else if env.updates = false then (.error .database, stored)
  else if env.commits then (.ok true, some b.newSequence)
  else (.error .database, if env.stores then some b.newSequence else stored)

/-- A call with an `i64` and a `u32` that is not 0. -/
structure SequenceCall where
  env : SequenceEnv
  key : ProducerPartition
  batch : Batch
  fits : I64.Fits batch.baseSequence
  positive : 1 ≤ batch.recordCount
  word : batch.recordCount < 2 ^ 32

/-- The table, and the batches that were accepted as new so far. -/
structure Admissions where
  stored : ProducerPartition → Option Int
  accepted : ProducerPartition → List Batch

namespace Admissions

def start : Admissions := ⟨fun _ => none, fun _ => []⟩

/-- What the call is answered. -/
def answer (s : Admissions) (c : SequenceCall) : Except SequenceError Bool := (checkAndUpdateSequence c.env (s.stored c.key) c.batch).1

/-- What of the batches the call leaves. -/
def admitted (answer : Except SequenceError Bool) (accepted : List Batch) (b : Batch) : List Batch :=
  match answer with
  | .ok true => accepted ++ [b]
  | _ => accepted

def step (s : Admissions) (c : SequenceCall) : Admissions where
  stored := Function.update s.stored c.key (checkAndUpdateSequence c.env (s.stored c.key) c.batch).2
  accepted := Function.update s.accepted c.key (admitted (s.answer c) (s.accepted c.key) c.batch)

end Admissions

open Admissions

/-- `last_sequence`, -1 if there is no row. -/
def lastOf (stored : Option Int) : Int := stored.getD (-1)

/-- The numbers accepted are those from 0 to the stored one, each in one batch. -/
structure Exact (stored : Option Int) (accepted : List Batch) : Prop where
  numbers : ∀ n, (∃ b ∈ accepted, b.Has n) ↔ 0 ≤ n ∧ n ≤ lastOf stored
  apart : accepted.Pairwise fun b d => ∀ n, ¬ (b.Has n ∧ d.Has n)

/-- A duplicate has been accepted already, and a call that is rejected leaves the stored number. -/
structure Answered (s : Admissions) (c : SequenceCall) : Prop where
  duplicate : s.answer c = .ok false → ∀ n, c.batch.Has n → ∃ b ∈ s.accepted c.key, b.Has n
  rejected : ∀ e, s.answer c = .error e → (s.step c).stored = s.stored

/-- Of every producer and partition, each number is admitted once and in order. -/
structure AdmitsOnce (calls : List SequenceCall) : Prop where
  exact : ∀ before after, calls = before ++ after →
    ∀ k, Exact ((run step .start before).stored k) ((run step .start before).accepted k)
  answered : ∀ before c after, calls = before ++ c :: after → Answered (run step .start before) c

/-- A batch that begins within what is admitted ends there, and does not begin below 0; one that goes on behind what was read goes on behind
what is stored, and its end is an `i64`; and one whose commit fails does not take effect, unless its end is stored. -/
structure Orderly (stored : Option Int) (env : SequenceEnv) (b : Batch) : Prop where
  repeats : env.begins = true → b.baseSequence ≤ lastSequence env stored →
    0 ≤ b.baseSequence ∧ b.baseSequence + b.recordCount - 1 ≤ lastOf stored
  continues : env.begins = true → b.baseSequence = lastSequence env stored + 1 → env.updates = true → env.commits = true →
    b.baseSequence = lastOf stored + 1 ∧ b.baseSequence + b.recordCount ≤ 2 ^ 63
  unstored : env.begins = true → b.baseSequence = lastSequence env stored + 1 → env.updates = true → env.commits = false →
    env.stores = true → stored = some b.newSequence

/-! ## One call -/

/-- The outcomes of the check. -/
theorem check_cases (env : SequenceEnv) (stored : Option Int) (b : Batch) :
    ((env.begins = false ∨ b.baseSequence > lastSequence env stored + 1 ∨
        b.baseSequence = lastSequence env stored + 1 ∧ env.updates = false) ∧
      ∃ e, checkAndUpdateSequence env stored b = (.error e, stored)) ∨
    (env.begins = true ∧ b.baseSequence ≤ lastSequence env stored ∧ checkAndUpdateSequence env stored b = (.ok false, stored)) ∨
    (env.begins = true ∧ b.baseSequence = lastSequence env stored + 1 ∧ env.updates = true ∧
      (env.commits = true ∧ checkAndUpdateSequence env stored b = (.ok true, some b.newSequence) ∨
        env.commits = false ∧
          checkAndUpdateSequence env stored b = (.error .database, if env.stores then some b.newSequence else stored))) := by
  unfold checkAndUpdateSequence
  by_cases begins : env.begins = false
  · exact .inl ⟨.inl begins, .database, by rw [if_pos begins]⟩
  rw [if_neg begins]
  have begins : env.begins = true := by simpa using begins
  by_cases seen : b.baseSequence ≤ lastSequence env stored
  · exact .inr (.inl ⟨begins, seen, by rw [if_pos seen]⟩)
  rw [if_neg seen]
  by_cases ahead : b.baseSequence > lastSequence env stored + 1
  · exact .inl ⟨.inr (.inl ahead), _, by rw [if_pos ahead]⟩
  rw [if_neg ahead]
  have next : b.baseSequence = lastSequence env stored + 1 := by omega
  by_cases updates : env.updates = false
  · exact .inl ⟨.inr (.inr ⟨next, updates⟩), .database, by rw [if_pos updates]⟩
  rw [if_neg updates]
  refine .inr (.inr ⟨begins, next, by simpa using updates, ?_⟩)
  cases commits : env.commits with
  | true => exact .inl ⟨rfl, by rw [if_pos rfl]⟩
  | false => exact .inr ⟨rfl, by rw [if_neg Bool.false_ne_true]⟩

/-- A row holds an `i64` that is no less than -1. -/
def Word (stored : Option Int) : Prop := -1 ≤ lastOf stored ∧ lastOf stored < 2 ^ 63

instance instDecidableWord (stored : Option Int) : Decidable (Word stored) :=
  inferInstanceAs (Decidable (-1 ≤ lastOf stored ∧ lastOf stored < 2 ^ 63))

section

variable {stored : Option Int} {accepted : List Batch} {b : Batch}

/-- The end of a batch whose numbers are `i64`s. -/
theorem newSequence_eq (low : 0 ≤ b.baseSequence) (positive : 1 ≤ b.recordCount) (end_ : b.baseSequence + b.recordCount ≤ 2 ^ 63) :
    b.newSequence = b.baseSequence + b.recordCount - 1 := by
  apply I64.wrap_of_fits
  unfold I64.Fits I64.least
  omega

theorem Exact.append_iff (exact_ : Exact stored accepted) (word : Word stored) (fits : I64.Fits b.baseSequence)
    (positive : 1 ≤ b.recordCount) (short : b.recordCount < 2 ^ 32) :
    Exact (some b.newSequence) (accepted ++ [b]) ↔ b.baseSequence = lastOf stored + 1 ∧ b.baseSequence + b.recordCount ≤ 2 ^ 63 := by
  obtain ⟨low, high⟩ := word
  obtain ⟨-, below⟩ := fits
  constructor
  · intro next
    have inside (n : Int) (here : b.Has n) : 0 ≤ n ∧ n ≤ b.newSequence :=
      (next.numbers n).mp ⟨b, mem_append_right _ mem_cons_self, here⟩
    have apart (n : Int) (here : b.Has n) : ¬ (0 ≤ n ∧ n ≤ lastOf stored) := by
      intro before
      obtain ⟨d, listed, has⟩ := (exact_.numbers n).mpr before
      exact (List.pairwise_append.mp next.apart).2.2 d listed b mem_cons_self n ⟨has, here⟩
    have first : b.Has b.baseSequence := ⟨Int.le_refl _, by omega⟩
    have last : b.Has (b.baseSequence + b.recordCount - 1) := ⟨by omega, by omega⟩
    obtain ⟨positiveBase, -⟩ := inside _ first
    have behind := apart _ first
    have reached := (inside _ last).2
    have end_ : b.baseSequence + b.recordCount - 1 < 2 ^ 63 := by
      have bound := (I64.fits_wrap (b.baseSequence + b.recordCount - 1)).2
      unfold Batch.newSequence at reached
      omega
    have whole := newSequence_eq positiveBase positive (by omega)
    refine ⟨?_, by omega⟩
    -- the number behind the stored one is admitted, and it is of the new batch
    obtain ⟨d, listed, has⟩ := (next.numbers (lastOf stored + 1)).mpr ⟨by omega, show _ ≤ b.newSequence by omega⟩
    rcases mem_append.mp listed with old | new_
    · have seen := (exact_.numbers _).mp ⟨d, old, has⟩
      omega
    · obtain rfl := mem_singleton.mp new_
      obtain ⟨least, -⟩ := has
      omega
  · rintro ⟨next, end_⟩
    have whole := newSequence_eq (by omega) positive end_
    have numbers (n : Int) : b.Has n ↔ lastOf stored < n ∧ n ≤ b.newSequence := by
      unfold Batch.Has
      omega
    refine ⟨fun n => ?_, ?_⟩
    · rw [show lastOf (some b.newSequence) = b.newSequence from rfl]
      have old := exact_.numbers n
      have new_ := numbers n
      constructor
      · rintro ⟨d, listed, has⟩
        rcases mem_append.mp listed with before | last
        · have seen := old.mp ⟨d, before, has⟩
          omega
        · obtain rfl := mem_singleton.mp last
          have range := new_.mp has
          omega
      · rintro ⟨least, most⟩
        by_cases before : n ≤ lastOf stored
        · obtain ⟨d, listed, has⟩ := old.mpr ⟨least, before⟩
          exact ⟨d, mem_append_left _ listed, has⟩
        · exact ⟨b, mem_append_right _ mem_cons_self, new_.mpr ⟨by omega, most⟩⟩
    · refine List.pairwise_append.mpr ⟨exact_.apart, pairwise_singleton _ _, ?_⟩
      rintro d listed e last n ⟨hasD, hasE⟩
      obtain rfl := mem_singleton.mp last
      have seen := (exact_.numbers n).mp ⟨d, listed, hasD⟩
      have range := (numbers n).mp hasE
      omega

/-- A batch of numbers that are admitted. -/
theorem Exact.covers_iff (exact_ : Exact stored accepted) (positive : 1 ≤ b.recordCount) :
    (∀ n, b.Has n → ∃ d ∈ accepted, d.Has n) ↔ 0 ≤ b.baseSequence ∧ b.baseSequence + b.recordCount - 1 ≤ lastOf stored := by
  constructor
  · intro covered
    have first := (exact_.numbers _).mp (covered b.baseSequence ⟨Int.le_refl _, by omega⟩)
    have last := (exact_.numbers _).mp (covered (b.baseSequence + b.recordCount - 1) ⟨by omega, by omega⟩)
    omega
  · rintro ⟨least, most⟩ n ⟨low, high⟩
    exact (exact_.numbers n).mpr ⟨by omega, by omega⟩

/-- A call that the check rejects, or that fails before it has written anything, does no harm. -/
theorem orderly_of_idle {env : SequenceEnv} (idle : env.begins = false ∨ b.baseSequence > lastSequence env stored + 1 ∨
    b.baseSequence = lastSequence env stored + 1 ∧ env.updates = false) : Orderly stored env b := by
  have stopped (begins : env.begins = true) (next : b.baseSequence = lastSequence env stored + 1) : env.updates = false := by
    rcases idle with no | ahead | ⟨-, fails⟩
    · rw [begins] at no
      cases no
    · omega
    · exact fails
  refine ⟨fun begins seen => ?_, fun begins next updates => ?_, fun begins next updates => ?_⟩
  · rcases idle with no | ahead | ⟨next, -⟩
    · rw [begins] at no
      cases no
    · omega
    · omega
  · rw [stopped begins next] at updates
    cases updates
  · rw [stopped begins next] at updates
    cases updates

end

namespace Admissions

variable {s : Admissions} {c : SequenceCall}

/-- The table and the batches are right for every producer and partition. -/
structure Admits (s : Admissions) : Prop where
  exact : ∀ k, Exact (s.stored k) (s.accepted k)
  word : ∀ k, Word (s.stored k)

theorem step_of_ne {k : ProducerPartition} (other : k ≠ c.key) :
    (s.step c).stored k = s.stored k ∧ (s.step c).accepted k = s.accepted k :=
  ⟨update_of_ne other _ _, update_of_ne other _ _⟩

/-- What a call does with its own key. -/
theorem step_of_checked {answer : Except SequenceError Bool} {stored : Option Int}
    (checked : checkAndUpdateSequence c.env (s.stored c.key) c.batch = (answer, stored)) :
    s.answer c = answer ∧ (s.step c).stored c.key = stored ∧ (s.step c).accepted c.key = admitted answer (s.accepted c.key) c.batch := by
  have answered : s.answer c = answer := congrArg Prod.fst checked
  have own : (s.step c).accepted c.key = admitted (s.answer c) (s.accepted c.key) c.batch := update_self _ _ _
  refine ⟨answered, (update_self _ _ _).trans (congrArg Prod.snd checked), ?_⟩
  rw [own, answered]

/-- Only what the call says of its own key is to be seen to. -/
theorem exact_step_iff (admits : s.Admits) :
    (∀ k, Exact ((s.step c).stored k) ((s.step c).accepted k)) ↔ Exact ((s.step c).stored c.key) ((s.step c).accepted c.key) := by
  refine ⟨fun all => all c.key, fun own k => ?_⟩
  by_cases same : k = c.key
  · rw [same]
    exact own
  · rw [(step_of_ne same).1, (step_of_ne same).2]
    exact admits.exact k

theorem stored_eq_iff : (s.step c).stored = s.stored ↔ (s.step c).stored c.key = s.stored c.key := by
  refine ⟨fun same => by rw [same], fun same => funext fun k => ?_⟩
  by_cases own : k = c.key
  · rw [own, same]
  · exact (step_of_ne own).1

/-- **One call**: it is answered right and leaves what is right exactly if it is orderly. -/
theorem step_iff (admits : s.Admits) :
    (∀ k, Exact ((s.step c).stored k) ((s.step c).accepted k)) ∧ Answered s c ↔ Orderly (s.stored c.key) c.env c.batch := by
  have exact_ := admits.exact c.key
  have before := admits.word c.key
  rw [exact_step_iff admits]
  obtain ⟨idle, e, checked⟩ | ⟨begins, seen, checked⟩ | ⟨begins, next, updates, ⟨commits, checked⟩ | ⟨fails, checked⟩⟩ :=
    check_cases c.env (s.stored c.key) c.batch
  · obtain ⟨answered, stays, same⟩ := step_of_checked checked
    rw [stays, same]
    refine iff_of_true ⟨exact_, fun seen => ?_, fun _ _ => stored_eq_iff.mpr stays⟩ (orderly_of_idle idle)
    rw [answered] at seen
    cases seen
  · obtain ⟨answered, stays, same⟩ := step_of_checked checked
    rw [stays, same]
    constructor
    · rintro ⟨-, duplicate, -⟩
      refine ⟨fun _ _ => (exact_.covers_iff c.positive).mp (duplicate answered), ?_, ?_⟩
      · intro _ next
        omega
      · intro _ next
        omega
    · intro orderly
      refine ⟨exact_, fun _ => (exact_.covers_iff c.positive).mpr (orderly.repeats begins seen), fun e failed => ?_⟩
      rw [answered] at failed
      cases failed
  · obtain ⟨answered, moves, longer⟩ := step_of_checked checked
    rw [moves, longer, admitted, exact_.append_iff before c.fits c.positive c.word]
    constructor
    · rintro ⟨right, -⟩
      refine ⟨fun _ seen => by omega, fun _ _ _ _ => right, fun _ _ _ fails => ?_⟩
      rw [commits] at fails
      cases fails
    · intro orderly
      refine ⟨orderly.continues begins next updates commits, fun seen => ?_, fun e failed => ?_⟩
      · rw [answered] at seen
        cases seen
      · rw [answered] at failed
        cases failed
  · obtain ⟨answered, left, same⟩ := step_of_checked checked
    constructor
    · rintro ⟨-, answers⟩
      refine ⟨fun _ seen => by omega, fun _ _ _ commits => ?_, fun _ _ _ _ stores => ?_⟩
      · rw [fails] at commits
        cases commits
      · have stays := stored_eq_iff.mp (answers.rejected _ answered)
        rw [left, if_pos stores] at stays
        exact stays.symm
    · intro orderly
      have stays : (s.step c).stored c.key = s.stored c.key := by
        rw [left]
        split
        · next stores => exact (orderly.unstored begins next updates fails stores).symm
        · rfl
      rw [stays, same]
      refine ⟨exact_, fun seen => ?_, fun _ _ => stored_eq_iff.mpr stays⟩
      rw [answered] at seen
      cases seen

/-- What is stored stays an `i64` that is no less than -1. -/
theorem word_step (admits : s.Admits) (orderly : Orderly (s.stored c.key) c.env c.batch) (k : ProducerPartition) :
    Word ((s.step c).stored k) := by
  by_cases same : k = c.key
  · rw [same]
    have before := admits.word c.key
    obtain ⟨-, e, checked⟩ | ⟨-, -, checked⟩ | ⟨begins, next, updates, ⟨commits, checked⟩ | ⟨fails, checked⟩⟩ :=
      check_cases c.env (s.stored c.key) c.batch
    · rw [(step_of_checked checked).2.1]
      exact before
    · rw [(step_of_checked checked).2.1]
      exact before
    · rw [(step_of_checked checked).2.1]
      obtain ⟨behind, end_⟩ := orderly.continues begins next updates commits
      have positive := c.positive
      obtain ⟨low, high⟩ := before
      have whole := newSequence_eq (by omega) positive end_
      show -1 ≤ c.batch.newSequence ∧ c.batch.newSequence < 2 ^ 63
      omega
    · rw [(step_of_checked checked).2.1]
      split
      · next stores =>
        rw [← orderly.unstored begins next updates fails stores]
        exact before
      · exact before
  · rw [(step_of_ne same).1]
    exact admits.word k

theorem Admits.step (admits : s.Admits) (orderly : Orderly (s.stored c.key) c.env c.batch) : (s.step c).Admits :=
  ⟨((step_iff admits).mpr orderly).1, word_step admits orderly⟩

theorem start_admits : start.Admits where
  exact k := by
    refine ⟨fun n => ⟨?_, ?_⟩, List.Pairwise.nil⟩
    · rintro ⟨b, listed, -⟩
      cases listed
    · rintro ⟨least, most⟩
      have below : n ≤ -1 := most
      omega
  word k := show Word none by decide

end Admissions

/-- **Each number is admitted once and in order exactly if every call is orderly** in the table that it finds. -/
theorem admitsOnce_iff (calls : List SequenceCall) :
    AdmitsOnce calls ↔ Meets step (fun s c => Orderly (s.stored c.key) c.env c.batch) .start calls := by
  rw [← meets_congr Admits (fun s c admits => step_iff admits) (fun s c admits orderly => admits.step orderly)
    start_admits calls]
  have cut := @meets_next_iff _ _ step (fun s => ∀ k, Exact (s.stored k) (s.accepted k)) .start start_admits.exact calls
  rw [meets_iff_forall] at cut ⊢
  constructor
  · intro once before c after split
    exact ⟨cut.mpr once.exact before c after split, once.answered before c after split⟩
  · intro every
    exact ⟨cut.mp fun before c after split => (every before c after split).1, fun before c after split => (every before c after split).2⟩

namespace Example

/-- The first five records of a producer, where the row can be read or not. -/
def firstFive (reads : Bool) : SequenceCall :=
  ⟨⟨true, reads, true, true, true⟩, ⟨"producer", "orders", 0, by decide⟩, ⟨0, 5⟩, by decide, Nat.le_add_left 1 4, show 5 < 2 ^ 32 by decide⟩

end Example

open Sequences.Example

/-- The batch is sent again, and is accepted again because the read of its row fails. -/
theorem admitsOnce_fails : ¬ AdmitsOnce [firstFive true, firstFive false] := by
  intro once
  have twice := (once.exact [firstFive true, firstFive false] [] rfl ⟨"producer", "orders", 0, by decide⟩).apart
  exact rel_of_pairwise_cons twice (mem_singleton_self _) 0 (by constructor <;> constructor <;> decide)

end StreamHouse.Agent.Sequences
