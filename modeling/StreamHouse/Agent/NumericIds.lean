import StreamHouse.Agent.ProducerEpochs
import StreamHouse.Core.I64

/-!
# Numeric producer ids

`allocate_numeric_producer_id` of `SqliteMetadataStore` raises the counter in one statement and
reads it in the next, and then writes what it has read to the producer's row. Any number of calls
take their statements in any order. `uniqueIds_iff` says in which orders no two calls return one
id. The unique index on `numeric_id` catches two producers, and not one producer twice.
-/

namespace StreamHouse.Agent.NumericIds
open Lib

/-- A statement fails, or it takes effect and the call does not go on. -/
inductive Outcome where
  | works
  | fails
  | lost
deriving DecidableEq

/-- What a call has done so far. -/
inductive Progress where
  | begun
  | raised
  | numbered (numericId : Int)
  | returned (numericId : Int)
  | ended
deriving DecidableEq

/-- The next statement of a call. -/
structure Statement where
  call : Nat
  outcome : Outcome

/-- The tables `producer_id_sequence` and `producers`, and the calls. -/
structure Allocations where
  nextId : Int
  producers : List ProducerRow
  progress : Nat → Progress

/-- The unique index: the row of the producer is there, and another row has the number. -/
def Taken (producers : List ProducerRow) (producerId : String) (numericId : Int) : Prop :=
  (∃ row ∈ producers, row.id = producerId) ∧ ∃ row ∈ producers, row.id ≠ producerId ∧ row.numericId = some numericId

instance (producers : List ProducerRow) (producerId : String) (numericId : Int) : Decidable (Taken producers producerId numericId) :=
  inferInstanceAs (Decidable (_ ∧ _))

/-- `UPDATE producers SET numeric_id`. -/
def setNumericId (producers : List ProducerRow) (producerId : String) (numericId : Int) : List ProducerRow :=
  producers.map fun row => if row.id = producerId then { row with numericId := some numericId } else row

namespace Allocations

def start (nextId : Int) (producers : List ProducerRow) : Allocations := ⟨nextId, producers, fun _ => .begun⟩

def after (s : Allocations) (call : Nat) (progress : Progress) : Allocations :=
  { s with progress := Function.update s.progress call progress }

/-- A counter that is no `i64` any more has become a float, which cannot be read. -/
def Readable (s : Allocations) : Prop := I64.Fits s.nextId ∧ I64.Fits (s.nextId - 1)

instance (s : Allocations) : Decidable s.Readable := inferInstanceAs (Decidable (_ ∧ _))

variable (producerId : Nat → String)

/-- The statements of `allocate_numeric_producer_id(producer_id)`, one at a time. -/
def step (s : Allocations) (a : Statement) : Allocations :=
  match s.progress a.call with
  | .begun =>
    match a.outcome with
    | .works => { s with nextId := s.nextId + 1 }.after a.call .raised
    | .fails => s.after a.call .ended
    | .lost => { s with nextId := s.nextId + 1 }.after a.call .ended
  | .raised =>
    if a.outcome = .works ∧ s.Readable then s.after a.call (.numbered (s.nextId - 1)) else s.after a.call .ended
  | .numbered numericId =>
    if a.outcome = .fails ∨ Taken s.producers (producerId a.call) numericId then s.after a.call .ended
    else
      { s with producers := setNumericId s.producers (producerId a.call) numericId }.after a.call
        (if a.outcome = Outcome.works then .returned numericId else .ended)
  | .returned _ | .ended => s

/-- The statement raises the counter. -/
def Raises (s : Allocations) (a : Statement) : Prop := s.progress a.call = .begun ∧ a.outcome ≠ .fails

/-- The statement reads the counter. -/
def Reads (s : Allocations) (a : Statement) : Prop := s.progress a.call = .raised ∧ a.outcome = .works ∧ s.Readable

end Allocations

open Allocations

/-- No two calls return the same id. -/
def UniqueIds (producerId : Nat → String) (s : Allocations) (statements : List Statement) : Prop :=
  ∀ c d n, (run (step producerId) s statements).progress c = .returned n →
    (run (step producerId) s statements).progress d = .returned n → c = d

/-- Between the reads of two calls that return, the counter is raised. -/
def RaisedBetween (producerId : Nat → String) (s : Allocations) (statements : List Statement) : Prop :=
  ∀ before a between b after, statements = before ++ a :: (between ++ b :: after) →
    (run (step producerId) s before).Reads a → (run (step producerId) s (before ++ a :: between)).Reads b →
      (∃ n, (run (step producerId) s statements).progress a.call = .returned n) →
        (∃ n, (run (step producerId) s statements).progress b.call = .returned n) →
          ∃ earlier c later, between = earlier ++ c :: later ∧ (run (step producerId) s (before ++ a :: earlier)).Raises c

/-! ## One statement -/

section

variable {producerId : Nat → String} {s : Allocations} {a : Statement}

theorem progress_after (call c : Nat) (p : Progress) : (s.after call p).progress c = if c = call then p else s.progress c :=
  Function.update_apply _ _ _ _

theorem step_of_ne {c : Nat} (other : c ≠ a.call) : (s.step producerId a).progress c = s.progress c := by
  unfold step
  split
  · split <;> rw [progress_after, if_neg other]
  · split <;> rw [progress_after, if_neg other]
  · split <;> rw [progress_after, if_neg other]
  · rfl
  · rfl

/-- The counter goes up by one or stays. -/
theorem step_nextId : (s.step producerId a).nextId = s.nextId + 1 ∧ s.Raises a ∨ (s.step producerId a).nextId = s.nextId ∧ ¬ s.Raises a := by
  unfold step Raises
  cases here : s.progress a.call with
  | begun =>
    cases outcome : a.outcome with
    | works => exact .inl ⟨rfl, rfl, by decide⟩
    | fails => exact .inr ⟨rfl, fun raises => raises.2 rfl⟩
    | lost => exact .inl ⟨rfl, rfl, by decide⟩
  | raised =>
    refine .inr ⟨?_, fun raises => by cases raises.1⟩
    dsimp only
    split <;> rfl
  | numbered n =>
    refine .inr ⟨?_, fun raises => by cases raises.1⟩
    dsimp only
    split <;> rfl
  | returned n => exact .inr ⟨rfl, fun raises => by cases raises.1⟩
  | ended => exact .inr ⟨rfl, fun raises => by cases raises.1⟩

theorem step_reads (reads : s.Reads a) : s.step producerId a = s.after a.call (.numbered (s.nextId - 1)) := by
  obtain ⟨raised, works, readable⟩ := reads
  unfold step
  rw [raised]
  exact if_pos ⟨works, readable⟩

/-- A call has the number `n`, or has returned it. -/
def Has (c : Nat) (n : Int) (s : Allocations) : Prop := s.progress c = .numbered n ∨ s.progress c = .returned n

/-- What a call has, it has had before or reads. -/
theorem has_step {c : Nat} {n : Int} (has : Has c n (s.step producerId a)) :
    Has c n s ∨ a.call = c ∧ s.Reads a ∧ s.nextId - 1 = n := by
  by_cases own : a.call = c
  · subst own
    unfold Has step at has
    unfold Has Reads
    cases here : s.progress a.call with
    | begun =>
      rw [here] at has
      cases outcome : a.outcome <;> rw [outcome] at has <;> simp [progress_after] at has
    | raised =>
      rw [here] at has
      dsimp only at has
      split at has
      · next reads =>
        simp only [progress_after, if_true, Progress.numbered.injEq, reduceCtorEq, or_false] at has
        exact .inr ⟨rfl, ⟨rfl, reads⟩, has⟩
      · simp [progress_after] at has
    | numbered m =>
      rw [here] at has
      dsimp only at has
      split at has
      · simp [progress_after] at has
      · by_cases works : a.outcome = .works
        · simp only [progress_after, works, if_true, reduceCtorEq, Progress.returned.injEq, false_or] at has
          exact .inl (.inl (by rw [has]))
        · simp [progress_after, works] at has
    | returned m =>
      rw [here] at has
      exact .inl (has.imp (fun h => here.symm.trans h) fun h => here.symm.trans h)
    | ended =>
      rw [here] at has
      exact .inl (has.imp (fun h => here.symm.trans h) fun h => here.symm.trans h)
  · unfold Has at has
    rw [step_of_ne (Ne.symm own)] at has
    exact .inl has

/-- A call that has a number keeps it or ends. -/
theorem keeps_step {c : Nat} {n : Int} (has : Has c n s ∨ s.progress c = .ended) :
    Has c n (s.step producerId a) ∨ (s.step producerId a).progress c = .ended := by
  by_cases own : a.call = c
  · subst own
    unfold Has at has ⊢
    unfold step
    obtain (numbered | returned) | ended := has
    · rw [numbered]
      dsimp only
      split
      · simp [progress_after]
      · by_cases works : a.outcome = .works <;> simp [progress_after, works]
    · rw [returned]
      exact .inl (.inr returned)
    · rw [ended]
      exact .inr ended
  · unfold Has at has ⊢
    rw [step_of_ne (Ne.symm own)]
    exact has

end

/-! ## Runs -/

section

variable {producerId : Nat → String} {s : Allocations}

/-- The counter stays just while nothing raises it. -/
theorem run_nextId (statements : List Statement) :
    s.nextId ≤ (run (step producerId) s statements).nextId ∧
      ((run (step producerId) s statements).nextId = s.nextId ↔ Meets (step producerId) (fun s a => ¬ s.Raises a) s statements) := by
  induction statements generalizing s with
  | nil => exact ⟨le_refl _, iff_of_true rfl trivial⟩
  | cons a statements ih =>
    obtain ⟨up, same⟩ := @ih (s.step producerId a)
    rw [run_cons, Meets]
    obtain ⟨next, raises⟩ | ⟨next, stays⟩ := @step_nextId producerId s a
    · rw [next] at up
      exact ⟨by omega, iff_of_false (by omega) fun both => both.1 raises⟩
    · rw [next] at up same
      exact ⟨up, same.trans (and_iff_right stays).symm⟩

/-- A call that returns has read what it returns. -/
theorem read_of_returned {nextId : Int} {producers : List ProducerRow} {statements : List Statement} {c : Nat} {n : Int}
    (returned : (run (step producerId) (start nextId producers) statements).progress c = .returned n) :
    ∃ before a after, statements = before ++ a :: after ∧ a.call = c ∧
      (run (step producerId) (start nextId producers) before).Reads a ∧
        (run (step producerId) (start nextId producers) before).nextId - 1 = n := by
  obtain has | ⟨before, a, after, split, read⟩ :=
    exists_cause (Has c n) (fun s a => a.call = c ∧ s.Reads a ∧ s.nextId - 1 = n) (fun _ _ _ _ has => has_step has) (.inr returned)
  · rcases has with has | has <;> cases has
  · exact ⟨before, a, after, split, read⟩

/-- What a call returns that has read. -/
theorem returned_of_read {a : Statement} {after : List Statement} (reads : s.Reads a) {n : Int}
    (returned : (run (step producerId) s (a :: after)).progress a.call = .returned n) : n = s.nextId - 1 := by
  rw [run_cons, step_reads reads] at returned
  have first : Has a.call (s.nextId - 1) (s.after a.call (.numbered (s.nextId - 1))) := by
    refine .inl ?_
    rw [progress_after, if_pos rfl]
  have last := run_invariant (fun s' => Has a.call (s.nextId - 1) s' ∨ s'.progress a.call = .ended)
    (fun s' b has => @keeps_step producerId s' b _ _ has) (.inl first) after
  unfold Has at last
  rw [returned] at last
  simpa using last

/-- A call reads once. -/
theorem call_ne_of_reads {a b : Statement} {between : List Statement} (readsA : s.Reads a)
    (readsB : (run (step producerId) s (a :: between)).Reads b) : a.call ≠ b.call := by
  intro same
  have first : Has a.call (s.nextId - 1) (s.step producerId a) := by
    rw [step_reads readsA]
    refine .inl ?_
    rw [progress_after, if_pos rfl]
  have last := run_invariant (fun s' => Has a.call (s.nextId - 1) s' ∨ s'.progress a.call = .ended)
    (fun s' c has => @keeps_step producerId s' c _ _ has) (.inl first) between
  unfold Has at last
  rw [run_cons, same] at *
  rw [readsB.1] at last
  simp at last

/-- Behind a read the counter is another number just if it was raised. -/
theorem raised_iff {before between : List Statement} {a : Statement} (reads : (run (step producerId) s before).Reads a) :
    (run (step producerId) s (before ++ a :: between)).nextId ≠ (run (step producerId) s before).nextId ↔
      ∃ earlier c later, between = earlier ++ c :: later ∧ (run (step producerId) s (before ++ a :: earlier)).Raises c := by
  simp only [run_append, run_cons]
  have same : ((run (step producerId) s before).step producerId a).nextId = (run (step producerId) s before).nextId := by
    rw [step_reads reads]
    rfl
  rw [← same, Ne, (run_nextId between).2, meets_iff_forall]
  push Not
  exact Iff.rfl

end

/-- **No two calls return one id exactly if** the counter is raised between the reads of any two that return. -/
theorem uniqueIds_iff (producerId : Nat → String) (nextId : Int) (producers : List ProducerRow) (statements : List Statement) :
    UniqueIds producerId (start nextId producers) statements ↔ RaisedBetween producerId (start nextId producers) statements := by
  constructor
  · rintro unique before a between b after rfl readsA readsB ⟨n, returnedA⟩ ⟨m, returnedB⟩
    rw [← raised_iff readsA]
    intro same
    have readA : n = (run (step producerId) (start nextId producers) before).nextId - 1 := by
      rw [run_append] at returnedA
      exact returned_of_read readsA returnedA
    have readB : m = (run (step producerId) (start nextId producers) (before ++ a :: between)).nextId - 1 := by
      rw [show before ++ a :: (between ++ b :: after) = before ++ a :: between ++ b :: after by simp, run_append] at returnedB
      exact returned_of_read readsB returnedB
    rw [same, ← readA] at readB
    rw [readB] at returnedB
    rw [run_append] at readsB
    exact call_ne_of_reads readsA readsB (unique _ _ _ returnedA returnedB)
  · intro raised c d n returnedC returnedD
    obtain ⟨before, a, after, split, rfl, readsA, readA⟩ := read_of_returned returnedC
    obtain ⟨before', b, after', split', rfl, readsB, readB⟩ := read_of_returned returnedD
    -- with one number read twice, one of the reads is first and nothing raises the counter before the other
    rcases cuts (split.symm.trans split') with ⟨-, rfl, -⟩ | ⟨between, rfl, rfl⟩ | ⟨between, rfl, rfl⟩
    · rfl
    · have raises := raised before a between b after' split readsA readsB ⟨n, returnedC⟩ ⟨n, returnedD⟩
      exact absurd (by omega) ((raised_iff readsA).mpr raises)
    · have raises := raised before' b between a after split' readsB readsA ⟨n, returnedD⟩ ⟨n, returnedC⟩
      exact absurd (by omega) ((raised_iff readsB).mpr raises)

namespace Twice

/-- Two calls for one producer, which take their statements in turn. -/
def inTurn : List Statement := [0, 1, 0, 1, 0, 1].map fun call => ⟨call, .works⟩

def registered : List ProducerRow := [⟨"producer", none, none, 0, .active, none⟩]

end Twice

open Twice in
/-- Both calls read the counter after both have raised it. -/
theorem uniqueIds_fails : ¬ UniqueIds (fun _ => "producer") (start 1 registered) inTurn := by
  intro unique
  exact absurd (unique 0 1 2 (by decide) (by decide)) (by decide)

end StreamHouse.Agent.NumericIds
