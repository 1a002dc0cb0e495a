import StreamHouse.Lib.Stages
import StreamHouse.Sql.Stream.OperatorChain

/-!
# Chains as whole streams

The outputs of a chain over its inputs and a flush, and those of the operators one after another, each
with all outputs of the one before. Up to the flush they are the same; what an operator flushes the
chain does not give to those after it.
-/

namespace StreamHouse.Sql

open Lib Stages

variable {ε : Type}

/-! ## The two runs -/

namespace OperatorChain

/-- The inputs one after the other, up to the first error. -/
def processInputs (chain : OperatorChain ε) : List StreamRecord → Except ε (OperatorChain ε × List StreamRecord)
  | [] => .ok (chain, [])
  | record :: inputs => (chain.process record).bind fun done =>
    (done.1.processInputs inputs).map fun rest => (rest.1, done.2 ++ rest.2)

def run (chain : OperatorChain ε) (inputs : List StreamRecord) : Except ε (List StreamRecord) :=
  (chain.processInputs inputs).bind fun done => done.1.flush.map fun flushed => done.2 ++ flushed.2

end OperatorChain

open OperatorChain

/-- What an operator makes of all inputs. -/
def Operator.wholeStream (op : Operator ε) (inputs : List StreamRecord) : Except ε (List StreamRecord) :=
  (op.processAll inputs).bind fun done => done.1.flush.map fun flushed => done.2 ++ flushed.2

/-- The operators one after another, each with all outputs of the one before. -/
def wholeStreams : List (Operator ε) → List StreamRecord → Except ε (List StreamRecord)
  | [], inputs => .ok inputs
  | op :: operators, inputs => (op.wholeStream inputs).bind (wholeStreams operators)

/-! ## Operators as stages -/

section Stages

variable (op : Operator ε) (operators : List (Operator ε)) (chain : OperatorChain ε) (inputs : List StreamRecord)

def Operator.feed (op : Operator ε) (record : StreamRecord) : Option (Operator ε × List StreamRecord) := (op.process record).toOption

def Operator.close (op : Operator ε) : Option (Operator ε × List StreamRecord) := op.flush.toOption

theorem toOption_bind {α β : Type*} (x : Except ε α) (f : α → Except ε β) : (x.bind f).toOption = x.toOption.bind fun a => (f a).toOption := by
  cases x <;> rfl

theorem toOption_map {α β : Type*} (x : Except ε α) (f : α → β) : (x.map f).toOption = x.toOption.map f := by
  cases x <;> rfl

theorem processAll_toOption : (op.processAll inputs).toOption = feedAll Operator.feed op inputs := by
  induction inputs generalizing op with
  | nil => rfl
  | cons record inputs ih =>
    rw [Operator.processAll, toOption_bind, feedAll]
    simp only [toOption_map, ih]
    rfl

theorem processFrom_toOption : (processFrom operators inputs).toOption = push Operator.feed operators inputs := by
  induction operators generalizing inputs with
  | nil => rfl
  | cons op operators ih =>
    rw [processFrom, toOption_bind, push, processAll_toOption]
    simp only [toOption_map, ih]

theorem processInputs_toOption : (chain.processInputs inputs).toOption =
    (pushEach Operator.feed chain.operators inputs).map fun done => (⟨done.1⟩, done.2) := by
  induction inputs generalizing chain with
  | nil => rfl
  | cons record inputs ih =>
    rw [processInputs, toOption_bind, process, toOption_map, processFrom_toOption, pushEach]
    cases push Operator.feed chain.operators [record] with
    | none => rfl
    | some first =>
      simp only [Option.map_some, Option.bind_some, toOption_map, ih, Option.map_map]
      rfl

theorem flushFrom_toOption : (flushFrom operators).toOption = closeAll Operator.close operators := by
  induction operators with
  | nil => rfl
  | cons op operators ih =>
    rw [flushFrom, toOption_bind, closeAll]
    simp only [toOption_map, ih]
    rfl

theorem run_toOption : (chain.run inputs).toOption =
    (pushEach Operator.feed chain.operators inputs).bind fun pushed => (closings Operator.close pushed.1).map (pushed.2 ++ ·) := by
  rw [OperatorChain.run, toOption_bind, processInputs_toOption]
  cases pushEach Operator.feed chain.operators inputs with
  | none => rfl
  | some pushed =>
    simp only [Option.map_some, Option.bind_some, flush, toOption_map, flushFrom_toOption, closings, Option.map_map]
    rfl

theorem wholeStreams_toOption : (wholeStreams operators inputs).toOption = staged Operator.feed Operator.close operators inputs := by
  induction operators generalizing inputs with
  | nil => rfl
  | cons op operators ih =>
    rw [wholeStreams, toOption_bind, Operator.wholeStream, toOption_bind, processAll_toOption, staged, whole]
    simp only [toOption_map, ih]
    rfl

end Stages

/-! ## Composition -/

/-- The operators after the inputs, before any flush. -/
def OperatorChain.after (chain : OperatorChain ε) (inputs : List StreamRecord) : Option (List (Operator ε)) :=
  (push Operator.feed chain.operators inputs).map Prod.fst

/-- **A chain composes just if what is flushed is in place**: the first operator that flushes records is the last one, or its records
go through those after it and, with what these flush then, come out as what they flush without them and then the records as they were. -/
theorem chain_composes_iff (chain : OperatorChain ε) (inputs : List StreamRecord) :
    (chain.run inputs).toOption = (wholeStreams chain.operators inputs).toOption ↔
      ∀ operators, chain.after inputs = some operators → InPlace Operator.feed Operator.close operators := by
  rw [run_toOption, wholeStreams_toOption, run_eq_staged_iff, after]
  cases push Operator.feed chain.operators inputs <;> simp

/-- No flush of the operator emits anything, as of a filter. -/
def Operator.Quiet (op : Operator ε) : Prop := ∀ state, ∃ state', op.onFlush state = .ok (state', [])

theorem filterOperator_quiet (predicate : FilterPredicate) : (filterOperator predicate).Quiet := fun state => ⟨state, rfl⟩

theorem quiet_givesNothing : GivesNothing (Operator.feed (ε := ε)) Operator.close Operator.Quiet where
  feeds op record fed quiet went := by
    unfold Operator.feed Operator.process at went
    cases done : op.onRecord op.state record with
    | error e => simp [done, Except.map, Except.toOption] at went
    | ok done' =>
      rw [done] at went
      obtain rfl := Option.some.inj went
      exact quiet
  closes op quiet := by
    obtain ⟨state, flushed⟩ := quiet op.state
    refine ⟨{ op with state := state }, ?_⟩
    unfold Operator.close Operator.flush
    rw [flushed]
    rfl

/-- A chain composes if no operator but the last flushes anything. -/
theorem chain_composes_of_quiet (chain : OperatorChain ε) (quiet : ∀ op ∈ chain.operators.dropLast, op.Quiet) (inputs : List StreamRecord) :
    (chain.run inputs).toOption = (wholeStreams chain.operators inputs).toOption := by
  refine (chain_composes_iff chain inputs).mpr fun operators reached => ?_
  obtain ⟨pushed, went, rfl⟩ := Option.map_eq_some_iff.mp reached
  exact quiet_givesNothing.inPlace (quiet_givesNothing.push_dropLast quiet went)

/-- Where only the first operator flushes, the chain composes just if those after it pass what it flushes as it is. -/
theorem chain_composes_iff_of_quiet {op : Operator ε} {later : List (Operator ε)} (quiet : ∀ next ∈ later, next.Quiet)
    (inputs : List StreamRecord) :
    (OperatorChain.run ⟨op :: later⟩ inputs).toOption = (wholeStreams (op :: later) inputs).toOption ↔
      ∀ op' later', (OperatorChain.mk (op :: later)).after inputs = some (op' :: later') → ∀ flushed, op'.flush = .ok flushed →
        (processFrom later' flushed.2).toOption.map Prod.snd = some flushed.2 := by
  rw [chain_composes_iff ⟨op :: later⟩ inputs]
  have behind : ∀ op' later', (OperatorChain.mk (op :: later)).after inputs = some (op' :: later') → ∀ next ∈ later', next.Quiet := by
    intro op' later' reached
    obtain ⟨pushed, went, same⟩ := Option.map_eq_some_iff.mp reached
    obtain ⟨first, _, rest⟩ := Option.bind_eq_some_iff.mp went
    obtain ⟨last, isLast, rfl⟩ := Option.map_eq_some_iff.mp rest
    obtain ⟨-, rfl⟩ := List.cons.inj same
    exact quiet_givesNothing.push quiet isLast
  have closed_iff {op' : Operator ε} {flushed : Operator ε × List StreamRecord} : op'.close = some flushed ↔ op'.flush = .ok flushed := by
    unfold Operator.close
    cases op'.flush <;> simp [Except.toOption]
  constructor
  · intro inPlace op' later' reached flushed isFlushed
    rw [processFrom_toOption]
    exact (quiet_givesNothing.inPlace_cons_iff (behind op' later' reached)).mp (inPlace _ reached) flushed (closed_iff.mpr isFlushed)
  · intro passes operators reached
    cases operators with
    | nil => trivial
    | cons op' later' =>
      refine (quiet_givesNothing.inPlace_cons_iff (behind op' later' reached)).mpr fun flushed isClosed => ?_
      rw [← processFrom_toOption]
      exact passes op' later' reached flushed (closed_iff.mp isClosed)

namespace ChainExample

/-- The record of the JSON with the field `id` that is 1. -/
def record : StreamRecord := .new ⟨[123, 34, 105, 100, 34, 58, 49, 125], .ok (.object [("id", .number (.posInt 1))])⟩ 5

/-- The bytes are those of the one record that is emitted, with the fields `left` and `right`. -/
def toVec (json : Json) : Payload where
  bytes :=
    [123, 34, 108, 101, 102, 116, 34, 58, 123, 34, 105, 100, 34, 58, 49, 125, 44, 34, 114, 105, 103, 104, 116, 34, 58, 110, 117, 108, 108, 125]
  json := .ok json

/-- A left join, and a filter that drops the records with null on the right. -/
def joinThenFilter : OperatorChain OperatorError :=
  (new.add (joinOperator toVec (fun _ _ => 0) ⟨"id", "id", 10, .left⟩)).add
    (filterOperator (.not (.equals "right" .null)))

end ChainExample

open ChainExample in
/-- The record without a partner that the join flushes does not go through the filter, which drops it. -/
theorem flushed_record_not_filtered :
    (joinThenFilter.run [record]).toOption ≠ (wholeStreams joinThenFilter.operators [record]).toOption := by
  intro same
  have lengths := congrArg (Option.map List.length) same
  exact absurd lengths (by decide)

end StreamHouse.Sql
