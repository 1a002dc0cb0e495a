import StreamHouse.Sql.Stream.JoinOperator

/-!
# Operators and their chain

An operator behind the trait is a state of its own, with what a record and a flush make of it.
`OperatorChain` gives a record to the first operator and what that emits to the next one; a flush asks
the operators from the last to the first.
-/

namespace StreamHouse.Sql

open Lib HashMaps

/-- `Box<dyn Operator>`; operators share nothing. -/
structure Operator (ε : Type) where
  State : Type
  state : State
  onRecord : State → StreamRecord → Except ε (State × List StreamRecord)
  onFlush : State → Except ε (State × List StreamRecord)

namespace Operator

variable {ε : Type}

def process (op : Operator ε) (record : StreamRecord) : Except ε (Operator ε × List StreamRecord) :=
  (op.onRecord op.state record).map fun done => ({ op with state := done.1 }, done.2)

def flush (op : Operator ε) : Except ε (Operator ε × List StreamRecord) :=
  (op.onFlush op.state).map fun done => ({ op with state := done.1 }, done.2)

/-- The inner loop of `OperatorChain::process`. -/
def processAll (op : Operator ε) : List StreamRecord → Except ε (Operator ε × List StreamRecord)
  | [] => .ok (op, [])
  | record :: current => (op.process record).bind fun results =>
    (results.1.processAll current).map fun next => (next.1, results.2 ++ next.2)

end Operator

structure OperatorChain (ε : Type) where
  operators : List (Operator ε)

namespace OperatorChain

variable {ε : Type}

def new : OperatorChain ε := ⟨[]⟩

def add (chain : OperatorChain ε) (operator : Operator ε) : OperatorChain ε := ⟨chain.operators ++ [operator]⟩

/-- The loop over the operators. -/
def processFrom : List (Operator ε) → List StreamRecord → Except ε (List (Operator ε) × List StreamRecord)
  | [], current => .ok ([], current)
  | op :: operators, current => (op.processAll current).bind fun next =>
    (processFrom operators next.2).map fun rest => (next.1 :: rest.1, rest.2)

def process (chain : OperatorChain ε) (record : StreamRecord) : Except ε (OperatorChain ε × List StreamRecord) :=
  (processFrom chain.operators [record]).map fun done => (⟨done.1⟩, done.2)

/-- The loop of a flush. -/
def flushFrom : List (Operator ε) → Except ε (List (Operator ε) × List StreamRecord)
  | [] => .ok ([], [])
  | op :: operators => op.flush.bind fun flushed => (flushFrom operators).map fun rest => (flushed.1 :: rest.1, flushed.2 ++ rest.2)

/-- The operators in reverse order. -/
def flush (chain : OperatorChain ε) : Except ε (OperatorChain ε × List StreamRecord) :=
  (flushFrom chain.operators.reverse).map fun done => (⟨done.1.reverse⟩, done.2)

end OperatorChain

/-! ## The operators of the crate -/

/-- `SqlError::ExecutionError`, or the end of a call whose arithmetic overflows. -/
inductive OperatorError where
  | executionError (text : String)
  | overflow

inductive FilterPredicate where
  | equals (field : String) (value : Json)
  | greaterThan (field : String) (value : Json)
  | lessThan (field : String) (value : Json)
  | contains (field substring : String)
  | and (left right : FilterPredicate)
  | or (left right : FilterPredicate)
  | not (inner : FilterPredicate)

/-- Both values are numbers, and the order of them holds. -/
def FilterPredicate.ordered (order : F64 → F64 → Bool) (a b : Option F64) : Bool :=
  (a.bind fun a => b.map fun b => order a b).getD false

def FilterPredicate.evaluate (json : Json) : FilterPredicate → Bool
  | .equals field value => (json.get field).any fun found => found.same value
  | .greaterThan field value => ordered (fun a b => decide (b.value < a.value)) ((json.get field).bind asF64) (asF64 value)
  | .lessThan field value => ordered (fun a b => decide (a.value < b.value)) ((json.get field).bind asF64) (asF64 value)
  | .contains field substring => ((json.get field).bind Json.asStr).any fun s => decide (substring.toList <:+: s.toList)
  | .and left right => left.evaluate json && right.evaluate json
  | .or left right => left.evaluate json || right.evaluate json
  | .not inner => !inner.evaluate json

/-- The JSON of a record of a filter or a projection. -/
def parseRecord (record : StreamRecord) : Except OperatorError Json :=
  match record.value.json with
  | .error e => .error (.executionError s!"failed to parse record as JSON: {e}")
  | .ok json => .ok json

def filterOperator (predicate : FilterPredicate) : Operator OperatorError where
  State := FilterPredicate
  state := predicate
  onRecord predicate record := (parseRecord record).map fun json => (predicate, if predicate.evaluate json then [record] else [])
  onFlush predicate := .ok (predicate, [])

/-- The operator with the number of calls so far; each call has its readings of the clock. -/
def joinOperator (toVec : Json → Payload) (now : Nat → Nat → Int) (config : JoinConfig) : Operator OperatorError where
  State := JoinOperator × Nat
  state := (.new config, 0)
  onRecord state record :=
    match JoinOperator.process (now state.2) record state.1 with
    | none => .error .overflow
    | some (.error text) => .error (.executionError text)
    | some (.ok (op, outputs)) => .ok ((op, state.2 + 1), outputs.map (JoinOutput.record toVec))
  onFlush state := .ok ((state.1.flush.1, state.2), state.1.flush.2.map (JoinOutput.record toVec))

end StreamHouse.Sql
