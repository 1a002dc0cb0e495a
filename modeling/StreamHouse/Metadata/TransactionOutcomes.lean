import Mathlib.Data.List.Induction
import StreamHouse.Metadata.TransactionCoordinator

/-!
# How transactions end

Over any calls in any order, with the clock reading whatever it does: a transaction that has ended
stays as it is until it is cleaned up, one that is committed has been prepared with the partitions it is
committed with, and a call that fails changes nothing, unless it fails because its own
transaction is past its timeout, which it then ends.
-/

namespace StreamHouse.Metadata.TransactionCoordinator
open Lib Lib.HashMaps List

/-- The transaction was prepared, and has had these partitions ever since. -/
def PreparedWith (timeout : Nat) (calls : List Call) (id : String) (partitions : List TransactionPartition) : Prop :=
  ∃ front now stamp rest, calls = front ++ Call.prepare id now stamp :: rest ∧
    error timeout (after timeout front) (.prepare id now stamp) = none ∧
    ∀ kept dropped, rest = kept ++ dropped →
      ∃ record, (after timeout (front ++ Call.prepare id now stamp :: kept)).lookup id = some record ∧
        record.partitions = partitions ∧ record.state ≠ .ongoing

/-- What holds of the calls to a coordinator, apart from errors. -/
structure Orderly (timeout : Nat) (calls : List Call) : Prop where
  terminal : ∀ before middle rest, calls = before ++ middle ++ rest → ∀ id record,
    (after timeout before).lookup id = some record → record.state.isTerminal = true →
    (after timeout (before ++ middle)).lookup id = some record ∨
      ∃ front olderThan clock back, middle = front ++ Call.cleanupCompleted olderThan clock :: back ∧
        (after timeout (before ++ front)).lookup id = some record ∧
        (after timeout (before ++ front ++ [.cleanupCompleted olderThan clock])).lookup id = none
  committed : ∀ before rest, calls = before ++ rest → ∀ id record,
    (after timeout before).lookup id = some record → record.state = .committed → PreparedWith timeout before id record.partitions
  returned : ∀ before id now rest partitions, calls = before ++ Call.commit id now :: rest →
    (onRecord (after timeout before) id (commit id now)).2 = .ok partitions → PreparedWith timeout before id partitions
  removed : ∀ before call rest, calls = before ++ call :: rest → ∀ id record,
    (after timeout before).lookup id = some record → (after timeout (before ++ [call])).lookup id = none →
    record.state.isTerminal = true ∧ ∃ olderThan clock, call = .cleanupCompleted olderThan clock

/-- A call that fails changes no transaction. -/
def ErrorsChangeNothing (timeout : Nat) (calls : List Call) : Prop :=
  ∀ before call rest e, calls = before ++ call :: rest → error timeout (after timeout before) call = some e →
    ∀ id, (after timeout (before ++ [call])).lookup id = (after timeout before).lookup id

/-- A call that fails changes no transaction, except for one that it has found past its timeout. -/
def ErrorsOnlyTimeOut (timeout : Nat) (calls : List Call) : Prop :=
  ∀ before call rest e, calls = before ++ call :: rest → error timeout (after timeout before) call = some e →
    ∀ id, (after timeout (before ++ [call])).lookup id = (after timeout before).lookup id ∨
      e = .transactionTimedOut id ∧ ∃ record, (after timeout before).lookup id = some record ∧ record.state.isTerminal = false ∧
        (after timeout (before ++ [call])).lookup id = some { record with state := .timedOut }

section

variable {timeout : Nat} {calls : List Call} {call : Call} {id : String} {record : TransactionRecord}

theorem after_snoc (calls : List Call) (call : Call) : after timeout (calls ++ [call]) = step timeout (after timeout calls) call :=
  run_append _ _ _ _

/-- The next call of a run, as `moved_step` has it. -/
theorem moved_next (calls : List Call) (call : Call) (id : String) :
    Moved call id (error timeout (after timeout calls) call) ((after timeout calls).lookup id)
      ((after timeout (calls ++ [call])).lookup id) := by
  rw [after_snoc]
  exact moved_step timeout _ call id

/-! ## Terminal states -/

/-- One call leaves a transaction that has ended, or cleans it up. -/
theorem terminal_next (found : (after timeout calls).lookup id = some record) (terminal : record.state.isTerminal = true) (call : Call) :
    (after timeout (calls ++ [call])).lookup id = some record ∨
      (∃ olderThan clock, call = .cleanupCompleted olderThan clock) ∧ (after timeout (calls ++ [call])).lookup id = none := by
  have moved := @moved_next timeout calls call id
  rw [found] at moved
  generalize (after timeout (calls ++ [call])).lookup id = now at moved ⊢
  cases moved with
  | same => exact .inl rfl
  | enrolled _ _ _ ongoing => rw [ongoing] at terminal; cases terminal
  | prepared _ _ _ _ _ ongoing => rw [ongoing] at terminal; cases terminal
  | committed _ _ preparing => rw [preparing] at terminal; cases terminal
  | aborted _ _ active => rw [active] at terminal; cases terminal
  | timedOut _ active => rw [active] at terminal; cases terminal
  | removed _ olderThan clock called => exact .inr ⟨⟨olderThan, clock, called⟩, rfl⟩

theorem terminal_run {before : List Call} (found : (after timeout before).lookup id = some record)
    (terminal : record.state.isTerminal = true) (middle : List Call) :
    (after timeout (before ++ middle)).lookup id = some record ∨
      ∃ front olderThan clock back, middle = front ++ Call.cleanupCompleted olderThan clock :: back ∧
        (after timeout (before ++ front)).lookup id = some record ∧
        (after timeout (before ++ front ++ [.cleanupCompleted olderThan clock])).lookup id = none := by
  induction middle using reverseRecOn with
  | nil => exact .inl (by rwa [append_nil])
  | append_singleton middle call ih =>
    rcases ih with still | ⟨front, olderThan, clock, back, rfl, there, gone⟩
    · rw [← append_assoc]
      rcases terminal_next still terminal call with stays | ⟨⟨olderThan, clock, rfl⟩, gone⟩
      · exact .inl stays
      · exact .inr ⟨middle, olderThan, clock, [], rfl, still, gone⟩
    · exact .inr ⟨front, olderThan, clock, back ++ [call], by rw [append_assoc, cons_append], there, gone⟩

theorem removed_next (found : (after timeout calls).lookup id = some record) (gone : (after timeout (calls ++ [call])).lookup id = none) :
    record.state.isTerminal = true ∧ ∃ olderThan clock, call = .cleanupCompleted olderThan clock := by
  have moved := @moved_next timeout calls call id
  rw [found, gone] at moved
  cases moved with
  | removed _ olderThan clock called _ terminal => exact ⟨terminal, olderThan, clock, called⟩

/-! ## Commits -/

/-- A call after which the partitions are still the same. -/
theorem PreparedWith.snoc {partitions : List TransactionPartition} (prepared : PreparedWith timeout calls id partitions)
    (found : (after timeout (calls ++ [call])).lookup id = some record) (same : record.partitions = partitions)
    (left : record.state ≠ .ongoing) : PreparedWith timeout (calls ++ [call]) id partitions := by
  obtain ⟨front, now, stamp, rest, rfl, fine, since⟩ := prepared
  refine ⟨front, now, stamp, rest ++ [call], by rw [append_assoc, cons_append], fine, ?_⟩
  intro kept dropped cut
  rcases append_eq_append_iff.mp cut with ⟨more, rfl, back⟩ | ⟨more, rfl, -⟩
  · cases more with
    | nil => exact since rest [] (append_nil rest).symm |>.imp fun r held => by rwa [append_nil]
    | cons c more =>
      obtain ⟨rfl, none⟩ := cons.inj back
      obtain ⟨rfl, -⟩ := append_eq_nil_iff.mp none.symm
      refine ⟨record, ?_, same, left⟩
      rwa [append_assoc, cons_append] at found
  · exact since kept more rfl

/-- **What is prepared or committed was prepared so.** -/
theorem preparedWith_run (calls : List Call) : ∀ record : TransactionRecord, (after timeout calls).lookup id = some record →
    record.state = .preparing ∨ record.state = .committed → PreparedWith timeout calls id record.partitions := by
  induction calls using reverseRecOn with
  | nil =>
    intro record found
    cases found
  | append_singleton calls call ih =>
    intro record found prepared
    have moved := @moved_next timeout calls call id
    have left : record.state ≠ .ongoing := by rcases prepared with state | state <;> rw [state] <;> decide
    rw [found] at moved
    generalize was : (after timeout calls).lookup id = old at moved
    cases moved with
    | same => exact (ih record was prepared).snoc found rfl left
    | begun => exact absurd rfl left
    | enrolled old _ _ ongoing => exact absurd ongoing left
    | prepared old now stamp called fine ongoing =>
      subst called
      refine ⟨calls, now, stamp, [], rfl, fine, ?_⟩
      intro kept dropped cut
      obtain ⟨rfl, -⟩ := append_eq_nil_iff.mp cut.symm
      exact ⟨_, found, rfl, left⟩
    | committed old _ preparing => exact (ih old was (.inl preparing)).snoc found rfl left
    | aborted => rcases prepared with state | state <;> cases state
    | timedOut => rcases prepared with state | state <;> cases state

/-- A commit gives back the partitions of a transaction that was prepared. -/
theorem commit_returns {txns : Transactions} {now : Nat} {partitions : List TransactionPartition}
    (returned : (onRecord txns id (commit id now)).2 = .ok partitions) :
    ∃ record, txns.lookup id = some record ∧ record.state = .preparing ∧ record.partitions = partitions := by
  unfold onRecord at returned
  cases found : txns.lookup id with
  | none =>
    rw [found] at returned
    cases returned
  | some record =>
    rw [found] at returned
    dsimp only at returned
    unfold commit at returned
    split at returned
    · cases returned
    · next preparing =>
      split at returned
      · cases returned
      · exact ⟨record, rfl, not_not.mp preparing, Except.ok.inj returned⟩

/-! ## Errors -/

theorem failed_next {e : TransactionCoordinatorError} (failed : error timeout (after timeout calls) call = some e) (id : String) :
    (after timeout (calls ++ [call])).lookup id = (after timeout calls).lookup id ∨
      e = .transactionTimedOut id ∧ ∃ record, (after timeout calls).lookup id = some record ∧ record.state.isTerminal = false ∧
        (after timeout (calls ++ [call])).lookup id = some { record with state := .timedOut } := by
  have moved := @moved_next timeout calls call id
  rw [failed] at moved
  generalize (after timeout (calls ++ [call])).lookup id = now at moved ⊢
  generalize (after timeout calls).lookup id = old at moved ⊢
  cases moved with
  | same => exact .inl rfl
  | timedOut record active told =>
    rcases told with fine | told
    · cases fine
    · exact .inr ⟨Option.some.inj told, record, rfl, active, rfl⟩
  | begun _ _ _ fine => cases fine
  | enrolled _ _ fine => cases fine
  | prepared _ _ _ _ fine => cases fine
  | committed _ fine => cases fine
  | aborted _ fine => cases fine
  | removed _ _ _ _ fine => cases fine

end

/-- **Transactions end in order**, whatever the calls are. -/
theorem orderly_and_only_time_out (timeout : Nat) (calls : List Call) : Orderly timeout calls ∧ ErrorsOnlyTimeOut timeout calls := by
  refine ⟨⟨?_, ?_, ?_, ?_⟩, ?_⟩
  · rintro before middle rest - id record found terminal
    exact terminal_run found terminal middle
  · rintro before rest - id record found committed
    exact preparedWith_run before record found (.inr committed)
  · rintro before id now rest partitions - returned
    obtain ⟨record, found, preparing, rfl⟩ := commit_returns returned
    exact preparedWith_run before record found (.inl preparing)
  · rintro before call rest - id record found gone
    exact removed_next found gone
  · rintro before call rest e - failed id
    exact failed_next failed id

namespace Example

/-- A transaction with a timeout of ten, prepared at twenty. -/
def late : List Call := [.begin "txn" "producer" 0, .prepare "txn" 20 20]

end Example

/-- The call fails, and the transaction has ended. -/
theorem errors_change_nothing_fails : ¬ ∀ timeout calls, Orderly timeout calls ∧ ErrorsChangeNothing timeout calls := by
  intro every
  have same := (every 10 Example.late).2 [.begin "txn" "producer" 0] (.prepare "txn" 20 20) [] (.transactionTimedOut "txn") rfl
    (by decide) "txn"
  revert same
  decide

end StreamHouse.Metadata.TransactionCoordinator
