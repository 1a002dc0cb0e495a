import Mathlib.Data.List.Induction
import Mathlib.Data.List.Perm.Subperm
import StreamHouse.Core.Record
import StreamHouse.Lib.Run

/-!
# The WAL writer task

`WalWriter` of `wal.rs`: the task that owns the file. Each turn of its loop takes
one command from the channel and drains those that wait behind it; appends go to
the batch at once, but flushes, queries and the truncation are kept until the
drain ends and are then done in this order. So an append that comes after a
`Truncate` in the same drain is erased by it, and a second `Truncate` takes the
place of the first one's waiter.

`asSequential_iff` says exactly which drains are as good as taking the commands
one at a time.
-/

namespace StreamHouse.Storage
open Lib List

/-- `WalCmd`; a oneshot sender is the number of the caller that waits on it. -/
inductive WalCmd where
  | append (data : Bytes) (count : Nat)
  | flush (waiter : Nat)
  | truncate (waiter : Nat)
  | queryPending (waiter : Nat)

/-- What a waiter is sent: how its flush or truncation ended, or the pending counts. -/
inductive WalAnswer where
  | done (ok : Bool)
  | pending (count bytes : Nat)
deriving DecidableEq

open WalAnswer

structure WalWriter where
  file : Bytes
  batch : Bytes
  batchCount : Nat
  currentSize : Nat
  batchMaxRecords : Nat
  batchMaxBytes : Nat
  syncOnFlush : Bool

/-- What the drain of one turn keeps for later. -/
structure Drained where
  flushWaiters : List Nat
  queries : List Nat
  truncateWaiter : Option Nat

/-- How the file operations of `do_flush` end. -/
inductive FlushIo where
  | ok
  | writeFailed (written : Nat)
  | syncFailed

/-- How the file operations of `do_truncate` end. -/
inductive TruncateIo where
  | ok
  | setLenFailed
  | syncFailed

namespace WalWriter

/-- `process_cmd`. -/
def processCmd (s : WalWriter × Drained) : WalCmd → WalWriter × Drained
  | .append data count => ({ s.1 with batch := s.1.batch ++ data, batchCount := s.1.batchCount + count }, s.2)
  | .flush waiter => (s.1, { s.2 with flushWaiters := s.2.flushWaiters ++ [waiter] })
  | .queryPending waiter => (s.1, { s.2 with queries := s.2.queries ++ [waiter] })
  | .truncate waiter => (s.1, { s.2 with truncateWaiter := some waiter })

/-- `do_flush`: the batch is taken before the write. -/
def doFlush (io : FlushIo) (w : WalWriter) : Bool × WalWriter :=
  if w.batch = [] then (true, w)
  else
    let written := { w with file := w.file ++ w.batch, batch := [], batchCount := 0 }
    let counted := { written with currentSize := w.currentSize + w.batch.length }
    match io with
    | .writeFailed n => (false, { w with file := w.file ++ w.batch.take n, batch := [], batchCount := 0 })
    | .syncFailed => if w.syncOnFlush then (false, written) else (true, counted)
    | .ok => (true, counted)

/-- `do_truncate`: the batch is discarded, then the file. -/
def doTruncate (io : TruncateIo) (w : WalWriter) : Bool × WalWriter :=
  let discarded := { w with batch := [], batchCount := 0 }
  let emptied := { discarded with file := [] }
  match io with
  | .setLenFailed => (false, discarded)
  | .syncFailed => if w.syncOnFlush then (false, emptied) else (true, { emptied with currentSize := 0 })
  | .ok => (true, { emptied with currentSize := 0 })

/-- `should_flush` of the loop in `run`: asked for, or over one of the thresholds. -/
def shouldFlush (flushWaiters : List Nat) (w : WalWriter) : Bool :=
  !flushWaiters.isEmpty || decide (w.batchCount ≥ w.batchMaxRecords) ||
    (decide (w.batchMaxBytes > 0) && decide (w.batch.length ≥ w.batchMaxBytes))

/-- Step 3 of the loop; without data the waiters are told `Ok`. -/
def flushIfNeeded (io : FlushIo) (flushWaiters : List Nat) (w : WalWriter) : Bool × WalWriter :=
  if w.shouldFlush flushWaiters && !w.batch.isEmpty then w.doFlush io else (true, w)

/-- Steps 2 to 5 of the loop: the drain, then flush, queries and truncation. -/
def drain (flushIo : FlushIo) (truncateIo : TruncateIo) (first : WalCmd) (rest : List WalCmd) (w : WalWriter) :
    WalWriter × List (Nat × WalAnswer) :=
  let (w, drained) := (first :: rest).foldl processCmd (w, ⟨[], [], none⟩)
  let (result, w) := w.flushIfNeeded flushIo drained.flushWaiters
  let flushed := drained.flushWaiters.map fun waiter => (waiter, done result)
  let counts := drained.queries.map fun waiter => (waiter, pending w.batchCount w.batch.length)
  match drained.truncateWaiter with
  | none => (w, flushed ++ counts)
  | some waiter =>
    let (result, w) := w.doTruncate truncateIo
    (w, flushed ++ counts ++ [(waiter, .done result)])

/-- What recovery would find after a flush: the file and then the pending batch. -/
def contents (w : WalWriter) : Bytes := w.file ++ w.batch

end WalWriter

open WalWriter

/-- The task with the answers it has sent. -/
structure WalTask where
  writer : WalWriter
  answers : List (Nat × WalAnswer)

open WalTask

/-- A turn of the loop: a command with those drained behind it, or the age timeout. -/
inductive Turn where
  | drained (first : WalCmd) (rest : List WalCmd)
  | timeout

def Turn.cmds : Turn → List WalCmd
  | .drained first rest => first :: rest
  | .timeout => []

/-- One turn; the timeout only runs while the batch holds something. -/
def WalTask.turn (flushIo : FlushIo) (truncateIo : TruncateIo) (s : WalTask) : Turn → WalTask
  | .drained first rest =>
    let (w, answers) := s.writer.drain flushIo truncateIo first rest
    ⟨w, s.answers ++ answers⟩
  | .timeout => if s.writer.batch = [] then s else { s with writer := (s.writer.doFlush flushIo).2 }

/-- A run of the loop from `w` on, with a file that takes every operation. -/
def WalWriter.turns (w : WalWriter) (ts : List Turn) : WalTask := run (turn .ok .ok) ⟨w, []⟩ ts

/-- The commands taken one at a time. -/
def oneAtATime (cmds : List WalCmd) : List Turn := cmds.map fun c => .drained c []

namespace WalCmd

def data : WalCmd → Bytes
  | .append data _ => data
  | _ => []

def flusher : WalCmd → Option Nat
  | .flush waiter => some waiter
  | _ => none

def query : WalCmd → Option Nat
  | .queryPending waiter => some waiter
  | _ => none

def truncater : WalCmd → Option Nat
  | .truncate waiter => some waiter
  | _ => none

/-- The commands that change nothing after a truncation. -/
def Inert (c : WalCmd) : Prop := c.data = [] ∧ c.truncater = none

/-- Nothing but inert commands follows a truncation. -/
def TruncatesLast : List WalCmd → Prop
  | [] => True
  | .truncate _ :: rest => ∀ c ∈ rest, c.Inert
  | _ :: rest => TruncatesLast rest

/-- The waiters that ask to be told about the file. -/
def waiters (cmds : List WalCmd) : List Nat := cmds.filterMap flusher ++ cmds.filterMap truncater

end WalCmd

open WalCmd

/-- The waiters that were told how their flush or truncation ended. -/
def WalTask.answered (s : WalTask) : List Nat :=
  s.answers.filterMap fun (waiter, answer) => match answer with
    | .done _ => some waiter
    | .pending _ _ => none

/-- The task after these turns is where it would be had it taken the commands one at
a time: the contents are the same; the data of an append stands in the file, behind
what was logged before it, once a flush behind it is answered and no truncation
followed; and each waiter has its answer. -/
structure AsSequential (w : WalWriter) (ts : List Turn) : Prop where
  contents : (w.turns ts).writer.contents = (w.turns (oneAtATime (ts.flatMap Turn.cmds))).writer.contents
  durable : ∀ before data count between waiter after,
    ts.flatMap Turn.cmds = before ++ .append data count :: (between ++ .flush waiter :: after) →
    (waiter, .done true) ∈ (w.turns ts).answers → (∀ c ∈ between ++ after, c.truncater = none) →
    (w.turns (oneAtATime before)).writer.contents ++ data <+: (w.turns ts).writer.file
  answered : (waiters (ts.flatMap Turn.cmds)).Subperm (w.turns ts).answered

/-! ## One turn -/

namespace WalWriter

/-- What the drain leaves: the data in the batch, the waiters set aside. -/
theorem foldl_processCmd (cmds : List WalCmd) (w : WalWriter) (d : Drained) :
    ∃ count, cmds.foldl processCmd (w, d) =
      ({ w with batch := w.batch ++ cmds.flatMap data, batchCount := count },
        ⟨d.flushWaiters ++ cmds.filterMap flusher, d.queries ++ cmds.filterMap query,
          ((cmds.filterMap truncater).getLast?).or d.truncateWaiter⟩) := by
  induction cmds generalizing w d with
  | nil => exact ⟨w.batchCount, by simp⟩
  | cons c cmds ih =>
    obtain ⟨count, rest⟩ := ih (processCmd (w, d) c).1 (processCmd (w, d) c).2
    refine ⟨count, ?_⟩
    rw [foldl_cons, rest]
    cases c with
    | append data n => simp [processCmd, WalCmd.data, filterMap_cons, WalCmd.flusher, WalCmd.query, WalCmd.truncater]
    | flush waiter => simp [processCmd, WalCmd.data, filterMap_cons, WalCmd.flusher, WalCmd.query, WalCmd.truncater]
    | queryPending waiter =>
      simp [processCmd, data, filterMap_cons, flusher, query, truncater]
    | truncate waiter =>
      simp only [processCmd, data, filterMap_cons, flusher, query, truncater,
        flatMap_cons, nil_append, getLast?_cons, Option.some_or]
      cases (cmds.filterMap truncater).getLast? <;> rfl

/-- `do_flush` on a file that takes it: everything is in the file. -/
theorem doFlush_ok (w : WalWriter) :
    (w.doFlush .ok).1 = true ∧ (w.doFlush .ok).2.file = w.contents ∧ (w.doFlush .ok).2.batch = [] := by
  unfold doFlush contents
  split
  · next empty => simp [empty]
  · exact ⟨rfl, rfl, rfl⟩

/-- A drain without a truncation: the data is behind what was there, and in the file if a flush is asked for. -/
structure Extended (w : WalWriter) (cmds : List WalCmd) (after : WalWriter) : Prop where
  contents : after.contents = w.contents ++ cmds.flatMap data
  file : w.file <+: after.file
  flushed : cmds.filterMap flusher ≠ [] → after.file = w.contents ++ cmds.flatMap data

/-- The waiters a drain answers: those of all flushes, and of the last truncation. -/
def told (cmds : List WalCmd) : List Nat :=
  cmds.filterMap flusher ++ (cmds.filterMap truncater).getLast?.toList

/-- Step 3 on a collected batch. -/
theorem flushIfNeeded_ok (w : WalWriter) (cmds : List WalCmd) (count : Nat) :
    let collected := { w with batch := w.batch ++ cmds.flatMap data, batchCount := count }
    let after := collected.flushIfNeeded .ok (cmds.filterMap flusher)
    after.1 = true ∧ Extended w cmds after.2 := by
  intro collected after
  have whole : collected.contents = w.contents ++ cmds.flatMap data := by simp [collected, contents]
  by_cases flushes : (collected.shouldFlush (cmds.filterMap flusher) && !collected.batch.isEmpty) = true
  · obtain ⟨ok, file, batch⟩ := doFlush_ok collected
    have taken : after = collected.doFlush .ok := if_pos flushes
    rw [taken]
    refine ⟨ok, ?_, ?_, ?_⟩
    · rw [← whole, contents, file, batch, append_nil]
    · rw [file]
      exact prefix_append _ _
    · intro _
      rw [file, whole]
  · have left : after = (true, collected) := if_neg flushes
    rw [left]
    refine ⟨rfl, whole, prefix_refl _, ?_⟩
    intro flushers
    have should : collected.shouldFlush (cmds.filterMap flusher) = true := by simp [shouldFlush, flushers]
    have empty : collected.batch = [] := by simpa [should] using flushes
    rw [← whole, contents, empty, append_nil]

theorem answered_map (w : WalWriter) (flushers queries : List Nat) (last : List Nat) (count bytes : Nat) :
    WalTask.answered ⟨w, flushers.map (fun n => (n, done true)) ++
      queries.map (fun n => (n, pending count bytes)) ++ last.map (fun n => (n, done true))⟩ =
      flushers ++ last := by
  simp [WalTask.answered, filterMap_append, filterMap_map]

/-- **One drain**: it extends the log, or empties it if there is a truncation anywhere in it. -/
theorem drain_ok (w : WalWriter) (first : WalCmd) (rest : List WalCmd) :
    (if (first :: rest).filterMap truncater = [] then Extended w (first :: rest) (w.drain .ok .ok first rest).1
      else (w.drain .ok .ok first rest).1.contents = []) ∧
      WalTask.answered ⟨w, (w.drain .ok .ok first rest).2⟩ = told (first :: rest) := by
  obtain ⟨count, collected⟩ := foldl_processCmd (first :: rest) w ⟨[], [], none⟩
  unfold drain told
  generalize first :: rest = cmds at *
  simp only [collected, nil_append, Option.or_none]
  obtain ⟨ok, extended⟩ := flushIfNeeded_ok w cmds count
  generalize flushIfNeeded .ok _ _ = after at ok extended ⊢
  obtain ⟨result, w'⟩ := after
  obtain rfl : result = true := ok
  cases last : (cmds.filterMap truncater).getLast? with
  | none =>
    have none_ : cmds.filterMap truncater = [] := getLast?_eq_none_iff.mp last
    refine ⟨by simpa [none_] using extended, ?_⟩
    simpa using answered_map w (cmds.filterMap flusher) (cmds.filterMap query) [] _ _
  | some waiter =>
    have some_ : cmds.filterMap truncater ≠ [] := by
      intro empty
      simp [empty] at last
    refine ⟨by simp [some_, doTruncate, contents], ?_⟩
    exact answered_map w (cmds.filterMap flusher) (cmds.filterMap query) [waiter] _ _

end WalWriter

/-! ## The log the commands describe -/

namespace WalCmd

/-- What a command taken alone makes of the log. -/
def onLog (log : Bytes) : WalCmd → Bytes
  | .append data _ => log ++ data
  | .truncate _ => []
  | _ => log

theorem onLog_of_kept {c : WalCmd} (kept : c.truncater = none) (log : Bytes) : c.onLog log = log ++ c.data := by
  cases c with
  | append data count => rfl
  | flush waiter => exact (append_nil log).symm
  | queryPending waiter => exact (append_nil log).symm
  | truncate waiter => cases kept

variable {cmds : List WalCmd} {w : WalWriter}

theorem foldl_onLog_kept (kept : ∀ c ∈ cmds, c.truncater = none) (log : Bytes) :
    cmds.foldl onLog log = log ++ cmds.flatMap data := by
  induction cmds generalizing log with
  | nil => simp
  | cons c cmds ih =>
    rw [foldl_cons, ih (fun c member => kept c (mem_cons_of_mem _ member)),
      onLog_of_kept (kept c mem_cons_self), flatMap_cons, append_assoc]

theorem filterMap_truncater_eq_nil : cmds.filterMap truncater = [] ↔ ∀ c ∈ cmds, c.truncater = none :=
  filterMap_eq_nil_iff

/-- With a truncation in the drain, `TruncatesLast` says that it is the only one and
that the commands taken alone leave the log empty. -/
theorem truncatesLast_iff (truncates : cmds.filterMap truncater ≠ []) (log : Bytes) :
    TruncatesLast cmds ↔ (cmds.filterMap truncater).length = 1 ∧ cmds.foldl onLog log = [] := by
  induction cmds generalizing log with
  | nil => exact absurd rfl truncates
  | cons c cmds ih =>
    cases c with
    | append data count => exact ih truncates (log ++ data)
    | flush waiter => exact ih truncates log
    | queryPending waiter => exact ih truncates log
    | truncate waiter =>
      have alone : ((truncate waiter :: cmds).filterMap truncater).length = 1 ↔ cmds.filterMap truncater = [] := by
        simp [truncater]
      rw [alone, filterMap_truncater_eq_nil]
      simp only [TruncatesLast, Inert, foldl_cons, onLog]
      constructor
      · intro inert
        have kept : ∀ c ∈ cmds, c.truncater = none := fun c member => (inert c member).2
        refine ⟨kept, ?_⟩
        rw [foldl_onLog_kept kept, nil_append, flatMap_eq_nil_iff]
        exact fun c member => (inert c member).1
      · intro ⟨kept, empty⟩
        rw [foldl_onLog_kept kept, nil_append, flatMap_eq_nil_iff] at empty
        exact fun c member => ⟨empty c member, kept c member⟩

theorem truncatesLast_of_kept (kept : ∀ c ∈ cmds, c.truncater = none) : TruncatesLast cmds := by
  induction cmds with
  | nil => trivial
  | cons c cmds ih =>
    have rest := ih (fun c member => kept c (mem_cons_of_mem _ member))
    cases c with
    | append data count => exact rest
    | flush waiter => exact rest
    | queryPending waiter => exact rest
    | truncate waiter => exact absurd (kept (.truncate waiter) mem_cons_self) (by simp [truncater])

theorem waiters_append (as bs : List WalCmd) : (waiters (as ++ bs)).Perm (waiters as ++ waiters bs) := by
  simp only [waiters, filterMap_append, append_assoc]
  apply Perm.append_left
  exact perm_append_comm_assoc _ _ _

theorem told_of_last (last : TruncatesLast cmds) : told cmds = waiters cmds := by
  unfold told waiters
  by_cases truncates : cmds.filterMap truncater = []
  · rw [truncates]
    rfl
  · have alone := ((truncatesLast_iff truncates []).mp last).1
    obtain ⟨waiter, single⟩ := length_eq_one_iff.mp alone
    rw [single]
    rfl

end WalCmd

namespace WalTask

/-- A command taken alone does to the contents what it says. -/
theorem turn_single (s : WalTask) (c : WalCmd) :
    (s.turn .ok .ok (.drained c [])).writer.contents = c.onLog s.writer.contents := by
  obtain ⟨effect, -⟩ := s.writer.drain_ok c []
  simp only [turn]
  cases truncates : c.truncater with
  | none =>
    rw [if_pos (by simp [truncates])] at effect
    rw [effect.contents, onLog_of_kept truncates]
    simp
  | some waiter =>
    rw [if_neg (by simp [truncates])] at effect
    rw [effect]
    cases c <;> first | rfl | cases truncates

theorem run_oneAtATime (s : WalTask) (cmds : List WalCmd) :
    (run (turn .ok .ok) s (oneAtATime cmds)).writer.contents = cmds.foldl onLog s.writer.contents := by
  induction cmds generalizing s with
  | nil => rfl
  | cons c cmds ih =>
    have rest := ih (s.turn .ok .ok (.drained c []))
    rw [turn_single] at rest
    exact rest

/-- What drains with their truncation last keep: the log is that of the commands so
far, what a flush saw is in the file, and everybody is answered. -/
structure Sequential (w : WalWriter) (cmds : List WalCmd) (s : WalTask) : Prop where
  contents : s.writer.contents = cmds.foldl onLog w.contents
  flushed : ∀ before waiter after, cmds = before ++ .flush waiter :: after → (∀ c ∈ after, c.truncater = none) →
    before.foldl onLog w.contents <+: s.writer.file
  answered : s.answered.Perm (waiters cmds)

theorem Sequential.timeout {s : WalTask} (seq : Sequential w cmds s) : Sequential w cmds (s.turn .ok .ok .timeout) := by
  simp only [turn]
  split
  · exact seq
  · obtain ⟨-, file, batch⟩ := s.writer.doFlush_ok
    refine ⟨?_, ?_, seq.answered⟩
    · rw [← seq.contents, WalWriter.contents, file, batch, append_nil]
    · intro before waiter after split kept
      rw [file]
      exact (seq.flushed before waiter after split kept).trans (prefix_append _ _)

theorem answered_append (w : WalWriter) (as bs : List (Nat × WalAnswer)) :
    answered ⟨w, as ++ bs⟩ = answered ⟨w, as⟩ ++ answered ⟨w, bs⟩ :=
  filterMap_append

theorem answered_turn (s : WalTask) (first : WalCmd) (rest : List WalCmd) :
    (s.turn .ok .ok (.drained first rest)).answered = s.answered ++ told (first :: rest) := by
  have told := (s.writer.drain_ok first rest).2
  rw [← told]
  exact answered_append s.writer s.answers _

/-- A drain with its truncation last, if it has one. -/
theorem Sequential.drained {s : WalTask} (seq : Sequential w cmds s)
    {first : WalCmd} {rest : List WalCmd} (last : TruncatesLast (first :: rest)) :
    Sequential w (cmds ++ first :: rest) (s.turn .ok .ok (.drained first rest)) := by
  obtain ⟨effect, -⟩ := s.writer.drain_ok first rest
  have told := answered_turn s first rest
  simp only [turn] at told ⊢
  generalize first :: rest = group at *
  have answered : (s.answered ++ WalWriter.told group).Perm (waiters (cmds ++ group)) := by
    rw [told_of_last last]
    exact (seq.answered.append_right _).trans (waiters_append cmds group).symm
  rw [← told] at answered
  by_cases truncates : group.filterMap truncater = []
  · rw [if_pos truncates] at effect
    have kept := filterMap_truncater_eq_nil.mp truncates
    refine ⟨?_, ?_, ?_⟩
    · rw [effect.contents, seq.contents, foldl_append, foldl_onLog_kept kept]
    · intro before waiter after split quiet
      rcases append_eq_append_iff.mp split with ⟨front, rfl, here⟩ | ⟨back, earlier, later⟩
      · -- the flush is in this drain, so all of the drain's data is in the file
        have flushes : group.filterMap flusher ≠ [] := by simp [here, flusher]
        have front_kept : ∀ c ∈ front, c.truncater = none := fun c member => kept c (by simp [here, member])
        rw [effect.flushed flushes, seq.contents, foldl_append, foldl_onLog_kept front_kept, here,
          flatMap_append, ← append_assoc]
        exact prefix_append _ _
      · cases back with
        | nil =>
          simp only [append_nil, nil_append] at earlier later
          subst earlier
          have flushes : group.filterMap flusher ≠ [] := by simp [← later, flusher]
          rw [effect.flushed flushes, seq.contents]
          exact prefix_append _ _
        | cons c back =>
          simp only [cons_append, cons.injEq] at later
          obtain ⟨rfl, rfl⟩ := later
          have before_drain := seq.flushed before waiter back earlier
            (fun c member => quiet c (mem_append_left _ member))
          exact before_drain.trans effect.file
    · exact answered
  · rw [if_neg truncates] at effect
    obtain ⟨alone, empty⟩ := (truncatesLast_iff truncates (cmds.foldl onLog w.contents)).mp last
    refine ⟨?_, ?_, ?_⟩
    · rw [effect, foldl_append, empty]
    · -- nothing is left of what any flush saw
      intro before waiter after split quiet
      have whole : (before ++ .flush waiter :: after).foldl onLog w.contents = [] := by
        rw [← split, foldl_append, empty]
      rw [foldl_append, foldl_onLog_kept (forall_mem_cons.mpr ⟨rfl, quiet⟩),
        append_eq_nil_iff] at whole
      rw [whole.1]
      exact nil_prefix
    · exact answered

theorem Sequential.turn {s : WalTask} (seq : Sequential w cmds s) {t : Turn}
    (last : TruncatesLast t.cmds) : Sequential w (cmds ++ t.cmds) (s.turn .ok .ok t) := by
  cases t with
  | timeout =>
    simp only [Turn.cmds, append_nil]
    exact seq.timeout
  | drained first rest => exact seq.drained last

end WalTask

namespace WalWriter

theorem turns_oneAtATime (w : WalWriter) (cmds : List WalCmd) :
    (w.turns (oneAtATime cmds)).writer.contents = cmds.foldl onLog w.contents :=
  run_oneAtATime ⟨w, []⟩ cmds

theorem turns_append (w : WalWriter) (ts : List Turn) (t : Turn) :
    w.turns (ts ++ [t]) = (w.turns ts).turn .ok .ok t :=
  run_append _ _ ts [t]

/-- **The run**: drains with their truncation last are sequential throughout. -/
theorem turns_sequential (w : WalWriter) {ts : List Turn} (last : ∀ t ∈ ts, TruncatesLast t.cmds) :
    Sequential w (ts.flatMap Turn.cmds) (w.turns ts) := by
  induction ts using reverseRecOn with
  | nil => exact ⟨rfl, by simp, Perm.refl _⟩
  | append_singleton ts t ih =>
    have before := ih (fun t member => last t (mem_append_left _ member))
    rw [turns_append, flatMap_append, flatMap_singleton]
    exact before.turn (last t (by simp))

end WalWriter

theorem WalTask.Sequential.asSequential {ts : List Turn}
    (seq : Sequential w (ts.flatMap Turn.cmds) (w.turns ts)) : AsSequential w ts := by
  refine ⟨?_, ?_, seq.answered.symm.subperm⟩
  · rw [seq.contents, turns_oneAtATime]
  · intro before data count between waiter after split _ quiet
    have kept : ∀ c ∈ between, c.truncater = none := fun c member => quiet c (mem_append_left _ member)
    have seen := seq.flushed (before ++ .append data count :: between) waiter after (by simp [split])
      (fun c member => quiet c (mem_append_right _ member))
    rw [foldl_append, foldl_cons, foldl_onLog_kept kept] at seen
    rw [turns_oneAtATime]
    exact (prefix_append _ _).trans seen

/-- A drain that is not in order is noticed at once: the log is empty where the
commands taken alone would leave data, or a waiter has no answer. -/
theorem truncatesLast_of_asSequential {ts : List Turn} {t : Turn}
    (before : Sequential w (ts.flatMap Turn.cmds) (w.turns ts)) (here : AsSequential w (ts ++ [t])) :
    TruncatesLast t.cmds := by
  cases t with
  | timeout => trivial
  | drained first rest =>
    have cmds : (ts ++ [Turn.drained first rest]).flatMap Turn.cmds = ts.flatMap Turn.cmds ++ first :: rest := by
      simp [Turn.cmds]
    by_cases truncates : (first :: rest).filterMap truncater = []
    · exact truncatesLast_of_kept (filterMap_truncater_eq_nil.mp truncates)
    · refine (truncatesLast_iff truncates ((ts.flatMap Turn.cmds).foldl onLog w.contents)).mpr ⟨?_, ?_⟩
      · have enough := here.answered.length_le
        have others := before.answered.length_eq
        have positive := length_pos_iff.mpr truncates
        have one : ((first :: rest).filterMap truncater).getLast?.toList.length ≤ 1 := by
          cases ((first :: rest).filterMap truncater).getLast? <;> simp
        rw [turns_append, answered_turn, cmds, (waiters_append _ _).length_eq] at enough
        simp only [told, waiters, length_append] at enough others
        omega
      · have emptied := ((w.turns ts).writer.drain_ok first rest).1
        rw [if_neg truncates] at emptied
        have same := here.contents
        rw [turns_append, cmds, turns_oneAtATime, foldl_append] at same
        exact same.symm.trans emptied

/-- **A drain is as good as one command at a time exactly if nothing but flushes and
queries follows a truncation in it**: all states of a run are as the sequential
task's iff this holds of every drain of the run. -/
theorem asSequential_iff (w : WalWriter) (ts : List Turn) :
    (∀ before after, ts = before ++ after → AsSequential w before) ↔ ∀ t ∈ ts, TruncatesLast t.cmds := by
  constructor
  · intro all
    induction ts using reverseRecOn with
    | nil => simp
    | append_singleton ts t ih =>
      have last := ih (fun before after split => all before (after ++ [t]) (by simp [split]))
      intro t' member
      rcases mem_append.mp member with old | new
      · exact last t' old
      · obtain rfl := mem_singleton.mp new
        exact truncatesLast_of_asSequential (w.turns_sequential last) (all (ts ++ [t']) [] (by simp))
  · intro last before after split
    subst split
    exact (w.turns_sequential fun t member => last t (mem_append_left _ member)).asSequential

namespace Example

def walWriter : WalWriter := ⟨[], [], 0, 0, 1000, 1048576, true⟩

/-- A truncation with an append and a flush drained behind it. -/
def overtaken : List Turn := [.drained (.truncate 0) [.append [1, 2] 1, .flush 1]]

end Example

open Example

/-- The flush behind the append is answered `Ok`, and the append is gone. -/
theorem asSequential_fails :
    (1, .done true) ∈ (walWriter.turns overtaken).answers ∧
      (walWriter.turns overtaken).writer.contents = [] ∧
      (walWriter.turns (oneAtATime (overtaken.flatMap Turn.cmds))).writer.contents = [1, 2] ∧
      ¬ AsSequential walWriter overtaken := by
  refine ⟨by decide, by decide, by decide, ?_⟩
  intro sequential
  have same := sequential.contents
  revert same
  decide

end StreamHouse.Storage
