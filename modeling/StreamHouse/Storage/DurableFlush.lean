import StreamHouse.Storage.Acknowledged

/-!
# The batched durable flush

`DurableFlushTask` (`writer.rs`) and the calls of `WriterPool` around it. The
task takes waiters from its channel, collects more until the batch window
closes, drains what is left, then locks the writer, runs `flush_durable` once
and answers all of them. Produce calls and the pool's `flush_all` work on the
same writer in between, also between the drain and the lock.

`flush_durable` answers `Ok` on an empty segment, and a failed roll empties it:
the next waiter is told its records are durable while they are in the buffer
and the WAL only. `durable_run` is the guarantee for runs that flush nothing
after a failed roll.
-/

namespace StreamHouse.Storage
open Metadata Lib List Example PartitionWriter

/-- A caller of `request_flush`, with the offsets acknowledged before it asked. -/
structure Waiter where
  id : Nat
  before : List Nat
deriving DecidableEq

inductive DurableFlushCmd where
  | waitForFlush (w : Waiter)
  | shutdown

open DurableFlushCmd

/-- Where the task's loop stands: at the first `recv`, in the batch window, in
`do_flush` before it has the writer lock, or ended. -/
inductive DurableFlushTask where
  | waiting
  | collecting (waiters : List Waiter)
  | flushing (waiters : List Waiter) (stop : Bool)
  | stopped

open DurableFlushTask

def DurableFlushTask.waiters : DurableFlushTask → List Waiter
  | .collecting ws => ws
  | .flushing ws _ => ws
  | _ => []

/-- The non-blocking drain after the window; a `Shutdown` in it ends the loop. -/
def drain (waiters : List Waiter) : List DurableFlushCmd → List Waiter × List DurableFlushCmd × Bool
  | [] => (waiters, [], false)
  | .waitForFlush w :: rest => drain (waiters ++ [w]) rest
  | .shutdown :: rest => (waiters, rest, true)

/-- One partition's writer with its flush task. -/
structure Durable where
  world : World
  channel : List DurableFlushCmd
  task : DurableFlushTask
  answers : List (Waiter × Bool)

inductive DurableEvent where
  /-- A produce call or a flush by the pool, under the writer lock. -/
  | call (op : Op)
  | request (id : Nat)
  | shutdown
  | recv
  | deadline
  | closed
  /-- `do_flush` gets the writer lock. -/
  | flush (env : RollEnv)

namespace Durable

def step (s : Durable) : DurableEvent → Durable
  | .call op => { s with world := s.world.step op }
  | .request id => { s with channel := s.channel ++ [.waitForFlush ⟨id, s.world.acked⟩] }
  | .shutdown => { s with channel := s.channel ++ [.shutdown] }
  | .recv =>
    match s.task, s.channel with
    | .waiting, .waitForFlush w :: rest => { s with task := .collecting [w], channel := rest }
    | .waiting, .shutdown :: rest => { s with task := .stopped, channel := rest }
    | .collecting ws, .waitForFlush w :: rest => { s with task := .collecting (ws ++ [w]), channel := rest }
    | .collecting ws, .shutdown :: rest => { s with task := .flushing ws true, channel := rest }
    | _, _ => s
  | .deadline =>
    match s.task with
    | .collecting ws =>
      let (ws, rest, stop) := drain ws s.channel
      { s with task := .flushing ws stop, channel := rest }
    | _ => s
  | .closed =>
    match s.task, s.channel with
    | .waiting, [] => { s with task := .stopped }
    | .collecting ws, [] => { s with task := .flushing ws true }
    | _, _ => s
  | .flush env =>
    match s.task with
    | .flushing ws stop =>
      if ws = [] then { s with task := if stop then .stopped else .waiting }
      else
        let (result, w, shared) := s.world.writer.flushDurable env s.world.shared
        { s with
          world := { s.world with writer := w, shared := shared }
          answers := s.answers ++ ws.map (·, result.isOk)
          task := if stop then .stopped else .waiting }
    | _ => s

/-- Every waiter that was answered `Ok` had all its records registered. -/
def Kept (s : Durable) : Prop :=
  ∀ a ∈ s.answers, a.2 = true → ∀ o ∈ a.1.before, s.world.shared.Registered s.world.writer.partition o

instance (s : Durable) : Decidable s.Kept :=
  inferInstanceAs (Decidable (∀ a ∈ s.answers, _))

/-- The event flushes in this state: a call that rolls, or the task's own flush. -/
def flushes (s : Durable) : DurableEvent → Bool
  | .call op => (op.roll s.world).isSome
  | .flush _ => match s.task with
    | .flushing ws _ => !ws.isEmpty
    | _ => false
  | _ => false

/-- Flushes happen only while nothing is buffered beyond the current segment,
that is, not after a roll has failed. -/
def Sound (s : Durable) (e : DurableEvent) : Prop :=
  s.flushes e = true → s.world.writer.bufferedRecords = s.world.writer.currentSegment

instance (s : Durable) (e : DurableEvent) : Decidable (s.Sound e) :=
  inferInstanceAs (Decidable (_ → _))

end Durable

open Durable

/-- While nothing is stranded, every acknowledged offset is anchored or in the
current segment. -/
structure Covered (s : World) : Prop where
  below : Below s.writer
  covered : s.writer.bufferedRecords = s.writer.currentSegment →
    ∀ o ∈ s.acked, Anchored s.shared s.writer o ∨ ∃ r ∈ s.writer.currentSegment, r.offset = o

/-- A roll of everything that is buffered: when it registers, all that was
acknowledged is anchored; when it does not, the records it dropped are stranded. -/
theorem Covered.rolled {s : World} (c : Covered s) (env : RollEnv) (nonempty : s.writer.currentSegment ≠ [])
    (settled : s.writer.bufferedRecords = s.writer.currentSegment) :
    Covered { s with
      writer := (s.writer.rollSegment env s.shared).2.1
      shared := (s.writer.rollSegment env s.shared).2.2 } ∧
    ((s.writer.rollSegment env s.shared).1.isOk → ∀ o ∈ s.acked,
      Anchored (s.writer.rollSegment env s.shared).2.2 (s.writer.rollSegment env s.shared).2.1 o) := by
  by_cases done : s.writer.rollRegisters env s.shared = true
  · obtain ⟨first, last, m, roll, -⟩ := rollSegment_registered done
    have anchored : ∀ o ∈ s.acked,
        Anchored (s.writer.rollSegment env s.shared).2.2 (s.writer.rollSegment env s.shared).2.1 o := by
      intro o acked
      rcases c.covered settled o acked with old | ⟨r, member, rfl⟩
      · exact old.done roll
      · exact RollDone.anchors roll c.below member
    obtain ⟨segment, -, -, -, -, -⟩ := settle_writer env { s.writer with currentSegment := [] }
    rw [← roll.writer] at segment
    exact ⟨⟨.of_nil segment, fun _ o acked => .inl (anchored o acked)⟩, fun _ => anchored⟩
  · have refused : s.writer.rollRegisters env s.shared = false := by simpa using done
    obtain ⟨⟨e, error⟩, failed⟩ := rollSegment_failed refused
    refine ⟨⟨?_, ?_⟩, fun ok => ?_⟩
    · exact .of_nil (by rw [failed.writer])
    · rw [failed.writer]
      intro unsettled
      exact absurd (settled.symm.trans unsettled) nonempty
    · rw [error] at ok
      cases ok

theorem Covered.step {s : World} (c : Covered s) {op : Op}
    (sound : (op.roll s).isSome → s.writer.bufferedRecords = s.writer.currentSegment) : Covered (s.step op) := by
  have effect := s.stepCases op
  generalize s.step op = after at effect ⊢
  cases effect with
  | accepted walNow _ =>
    refine ⟨c.below.accepted walNow op.records, ?_⟩
    intro settled o acked
    have settled' := append_cancel_right settled
    rcases mem_append.mp acked with old | new
    · rcases c.covered settled' o old with anchored | ⟨r, member, same⟩
      · exact .inl anchored.accepted
      · exact .inr ⟨r, mem_append_left _ member, same⟩
    · obtain ⟨r, member, same⟩ := mem_map.mp new
      exact .inr ⟨r, mem_append_right _ member, same⟩
  | skipped n _ _ =>
    refine ⟨c.below.skipped n, ?_⟩
    intro settled o acked
    rcases c.covered settled o acked with anchored | member
    · exact .inl anchored.skipped
    · exact .inr member
  | idle _ => exact c
  | rolled env rolls =>
    have nonempty : s.writer.currentSegment ≠ [] := by
      cases op with
      | append => cases rolls
      | appendBatch => cases rolls
      | flush e =>
        simp only [Op.roll] at rolls
        split at rolls
        · next both => exact both.1
        · cases rolls
      | flushDurable e =>
        simp only [Op.roll] at rolls
        split at rolls
        · next nonempty => exact nonempty
        · cases rolls
    exact (c.rolled env nonempty (sound (by rw [Option.mem_def.mp rolls]; rfl))).1

/-- `flush_durable` answering `Ok` with nothing stranded anchors everything. -/
theorem Covered.flushDurable {s : World} (c : Covered s) (env : RollEnv)
    (settled : s.writer.bufferedRecords = s.writer.currentSegment) :
    Covered { s with
      writer := (s.writer.flushDurable env s.shared).2.1
      shared := (s.writer.flushDurable env s.shared).2.2 } ∧
    ((s.writer.flushDurable env s.shared).1.isOk → ∀ o ∈ s.acked,
      Anchored (s.writer.flushDurable env s.shared).2.2 (s.writer.flushDurable env s.shared).2.1 o) := by
  unfold PartitionWriter.flushDurable
  by_cases nonempty : s.writer.currentSegment ≠ []
  · simp only [if_pos nonempty]
    obtain ⟨covered, anchored⟩ := c.rolled env nonempty settled
    refine ⟨covered, fun ok => anchored ?_⟩
    cases result : (s.writer.rollSegment env s.shared).1 with
    | ok u => rfl
    | error e => simp [result, Except.map, Except.isOk, Except.toBool] at ok
  · simp only [if_neg nonempty]
    refine ⟨c, fun _ o acked => ?_⟩
    rcases c.covered settled o acked with anchored | ⟨r, member, -⟩
    · exact anchored
    · rw [not_not.mp nonempty] at member
      cases member

namespace Durable

/-- What sound runs keep: waiters asked for offsets that are acknowledged, and
those answered `Ok` have them anchored. -/
structure Inv (s : Durable) : Prop where
  covered : Covered s.world
  queued : ∀ w, waitForFlush w ∈ s.channel → ∀ o ∈ w.before, o ∈ s.world.acked
  collected : ∀ w ∈ s.task.waiters, ∀ o ∈ w.before, o ∈ s.world.acked
  answered : ∀ a ∈ s.answers, a.2 = true → ∀ o ∈ a.1.before, Anchored s.world.shared s.world.writer o

theorem drain_mem (ws : List Waiter) (cmds : List DurableFlushCmd) :
    (∀ w ∈ (drain ws cmds).1, w ∈ ws ∨ waitForFlush w ∈ cmds) ∧
      ∀ c ∈ (drain ws cmds).2.1, c ∈ cmds := by
  induction cmds generalizing ws with
  | nil => exact ⟨fun w member => .inl member, fun c member => by cases member⟩
  | cons c rest ih =>
    cases c with
    | shutdown => exact ⟨fun w member => .inl member, fun c member => mem_cons_of_mem _ member⟩
    | waitForFlush v =>
      obtain ⟨collected, queued⟩ := ih (ws ++ [v])
      refine ⟨fun w member => ?_, fun c member => mem_cons_of_mem _ (queued c member)⟩
      rcases collected w member with old | later
      · rcases mem_append.mp old with old | new
        · exact .inl old
        · exact .inr (by simp [mem_singleton.mp new])
      · exact .inr (mem_cons_of_mem _ later)

/-- A move of waiters from the channel to the task. -/
theorem Inv.moved {s : Durable} (inv : s.Inv) {task : DurableFlushTask} {channel : List DurableFlushCmd}
    (collected : ∀ w ∈ task.waiters, w ∈ s.task.waiters ∨ waitForFlush w ∈ s.channel)
    (queued : ∀ c ∈ channel, c ∈ s.channel) : Inv { s with task := task, channel := channel } := by
  refine ⟨inv.covered, fun w member => inv.queued w (queued _ member), ?_, inv.answered⟩
  intro w member
  rcases collected w member with old | new
  · exact inv.collected w old
  · exact inv.queued w new

/-- `do_flush` with the writer lock. -/
theorem Inv.flushed {s : Durable} (inv : s.Inv) {ws : List Waiter} {stop : Bool} (env : RollEnv)
    (task : s.task = .flushing ws stop) (settled : s.world.writer.bufferedRecords = s.world.writer.currentSegment) :
    Inv { s with
      world := { s.world with
        writer := (s.world.writer.flushDurable env s.world.shared).2.1
        shared := (s.world.writer.flushDurable env s.world.shared).2.2 }
      answers := s.answers ++ ws.map (·, (s.world.writer.flushDurable env s.world.shared).1.isOk)
      task := if stop then .stopped else .waiting } := by
  obtain ⟨covered, anchored⟩ := inv.covered.flushDurable env settled
  refine ⟨covered, inv.queued, ?_, ?_⟩
  · intro w member
    cases stop <;> simp [waiters] at member
  · intro a member ok o before
    rcases mem_append.mp member with old | new
    · have anchored := inv.answered a old ok o before
      simp only [flushDurable]
      split
      · exact World.anchored_rolled env anchored
      · exact anchored
    · obtain ⟨w, waiting, rfl⟩ := mem_map.mp new
      exact anchored ok o (inv.collected w (by rw [task]; exact waiting) o before)

theorem Inv.step {s : Durable} (inv : s.Inv) {e : DurableEvent} (sound : s.Sound e) : (s.step e).Inv := by
  cases e with
  | call op =>
    have grow := s.world.acked_step op
    exact ⟨inv.covered.step sound, fun w queued o before => grow o (inv.queued w queued o before),
      fun w waiting o before => grow o (inv.collected w waiting o before),
      fun a member ok o before => World.anchored_step op (inv.answered a member ok o before)⟩
  | request id =>
    refine ⟨inv.covered, ?_, inv.collected, inv.answered⟩
    intro w member
    rcases mem_append.mp member with old | new
    · exact inv.queued w old
    · simp only [mem_singleton, waitForFlush.injEq] at new
      rw [new]
      exact fun o before => before
  | shutdown =>
    refine ⟨inv.covered, ?_, inv.collected, inv.answered⟩
    intro w member
    exact inv.queued w (by simpa [Durable.step] using member)
  | recv =>
    simp only [Durable.step]
    split
    · next task channel =>
      exact inv.moved (by rw [channel]; simp [waiters]) (by rw [channel]; simp +contextual)
    · next task channel =>
      exact inv.moved (by simp [waiters]) (by rw [channel]; simp +contextual)
    · next task channel =>
      refine inv.moved (fun w member => ?_) (by rw [channel]; simp +contextual)
      rw [channel, task]
      rcases mem_append.mp member with old | new
      · exact .inl old
      · exact .inr (by simp [mem_singleton.mp new])
    · next task channel =>
      exact inv.moved (by rw [task]; exact fun w member => .inl member) (by rw [channel]; simp +contextual)
    · exact inv
  | deadline =>
    simp only [Durable.step]
    split
    · next ws task =>
      obtain ⟨collected, queued⟩ := drain_mem ws s.channel
      exact inv.moved (by rw [task]; exact collected) queued
    · exact inv
  | closed =>
    simp only [Durable.step]
    split
    · next task channel => exact inv.moved (by simp [waiters]) (by simp [channel])
    · next task channel => exact inv.moved (by rw [task]; exact fun w member => .inl member) (by simp [channel])
    · exact inv
  | flush env =>
    simp only [Durable.step]
    split
    · next ws stop task =>
      split
      · exact inv.moved (by cases stop <;> simp [waiters]) (fun c member => member)
      · next waiting =>
        have settled := sound (by simp [flushes, task, waiting])
        exact inv.flushed env task settled
    · exact inv

end Durable

/-- The system when the writer was just opened and its task spawned. -/
def Durable.start (shared : Shared) (w : PartitionWriter) : Durable := ⟨⟨shared, w, []⟩, [], .waiting, []⟩

/-- **A durable acknowledgement is durable** in a run that flushes nothing after
a failed roll. -/
theorem durable_run {shared : Shared} {w : PartitionWriter} (opened : Opened shared w) {es : List DurableEvent}
    (sound : Meets step Sound (.start shared w) es) :
    (run step (.start shared w) es).Kept := by
  have covered : Covered ⟨shared, w, []⟩ := ⟨opened.segment.2, by simp⟩
  have inv := sound.invariant (fun s e inv ok => Inv.step inv ok)
    (⟨covered, by simp [start], by simp [start, waiters],
      by simp [start]⟩ : (start shared w).Inv)
  exact fun a member ok o before => (inv.answered a member ok o before).registered

/-- A record is appended and asked to be durable; the flush fails; the same
caller asks again and is told `Ok`. -/
def Example.retried (firstOk : Bool) : List DurableEvent :=
  [.call (.append true 1 none [1] 7), .request 0, .recv, .deadline, .flush (rollEnv firstOk),
    .request 1, .recv, .deadline, .flush (rollEnv true)]

theorem durable_run_fails : ¬ ∀ shared w, Opened shared w → ∀ es : List DurableEvent,
    (run step (.start shared w) es).Kept := by
  intro all
  have lost := all fresh writer writer_opened (retried false)
  revert lost
  decide

/-- The same calls with an object store that works. -/
theorem durable_run_retried :
    (run step (.start fresh writer) (retried true)).answers =
        [(⟨0, [0]⟩, true), (⟨1, [0]⟩, true)] ∧
      (run step (.start fresh writer) (retried true)).Kept :=
  ⟨by decide, durable_run writer_opened (by decide)⟩

end StreamHouse.Storage
