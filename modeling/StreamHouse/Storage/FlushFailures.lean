import StreamHouse.Storage.WalWriter

/-!
# Records across failed flushes

`WalWriter::run` hands every batch to `do_flush`, which takes the batch before it
writes. A ledger of the records taken from the channel is kept beside the task, and
after each flush attempt every record of it should stand in the file or wait in the
batch, in order. A failed fsync leaves the data in the file; a failed write drops
the batch. `losesNothing_iff` says that those are the only losses.
-/

namespace StreamHouse.Storage
open Lib List WalCmd

/-- A turn of the loop and how its file operations end. -/
structure IoTurn where
  turn : Turn
  flushIo : FlushIo
  truncateIo : TruncateIo

def WalCmd.record : WalCmd → Option Bytes
  | .append data _ => some data
  | _ => none

/-- The records that a turn takes from the channel. -/
def Turn.records (t : Turn) : List Bytes := t.cmds.filterMap record

def Turn.truncates (t : Turn) : Bool := t.cmds.any fun c => c.truncater.isSome

/-- The records stand whole and in this order in the bytes. -/
def Stands : List Bytes → Bytes → Prop
  | [], _ => True
  | r :: records, bytes => ∃ gap rest, bytes = gap ++ r ++ rest ∧ Stands records rest

namespace WalWriter

/-- The writer with a turn's commands taken in, before it looks at the thresholds. -/
def collected (w : WalWriter) (t : Turn) : WalWriter × Drained := t.cmds.foldl processCmd (w, ⟨[], [], none⟩)

/-- Whether the turn comes to a write. -/
def writes (w : WalWriter) : Turn → Bool
  | .drained first rest =>
    let (w, drained) := w.collected (.drained first rest)
    w.shouldFlush drained.flushWaiters && !w.batch.isEmpty
  | .timeout => !w.batch.isEmpty

/-- The writer after the flush attempt of the turn, with the truncation still to come. -/
def attempt (io : FlushIo) (w : WalWriter) (t : Turn) : WalWriter :=
  if w.writes t then ((w.collected t).1.doFlush io).2 else (w.collected t).1

/-- Each record is in the file or in the batch, in the order of the ledger, and
a flush that succeeds brings all of them into the file. -/
structure Kept (records : List Bytes) (w : WalWriter) : Prop where
  present : ∃ written pending, records = written ++ pending ∧ Stands written w.file ∧ Stands pending w.batch
  later : Stands records (w.doFlush .ok).2.file

/-- The write of the turn is not the one that fails: there is none, or all of the batch was written. -/
def Spared (w : WalWriter) (t : IoTurn) : Prop :=
  ∀ n, t.flushIo = .writeFailed n → w.writes t.turn = true → (w.collected t.turn).1.batch.length ≤ n

end WalWriter

/-- The task and the records it has taken since the last truncation, behind what the file held then. -/
structure WalLedger where
  task : WalTask
  records : List Bytes

namespace WalLedger

def start (w : WalWriter) : WalLedger := ⟨⟨w, []⟩, [w.file, w.batch]⟩

def step (s : WalLedger) (t : IoTurn) : WalLedger :=
  let task := s.task.turn t.flushIo t.truncateIo t.turn
  ⟨task, if t.turn.truncates then [task.writer.file] else s.records ++ t.turn.records⟩

end WalLedger

open WalLedger

/-- After each flush attempt of the run nothing taken from the channel is lost. -/
def LosesNothing (w : WalWriter) (ts : List IoTurn) : Prop :=
  ∀ before t after, ts = before ++ t :: after →
    let s := run step (.start w) before
    WalWriter.Kept (s.records ++ t.turn.records) (s.task.writer.attempt t.flushIo t.turn)

/-! ## Records in bytes -/

theorem stands_flatten (records : List Bytes) (tail : Bytes) : Stands records (records.flatten ++ tail) := by
  induction records with
  | nil => trivial
  | cons r records ih => exact ⟨[], records.flatten ++ tail, by simp, ih⟩

variable {records : List Bytes} {w : WalWriter}

theorem Stands.length_le {bytes : Bytes} (stands : Stands records bytes) : records.flatten.length ≤ bytes.length := by
  induction records generalizing bytes with
  | nil => exact Nat.zero_le _
  | cons r records ih =>
    obtain ⟨gap, rest, rfl, others⟩ := stands
    have := ih others
    simp only [flatten_cons, length_append]
    omega

theorem Turn.flatten_records (t : Turn) : t.records.flatten = t.cmds.flatMap data := by
  unfold Turn.records
  induction t.cmds with
  | nil => rfl
  | cons c cmds ih => cases c <;> simp [record, data, filterMap_cons, ih]

theorem Turn.truncates_iff (t : Turn) : t.truncates = true ↔ t.cmds.filterMap truncater ≠ [] := by
  rw [Ne, filterMap_truncater_eq_nil, Turn.truncates, any_eq_true]
  push Not
  simp only [Option.isSome_iff_ne_none]

/-! ## One turn -/

namespace WalWriter

/-- The ledger accounts for every byte: what was written is the file, the rest is the batch. -/
def Exact (records : List Bytes) (w : WalWriter) : Prop :=
  ∃ written pending, records = written ++ pending ∧ w.file = written.flatten ∧ w.batch = pending.flatten

theorem Exact.kept (exact_ : Exact records w) : Kept records w := by
  obtain ⟨written, pending, rfl, file, batch⟩ := exact_
  refine ⟨⟨written, pending, rfl, ?_, ?_⟩, ?_⟩
  · rw [file]
    simpa using stands_flatten written []
  · rw [batch]
    simpa using stands_flatten pending []
  · rw [w.doFlush_ok.2.1, contents, file, batch, ← flatten_append]
    simpa using stands_flatten (written ++ pending) []

theorem Exact.length (exact_ : Exact records w) : records.flatten.length = w.file.length + w.batch.length := by
  obtain ⟨written, pending, rfl, file, batch⟩ := exact_
  rw [file, batch, flatten_append, length_append]

theorem Kept.length_le (kept : Kept records w) : records.flatten.length ≤ w.file.length + w.batch.length := by
  obtain ⟨written, pending, rfl, inFile, inBatch⟩ := kept.present
  have front := inFile.length_le
  have back := inBatch.length_le
  rw [flatten_append, length_append]
  omega

theorem Exact.collected (exact_ : Exact records w) (t : Turn) : Exact (records ++ t.records) (w.collected t).1 := by
  obtain ⟨written, pending, rfl, file, batch⟩ := exact_
  obtain ⟨count, taken⟩ := foldl_processCmd t.cmds w ⟨[], [], none⟩
  refine ⟨written, pending ++ t.records, append_assoc _ _ _, ?_, ?_⟩
  · rw [WalWriter.collected, taken, file]
  · rw [WalWriter.collected, taken, flatten_append, Turn.flatten_records, ← batch]

/-- A write that fails behind the first `n` bytes leaves these and drops the batch. -/
theorem length_doFlush_writeFailed (some_ : w.batch ≠ []) (n : Nat) :
    (w.doFlush (.writeFailed n)).2.file.length + (w.doFlush (.writeFailed n)).2.batch.length =
      w.file.length + min n w.batch.length := by
  simp [doFlush, some_]

theorem Exact.doFlush (exact_ : Exact records w) {io : FlushIo}
    (spared : ∀ n, io = .writeFailed n → w.batch.length ≤ n) : Exact records (w.doFlush io).2 := by
  have whole : w.file ++ w.batch = records.flatten := by
    obtain ⟨written, pending, rfl, file, batch⟩ := exact_
    rw [file, batch, flatten_append]
  unfold WalWriter.doFlush
  split
  · exact exact_
  · refine ⟨records, [], (append_nil _).symm, ?_, ?_⟩
    · cases io with
      | ok => exact whole
      | syncFailed => simp only []; split <;> exact whole
      | writeFailed n => simpa [take_of_length_le (spared n rfl)] using whole
    · cases io with
      | ok => rfl
      | syncFailed => simp only []; split <;> rfl
      | writeFailed n => rfl

theorem collected_batch_ne_nil {t : Turn} (writes : w.writes t = true) : (w.collected t).1.batch ≠ [] := by
  cases t with
  | drained first rest =>
    simp only [WalWriter.writes, Bool.and_eq_true, Bool.not_eq_true', isEmpty_eq_false_iff] at writes
    exact writes.2
  | timeout => simpa [WalWriter.writes, WalWriter.collected, Turn.cmds] using writes

/-- **One flush attempt**: with a full account before it, nothing is lost iff the write is spared. -/
theorem Exact.kept_attempt_iff (exact_ : Exact records w) (t : IoTurn) :
    Kept (records ++ t.turn.records) (w.attempt t.flushIo t.turn) ↔ w.Spared t := by
  have taken := exact_.collected t.turn
  constructor
  · intro kept n failed writes
    have short := kept.length_le
    have full := taken.length
    rw [attempt, if_pos writes, failed, length_doFlush_writeFailed (collected_batch_ne_nil writes)] at short
    omega
  · intro spared
    unfold attempt
    split
    · next writes => exact (taken.doFlush fun n failed => spared n failed writes).kept
    · exact taken.kept

theorem Exact.attempt (exact_ : Exact records w) {t : IoTurn}
    (spared : w.Spared t) : Exact (records ++ t.turn.records) (w.attempt t.flushIo t.turn) := by
  have taken := exact_.collected t.turn
  unfold WalWriter.attempt
  split
  · next writes => exact taken.doFlush fun n failed => spared n failed writes
  · exact taken

theorem flushIfNeeded_snd (io : FlushIo) (flushWaiters : List Nat) (w : WalWriter) :
    (w.flushIfNeeded io flushWaiters).2 =
      if w.shouldFlush flushWaiters && !w.batch.isEmpty then (w.doFlush io).2 else w := by
  unfold flushIfNeeded
  split <;> rfl

theorem exact_doTruncate (io : TruncateIo) (w : WalWriter) : Exact [(w.doTruncate io).2.file] (w.doTruncate io).2 := by
  refine ⟨[(w.doTruncate io).2.file], [], rfl, by simp, ?_⟩
  cases io with
  | ok => rfl
  | setLenFailed => rfl
  | syncFailed =>
    unfold doTruncate
    simp only []
    split <;> rfl

end WalWriter

/-- A turn is its flush attempt, and then the truncation if one was asked for. -/
theorem WalTask.turn_writer (s : WalTask) (flushIo : FlushIo) (truncateIo : TruncateIo) (t : Turn) :
    (s.turn flushIo truncateIo t).writer =
      if t.truncates then ((s.writer.attempt flushIo t).doTruncate truncateIo).2 else s.writer.attempt flushIo t := by
  cases t with
  | timeout =>
    have stays : Turn.timeout.truncates = false := rfl
    simp only [turn, stays, WalWriter.attempt, WalWriter.writes, WalWriter.collected, Turn.cmds, foldl_nil]
    by_cases empty : s.writer.batch = [] <;> simp [empty]
  | drained first rest =>
    obtain ⟨count, collected⟩ := WalWriter.foldl_processCmd (first :: rest) s.writer ⟨[], [], none⟩
    have attempted : s.writer.attempt flushIo (.drained first rest) =
        ((s.writer.collected (.drained first rest)).1.flushIfNeeded flushIo
          (s.writer.collected (.drained first rest)).2.flushWaiters).2 :=
      (WalWriter.flushIfNeeded_snd _ _ _).symm
    have truncates := (Turn.drained first rest).truncates_iff
    rw [attempted]
    simp only [turn, WalWriter.drain, WalWriter.collected, Turn.cmds] at truncates ⊢
    generalize first :: rest = cmds at *
    simp only [collected, Option.or_none]
    cases last : (cmds.filterMap truncater).getLast? with
    | none =>
      have none_ : cmds.filterMap truncater = [] := getLast?_eq_none_iff.mp last
      rw [if_neg (by rw [truncates]; exact not_not_intro none_)]
    | some waiter =>
      have some_ : cmds.filterMap truncater ≠ [] := by
        intro empty
        simp [empty] at last
      rw [if_pos (truncates.mpr some_)]

/-! ## Runs -/

namespace WalLedger

/-- **The step**: a spared turn keeps the full account. -/
theorem exact_step {s : WalLedger} (exact_ : s.task.writer.Exact s.records) {t : IoTurn} (spared : s.task.writer.Spared t) :
    (s.step t).task.writer.Exact (s.step t).records := by
  have writer : (s.step t).task.writer = _ := s.task.turn_writer t.flushIo t.truncateIo t.turn
  have records : (s.step t).records =
      if t.turn.truncates then [(s.step t).task.writer.file] else s.records ++ t.turn.records := rfl
  rw [records, writer]
  by_cases truncates : t.turn.truncates = true
  · rw [if_pos truncates, if_pos truncates]
    exact WalWriter.exact_doTruncate t.truncateIo _
  · rw [if_neg truncates, if_neg truncates]
    exact exact_.attempt spared

end WalLedger

/-- **Nothing is lost exactly if no write fails** before it has written all of its
batch: failed fsyncs lose nothing. -/
theorem losesNothing_iff (w : WalWriter) (ts : List IoTurn) :
    LosesNothing w ts ↔ ∀ before t after, ts = before ++ t :: after →
      (run step (.start w) before).task.writer.Spared t := by
  have started : (start w).task.writer.Exact (start w).records :=
    ⟨[w.file], [w.batch], rfl, by simp [start], by simp [start]⟩
  have steps := meets_congr (fun s : WalLedger => s.task.writer.Exact s.records)
    (fun s t exact_ => exact_.kept_attempt_iff t) (fun s t exact_ spared => exact_step exact_ spared) started ts
  exact meets_iff_forall.symm.trans (steps.trans meets_iff_forall)

/-- A flush whose write fails at once: the record is in neither place, and the next flush writes nothing. -/
theorem losesNothing_fails : ¬ LosesNothing Example.walWriter [⟨.drained (.append [1, 2] 1) [.flush 0], .writeFailed 0, .ok⟩] := by
  intro kept
  have lost := (kept [] _ [] rfl).length_le
  revert lost
  decide

end StreamHouse.Storage
