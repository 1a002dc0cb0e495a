import StreamHouse.Lib.Run
import StreamHouse.Sql.ExactWindows
import StreamHouse.Sql.Stream.WatermarkSpec

/-!
# The counts of the window operator

What is open and what is emitted of a window are together the records that were assigned to it.
In a run in which no record comes to a window that was closed, each window is emitted once, with the
number of its records.
-/

namespace StreamHouse.Sql

open Lib HashMaps Multiples WatermarkTracker WindowAggregateOperator List Option WindowResult AList

/-! ## Open and emitted windows -/

/-- The counts that were emitted for a window, together. -/
def emittedCount (results : List WindowResult) (w : Int) : Nat :=
  ((results.filter fun r => r.windowStart = w).map count).sum

/-- The count of a window that is open. -/
def openCount (windows : OpenWindows) (w : Int) : Nat := (windows.lookup w).elim 0 WindowAccumulator.count

theorem emittedCount_append (results more : List WindowResult) (w : Int) :
    emittedCount (results ++ more) w = emittedCount results w + emittedCount more w := by
  unfold emittedCount
  rw [filter_append, map_append, List.sum_append]

theorem emittedCount_singleton (r : WindowResult) (w : Int) : emittedCount [r] w = if r.windowStart = w then r.count else 0 := by
  by_cases same : r.windowStart = w <;> simp [emittedCount, same]

theorem openCount_of_notMem {windows : OpenWindows} {w : Int} (absent : w ∉ windows) : openCount windows w = 0 := by
  rw [openCount, lookup_eq_none.mpr absent]
  rfl

theorem openCount_addToWindow (value : Option F64) (windows : OpenWindows) (start w : Int) :
    openCount (addToWindow value windows start) w = openCount windows w + if w = start then 1 else 0 := by
  unfold openCount addToWindow
  by_cases same : w = start
  · subst same
    rw [lookup_insert, if_pos rfl]
    cases windows.lookup w with
    | none => exact WindowAccumulator.add_count _ _
    | some acc => exact WindowAccumulator.add_count _ _
  · rw [lookup_insert_ne same, if_neg same, Nat.add_zero]

theorem openCount_foldl (value : Option F64) (windows : OpenWindows) (starts : List Int) (w : Int) :
    openCount (starts.foldl (addToWindow value) windows) w = openCount windows w + starts.count w := by
  induction starts generalizing windows with
  | nil => rfl
  | cons start starts ih =>
    rw [foldl_cons, ih, openCount_addToWindow, count_cons, Nat.add_assoc]
    by_cases same : w = start
    · rw [if_pos same, same]
      simp only [BEq.rfl, ↓reduceIte]
      omega
    · rw [if_neg same, if_neg (by simpa using Ne.symm same)]
      omega

theorem mem_foldl_addToWindow (value : Option F64) (windows : OpenWindows) (starts : List Int) (w : Int) :
    w ∈ starts.foldl (addToWindow value) windows ↔ w ∈ starts ∨ w ∈ windows := by
  induction starts generalizing windows with
  | nil => simp
  | cons start starts ih =>
    rw [foldl_cons, ih, addToWindow, mem_insert, mem_cons]
    tauto

/-- The windows with a result are distinct, and not open. -/
def Separate (emitted : WindowAggregateOperator × List WindowResult) : Prop :=
  (emitted.2.map windowStart).Nodup ∧ ∀ w ∈ emitted.2.map windowStart, w ∉ emitted.1.windows

/-- Windows go from the open ones to the results. -/
structure Moves (before behind : WindowAggregateOperator × List WindowResult) : Prop where
  kind : behind.1.windowType = before.1.windowType
  counts : ∀ w, emittedCount behind.2 w + openCount behind.1.windows w = emittedCount before.2 w + openCount before.1.windows w
  separate : Separate before → Separate behind
  known : ∀ w, w ∈ behind.2.map windowStart ∨ w ∈ behind.1.windows →
    w ∈ before.2.map windowStart ∨ w ∈ before.1.windows

theorem Moves.refl (emitted : WindowAggregateOperator × List WindowResult) : Moves emitted emitted :=
  ⟨rfl, fun _ => rfl, id, fun _ => id⟩

theorem Moves.trans {a b c : WindowAggregateOperator × List WindowResult} (first : Moves a b) (second : Moves b c) : Moves a c where
  kind := second.kind.trans first.kind
  counts w := (second.counts w).trans (first.counts w)
  separate apart := second.separate (first.separate apart)
  known w there := first.known w (second.known w there)

variable {emitted : WindowAggregateOperator × List WindowResult} {s : Trace}

theorem emitWindow_of_none {start : Int}
    (found : emitted.1.windows.lookup start = none) : emitWindow emitted start = emitted := by
  unfold emitWindow
  rw [found]

theorem emitWindow_of_some {start : Int} {acc : WindowAccumulator} (found : emitted.1.windows.lookup start = some acc) :
    emitWindow emitted start =
      ({ emitted.1 with windows := emitted.1.windows.erase start }, emitted.2 ++ [emitted.1.windowResult start acc]) := by
  unfold emitWindow
  rw [found]

theorem moves_emitWindow (emitted : WindowAggregateOperator × List WindowResult) (start : Int) : Moves emitted (emitWindow emitted start) := by
  cases found : emitted.1.windows.lookup start with
  | none =>
    rw [emitWindow_of_none found]
    exact .refl emitted
  | some acc =>
    rw [emitWindow_of_some found]
    have begins : (emitted.1.windowResult start acc).windowStart = start := rfl
    have there : start ∈ emitted.1.windows := lookup_isSome.mp (by rw [found]; rfl)
    refine ⟨rfl, fun w => ?_, fun ⟨distinct, closed⟩ => ⟨?_, ?_⟩, fun w => ?_⟩
    · dsimp only
      rw [emittedCount_append, emittedCount_singleton, begins, openCount, openCount]
      by_cases same : start = w
      · subst same
        rw [if_pos rfl, lookup_erase, found]
        exact Nat.add_zero _
      · rw [if_neg same, lookup_erase_ne (Ne.symm same), Nat.add_zero]
    · rw [map_append, nodup_append]
      refine ⟨distinct, nodup_singleton _, fun w inside w' here => ?_⟩
      rintro rfl
      rw [mem_singleton.mp here] at inside
      exact closed _ inside there
    · intro w inside open_
      obtain ⟨different, old⟩ := mem_erase.mp open_
      rw [map_append] at inside
      obtain earlier | here := mem_append.mp inside
      · exact closed w earlier old
      · exact different (mem_singleton.mp here)
    · rw [map_append, mem_append, mem_erase]
      rintro ((earlier | here) | ⟨-, old⟩)
      · exact .inl earlier
      · rw [mem_singleton.mp here]
        exact .inr there
      · exact .inr old

theorem moves_foldl (starts : List Int) (emitted : WindowAggregateOperator × List WindowResult) :
    Moves emitted (starts.foldl emitWindow emitted) := by
  induction starts generalizing emitted with
  | nil => exact .refl emitted
  | cons start starts ih => exact (moves_emitWindow emitted start).trans (ih _)

/-- Earlier results stay in front. -/
theorem foldl_emitWindow_append (earlier : List WindowResult) (starts : List Int) (emitted : WindowAggregateOperator × List WindowResult) :
    starts.foldl emitWindow (emitted.1, earlier ++ emitted.2) =
      ((starts.foldl emitWindow emitted).1, earlier ++ (starts.foldl emitWindow emitted).2) := by
  induction starts generalizing emitted with
  | nil => rfl
  | cons start starts ih =>
    have step : emitWindow (emitted.1, earlier ++ emitted.2) start =
        ((emitWindow emitted start).1, earlier ++ (emitWindow emitted start).2) := by
      cases found : emitted.1.windows.lookup start with
      | none =>
        have found' : (emitted.1, earlier ++ emitted.2).1.windows.lookup start = none := found
        rw [emitWindow_of_none found, emitWindow_of_none found']
      | some acc =>
        have found' : (emitted.1, earlier ++ emitted.2).1.windows.lookup start = some acc := found
        rw [emitWindow_of_some found, emitWindow_of_some found', append_assoc]
    rw [foldl_cons, foldl_cons, step, ih]

theorem notMem_foldl_emitWindow {starts : List Int} {w : Int}
    (listed : w ∈ starts ∨ w ∉ emitted.1.windows) : w ∉ (starts.foldl emitWindow emitted).1.windows := by
  induction starts generalizing emitted with
  | nil => exact listed.resolve_left not_mem_nil
  | cons start starts ih =>
    rw [foldl_cons]
    apply ih
    cases found : emitted.1.windows.lookup start with
    | none =>
      rw [emitWindow_of_none found]
      obtain here | closed := listed
      · obtain rfl | later := mem_cons.mp here
        · exact .inr (lookup_eq_none.mp found)
        · exact .inl later
      · exact .inr closed
    | some acc =>
      rw [emitWindow_of_some found]
      obtain here | closed := listed
      · obtain rfl | later := mem_cons.mp here
        · exact .inr fun inside => (mem_erase.mp inside).1 rfl
        · exact .inl later
      · exact .inr fun inside => closed (mem_erase.mp inside).2

/-! ## Runs -/

/-- The operator and the tracker it shares, with what it has emitted, and the timestamps of the records with
what the tracker said of them. -/
structure Trace where
  watermarks : Watermarks
  op : WindowAggregateOperator
  results : List WindowResult
  records : List (Int × EventTimeResult)

open Trace

/-- A record, or any change that others who share the tracker make to the watermarks. -/
inductive StreamAct where
  | record (r : StreamRecord) (now : Nat)
  | elsewhere (watermarks : Watermarks)

def Trace.step (config : WatermarkConfig) (iteration : HashOrder Int) (s : Trace) : StreamAct → Option Trace
  | .record r now => do
    let (_, result) ← updateWatermark config now "stream" r.partition r.timestamp s.watermarks
    let (watermarks, op, results) ← s.op.process config iteration now r s.watermarks
    return { watermarks, op, results := s.results ++ results, records := s.records ++ [(r.timestamp, result)] }
  | .elsewhere watermarks => some { s with watermarks }

def Trace.stepAll (config : WatermarkConfig) (iteration : HashOrder Int) (s : Option Trace) (a : StreamAct) : Option Trace :=
  s.bind fun s => s.step config iteration a

/-- A new operator. -/
def Trace.start (windowType : WindowType) (aggregateFn : AggregateFunction) (watermarks : Watermarks) : Trace where
  watermarks := watermarks
  op := .new windowType aggregateFn
  results := []
  records := []

/-- The timestamp is in the window at a multiple of the slide. -/
def Within (size slide w timestamp : Int) : Prop := slide ∣ w ∧ w ≤ timestamp ∧ timestamp < w + size

instance Within.decidable (size slide w timestamp : Int) : Decidable (Within size slide w timestamp) :=
  inferInstanceAs (Decidable (_ ∧ _ ∧ _))

/-- What was emitted and what a flush emits has each window once, with the number of its records that were not too late. -/
structure CountedOnce (size slide : Int) (iteration : HashOrder Int) (s : Trace) : Prop where
  counts : ∀ w, emittedCount (s.results ++ (s.op.flush iteration).2) w =
    (s.records.filter fun entry => decide (Within size slide w entry.1 ∧ entry.2 ≠ .tooLate)).length
  once : ((s.results ++ (s.op.flush iteration).2).map windowStart).Nodup

/-- The division of the window type rounds down for the timestamp, or no window has it. -/
def RoundsDown (windowType : WindowType) (timestamp : Int) : Prop :=
  match windowType with
  | .tumble size => 0 ≤ timestamp.tmod size
  | .hop size slide => 0 ≤ (timestamp - size + slide).tmod slide ∨ timestamp < truncated slide (timestamp - size + slide) - slide
  | .session _ => False

/-- A record that does not come too late: the tracker takes it and does not call it too late, its windows are found
and their bounds are `i64`s, and each of them is open or has had no record. -/
structure Punctual (config : WatermarkConfig) (size slide : Int) (s : Trace) (r : StreamRecord) (now : Nat) : Prop where
  classified : ∃ result, classifyEvent config (entry s.watermarks "stream" r.partition now) r.timestamp = some result ∧ result ≠ .tooLate
  watermark : I64.Fits (max (entry s.watermarks "stream" r.partition now).maxTimestampSeen r.timestamp - config.allowed)
  rounds : RoundsDown s.op.windowType r.timestamp
  bounds : I64.Fits (r.timestamp - size) ∧ I64.Fits (r.timestamp - size + slide) ∧
    ∀ w, Within size slide w r.timestamp → I64.Fits (w + size) ∧ I64.Fits (w + slide)
  isOpen : ∀ w, Within size slide w r.timestamp → w ∈ s.op.windows ∨ ∀ earlier ∈ s.records, ¬ Within size slide w earlier.1

def Admissible (config : WatermarkConfig) (size slide : Int) (s : Trace) : StreamAct → Prop
  | .record r now => Punctual config size slide s r now
  | .elsewhere _ => True

/-- The two shapes: windows of a size at the multiples of a slide. -/
def Grid (windowType : WindowType) (size slide : Int) : Prop :=
  (windowType = .tumble size ∧ slide = size) ∨ windowType = .hop size slide

/-- What holds in a run of punctual records. -/
structure Counted (windowType : WindowType) (size slide : Int) (s : Trace) : Prop where
  kind : s.op.windowType = windowType
  counts : ∀ w, emittedCount s.results w + openCount s.op.windows w =
    (s.records.filter fun entry => decide (Within size slide w entry.1 ∧ entry.2 ≠ .tooLate)).length
  separate : Separate (s.op, s.results)
  known : ∀ w, w ∈ s.results.map windowStart ∨ w ∈ s.op.windows → ∃ entry ∈ s.records, Within size slide w entry.1

theorem counted_start (windowType : WindowType) (aggregateFn : AggregateFunction) (watermarks : Watermarks) (size slide : Int) :
    Counted windowType size slide (.start windowType aggregateFn watermarks) where
  kind := rfl
  counts _ := rfl
  separate := ⟨.nil, fun w inside => by cases inside⟩
  known w there := by
    obtain inside | inside := there
    · cases inside
    · exact absurd inside (notMem_empty w)

variable {config : WatermarkConfig} {iteration : HashOrder Int} {windowType : WindowType} {size slide : Int}

theorem assign_exact (iteration : HashOrder Int) (grid : Grid windowType size slide) (sizePositive : 0 < size) (slidePositive : 0 < slide) {op : WindowAggregateOperator}
    (kind : op.windowType = windowType) {timestamp : Int} (rounds : RoundsDown windowType timestamp) :
    ∃ starts, op.assignWindows iteration timestamp = some starts ∧ ExactStarts size slide timestamp starts := by
  rcases grid with ⟨rfl, rfl⟩ | rfl
  · exact (assign_tumble_iff sizePositive kind).mpr rounds
  · exact (assign_hop_iff slidePositive kind).mpr rounds

/-- The operator with a record in the windows. -/
def withRecord (op : WindowAggregateOperator) (r : StreamRecord) (starts : List Int) : WindowAggregateOperator :=
  { op with windows := starts.foldl (addToWindow (op.extractValue (r.value.json.toOption.getD .null))) op.windows }

theorem step_of_some {r : StreamRecord} {now : Nat} {watermarks : Watermarks} {result : EventTimeResult} {starts : List Int}
    (updated : updateWatermark config now "stream" r.partition r.timestamp s.watermarks = some (watermarks, result))
    (assigned : s.op.assignWindows iteration r.timestamp = some starts) :
    s.step config iteration (.record r now) = some {
      watermarks
      op := ((withRecord s.op r starts).emitCompletedWindows iteration watermarks).1
      results := s.results ++ ((withRecord s.op r starts).emitCompletedWindows iteration watermarks).2
      records := s.records ++ [(r.timestamp, result)] } := by
  rw [Trace.step, process, updated]
  simp only [bind_eq_bind, bind_some, assigned, Option.pure_def]
  rfl

/-- A record in its windows. -/
theorem Counted.add (counted : Counted windowType size slide s) {r : StreamRecord} {starts : List Int}
    (exact : ExactStarts size slide r.timestamp starts) {result : EventTimeResult} (notLate : result ≠ .tooLate)
    (isOpen : ∀ w, Within size slide w r.timestamp → w ∈ s.op.windows ∨ ∀ earlier ∈ s.records, ¬ Within size slide w earlier.1) :
    Counted windowType size slide { s with op := withRecord s.op r starts, records := s.records ++ [(r.timestamp, result)] } := by
  obtain ⟨distinct, assigned⟩ := exact
  have windows (w : Int) : w ∈ (withRecord s.op r starts).windows ↔ w ∈ starts ∨ w ∈ s.op.windows :=
    mem_foldl_addToWindow _ s.op.windows starts w
  refine ⟨counted.kind, fun w => ?_, ⟨counted.separate.1, fun w inside open_ => ?_⟩, fun w there => ?_⟩
  · have before := counted.counts w
    have opened : openCount (withRecord s.op r starts).windows w = openCount s.op.windows w + starts.count w :=
      openCount_foldl _ s.op.windows starts w
    dsimp only
    rw [opened, distinct.count, filter_append, length_append, ← before]
    by_cases within : Within size slide w r.timestamp
    · rw [if_pos ((assigned w).mpr within), filter_cons_of_pos (by simpa using ⟨within, notLate⟩)]
      exact (Nat.add_assoc _ _ _).symm
    · rw [if_neg fun inside => within ((assigned w).mp inside), filter_cons_of_neg (by simp [within])]
      rfl
  · obtain new | old := (windows w).mp open_
    · obtain still | none := isOpen w ((assigned w).mp new)
      · exact counted.separate.2 w inside still
      · obtain ⟨earlier, recorded, within⟩ := counted.known w (.inl inside)
        exact none earlier recorded within
    · exact counted.separate.2 w inside old
  · have earlier (known : w ∈ s.results.map windowStart ∨ w ∈ s.op.windows) :
        ∃ entry ∈ s.records ++ [(r.timestamp, result)], Within size slide w entry.1 := by
      obtain ⟨entry, recorded, within⟩ := counted.known w known
      exact ⟨entry, mem_append_left _ recorded, within⟩
    obtain inside | open_ := there
    · exact earlier (.inl inside)
    · obtain new | old := (windows w).mp open_
      · exact ⟨_, mem_append_right _ mem_cons_self, (assigned w).mp new⟩
      · exact earlier (.inr old)

/-- Windows that are emitted. -/
theorem Counted.moves (counted : Counted windowType size slide s) (moved : Moves (s.op, s.results) emitted) (watermarks : Watermarks) :
    Counted windowType size slide { s with watermarks := watermarks, op := emitted.1, results := emitted.2 } where
  kind := moved.kind.trans counted.kind
  counts w := (moved.counts w).trans (counted.counts w)
  separate := moved.separate counted.separate
  known w there := counted.known w (moved.known w there)

theorem moves_emitCompleted (op : WindowAggregateOperator) (results : List WindowResult) (watermarks : Watermarks) :
    Moves (op, results) ((op.emitCompletedWindows iteration watermarks).1, results ++ (op.emitCompletedWindows iteration watermarks).2) := by
  rw [emitCompletedWindows]
  have moved := moves_foldl ((iteration.order op.windows.keys).filter fun start =>
    start + op.windowSize ≤ (getGlobalWatermark watermarks).getD I64.least) (op, results ++ [])
  rw [foldl_emitWindow_append results _ (op, []), append_nil] at moved
  exact moved

/-- **A punctual record keeps the counts.** -/
theorem Counted.record (grid : Grid windowType size slide) (sizePositive : 0 < size) (slidePositive : 0 < slide) (counted : Counted windowType size slide s) {r : StreamRecord} {now : Nat} (punctual : Punctual config size slide s r now) :
    ∃ s', s.step config iteration (.record r now) = some s' ∧ Counted windowType size slide s' := by
  obtain ⟨result, classified, notLate⟩ := punctual.classified
  have updated := updateWatermark_eq_some.mpr ⟨classified, punctual.watermark, rfl⟩
  have rounds := punctual.rounds
  rw [counted.kind] at rounds
  obtain ⟨starts, assigned, exact⟩ := assign_exact iteration grid sizePositive slidePositive counted.kind rounds
  have added := counted.add exact notLate punctual.isOpen
  exact ⟨_, step_of_some updated assigned, added.moves (moves_emitCompleted _ _ _) _⟩

/-- The run goes on, and its counts hold. -/
def CountedRun (windowType : WindowType) (size slide : Int) (s : Option Trace) : Prop := ∃ s', s = some s' ∧ Counted windowType size slide s'

theorem run_counted (grid : Grid windowType size slide) (sizePositive : 0 < size) (slidePositive : 0 < slide) {acts : List StreamAct} (counted : Counted windowType size slide s)
    (meets : Meets (stepAll config iteration) (fun s a => ∀ t, s = some t → Admissible config size slide t a) (some s) acts) :
    CountedRun windowType size slide (run (stepAll config iteration) (some s) acts) := by
  have keep (s : Option Trace) (a : StreamAct) (inv : CountedRun windowType size slide s)
      (ok : ∀ t, s = some t → Admissible config size slide t a) : CountedRun windowType size slide (stepAll config iteration s a) := by
    obtain ⟨t, rfl, counted⟩ := inv
    have admissible := ok t rfl
    cases a with
    | record r now => exact counted.record grid sizePositive slidePositive admissible
    | elsewhere watermarks => exact ⟨_, rfl, counted.moves (.refl _) watermarks⟩
  exact Meets.invariant keep meets ⟨s, rfl, counted⟩

/-! ## The flush -/

theorem Counted.flush (counted : Counted windowType size slide s) (iteration : HashOrder Int) :
    CountedOnce size slide iteration s := by
  have moved := moves_foldl (iteration.order s.op.windows.keys) (s.op, s.results ++ [])
  rw [foldl_emitWindow_append s.results _ (s.op, []), append_nil] at moved
  refine ⟨fun w => ?_, (moved.separate counted.separate).1⟩
  have closed : w ∉ ((iteration.order s.op.windows.keys).foldl emitWindow (s.op, [])).1.windows := by
    apply notMem_foldl_emitWindow
    by_cases open_ : w ∈ s.op.windows
    · exact .inl (HashOrder.mem.mpr (mem_keys.mp open_))
    · exact .inr open_
  have together := moved.counts w
  rw [openCount_of_notMem closed, Nat.add_zero, counted.counts w] at together
  exact together

/-- **In a run of punctual records each window is emitted once, with the number of its records that
were not too late.** -/
theorem windows_counted_once (config : WatermarkConfig) (iteration : HashOrder Int) (aggregateFn : AggregateFunction)
    (watermarks : Watermarks) {windowType : WindowType} {size slide : Int} (grid : Grid windowType size slide) (sizePositive : 0 < size)
    (slidePositive : 0 < slide) {acts : List StreamAct}
    (punctual : Meets (stepAll config iteration) (fun s a => ∀ t, s = some t → Admissible config size slide t a)
      (some (.start windowType aggregateFn watermarks)) acts) :
    ∃ s, run (stepAll config iteration) (some (.start windowType aggregateFn watermarks)) acts = some s ∧
      CountedOnce size slide iteration s := by
  obtain ⟨s, reached, counted⟩ := run_counted grid sizePositive slidePositive
    (counted_start windowType aggregateFn watermarks size slide) punctual
  exact ⟨s, reached, counted.flush iteration⟩

namespace WindowCountExample

def record (timestamp : Int) : StreamAct := .record (.new ⟨[], .error "EOF while parsing a value"⟩ timestamp) 0

/-- With windows of a second the second record closes the window of the first, and the third, which is late,
opens it again. -/
def reopening : List StreamAct := [record 20000, record 26500, record 20500]

def start : Trace := .start (.tumble 1000) .count ∅

def afterAll (acts : List StreamAct) : Option Trace := run (stepAll .default (.listed Int)) (some start) acts

/-- A record that the tracker calls on time, and behind the windows of those before it. -/
theorem punctual {s : Trace} {timestamp : Int} (kind : s.op.windowType = .tumble 1000) (low : 10000 ≤ timestamp) (high : timestamp ≤ 30000)
    (classified : classifyEvent .default (entry s.watermarks "stream" 0 0) timestamp = some .onTime)
    (seen : (entry s.watermarks "stream" 0 0).maxTimestampSeen ≤ timestamp) (behind : ∀ earlier ∈ s.records, earlier.1 + 1000 ≤ timestamp) :
    Punctual .default 1000 1000 s (.new ⟨[], .error "EOF while parsing a value"⟩ timestamp) 0 where
  classified := ⟨.onTime, classified, by decide⟩
  watermark := by
    have ahead : max (entry s.watermarks "stream" 0 0).maxTimestampSeen timestamp = timestamp := max_eq_right seen
    have allowed : WatermarkConfig.default.allowed = 5000 := by decide
    change I64.Fits (max (entry s.watermarks "stream" 0 0).maxTimestampSeen timestamp - WatermarkConfig.default.allowed)
    rw [ahead, allowed]
    unfold I64.Fits I64.least
    omega
  rounds := by
    rw [kind]
    exact Int.tmod_nonneg 1000 (Int.le_trans (by decide) low)
  bounds := by
    dsimp only [StreamRecord.new]
    unfold I64.Fits I64.least
    refine ⟨by omega, by omega, fun w ⟨_, low', high'⟩ => ?_⟩
    omega
  isOpen w := by
    rintro ⟨_, -, high'⟩
    dsimp only [StreamRecord.new] at high'
    refine .inr fun earlier inside => ?_
    rintro ⟨_, low', -⟩
    have later := behind earlier inside
    omega

/-- What the second record finds. -/
theorem afterAll_one : (afterAll [record 20000]).map (fun t => (classifyEvent .default (entry t.watermarks "stream" 0 0) 26500,
    (entry t.watermarks "stream" 0 0).maxTimestampSeen, t.records.map Prod.fst)) = some (some .onTime, 20000, [20000]) := by
  decide +kernel

end WindowCountExample

open WindowCountExample

/-- The second record closes the window of the first. -/
theorem windows_counted_once_emits :
    ∃ s, run (stepAll .default (.listed Int)) (some start) [record 20000, record 26500] = some s ∧
      CountedOnce 1000 1000 (.listed Int) s := by
  have first : Punctual .default 1000 1000 start (.new ⟨[], .error "EOF while parsing a value"⟩ 20000) 0 :=
    punctual rfl (by decide) (by decide) (by decide +kernel) (by decide +kernel) fun _ none => nomatch none
  refine windows_counted_once .default (.listed Int) .count ∅ (.inl ⟨rfl, rfl⟩) (by decide) (by decide) ⟨fun t here => ?_, fun t here => ?_, trivial⟩
  · cases here
    exact first
  · have next : ∃ s, start.step .default (.listed Int) (record 20000) = some s ∧ Counted (.tumble 1000) 1000 1000 s :=
      Counted.record (.inl ⟨rfl, rfl⟩) (by decide) (by decide) (counted_start _ _ _ _ _) first
    obtain ⟨u, stepped, counted⟩ := next
    obtain rfl := Option.some.inj (stepped.symm.trans here)
    have found := afterAll_one
    change afterAll [record 20000] = some u at here
    rw [here, map_some, some.injEq, Prod.mk.injEq, Prod.mk.injEq] at found
    obtain ⟨classified, seen, records⟩ := found
    refine punctual counted.kind (by decide) (by decide) classified (by omega) fun earlier inside => ?_
    have one : earlier.1 ∈ u.records.map Prod.fst := mem_map_of_mem inside
    rw [records] at one
    have before := mem_singleton.mp one
    omega

/-- The window at 20000 is emitted twice. -/
theorem late_record_reopens : ¬ ∃ s, afterAll reopening = some s ∧ CountedOnce 1000 1000 (.listed Int) s := by
  rintro ⟨s, reached, counted⟩
  have emitted : (afterAll reopening).map (fun s =>
      (s.results ++ (s.op.flush (.listed Int)).2).map windowStart) = some [20000, 20000, 26000] := by decide +kernel
  rw [reached, map_some] at emitted
  have once := counted.once
  rw [some.inj emitted] at once
  exact absurd once (by decide)

end StreamHouse.Sql
