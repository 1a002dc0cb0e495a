import StreamHouse.Lib.Run
import StreamHouse.Sql.Stream.WatermarkSpec

/-!
# Runs of the tracker

Events of any partitions and calls that advance the idle ones, in any order. The watermark of a
partition is always its greatest timestamp less the out-of-orderness, so it never falls. The global
one falls only where a partition that did not count comes in behind it.
-/

namespace StreamHouse.Sql.WatermarkTracker

open I64 Lib HashMaps List AList PartitionWatermark

/-- A call of `update_watermark`. -/
structure TimedEvent where
  topic : String
  partition : BitVec 32
  timestamp : Int
  now : Nat
  fits : Fits timestamp

def TimedEvent.key (e : TimedEvent) : TopicPartition := (e.topic, e.partition)

inductive TrackerAct where
  | update (e : TimedEvent)
  | advanceIdle (clock : TopicPartition → Nat)

section Config

variable (config : WatermarkConfig)

/-- The answer to an event. -/
def answer (watermarks : Watermarks) (e : TimedEvent) : Option (Watermarks × EventTimeResult) :=
  updateWatermark config e.now e.topic e.partition e.timestamp watermarks

/-- The watermarks after a call, none after an overflow. -/
def step (s : Option Watermarks) : TrackerAct → Option Watermarks
  | .update e => s.bind fun watermarks => (answer config watermarks e).map Prod.fst
  | .advanceIdle clock => s.map fun watermarks => (advanceIdleWatermarks config clock watermarks).1

/-- The watermarks of a new tracker after the calls. -/
def after (acts : List TrackerAct) : Option Watermarks := run (step config) (some ∅) acts

/-- No difference overflows, the watermark of a partition never falls, the global watermark never falls below
one that was reported, and an event within the out-of-orderness of all earlier ones of its partition is not too late. -/
structure Sound (acts : List TrackerAct) : Prop where
  defined : after config acts ≠ none
  partitions : ∀ before middle rest, acts = before ++ (middle ++ rest) → ∀ s s', after config before = some s →
    after config (before ++ middle) = some s' → ∀ key pw, s.lookup key = some pw →
      ∃ pw', s'.lookup key = some pw' ∧ pw.currentWatermark ≤ pw'.currentWatermark
  globally : ∀ before middle rest, acts = before ++ (middle ++ rest) → ∀ s s', after config before = some s →
    after config (before ++ middle) = some s' → ∀ w w', getGlobalWatermark s = some w → getGlobalWatermark s' = some w' → w ≤ w'
  inTime : ∀ before e rest, acts = before ++ .update e :: rest →
    (∀ earlier, .update earlier ∈ before → earlier.key = e.key → earlier.timestamp - e.timestamp ≤ (config.millis : Int)) →
      ∀ s s' result, after config before = some s → answer config s e = some (s', result) → result ≠ .tooLate

/-- The greatest timestamp of a partition with an event. -/
def nextMax (watermarks : Watermarks) (e : TimedEvent) : Int :=
  max (((watermarks.lookup e.key).map maxTimestampSeen).getD least) e.timestamp

/-- The differences of an event are `i64`s, and the out-of-orderness as an `i64` leaves it the time that it has. -/
structure Admitted (s : Watermarks) (e : TimedEvent) : Prop where
  watermark : Fits (nextMax s e - config.allowed)
  lateness : ∀ pw, s.lookup e.key = some pw → e.timestamp < pw.currentWatermark → Fits (pw.currentWatermark - e.timestamp)
  slack : ∀ pw, s.lookup e.key = some pw → pw.maxTimestampSeen - e.timestamp ≤ (config.millis : Int) →
    pw.maxTimestampSeen - e.timestamp ≤ max config.allowed (2 * config.allowed)

/-- Each event is admitted, and if its partition is new or idle, it brings it in at or above every global
watermark that was reported. -/
structure Timely (acts : List TrackerAct) : Prop where
  admitted : ∀ before e rest, acts = before ++ .update e :: rest → ∀ s, after config before = some s → Admitted config s e
  joins : ∀ before middle e rest, acts = before ++ (middle ++ .update e :: rest) → ∀ s s', after config before = some s →
    after config (before ++ middle) = some s' → (∀ pw, ¬ Active s' e.key pw) →
      ∀ w, getGlobalWatermark s = some w → w ≤ nextMax s' e - config.allowed

end Config

variable {config : WatermarkConfig}

/-! ## Steps -/

theorem after_append_cons (before : List TrackerAct) (a : TrackerAct) (rest : List TrackerAct) :
    after config (before ++ a :: rest) = run (step config) (step config (after config before) a) rest := by
  rw [after, run_append, run_cons]
  rfl

theorem after_snoc (before : List TrackerAct) (a : TrackerAct) : after config (before ++ [a]) = step config (after config before) a :=
  after_append_cons before a []

theorem run_none (acts : List TrackerAct) : run (step config) none acts = none := by
  induction acts with
  | nil => rfl
  | cons a acts ih => cases a <;> exact ih

variable {before rest : List TrackerAct} {s s' : Watermarks} {e : TimedEvent} {result : EventTimeResult}
    {acts : List TrackerAct} {pw : PartitionWatermark} {middle : List TrackerAct}

/-- A run that goes on has not overflowed before. -/
theorem after_of_append (found : after config (before ++ rest) = some s) : ∃ s', after config before = some s' := by
  cases earlier : after config before with
  | some s' => exact ⟨s', rfl⟩
  | none =>
    rw [after, run_append] at found
    rw [after] at earlier
    rw [earlier, run_none] at found
    cases found

/-- The entry of an event's partition after it. -/
theorem answer_eq_some (found : answer config s e = some (s', result)) :
    ∃ pw, s' = s.insert e.key pw ∧ pw.maxTimestampSeen = nextMax s e ∧ pw.isIdle = false ∧ Fits (nextMax s e - config.allowed) ∧
      pw.currentWatermark = max (((s.lookup e.key).map currentWatermark).getD least) (nextMax s e - config.allowed) := by
  obtain ⟨-, fits, rfl⟩ := updateWatermark_eq_some.mp found
  have key : (e.topic, e.partition) = e.key := rfl
  unfold nextMax
  cases there : s.lookup e.key with
  | none =>
    rw [entry_of_none there] at fits ⊢
    exact ⟨_, rfl, rfl, rfl, fits, rfl⟩
  | some pw =>
    rw [entry_of_lookup there] at fits ⊢
    exact ⟨_, rfl, rfl, rfl, fits, rfl⟩

/-- What is known of the watermarks after some calls. -/
structure Tracked (config : WatermarkConfig) (acts : List TrackerAct) (s : Watermarks) : Prop where
  watermark : ∀ key pw, s.lookup key = some pw → pw.currentWatermark = pw.maxTimestampSeen - config.allowed
  seen : ∀ key pw, s.lookup key = some pw → ∃ e, .update e ∈ acts ∧ e.key = key ∧ e.timestamp = pw.maxTimestampSeen
  covers : ∀ e, .update e ∈ acts → ∃ pw, s.lookup e.key = some pw ∧ e.timestamp ≤ pw.maxTimestampSeen

theorem Tracked.nextMax_le (tracked : Tracked config acts s) (e : TimedEvent) :
    ((s.lookup e.key).map currentWatermark).getD least ≤ nextMax s e - config.allowed ∨
      s.lookup e.key = none := by
  cases found : s.lookup e.key with
  | none => exact .inr rfl
  | some pw =>
    left
    rw [nextMax, found, Option.map_some, Option.map_some, Option.getD_some, Option.getD_some, tracked.watermark _ _ found]
    omega

/-- An update leaves the greatest timestamp less the out-of-orderness. -/
theorem Tracked.current_of_answer (tracked : Tracked config acts s) (found : answer config s e = some (s', result)) :
    ∃ pw, s' = s.insert e.key pw ∧ pw.maxTimestampSeen = nextMax s e ∧ pw.isIdle = false ∧
      pw.currentWatermark = nextMax s e - config.allowed := by
  obtain ⟨pw, inserted, greatest, active, fits, current⟩ := answer_eq_some found
  refine ⟨pw, inserted, greatest, active, ?_⟩
  rw [current, max_eq_right]
  rcases tracked.nextMax_le e with le | none
  · exact le
  · rw [none]
    exact fits.1

theorem Tracked.update (tracked : Tracked config acts s) (found : answer config s e = some (s', result)) : Tracked config (acts ++ [.update e]) s' := by
  obtain ⟨pw, rfl, greatest, -, current⟩ := tracked.current_of_answer found
  have here : .update e ∈ acts ++ [TrackerAct.update e] := mem_append_right _ mem_cons_self
  constructor
  · intro key pw' there
    by_cases same : key = e.key
    · subst same
      rw [lookup_insert] at there
      rw [← Option.some.inj there, current, greatest]
    · rw [lookup_insert_ne same] at there
      exact tracked.watermark key pw' there
  · intro key pw' there
    by_cases same : key = e.key
    · subst same
      rw [lookup_insert] at there
      rw [← Option.some.inj there, greatest]
      unfold nextMax
      cases old : s.lookup e.key with
      | none => exact ⟨e, here, rfl, (max_eq_right e.fits.1).symm⟩
      | some pwOld =>
        obtain ⟨e', inActs, sameKey, isMax⟩ := tracked.seen _ _ old
        rw [Option.map_some, Option.getD_some]
        rcases max_choice pwOld.maxTimestampSeen e.timestamp with kept | new
        · exact ⟨e', mem_append_left _ inActs, sameKey, by rw [kept, isMax]⟩
        · exact ⟨e, here, rfl, new.symm⟩
    · rw [lookup_insert_ne same] at there
      obtain ⟨e', inActs, facts⟩ := tracked.seen key pw' there
      exact ⟨e', mem_append_left _ inActs, facts⟩
  · intro e' inActs
    obtain earlier | last := mem_append.mp inActs
    · obtain ⟨pwOld, old, upto⟩ := tracked.covers e' earlier
      by_cases same : e'.key = e.key
      · rw [same] at old ⊢
        refine ⟨pw, lookup_insert s, ?_⟩
        rw [greatest, nextMax, old]
        exact upto.trans (le_max_left _ _)
      · exact ⟨pwOld, by rw [lookup_insert_ne same, old], upto⟩
    · cases mem_singleton.mp last
      refine ⟨pw, lookup_insert s, ?_⟩
      rw [greatest]
      exact le_max_right _ _

theorem Tracked.advance (tracked : Tracked config acts s) (clock : TopicPartition → Nat) :
    Tracked config (acts ++ [.advanceIdle clock]) (advanceIdleWatermarks config clock s).1 := by
  have old {key : TopicPartition} {pw : PartitionWatermark} (there : (advanceIdleWatermarks config clock s).1.lookup key = some pw) :
      ∃ pw', s.lookup key = some pw' ∧ pw'.currentWatermark = pw.currentWatermark ∧ pw'.maxTimestampSeen = pw.maxTimestampSeen := by
    rw [advance_lookup, Option.map_eq_some_iff] at there
    obtain ⟨pw', found, rfl⟩ := there
    refine ⟨pw', found, ?_⟩
    split_ifs <;> exact ⟨rfl, rfl⟩
  constructor
  · intro key pw there
    obtain ⟨pw', found, current, greatest⟩ := old there
    rw [← current, ← greatest]
    exact tracked.watermark key pw' found
  · intro key pw there
    obtain ⟨pw', found, -, greatest⟩ := old there
    obtain ⟨e, inActs, facts⟩ := tracked.seen key pw' found
    exact ⟨e, mem_append_left _ inActs, greatest ▸ facts⟩
  · intro e inActs
    obtain earlier | last := mem_append.mp inActs
    · obtain ⟨pw, found, upto⟩ := tracked.covers e earlier
      refine ⟨if becomesIdle config clock e.key pw then { pw with isIdle := true } else pw, ?_, ?_⟩
      · rw [advance_lookup, found]
        rfl
      · split_ifs <;> exact upto
    · cases mem_singleton.mp last

theorem tracked (acts : List TrackerAct) (found : after config acts = some s) : Tracked config acts s := by
  induction acts using reverseRecOn generalizing s with
  | nil =>
    obtain rfl := Option.some.inj found
    have none (key : TopicPartition) (pw : PartitionWatermark) : lookup key (∅ : Watermarks) ≠ some pw := by
      rw [lookup_empty]
      exact (Option.some_ne_none pw).symm
    exact ⟨fun key pw there => absurd there (none key pw), fun key pw there => absurd there (none key pw), fun e no => by cases no⟩
  | append_singleton acts a ih =>
    obtain ⟨s', before⟩ := after_of_append found
    have known := ih before
    rw [after_snoc, before] at found
    cases a with
    | update e =>
      rw [step, Option.bind_some, Option.map_eq_some_iff] at found
      obtain ⟨⟨_, result⟩, answered, rfl⟩ := found
      exact known.update answered
    | advanceIdle clock =>
      obtain rfl := Option.some.inj found
      exact known.advance clock

/-! ## Monotone watermarks -/

theorem Tracked.le_nextMax (tracked : Tracked config acts s) (found : s.lookup e.key = some pw) : pw.currentWatermark ≤ nextMax s e - config.allowed := by
  rw [tracked.watermark _ _ found, nextMax, found, Option.map_some, Option.getD_some]
  omega

theorem step_update (found : step config (some s) (.update e) = some s') :
    ∃ result, answer config s e = some (s', result) := by
  rw [step, Option.bind_some, Option.map_eq_some_iff] at found
  obtain ⟨⟨_, result⟩, answered, rfl⟩ := found
  exact ⟨result, answered⟩

theorem Tracked.step_partition (tracked : Tracked config acts s) {a : TrackerAct}
    (found : step config (some s) a = some s') {key : TopicPartition} (there : s.lookup key = some pw) :
    ∃ pw', s'.lookup key = some pw' ∧ pw.currentWatermark ≤ pw'.currentWatermark := by
  cases a with
  | update e =>
    obtain ⟨result, answered⟩ := step_update found
    obtain ⟨pw', rfl, -, -, current⟩ := tracked.current_of_answer answered
    by_cases same : key = e.key
    · subst same
      refine ⟨pw', lookup_insert s, ?_⟩
      rw [current]
      exact tracked.le_nextMax there
    · exact ⟨pw, by rw [lookup_insert_ne same, there], le_rfl⟩
  | advanceIdle clock =>
    obtain rfl := Option.some.inj found
    refine ⟨if becomesIdle config clock key pw then { pw with isIdle := true } else pw, ?_, ?_⟩
    · rw [advance_lookup, there]
      rfl
    · split_ifs <;> exact le_rfl

theorem partitions_run (start : after config before = some s)
    (found : after config (before ++ middle) = some s') {key : TopicPartition} (there : s.lookup key = some pw) :
    ∃ pw', s'.lookup key = some pw' ∧ pw.currentWatermark ≤ pw'.currentWatermark := by
  induction middle using reverseRecOn generalizing s' with
  | nil =>
    rw [append_nil, start] at found
    obtain rfl := Option.some.inj found
    exact ⟨pw, there, le_rfl⟩
  | append_singleton middle a ih =>
    rw [← append_assoc] at found
    obtain ⟨s₁, reached⟩ := after_of_append found
    obtain ⟨pw₁, there₁, le₁⟩ := ih reached
    rw [after_snoc, reached] at found
    obtain ⟨pw', there', le'⟩ := (tracked _ reached).step_partition found there₁
    exact ⟨pw', there', le₁.trans le'⟩

/-- No partition that counts is below the watermark. -/
def Above (w : Int) (s : Watermarks) : Prop := ∀ key pw, Active s key pw → w ≤ pw.currentWatermark

theorem Tracked.step_above (tracked : Tracked config acts s) {w : Int} (above : Above w s)
    {a : TrackerAct} (joins : ∀ e, a = .update e → (∀ pw, ¬ Active s e.key pw) → w ≤ nextMax s e - config.allowed)
    (found : step config (some s) a = some s') : Above w s' := by
  intro key pw' ⟨there', active'⟩
  cases a with
  | update e =>
    obtain ⟨result, answered⟩ := step_update found
    obtain ⟨new, rfl, -, -, current⟩ := tracked.current_of_answer answered
    by_cases same : key = e.key
    · subst same
      rw [lookup_insert] at there'
      rw [← Option.some.inj there', current]
      by_cases counted : ∃ pw, Active s e.key pw
      · obtain ⟨pw, active⟩ := counted
        exact (above _ pw active).trans (tracked.le_nextMax active.1)
      · exact joins e rfl (not_exists.mp counted)
    · rw [lookup_insert_ne same] at there'
      exact above key pw' ⟨there', active'⟩
  | advanceIdle clock =>
    obtain rfl := Option.some.inj found
    rw [advance_lookup, Option.map_eq_some_iff] at there'
    obtain ⟨pw, there, rfl⟩ := there'
    split_ifs at active' ⊢ with stops
    exact above key pw ⟨there, active'⟩

theorem above_run {w : Int} (start : after config before = some s) (global : getGlobalWatermark s = some w)
    (joins : ∀ front e back s₁, middle = front ++ .update e :: back → after config (before ++ front) = some s₁ →
      (∀ pw, ¬ Active s₁ e.key pw) → w ≤ nextMax s₁ e - config.allowed)
    (found : after config (before ++ middle) = some s') : Above w s' := by
  induction middle using reverseRecOn generalizing s' with
  | nil =>
    rw [append_nil, start] at found
    obtain rfl := Option.some.inj found
    exact (getGlobalWatermark_eq_some.mp global).2
  | append_singleton middle a ih =>
    rw [← append_assoc] at found
    obtain ⟨s₁, reached⟩ := after_of_append found
    have above := ih (fun front e back s₂ cut => joins front e (back ++ [a]) s₂ (by rw [cut, append_assoc, cons_append])) reached
    rw [after_snoc, reached] at found
    refine (tracked _ reached).step_above above (fun e isUpdate => ?_) found
    subst isUpdate
    exact joins middle e [] s₁ rfl reached

/-! ## Overflow and late events -/

theorem Admitted.answer_ne_none (admitted : Admitted config s e) : answer config s e ≠ none := by
  have greatest : max (entry s e.topic e.partition e.now).maxTimestampSeen e.timestamp = nextMax s e := by
    unfold nextMax entry TimedEvent.key
    cases s.lookup (e.topic, e.partition) <;> rfl
  refine updateWatermark_ne_none.mpr ⟨fun overflow => ?_, greatest ▸ admitted.watermark⟩
  obtain ⟨set, behind, large⟩ := classifyEvent_eq_none.mp overflow
  cases there : s.lookup (e.topic, e.partition) with
  | none =>
    rw [entry_of_none there] at set
    exact set rfl
  | some pw =>
    rw [entry_of_lookup there] at behind large
    exact large (admitted.lateness pw there behind)

/-- An event of a partition that is there is too late just when it is behind the greatest timestamp by more than both
the out-of-orderness and twice that. -/
theorem Tracked.tooLate_iff (tracked : Tracked config acts s) (there : s.lookup e.key = some pw) (answered : answer config s e = some (s', result)) :
    result = .tooLate ↔ max config.allowed (2 * config.allowed) < pw.maxTimestampSeen - e.timestamp := by
  obtain ⟨classified, -⟩ := updateWatermark_eq_some.mp answered
  have there' : s.lookup (e.topic, e.partition) = some pw := there
  rw [entry_of_lookup there'] at classified
  have current := tracked.watermark _ _ there
  have low := e.fits.1
  constructor
  · rintro rfl
    obtain ⟨-, behind, -, more⟩ := classifyEvent_eq_tooLate.mp classified
    omega
  · intro far
    have some : classifyEvent config pw e.timestamp ≠ none := by
      rw [classified]
      exact Option.some_ne_none _
    have fits : Fits (pw.currentWatermark - e.timestamp) := by
      by_contra overflow
      exact some (classifyEvent_eq_none.mpr ⟨by omega, by omega, overflow⟩)
    have late : classifyEvent config pw e.timestamp = Option.some .tooLate :=
      classifyEvent_eq_tooLate.mpr ⟨by omega, by omega, fits, by omega⟩
    exact Option.some.inj (classified.symm.trans late)

theorem onTime_of_absent (absent : s.lookup e.key = none) (answered : answer config s e = some (s', result)) : result = .onTime := by
  obtain ⟨classified, -⟩ := updateWatermark_eq_some.mp answered
  have absent' : s.lookup (e.topic, e.partition) = none := absent
  rw [entry_of_none absent'] at classified
  exact (Option.some.inj classified).symm

theorem Timely.defined (timely : Timely config acts) : after config acts ≠ none := by
  have fronts (front back : List TrackerAct) (cut : acts = front ++ back) : after config front ≠ none := by
    induction front using reverseRecOn generalizing back with
    | nil => exact Option.some_ne_none _
    | append_singleton front a ih =>
      rw [append_assoc, singleton_append] at cut
      obtain ⟨s, reached⟩ := Option.ne_none_iff_exists'.mp (ih (a :: back) cut)
      rw [after_snoc, reached]
      cases a with
      | update e =>
        obtain ⟨next, answered⟩ := Option.ne_none_iff_exists'.mp (timely.admitted front e back cut s reached).answer_ne_none
        rw [step, Option.bind_some, answered]
        exact Option.some_ne_none _
      | advanceIdle clock => exact Option.some_ne_none _
  exact fronts acts [] (append_nil acts).symm

theorem Timely.inTime (timely : Timely config acts) (cut : acts = before ++ .update e :: rest)
    (within : ∀ earlier, .update earlier ∈ before → earlier.key = e.key → earlier.timestamp - e.timestamp ≤ (config.millis : Int))
    (start : after config before = some s) (answered : answer config s e = some (s', result)) :
    result ≠ .tooLate := by
  have known := tracked before start
  cases there : s.lookup e.key with
  | none =>
    rw [onTime_of_absent there answered]
    decide
  | some pw =>
    obtain ⟨earlier, inBefore, sameKey, isMax⟩ := known.seen _ _ there
    have near := within earlier inBefore sameKey
    have upto := (timely.admitted before e rest cut s start).slack pw there (by omega)
    intro late
    have far := (known.tooLate_iff there answered).mp late
    omega

theorem Sound.admitted (sound : Sound config acts)
    (cut : acts = before ++ .update e :: rest) (start : after config before = some s) : Admitted config s e := by
  have known := tracked before start
  obtain ⟨last, ends⟩ := Option.ne_none_iff_exists'.mp sound.defined
  rw [cut, ← singleton_append, ← append_assoc] at ends
  obtain ⟨s', next⟩ := after_of_append ends
  rw [after_snoc, start] at next
  obtain ⟨result, answered⟩ := step_update next
  obtain ⟨-, -, -, -, fits, -⟩ := answer_eq_some answered
  refine ⟨fits, fun pw there behind => ?_, fun pw there near => ?_⟩
  · by_contra overflow
    obtain ⟨classified, -⟩ := updateWatermark_eq_some.mp answered
    have there' : s.lookup (e.topic, e.partition) = some pw := there
    have low := e.fits.1
    rw [entry_of_lookup there', classifyEvent_eq_none.mpr ⟨by omega, behind, overflow⟩] at classified
    cases classified
  · by_contra far
    refine sound.inTime before e rest cut (fun earlier inBefore sameKey => ?_) s s' result start answered
      ((known.tooLate_iff there answered).mpr (by omega))
    obtain ⟨pw', there', upto⟩ := known.covers earlier inBefore
    rw [sameKey, there] at there'
    obtain rfl := Option.some.inj there'
    omega

theorem Sound.joins (sound : Sound config acts)
    (cut : acts = before ++ (middle ++ .update e :: rest)) (start : after config before = some s)
    (reached : after config (before ++ middle) = some s') {w : Int} (global : getGlobalWatermark s = some w) :
    w ≤ nextMax s' e - config.allowed := by
  have cut' : acts = before ++ ((middle ++ [.update e]) ++ rest) := by rw [cut, append_assoc, singleton_append]
  obtain ⟨last, ends⟩ := Option.ne_none_iff_exists'.mp sound.defined
  rw [cut', ← append_assoc] at ends
  obtain ⟨next, found⟩ := after_of_append ends
  have found' := found
  rw [← append_assoc, after_snoc, reached] at found'
  obtain ⟨result, answered⟩ := step_update found'
  obtain ⟨pw, rfl, -, active, current⟩ := (tracked _ reached).current_of_answer answered
  have counts : Active (s'.insert e.key pw) e.key pw := ⟨lookup_insert s', active⟩
  obtain ⟨w', global', upto⟩ := exists_global counts
  have mono := sound.globally before (middle ++ [.update e]) rest cut' s _ start found w w' global global'
  rw [current] at upto
  exact mono.trans upto

/-- **Watermarks are monotone and sound in just those runs in which every event is admitted, and none brings
a partition in behind a global watermark that was reported.** -/
theorem sound_iff_timely (config : WatermarkConfig) (acts : List TrackerAct) : Sound config acts ↔ Timely config acts := by
  constructor
  · intro sound
    refine ⟨fun before e rest cut s start => sound.admitted cut start, ?_⟩
    exact fun before middle e rest cut s s' start reached _ w global => sound.joins cut start reached global
  · intro timely
    refine ⟨timely.defined, fun before middle rest _ s s' start found key pw there => partitions_run start found there, ?_, ?_⟩
    · intro before middle rest cut s s' start found w w' global global'
      have above := above_run start global (fun front e back s₁ part reached inactive => ?_) found
      · obtain ⟨⟨key, pw, active, rfl⟩, -⟩ := getGlobalWatermark_eq_some.mp global'
        exact above key pw active
      · exact timely.joins before front e (back ++ rest) (by rw [cut, part, append_assoc, cons_append]) s s₁ start reached inactive w global
    · exact fun before e rest cut within s s' result start answered => timely.inTime cut within start answered

/-! ## Examples -/

namespace TrackerExample

def event (partition : BitVec 32) (timestamp : Int) (fits : Fits timestamp) : TrackerAct := .update ⟨"t", partition, timestamp, 0, fits⟩

/-- An event of partition 0, and then one of partition 1 that is ten seconds older. -/
def olderPartition : List TrackerAct := [event 0 20000 (by decide), event 1 10000 (by decide)]

end TrackerExample

/-- The second partition brings the global watermark from 15000 back to 5000. -/
theorem global_watermark_falls : ¬ Sound .default TrackerExample.olderPartition := by
  intro sound
  have falls := sound.globally [TrackerExample.event 0 20000 (by decide)] [TrackerExample.event 1 10000 (by decide)] [] rfl _ _ rfl rfl 15000 5000
    (by decide +kernel) (by decide +kernel)
  exact absurd falls (by decide)

end StreamHouse.Sql.WatermarkTracker
