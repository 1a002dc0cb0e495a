import Mathlib.Algebra.Group.Nat.Defs
import StreamHouse.Lib.Run

/-!
# The circuit breaker

`CircuitBreaker` (`circuit_breaker.rs`), a call at a time. A time is what `SystemTime` reads, in
microseconds since 1970; the difference of two is taken in 64 bits, where a build with overflow checks panics
if the second is the later one. A counter stays below a threshold of 32 bits, and is a number here.

What the counters and the opening time stand for is said by the past alone: the failures in a row since
the breaker was closed, the successes in a row since it was half open, the last time it opened.
`lawful_iff` says that the breaker keeps to them over every run, and to its timeout exactly if
the clock is never read earlier than the last opening and the timeout fits 64 bits.
-/

namespace StreamHouse.Storage

inductive CircuitState where
  | closed
  | opened
  | halfOpen
deriving DecidableEq

/-- `timeoutMicros` is `timeout.as_micros()`, of 128 bits. -/
structure CircuitBreakerConfig where
  failureThreshold : Nat
  successThreshold : Nat
  timeoutMicros : Nat

def CircuitBreakerConfig.default : CircuitBreakerConfig := ⟨5, 2, 30000000⟩

structure CircuitBreaker where
  state : CircuitState
  failureCount : Nat
  successCount : Nat
  openedAt : UInt64

namespace CircuitBreaker

def new : CircuitBreaker := ⟨.closed, 0, 0, 0⟩

def transitionToOpen (b : CircuitBreaker) (now : UInt64) : CircuitBreaker :=
  { b with state := .opened, openedAt := now, failureCount := 0, successCount := 0 }

def transitionToHalfOpen (b : CircuitBreaker) : CircuitBreaker :=
  { b with state := .halfOpen, successCount := 0, failureCount := 0 }

def transitionToClosed (b : CircuitBreaker) : CircuitBreaker :=
  { b with state := .closed, successCount := 0, failureCount := 0 }

/-- `now - opened_at >= timeout_micros`. -/
def timeoutElapsed (config : CircuitBreakerConfig) (b : CircuitBreaker) (now : UInt64) : Bool :=
  decide (UInt64.ofNat config.timeoutMicros ≤ now - b.openedAt)

def allowRequest (config : CircuitBreakerConfig) (b : CircuitBreaker) (now : UInt64) : Bool × CircuitBreaker :=
  match b.state with
  | .closed => (true, b)
  | .opened => if b.timeoutElapsed config now then (true, b.transitionToHalfOpen) else (false, b)
  | .halfOpen => (true, b)

def reportSuccess (config : CircuitBreakerConfig) (b : CircuitBreaker) : CircuitBreaker :=
  match b.state with
  | .closed => { b with failureCount := 0 }
  | .halfOpen =>
    let b := { b with successCount := b.successCount + 1 }
    if config.successThreshold ≤ b.successCount then b.transitionToClosed else b
  | .opened => b

def reportFailure (config : CircuitBreakerConfig) (b : CircuitBreaker) (now : UInt64) : CircuitBreaker :=
  match b.state with
  | .closed =>
    let b := { b with failureCount := b.failureCount + 1 }
    if config.failureThreshold ≤ b.failureCount then b.transitionToOpen now else b
  | .halfOpen => b.transitionToOpen now
  | .opened => b

def reset (b : CircuitBreaker) : CircuitBreaker := b.transitionToClosed

/-- A call, with what the clock reads in it. -/
inductive Call where
  | allowRequest (now : UInt64)
  | reportSuccess
  | reportFailure (now : UInt64)
  | reset

def step (config : CircuitBreakerConfig) (b : CircuitBreaker) : Call → CircuitBreaker
  | .allowRequest now => (b.allowRequest config now).2
  | .reportSuccess => b.reportSuccess config
  | .reportFailure now => b.reportFailure config now
  | .reset => b.reset

open Lib

/-- A call, with the state it was made in and the one it left. -/
structure Step where
  before : CircuitState
  call : Call
  after : CircuitState

/-! ## What the past says, latest step first -/

/-- The failures reported in `Closed` since the last success, or since the breaker was closed. -/
def failuresInRow : List Step → Nat
  | ⟨.closed, .reportFailure _, _⟩ :: past => failuresInRow past + 1
  | ⟨.closed, .allowRequest _, _⟩ :: past => failuresInRow past
  | _ => 0

/-- The successes reported since the breaker became half open. -/
def successesInRow : List Step → Nat
  | ⟨.halfOpen, .reportSuccess, _⟩ :: past => successesInRow past + 1
  | ⟨.halfOpen, .allowRequest _, _⟩ :: past => successesInRow past
  | _ => 0

/-- The reading of the latest opening. -/
def latestOpening : List Step → Option UInt64
  | [] => none
  | ⟨before, .reportFailure now, .opened⟩ :: past => if before = .opened then latestOpening past else some now
  | _ :: past => latestOpening past

/-- A breaker with its past. -/
structure Watched where
  breaker : CircuitBreaker
  past : List Step

namespace Watched

def start : Watched := ⟨.new, []⟩

def step (config : CircuitBreakerConfig) (w : Watched) (call : Call) : Watched :=
  ⟨w.breaker.step config call, ⟨w.breaker.state, call, (w.breaker.step config call).state⟩ :: w.past⟩

/-- The law, for one call. A `reset` closes the breaker by hand, from any state. -/
structure Lawful (config : CircuitBreakerConfig) (w : Watched) (call : Call) : Prop where
  opens : w.breaker.state = .closed → ((w.breaker.step config call).state = .opened ↔
    ∃ now, call = .reportFailure now ∧ failuresInRow w.past + 1 = config.failureThreshold)
  closes : w.breaker.state = .halfOpen → (w.breaker.step config call).state = .closed →
    call = .reset ∨ call = .reportSuccess ∧ config.successThreshold ≤ successesInRow w.past + 1
  waits : w.breaker.state = .opened → ∀ now, call = .allowRequest now → (w.breaker.allowRequest config now).1 = true →
    ∃ opening ∈ latestOpening w.past, opening.toNat + config.timeoutMicros ≤ now.toNat
  subtracts : w.breaker.state = .opened → ∀ now, call = .allowRequest now → w.breaker.openedAt ≤ now

/-- The reading is not before the opening, and is not taken for one after the timeout. -/
def InTime (config : CircuitBreakerConfig) (w : Watched) (call : Call) : Prop :=
  ∀ now, call = .allowRequest now → w.breaker.state = .opened → w.breaker.openedAt ≤ now ∧
    (config.timeoutMicros < 2 ^ 64 ∨ now.toNat - w.breaker.openedAt.toNat < config.timeoutMicros % 2 ^ 64)

/-- The counters are what the past says. -/
structure Inv (config : CircuitBreakerConfig) (w : Watched) : Prop where
  closed : w.breaker.state = .closed → w.breaker.failureCount = failuresInRow w.past ∧ w.breaker.failureCount < config.failureThreshold
  halfOpen : w.breaker.state = .halfOpen →
    w.breaker.successCount = successesInRow w.past ∧ w.breaker.successCount < config.successThreshold
  opened : w.breaker.state = .opened → latestOpening w.past = some w.breaker.openedAt

variable {config : CircuitBreakerConfig} {w : Watched}

theorem Inv.start (failures : 0 < config.failureThreshold) : Inv config start :=
  ⟨fun _ => ⟨rfl, failures⟩, fun is => (by cases is), fun is => (by cases is)⟩

theorem inv_closed {b : CircuitBreaker} {past : List Step} (is : b.state = .closed) (counts : b.failureCount = failuresInRow past)
    (below : b.failureCount < config.failureThreshold) : Inv config ⟨b, past⟩ :=
  ⟨fun _ => ⟨counts, below⟩, fun other => absurd (is.symm.trans other) (by decide), fun other => absurd (is.symm.trans other) (by decide)⟩

theorem inv_halfOpen {b : CircuitBreaker} {past : List Step} (is : b.state = .halfOpen) (counts : b.successCount = successesInRow past)
    (below : b.successCount < config.successThreshold) : Inv config ⟨b, past⟩ :=
  ⟨fun other => absurd (is.symm.trans other) (by decide), fun _ => ⟨counts, below⟩, fun other => absurd (is.symm.trans other) (by decide)⟩

theorem inv_opened {b : CircuitBreaker} {past : List Step} (is : b.state = .opened) (last : latestOpening past = some b.openedAt) :
    Inv config ⟨b, past⟩ :=
  ⟨fun other => absurd (is.symm.trans other) (by decide), fun other => absurd (is.symm.trans other) (by decide), fun _ => last⟩

theorem Inv.step (inv : Inv config w) (failures : 0 < config.failureThreshold) (successes : 0 < config.successThreshold) (call : Call) :
    Inv config (w.step config call) := by
  obtain ⟨⟨state, failureCount, successCount, openedAt⟩, past⟩ := w
  obtain ⟨closed, halfOpen, opened⟩ := inv
  cases state with
  | closed =>
    obtain ⟨counts, below⟩ := closed rfl
    simp only at counts below
    cases call with
    | allowRequest now => exact inv_closed rfl counts below
    | reportSuccess => exact inv_closed rfl rfl failures
    | reportFailure now =>
      by_cases reached : config.failureThreshold ≤ failureCount + 1
      · apply inv_opened <;> simp [CircuitBreaker.step, reportFailure, reached, transitionToOpen, latestOpening]
      · have raised : reportFailure config ⟨.closed, failureCount, successCount, openedAt⟩ now =
            ⟨.closed, failureCount + 1, successCount, openedAt⟩ := if_neg reached
        apply inv_closed
        · rw [CircuitBreaker.step, raised]
        · rw [CircuitBreaker.step, raised, failuresInRow, ← counts]
        · rw [CircuitBreaker.step, raised]
          exact Nat.lt_of_not_le reached
    | reset => exact inv_closed rfl rfl failures
  | halfOpen =>
    obtain ⟨counts, below⟩ := halfOpen rfl
    simp only at counts below
    cases call with
    | allowRequest now => exact inv_halfOpen rfl counts below
    | reportSuccess =>
      by_cases reached : config.successThreshold ≤ successCount + 1
      · apply inv_closed <;> simp [CircuitBreaker.step, reportSuccess, reached, transitionToClosed, failuresInRow, failures]
      · have raised : reportSuccess config ⟨.halfOpen, failureCount, successCount, openedAt⟩ =
            ⟨.halfOpen, failureCount, successCount + 1, openedAt⟩ := if_neg reached
        apply inv_halfOpen
        · rw [CircuitBreaker.step, raised]
        · rw [CircuitBreaker.step, raised, successesInRow, ← counts]
        · rw [CircuitBreaker.step, raised]
          exact Nat.lt_of_not_le reached
    | reportFailure now => exact inv_opened rfl rfl
    | reset => exact inv_closed rfl rfl failures
  | opened =>
    have last := opened rfl
    simp only at last
    cases call with
    | allowRequest now =>
      cases elapsed : timeoutElapsed config ⟨.opened, failureCount, successCount, openedAt⟩ now with
      | true =>
        apply inv_halfOpen <;> simp [CircuitBreaker.step, allowRequest, elapsed, transitionToHalfOpen, successesInRow, successes]
      | false => apply inv_opened <;> simp [CircuitBreaker.step, allowRequest, elapsed, latestOpening, last]
    | reportSuccess => exact inv_opened rfl last
    | reportFailure now => exact inv_opened rfl last
    | reset => exact inv_closed rfl rfl failures

/-- **Counting**: the transitions are those that the past asks for, whatever the clock. -/
theorem Inv.opens (inv : Inv config w) (closed : w.breaker.state = .closed) (call : Call) :
    (w.breaker.step config call).state = .opened ↔ ∃ now, call = .reportFailure now ∧ failuresInRow w.past + 1 = config.failureThreshold := by
  obtain ⟨counts, below⟩ := inv.closed closed
  cases call with
  | allowRequest now => simp [CircuitBreaker.step, allowRequest, closed]
  | reportSuccess => simp [CircuitBreaker.step, reportSuccess, closed]
  | reportFailure now =>
    rw [← counts]
    by_cases reached : config.failureThreshold ≤ w.breaker.failureCount + 1
    · have exactly : w.breaker.failureCount + 1 = config.failureThreshold := by omega
      simp [CircuitBreaker.step, reportFailure, closed, transitionToOpen, exactly]
    · have short : ¬ w.breaker.failureCount + 1 = config.failureThreshold := by omega
      simp [CircuitBreaker.step, reportFailure, closed, reached, short]
  | reset => simp [CircuitBreaker.step, reset, transitionToClosed]

theorem Inv.closes (inv : Inv config w) (halfOpen : w.breaker.state = .halfOpen) {call : Call}
    (closed : (w.breaker.step config call).state = .closed) :
    call = .reset ∨ call = .reportSuccess ∧ config.successThreshold ≤ successesInRow w.past + 1 := by
  obtain ⟨counts, below⟩ := inv.halfOpen halfOpen
  cases call with
  | allowRequest now => simp [CircuitBreaker.step, allowRequest, halfOpen] at closed
  | reportSuccess =>
    by_cases reached : config.successThreshold ≤ w.breaker.successCount + 1
    · rw [← counts]
      exact .inr ⟨rfl, reached⟩
    · simp [CircuitBreaker.step, reportSuccess, halfOpen, reached] at closed
  | reportFailure now => simp [CircuitBreaker.step, reportFailure, halfOpen, transitionToOpen] at closed
  | reset => exact .inl rfl

/-- **Timing**: the difference of the readings is the time since the opening if they are in order. -/
theorem allows_iff (opened : w.breaker.state = .opened) {now : UInt64} (order : w.breaker.openedAt ≤ now) :
    (w.breaker.allowRequest config now).1 = true ↔
      config.timeoutMicros % 2 ^ 64 ≤ now.toNat - w.breaker.openedAt.toNat := by
  have answer : (w.breaker.allowRequest config now).1 = w.breaker.timeoutElapsed config now := by
    unfold allowRequest
    rw [opened]
    cases w.breaker.timeoutElapsed config now <;> rfl
  rw [answer, timeoutElapsed, decide_eq_true_iff, UInt64.le_iff_toNat_le, UInt64.toNat_sub_of_le _ _ order]
  simp

theorem lawful_iff_inTime (inv : Inv config w) (call : Call) : Lawful config w call ↔ InTime config w call := by
  constructor
  · rintro ⟨-, -, waits, subtracts⟩ now is opened
    have order := subtracts opened now is
    refine ⟨order, ?_⟩
    by_contra late
    rw [not_or, Nat.not_lt, Nat.not_lt] at late
    obtain ⟨opening, last, waited⟩ := waits opened now is ((allows_iff opened order).mpr late.2)
    have word := now.toNat_lt
    omega
  · intro inTime
    refine ⟨fun closed => inv.opens closed call, fun halfOpen closed => inv.closes halfOpen closed, ?_, ?_⟩
    · intro opened now is allowed
      obtain ⟨order, fits⟩ := inTime now is opened
      have elapsed := (allows_iff opened order).mp allowed
      refine ⟨w.breaker.openedAt, inv.opened opened, ?_⟩
      rw [UInt64.le_iff_toNat_le] at order
      rcases fits with fits | short
      · rw [Nat.mod_eq_of_lt fits] at elapsed
        omega
      · omega
    · intro opened now is
      exact (inTime now is opened).1

end Watched

open Watched

/-- **The law holds over a run exactly if** every request to an open breaker is in time. -/
theorem lawful_iff {config : CircuitBreakerConfig} (failures : 0 < config.failureThreshold) (successes : 0 < config.successThreshold)
    (calls : List Call) :
    Meets (Watched.step config) (Lawful config) start calls ↔ Meets (Watched.step config) (InTime config) start calls :=
  meets_congr (Inv config) (fun _ call inv => lawful_iff_inTime inv call) (fun _ call inv _ => inv.step failures successes call)
    (Inv.start failures) calls

/-- Opened by one failure, closed by one success, half a minute later. -/
def quick : CircuitBreakerConfig := ⟨1, 1, 30000000⟩

theorem lawful_iff_quick :
    Meets (Watched.step quick) (Lawful quick) start [.reportFailure 1000, .allowRequest 30001000, .reportSuccess] := by
  rw [lawful_iff (by decide) (by decide)]
  refine ⟨?_, ?_, ?_, trivial⟩
  · intro now is
    cases is
  · intro now is _
    cases is
    decide
  · intro now is
    cases is

/-- A microsecond before it opened, an open breaker lets a request through. -/
theorem lawful_fails : ¬ ∀ config : CircuitBreakerConfig, 0 < config.failureThreshold → 0 < config.successThreshold → ∀ calls,
    Meets (Watched.step config) (Lawful config) start calls := by
  intro every
  obtain ⟨-, lawful, -⟩ := every quick (by decide) (by decide) [.reportFailure 1000, .allowRequest 999]
  obtain ⟨opening, last, waited⟩ := lawful.waits (by decide) 999 rfl (by decide)
  obtain rfl := Option.some.inj last
  revert waited
  decide

end CircuitBreaker

end StreamHouse.Storage
