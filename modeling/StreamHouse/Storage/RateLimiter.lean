import Mathlib.Data.Rat.Floor
import StreamHouse.Lib.Run

/-!
# The rate limiter of the object store

`TokenBucket` of `streamhouse-storage/src/rate_limiter.rs`, with a step for every load, exchange and store of
`try_acquire`. The products of floating point numbers are parameters. Refills may credit one time twice; what holds
whatever the interleaving is that a token is not spent twice, and that tokens and rate stay in their bounds. `credited`
is no field of the source: it sums up what refills have added.
-/

namespace StreamHouse.Storage.RateLimiter
open Lib List

structure BucketConfig where
  rate : ℚ
  burst : Nat
  minRate : ℚ
  maxRate : ℚ

/-- `Default`. -/
def BucketConfig.default : BucketConfig := ⟨3000, 5000, 100, 10000⟩

/-- The products of the code: `(burst as f64 * 1000.0) as u64`,
`(rate * (elapsed_micros as f64 / 1_000_000.0) * 1000.0) as u64`, `rate * 0.5` and `rate * 1.05`. Rounding keeps the
order of a rate and its product. -/
structure Rounded where
  capacity : Nat → Nat
  refill : ℚ → Nat → Nat
  halved : ℚ → ℚ
  raised : ℚ → ℚ
  halved_le : ∀ rate, 0 ≤ rate → halved rate ≤ rate
  le_raised : ∀ rate, 0 ≤ rate → rate ≤ raised rate

variable (x : Rounded)

def BucketConfig.maxTokens (c : BucketConfig) : Nat := x.capacity c.burst

/-- The tokens are thousandths. -/
structure TokenBucket where
  tokens : Nat
  lastRefill : Nat
  config : BucketConfig
  credited : Nat

def TokenBucket.new (config : BucketConfig) (now : Nat) : TokenBucket := ⟨config.maxTokens x, now, config, 0⟩

/-- What a `try_acquire` does next. -/
inductive Acquire where
  | readsClock
  | readsLast (now : Nat)
  | asksConfig (now elapsed : Nat)
  | loads (now add : Nat)
  | exchanges (now add current : Nat)
  | storesLast (now : Nat)
  | takes
  | exchangesTake (current : Nat)
  | done (granted : Bool)
deriving DecidableEq

/-- The guard of the configuration is dropped when `refill` returns. -/
def Acquire.holds : Acquire → Bool
  | .loads _ _ | .exchanges _ _ _ | .storesLast _ => true
  | _ => false

namespace TokenBucket

/-- `tokens_to_add`. -/
def tokensToAdd (b : TokenBucket) (elapsed : Nat) : Nat := x.refill b.config.rate elapsed

/-- A step of a call, at the time `now`. -/
def advance (b : TokenBucket) (now : Nat) : Acquire → Acquire × TokenBucket
  | .readsClock => (.readsLast now, b)
  | .readsLast now => (if now - b.lastRefill = 0 then .takes else .asksConfig now (now - b.lastRefill), b)
  | .asksConfig now elapsed => (if b.tokensToAdd x elapsed = 0 then .takes else .loads now (b.tokensToAdd x elapsed), b)
  | .loads now add => (.exchanges now add b.tokens, b)
  | .exchanges now add current =>
    if b.tokens = current then
      let newTokens := min ((current + add) % 2 ^ 64) (b.config.maxTokens x)
      (.storesLast now, { b with tokens := newTokens, credited := b.credited + (newTokens - current) })
    else (.loads now add, b)
  | .storesLast now => (.takes, { b with lastRefill := now })
  | .takes => (if b.tokens < 1000 then .done false else .exchangesTake b.tokens, b)
  | .exchangesTake current =>
    if b.tokens = current then (.done true, { b with tokens := current - 1000 }) else (.takes, b)
  | .done granted => (.done granted, b)

def setRate (b : TokenBucket) (rate : ℚ) : TokenBucket := { b with config := { b.config with rate } }

/-- `report_throttled`. -/
def reportThrottled (b : TokenBucket) : TokenBucket := b.setRate (max (x.halved b.config.rate) b.config.minRate)

/-- `report_success`. -/
def reportSuccess (b : TokenBucket) : TokenBucket := b.setRate (min (x.raised b.config.rate) b.config.maxRate)

end TokenBucket

open TokenBucket

/-- A bucket and calls of `try_acquire`. -/
structure Limiter where
  bucket : TokenBucket
  calls : List Acquire

inductive LimiterStep where
  | advance (i now : Nat)
  | report (throttled : Bool)

namespace Limiter

/-- A report waits while a refill holds the guard. -/
def step (s : Limiter) : LimiterStep → Limiter
  | .advance i now =>
    match s.calls[i]? with
    | none => s
    | some c => ⟨(s.bucket.advance x now c).2, s.calls.set i (s.bucket.advance x now c).1⟩
  | .report throttled =>
    if s.calls.any Acquire.holds then s
    else { s with bucket := if throttled then s.bucket.reportThrottled x else s.bucket.reportSuccess x }

def granted (s : Limiter) : Nat := s.calls.countP (· = .done true)

structure Bounded (config : BucketConfig) (s : Limiter) : Prop where
  tokens : s.bucket.tokens ≤ config.maxTokens x
  paid : 1000 * s.granted + s.bucket.tokens ≤ config.maxTokens x + s.bucket.credited
  rate : config.minRate ≤ s.bucket.config.rate ∧ s.bucket.config.rate ≤ config.maxRate

/-- What is known of the calls and of the parts of the configuration that stay. -/
structure Inv (config : BucketConfig) (s : Limiter) : Prop extends Bounded x config s where
  fixed : s.bucket.config.burst = config.burst ∧ s.bucket.config.minRate = config.minRate ∧ s.bucket.config.maxRate = config.maxRate
  takes : ∀ current, .exchangesTake current ∈ s.calls → 1000 ≤ current

/-- **One step of a call**: what it takes is paid, what it adds is credited. -/
theorem advance_paid {b : TokenBucket} {c : Acquire} (now : Nat) (unfinished : c ≠ .done true)
    (enough : ∀ current, c = .exchangesTake current → 1000 ≤ current) (bound : b.tokens ≤ b.config.maxTokens x) :
    (b.advance x now c).2.config = b.config ∧ (b.advance x now c).2.tokens ≤ b.config.maxTokens x ∧
      (if (b.advance x now c).1 = .done true then 1000 else 0) + (b.advance x now c).2.tokens + b.credited ≤
        b.tokens + (b.advance x now c).2.credited ∧
      ∀ current, (b.advance x now c).1 = .exchangesTake current → 1000 ≤ current := by
  cases c with
  | exchanges at_ add current =>
    rw [advance]
    split
    · next same =>
      refine ⟨rfl, Nat.min_le_right _ _, ?_, fun _ no => nomatch no⟩
      rw [if_neg (by simp)]
      dsimp only
      omega
    · simpa using bound
  | takes =>
    rw [advance]
    split
    · simpa using bound
    · next above =>
      refine ⟨rfl, bound, by simp, fun current is => ?_⟩
      cases is
      omega
  | exchangesTake current =>
    have least := enough current rfl
    rw [advance]
    split
    · next same =>
      refine ⟨rfl, ?_, ?_, fun _ no => nomatch no⟩
      · dsimp only
        omega
      · rw [if_pos rfl]
        dsimp only
        omega
    · simpa using bound
  | done granted => simpa [advance, show granted = false by simpa using unfinished] using bound
  | _ =>
    -- The bucket stays but for the time of the last refill.
    rw [advance]
    first
      | simpa using bound
      | split <;> simpa using bound

variable {x} {config : BucketConfig} {s : Limiter}

theorem Inv.advance (inv : Inv x config s) {i : Nat} {c : Acquire} (there : s.calls[i]? = some c) (now : Nat) :
    Inv x config ⟨(s.bucket.advance x now c).2, s.calls.set i (s.bucket.advance x now c).1⟩ := by
  obtain ⟨inside, isCall⟩ := List.getElem?_eq_some_iff.mp there
  by_cases finished : c = .done true
  · subst finished
    rw [TokenBucket.advance, ← isCall, set_getElem_self]
    exact inv
  · obtain ⟨burst, least, most⟩ := inv.fixed
    have capacity : s.bucket.config.maxTokens x = config.maxTokens x := by rw [BucketConfig.maxTokens, BucketConfig.maxTokens, burst]
    obtain ⟨same, bound, paid, takes⟩ := advance_paid x now finished
      (fun current is => inv.takes current (is ▸ mem_of_getElem? there)) (inv.tokens.trans_eq capacity.symm)
    have count := countP_set (p := (· = Acquire.done true)) (a := (s.bucket.advance x now c).1) inside
    have before := inv.paid
    simp only [isCall, decide_eq_true_eq, finished, if_false, Nat.sub_zero] at count
    refine ⟨⟨bound.trans_eq capacity, ?_, same ▸ inv.rate⟩, same ▸ inv.fixed, fun current member => ?_⟩
    · rw [granted] at before ⊢
      rw [count]
      split at paid <;> simp_all <;> omega
    · obtain old | new := mem_or_eq_of_mem_set member
      · exact inv.takes current old
      · exact takes current new.symm

theorem Inv.report (nonneg : 0 ≤ config.minRate) (inv : Inv x config s) (throttled : Bool) : Inv x config (s.step x (.report throttled)) := by
  obtain ⟨low, high⟩ := inv.rate
  obtain ⟨burst, least, most⟩ := inv.fixed
  rw [step]
  split
  · exact inv
  · cases throttled with
    | false =>
      have raised := x.le_raised _ (nonneg.trans low)
      exact ⟨⟨inv.tokens, inv.paid, le_min (low.trans raised) (most ▸ low.trans high), most ▸ min_le_right _ _⟩, inv.fixed, inv.takes⟩
    | true =>
      have halved := x.halved_le _ (nonneg.trans low)
      exact ⟨⟨inv.tokens, inv.paid, least ▸ le_max_right _ _, max_le (halved.trans high) (least ▸ low.trans high)⟩, inv.fixed, inv.takes⟩

/-- **Whatever the interleaving of calls, clock readings and reports**, the tokens stay below the capacity, every grant is
paid by a token of the start or of a refill, and the rate stays in its bounds. -/
theorem limiter_bounded (x : Rounded) (nonneg : 0 ≤ config.minRate) (low : config.minRate ≤ config.rate)
    (high : config.rate ≤ config.maxRate) (now n : Nat) (as : List LimiterStep) :
    Bounded x config (run (step x) ⟨.new x config now, replicate n .readsClock⟩ as) := by
  have none : granted ⟨.new x config now, replicate n .readsClock⟩ = 0 := countP_eq_zero.mpr fun c inside => by simp [eq_of_mem_replicate inside]
  have start : Inv x config ⟨.new x config now, replicate n .readsClock⟩ :=
    ⟨⟨Nat.le_refl _, by rw [none, Nat.mul_zero, Nat.zero_add]; exact Nat.le_refl _, low, high⟩, ⟨rfl, rfl, rfl⟩,
      fun _ inside => nomatch eq_of_mem_replicate inside⟩
  refine (run_invariant (Inv x config) (fun s a inv => ?_) start as).toBounded
  cases a with
  | advance i now =>
    rw [step]
    split
    · exact inv
    · next c there => exact inv.advance there now
  | report throttled => exact inv.report nonneg throttled

namespace Example

/-- Products without rounding. -/
def exact : Rounded where
  capacity burst := burst * 1000
  refill rate elapsed := ⌊rate * elapsed / 1000⌋.toNat
  halved rate := rate / 2
  raised rate := rate * (105 / 100)
  halved_le rate nonneg := by linarith
  le_raised rate nonneg := by linarith

/-- Two calls load one number of tokens, the first takes a token, and the refill of the second has to load again. -/
def contending : List LimiterStep :=
  [.advance 0 0, .advance 0 0, .advance 0 0, .advance 1 1000, .advance 1 1000, .advance 1 1000, .advance 1 1000,
    .advance 0 0, .report true, .advance 1 1000, .advance 1 1000, .advance 1 1000, .advance 1 1000, .advance 1 1000]

end Example

/-- One of the two has a token, and the refill has put another in its place. -/
theorem limiter_bounded_default :
    let s := run (step Example.exact) ⟨.new Example.exact .default 0, replicate 2 .readsClock⟩ Example.contending
    s.granted = 1 ∧ s.bucket.credited = 1000 ∧ Bounded Example.exact .default s :=
  ⟨by decide +kernel, by decide +kernel, limiter_bounded Example.exact (by decide +kernel) (by decide +kernel) (by decide +kernel) 0 2 _⟩

end Limiter

end StreamHouse.Storage.RateLimiter
