import Mathlib.Algebra.Group.Nat.Defs
import StreamHouse.Lib.Run

/-!
# Credits of producers

`BackpressureController` of `streamhouse-storage/src/backpressure.rs`, a call under its lock at a time. The products and quotients of
floating point numbers are parameters; times are nanoseconds, and sums wrap, as in a build without overflow checks. `answers`
is no field of the source: what each producer was answered.
-/

namespace StreamHouse.Storage.Backpressure
open Lib List Function

structure BackpressureConfig where
  initialCredits : Nat
  maxCredits : Nat
  refillRatePerSec : Nat
  minCreditsPerRequest : Nat

/-- `rate as f64 * elapsed` and `deficit as f64 / rate as f64 * 1000.0`, rounded. -/
structure Rounded where
  refillAmount : Nat → Nat → Nat
  waitMs : Nat → Nat → Nat

structure ProducerCredits where
  available : Nat
  totalGranted : Nat
  totalConsumed : Nat
  lastRefill : Nat
  throttleCount : Nat

inductive Call where
  | acquireCredits (producerId : String) (recordCount created now later : Nat)
  | releaseCredits (producerId : String) (amount : Nat)
  /-- Each entry reads the clock for itself, and again when it is refilled. -/
  | refill (now later : String → Nat)
  | removeProducer (producerId : String)

structure BackpressureController where
  credits : String → Option ProducerCredits
  answers : String → List (Except Nat Unit)

variable (x : Rounded) (config : BackpressureConfig)

def ProducerCredits.new (initialCredits now : Nat) : ProducerCredits := ⟨initialCredits, initialCredits, 0, now, 0⟩

/-- `refill_entry`. -/
def ProducerCredits.refill (e : ProducerCredits) (now later : Nat) : ProducerCredits :=
  let amount := x.refillAmount config.refillRatePerSec (now - e.lastRefill)
  if now - e.lastRefill < 1000000 ∨ amount = 0 then e
  else
    let available := min ((e.available + amount) % 2 ^ 64) config.maxCredits
    { e with available, totalGranted := (e.totalGranted + (2 ^ 64 + available - e.available)) % 2 ^ 64, lastRefill := later }

def throttleTimeMs (deficit : Nat) : Nat :=
  if config.refillRatePerSec = 0 then 2 ^ 64 - 1 else x.waitMs deficit config.refillRatePerSec

namespace BackpressureController

def step (s : BackpressureController) : Call → BackpressureController
  | .acquireCredits id recordCount created now later =>
    let cost := max recordCount config.minCreditsPerRequest
    let e := ((s.credits id).getD (.new config.initialCredits created)).refill x config now later
    if cost ≤ e.available then
      ⟨update s.credits id (some { e with available := e.available - cost, totalConsumed := (e.totalConsumed + cost) % 2 ^ 64 }),
        update s.answers id (s.answers id ++ [.ok ()])⟩
    else
      ⟨update s.credits id (some { e with throttleCount := (e.throttleCount + 1) % 2 ^ 64 }),
        update s.answers id (s.answers id ++ [.error (throttleTimeMs x config (cost - e.available))])⟩
  | .releaseCredits id amount =>
    match s.credits id with
    | none => s
    | some e =>
      { s with
        credits := update s.credits id
          (some { e with
            available := min ((e.available + amount) % 2 ^ 64) config.maxCredits, totalGranted := (e.totalGranted + amount) % 2 ^ 64 }) }
  | .refill now later => { s with credits := fun id => (s.credits id).map fun e => e.refill x config (now id) (later id) }
  | .removeProducer id => { s with credits := update s.credits id none }

/-- Whether a call is one of the producer or of the refills. -/
def concerns (id : String) : Call → Bool
  | .acquireCredits other _ _ _ _ | .releaseCredits other _ | .removeProducer other => other = id
  | .refill _ _ => true

/-- What a producer has and was answered is the same. -/
def Alike (id : String) (s t : BackpressureController) : Prop := s.credits id = t.credits id ∧ s.answers id = t.answers id

variable {id : String} {s t : BackpressureController}

theorem update_alike {β : Type} {f g : String → β} {v : β} : update f id v id = update g id v id := by rw [update_self, update_self]

theorem alike_own (alike : Alike id s t) {a : Call} (concerned : concerns id a = true) : Alike id (s.step x config a) (t.step x config a) := by
  obtain ⟨credits, answers⟩ := alike
  cases a with
  | refill now later => exact ⟨congrArg (Option.map _) credits, answers⟩
  | removeProducer other =>
    obtain rfl := of_decide_eq_true concerned
    exact ⟨update_alike, answers⟩
  | releaseCredits other amount =>
    obtain rfl := of_decide_eq_true concerned
    rw [step, step, credits]
    split
    · next none => exact ⟨credits, answers⟩
    · exact ⟨update_alike, answers⟩
  | acquireCredits other recordCount created now later =>
    obtain rfl := of_decide_eq_true concerned
    rw [step, step, credits, answers]
    split
    · exact ⟨update_alike, update_alike⟩
    · exact ⟨update_alike, update_alike⟩

/-- A call of another producer. -/
theorem alike_other (s : BackpressureController) {a : Call} (apart : concerns id a = false) : Alike id (s.step x config a) s := by
  cases a with
  | refill => cases apart
  | removeProducer other => exact ⟨update_of_ne (Ne.symm (of_decide_eq_false apart)) _ _, rfl⟩
  | releaseCredits other amount =>
    rw [step]
    split
    · exact ⟨rfl, rfl⟩
    · exact ⟨update_of_ne (Ne.symm (of_decide_eq_false apart)) _ _, rfl⟩
  | acquireCredits other recordCount created now later =>
    have other := Ne.symm (of_decide_eq_false apart)
    rw [step]
    split
    · exact ⟨update_of_ne other _ _, update_of_ne other _ _⟩
    · exact ⟨update_of_ne other _ _, update_of_ne other _ _⟩

/-- **No producer is throttled for another**: after any run of calls its credits and its answers are those after its own calls alone. -/
theorem producer_alone (id : String) (s : BackpressureController) (as : List Call) :
    Alike id (run (step x config) s as) (run (step x config) s (as.filter (concerns id))) := by
  suffices same : ∀ t, Alike id s t → Alike id (run (step x config) s as) (run (step x config) t (as.filter (concerns id))) from
    same s ⟨rfl, rfl⟩
  intro t alike
  induction as generalizing s t with
  | nil => exact alike
  | cons a as ih =>
    cases concerned : concerns id a with
    | true =>
      rw [filter_cons_of_pos concerned]
      exact ih _ _ (alike_own x config alike concerned)
    | false =>
      obtain ⟨credits, answers⟩ := alike_other x config s concerned
      rw [filter_cons_of_neg (by rw [concerned]; exact Bool.false_ne_true)]
      exact ih _ _ ⟨credits.trans alike.1, answers.trans alike.2⟩

/-- What is spent and what is left was granted, and no more is left than may be. -/
def Sound (e : ProducerCredits) : Prop :=
  e.totalConsumed + e.available ≤ e.totalGranted ∧ e.available ≤ max config.initialCredits config.maxCredits

/-- The account of each producer is in order. -/
def Sound.Everywhere (s : BackpressureController) : Prop := ∀ id, ∀ e ∈ s.credits id, Sound config e

/-- Credits can be added without a sum that wraps. -/
def Takes (e : ProducerCredits) (amount : Nat) : Prop := e.available + amount < 2 ^ 64 ∧ e.totalGranted + amount < 2 ^ 64

instance (e : ProducerCredits) (amount : Nat) : Decidable (Takes e amount) := inferInstanceAs (Decidable (_ ∧ _))

/-- What a refill at that time is of. -/
def due (e : ProducerCredits) (now : Nat) : Nat := x.refillAmount config.refillRatePerSec (now - e.lastRefill)

/-- No sum wraps in what the call adds. -/
def Fits (s : BackpressureController) : Call → Prop
  | .acquireCredits id _ created now _ =>
    let e := (s.credits id).getD (.new config.initialCredits created)
    Takes e (due x config e now)
  | .releaseCredits id amount => ∀ e ∈ s.credits id, Takes e amount
  | .refill now _ => ∀ id, ∀ e ∈ s.credits id, Takes e (due x config e (now id))
  | .removeProducer _ => True

variable {x config}

theorem Sound.refill {e : ProducerCredits} (sound : Sound config e) {now : Nat} (takes : Takes e (due x config e now)) (later : Nat) :
    Sound config (e.refill x config now later) := by
  obtain ⟨paid, bound⟩ := sound
  obtain ⟨left, granted⟩ := takes
  unfold due at left granted
  rw [ProducerCredits.refill]
  split
  · exact ⟨paid, bound⟩
  · refine ⟨?_, Nat.le_trans (Nat.min_le_right _ _) (Nat.le_max_right _ _)⟩
    rw [Nat.mod_eq_of_lt left]
    dsimp only
    omega

theorem Sound.charge {e : ProducerCredits} (sound : Sound config e) {cost : Nat} (enough : cost ≤ e.available) :
    Sound config { e with available := e.available - cost, totalConsumed := (e.totalConsumed + cost) % 2 ^ 64 } := by
  obtain ⟨paid, bound⟩ := sound
  refine ⟨?_, Nat.le_trans (Nat.sub_le _ _) bound⟩
  dsimp only
  omega

theorem Sound.release {e : ProducerCredits} (sound : Sound config e) {amount : Nat} (takes : Takes e amount) :
    Sound config { e with
      available := min ((e.available + amount) % 2 ^ 64) config.maxCredits, totalGranted := (e.totalGranted + amount) % 2 ^ 64 } := by
  obtain ⟨paid, -⟩ := sound
  obtain ⟨left, granted⟩ := takes
  refine ⟨?_, Nat.le_trans (Nat.min_le_right _ _) (Nat.le_max_right _ _)⟩
  rw [Nat.mod_eq_of_lt left, Nat.mod_eq_of_lt granted]
  dsimp only
  omega

/-- **Credits are not made by spending**, as long as no sum wraps. -/
theorem credits_sound {as : List Call} (fits : Meets (step x config) (Fits x config) ⟨fun _ => none, fun _ => []⟩ as) :
    Sound.Everywhere config (run (step x config) ⟨fun _ => none, fun _ => []⟩ as) := by
  have keep : ∀ s a, Sound.Everywhere config s → Fits x config s a → Sound.Everywhere config (s.step x config a) := by
    intro s a sound fits
    have put (id : String) {now : Option ProducerCredits} (ok : ∀ e ∈ now, Sound config e) :
        ∀ other, ∀ e ∈ update s.credits id now other, Sound config e :=
      (forall_update_iff s.credits fun _ v => ∀ e ∈ v, Sound config e).mpr ⟨ok, fun other _ => sound other⟩
    have one {e : ProducerCredits} (ok : Sound config e) : ∀ f ∈ some e, Sound config f := by
      rintro _ ⟨⟩
      exact ok
    cases a with
    | refill now later =>
      intro id f there
      obtain ⟨e, was, rfl⟩ := Option.map_eq_some_iff.mp there
      exact (sound id e was).refill (fits id e was) _
    | removeProducer id => exact put id (by rintro _ ⟨⟩)
    | releaseCredits id amount =>
      rw [step]
      split
      · exact sound
      · next e was => exact put id (one ((sound id e was).release (fits e was)))
    | acquireCredits id recordCount created now later =>
      have start : Sound config ((s.credits id).getD (.new config.initialCredits created)) := by
        cases was : s.credits id with
        | none => exact ⟨Nat.le_of_eq (Nat.zero_add _), Nat.le_max_left _ _⟩
        | some e => exact sound id e was
      have filled := start.refill fits later
      dsimp only [step]
      split
      · next enough => exact put id (one (filled.charge enough))
      · exact put id (one filled)
  exact fits.invariant keep (by rintro _ _ ⟨⟩)

namespace Example

def rounded : Rounded := ⟨fun rate elapsed => rate * elapsed / 1000000000, fun deficit rate => (deficit * 1000 + rate - 1) / rate⟩

/-- The second request has to wait for ten credits, which a second brings, and the third has been released credits besides. -/
def requests : List Call :=
  [.acquireCredits "p" 60 0 0 0, .acquireCredits "p" 50 0 0 0, .acquireCredits "p" 50 0 1000000000 1000000000,
    .releaseCredits "p" 60, .acquireCredits "p" 60 0 1000000000 1000000000]

end Example

theorem credits_sound_of_requests :
    (run (step Example.rounded ⟨100, 500, 10, 1⟩) ⟨fun _ => none, fun _ => []⟩ Example.requests).answers "p" =
        [.ok (), .error 1000, .ok (), .ok ()] ∧
      Sound.Everywhere ⟨100, 500, 10, 1⟩ (run (step Example.rounded ⟨100, 500, 10, 1⟩) ⟨fun _ => none, fun _ => []⟩ Example.requests) := by
  refine ⟨by decide, credits_sound ⟨?_, ?_, ?_, ?_, ?_, trivial⟩⟩
  case refine_4 =>
    rintro _ ⟨⟩
    decide
  all_goals
    change Takes _ _
    decide

end BackpressureController

end StreamHouse.Storage.Backpressure
