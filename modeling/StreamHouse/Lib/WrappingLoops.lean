import Mathlib.Data.Int.GCD
import Mathlib.Data.Nat.Prime.Basic
import Mathlib.Tactic.Ring

/-!
# Loops whose counter wraps

A loop ends if its condition fails after some turn. A counter that grows by a step and wraps at a modulus takes every
value that differs from the first by a multiple of the greatest common divisor of the two: it exceeds a bound if the
last such value does.
-/

namespace StreamHouse.Lib

section Loops

variable {σ : Type} (continues : σ → Bool) (body : σ → σ)

/-- `while continues(s) { s = body(s) }`, with so many turns left. -/
def repeatWhile : Nat → σ → Option σ
  | 0, _ => none
  | fuel + 1, s => if continues s then repeatWhile fuel (body s) else some s

variable {continues body}

theorem repeatWhile_ends {s : σ} : (∃ fuel, (repeatWhile continues body fuel s).isSome) ↔ ∃ k, continues (body^[k] s) = false := by
  constructor
  · rintro ⟨fuel, ended⟩
    induction fuel generalizing s with
    | zero => cases ended
    | succ fuel ih =>
      rw [repeatWhile] at ended
      split_ifs at ended with more
      · obtain ⟨k, stops⟩ := ih ended
        exact ⟨k + 1, stops⟩
      · exact ⟨0, eq_false_of_ne_true more⟩
  · rintro ⟨k, stops⟩
    induction k generalizing s with
    | zero =>
      refine ⟨1, ?_⟩
      rw [repeatWhile, if_neg (by rw [show continues s = false from stops]; exact Bool.false_ne_true)]
      rfl
    | succ k ih =>
      by_cases more : continues s = true
      · obtain ⟨fuel, ended⟩ := ih stops
        refine ⟨fuel + 1, ?_⟩
        rw [repeatWhile, if_pos more]
        exact ended
      · refine ⟨1, ?_⟩
        rw [repeatWhile, if_neg more]
        rfl

end Loops

variable {step first last : Int} {m : Nat}

/-- The counter after some turns. -/
theorem iterate_bmod (fits : first.bmod m = first) (k : Nat) :
    (fun n : Int => (n + step).bmod m)^[k] first = (first + k * step).bmod m := by
  induction k with
  | zero =>
    rw [Function.iterate_zero_apply, Int.natCast_zero, Int.zero_mul, Int.add_zero, fits]
  | succ k ih =>
    rw [Function.iterate_succ_apply', ih, Int.bmod_add_bmod]
    congr 1
    push_cast
    ring

/-- The turns reach every multiple of the greatest common divisor. -/
theorem exists_turn (positive : 0 < m) {n : Int} (reachable : (Int.gcd step m : Int) ∣ n - first) :
    ∃ k : Nat, (first + k * step).bmod m = n.bmod m := by
  obtain ⟨c, distance⟩ := reachable
  have bezout := Int.gcd_eq_gcd_ab step m
  refine ⟨((Int.gcdA step m * c) % m).toNat, ?_⟩
  have turns := Int.toNat_of_nonneg (Int.emod_nonneg (Int.gcdA step m * c) (by omega : (m : Int) ≠ 0))
  have quotient := Int.emod_add_mul_ediv (Int.gcdA step m * c) m
  rw [turns, Int.emod_def]
  have same : first + (Int.gcdA step m * c - m * (Int.gcdA step m * c / m)) * step =
      n + m * (-(Int.gcdB step m * c) - Int.gcdA step m * c / m * step) := by
    have reached : n = first + (step * Int.gcdA step m + m * Int.gcdB step m) * c := by
      rw [← bezout]
      omega
    rw [reached]
    ring
  rw [same, Int.add_mul_bmod_self_left]

/-- The greatest value that the counter takes is the last below half of the modulus. -/
theorem exists_turn_above {h : Nat} (half : Int.gcd step (2 * h : Nat) ∣ h) (positive : 0 < h)
    (multiple : (Int.gcd step (2 * h : Nat) : Int) ∣ first) :
    (∃ k : Nat, last < (first + k * step).bmod (2 * h)) ↔ last + Int.gcd step (2 * h : Nat) < h := by
  have divides : (Int.gcd step (2 * h : Nat) : Int) ∣ h := Int.natCast_dvd_natCast.mpr half
  have modulus : (Int.gcd step (2 * h : Nat) : Int) ∣ (2 * h : Nat) := Int.gcd_dvd_right step (2 * h : Nat)
  constructor
  · rintro ⟨k, above⟩
    have whole : (Int.gcd step (2 * h : Nat) : Int) ∣ first + k * step :=
      Int.dvd_add multiple (Int.dvd_mul_of_dvd_right (Int.gcd_dvd_left step (2 * h : Nat)))
    have counted : (Int.gcd step (2 * h : Nat) : Int) ∣ (first + k * step).bmod (2 * h) := by
      have moved := Int.dvd_add (Int.dvd_trans modulus (Int.dvd_bmod_sub_self (x := first + k * step) (m := 2 * h))) whole
      rwa [Int.sub_add_cancel] at moved
    have below := Int.bmod_lt (x := first + k * step) (m := 2 * h) (by omega)
    have room := Int.le_of_dvd (by omega) (Int.dvd_sub divides counted)
    omega
  · intro room
    have least := Nat.le_of_dvd positive half
    have some : 0 < Int.gcd step (2 * h : Nat) := Int.gcd_pos_of_ne_zero_right _ (by omega)
    obtain ⟨k, reached⟩ := exists_turn (m := 2 * h) (by omega) (Int.dvd_sub (Int.dvd_sub divides (Int.dvd_refl _)) multiple)
    refine ⟨k, ?_⟩
    rw [reached, Int.bmod_eq_of_le] <;> omega

end StreamHouse.Lib
