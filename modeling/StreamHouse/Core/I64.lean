import Mathlib.Algebra.Group.Int.Defs
import Mathlib.Algebra.GroupWithZero.Nat
import Mathlib.Order.Lattice

/-!
# The arithmetic of `i64`

An `i64` is the integer that it stands for. A difference that is none overflows: a build with
overflow checks stops there, and one without them wraps.
-/

namespace StreamHouse.I64

/-- `i64::MIN`. -/
def least : Int := -2 ^ 63

/-- The integer is an `i64`. -/
def Fits (n : Int) : Prop := least ≤ n ∧ n < 2 ^ 63

instance Fits.decidable (n : Int) : Decidable (Fits n) := inferInstanceAs (Decidable (_ ∧ _))

def checkedSub (a b : Int) : Option Int := if Fits (a - b) then some (a - b) else none

/-- A division by zero panics, and so does one whose quotient is no `i64`. -/
def checkedDiv (a b : Int) : Option Int := if b = 0 ∨ a = least ∧ b = -1 then none else some (a.tdiv b)

/-- What is left of an integer in 64 bits. -/
def wrap (n : Int) : Int := n.bmod (2 ^ 64)

def wrappingSub (a b : Int) : Int := wrap (a - b)

theorem wrap_of_fits {n : Int} (fits : Fits n) : wrap n = n := by
  obtain ⟨low, high⟩ := fits
  unfold least at low
  apply Int.bmod_eq_of_le <;> omega

theorem fits_wrap (n : Int) : Fits (wrap n) := by
  have low := Int.le_bmod (m := 2 ^ 64) (x := n) (by decide)
  have high := Int.bmod_lt (m := 2 ^ 64) (x := n) (by decide)
  unfold Fits wrap least
  omega

theorem checkedSub_eq_some {a b c : Int} : checkedSub a b = some c ↔ Fits (a - b) ∧ c = a - b := by
  unfold checkedSub
  split_ifs with fits
  · rw [Option.some.injEq, eq_comm]
    exact (and_iff_right fits).symm
  · exact iff_of_false (by simp) fun both => fits both.1

theorem checkedSub_eq_none {a b : Int} : checkedSub a b = none ↔ ¬ Fits (a - b) := by
  unfold checkedSub
  split_ifs with fits
  · exact iff_of_false (by simp) (not_not_intro fits)
  · exact iff_of_true rfl fits

theorem checkedDiv_isSome {a b : Int} : (checkedDiv a b).isSome ↔ b ≠ 0 ∧ ¬ (a = least ∧ b = -1) := by
  unfold checkedDiv
  split_ifs with fails
  · exact iff_of_false Bool.false_ne_true fun divides => fails.elim divides.1 divides.2
  · exact iff_of_true rfl (not_or.mp fails)

/-- A difference of two in order is too large for an `i64` when it wraps to less than zero. -/
theorem wrappingSub_of_le {a b : Int} (fitsA : Fits a) (fitsB : Fits b) (order : b ≤ a) :
    wrappingSub a b = if a - b < 2 ^ 63 then a - b else a - b - 2 ^ 64 := by
  obtain ⟨lowA, highA⟩ := fitsA
  obtain ⟨lowB, highB⟩ := fitsB
  unfold least at lowA lowB
  unfold wrappingSub wrap
  split_ifs with small
  · apply Int.bmod_eq_of_le <;> omega
  · have back : (a - b).bmod (2 ^ 64) = (a - b - (2 ^ 64 : Nat)).bmod (2 ^ 64) := (Int.sub_bmod_right _ _).symm
    rw [back, Int.bmod_eq_of_le] <;> omega

end StreamHouse.I64
