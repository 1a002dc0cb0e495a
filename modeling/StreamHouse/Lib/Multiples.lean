import Mathlib.Algebra.Order.Ring.Int
import Mathlib.Data.List.Nodup
import Mathlib.Data.List.Range
import Mathlib.Tactic.Ring

/-!
# Multiples in a range

A loop that adds a positive step makes the multiples of the step from the first one on. Where the
first one comes from a division that rounds towards zero, it says when a multiple that lies in
the half-open interval behind a number is left out.
-/

namespace StreamHouse.Lib.Multiples

/-- What `while w <= last { ..; w += step }` goes through from `first` on. -/
def multiples (step first last : Int) : List Int :=
  if first ≤ last then (List.range ((last - first) / step).toNat.succ).map fun (i : Nat) => first + i * step else []

variable {step first last : Int}

theorem mem_multiples (positive : 0 < step) (isMultiple : step ∣ first) {w : Int} :
    w ∈ multiples step first last ↔ first ≤ w ∧ w ≤ last ∧ step ∣ w := by
  unfold multiples
  split_ifs with some
  · rw [List.mem_map]
    constructor
    · rintro ⟨i, inRange, rfl⟩
      have bound := List.mem_range.mp inRange
      have nonneg : 0 ≤ (last - first) / step := Int.ediv_nonneg (by omega) positive.le
      have quotient : (i : Int) ≤ (last - first) / step := by omega
      have steps := (Int.le_ediv_iff_mul_le positive).mp quotient
      have forward := Int.mul_nonneg (Int.natCast_nonneg i) positive.le
      exact ⟨by omega, by omega, Int.dvd_add isMultiple (Dvd.intro_left _ rfl)⟩
    · rintro ⟨low, high, divides⟩
      obtain ⟨k, apart⟩ := Int.dvd_sub divides isMultiple
      have nonneg : 0 ≤ k := by
        by_contra negative
        have := Int.mul_neg_of_pos_of_neg positive (not_le.mp negative)
        omega
      obtain ⟨i, rfl⟩ := Int.eq_ofNat_of_zero_le nonneg
      have quotient : (i : Int) ≤ (last - first) / step := (Int.le_ediv_iff_mul_le positive).mpr (by rw [mul_comm]; omega)
      exact ⟨i, List.mem_range.mpr (by omega), by rw [mul_comm] at apart; omega⟩
  · refine iff_of_false List.not_mem_nil ?_
    rintro ⟨low, high, -⟩
    omega

theorem nodup_multiples (positive : 0 < step) : (multiples step first last).Nodup := by
  unfold multiples
  split_ifs
  · refine List.Nodup.map (fun i j same => ?_) List.nodup_range
    have products : (i : Int) * step = j * step := by omega
    exact_mod_cast Int.eq_of_mul_eq_mul_right positive.ne' products
  · exact .nil

/-! ## The first multiple -/

/-- The multiple of `step` that division towards zero finds at `x`. -/
def truncated (step x : Int) : Int := x.tdiv step * step

theorem dvd_truncated (step x : Int) : step ∣ truncated step x := Dvd.intro_left _ rfl

theorem truncated_add_tmod (step x : Int) : truncated step x + x.tmod step = x := by
  rw [truncated, mul_comm]
  exact Int.mul_tdiv_add_tmod x step

theorem abs_tmod_lt (positive : 0 < step) (x : Int) : -step < x.tmod step ∧ x.tmod step < step := by
  have below := Int.tmod_lt_of_pos x positive
  have above := Int.tmod_lt_of_pos (-x) positive
  rw [Int.neg_tmod] at above
  omega

/-- Different multiples are at least a step apart. -/
theorem add_le_of_lt {v w : Int} (isMultiple : step ∣ v) (isMultiple' : step ∣ w) (less : v < w) : v + step ≤ w := by
  have apart := Int.le_of_dvd (by omega) (Int.dvd_sub isMultiple' isMultiple)
  omega

/-- The multiple of a number is below it unless the number is negative and no multiple itself. -/
theorem truncated_le_iff {x : Int} : truncated step x ≤ x ↔ 0 ≤ x.tmod step := by
  have sum := truncated_add_tmod step x
  omega

/-- The interval of a length from a multiple on has the number exactly when the multiple is the
one of the number, if that lies below it. -/
theorem eq_truncated_iff {x w : Int} (positive : 0 < step) (below : 0 ≤ x.tmod step) (isMultiple : step ∣ w) :
    w = truncated step x ↔ w ≤ x ∧ x < w + step := by
  have sum := truncated_add_tmod step x
  have small := abs_tmod_lt positive x
  constructor
  · rintro rfl
    omega
  · rintro ⟨low, high⟩
    rcases lt_trichotomy w (truncated step x) with less | same | greater
    · have := add_le_of_lt isMultiple (dvd_truncated step x) less
      omega
    · exact same
    · have := add_le_of_lt (dvd_truncated step x) isMultiple greater
      omega

/-- **From the multiple of `x` on no interval that has `x` is left out exactly when the length is
at most a step and the remainder.** -/
theorem truncated_covers_iff {x size : Int} (positive : 0 < step) :
    (∀ w, step ∣ w → w ≤ x → x < w + size → truncated step x ≤ w) ↔ size ≤ step + x.tmod step := by
  have sum := truncated_add_tmod step x
  have small := abs_tmod_lt positive x
  constructor
  · intro covers
    by_contra longer
    have earlier := covers (truncated step x - step) (Int.dvd_sub (dvd_truncated step x) (Int.dvd_refl step)) (by omega) (by omega)
    omega
  · intro short w isMultiple low high
    by_contra less
    have := add_le_of_lt isMultiple (dvd_truncated step x) (not_le.mp less)
    omega

/-- **From the multiple of `x - size + step` on no interval that has `x` is left out exactly when
the division does not round up, or when it is no interval that has `x` anyway.** -/
theorem truncated_shift_covers_iff {x size : Int} (positive : 0 < step) :
    (∀ w, step ∣ w → w ≤ x → x < w + size → truncated step (x - size + step) ≤ w) ↔
      0 ≤ (x - size + step).tmod step ∨ x < truncated step (x - size + step) - step := by
  have sum := truncated_add_tmod step (x - size + step)
  have small := abs_tmod_lt positive (x - size + step)
  have isMultiple := dvd_truncated step (x - size + step)
  have before : step ∣ truncated step (x - size + step) - step := Int.dvd_sub isMultiple (Int.dvd_refl step)
  constructor
  · intro covers
    by_contra neither
    have earlier := covers _ before (by omega) (by omega)
    omega
  · intro either w isMultiple' low high
    by_contra less
    have left := add_le_of_lt isMultiple' isMultiple (not_le.mp less)
    obtain down | outside := either
    · omega
    · have := add_le_of_lt isMultiple' before (by omega)
      omega

end StreamHouse.Lib.Multiples
