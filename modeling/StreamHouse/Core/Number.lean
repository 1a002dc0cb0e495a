import StreamHouse.Core.Json
import StreamHouse.Lib.Rounding
import Mathlib.Data.Rat.Floor

/-!
# The values of numbers

A JSON number has a rational value. `Number::as_f64` rounds it to 53 bits, which keeps the
order of two numbers but not their difference.
-/

namespace StreamHouse

open Lib Lib.Rounding List

namespace F64

def value (f : F64) : ℚ :=
  let magnitude : ℚ := Rounding.value (f.significand, f.exponent)
  if f.negative then -magnitude else magnitude

/-- Rounding to an `f64`, without a bound on the exponent. -/
def round (x : ℚ) : ℚ := roundTo 53 (-1074) x

/-- From here on a number is infinite: half a step beyond the largest `f64`. -/
def overflow : ℚ := (2 * 2 ^ 53 - 1) * 2 ^ 970

/-- The overflow in units of the largest exponent. -/
theorem two_mul_overflow : 2 * overflow = (2 * 2 ^ 53 - 1) * 2 ^ (971 : ℤ) := by
  have top : (2 : ℚ) ^ (971 : ℤ) = 2 * 2 ^ 970 := by rw [← pow_succ', ← zpow_natCast]; rfl
  rw [overflow, top, mul_left_comm]

theorem value_eq_units (f : F64) {base : Int} (le : base ≤ f.exponent) : f.value = f.units base * 2 ^ base := by
  obtain ⟨d, apart⟩ := Int.eq_ofNat_of_zero_le (sub_nonneg.mpr le)
  have scale : (2 : ℚ) ^ f.exponent = 2 ^ d * 2 ^ base := by
    rw [← zpow_natCast, ← zpow_add₀ two_ne_zero, ← apart, sub_add_cancel]
  unfold value units
  rw [apart, Int.toNat_natCast, Rounding.value, scale]
  cases f.negative with
  | false =>
    push_cast
    ring
  | true =>
    push_cast
    rw [if_pos rfl, if_pos rfl]
    ring

theorem same_iff {f g : F64} : f.same g = true ↔ f.value = g.value := by
  rw [same, value_eq_units f (min_le_left _ g.exponent), value_eq_units g (min_le_right f.exponent _)]
  rw [mul_left_inj' (zpow_pos two_pos _).ne', Int.cast_inj]
  exact decide_eq_true_iff

/-- The `f64` nearest to a number that is not negative. -/
def ofRat (x : ℚ) (finite : x < overflow) : F64 where
  negative := false
  significand := (nearest 53 (-1074) x).1
  exponent := (nearest 53 (-1074) x).2
  fits := by
    refine ⟨nearest_significand_lt (by norm_num) x, le_nearest_exponent x, nearest_exponent_le (by norm_num) (by norm_num) ?_⟩
    rw [← two_mul_overflow]
    linarith

def neg (f : F64) : F64 := { f with negative := !f.negative }

@[simp] theorem neg_value (f : F64) : f.neg.value = -f.value := by
  unfold value neg
  cases f.negative <;> simp

theorem ofRat_value {x : ℚ} (nonneg : 0 ≤ x) (finite : x < overflow) : (ofRat x finite).value = round x :=
  (roundTo_of_nonneg 53 (-1074) nonneg).symm

/-- The `f64` nearest to a number; none is an infinity. -/
def ofRational (x : ℚ) : Option F64 :=
  if finite : |x| < overflow then some { ofRat |x| finite with negative := decide (x < 0) } else none

/-- `sum` of `f64`s, from the left. An infinity stays one. -/
def sum (fs : List F64) : Option F64 :=
  fs.foldl (fun total f => total.bind fun t => ofRational (t.value + f.value)) (ofRational 0)

/-- A sum divided by a count. -/
def mean (fs : List F64) : Option F64 := (sum fs).bind fun total => ofRational (total.value / fs.length)

/-- `min_by`: of equal values the first. -/
def least : List F64 → Option F64
  | [] => none
  | f :: fs => some (fs.foldl (fun low g => if g.value < low.value then g else low) f)

/-- `max_by`: of equal values the last. -/
def greatest : List F64 → Option F64
  | [] => none
  | f :: fs => some (fs.foldl (fun high g => if g.value < high.value then high else g) f)

theorem round_mono {x y : ℚ} (le : x ≤ y) : round x ≤ round y := roundTo_mono (by norm_num) le

/-- An `f64` is not rounded. -/
theorem round_value (f : F64) : round f.value = f.value := by
  have exact : Rounding.value (nearest 53 (-1074) (Rounding.value (f.significand, f.exponent) : ℚ)) =
      (Rounding.value (f.significand, f.exponent) : ℚ) := nearest_exact (by norm_num) f.fits.1 f.fits.2.1
  have nonneg : (0 : ℚ) ≤ Rounding.value (f.significand, f.exponent) := value_nonneg _
  unfold round value
  cases f.negative with
  | false =>
    dsimp only
    rw [if_neg Bool.false_ne_true, roundTo_of_nonneg _ _ nonneg, exact]
  | true =>
    dsimp only
    rw [if_pos rfl, roundTo_neg (by norm_num) _ nonneg, exact]

/-- The largest `f64` is below the overflow. -/
theorem value_lt_overflow (f : F64) : f.value < overflow := by
  have magnitude : (Rounding.value (f.significand, f.exponent) : ℚ) < overflow := by
    calc (Rounding.value (f.significand, f.exponent) : ℚ) ≤ (2 ^ 53 - 1 : ℕ) * 2 ^ (971 : ℤ) :=
          mul_le_mul (Nat.cast_le.mpr (by have := f.fits.1; omega)) (zpow_le_zpow_right₀ one_le_two f.fits.2.2)
            (zpow_pos two_pos _).le (Nat.cast_nonneg _)
      _ < overflow := by
        have half := two_mul_overflow
        have step : (0 : ℚ) < 2 ^ (971 : ℤ) := zpow_pos two_pos _
        generalize (2 : ℚ) ^ (971 : ℤ) = u at half step ⊢
        norm_num at half ⊢
        linarith
  have nonneg : (0 : ℚ) ≤ Rounding.value (f.significand, f.exponent) := value_nonneg _
  unfold value
  cases f.negative with
  | false => exact magnitude
  | true =>
    dsimp only
    rw [if_pos rfl]
    linarith

end F64

namespace JsonNumber

def value : JsonNumber → ℚ
  | .posInt n => n.toNat
  | .negInt n => -(n.val + 1)
  | .float f => f.value

theorem lt_overflow_of_lt {n : Nat} (small : n ≤ 2 ^ 64) : (n : ℚ) < F64.overflow := by
  have scale : (2 : ℚ) ^ 11 ≤ 2 ^ 970 := pow_le_pow_right₀ one_le_two (by norm_num)
  calc (n : ℚ) ≤ 2 ^ 64 := by exact_mod_cast small
    _ < (2 * 2 ^ 53 - 1) * 2 ^ 11 := by norm_num
    _ ≤ F64.overflow := mul_le_mul_of_nonneg_left scale (by norm_num)

/-- `Number::as_f64`. -/
def asF64 : JsonNumber → F64
  | .posInt n => F64.ofRat n.toNat (lt_overflow_of_lt n.isLt.le)
  | .negInt n => (F64.ofRat (n.val + 1 : Nat) (lt_overflow_of_lt (by have := n.isLt; omega))).neg
  | .float f => f

theorem asF64_value (n : JsonNumber) : n.asF64.value = F64.round n.value := by
  cases n with
  | posInt n => exact F64.ofRat_value (Nat.cast_nonneg n.toNat) (lt_overflow_of_lt n.isLt.le)
  | negInt n =>
    rw [asF64, F64.neg_value, F64.ofRat_value (Nat.cast_nonneg _), value, F64.round, F64.round, ← Nat.cast_add_one,
      roundTo_neg (by norm_num) _ (Nat.cast_nonneg _), roundTo_of_nonneg _ _ (Nat.cast_nonneg _)]
  | float f => exact (F64.round_value f).symm

theorem asF64_mono {m n : JsonNumber} (le : m.value ≤ n.value) : m.asF64.value ≤ n.asF64.value := by
  rw [asF64_value, asF64_value]
  exact F64.round_mono le

theorem value_lt_overflow (n : JsonNumber) : n.value < F64.overflow := by
  cases n with
  | posInt n => exact lt_overflow_of_lt n.isLt.le
  | negInt n =>
    have positive : (0 : ℚ) < F64.overflow := by exact_mod_cast lt_overflow_of_lt (Nat.zero_le _)
    have : (0 : ℚ) ≤ n.val := Nat.cast_nonneg _
    rw [value]
    linarith
  | float f => exact f.value_lt_overflow

/-- Equal numbers have one value; the same value may be written as an integer and as a float. -/
theorem value_eq_of_same {m n : JsonNumber} (same : m.same n = true) : m.value = n.value := by
  cases m with
  | posInt m =>
    cases n with
    | posInt n => rw [of_decide_eq_true same]
    | negInt n => cases same
    | float g => cases same
  | negInt m =>
    cases n with
    | posInt n => cases same
    | negInt n => rw [of_decide_eq_true same]
    | float g => cases same
  | float f =>
    cases n with
    | posInt n => cases same
    | negInt n => cases same
    | float g => exact F64.same_iff.mp same

end JsonNumber

end StreamHouse
