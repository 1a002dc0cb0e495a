import Mathlib.Data.Int.Log
import Mathlib.Tactic.Linarith
import Mathlib.Tactic.Ring
import Mathlib.Tactic.NormNum

/-!
# Rounding to the nearest binary number

A number is rounded to a significand of `p` bits times a power of two whose exponent is at
least `least`. The nearest one is taken, and of two equally near the one with the even
significand.
-/

namespace StreamHouse.Lib.Rounding

variable {K : Type*} [Field K] [LinearOrder K] [IsStrictOrderedRing K] [FloorSemiring K]

/-- The nearest natural number; halfway, the even one. -/
def halfEven (x : K) : ℕ :=
  let n := ⌊x⌋₊
  if 2 * x < 2 * n + 1 then n else if 2 * n + 1 < 2 * x then n + 1 else n + n % 2

omit [IsStrictOrderedRing K] in
theorem floor_le_halfEven (x : K) : ⌊x⌋₊ ≤ halfEven x := by
  unfold halfEven
  dsimp only
  split_ifs <;> omega

omit [IsStrictOrderedRing K] in
theorem halfEven_le_floor_succ (x : K) : halfEven x ≤ ⌊x⌋₊ + 1 := by
  unfold halfEven
  dsimp only
  split_ifs <;> omega

theorem halfEven_mono {x y : K} (le : x ≤ y) : halfEven x ≤ halfEven y := by
  have floors := Nat.floor_mono le
  obtain less | same := floors.lt_or_eq
  · have low := halfEven_le_floor_succ x
    have high := floor_le_halfEven y
    omega
  · unfold halfEven
    rw [same]
    dsimp only
    -- with one floor the three cases come in the order of `x`
    split_ifs with low high low' high' <;> first | omega | (exfalso; linarith)

@[simp] theorem halfEven_natCast (n : ℕ) : halfEven (n : K) = n := by
  unfold halfEven
  rw [Nat.floor_natCast]
  exact if_pos (by linarith)

theorem halfEven_le {x : K} {n : ℕ} (le : x ≤ n) : halfEven x ≤ n := by
  rw [← halfEven_natCast (K := K) n]
  exact halfEven_mono le

theorem le_halfEven {x : K} {n : ℕ} (le : n ≤ x) : n ≤ halfEven x := by
  rw [← halfEven_natCast (K := K) n]
  exact halfEven_mono le

/-- Below the middle of two neighbours the lower one is not passed. -/
theorem halfEven_le_of_two_mul_lt {x : K} {n : ℕ} (less : 2 * x < 2 * n + 1) : halfEven x ≤ n := by
  have floor : ⌊x⌋₊ < n + 1 := by
    rw [Nat.floor_lt' (by omega)]
    push_cast
    linarith
  obtain below | same := (Nat.lt_succ_iff.mp floor).lt_or_eq
  · have high := halfEven_le_floor_succ x
    omega
  · unfold halfEven
    rw [same, if_pos less]

/-- The number of a significand and an exponent. -/
def value (f : ℕ × ℤ) : K := f.1 * 2 ^ f.2

/-- The exponent that leaves `p` bits of `x`, unless that is below `least`. -/
def exponent (p : ℕ) (least : ℤ) (x : K) : ℤ := max (Int.log 2 x + 1 - p) least

/-- The number of `p` bits nearest to `x`. -/
def nearest (p : ℕ) (least : ℤ) (x : K) : ℕ × ℤ :=
  let e := exponent p least x
  let s := halfEven (x / 2 ^ e)
  if s = 2 ^ p then (2 ^ (p - 1), e + 1) else (s, e)

section Exponent

variable {p : ℕ} {least : ℤ} {x y : K}

theorem two_zpow_pos (e : ℤ) : (0 : K) < 2 ^ e := zpow_pos two_pos e

theorem lt_zpow_exponent (p : ℕ) (least : ℤ) (x : K) : x < 2 ^ (exponent p least x + p) := by
  have bound : Int.log 2 x + 1 ≤ exponent p least x + p := by
    have := le_max_left (Int.log 2 x + 1 - p) least
    rw [exponent]
    omega
  calc x < 2 ^ (Int.log 2 x + 1) := by exact_mod_cast Int.lt_zpow_succ_log_self one_lt_two x
    _ ≤ 2 ^ (exponent p least x + p) := zpow_le_zpow_right₀ one_le_two bound

theorem exponent_le {e : ℤ} (above : least ≤ e) (positive : 0 < x) (less : x < 2 ^ (e + p)) : exponent p least x ≤ e := by
  have log : Int.log 2 x < e + p := (Int.lt_zpow_iff_log_lt one_lt_two positive).mp (by exact_mod_cast less)
  exact max_le (by omega) above

theorem exponent_mono (positive : 0 < x) (le : x ≤ y) : exponent p least x ≤ exponent p least y := by
  have log := Int.log_mono_right (b := 2) positive le
  exact max_le_max (by omega) le_rfl

theorem significand_le (p : ℕ) (least : ℤ) (x : K) : halfEven (x / 2 ^ exponent p least x) ≤ 2 ^ p := by
  apply halfEven_le
  rw [div_le_iff₀ (two_zpow_pos _), Nat.cast_pow, Nat.cast_ofNat, ← zpow_natCast, ← zpow_add₀ two_ne_zero, add_comm]
  exact (lt_zpow_exponent p least x).le

theorem value_nearest (bits : 0 < p) (x : K) :
    value (nearest p least x) = (halfEven (x / 2 ^ exponent p least x) : K) * 2 ^ exponent p least x := by
  unfold nearest
  dsimp only
  split_ifs with carry
  · have two : (2 : K) ≠ 0 := two_pos.ne'
    rw [carry, value]
    push_cast
    rw [zpow_add₀ two, zpow_one]
    obtain ⟨q, rfl⟩ : ∃ q, p = q + 1 := ⟨p - 1, by omega⟩
    rw [Nat.add_sub_cancel]
    ring
  · rfl

theorem value_zero (bits : 0 < p) : value (nearest p least (0 : K)) = (0 : K) := by
  have none : halfEven (0 : K) = 0 := by exact_mod_cast halfEven_natCast (K := K) 0
  rw [value_nearest bits, zero_div, none, Nat.cast_zero, zero_mul]

theorem value_nonneg (f : ℕ × ℤ) : (0 : K) ≤ value f := mul_nonneg (Nat.cast_nonneg _) (two_zpow_pos _).le

/-- Rounding keeps the order of two numbers. -/
theorem nearest_mono (bits : 0 < p) (nonneg : 0 ≤ x) (le : x ≤ y) :
    (value (nearest p least x) : K) ≤ value (nearest p least y) := by
  obtain zero | positive := nonneg.eq_or_lt
  · rw [← zero, value_zero bits]
    exact value_nonneg _
  rw [value_nearest bits, value_nearest bits]
  have exponents : exponent p least x ≤ exponent p least y := exponent_mono positive le
  obtain less | same := exponents.lt_or_eq
  · -- a larger exponent is that of `log y`, and the powers of two between `x` and `y` are kept
    have top : exponent p least y = Int.log 2 y + 1 - p := by
      have floor : least ≤ exponent p least x := le_max_right _ _
      obtain log | bottom := max_choice (Int.log 2 y + 1 - p) least
      · exact log
      · rw [show exponent p least y = least from bottom] at less
        omega
    obtain ⟨q, rfl⟩ : ∃ q, p = q + 1 := ⟨p - 1, by omega⟩
    have high : 2 ^ q ≤ halfEven (y / 2 ^ exponent (q + 1) least y) := by
      apply le_halfEven
      rw [le_div_iff₀ (two_zpow_pos _), Nat.cast_pow, Nat.cast_ofNat, ← zpow_natCast, ← zpow_add₀ two_ne_zero]
      have log : (q : ℤ) + exponent (q + 1) least y = Int.log 2 y := by push_cast at top; omega
      rw [log]
      exact_mod_cast Int.zpow_log_le_self one_lt_two (positive.trans_le le)
    calc (halfEven (x / 2 ^ exponent (q + 1) least x) : K) * 2 ^ exponent (q + 1) least x
        ≤ 2 ^ (q + 1) * 2 ^ exponent (q + 1) least x :=
          mul_le_mul_of_nonneg_right (by exact_mod_cast significand_le (q + 1) least x) (two_zpow_pos _).le
      _ = 2 ^ q * 2 ^ (exponent (q + 1) least x + 1) := by rw [zpow_add₀ two_ne_zero, zpow_one]; ring
      _ ≤ 2 ^ q * 2 ^ exponent (q + 1) least y :=
          mul_le_mul_of_nonneg_left (zpow_le_zpow_right₀ one_le_two (by omega)) (by positivity)
      _ ≤ (halfEven (y / 2 ^ exponent (q + 1) least y) : K) * 2 ^ exponent (q + 1) least y :=
          mul_le_mul_of_nonneg_right (by exact_mod_cast high) (two_zpow_pos _).le
  · rw [same]
    have significands := halfEven_mono (div_le_div_of_nonneg_right le (two_zpow_pos (exponent p least y)).le)
    exact mul_le_mul_of_nonneg_right (Nat.cast_le.mpr significands) (two_zpow_pos _).le

/-- A number of `p` bits is its own nearest. -/
theorem nearest_exact (bits : 0 < p) {f : ℕ × ℤ} (fits : f.1 < 2 ^ p) (above : least ≤ f.2) :
    value (nearest p least (value f : K)) = (value f : K) := by
  obtain ⟨s, e⟩ := f
  obtain rfl | some := s.eq_zero_or_pos
  · have zero : (value (0, e) : K) = 0 := by rw [value, Nat.cast_zero, zero_mul]
    rw [zero, value_zero bits]
  have positive : (0 : K) < value (s, e) := mul_pos (Nat.cast_pos.mpr some) (two_zpow_pos e)
  have less : (value (s, e) : K) < 2 ^ (e + p) := by
    rw [add_comm, zpow_add₀ two_ne_zero, zpow_natCast]
    exact mul_lt_mul_of_pos_right (by exact_mod_cast fits) (two_zpow_pos e)
  obtain ⟨d, apart⟩ := Int.eq_ofNat_of_zero_le (sub_nonneg.mpr (exponent_le above positive less))
  have shifted : (value (s, e) : K) / 2 ^ exponent p least (value (s, e) : K) = (s * 2 ^ d : ℕ) := by
    rw [div_eq_iff (two_zpow_pos _).ne', Nat.cast_mul, Nat.cast_pow, Nat.cast_ofNat, mul_assoc, ← zpow_natCast, ← zpow_add₀ two_ne_zero,
      ← apart, sub_add_cancel, value]
  rw [value_nearest bits, shifted, halfEven_natCast, ← shifted, div_mul_cancel₀ _ (two_zpow_pos _).ne']

theorem nearest_significand_lt (bits : 0 < p) (x : K) : (nearest p least x).1 < 2 ^ p := by
  unfold nearest
  dsimp only
  split_ifs with carry
  · exact Nat.pow_lt_pow_right one_lt_two (by omega)
  · exact lt_of_le_of_ne (significand_le p least x) carry

omit [IsStrictOrderedRing K] in
theorem le_nearest_exponent (x : K) : least ≤ (nearest p least x).2 := by
  have above : least ≤ exponent p least x := le_max_right _ _
  unfold nearest
  dsimp only
  split_ifs <;> dsimp only <;> omega

/-- A number that rounds to at most `p` bits at the exponent `top` has no larger exponent. -/
theorem nearest_exponent_le {top : ℤ} (above : least ≤ top) (origin : 1 - p ≤ top) (less : 2 * x < (2 * 2 ^ p - 1) * 2 ^ top) :
    (nearest p least x).2 ≤ top := by
  obtain negative | positive := le_or_gt x 0
  · have zero : halfEven (x / 2 ^ exponent p least x) = 0 := by
      have low : x / 2 ^ exponent p least x ≤ (0 : ℕ) := by
        rw [Nat.cast_zero]
        exact div_nonpos_of_nonpos_of_nonneg negative (two_zpow_pos _).le
      exact Nat.le_zero.mp (halfEven_le low)
    unfold nearest
    dsimp only
    rw [zero, if_neg (Nat.two_pow_pos p).ne, exponent, Int.log_of_right_le_zero 2 negative]
    exact max_le (by omega) above
  have below : x < 2 ^ (top + p) := by
    rw [add_comm, zpow_add₀ two_ne_zero, zpow_natCast]
    linarith [two_zpow_pos (K := K) top]
  have le := exponent_le above positive below
  unfold nearest
  dsimp only
  split_ifs with carry
  · refine Int.add_one_le_of_lt (lt_of_le_of_ne le fun same => ?_)
    -- at `top` itself the significand does not carry
    rw [same] at carry
    have half : 2 * (x / 2 ^ top) < 2 * (2 ^ p - 1 : ℕ) + 1 := by
      rw [← mul_div_assoc, div_lt_iff₀ (two_zpow_pos top), Nat.cast_sub Nat.one_le_two_pow, Nat.cast_pow]
      push_cast
      linarith
    have small := halfEven_le_of_two_mul_lt half
    have := Nat.two_pow_pos p
    omega
  · exact le

end Exponent

/-- The nearest number of `p` bits, on either side of zero. -/
def roundTo (p : ℕ) (least : ℤ) (x : K) : K :=
  if 0 ≤ x then value (nearest p least x) else -value (nearest p least (-x))

omit [IsStrictOrderedRing K] in
theorem roundTo_of_nonneg {x : K} (p : ℕ) (least : ℤ) (nonneg : 0 ≤ x) : roundTo p least x = value (nearest p least x) := if_pos nonneg

theorem roundTo_neg {x : K} {p : ℕ} (bits : 0 < p) (least : ℤ) (nonneg : 0 ≤ x) :
    roundTo p least (-x) = -value (nearest p least x) := by
  obtain rfl | positive := nonneg.eq_or_lt
  · rw [neg_zero, roundTo_of_nonneg p least le_rfl, value_zero bits, neg_zero]
  · rw [roundTo, if_neg (by linarith), neg_neg]

theorem roundTo_mono {p : ℕ} {least : ℤ} {x y : K} (bits : 0 < p) (le : x ≤ y) : roundTo p least x ≤ roundTo p least y := by
  obtain nonneg | negative := le_or_gt 0 x
  · rw [roundTo_of_nonneg p least nonneg, roundTo_of_nonneg p least (nonneg.trans le)]
    exact nearest_mono bits nonneg le
  · rw [roundTo, if_neg negative.not_ge]
    obtain nonneg' | negative' := le_or_gt 0 y
    · rw [roundTo_of_nonneg p least nonneg']
      linarith [value_nonneg (K := K) (nearest p least (-x)), value_nonneg (K := K) (nearest p least y)]
    · rw [roundTo, if_neg negative'.not_ge, neg_le_neg_iff]
      exact nearest_mono bits (by linarith) (by linarith)

end StreamHouse.Lib.Rounding
