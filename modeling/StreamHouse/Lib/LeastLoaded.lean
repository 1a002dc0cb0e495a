import Mathlib.Algebra.BigOperators.Group.Finset.Piecewise
import Mathlib.Algebra.Group.Action.Defs
import Mathlib.Algebra.Order.BigOperators.Group.Finset
import Mathlib.Data.Prod.Lex

/-!
# To the place with the smallest load

Items are dealt out one after another, each to a place whose counted load is the smallest, of those
the least. The counts have `w` bits. As long as they can take all items, the loads of two places
never differ by more than one.
-/

namespace StreamHouse.Lib

open List

variable {ι : Type*} [LinearOrder ι] (places : List ι) (some_place : places ≠ [])

/-- The place with the smallest load, and of those the least. -/
def leastLoaded (loads : ι → Nat) : ι :=
  (places.argmin fun place => toLex (loads place, place)).get
    (Option.isSome_iff_ne_none.mpr fun none => some_place (argmin_eq_none.mp none))

/-- Each of `n` items goes to the place with the smallest load, which is then counted. -/
def dealLeast (w : Nat) : (ι → Nat) → Nat → List ι
  | _, 0 => []
  | loads, n + 1 =>
    let best := leastLoaded places some_place loads
    best :: dealLeast w (Function.update loads best ((loads best + 1) % 2 ^ w)) n

variable {places some_place}

theorem leastLoaded_mem (loads : ι → Nat) : leastLoaded places some_place loads ∈ places :=
  argmin_mem (Option.get_mem _)

theorem leastLoaded_le {loads : ι → Nat} {place : ι} (there : place ∈ places) :
    loads (leastLoaded places some_place loads) ≤ loads place := by
  have least := le_of_mem_argmin there (Option.get_mem (Option.isSome_iff_ne_none.mpr fun none =>
    some_place (argmin_eq_none.mp none)) : leastLoaded places some_place loads ∈ _)
  rcases Prod.Lex.toLex_le_toLex.mp least with less | ⟨same, -⟩
  · exact less.le
  · exact same.le

@[simp] theorem dealLeast_length (w : Nat) (loads : ι → Nat) (n : Nat) : (dealLeast places some_place w loads n).length = n := by
  induction n generalizing loads with
  | zero => rfl
  | succ n ih => rw [dealLeast, length_cons, ih]

theorem mem_of_mem_dealLeast {w : Nat} {loads : ι → Nat} {n : Nat} {place : ι} (dealt : place ∈ dealLeast places some_place w loads n) :
    place ∈ places := by
  induction n generalizing loads with
  | zero => cases dealt
  | succ n ih =>
    rcases mem_cons.mp dealt with rfl | later
    · exact leastLoaded_mem loads
    · exact ih later

/-- **The loads stay even.** -/
theorem dealLeast_even {w : Nat} (distinct : places.Nodup) {loads : ι → Nat} {n : Nat}
    (even : ∀ a ∈ places, ∀ b ∈ places, loads a ≤ loads b + 1)
    (fits : ∑ place ∈ places.toFinset, loads place + n ≤ places.length * (2 ^ w - 1)) :
    ∀ a ∈ places, ∀ b ∈ places,
      loads a + (dealLeast places some_place w loads n).count a ≤ loads b + (dealLeast places some_place w loads n).count b + 1 := by
  induction n generalizing loads with
  | zero => exact even
  | succ n ih =>
    set best := leastLoaded places some_place loads with isBest
    have there : best ∈ places := leastLoaded_mem loads
    have least : ∀ place ∈ places, loads best ≤ loads place := fun _ here => leastLoaded_le here
    -- the smallest load is below the average, and so below the largest that can be counted
    have small : loads best < 2 ^ w - 1 := by
      have average : places.toFinset.card * loads best ≤ ∑ place ∈ places.toFinset, loads place := by
        have each := Finset.card_nsmul_le_sum places.toFinset loads _ fun place here => least place (mem_toFinset.mp here)
        rwa [smul_eq_mul] at each
      rw [toFinset_card_of_nodup distinct] at average
      exact Nat.lt_of_mul_lt_mul_left (show places.length * loads best < places.length * (2 ^ w - 1) by omega)
    have counted : (loads best + 1) % 2 ^ w = loads best + 1 := Nat.mod_eq_of_lt (by omega)
    set next := Function.update loads best (loads best + 1) with isNext
    have others : ∀ place, place ≠ best → next place = loads place := fun place other => Function.update_of_ne other _ _
    have itself : next best = loads best + 1 := Function.update_self _ _ _
    have evenNext : ∀ a ∈ places, ∀ b ∈ places, next a ≤ next b + 1 := by
      intro a hereA b hereB
      have before := even a hereA b hereB
      have leastB := least b hereB
      have evenBest := even a hereA best there
      by_cases isA : a = best <;> by_cases isB : b = best
      · rw [isA, isB]
        omega
      · rw [isA, itself, others b isB]
        omega
      · rw [isB, itself, others a isA]
        omega
      · rwa [others a isA, others b isB]
    have fitsNext : ∑ place ∈ places.toFinset, next place + n ≤ places.length * (2 ^ w - 1) := by
      have moved := Finset.sum_update_of_mem (mem_toFinset.mpr there) loads (loads best + 1)
      have whole := Finset.add_sum_erase _ loads (mem_toFinset.mpr there)
      rw [isNext, moved, Finset.sdiff_singleton_eq_erase]
      omega
    intro a hereA b hereB
    have step := ih evenNext fitsNext a hereA b hereB
    rw [dealLeast, ← isBest, counted, ← isNext]
    by_cases isA : a = best <;> by_cases isB : b = best
    · subst isA isB
      omega
    · rw [isA, itself, others b isB] at step
      rw [isA, count_cons_self, count_cons_of_ne (Ne.symm isB)]
      omega
    · rw [isB, itself, others a isA] at step
      rw [isB, count_cons_self, count_cons_of_ne (Ne.symm isA)]
      omega
    · rw [others a isA, others b isB] at step
      rwa [count_cons_of_ne (Ne.symm isA), count_cons_of_ne (Ne.symm isB)]

end StreamHouse.Lib
