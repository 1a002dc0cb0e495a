import Mathlib.Data.Int.CardIntervalMod

/-!
# Dealing a list out in turn

The elements of a list go to `n` places in turn: the `i`th to place `i % n`. The shares
of two places are disjoint, together they are the list, and none is longer than another
by more than one. Sorted lists of the same elements are equal, so whoever deals a sorted
list deals the same way.
-/

namespace StreamHouse.Lib

open List

variable {α : Type*}

/-- What place `j` of `n` gets of `xs`. -/
def share (xs : List α) (n j : Nat) : List α := (xs.zipIdx.filter fun p => p.2 % n = j).map Prod.fst

theorem mem_share {xs : List α} {n j : Nat} {x : α} : x ∈ share xs n j ↔ ∃ i, xs[i]? = some x ∧ i % n = j := by
  simp only [share, mem_map, mem_filter, decide_eq_true_eq, Prod.exists, mk_mem_zipIdx_iff_getElem?,
    exists_and_right, exists_eq_right]

/-- The places cover the list. -/
theorem exists_mem_share {xs : List α} {n : Nat} (places : 0 < n) {x : α} : (∃ j < n, x ∈ share xs n j) ↔ x ∈ xs := by
  constructor
  · rintro ⟨j, -, member⟩
    obtain ⟨i, here, -⟩ := mem_share.1 member
    exact mem_of_getElem? here
  · intro member
    obtain ⟨i, here⟩ := mem_iff_getElem?.1 member
    exact ⟨i % n, Nat.mod_lt i places, mem_share.2 ⟨i, here, rfl⟩⟩

/-- An element of a list without repetitions is in one share only. -/
theorem share_unique {xs : List α} (distinct : xs.Nodup) {n j j' : Nat} {x : α} (one : x ∈ share xs n j) (two : x ∈ share xs n j') :
    j = j' := by
  obtain ⟨i, here, rfl⟩ := mem_share.1 one
  obtain ⟨i', here', rfl⟩ := mem_share.1 two
  obtain ⟨inside, -⟩ := List.getElem?_eq_some_iff.1 here
  rw [(getElem?_inj inside distinct).1 (here.trans here'.symm)]

theorem share_nodup {xs : List α} (distinct : xs.Nodup) (n j : Nat) : (share xs n j).Nodup := by
  have dealt : (share xs n j).Sublist (xs.zipIdx.map Prod.fst) := filter_sublist.map _
  rw [zipIdx_map_fst] at dealt
  exact distinct.sublist dealt

theorem share_length (xs : List α) {n j : Nat} (place : j < n) :
    (share xs n j).length = xs.length / n + if j < xs.length % n then 1 else 0 := by
  have places : 0 < n := Nat.lt_of_le_of_lt (Nat.zero_le j) place
  have positions : ((xs.zipIdx.filter fun p => p.2 % n = j).map Prod.snd) = (List.range xs.length).filter fun i => i % n = j := by
    rw [range_eq_range', ← zipIdx_map_snd, filter_map]
    rfl
  calc (share xs n j).length
      = ((List.range xs.length).filter fun i => i % n = j).length := by
        rw [← positions, share, length_map, length_map]
    _ = xs.length.count fun i => i ≡ j [MOD n] := by
        rw [Nat.count_eq_card_filter_range, Finset.card, Finset.filter_val, Finset.range_val, Multiset.range, Multiset.filter_coe,
          Multiset.coe_card]
        simp only [Nat.ModEq, Nat.mod_eq_of_lt place]
    _ = xs.length / n + if j < xs.length % n then 1 else 0 := by
        rw [Nat.count_modEq_card xs.length places j, Nat.mod_eq_of_lt place]

/-- **The shares are even.** -/
theorem share_length_le (xs : List α) {n j j' : Nat} (place : j < n) (place' : j' < n) :
    (share xs n j).length ≤ (share xs n j').length + 1 := by
  rw [share_length xs place, share_length xs place']
  split_ifs <;> omega

/-- Sorting forgets the order a list came in. -/
theorem insertionSort_eq_of_perm (r : α → α → Prop) [DecidableRel r] [Std.Total r] [IsTrans α r] [Std.Antisymm r] {xs ys : List α}
    (same : xs.Perm ys) : xs.insertionSort r = ys.insertionSort r := by
  apply Perm.eq_of_pairwise' (pairwise_insertionSort r xs) (pairwise_insertionSort r ys)
  exact (perm_insertionSort r xs).trans (same.trans (perm_insertionSort r ys).symm)

end StreamHouse.Lib
