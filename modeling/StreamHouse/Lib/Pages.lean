import Mathlib.Data.List.Basic
import Mathlib.Data.List.Flatten

/-!
# Scans that leave parts out, and pages

A scan puts together what it finds in the parts of a store. It may leave a part out, or look at
some of it, when there is nothing to find in the rest. A page is what a list has at a position.
-/

namespace StreamHouse.Lib.Pages

open List

variable {α β : Type*}

/-- Part by part, what is found is some of what there is. -/
theorem flatMap_eq_iff {l : List α} {found all : α → List β} (some : ∀ a ∈ l, (found a).Sublist (all a)) :
    l.flatMap found = l.flatMap all ↔ ∀ a ∈ l, found a = all a := by
  constructor
  · intro same
    induction l with
    | nil => rintro _ ⟨⟩
    | cons a l ih =>
      have someRest : ∀ b ∈ l, (found b).Sublist (all b) := fun b inside => some b (mem_cons_of_mem _ inside)
      have rest := (Sublist.flatMap_right l someRest).length_le
      rw [flatMap_cons, flatMap_cons] at same
      have first := some a mem_cons_self
      have lengths := congrArg List.length same
      rw [length_append, length_append] at lengths
      have short := first.length_le
      have head : found a = all a := first.eq_of_length (by omega)
      rw [head] at same
      intro b inside
      rcases mem_cons.mp inside with rfl | inside
      · exact head
      · exact ih someRest (append_cancel_left same) b inside
  · exact flatMap_congr

/-- A scan that keeps some of the parts. -/
theorem filter_flatMap (l : List α) (keep : α → Bool) (f : α → List β) :
    (l.filter keep).flatMap f = l.flatMap fun a => if keep a then f a else [] := by
  induction l with
  | nil => rfl
  | cons a l ih =>
    rw [filter_cons, flatMap_cons]
    cases keep a with
    | true =>
      rw [if_pos rfl, if_pos rfl, flatMap_cons, ih]
    | false =>
      rw [if_neg Bool.false_ne_true, if_neg Bool.false_ne_true, ih, nil_append]

/-- Nothing is lost where there is nothing in the parts that are left out. -/
theorem filter_flatMap_eq_iff {l : List α} {keep : α → Bool} {f : α → List β} :
    (l.filter keep).flatMap f = l.flatMap f ↔ ∀ a ∈ l, keep a = false → f a = [] := by
  rw [filter_flatMap]
  have some : ∀ a ∈ l, (if keep a = true then f a else []).Sublist (f a) := by
    intro a _
    split_ifs
    · exact Sublist.refl _
    · exact nil_sublist _
  rw [flatMap_eq_iff some]
  apply forall₂_congr
  intro a _
  cases keep a with
  | true => simp
  | false => simp [eq_comm]

/-! ## Pages -/

/-- The `n` elements from position `k` on. -/
def page (k n : Nat) (l : List α) : List α := (l.drop k).take n

@[simp] theorem page_zero (k : Nat) (l : List α) : page k 0 l = [] := take_zero

/-- **Pages one behind the other make up the list.** -/
theorem flatMap_page (n j : Nat) (l : List α) : ((List.range j).flatMap fun i => page (i * n) n l) = l.take (j * n) := by
  induction j with
  | zero => rw [Nat.zero_mul]; rfl
  | succ j ih =>
    rw [range_succ, flatMap_append, ih, flatMap_singleton, Nat.add_mul, Nat.one_mul, take_add]
    rfl

/-- A page of at least one element is right where one was asked for, or there is none. -/
theorem page_max_one_iff {k n : Nat} {l : List α} : page k (max 1 n) l = page k n l ↔ n ≠ 0 ∨ l.length ≤ k := by
  rcases Nat.eq_zero_or_pos n with rfl | positive
  · rw [page_zero, page, take_eq_nil_iff, drop_eq_nil_iff]
    simp
  · rw [Nat.max_eq_right positive]
    exact iff_of_true rfl (Or.inl (Nat.ne_of_gt positive))

end StreamHouse.Lib.Pages
