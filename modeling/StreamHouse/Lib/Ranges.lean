import Mathlib.Data.List.Basic

/-!
# Ranges of a list in order

The parts that a list in order falls into, when it is cut by a measure of its items.
-/

namespace StreamHouse.Lib

open List

variable {α : Type*}

/-- Two kinds of items, of which the first all come before the second, are taken apart. -/
theorem filter_append_filter {p q : α → Bool} {l : List α} (apart : ∀ a ∈ l, p a = true → q a = false)
    (before : l.Pairwise fun a b => q a = true → p b = false) : l.filter p ++ l.filter q = l.filter fun a => p a || q a := by
  induction l with
  | nil => rfl
  | cons a l ih =>
    obtain ⟨first, rest⟩ := pairwise_cons.mp before
    have later := ih (fun b inside => apart b (mem_cons_of_mem a inside)) rest
    cases isQ : q a with
    | false =>
      cases isP : p a with
      | false => rw [filter_cons_of_neg (by simp [isP]), filter_cons_of_neg (by simp [isQ]),
          filter_cons_of_neg (by simp [isP, isQ]), later]
      | true => rw [filter_cons_of_pos isP, filter_cons_of_neg (by simp [isQ]),
          filter_cons_of_pos (by simp [isP]), cons_append, later]
    | true =>
      have none : l.filter p = [] := filter_eq_nil_iff.mpr fun b inside => by simp [first b inside isQ]
      have isP : p a = false := by
        cases isP : p a with
        | false => rfl
        | true =>
          have not := apart a mem_cons_self isP
          rw [isQ] at not
          cases not
      rw [none, nil_append] at later
      rw [filter_cons_of_neg (by simp [isP]), none, nil_append, filter_cons_of_pos isQ,
        filter_cons_of_pos (by simp [isQ]), later]

/-- Of items with ascending measures, those of the first kind are below `middle` and those of the second are not. -/
theorem filter_append_of_lt_of_le (f : α → Nat) {l : List α} (ascending : l.Pairwise fun a b => f a < f b) (middle : Nat) {p q : α → Bool}
    (below : ∀ a, p a = true → f a < middle) (above : ∀ a, q a = true → middle ≤ f a) :
    l.filter p ++ l.filter q = l.filter fun a => p a || q a := by
  refine filter_append_filter (fun a _ isFirst => ?_) (ascending.imp fun {a b} less isSecond => ?_)
  · exact Bool.eq_false_iff.mpr fun isSecond => Nat.not_lt.mpr (above a isSecond) (below a isFirst)
  · exact Bool.eq_false_iff.mpr fun isFirst => by
      have := above a isSecond
      have := below b isFirst
      omega

/-- Of items with ascending measures, those from `low` on and below `middle`, then the others below `high`. -/
theorem filter_range_append (f : α → Nat) {l : List α} (ascending : l.Pairwise fun a b => f a < f b) {low middle high : Nat}
    (least : low ≤ middle) (most : middle ≤ high) :
    (l.filter fun a => decide (low ≤ f a) && decide (f a < middle)) ++ (l.filter fun a => decide (middle ≤ f a) && decide (f a < high)) =
      l.filter fun a => decide (low ≤ f a) && decide (f a < high) := by
  rw [filter_append_of_lt_of_le f ascending middle (by simp) (by simp +contextual)]
  congr
  grind

/-- Those below `middle` come first. -/
theorem filter_range_prefix (f : α → Nat) {l : List α} (ascending : l.Pairwise fun a b => f a < f b) (low middle : Nat) :
    (l.filter fun a => decide (low ≤ f a) && decide (f a < middle)) <+: l.filter fun a => decide (low ≤ f a) := by
  refine ⟨l.filter fun a => decide (low ≤ f a) && decide (middle ≤ f a), ?_⟩
  rw [filter_append_of_lt_of_le f ascending middle (by simp) (by simp)]
  congr
  grind

end StreamHouse.Lib
