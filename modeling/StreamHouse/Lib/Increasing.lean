import Mathlib.Data.List.Basic
import Mathlib.Order.Lattice

/-!
# Strictly increasing lists

A queue whose elements are numbered in the order in which they came. What is taken from it is a block:
its elements are all before the others.
-/

namespace StreamHouse.Lib.Increasing

open List

variable {α : Type*} {l l' block : List α}

/-- Every element of the one list is below all of the other. -/
def Below [LT α] (l l' : List α) : Prop := ∀ x ∈ l, ∀ y ∈ l', x < y

/-- The least elements stand first. -/
theorem eq_append_of_below [LinearOrder α] (blockIncreasing : block.Pairwise (· < ·)) (increasing : l.Pairwise (· < ·)) (inside : ∀ x ∈ block, x ∈ l)
    (below : ∀ x ∈ block, ∀ y ∈ l, y ∉ block → x < y) : ∃ rest, l = block ++ rest := by
  induction block generalizing l with
  | nil => exact ⟨l, rfl⟩
  | cons x block ih =>
    obtain ⟨least, blockTail⟩ := pairwise_cons.mp blockIncreasing
    cases l with
    | nil => cases inside x mem_cons_self
    | cons y l =>
      obtain ⟨least', tail⟩ := pairwise_cons.mp increasing
      have same : x = y := by
        obtain same | later := mem_cons.mp (inside x mem_cons_self)
        · exact same
        · by_cases isBlock : y ∈ x :: block
          · obtain same | after := mem_cons.mp isBlock
            · exact same.symm
            · exact absurd (least y after) (lt_asymm (least' x later))
          · exact absurd (below x mem_cons_self y mem_cons_self isBlock) (lt_asymm (least' x later))
      subst same
      have insideTail : ∀ z ∈ block, z ∈ l := by
        intro z member
        obtain same | after := mem_cons.mp (inside z (mem_cons_of_mem _ member))
        · exact absurd same (least z member).ne'
        · exact after
      have belowTail : ∀ z ∈ block, ∀ w ∈ l, w ∉ block → z < w := by
        intro z member w after outside
        refine below z (mem_cons_of_mem _ member) w (mem_cons_of_mem _ after) fun isBlock => ?_
        obtain same | isBlock := mem_cons.mp isBlock
        · exact absurd same (least' w after).ne'
        · exact outside isBlock
      obtain ⟨rest, equal⟩ := ih blockTail tail insideTail belowTail
      exact ⟨rest, congrArg (cons x) equal⟩

/-- In a list that is the queue of `l` and then of `l'`, a block that `l'` has nothing of is the front of `l`. -/
theorem eq_append_of_queue {rest : List α} (equal : l ++ l' = block ++ rest) (outside : ∀ x ∈ l', x ∉ block) :
    ∃ more, l = block ++ more ∧ rest = more ++ l' := by
  obtain ⟨more, front, tail⟩ | ⟨more, front, tail⟩ := append_eq_append_iff.mp equal
  · cases more with
    | nil => exact ⟨[], by rw [front, append_nil, append_nil], by rw [tail]; rfl⟩
    | cons x more =>
      refine absurd ?_ (outside x (tail ▸ mem_cons_self))
      rw [front]
      exact mem_append_right _ mem_cons_self
  · exact ⟨more, front, tail⟩

end StreamHouse.Lib.Increasing
