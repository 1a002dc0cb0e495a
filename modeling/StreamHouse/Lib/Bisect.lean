import Mathlib.Order.Lattice

/-!
# Binary search

The halving loop over a range of positions. The position before the result passes the test, whatever
the test is; nothing has to be in order for it.
-/

namespace StreamHouse.Lib

def bisect (below : Nat → Bool) (left right : Nat) : Nat :=
  if left < right then
    if below ((left + right) / 2) then bisect below ((left + right) / 2 + 1) right else bisect below left ((left + right) / 2)
  else left
termination_by right - left

variable {below : Nat → Bool} {left right : Nat}

theorem bisect_le (ordered : left ≤ right) : bisect below left right ≤ right := by
  fun_induction bisect below left right with
  | case1 left right open_ passes ih => exact ih (by omega)
  | case2 left right open_ fails ih =>
    have shrunk := ih (by omega)
    omega
  | case3 left right closed => exact ordered

/-- The position before the result passes. -/
theorem below_bisect (start : 0 < left → below (left - 1) = true) :
    0 < bisect below left right → below (bisect below left right - 1) = true := by
  fun_induction bisect below left right with
  | case1 left right open_ passes ih => exact ih fun _ => passes
  | case2 left right open_ fails ih => exact ih start
  | case3 left right closed => exact start

end StreamHouse.Lib
