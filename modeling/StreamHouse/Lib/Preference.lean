import Mathlib.Order.Lattice

/-!
# Preference by a rank

A holder keeps one of the values that it is offered: the one it has, unless the offered one ranks
higher. Values of equal rank are not told apart, so the first of them stays.
-/

namespace StreamHouse.Lib.Preference

open List

variable {α ρ : Type*} [LinearOrder ρ] (rank : α → ρ)

/-- The first value, unless the second ranks higher. -/
def prefer (a b : α) : α := if rank b ≤ rank a then a else b

/-- What is held after an offer. -/
def offer (held : Option α) (b : α) : Option α := some (held.elim b fun a => prefer rank a b)

/-- No value of the list ranks higher. -/
def Greatest (l : List α) (a : α) : Prop := a ∈ l ∧ ∀ b ∈ l, rank b ≤ rank a

variable {rank}

theorem rank_prefer (a b : α) : rank a ≤ rank (prefer rank a b) ∧ rank b ≤ rank (prefer rank a b) := by
  unfold prefer
  split_ifs with least
  · exact ⟨le_rfl, least⟩
  · exact ⟨(not_le.mp least).le, le_rfl⟩

theorem prefer_eq_or (a b : α) : prefer rank a b = a ∨ prefer rank a b = b := by
  unfold prefer
  split_ifs
  · exact .inl rfl
  · exact .inr rfl

/-- One of the values is held at the end, and none of them ranks higher. -/
theorem foldl_offer {offers : List α} {held : Option α} {last : α} (final : offers.foldl (offer rank) held = some last) :
    (held = some last ∨ last ∈ offers) ∧ (∀ a ∈ held, rank a ≤ rank last) ∧ ∀ b ∈ offers, rank b ≤ rank last := by
  induction offers generalizing held with
  | nil => exact ⟨.inl final, fun a isHeld => by rw [Option.some.inj (final.symm.trans isHeld)], fun b inside => by cases inside⟩
  | cons b offers ih =>
    obtain ⟨from', above, rest⟩ := ih final
    have kept := above _ rfl
    cases held with
    | none =>
      refine ⟨.inr ?_, (by rintro a ⟨⟩), forall_mem_cons.mpr ⟨kept, rest⟩⟩
      obtain first | later := from'
      · rw [← Option.some.inj first]
        exact mem_cons_self
      · exact mem_cons_of_mem _ later
    | some a =>
      obtain ⟨ofFirst, ofSecond⟩ := @rank_prefer _ _ _ rank a b
      refine ⟨?_, fun c isHeld => ?_, forall_mem_cons.mpr ⟨ofSecond.trans kept, rest⟩⟩
      · obtain first | later := from'
        · have final : prefer rank a b = last := Option.some.inj first
          obtain same | same := @prefer_eq_or _ _ _ rank a b
          · exact .inl (congrArg some (same.symm.trans final))
          · right
            rw [← final, same]
            exact mem_cons_self
        · exact .inr (mem_cons_of_mem _ later)
      · rw [← Option.some.inj isHeld]
        exact ofFirst.trans kept

/-- An offer leaves something to hold. -/
theorem foldl_offer_isSome {offers : List α} {held : Option α} (some : offers ≠ [] ∨ held.isSome = true) :
    (offers.foldl (offer rank) held).isSome = true := by
  induction offers generalizing held with
  | nil => exact some.resolve_left fun no => no rfl
  | cons b offers ih => exact ih (.inr rfl)

/-- A value that ranks as high as all offers stays. -/
theorem foldl_offer_of_greatest {offers : List α} {a : α} (greatest : ∀ b ∈ offers, rank b ≤ rank a) :
    offers.foldl (offer rank) (some a) = some a := by
  induction offers with
  | nil => rfl
  | cons b offers ih =>
    have stays : offer rank (some a) b = some a := congrArg some (if_pos (greatest b mem_cons_self))
    rw [foldl_cons, stays, ih fun c inside => greatest c (mem_cons_of_mem _ inside)]

end StreamHouse.Lib.Preference
