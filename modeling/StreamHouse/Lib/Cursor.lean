import StreamHouse.Lib.Ranges

/-!
# Reading on from a position

A reader of a log whose entries ascend in `f` takes them from `start` on and keeps as its position what
comes behind the last. The log may lose entries and get new ones later; of those between `start` and the
position that it still has, none has been passed over.
-/

namespace StreamHouse.Lib

open List

variable {α κ : Type*} {f : α → Nat} {log taken more : List α} {start position next : Nat}

/-- `taken` is what the log has had from `start` up to `position`. -/
structure Taken (f : α → Nat) (log : List α) (start position : Nat) (taken : List α) : Prop where
  ascending : taken.Pairwise fun a b => f a < f b
  within : ∀ a ∈ taken, start ≤ f a ∧ f a < position
  last : (taken.getLast?.map fun a => f a + 1).getD start = position
  whole : ∀ a ∈ log, start ≤ f a → f a < position → a ∈ taken

/-- Nothing yet. -/
theorem Taken.nil (f : α → Nat) (log : List α) (start : Nat) : Taken f log start start [] where
  ascending := .nil
  within := by rintro _ ⟨⟩
  last := rfl
  whole a _ least less := by omega

theorem Taken.le (taken_ : Taken f log start position taken) : start ≤ position := by
  rw [← taken_.last]
  cases ends : taken.getLast? with
  | none => exact Nat.le_refl start
  | some a =>
    have least := (taken_.within a (mem_of_getLast? ends)).1
    show start ≤ f a + 1
    omega

/-- **The next entries are taken**: the first of those from the position on. -/
theorem Taken.onward (taken_ : Taken f log start position taken) (ascending : log.Pairwise fun a b => f a < f b)
    (first : more <+: log.filter fun a => decide (position ≤ f a)) :
    Taken f log start ((more.getLast?.map fun a => f a + 1).getD position) (taken ++ more) := by
  obtain ⟨rest, split⟩ := first
  have from_ : ∀ a ∈ more, position ≤ f a := by
    intro a inside
    have listed : a ∈ log.filter fun a => decide (position ≤ f a) := split ▸ mem_append_left rest inside
    exact of_decide_eq_true (mem_filter.mp listed).2
  have order : (more ++ rest).Pairwise fun a b => f a < f b := split ▸ ascending.filter _
  obtain ⟨inMore, -, across⟩ := List.pairwise_append.mp order
  have least := taken_.le
  cases ends : more.getLast? with
  | none =>
    rw [getLast?_eq_none_iff.mp ends, append_nil]
    exact taken_
  | some final =>
    have isLast : final ∈ more := mem_of_getLast? ends
    have upTo : ∀ a ∈ more, f a ≤ f final := by
      intro a inside
      obtain ⟨front, shape⟩ := getLast?_eq_some_iff.mp ends
      rw [shape] at inside inMore
      obtain before | same := mem_append.mp inside
      · exact Nat.le_of_lt ((List.pairwise_append.mp inMore).2.2 a before final mem_cons_self)
      · exact Nat.le_of_eq (congrArg f (mem_singleton.mp same))
    have final_least := from_ final isLast
    refine ⟨List.pairwise_append.mpr ⟨taken_.ascending, inMore, fun a old b new => ?_⟩, fun a inside => ?_, ?_,
      fun a listed from_start below => ?_⟩
    · have := (taken_.within a old).2
      have := from_ b new
      omega
    · show start ≤ f a ∧ f a < f final + 1
      obtain old | new := mem_append.mp inside
      · have := taken_.within a old
        omega
      · have := from_ a new
        have := upTo a new
        omega
    · rw [getLast?_append, ends]
      rfl
    · have below : f a < f final + 1 := below
      by_cases old : f a < position
      · exact mem_append_left _ (taken_.whole a listed from_start old)
      · have onward : a ∈ more ++ rest := by
          rw [split]
          exact mem_filter.mpr ⟨listed, decide_eq_true (by omega)⟩
        obtain given | beyond := mem_append.mp onward
        · exact mem_append_right _ given
        · have := across final isLast a beyond
          omega

/-- The log changes behind what has been taken, and may lose what has been. -/
theorem Taken.follows {log' : List α} (taken_ : Taken f log start position taken) (follows : ∀ a ∈ log', a ∈ log ∨ next ≤ f a)
    (below : ∀ a ∈ taken, f a < next) : Taken f log' start position taken where
  ascending := taken_.ascending
  within := taken_.within
  last := taken_.last
  whole a listed least less := by
    obtain old | new := follows a listed
    · exact taken_.whole a old least less
    · have reached := taken_.last
      cases ends : taken.getLast? with
      | none =>
        rw [ends] at reached
        have reached : start = position := reached
        omega
      | some final =>
        rw [ends] at reached
        have reached : f final + 1 = position := reached
        have := below final (mem_of_getLast? ends)
        omega

/-- Of the entries of an ascending list those below a bound come first. -/
theorem filter_below_prefix (f : α → Nat) {l : List α} (ascending : l.Pairwise fun a b => f a < f b) (bound : Nat) :
    (l.filter fun a => decide (f a < bound)) <+: l := by
  have ranged := filter_range_prefix f ascending 0 bound
  simpa only [Nat.zero_le, decide_true, Bool.true_and, filter_true] using ranged

/-- Of several changes of one place, what the last sets stands. -/
theorem foldl_update_apply [DecidableEq κ] {β γ : Type*} (place : α → κ) (change : α → β → β) (get : β → γ) (value : α → γ)
    (sets : ∀ a b, get (change a b) = value a) (l : List α) (g : κ → β) (k : κ) :
    get (l.foldl (fun g a => Function.update g (place a) (change a (g (place a)))) g k) =
      ((l.filter fun a => decide (place a = k)).getLast?.map value).getD (get (g k)) := by
  induction l generalizing g with
  | nil => rfl
  | cons a l ih =>
    rw [foldl_cons, ih]
    by_cases here : place a = k
    · have kept : ((a :: l).filter fun a => decide (place a = k)) = a :: l.filter fun a => decide (place a = k) :=
        filter_cons_of_pos (decide_eq_true here)
      rw [kept, getLast?_cons, here, Function.update_self, sets]
      cases (l.filter fun a => decide (place a = k)).getLast? with
      | none => rfl
      | some b => rfl
    · have left : ((a :: l).filter fun a => decide (place a = k)) = l.filter fun a => decide (place a = k) :=
        filter_cons_of_neg (by simpa using here)
      rw [left, Function.update_of_ne (Ne.symm here)]

end StreamHouse.Lib
