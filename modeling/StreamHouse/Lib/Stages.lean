import Mathlib.Data.List.Basic

/-!
# Stages in a row

A stage takes an item at a time and gives items for the next one, and gives more when it is closed.
Items can go through all stages one at a time, or all of them through one stage after the other. Until
the stages are closed that is the same; what it is then depends on whether what a stage gives at its
end still passes the stages after it.
-/

namespace StreamHouse.Lib.Stages

open List Option

variable {σ α : Type*} (feed : σ → α → Option (σ × List α)) (close : σ → Option (σ × List α))

/-- The items one after the other into one stage. -/
def feedAll (s : σ) : List α → Option (σ × List α)
  | [] => some (s, [])
  | a :: l => (feed s a).bind fun first => (feedAll first.1 l).map fun rest => (rest.1, first.2 ++ rest.2)

/-- The items through all stages, stage by stage. -/
def push : List σ → List α → Option (List σ × List α)
  | [], l => some ([], l)
  | s :: stages, l => (feedAll feed s l).bind fun first => (push stages first.2).map fun rest => (first.1 :: rest.1, rest.2)

/-- The items through all stages, item by item. -/
def pushEach (stages : List σ) : List α → Option (List σ × List α)
  | [] => some (stages, [])
  | a :: l => (push feed stages [a]).bind fun first => (pushEach first.1 l).map fun rest => (rest.1, first.2 ++ rest.2)

/-- What the stages give when they are closed, one after the other. -/
def closeAll : List σ → Option (List σ × List α)
  | [] => some ([], [])
  | s :: stages => (close s).bind fun first => (closeAll stages).map fun rest => (first.1 :: rest.1, first.2 ++ rest.2)

/-- The same from the last stage to the first. -/
def closings (stages : List σ) : Option (List α) := (closeAll close stages.reverse).map Prod.snd

/-- What a stage makes of all items. -/
def whole (s : σ) (l : List α) : Option (List α) :=
  (feedAll feed s l).bind fun fed => (close fed.1).map fun closed => fed.2 ++ closed.2

/-- Each stage makes its items of all those of the stage before. -/
def staged : List σ → List α → Option (List α)
  | [], l => some l
  | s :: stages, l => (whole feed close s l).bind (staged stages)

variable {feed close} {s : σ} {stages : List σ}

/-! ## Before the end -/

theorem feedAll_append (s : σ) (xs ys : List α) : feedAll feed s (xs ++ ys) =
    (feedAll feed s xs).bind fun first => (feedAll feed first.1 ys).map fun second => (second.1, first.2 ++ second.2) := by
  induction xs generalizing s with
  | nil => simp [feedAll]
  | cons x xs ih =>
    rw [cons_append, feedAll, feedAll]
    cases feed s x with
    | none => rfl
    | some first =>
      simp only [bind_some, ih]
      cases feedAll feed first.1 xs with
      | none => rfl
      | some second =>
        simp only [bind_some, map_some, Option.map_map, Function.comp_def, append_assoc]

/-- **Items through all stages in two parts.** -/
theorem push_append (stages : List σ) (xs ys : List α) : push feed stages (xs ++ ys) =
    (push feed stages xs).bind fun first => (push feed first.1 ys).map fun second => (second.1, first.2 ++ second.2) := by
  induction stages generalizing xs ys with
  | nil => rfl
  | cons s stages ih =>
    rw [push, push, feedAll_append]
    cases feedAll feed s xs with
    | none => rfl
    | some first =>
      simp only [bind_some]
      -- the two parts do not meet in a stage, so the second may fail before or after the first goes on
      cases later : feedAll feed first.1 ys with
      | none => cases push feed stages first.2 <;> simp [push, later]
      | some second =>
        simp only [map_some, bind_some, ih]
        cases push feed stages first.2 with
        | none => rfl
        | some passed => cases rest : push feed passed.1 second.2 <;> simp [push, later, rest]

theorem push_nil (stages : List σ) : push feed stages [] = some (stages, []) := by
  induction stages with
  | nil => rfl
  | cons s stages ih => simp [push, feedAll, ih]

/-- **Item by item is stage by stage.** -/
theorem pushEach_eq (stages : List σ) (l : List α) : pushEach feed stages l = push feed stages l := by
  induction l generalizing stages with
  | nil => exact (push_nil stages).symm
  | cons a l ih =>
    have first : push feed stages (a :: l) = push feed stages ([a] ++ l) := rfl
    rw [pushEach, first, push_append]
    cases push feed stages [a] with
    | none => rfl
    | some first => simp only [bind_some, ih]

/-! ## The end -/

/-- What goes in first comes out first. -/
theorem staged_append (stages : List σ) (xs ys : List α) : staged feed close stages (xs ++ ys) =
    (push feed stages xs).bind fun pushed => (staged feed close pushed.1 ys).map (pushed.2 ++ ·) := by
  induction stages generalizing xs ys with
  | nil => rfl
  | cons s stages ih =>
    rw [staged, whole, push, feedAll_append]
    cases feedAll feed s xs with
    | none => rfl
    | some first =>
      simp only [bind_some]
      cases later : feedAll feed first.1 ys with
      | none => cases push feed stages first.2 <;> simp [staged, whole, later]
      | some second =>
        simp only [map_some, bind_some]
        cases closes : close second.1 with
        | none => cases push feed stages first.2 <;> simp [staged, whole, later, closes]
        | some closed =>
          simp only [map_some, bind_some, append_assoc, ih]
          cases push feed stages first.2 with
          | none => rfl
          | some passed => simp [staged, whole, later, closes]

/-- The end alone: what the first stage gives goes through those after it. -/
theorem staged_cons_nil (s : σ) (stages : List σ) : staged feed close (s :: stages) [] =
    (close s).bind fun closed => staged feed close stages closed.2 := by
  rw [staged, whole, feedAll, bind_some]
  cases close s <;> rfl

theorem closeAll_append (first second : List σ) : closeAll close (first ++ second) =
    (closeAll close first).bind fun here => (closeAll close second).map fun there => (here.1 ++ there.1, here.2 ++ there.2) := by
  induction first with
  | nil => simp [closeAll]
  | cons s first ih =>
    rw [cons_append, closeAll, closeAll]
    cases close s with
    | none => rfl
    | some closed =>
      simp only [bind_some, ih]
      cases closeAll close first with
      | none => rfl
      | some here => cases closeAll close second <;> simp [append_assoc]

/-- The stages after the first are closed before it. -/
theorem closings_cons (s : σ) (stages : List σ) : closings close (s :: stages) =
    (closings close stages).bind fun later => (close s).map fun closed => later ++ closed.2 := by
  rw [closings, closings, reverse_cons, closeAll_append]
  cases closeAll close stages.reverse with
  | none => rfl
  | some later => cases closes : close s <;> simp [closeAll, closes]

variable (feed close) in
/-- The first stage that gives something at its end: when that goes into the stages after it, what comes out and what they
then give at their ends is what they would have given at their ends, and behind it what went in. -/
def InPlace : List σ → Prop
  | [] => True
  | s :: stages => ∀ closed, close s = some closed →
    if closed.2 = [] then InPlace stages
    else ((push feed stages closed.2).bind fun passed => (staged feed close passed.1 []).map (passed.2 ++ ·)) =
      (closings close stages).map (· ++ closed.2)

/-- **The ends of the stages, each through those after it, are their ends from the last to the first** just if they are in
place. -/
theorem staged_nil_iff (stages : List σ) : staged feed close stages [] = closings close stages ↔ InPlace feed close stages := by
  induction stages with
  | nil => exact iff_of_true rfl trivial
  | cons s stages ih =>
    rw [staged_cons_nil, closings_cons, InPlace]
    cases close s with
    | none =>
      refine iff_of_true ?_ (by simp)
      cases closings close stages <;> rfl
    | some closed =>
      have joined : ((closings close stages).bind fun later => (some closed).map fun closed => later ++ closed.2) =
          (closings close stages).map (· ++ closed.2) := by
        cases closings close stages <;> rfl
      rw [joined]
      simp only [bind_some, some.injEq, forall_eq']
      split_ifs with nothing
      · rw [← ih, nothing]
        simp only [append_nil, Option.map_id']
      · rw [← staged_append, append_nil]

/-- **Item by item and then closed from the last stage to the first is stage by stage** just if what the stages give at
their ends is in place. -/
theorem run_eq_staged_iff (stages : List σ) (l : List α) :
    ((pushEach feed stages l).bind fun pushed => (closings close pushed.1).map (pushed.2 ++ ·)) = staged feed close stages l ↔
      ∀ pushed, push feed stages l = some pushed → InPlace feed close pushed.1 := by
  have split := @staged_append σ α feed close stages l []
  rw [append_nil] at split
  rw [pushEach_eq, split]
  cases push feed stages l with
  | none => simp
  | some pushed =>
    have cancel : Function.Injective (pushed.2 ++ ·) := fun _ _ same => append_cancel_left same
    simp only [bind_some, some.injEq, forall_eq', ← staged_nil_iff]
    rw [(map_injective cancel).eq_iff, eq_comm]

/-! ## Stages that give nothing at their ends -/

/-- Stages that stay as they are called, and give nothing at their ends. -/
structure GivesNothing (feed : σ → α → Option (σ × List α)) (close : σ → Option (σ × List α)) (Quiet : σ → Prop) : Prop where
  feeds : ∀ s a fed, Quiet s → feed s a = some fed → Quiet fed.1
  closes : ∀ s, Quiet s → ∃ s', close s = some (s', [])

namespace GivesNothing

variable {Quiet : σ → Prop} (nothing : GivesNothing feed close Quiet)
include nothing

theorem feedAll {l : List α} {fed : σ × List α} (quiet : Quiet s) (went : feedAll feed s l = some fed) : Quiet fed.1 := by
  induction l generalizing s fed with
  | nil => exact some.inj went ▸ quiet
  | cons a l ih =>
    obtain ⟨first, isFirst, rest⟩ := bind_eq_some_iff.mp went
    obtain ⟨last, isLast, rfl⟩ := map_eq_some_iff.mp rest
    have later : Quiet last.1 := ih (nothing.feeds s a first quiet isFirst) isLast
    exact later

theorem push {l : List α} {pushed : List σ × List α} (quiet : ∀ s ∈ stages, Quiet s) (went : push feed stages l = some pushed) :
    ∀ s ∈ pushed.1, Quiet s := by
  induction stages generalizing l pushed with
  | nil => exact some.inj went ▸ quiet
  | cons s stages ih =>
    obtain ⟨first, isFirst, rest⟩ := bind_eq_some_iff.mp went
    obtain ⟨last, isLast, rfl⟩ := map_eq_some_iff.mp rest
    obtain ⟨own, others⟩ := forall_mem_cons.mp quiet
    exact forall_mem_cons.mpr ⟨nothing.feedAll own isFirst, ih others isLast⟩

/-- All stages but the last stay quiet. -/
theorem push_dropLast {l : List α} {pushed : List σ × List α} (quiet : ∀ s ∈ stages.dropLast, Quiet s)
    (went : Stages.push feed stages l = some pushed) : ∀ s ∈ pushed.1.dropLast, Quiet s := by
  induction stages generalizing l pushed with
  | nil => exact some.inj went ▸ quiet
  | cons s stages ih =>
    obtain ⟨first, isFirst, rest⟩ := bind_eq_some_iff.mp went
    obtain ⟨last, isLast, rfl⟩ := map_eq_some_iff.mp rest
    cases stages with
    | nil =>
      obtain rfl := some.inj isLast
      exact fun _ none => absurd none not_mem_nil
    | cons next stages =>
      obtain ⟨own, others⟩ := forall_mem_cons.mp quiet
      have later := ih others isLast
      obtain ⟨_, _, isLater⟩ := bind_eq_some_iff.mp isLast
      obtain ⟨_, _, rfl⟩ := map_eq_some_iff.mp isLater
      exact forall_mem_cons.mpr ⟨nothing.feedAll own isFirst, later⟩

theorem closings (quiet : ∀ s ∈ stages, Quiet s) : closings close stages = some [] := by
  induction stages with
  | nil => rfl
  | cons s stages ih =>
    obtain ⟨own, others⟩ := forall_mem_cons.mp quiet
    obtain ⟨s', closed⟩ := nothing.closes s own
    rw [closings_cons, ih others, closed]
    rfl

theorem inPlace (quiet : ∀ s ∈ stages.dropLast, Quiet s) : InPlace feed close stages := by
  induction stages with
  | nil => trivial
  | cons s stages ih =>
    intro closed isClosed
    cases stages with
    | nil =>
      split_ifs
      · trivial
      · exact congrArg some (append_nil _)
    | cons next stages =>
      obtain ⟨own, others⟩ := forall_mem_cons.mp quiet
      obtain ⟨s', silent⟩ := nothing.closes s own
      obtain rfl := some.inj (silent.symm.trans isClosed)
      rw [if_pos rfl]
      exact ih others

/-- What the first stage gives at its end has to pass quiet ones as it is. -/
theorem inPlace_cons_iff (quiet : ∀ s ∈ stages, Quiet s) :
    InPlace feed close (s :: stages) ↔ ∀ closed, close s = some closed → (Stages.push feed stages closed.2).map Prod.snd = some closed.2 := by
  refine forall₂_congr fun closed _ => ?_
  split_ifs with silent
  · refine iff_of_true (nothing.inPlace fun t inside => quiet t ((dropLast_sublist _).subset inside)) ?_
    rw [silent, push_nil]
    rfl
  · rw [nothing.closings quiet]
    cases went : Stages.push feed stages closed.2 with
    | none => simp
    | some passed =>
      have later := nothing.push quiet went
      have ended : staged feed close passed.1 [] = some [] :=
        ((staged_nil_iff passed.1).mpr (nothing.inPlace fun t inside => later t ((dropLast_sublist _).subset inside))).trans (nothing.closings later)
      simp [ended]

end GivesNothing

end StreamHouse.Lib.Stages
