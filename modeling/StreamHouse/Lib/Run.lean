import Mathlib.Data.List.Basic

/-!
# Runs of a deterministic step function

A component is a `step : σ → α → σ`; the action carries the caller's arguments
and every choice of the environment (which call fails, what the clock reads),
so a run is a list of actions. `Meets` says that each step of a run is taken
in a state where a given condition on state and action holds; it is decidable
when the condition is, and an invariant of the conditioned steps holds in
every state of such a run.
-/

namespace StreamHouse.Lib

open List

variable {σ α : Type*}

/-- The state after the actions `as`, in order. -/
def run (step : σ → α → σ) (s : σ) (as : List α) : σ :=
  as.foldl step s

@[simp] theorem run_nil (step : σ → α → σ) (s : σ) : run step s [] = s := rfl

@[simp] theorem run_cons (step : σ → α → σ) (s : σ) (a : α) (as : List α) :
    run step s (a :: as) = run step (step s a) as := rfl

theorem run_append (step : σ → α → σ) (s : σ) (as bs : List α) :
    run step s (as ++ bs) = run step (run step s as) bs :=
  foldl_append

/-- Every step of the run meets `ok` in the state it is taken in. -/
def Meets (step : σ → α → σ) (ok : σ → α → Prop) : σ → List α → Prop
  | _, [] => True
  | s, a :: as => ok s a ∧ Meets step ok (step s a) as

instance Meets.decidable (step : σ → α → σ) (ok : σ → α → Prop) [∀ s a, Decidable (ok s a)] :
    ∀ s as, Decidable (Meets step ok s as)
  | _, [] => .isTrue trivial
  | s, a :: as => @instDecidableAnd _ _ _ (Meets.decidable step ok (step s a) as)

variable {step : σ → α → σ} {ok : σ → α → Prop}

theorem meets_append {s : σ} {as bs : List α} :
    Meets step ok s (as ++ bs) ↔ Meets step ok s as ∧ Meets step ok (run step s as) bs := by
  induction as generalizing s with
  | nil => simp [Meets]
  | cons a as ih => simp [Meets, ih, and_assoc]

/-- The condition holds wherever the run is cut. -/
theorem meets_iff_forall {s : σ} {as : List α} :
    Meets step ok s as ↔ ∀ before a after, as = before ++ a :: after → ok (run step s before) a := by
  induction as generalizing s with
  | nil => simp [Meets]
  | cons a as ih =>
    rw [Meets, ih]
    constructor
    · rintro ⟨first, others⟩ before b after cut
      cases before with
      | nil =>
        obtain ⟨rfl, -⟩ := cons.inj cut
        exact first
      | cons c before =>
        obtain ⟨rfl, rest⟩ := cons.inj cut
        exact others before b after rest
    · intro every
      exact ⟨every [] a as rfl, fun before b after cut => every (a :: before) b after (by rw [cut, cons_append])⟩

/-- **The invariant rule**: what the conditioned steps keep holds after every
run whose steps all meet the condition. -/
theorem Meets.invariant {Inv : σ → Prop} (keep : ∀ s a, Inv s → ok s a → Inv (step s a)) :
    ∀ {as : List α} {s : σ}, Meets step ok s as → Inv s → Inv (run step s as) := by
  intro as
  induction as with
  | nil => intro s _ inv; exact inv
  | cons a as ih =>
    intro s meets inv
    exact ih meets.2 (keep s a inv meets.1)

/-- The same without a condition. -/
theorem run_invariant (Inv : σ → Prop) (keep : ∀ s a, Inv s → Inv (step s a)) {s : σ} (inv : Inv s)
    (as : List α) : Inv (run step s as) := by
  induction as generalizing s with
  | nil => exact inv
  | cons a as ih => exact ih (keep s a inv)

/-- **A measure that every step lowers** is gone after as many steps. -/
theorem run_measure_le (Inv : σ → Prop) (measure : σ → Nat) (keep : ∀ s a, Inv s → Inv (step s a))
    (lower : ∀ s a, Inv s → measure (step s a) ≤ measure s - 1) {s : σ} (inv : Inv s) (as : List α) :
    measure (run step s as) ≤ measure s - as.length := by
  induction as generalizing s with
  | nil => exact Nat.le_refl _
  | cons a as ih =>
    have first := lower s a inv
    have others := ih (keep s a inv)
    rw [run_cons, length_cons]
    omega

/-- The part of a run between two cuts. -/
theorem Meets.between {s : σ} {before middle after : List α}
    (meets : Meets step ok s (before ++ (middle ++ after))) : Meets step ok (run step s before) middle :=
  (meets_append.mp (meets_append.mp meets).2).1

/-- Conditions that come to the same in the states of an invariant are met by the same runs. -/
theorem meets_congr {ok' : σ → α → Prop} (Inv : σ → Prop) (same : ∀ s a, Inv s → (ok s a ↔ ok' s a))
    (keep : ∀ s a, Inv s → ok' s a → Inv (step s a)) {s : σ} (inv : Inv s) (as : List α) :
    Meets step ok s as ↔ Meets step ok' s as := by
  induction as generalizing s with
  | nil => exact Iff.rfl
  | cons a as ih =>
    rw [Meets, Meets, same s a inv]
    exact and_congr_right fun meets => ih (keep s a inv meets)

/-- Of two cuts of one list, they are the same or one of them is first. -/
theorem cuts {before before' after after' : List α} {a b : α} (same : before ++ a :: after = before' ++ b :: after') :
    (before = before' ∧ a = b ∧ after = after') ∨ (∃ between, before' = before ++ a :: between ∧ after = between ++ b :: after') ∨
      ∃ between, before = before' ++ b :: between ∧ after' = between ++ a :: after := by
  rcases append_eq_append_iff.mp same with ⟨middle, front, back⟩ | ⟨middle, front, back⟩
  · cases middle with
    | nil =>
      obtain ⟨rfl, rfl⟩ := cons.inj back
      exact .inl ⟨by rw [front, append_nil], rfl, rfl⟩
    | cons c middle =>
      obtain ⟨rfl, rest⟩ := cons.inj back
      exact .inr (.inl ⟨middle, front, rest⟩)
  · cases middle with
    | nil =>
      obtain ⟨rfl, rfl⟩ := cons.inj back
      exact .inl ⟨by rw [front, append_nil], rfl, rfl⟩
    | cons c middle =>
      obtain ⟨rfl, rest⟩ := cons.inj back
      exact .inr (.inr ⟨middle, front, rest⟩)

/-- What the steps of a run give. -/
def outputs {β : Type*} (step : σ → α → β × σ) : σ → List α → List β
  | _, [] => []
  | s, a :: as => (step s a).1 :: outputs step (step s a).2 as

/-- **The rule of simulation**: systems whose conditioned steps give alike outputs and keep the relation do so in every run. -/
theorem outputs_simulate {β τ : Type*} {step : σ → α → β × σ} {step' : τ → α → β × τ} {R : σ → τ → Prop} {alike : β → β → Prop}
    (simulate : ∀ s t a, R s t → ok s a → alike (step s a).1 (step' t a).1 ∧ R (step s a).2 (step' t a).2)
    {s : σ} {t : τ} {as : List α} (meets : Meets (fun s a => (step s a).2) ok s as) (related : R s t) :
    Forall₂ alike (outputs step s as) (outputs step' t as) := by
  induction as generalizing s t with
  | nil => exact .nil
  | cons a as ih =>
    obtain ⟨same, next⟩ := simulate s t a related meets.1
    exact .cons same (ih meets.2 next)

/-- A property of the state that each step leaves is one of the state at every cut. -/
theorem meets_next_iff {P : σ → Prop} {s : σ} (start : P s) (as : List α) :
    Meets step (fun s a => P (step s a)) s as ↔ ∀ before after, as = before ++ after → P (run step s before) := by
  induction as generalizing s with
  | nil =>
    refine iff_of_true trivial fun before after cut => ?_
    rw [(append_eq_nil_iff.mp cut.symm).1]
    exact start
  | cons a as ih =>
    rw [Meets]
    constructor
    · rintro ⟨next, later⟩ before after cut
      cases before with
      | nil => exact start
      | cons b before =>
        obtain ⟨rfl, tail⟩ := cons.inj cut
        exact (ih next).mp later before after tail
    · intro every
      have next : P (step s a) := every [a] as rfl
      exact ⟨next, (ih next).mpr fun before after cut => every (a :: before) after (by rw [cut, cons_append])⟩

/-- **The rule of causes**: what holds after a run held before it, or one of its steps brought it about. -/
theorem exists_cause (P : σ → Prop) (Q : σ → α → Prop) {s : σ} {as : List α}
    (each : ∀ before a after, as = before ++ a :: after → P (step (run step s before) a) →
      P (run step s before) ∨ Q (run step s before) a)
    (ends : P (run step s as)) : P s ∨ ∃ before a after, as = before ++ a :: after ∧ Q (run step s before) a := by
  induction as generalizing s with
  | nil => exact .inl ends
  | cons a as ih =>
    have later := ih (fun before b after cut => each (a :: before) b after (by rw [cut, cons_append])) ends
    obtain next | ⟨before, b, after, rfl, cause⟩ := later
    · obtain held | cause := each [] a as rfl next
      · exact .inl held
      · exact .inr ⟨[], a, as, rfl, cause⟩
    · exact .inr ⟨a :: before, b, after, rfl, cause⟩

/-- At every point of the run, also after any further actions that are `plain`, the property holds. -/
def Lasting (step : σ → α → σ) (plain : α → Prop) (P : σ → Prop) (s : σ) (as : List α) : Prop :=
  ∀ before after, as = before ++ after → ∀ more, (∀ a ∈ more, plain a) → P (run step s (before ++ more))

theorem lasting_cons {plain : α → Prop} {P : σ → Prop} {s : σ} {a : α} {as : List α} :
    Lasting step plain P s (a :: as) ↔ Lasting step plain P s [] ∧ Lasting step plain P (step s a) as := by
  constructor
  · intro all
    constructor
    · intro before after cut more acts
      obtain ⟨rfl, rfl⟩ := append_eq_nil_iff.1 cut.symm
      exact all [] (a :: as) rfl more acts
    · intro before after cut more acts
      exact all (a :: before) after (by rw [cut, cons_append]) more acts
  · rintro ⟨now, later⟩ before after cut more acts
    cases before with
    | nil => exact now [] [] rfl more acts
    | cons b before =>
      obtain ⟨rfl, tail⟩ := cons.inj cut
      exact later before after tail more acts

/-- **The invariant rule, both ways**: where a step that does not meet the condition shows after
plain actions, the property lasts exactly if every step meets it. -/
theorem lasting_iff {plain : α → Prop} {P Inv : σ → Prop} (holds : ∀ s, Inv s → P s) (keep : ∀ s a, Inv s → ok s a → Inv (step s a)) (harmless : ∀ s a, plain a → ok s a)
    (exposed : ∀ s a, Inv s → ¬ ok s a → ∃ more, (∀ b ∈ more, plain b) ∧ ¬ P (run step (step s a) more))
    {s : σ} (inv : Inv s) (as : List α) : Lasting step plain P s as ↔ Meets step ok s as := by
  have now : ∀ {s : σ}, Inv s → Lasting step plain P s [] := by
    intro s inv before after cut more acts
    obtain ⟨rfl, rfl⟩ := append_eq_nil_iff.1 cut.symm
    have meets : Meets step ok s more := by
      refine meets_iff_forall.2 fun before a after equal => harmless _ a (acts a ?_)
      rw [equal]
      exact mem_append_right _ mem_cons_self
    exact holds _ (meets.invariant keep inv)
  induction as generalizing s with
  | nil => exact iff_of_true (now inv) trivial
  | cons a as ih =>
    rw [lasting_cons, Meets]
    by_cases meets : ok s a
    · have tail := ih (keep s a inv meets)
      exact ⟨fun both => ⟨meets, tail.1 both.2⟩, fun both => ⟨now inv, tail.2 both.2⟩⟩
    · refine iff_of_false ?_ fun both => meets both.1
      rintro ⟨-, later⟩
      obtain ⟨more, acts, fails⟩ := exposed s a inv meets
      exact fails (later [] as rfl more acts)

end StreamHouse.Lib
