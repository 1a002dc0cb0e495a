import StreamHouse.Lib.Run

/-!
# What one party's actions show another

A run in which some actions are hidden is compared with the run without them. An
observer reads a state (`seen`), and may also act; its reads must be the same in both
runs, now and after whatever it does next. The rule is the usual unwinding: a relation
between the states of the two runs that hidden actions keep on one side and all others
on both. With a hidden action that breaks it being seen sooner or later, the condition
is exact.
-/

namespace StreamHouse.Lib

variable {σ α : Type*}

/-- The run without its hidden actions. -/
def purge (hidden : α → Bool) (as : List α) : List α := as.filter fun a => !hidden a

/-- At every point of the run, whatever the observer does next, it sees the same as in the run
without the hidden actions. -/
def Undisturbed (step : σ → α → σ) (hidden observer : α → Bool) (seen : σ → σ → Prop) (s t : σ) (as : List α) : Prop :=
  ∀ before after, as = before ++ after → ∀ more, (∀ a ∈ more, observer a = true) →
    seen (run step s (before ++ more)) (run step t (purge hidden before ++ more))

section Unwinding

variable {step : σ → α → σ} {hidden observer : α → Bool} {seen same : σ → σ → Prop} {ok : σ → α → Prop}

theorem undisturbed_cons (s t : σ) (a : α) (as : List α) :
    Undisturbed step hidden observer seen s t (a :: as) ↔
      Undisturbed step hidden observer seen s t [] ∧
        Undisturbed step hidden observer seen (step s a) (if hidden a then t else step t a) as := by
  have purged : ∀ before more : List α, run step t (purge hidden (a :: before) ++ more) =
      run step (if hidden a then t else step t a) (purge hidden before ++ more) := by
    intro before more
    cases is : hidden a with
    | true => simp [purge, is]
    | false => simp [purge, is]
  constructor
  · intro all
    constructor
    · intro before after cut more acts
      obtain ⟨rfl, rfl⟩ := List.append_eq_nil_iff.1 cut.symm
      exact all [] (a :: as) rfl more acts
    · intro before after cut more acts
      have rest := all (a :: before) after (by rw [cut, List.cons_append]) more acts
      rw [purged] at rest
      exact rest
  · rintro ⟨now, later⟩ before after cut more acts
    cases before with
    | nil => exact now [] [] rfl more acts
    | cons b before =>
      obtain ⟨rfl, tail⟩ := List.cons.inj cut
      rw [purged]
      exact later before after tail more acts

variable (reads : ∀ s t, same s t → seen s t)
  (shared : ∀ s t a, same s t → hidden a = false → same (step s a) (step t a))
  (apart : ∀ a, observer a = true → hidden a = false)

include reads shared apart in
/-- Related states stay so whatever the observer does. -/
theorem undisturbed_nil {s t : σ} (related : same s t) : Undisturbed step hidden observer seen s t [] := by
  intro before after cut more acts
  obtain ⟨rfl, rfl⟩ := List.append_eq_nil_iff.1 cut.symm
  clear cut
  show seen (run step s more) (run step t more)
  induction more generalizing s t with
  | nil => exact reads s t related
  | cons a more ih =>
    have visible : hidden a = false := apart a (acts a List.mem_cons_self)
    exact ih (shared s t a related visible) fun b member => acts b (List.mem_cons_of_mem _ member)

include reads shared apart in
/-- **Unwinding, both ways**: the observer is undisturbed exactly if each hidden action meets
the condition in the state it is taken in. -/
theorem undisturbed_iff
    (kept : ∀ s t a, same s t → hidden a = true → ok s a → same (step s a) t)
    (exposed : ∀ s t a, same s t → hidden a = true → ¬ ok s a →
      ∃ more, (∀ b ∈ more, observer b = true) ∧ ¬ seen (run step (step s a) more) (run step t more))
    {s t : σ} (related : same s t) (as : List α) :
    Undisturbed step hidden observer seen s t as ↔ Meets step (fun s a => hidden a = true → ok s a) s as := by
  induction as generalizing s t with
  | nil => exact iff_of_true (undisturbed_nil reads shared apart related) trivial
  | cons a as ih =>
    have now : Undisturbed step hidden observer seen s t [] := undisturbed_nil reads shared apart related
    cases is : hidden a with
    | false =>
      rw [undisturbed_cons, is, Meets, if_neg Bool.false_ne_true, ih (shared s t a related is)]
      constructor
      · rintro ⟨-, later⟩
        exact ⟨fun yes => (Bool.false_ne_true (is.symm.trans yes)).elim, later⟩
      · rintro ⟨-, later⟩
        exact ⟨now, later⟩
    | true =>
      rw [undisturbed_cons, is, Meets, if_pos rfl]
      by_cases harmless : ok s a
      · rw [ih (kept s t a related is harmless)]
        constructor
        · rintro ⟨-, later⟩
          exact ⟨fun _ => harmless, later⟩
        · rintro ⟨-, later⟩
          exact ⟨now, later⟩
      · constructor
        · rintro ⟨-, later⟩
          obtain ⟨more, acts, differs⟩ := exposed s t a related is harmless
          exact absurd (later [] as rfl more acts) differs
        · rintro ⟨meets, -⟩
          exact absurd (meets is) harmless

end Unwinding

/-! ## One step over owned state

Each owner has its share of a state. A step that is taken for one owner isolates it if the result
depends on its share alone and the other shares stay as they are.
-/

variable {κ β ρ : Type*} {share : σ → κ → β} {step : σ → σ × ρ} {owner : κ} {admits : σ → Prop}

def Isolates (share : σ → κ → β) (step : σ → σ × ρ) (owner : κ) (admits : σ → Prop) : Prop :=
  ∀ s t, admits s → admits t → share s owner = share t owner →
    (step s).2 = (step t).2 ∧ ∀ other, other ≠ owner → share (step s).1 other = share s other

theorem Isolates.mono {narrower : σ → Prop} (isolates : Isolates share step owner admits) (narrows : ∀ s, narrower s → admits s) :
    Isolates share step owner narrower := fun s t first second => isolates s t (narrows s first) (narrows t second)

end StreamHouse.Lib
