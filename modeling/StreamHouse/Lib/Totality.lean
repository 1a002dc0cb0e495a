import StreamHouse.Lib.Bytes

/-!
# Computations that do not panic

`Total` says that a computation returns, a value or an error. A sequence is total if its first step is and
every step it can go on to is; the readers of bytes are total exactly where there are enough bytes.
-/

namespace StreamHouse.Lib

open List

variable {ε α β : Type}

def Total (x : Outcome ε α) : Prop := x ≠ .error .panicked

@[simp] theorem total_ok (a : α) : Total (.ok a : Outcome ε α) := by simp [Total]

@[simp] theorem total_error (e : ε) : Total (.error (.error e) : Outcome ε α) := by simp [Total]

@[simp] theorem not_total_panicked : ¬ Total (.error .panicked : Outcome ε α) := fun total => total rfl

@[simp] theorem total_of (x : Except ε α) : Total (Outcome.of x) := by
  cases x with
  | ok a => exact total_ok a
  | error e => exact total_error e

variable {x : Outcome ε α} {a : α} {f : α → Outcome ε β} {as : List α} {P : α → Prop} {data : List UInt8} {width : Nat}
    {cursor : List UInt8}

theorem of_eq_ok {x : Except ε α} : Outcome.of x = .ok a ↔ x = .ok a := by
  cases x with
  | ok b => rw [Outcome.of_ok, Except.ok.injEq, Except.ok.injEq]
  | error e => exact iff_of_false (fun no => by cases no) fun no => by cases no

@[simp] theorem total_map {f : α → β} : Total (Except.map f x) ↔ Total x := by
  cases x with
  | ok a => simp [Except.map]
  | error fault => simp [Total, Except.map]

theorem total_bind : Total (x >>= f) ↔ Total x ∧ ∀ a, x = .ok a → Total (f a) := by
  cases x with
  | ok a => simp
  | error fault =>
    have same : ((.error fault : Outcome ε α) >>= f) = .error fault := rfl
    simp [Total, same]

theorem total_ite {c : Prop} [Decidable c] {y : Outcome ε α} (holds : c → Total x) (fails : ¬ c → Total y) :
    Total (if c then x else y) := by
  split
  · next yes => exact holds yes
  · next no => exact fails no

/-- A loop is total if every turn is. -/
theorem total_foldlM {f : β → α → Outcome ε β} (turns : ∀ b, ∀ a ∈ as, Total (f b a)) (b : β) : Total (as.foldlM f b) := by
  induction as generalizing b with
  | nil => exact total_ok b
  | cons a as ih =>
    rw [foldlM_cons, total_bind]
    exact ⟨turns b a mem_cons_self, fun next _ => ih (fun b x member => turns b x (mem_cons_of_mem _ member)) next⟩

/-- What a computation returns has a property. -/
def Yields (P : α → Prop) (x : Outcome ε α) : Prop := ∀ a, x = .ok a → P a

theorem yields_ok : Yields P (.ok a : Outcome ε α) ↔ P a := by simp [Yields]

theorem yields_error {fault : Fault ε} : Yields P (.error fault : Outcome ε α) := fun _ read => by cases read

theorem yields_bind {P : β → Prop} {Q : α → Prop} (first : Yields Q x)
    (second : ∀ a, Q a → Yields P (f a)) : Yields P (x >>= f) := fun b read => by
  obtain ⟨a, isA, isB⟩ := bind_ok read
  exact second a (first a isA) b isB

theorem yields_any : Yields (fun _ => True) x := fun _ _ => trivial

/-- A loop keeps what every turn keeps. -/
theorem yields_foldlM {P : β → Prop} {f : β → α → Outcome ε β} (turns : ∀ b a, P b → Yields P (f b a)) {b : β} (start : P b) :
    Yields P (as.foldlM f b) := by
  induction as generalizing b with
  | nil => exact yields_ok.mpr start
  | cons a as ih =>
    rw [foldlM_cons]
    exact yields_bind (turns b a start) fun next holds => ih holds

/-- A loop that reads each item gets to this one. -/
def Reaches (f : α → Outcome ε β) (as : List α) (a : α) : Prop :=
  ∃ before after, as = before ++ a :: after ∧ ∀ b ∈ before, ∃ v, f b = .ok v

theorem not_reaches_nil : ¬ Reaches f [] a := fun ⟨_, _, split, _⟩ =>
  append_ne_nil_of_right_ne_nil _ (cons_ne_nil _ _) split.symm

theorem reaches_cons {c : α} : Reaches f (a :: as) c ↔ c = a ∨ (∃ v, f a = .ok v) ∧ Reaches f as c := by
  constructor
  · rintro ⟨before, after, split, accepted⟩
    cases before with
    | nil => exact .inl (cons.inj split).1.symm
    | cons b before =>
      obtain ⟨rfl, rest⟩ := cons.inj split
      exact .inr ⟨accepted a mem_cons_self, before, after, rest, fun b inside => accepted b (mem_cons_of_mem _ inside)⟩
  · rintro (rfl | ⟨accepted, before, after, rfl, rest⟩)
    · exact ⟨[], as, rfl, fun _ inside => absurd inside not_mem_nil⟩
    · exact ⟨a :: before, after, rfl, forall_mem_cons.mpr ⟨accepted, rest⟩⟩

/-- What holds of the items that a loop gets to. -/
theorem forall_reaches_cons :
    (∀ c, Reaches f (a :: as) c → P c) ↔ P a ∧ ((∃ v, f a = .ok v) → ∀ c, Reaches f as c → P c) := by
  simp only [reaches_cons, or_imp, forall_and, forall_eq, and_imp]
  exact and_congr_right fun _ => ⟨fun all accepted c => all c accepted, fun all c accepted => all accepted c⟩

theorem forall_reaches_nil : ∀ c, Reaches f [] c → P c :=
  fun _ reaches => absurd reaches not_reaches_nil

/-- A loop that collects what it reads stops at the first item that is rejected: it is total if it is at the items
that it gets to. -/
theorem total_collect {γ : Type} {g : γ → β → γ} {c : γ} :
    Total (as.foldlM (fun c a => do return g c (← f a)) c) ↔ ∀ a, Reaches f as a → Total (f a) := by
  induction as generalizing c with
  | nil => exact iff_of_true (total_ok c) fun a reaches => absurd reaches not_reaches_nil
  | cons a as ih =>
    simp only [foldlM_cons, reaches_cons, forall_eq_or_imp]
    cases read : f a with
    | error fault => simp [Total, bind, Except.bind]
    | ok v => simpa using ih

theorem collect_ok {γ : Type} {g : γ → β → γ} {c : γ} :
    (∃ r, as.foldlM (fun c a => do return g c (← f a)) c = .ok r) ↔ ∀ a ∈ as, ∃ v, f a = .ok v := by
  induction as generalizing c with
  | nil => exact iff_of_true ⟨c, rfl⟩ fun _ inside => absurd inside not_mem_nil
  | cons a as ih =>
    rw [forall_mem_cons, foldlM_cons]
    cases read : f a with
    | error fault => simp [bind, Except.bind]
    | ok v => simpa using ih

/-- The integer in `width` bytes at a position. -/
def numberAt (data : List UInt8) (position width : Nat) : Nat := valueBE ((data.drop position).take width)

theorem numberAt_take {position n : Nat} (inside : position + width ≤ n) :
    numberAt (data.take n) position width = numberAt data position width := by
  rw [numberAt, numberAt, drop_take, take_take, Nat.min_eq_left (by omega)]

theorem getBE_at {position : Nat} (enough : position + width ≤ data.length) :
    getBE width (data.drop position) = (.ok (numberAt data position width, data.drop (position + width)) : Outcome ε _) := by
  rw [getBE, if_pos (by rw [length_drop]; omega), numberAt, drop_drop]

theorem copyToSlice_at {position n : Nat} (enough : position + n ≤ data.length) :
    copyToSlice n (data.drop position) = (.ok ((data.drop position).take n, data.drop (position + n)) : Outcome ε _) := by
  rw [copyToSlice, if_pos (by rw [length_drop]; omega), drop_drop]

theorem slice_inside {start stop : Nat} (ordered : start ≤ stop) (inside : stop ≤ data.length) :
    slice data start stop = (.ok ((data.drop start).take (stop - start)) : Outcome ε _) := if_pos ⟨ordered, inside⟩

/-- The bytes from a position on. -/
theorem slice_behind {start : Nat} (inside : start ≤ data.length) :
    slice data start data.length = (.ok (data.drop start) : Outcome ε _) := by
  rw [slice_inside inside (Nat.le_refl _), take_of_length_le (by rw [length_drop])]

@[simp] theorem total_slice {start stop : Nat} :
    Total (slice data start stop : Outcome ε _) ↔ start ≤ stop ∧ stop ≤ data.length := by
  unfold slice
  split
  · next inside => simpa using inside
  · next outside => simpa using outside

theorem total_getBE : Total (getBE width cursor : Outcome ε _) ↔ width ≤ cursor.length := by
  unfold getBE
  split
  · next enough => exact iff_of_true (total_ok _) enough
  · next few => exact iff_of_false not_total_panicked few

theorem total_getBE_bind {f : Nat × List UInt8 → Outcome ε β} :
    Total (getBE width cursor >>= f) ↔ width ≤ cursor.length ∧ Total (f (valueBE (cursor.take width), cursor.drop width)) := by
  unfold getBE
  split
  · next enough => simp [enough]
  · next few =>
    rw [total_bind]
    simp [few]

theorem total_getLE_bind {f : Nat × List UInt8 → Outcome ε β} :
    Total (getLE width cursor >>= f) ↔ width ≤ cursor.length ∧ Total (f (valueLE (cursor.take width), cursor.drop width)) := by
  unfold getLE
  split
  · next enough => simp [enough]
  · next few =>
    rw [total_bind]
    simp [few]

theorem total_copyToSlice_bind {n : Nat} {f : List UInt8 × List UInt8 → Outcome ε β} :
    Total (copyToSlice n cursor >>= f) ↔ n ≤ cursor.length ∧ Total (f (cursor.take n, cursor.drop n)) := by
  unfold copyToSlice
  split
  · next enough => simp [enough]
  · next few =>
    rw [total_bind]
    simp [few]

end StreamHouse.Lib
