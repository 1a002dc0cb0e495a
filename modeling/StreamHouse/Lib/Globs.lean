import Mathlib.Data.List.Infix

/-!
# Wildcards

A pattern is a text in which one letter, wherever it stands, stands for any text. With no wildcard a pattern
is matched by itself alone; with one, by what begins with the part before it, ends with the part
behind it, and is long enough for both.
-/

namespace StreamHouse.Lib.Globs

open List

variable {α : Type*}

/-- The text is the pattern with each wildcard filled in. -/
inductive Glob (wildcard : α) : List α → List α → Prop
  | nil : Glob wildcard [] []
  | letter {c : α} {pattern text : List α} : c ≠ wildcard → Glob wildcard pattern text → Glob wildcard (c :: pattern) (c :: text)
  | filled (filling : List α) {pattern text : List α} :
      Glob wildcard pattern text → Glob wildcard (wildcard :: pattern) (filling ++ text)

variable {wildcard : α} {pattern text : List α}

theorem glob_nil : Glob wildcard [] text ↔ text = [] := by
  constructor
  · intro glob
    cases glob
    rfl
  · rintro rfl
    exact .nil

theorem glob_letter {c : α} (other : c ≠ wildcard) :
    Glob wildcard (c :: pattern) text ↔ ∃ rest, text = c :: rest ∧ Glob wildcard pattern rest := by
  constructor
  · intro glob
    cases glob with
    | letter _ rest => exact ⟨_, rfl, rest⟩
    | filled _ _ => exact absurd rfl other
  · rintro ⟨rest, rfl, glob⟩
    exact .letter other glob

theorem glob_filled : Glob wildcard (wildcard :: pattern) text ↔ ∃ rest, rest <:+ text ∧ Glob wildcard pattern rest := by
  constructor
  · intro glob
    cases glob with
    | letter other _ => exact absurd rfl other
    | filled filling rest => exact ⟨_, suffix_append _ _, rest⟩
  · rintro ⟨rest, ⟨filling, rfl⟩, glob⟩
    exact .filled filling glob

/-- A text of the pattern is one of its front and one of its back. -/
theorem glob_append {front back : List α} :
    Glob wildcard (front ++ back) text ↔ ∃ first last, text = first ++ last ∧ Glob wildcard front first ∧ Glob wildcard back last := by
  constructor
  · intro glob
    induction front generalizing text with
    | nil => exact ⟨[], text, rfl, .nil, glob⟩
    | cons c front ih =>
      rw [cons_append] at glob
      cases glob with
      | letter other rest =>
        obtain ⟨first, last, rfl, before, behind⟩ := ih rest
        exact ⟨c :: first, last, rfl, .letter other before, behind⟩
      | filled filling rest =>
        obtain ⟨first, last, rfl, before, behind⟩ := ih rest
        exact ⟨filling ++ first, last, (append_assoc _ _ _).symm, .filled filling before, behind⟩
  · rintro ⟨first, last, rfl, before, behind⟩
    induction before with
    | nil => exact behind
    | letter other _ ih => exact .letter other ih
    | filled filling _ ih =>
      rw [append_assoc]
      exact .filled filling ih

/-- A wildcard stands for itself too. -/
theorem glob_self (text : List α) : Glob wildcard text text := by
  induction text with
  | nil => exact .nil
  | cons c text ih =>
    by_cases same : c = wildcard
    · subst same
      exact .filled [c] ih
    · exact .letter same ih

theorem glob_of_notMem (without : wildcard ∉ pattern) : Glob wildcard pattern text ↔ text = pattern := by
  constructor
  · intro glob
    induction glob with
    | nil => rfl
    | letter _ _ ih => rw [ih fun inside => without (mem_cons_of_mem _ inside)]
    | filled _ _ _ => exact absurd mem_cons_self without
  · rintro rfl
    exact glob_self text

theorem glob_any : Glob wildcard [wildcard] text := by
  have glob : Glob wildcard [wildcard] (text ++ []) := .filled text .nil
  rwa [append_nil] at glob

/-- A text that begins like the pattern matches it up to the wildcard at its end. -/
theorem glob_of_prefix {stem : List α} (begins : stem <+: text) : Glob wildcard (stem ++ [wildcard]) text := by
  obtain ⟨rest, rfl⟩ := begins
  exact glob_append.mpr ⟨stem, rest, rfl, glob_self stem, glob_any⟩

theorem glob_of_suffix {stem : List α} (ends : stem <:+ text) : Glob wildcard (wildcard :: stem) text :=
  glob_filled.mpr ⟨stem, ends, glob_self stem⟩

/-- **One wildcard**: what stands before it and what stands behind it must not overlap. -/
theorem glob_one {front back : List α} (noneBefore : wildcard ∉ front) (noneBehind : wildcard ∉ back) :
    Glob wildcard (front ++ wildcard :: back) text ↔
      front <+: text ∧ back <:+ text ∧ front.length + back.length ≤ text.length := by
  rw [glob_append]
  constructor
  · rintro ⟨first, last, rfl, before, behind⟩
    obtain rfl := (glob_of_notMem noneBefore).mp before
    obtain ⟨rest, ⟨filling, rfl⟩, glob⟩ := glob_filled.mp behind
    obtain rfl := (glob_of_notMem noneBehind).mp glob
    refine ⟨prefix_append _ _, ⟨first ++ filling, append_assoc _ _ _⟩, ?_⟩
    simp only [length_append]
    omega
  · rintro ⟨⟨rest, rfl⟩, ends, long⟩
    rw [length_append] at long
    have behind : back <:+ rest :=
      suffix_of_suffix_length_le ends (suffix_append front rest) (by omega)
    exact ⟨front, rest, rfl, glob_self front, glob_of_suffix behind⟩

/-! ## Deciding -/

variable [DecidableEq α]

def globMatches (wildcard : α) : List α → List α → Bool
  | [], text => text.isEmpty
  | c :: pattern, text =>
    if c = wildcard then text.tails.any (globMatches wildcard pattern)
    else text.head? = some c && globMatches wildcard pattern text.tail

theorem globMatches_iff : globMatches wildcard pattern text = true ↔ Glob wildcard pattern text := by
  induction pattern generalizing text with
  | nil => rw [globMatches, List.isEmpty_iff, glob_nil]
  | cons c pattern ih =>
    rw [globMatches]
    by_cases same : c = wildcard
    · subst same
      rw [if_pos rfl, any_eq_true, glob_filled]
      simp only [mem_tails, ih]
    · rw [if_neg same, glob_letter same]
      cases text with
      | nil => simp
      | cons d rest => simp [ih]

instance Glob.decidable : Decidable (Glob wildcard pattern text) := decidable_of_iff _ globMatches_iff

end StreamHouse.Lib.Globs
