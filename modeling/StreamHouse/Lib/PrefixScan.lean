import Mathlib.Data.List.Lex
import Mathlib.Data.List.Infix
import StreamHouse.Lib.OrderedMap

/-!
# Scans of ordered maps

The keys are lists in the order of their items. Those that start with a prefix are next to each other, from the
prefix itself on: a scan that starts at the prefix and stops at the first other key finds them all.
-/

namespace StreamHouse.Lib.OrderedMap

open List Option OrderedMap

section Erase

variable {κ α : Type*} [LinearOrder κ]

def erase (key : κ) (m : List (κ × α)) : List (κ × α) := m.filter fun entry => entry.1 ≠ key

theorem get_erase (m : List (κ × α)) (key other : κ) : get (erase key m) other = if key = other then none else get m other := by
  induction m with
  | nil => simp [erase]
  | cons entry rest ih =>
    unfold erase at ih ⊢
    by_cases named : entry.1 = key
    · rw [filter_cons_of_neg (by simpa using named), ih, get_cons, named]
      split_ifs <;> rfl
    · rw [filter_cons_of_pos (by simpa using named), get_cons, ih, get_cons]
      by_cases here : entry.1 = other
      · rw [if_pos here, if_pos here, if_neg (fun same => named (here.trans same.symm))]
      · rw [if_neg here, if_neg here]

variable {m : List (κ × α)}

theorem Ascending.erase (ascending : Ascending m) (key : κ) : Ascending (erase key m) :=
  List.Pairwise.filter _ ascending

/-- A map that loses all its keys is empty. -/
theorem erase_keys {keys : List κ} (all : ∀ entry ∈ m, entry.1 ∈ keys) : keys.foldl (fun m key => erase key m) m = [] := by
  induction keys generalizing m with
  | nil =>
    apply eq_nil_iff_forall_not_mem.mpr
    exact fun entry inside => absurd (all entry inside) not_mem_nil
  | cons key keys ih =>
    rw [foldl_cons]
    refine ih fun entry inside => ?_
    obtain ⟨there, other⟩ := mem_filter.mp inside
    exact (mem_cons.mp (all entry there)).resolve_left (by simpa using other)

/-- Ascending entries that are inserted one after another are the map. -/
theorem inserts_ascending (ascending : Ascending m) : m.foldl (fun m entry => insert entry.1 entry.2 m) [] = m := by
  induction m using reverseRecOn with
  | nil => rfl
  | append_singleton m entry ih =>
    obtain ⟨before, -, below⟩ := List.pairwise_append.mp ascending
    rw [foldl_append, ih before, foldl_cons, foldl_nil]
    exact insert_eq_append (fun e inside => below e inside entry mem_cons_self) entry.2

/-- The entries whose values have another value. -/
def filterMapValues {γ : Type*} (f : α → Option γ) (m : List (κ × α)) : List (κ × γ) :=
  m.filterMap fun entry => (f entry.2).map fun value => (entry.1, value)

omit [LinearOrder κ] in
theorem key_of_mem_filterMapValues {γ : Type*} {f : α → Option γ} {entry : κ × γ}
    (inside : entry ∈ filterMapValues f m) : ∃ old ∈ m, old.1 = entry.1 := by
  obtain ⟨old, there, given⟩ := mem_filterMap.mp inside
  obtain ⟨value, -, rfl⟩ := map_eq_some_iff.mp given
  exact ⟨old, there, rfl⟩

theorem Ascending.filterMapValues {γ : Type*} (ascending : Ascending m) (f : α → Option γ) :
    Ascending (filterMapValues f m) := by
  refine pairwise_filterMap.mpr (ascending.imp fun below b givenB c givenC => ?_)
  obtain ⟨_, -, rfl⟩ := map_eq_some_iff.mp givenB
  obtain ⟨_, -, rfl⟩ := map_eq_some_iff.mp givenC
  exact below

theorem get_filterMapValues {γ : Type*} (ascending : Ascending m) (f : α → Option γ) (key : κ) :
    get (filterMapValues f m) key = (get m key).bind f := by
  induction m with
  | nil => rfl
  | cons entry m ih =>
    obtain ⟨above, rest⟩ := pairwise_cons.mp ascending
    have later : filterMapValues f (entry :: m) =
        ((f entry.2).map fun value => (entry.1, value)).toList ++ filterMapValues f m := by
      rw [filterMapValues, filterMap_cons]
      cases f entry.2 <;> rfl
    rw [later, get_cons]
    by_cases here : entry.1 = key
    · subst here
      have none_ : get (filterMapValues f m) entry.1 = none := by
        refine get_eq_none fun other inside => ?_
        obtain ⟨old, there, same⟩ := key_of_mem_filterMapValues inside
        rw [← same]
        exact above old there
      rw [if_pos rfl, bind_some]
      cases f entry.2 with
      | none => exact none_
      | some value =>
        rw [map_some, toList_some, singleton_append, get_cons, if_pos rfl]
    · rw [if_neg here, ← ih rest]
      cases f entry.2 with
      | none => rfl
      | some value =>
        rw [map_some, toList_some, singleton_append, get_cons, if_neg here]

end Erase

variable {β α : Type*} [LinearOrder β]

/-- A key that is not before a prefix, and not after a key that starts with it, starts with it. -/
theorem starts_between {p k l : List β} (from_ : ¬ k < p) (upTo : ¬ l < k) (starts : p <+: l) : p <+: k := by
  induction p generalizing k l with
  | nil => exact nil_prefix
  | cons x p ih =>
    obtain ⟨rest, rfl⟩ := starts
    cases k with
    | nil => exact absurd (nil_lt_cons x p) from_
    | cons y k =>
      rw [cons_lt_cons_iff, not_or, not_and] at from_
      rw [cons_append, cons_lt_cons_iff, not_or, not_and] at upTo
      have same : x = y := le_antisymm (not_lt.mp from_.1) (not_lt.mp upTo.1)
      exact cons_prefix_cons.mpr ⟨same, ih (from_.2 same.symm) (upTo.2 same) ⟨rest, rfl⟩⟩

/-- No list is before a prefix of it. -/
theorem not_lt_of_starts {p k : List β} (starts : p <+: k) : ¬ k < p := by
  obtain ⟨rest, rfl⟩ := starts
  induction p with
  | nil => exact not_lt_nil _
  | cons x p ih =>
    rw [cons_append, cons_lt_cons_iff, not_or, not_and]
    exact ⟨lt_irrefl x, fun _ => ih⟩

/-- The entries from `p` on, up to the first whose key does not start with `p`. -/
def scan [DecidableEq β] (m : List (List β × α)) (p : List β) : List (List β × α) :=
  (m.dropWhile fun entry => entry.1 < p).takeWhile fun entry => p.isPrefixOf entry.1

theorem scan_eq_filter [DecidableEq β] {m : List (List β × α)} (ascending : Ascending m) (p : List β) :
    scan m p = m.filter fun entry => p.isPrefixOf entry.1 := by
  unfold scan
  induction m with
  | nil => rfl
  | cons entry m ih =>
    obtain ⟨above, rest⟩ := pairwise_cons.mp ascending
    by_cases before : entry.1 < p
    · have other : ¬ p.isPrefixOf entry.1 := fun starts => not_lt_of_starts (List.isPrefixOf_iff_prefix.mp starts) before
      rw [dropWhile_cons_of_pos (by simpa using before), filter_cons, if_neg other, ih rest]
    · rw [dropWhile_cons_of_neg (by simpa using before)]
      have later : ∀ e ∈ m, ¬ e.1 < p := fun e inside => not_lt.mpr ((not_lt.mp before).trans (above e inside).le)
      have dropped : m.dropWhile (fun e => decide (e.1 < p)) = m := by
        cases m with
        | nil => rfl
        | cons first m => exact dropWhile_cons_of_neg (by simpa using later first mem_cons_self)
      rw [dropped] at ih
      by_cases starts : p.isPrefixOf entry.1 = true
      · rw [takeWhile_cons, if_pos starts, filter_cons, if_pos starts, ih rest]
      · rw [takeWhile_cons, if_neg starts, filter_cons, if_neg starts]
        refine (filter_eq_nil_iff.mpr fun e inside startsLater => starts ?_).symm
        apply isPrefixOf_iff_prefix.mpr
        exact starts_between before (above e inside).asymm (List.isPrefixOf_iff_prefix.mp startsLater)

end StreamHouse.Lib.OrderedMap
