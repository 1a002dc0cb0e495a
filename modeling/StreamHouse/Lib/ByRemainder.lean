import Mathlib.Data.Finset.Sort

/-!
# Placing by remainder

A hash is placed among `n` sorted places by its remainder. With one place fewer, the others keep their
order but not their remainders: the quotient decides what stays.
-/

namespace StreamHouse.Lib

open List

theorem add_mod_eq_iff {a b m : Nat} (below : b < m) : (a + b) % m = b ↔ m ∣ a := by
  constructor
  · intro same
    have split := Nat.div_add_mod (a + b) m
    rw [same] at split
    exact ⟨(a + b) / m, by omega⟩
  · rintro ⟨c, rfl⟩
    rw [Nat.mul_add_mod, Nat.mod_eq_of_lt below]

/-- A hash that is not at the `k`th of `n` places stays where it is when that place goes. -/
def KeepsPlace (n k hash : Nat) : Prop :=
  (hash % n < k → n - 1 ∣ hash / n) ∧ (k < hash % n → n - 1 ∣ hash / n + 1)

instance (n k hash : Nat) : Decidable (KeepsPlace n k hash) := inferInstanceAs (Decidable (_ ∧ _))

variable {α : Type*}

/-- The place without the `k`th is the same one exactly if the quotient is right. -/
theorem getElem?_eraseIdx_mod {xs : List α} (distinct : xs.Nodup) {k hash : Nat} (inside : k < xs.length)
    (other : hash % xs.length ≠ k) :
    (xs.eraseIdx k)[hash % (xs.length - 1)]? = xs[hash % xs.length]? ↔ KeepsPlace xs.length k hash := by
  have places : hash % xs.length < xs.length := Nat.mod_lt _ (Nat.zero_lt_of_lt inside)
  have split := Nat.div_add_mod hash xs.length
  -- a hash is the quotient and the remainder, as far as the fewer places are concerned
  have fewer : ∀ rest, hash / xs.length + hash % xs.length = rest → hash % (xs.length - 1) = rest % (xs.length - 1) := by
    rintro _ rfl
    obtain ⟨m, whole⟩ : ∃ m, xs.length = m + 1 := Nat.exists_eq_succ_of_ne_zero (by omega)
    rw [whole] at split ⊢
    rw [Nat.add_sub_cancel]
    conv_lhs => rw [← split, Nat.add_mul, Nat.one_mul, Nat.add_assoc, Nat.mul_add_mod]
  have position : ∀ j, j < xs.length - 1 →
      ((xs.eraseIdx k)[j]? = xs[hash % xs.length]? ↔ (if j < k then j else j + 1) = hash % xs.length) := by
    intro j within
    rw [getElem?_eraseIdx]
    split
    · exact getElem?_inj (by omega) distinct
    · exact getElem?_inj (by omega) distinct
  have within : hash % (xs.length - 1) < xs.length - 1 := Nat.mod_lt _ (by omega)
  rw [position _ within]
  rcases Nat.lt_or_gt_of_ne other with before | after
  · have stays := add_mod_eq_iff (show hash % xs.length < xs.length - 1 by omega) (a := hash / xs.length)
    have same := fewer _ rfl
    unfold KeepsPlace
    rw [← stays, ← same]
    constructor
    · intro placed
      refine ⟨fun _ => ?_, fun above => absurd above (by omega)⟩
      split at placed <;> omega
    · intro stays
      rw [stays.1 before, if_pos before]
  · have stays := add_mod_eq_iff (show hash % xs.length - 1 < xs.length - 1 by omega) (a := hash / xs.length + 1)
    have same := fewer (hash / xs.length + 1 + (hash % xs.length - 1)) (by omega)
    unfold KeepsPlace
    rw [← stays, ← same]
    constructor
    · intro placed
      refine ⟨fun below => absurd below (by omega), fun _ => ?_⟩
      split at placed <;> omega
    · intro stays
      rw [stays.2 after, if_neg (by omega)]
      omega

/-! ## Ranks -/

variable [LinearOrder α]

/-- A place is after those that are less. -/
theorem idxOf_eq_length_filter {xs : List α} (sorted : xs.Pairwise (· < ·)) {x : α} (there : x ∈ xs) :
    xs.idxOf x = (xs.filter (· < x)).length := by
  induction xs with
  | nil => cases there
  | cons a xs ih =>
    obtain ⟨least, sorted'⟩ := pairwise_cons.mp sorted
    rcases mem_cons.mp there with rfl | later
    · have none : xs.filter (· < x) = [] := by
        rw [filter_eq_nil_iff]
        intro b inside
        rw [decide_eq_true_eq]
        exact (least b inside).asymm
      rw [idxOf_cons_self, filter_cons_of_neg (by simp), none, length_nil]
    · have below := least x later
      rw [idxOf_cons_ne _ below.ne, ih sorted' later, filter_cons_of_pos (by simpa using below), length_cons]

theorem idxOf_sort {s : Finset α} {x : α} (there : x ∈ s) : (s.sort (· ≤ ·)).idxOf x = (s.filter (· < x)).card := by
  rw [idxOf_eq_length_filter s.sortedLT_sort.pairwise ((Finset.mem_sort _).mpr there)]
  have distinct : ((s.sort (· ≤ ·)).filter (· < x)).Nodup := (Finset.sort_nodup s _).filter _
  rw [← toFinset_card_of_nodup distinct, toFinset_filter, Finset.sort_toFinset]
  simp only [decide_eq_true_eq]

theorem sort_erase {s : Finset α} {x : α} (there : x ∈ s) :
    (s.erase x).sort (· ≤ ·) = (s.sort (· ≤ ·)).eraseIdx (s.filter (· < x)).card := by
  rw [← idxOf_sort there, ← erase_eq_eraseIdx_of_idxOf rfl]
  apply Perm.eq_of_pairwise' (Finset.pairwise_sort _ _) ((Finset.pairwise_sort _ _).sublist erase_sublist)
  apply (perm_ext_iff_of_nodup (Finset.sort_nodup _ _) ((Finset.sort_nodup _ _).erase _)).mpr
  intro y
  rw [Finset.mem_sort, Finset.mem_erase, (Finset.sort_nodup s _).mem_erase_iff, Finset.mem_sort]

end StreamHouse.Lib
