import Mathlib.Data.List.Perm.Basic
import Mathlib.Data.List.SplitBy

/-!
# The parts of a list

`List.splitBy` cuts a list between neighbours that a relation does not hold of. The parts grow at
the end with the list, depend on the relation between neighbours only, and go through a map.
-/

namespace StreamHouse.Lib.Parts

open List

variable {α β : Type*} {r : α → α → Bool}

/-- An item that is close to the last one joins the last part. -/
theorem splitBy_snoc {l : List α} {done : List (List α)} {last : List α} (parts : l.splitBy r = done ++ [last]) {a : α}
    (close : ∀ b ∈ last.getLast?, r b a = true) : (l ++ [a]).splitBy r = done ++ [last ++ [a]] := by
  obtain ⟨flat, some, chains, cuts⟩ := splitBy_eq_iff.mp parts
  have lastSome : last ≠ [] := fun empty => some (by rw [empty]; exact mem_append_right _ mem_cons_self)
  refine splitBy_eq_iff.mpr ⟨?_, ?_, ?_, ?_⟩
  · rw [flat, flatten_append, flatten_append, flatten_singleton, flatten_singleton, append_assoc]
  · intro inside
    obtain early | late := mem_append.mp inside
    · exact some (mem_append_left _ early)
    · exact append_ne_nil_of_left_ne_nil lastSome [a] (mem_singleton.mp late).symm
  · intro part inside
    obtain early | late := mem_append.mp inside
    · exact chains part (mem_append_left _ early)
    · rw [mem_singleton.mp late]
      refine isChain_append.mpr ⟨chains last (mem_append_right _ mem_cons_self), isChain_singleton a, ?_⟩
      rintro b isLast c ⟨⟩
      exact close b isLast
  · obtain ⟨before, -, joint⟩ := isChain_append.mp cuts
    refine isChain_append.mpr ⟨before, isChain_singleton _, ?_⟩
    rintro part isLast _ ⟨⟩
    obtain ⟨hp, hl, cut⟩ := joint part isLast last rfl
    refine ⟨hp, append_ne_nil_of_left_ne_nil lastSome [a], ?_⟩
    rw [head_append_of_ne_nil lastSome]
    exact cut

/-- The parts of a list that has some are those before the last, and the last. -/
theorem exists_last_part {l : List α} (some : l ≠ []) : ∃ done last, l.splitBy r = done ++ [last] ∧ last.getLast? = l.getLast? := by
  have partsSome : l.splitBy r ≠ [] := splitBy_ne_nil.mpr some
  refine ⟨_, _, (dropLast_append_getLast partsSome).symm, ?_⟩
  have lastSome := ne_nil_of_mem_splitBy (getLast_mem partsSome)
  rw [getLast?_eq_some_getLast lastSome, getLast?_eq_some_getLast some, getLast_getLast_splitBy]

/-- A relation that holds in the parts and across the cuts holds of all neighbours. -/
theorem isChain_of_parts {R : α → α → Prop} {l : List α} (within : ∀ part ∈ l.splitBy r, part.IsChain R)
    (across : ∀ a ∈ l, ∀ b ∈ l, r a b = false → R a b) : l.IsChain R := by
  rw [← flatten_splitBy r l, isChain_flatten (nil_notMem_splitBy r l)]
  refine ⟨within, (isChain_getLast_head_splitBy r l).imp_of_mem_imp fun s t inS inT ⟨hs, ht, cut⟩ => ?_⟩
  intro a isLast b isHead
  rw [getLast?_eq_some_getLast hs] at isLast
  rw [head?_eq_some_head ht] at isHead
  obtain rfl := Option.some.inj isLast
  obtain rfl := Option.some.inj isHead
  have inList {part : List α} (isPart : part ∈ l.splitBy r) {c : α} (inPart : c ∈ part) : c ∈ l := by
    rw [← flatten_splitBy r l]
    exact mem_flatten.mpr ⟨part, isPart, inPart⟩
  exact across _ (inList inS (getLast_mem hs)) _ (inList inT (head_mem ht)) cut

/-- Only the relation between neighbours counts. -/
theorem splitBy_congr {r' : α → α → Bool} {l : List α} (same : l.IsChain fun a b => r a b = r' a b) : l.splitBy r = l.splitBy r' := by
  refine splitBy_eq_iff.mpr ⟨(flatten_splitBy r' l).symm, nil_notMem_splitBy r' l, ?_, ?_⟩
  all_goals rw [← flatten_splitBy r' l, isChain_flatten (nil_notMem_splitBy r' l)] at same
  · intro part inside
    have close := isChain_of_mem_splitBy inside
    have agree := same.1 part inside
    rw [isChain_iff_getElem] at close agree ⊢
    intro i bound
    rw [agree i bound]
    exact close i bound
  · have cuts := isChain_getLast_head_splitBy r' l
    have agree := same.2
    rw [isChain_iff_getElem] at cuts agree ⊢
    intro i bound
    obtain ⟨hs, ht, cut⟩ := cuts i bound
    refine ⟨hs, ht, ?_⟩
    rw [agree i bound _ (getLast_mem_getLast? hs) _ (head_mem_head? ht)]
    exact cut

theorem map_splitBy (f : α → β) (r : β → β → Bool) (l : List α) :
    (l.map f).splitBy r = (l.splitBy fun a b => r (f a) (f b)).map (List.map f) := by
  refine splitBy_eq_iff.mpr ⟨?_, ?_, ?_, ?_⟩
  · rw [← map_flatten, flatten_splitBy]
  · intro inside
    obtain ⟨part, isPart, empty⟩ := mem_map.mp inside
    exact ne_nil_of_mem_splitBy isPart (map_eq_nil_iff.mp empty)
  · intro part inside
    obtain ⟨part, isPart, rfl⟩ := mem_map.mp inside
    rw [isChain_map]
    exact isChain_of_mem_splitBy isPart
  · rw [isChain_map]
    refine (isChain_getLast_head_splitBy _ l).imp fun s t ⟨hs, ht, cut⟩ => ?_
    refine ⟨by simpa using hs, by simpa using ht, ?_⟩
    rw [getLast_map, head_map]
    exact cut

/-- A part of parts that have no value in common is what has its values. -/
theorem filter_part [DecidableEq β] {f : α → β} {parts : List (List α)}
    (apart : parts.Pairwise fun s t => ∀ a ∈ s, ∀ b ∈ t, f a ≠ f b) {part : List α} (inside : part ∈ parts) :
    parts.flatten.filter (fun a => decide (f a ∈ part.map f)) = part := by
  induction parts with
  | nil => cases inside
  | cons s parts ih =>
    obtain ⟨first, others⟩ := pairwise_cons.mp apart
    rw [flatten_cons, filter_append]
    obtain rfl | later := mem_cons.mp inside
    · have all : part.filter (fun a => decide (f a ∈ part.map f)) = part :=
        filter_eq_self.mpr fun a inPart => decide_eq_true (mem_map_of_mem inPart)
      have none : parts.flatten.filter (fun a => decide (f a ∈ part.map f)) = [] := by
        refine filter_eq_nil_iff.mpr fun b inOthers isThere => ?_
        obtain ⟨t, isPart, inT⟩ := mem_flatten.mp inOthers
        obtain ⟨a, inPart, same⟩ := mem_map.mp (of_decide_eq_true isThere)
        exact first t isPart a inPart b inT same
      rw [all, none, append_nil]
    · have none : s.filter (fun a => decide (f a ∈ part.map f)) = [] := by
        refine filter_eq_nil_iff.mpr fun a inS isThere => ?_
        obtain ⟨b, inPart, same⟩ := mem_map.mp (of_decide_eq_true isThere)
        exact first part later a inS b inPart same.symm
      rw [none, nil_append, ih others later]

/-- What is selected by each of the values that occur is all there is. -/
theorem flatMap_filter_perm [DecidableEq β] (f : α → β) {keys : List β} (nodup : keys.Nodup) {l : List α} (all : ∀ a ∈ l, f a ∈ keys) :
    (keys.flatMap fun key => l.filter fun a => f a = key).Perm l := by
  induction keys generalizing l with
  | nil =>
    cases l with
    | nil => exact .refl _
    | cons a l => cases all a mem_cons_self
  | cons key keys ih =>
    obtain ⟨new, rest⟩ := nodup_cons.mp nodup
    rw [flatMap_cons]
    have others : (keys.flatMap fun other => l.filter fun a => f a = other) =
        keys.flatMap fun other => (l.filter fun a => !decide (f a = key)).filter fun a => f a = other := by
      refine flatMap_congr fun other inside => ?_
      rw [filter_filter]
      refine filter_congr fun a _ => ?_
      have different : other ≠ key := fun same => new (same ▸ inside)
      by_cases here : f a = other
      · simp [here, different]
      · simp [here]
    rw [others]
    refine (Perm.append_left _ (ih rest fun a inside => ?_)).trans (filter_append_perm _ l)
    obtain ⟨inList, different⟩ := mem_filter.mp inside
    obtain same | later := mem_cons.mp (all a inList)
    · simp [same] at different
    · exact later

end StreamHouse.Lib.Parts
