import Mathlib.Data.List.Induction

/-!
# Records that name their predecessor

Each record carries a hash of its own and that of the record before it; the first one carries a
given start.
-/

namespace StreamHouse.Lib.HashChain

open List

variable {ρ η : Type*} (prev hash : ρ → η)

/-- Every record names the one before it. -/
def Linked : η → List ρ → Prop
  | _, [] => True
  | start, r :: rest => prev r = start ∧ Linked (hash r) rest

/-- The hash that the next record has to name. -/
def tip (start : η) (l : List ρ) : η := l.foldl (fun _ r => hash r) start

@[simp] theorem tip_append (start : η) (l l' : List ρ) : tip hash start (l ++ l') = tip hash (tip hash start l) l' :=
  foldl_append

@[simp] theorem tip_singleton (start : η) (r : ρ) : tip hash start [r] = hash r := rfl

theorem linked_append {start : η} {l l' : List ρ} :
    Linked prev hash start (l ++ l') ↔ Linked prev hash start l ∧ Linked prev hash (tip hash start l) l' := by
  induction l generalizing start with
  | nil => exact ⟨fun linked => ⟨trivial, linked⟩, And.right⟩
  | cons r rest ih =>
    show prev r = start ∧ Linked prev hash (hash r) (rest ++ l') ↔ _
    rw [ih, ← and_assoc]
    exact Iff.rfl

/-- The chain goes on with a record that names its tip. -/
theorem Linked.snoc {start : η} {l : List ρ} {r : ρ} (linked : Linked prev hash start l) (names : prev r = tip hash start l) :
    Linked prev hash start (l ++ [r]) :=
  (linked_append prev hash).mpr ⟨linked, names, trivial⟩

/-- **Two chains with one tip have the same contents**, where a hash tells the contents of its record and
that of the record before it, and is no start of a chain. -/
theorem contents_eq_of_tip {δ : Type*} {content : ρ → δ} {start : η} {l l' : List ρ} (linked : Linked prev hash start l)
    (linked' : Linked prev hash start l') (tells : ∀ r ∈ l, ∀ r' ∈ l', hash r = hash r' → content r = content r' ∧ prev r = prev r')
    (begun : ∀ r ∈ l, hash r ≠ start) (begun' : ∀ r ∈ l', hash r ≠ start) (same : tip hash start l = tip hash start l') :
    l.map content = l'.map content := by
  induction l using reverseRecOn generalizing l' with
  | nil =>
    rcases l'.eq_nil_or_concat with rfl | ⟨before, r, rfl⟩
    · rfl
    · rw [concat_eq_append] at begun' same
      rw [tip_append, tip_singleton] at same
      exact absurd same.symm (begun' r (mem_append_right _ mem_cons_self))
  | append_singleton l r ih =>
    rcases l'.eq_nil_or_concat with rfl | ⟨l', r', rfl⟩
    · rw [tip_append, tip_singleton] at same
      exact absurd same (begun r (mem_append_right _ mem_cons_self))
    · rw [concat_eq_append] at linked' tells begun' same ⊢
      rw [tip_append, tip_append, tip_singleton, tip_singleton] at same
      obtain ⟨front, names, -⟩ := (linked_append prev hash).mp linked
      obtain ⟨front', names', -⟩ := (linked_append prev hash).mp linked'
      obtain ⟨contents, before⟩ := tells r (mem_append_right _ mem_cons_self) r' (mem_append_right _ mem_cons_self) same
      have tips : tip hash start l = tip hash start l' := by rw [← names, ← names', before]
      have rest := ih front front' (fun a inside b inside' => tells a (mem_append_left _ inside) b (mem_append_left _ inside'))
        (fun a inside => begun a (mem_append_left _ inside)) (fun a inside => begun' a (mem_append_left _ inside)) tips
      rw [map_append, map_append, rest, map_singleton, map_singleton, contents]

end StreamHouse.Lib.HashChain
