import Mathlib.Data.List.Basic
import Mathlib.Logic.Relation

/-!
# Ancestors

Of a node with at most one parent, which may be among its own descendants, the walk collects the
ancestors, and stops at the first one that it has visited.
-/

namespace StreamHouse.Lib

open List

/-- Parents of finitely many nodes. -/
structure Ancestry (α : Type*) where
  parent : α → Option α
  nodes : List α
  listed : ∀ a b, parent a = some b → a ∈ nodes

namespace Ancestry

variable {α : Type*} (tree : Ancestry α)

/-- One is an ancestor of the other, or the same. -/
def Reaches : α → α → Prop := Relation.ReflTransGen fun a b => tree.parent a = some b

variable [DecidableEq α]

def unvisited (visited : List α) : Nat := (tree.nodes.filter fun a => a ∉ visited).length

variable {tree}

variable {a : α} {visited : List α}

theorem unvisited_lt {b : α} (fresh : a ∉ visited) (above : tree.parent a = some b) :
    tree.unvisited (a :: visited) < tree.unvisited visited := by
  have fewer : (tree.nodes.filter fun c => c ∉ a :: visited) =
      (tree.nodes.filter fun c => c ∉ visited).filter fun c => c ≠ a := by
    rw [filter_filter]
    congr 1
    funext c
    simp
  unfold unvisited
  rw [fewer]
  apply length_filter_lt_length_iff_exists.mpr
  refine ⟨a, mem_filter.mpr ⟨tree.listed a b above, by simpa using fresh⟩, ?_⟩
  simp

variable (tree)

/-- The node and its ancestors behind what is collected, up to the first visited. -/
def collect (a : α) (effective visited : List α) : List α × List α :=
  if _ : a ∈ visited then (effective, visited)
  else
    match _ : tree.parent a with
    | some b => collect b (effective ++ [a]) (a :: visited)
    | none => (effective ++ [a], a :: visited)
termination_by tree.unvisited visited
decreasing_by exact unvisited_lt ‹_› ‹_›

def collectAll (start : List α) : List α :=
  (start.foldl (fun (collected : List α × List α) a => tree.collect a collected.1 collected.2) ([], [])).1

variable {tree}

/-- The parents of what is visited are visited, but for the one to be visited next. -/
def ClosedUpTo (tree : Ancestry α) (next : Option α) (visited : List α) : Prop :=
  ∀ a ∈ visited, ∀ b, tree.parent a = some b → b ∈ visited ∨ some b = next

/-- What the walk leaves, if it was begun with this. -/
structure Collected (tree : Ancestry α) (a : α) (visited : List α) (after : List α × List α) : Prop where
  same : ∀ b, b ∈ after.1 ↔ b ∈ after.2
  closed : ClosedUpTo tree none after.2
  keeps : ∀ b ∈ visited, b ∈ after.2
  start : a ∈ after.2
  only : ∀ b ∈ after.2, b ∈ visited ∨ tree.Reaches a b

omit [DecidableEq α] in
theorem closed_next {b : α} (closed : ClosedUpTo tree (some a) visited) (above : tree.parent a = some b) :
    ClosedUpTo tree (some b) (a :: visited) := by
  intro c inside d parent
  obtain rfl | inside := mem_cons.mp inside
  · exact .inr (above ▸ parent.symm)
  · obtain seen | next := closed c inside d parent
    · exact .inl (mem_cons_of_mem _ seen)
    · exact .inl (Option.some.inj next ▸ mem_cons_self)

omit [DecidableEq α] in
theorem closed_last (closed : ClosedUpTo tree (some a) visited) (root : tree.parent a = none) :
    ClosedUpTo tree none (a :: visited) := by
  intro c inside d parent
  obtain rfl | inside := mem_cons.mp inside
  · rw [root] at parent
    cases parent
  · obtain seen | next := closed c inside d parent
    · exact .inl (mem_cons_of_mem _ seen)
    · exact .inl (Option.some.inj next ▸ mem_cons_self)

omit [DecidableEq α] in
theorem closed_visited (closed : ClosedUpTo tree (some a) visited) (seen : a ∈ visited) : ClosedUpTo tree none visited := by
  intro c inside d parent
  obtain there | next := closed c inside d parent
  · exact .inl there
  · exact .inl (Option.some.inj next ▸ seen)

omit [DecidableEq α] in
theorem mem_push {effective : List α} (same : ∀ b, b ∈ effective ↔ b ∈ visited) (b : α) :
    b ∈ effective ++ [a] ↔ b ∈ a :: visited := by
  rw [mem_append, mem_singleton, mem_cons, same, or_comm]

theorem collect_collected {effective : List α} (same : ∀ b, b ∈ effective ↔ b ∈ visited)
    (closed : ClosedUpTo tree (some a) visited) : Collected tree a visited (tree.collect a effective visited) := by
  fun_induction tree.collect a effective visited with
  | case1 a effective visited seen => exact ⟨same, closed_visited closed seen, fun _ => id, seen, fun _ => .inl⟩
  | case2 a effective visited fresh b above ih =>
    obtain ⟨same', closed', keeps, start, only⟩ := ih (mem_push same) (closed_next closed above)
    refine ⟨same', closed', fun c seen => keeps c (mem_cons_of_mem _ seen), keeps a mem_cons_self, fun c inside => ?_⟩
    obtain seen | reached := only c inside
    · obtain rfl | seen := mem_cons.mp seen
      · exact .inr .refl
      · exact .inl seen
    · exact .inr (.head above reached)
  | case3 a effective visited fresh root =>
    refine ⟨mem_push same, closed_last closed root, fun c seen => mem_cons_of_mem _ seen, mem_cons_self, fun c inside => ?_⟩
    obtain rfl | seen := mem_cons.mp inside
    · exact .inr .refl
    · exact .inl seen

omit [DecidableEq α] in
theorem ClosedUpTo.reaches {b : α} (closed : ClosedUpTo tree none visited) (inside : a ∈ visited)
    (reached : tree.Reaches a b) : b ∈ visited := by
  induction reached with
  | refl => exact inside
  | tail _ above ih => exact (closed _ ih _ above).resolve_right (by simp)

/-- **What is collected is what can be reached.** -/
theorem mem_collectAll {start : List α} {b : α} : b ∈ tree.collectAll start ↔ ∃ a ∈ start, tree.Reaches a b := by
  have walk : ∀ (start : List α) (before : List α × List α), (∀ b, b ∈ before.1 ↔ b ∈ before.2) → ClosedUpTo tree none before.2 →
      ∀ b, b ∈ (start.foldl (fun (collected : List α × List α) a => tree.collect a collected.1 collected.2) before).1 ↔
        b ∈ before.2 ∨ ∃ a ∈ start, tree.Reaches a b := by
    intro start
    induction start with
    | nil =>
      intro before same _ b
      rw [foldl_nil, same]
      simp
    | cons a start ih =>
      intro before same closed b
      have first := collect_collected same (a := a) fun c inside d parent => .inl ((closed c inside d parent).resolve_right (by simp))
      rw [foldl_cons, ih _ first.same first.closed]
      constructor
      · rintro (inside | ⟨c, later, reached⟩)
        · obtain seen | reached := first.only b inside
          · exact .inl seen
          · exact .inr ⟨a, mem_cons_self, reached⟩
        · exact .inr ⟨c, mem_cons_of_mem _ later, reached⟩
      · rintro (seen | ⟨c, inside, reached⟩)
        · exact .inl (first.keeps b seen)
        · obtain rfl | later := mem_cons.mp inside
          · exact .inl (first.closed.reaches first.start reached)
          · exact .inr ⟨c, later, reached⟩
  rw [collectAll, walk start ([], []) (fun _ => Iff.rfl) (fun _ inside => by cases inside)]
  simp

end Ancestry

end StreamHouse.Lib
