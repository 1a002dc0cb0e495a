import Mathlib.Data.String.Basic
import StreamHouse.Lib.RoundRobin

/-!
# Which agent takes which partition

`RebalanceTask::perform_rebalance` (`assigner.rs`), as far as the new assignment. Every
agent works it out for itself, from the agents and the topics as they are listed to it:
all partitions and all agents are sorted, and the `i`th partition is the `i % n`th
agent's. A read that fails ends the pass before there is an assignment.
-/

namespace StreamHouse.Agent
open Lib List

abbrev TopicPartitionId := String × Nat

/-- The order of `(String, u32)`. -/
def TopicPartitionId.Before (p q : TopicPartitionId) : Prop := p.1 < q.1 ∨ p.1 = q.1 ∧ p.2 ≤ q.2

instance : DecidableRel TopicPartitionId.Before := fun _ _ => inferInstanceAs (Decidable (_ ∨ _))

/-- The partitions of the topics that `get_topic` finds; `partitionCount` is its answer. -/
def allPartitions (partitionCount : String → Option Nat) (topics : List String) : List TopicPartitionId :=
  topics.flatMap fun topic =>
    match partitionCount topic with
    | some count => (List.range count).map fun partitionId => (topic, partitionId)
    | none => []

/-- Partition `i` goes to `sorted_agents[i % num_agents]`. -/
def computeAssignment (agentId : String) (agentIds : List String) (partitionCount : String → Option Nat) (topics : List String) :
    Finset TopicPartitionId :=
  let sortedPartitions := (allPartitions partitionCount topics).insertionSort TopicPartitionId.Before
  let sortedAgents := agentIds.insertionSort (· ≤ ·)
  let numAgents := sortedAgents.length
  ((sortedPartitions.zipIdx.filter fun p => sortedAgents[p.2 % numAgents]? = some agentId).map Prod.fst).toFinset

/-- The assignment of a pass; without live agents it is skipped. -/
def performRebalance (agentId : String) (agentIds : List String) (partitionCount : String → Option Nat) (topics : List String) :
    Option (Finset TopicPartitionId) :=
  if agentIds = [] then none else some (computeAssignment agentId agentIds partitionCount topics)

/-! ## Sorting -/

instance : Std.Total TopicPartitionId.Before where
  total p q := by
    unfold TopicPartitionId.Before
    obtain less | same | greater := lt_trichotomy p.1 q.1
    · exact .inl (.inl less)
    · obtain below | above := Nat.le_total p.2 q.2
      · exact .inl (.inr ⟨same, below⟩)
      · exact .inr (.inr ⟨same.symm, above⟩)
    · exact .inr (.inl greater)

instance : IsTrans TopicPartitionId TopicPartitionId.Before where
  trans p q r one two := by
    unfold TopicPartitionId.Before at *
    obtain less | ⟨same, below⟩ := one
    · obtain less' | ⟨same', -⟩ := two
      · exact .inl (less.trans less')
      · exact .inl (same' ▸ less)
    · obtain less' | ⟨same', below'⟩ := two
      · exact .inl (same ▸ less')
      · exact .inr ⟨same.trans same', below.trans below'⟩

instance : Std.Antisymm TopicPartitionId.Before where
  antisymm p q one two := by
    unfold TopicPartitionId.Before at *
    obtain less | ⟨same, below⟩ := one
    · obtain greater | ⟨same', -⟩ := two
      · exact absurd greater less.asymm
      · exact absurd less (same' ▸ lt_irrefl _)
    · obtain greater | ⟨-, above⟩ := two
      · exact absurd greater (same ▸ lt_irrefl _)
      · exact Prod.ext same (Nat.le_antisymm below above)

theorem allPartitions_perm (partitionCount : String → Option Nat) {topics topics' : List String} (same : topics.Perm topics') :
    (allPartitions partitionCount topics).Perm (allPartitions partitionCount topics') :=
  same.flatMap_right _

theorem mem_allPartitions {partitionCount : String → Option Nat} {topics : List String} {p : TopicPartitionId} :
    p ∈ allPartitions partitionCount topics ↔ p.1 ∈ topics ∧ ∃ count ∈ partitionCount p.1, p.2 < count := by
  unfold allPartitions
  rw [mem_flatMap]
  constructor
  · rintro ⟨topic, listed, member⟩
    cases found : partitionCount topic with
    | none => simp [found] at member
    | some count =>
      simp only [found, mem_map, mem_range] at member
      obtain ⟨partitionId, below, rfl⟩ := member
      exact ⟨listed, count, found, below⟩
  · rintro ⟨listed, count, found, below⟩
    refine ⟨p.1, listed, ?_⟩
    rw [Option.mem_def.1 found]
    exact mem_map.2 ⟨p.2, mem_range.2 below, rfl⟩

theorem allPartitions_nodup (partitionCount : String → Option Nat) {topics : List String} (distinct : topics.Nodup) :
    (allPartitions partitionCount topics).Nodup := by
  refine nodup_flatMap.2 ⟨?_, ?_⟩
  · intro topic _
    cases partitionCount topic with
    | none => exact nodup_nil
    | some count => exact nodup_range.map fun a b equal => (Prod.mk.inj equal).2
  · refine distinct.imp fun {a b} different p one two => different ?_
    cases first : partitionCount a with
    | none => simp [first] at one
    | some count =>
      cases second : partitionCount b with
      | none => simp [second] at two
      | some count' =>
        simp only [first, mem_map] at one
        simp only [second, mem_map] at two
        obtain ⟨i, -, rfl⟩ := one
        obtain ⟨j, -, equal⟩ := two
        exact (Prod.mk.inj equal).1.symm

/-! ## Shares -/

section dealt
variable {agents topics : List String} (distinctAgents : agents.Nodup) (distinctTopics : topics.Nodup)
  (partitionCount : String → Option Nat)

/-- All partitions as every agent has them before it. -/
def dealt (partitionCount : String → Option Nat) (topics : List String) : List TopicPartitionId :=
  (allPartitions partitionCount topics).insertionSort TopicPartitionId.Before

/-- The place of an agent among all of them. -/
def place (agents : List String) (agentId : String) : Nat := (agents.insertionSort (· ≤ ·)).idxOf agentId

include distinctTopics in
theorem dealt_nodup : (dealt partitionCount topics).Nodup :=
  (perm_insertionSort _ _).nodup_iff.2 (allPartitions_nodup partitionCount distinctTopics)

theorem mem_dealt {p : TopicPartitionId} : p ∈ dealt partitionCount topics ↔ p ∈ allPartitions partitionCount topics :=
  mem_insertionSort _

theorem place_lt {agentId : String} (live : agentId ∈ agents) : place agents agentId < agents.length := by
  have here : agentId ∈ agents.insertionSort (· ≤ ·) := (mem_insertionSort _).2 live
  have inside := idxOf_lt_length_iff.2 here
  rwa [length_insertionSort] at inside

theorem place_injective {a b : String} (live : a ∈ agents) (same : place agents a = place agents b) : a = b := by
  have here : a ∈ agents.insertionSort (· ≤ ·) := (mem_insertionSort _).2 live
  exact (idxOf_inj here).1 same

include distinctAgents in
theorem exists_place {j : Nat} (inside : j < agents.length) : ∃ agentId ∈ agents, place agents agentId = j := by
  have bound : j < (agents.insertionSort (· ≤ ·)).length := by rwa [length_insertionSort]
  have distinct : (agents.insertionSort (· ≤ ·)).Nodup := (perm_insertionSort _ _).nodup_iff.2 distinctAgents
  exact ⟨(agents.insertionSort (· ≤ ·))[j], (mem_insertionSort _).1 (getElem_mem bound), distinct.idxOf_getElem j bound⟩

include distinctAgents in
/-- **What an agent computes is its share**, in whatever order the lists came to it. -/
theorem computeAssignment_eq {agentId : String} (live : agentId ∈ agents) {ownAgents ownTopics : List String}
    (sameAgents : ownAgents.Perm agents) (sameTopics : ownTopics.Perm topics) :
    computeAssignment agentId ownAgents partitionCount ownTopics =
      (share (dealt partitionCount topics) agents.length (place agents agentId)).toFinset := by
  have sortedAgents : ownAgents.insertionSort (· ≤ ·) = agents.insertionSort (· ≤ ·) := insertionSort_eq_of_perm _ sameAgents
  have sortedPartitions : (allPartitions partitionCount ownTopics).insertionSort TopicPartitionId.Before = dealt partitionCount topics :=
    insertionSort_eq_of_perm _ (allPartitions_perm partitionCount sameTopics)
  have distinct : (agents.insertionSort (· ≤ ·)).Nodup := (perm_insertionSort _ _).nodup_iff.2 distinctAgents
  have here : agentId ∈ agents.insertionSort (· ≤ ·) := (mem_insertionSort _).2 live
  have places : 0 < agents.length := length_pos_of_mem live
  -- the agent at a position is this one just if the position is its place
  have own : ∀ i, (agents.insertionSort (· ≤ ·))[i % agents.length]? = some agentId ↔ i % agents.length = place agents agentId := by
    intro i
    have inside : i % agents.length < (agents.insertionSort (· ≤ ·)).length := by
      rw [length_insertionSort]
      exact Nat.mod_lt i places
    rw [← getElem?_idxOf here, getElem?_inj inside distinct]
    rfl
  unfold computeAssignment share
  simp only [sortedAgents, sortedPartitions, length_insertionSort, own]

end dealt

/-- **The agents agree.** The assignments that any number of live agents compute, each from its
own lists in its own order, are disjoint, make up all partitions of the topics, and differ in
size by one at most. -/
theorem assignments_agree {agents topics : List String} (live : agents ≠ []) (distinctAgents : agents.Nodup)
    (distinctTopics : topics.Nodup) (partitionCount : String → Option Nat) {ownAgents ownTopics : String → List String}
    (sameAgents : ∀ a ∈ agents, (ownAgents a).Perm agents) (sameTopics : ∀ a ∈ agents, (ownTopics a).Perm topics) :
    ∃ assigned : String → Finset TopicPartitionId,
      (∀ a ∈ agents, performRebalance a (ownAgents a) partitionCount (ownTopics a) = some (assigned a)) ∧
      (∀ a ∈ agents, ∀ b ∈ agents, a ≠ b → Disjoint (assigned a) (assigned b)) ∧
      (∀ p : TopicPartitionId, (∃ a ∈ agents, p ∈ assigned a) ↔ p.1 ∈ topics ∧ ∃ count ∈ partitionCount p.1, p.2 < count) ∧
      ∀ a ∈ agents, ∀ b ∈ agents, (assigned a).card ≤ (assigned b).card + 1 := by
  have places : 0 < agents.length := length_pos_of_ne_nil live
  have distinct := dealt_nodup distinctTopics partitionCount
  refine ⟨fun a => (share (dealt partitionCount topics) agents.length (place agents a)).toFinset, ?_, ?_, ?_, ?_⟩
  · intro a member
    have listed : ownAgents a ≠ [] := by
      intro none
      have same := sameAgents a member
      rw [none] at same
      exact live same.nil_eq.symm
    rw [performRebalance, if_neg listed, computeAssignment_eq distinctAgents partitionCount member (sameAgents a member) (sameTopics a member)]
  · intro a here b there different
    refine Finset.disjoint_left.2 fun p one two => different ?_
    exact place_injective here (share_unique distinct (mem_toFinset.1 one) (mem_toFinset.1 two))
  · intro p
    rw [← mem_allPartitions, ← mem_dealt, ← exists_mem_share places]
    constructor
    · rintro ⟨a, member, share⟩
      exact ⟨place agents a, place_lt member, mem_toFinset.1 share⟩
    · rintro ⟨j, inside, share⟩
      obtain ⟨a, member, rfl⟩ := exists_place distinctAgents inside
      exact ⟨a, member, mem_toFinset.2 share⟩
  · intro a here b there
    rw [toFinset_card_of_nodup (share_nodup distinct _ _), toFinset_card_of_nodup (share_nodup distinct _ _)]
    exact share_length_le _ (place_lt here) (place_lt there)

/-- Two agents that list each other in different orders, and a topic of three partitions. -/
theorem assignments_agree_two_agents :
    ∃ one two, performRebalance "a" ["b", "a"] (fun _ => some 3) ["orders"] = some one ∧
      performRebalance "b" ["a", "b"] (fun _ => some 3) ["orders"] = some two ∧ Disjoint one two ∧ ("orders", 2) ∈ one ∪ two := by
  have listed : ∀ a ∈ ["a", "b"], (if a = "a" then ["b", "a"] else ["a", "b"]).Perm ["a", "b"] := by decide
  obtain ⟨assigned, computed, disjoint, covered, -⟩ :=
    assignments_agree (by decide) (by decide) (by decide : ["orders"].Nodup) (fun _ => some 3) listed (fun _ _ => Perm.refl _)
  refine ⟨_, _, computed "a" (by decide), computed "b" (by decide), disjoint "a" (by decide) "b" (by decide) (by decide), ?_⟩
  obtain ⟨a, member, here⟩ := (covered ("orders", 2)).2 ⟨by decide, 3, rfl, by decide⟩
  obtain rfl | rfl : a = "a" ∨ a = "b" := by simpa using member
  · exact Finset.mem_union_left _ here
  · exact Finset.mem_union_right _ here

end StreamHouse.Agent
