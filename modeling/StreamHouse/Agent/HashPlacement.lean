import StreamHouse.Agent.Rebalancer
import StreamHouse.Lib.ByRemainder

/-!
# Consistent hashing

The strategy is there for stable assignments when nodes come and go, and places a partition at the
remainder of its hash by the number of nodes. `stable_iff` says which hashes a change of one node leaves
alone: those whose quotient by the larger number of nodes is a multiple of the smaller one, or is short of
one by one for the partitions behind that node.
-/

namespace StreamHouse.Agent.PartitionRebalancer
open Lib Lib.HashMaps List

/-- The hash of a partition. -/
def keyHash (hashString : String → UInt64) (key : TopicPartitionId) : Nat := (hashString (key.1 ++ ":" ++ toString key.2)).toNat

/-- A node that is removed moves only its own partitions, and to a node that is added only its own move. -/
structure Stable (hashString : String → UInt64) (s : PartitionRebalancer) (node : String) : Prop where
  removed : node ∈ s.nodeLoads → ∀ before after, newAssignment hashString s = some before →
    newAssignment hashString (s.removeNode node) = some after →
    ∀ key n, before.lookup key = some n → n ≠ node → after.lookup key = some n
  added : node ∉ s.nodeLoads → ∀ before after, newAssignment hashString s = some before →
    newAssignment hashString (s.addNode node) = some after →
    ∀ key n, after.lookup key = some n → before.lookup key ≠ some n → n = node

/-- The hashes of the partitions are at their places with the node, among the nodes with it. -/
def HashesKeepPlace (hashString : String → UInt64) (s : PartitionRebalancer) (node : String) : Prop :=
  ∀ key ∈ s.currentAssignment,
    KeepsPlace (insert node s.nodeLoads).card ((insert node s.nodeLoads).filter (· < node)).card (keyHash hashString key)

section

variable {hashString : String → UInt64} {s : PartitionRebalancer}

/-- Where a partition is placed. -/
theorem lookup_consistentHash {new : AList fun _ : TopicPartitionId => String} (computed : newAssignment hashString s = some new)
    (strategy : s.strategy = .consistentHash) {key : TopicPartitionId} (there : key ∈ s.currentAssignment) :
    new.lookup key = s.nodes[keyHash hashString key % s.nodes.length]? := by
  obtain ⟨live, rfl⟩ := newAssignment_cases computed
  have listed : key ∈ s.partitions := partitions_perm.mem_iff.mpr there
  have given : (key, nodeAt s live (keyHash hashString key)) ∈ assigned hashString s live := by
    unfold assigned
    rw [strategy]
    exact mem_map.mpr ⟨key, listed, rfl⟩
  rw [lookup_of_assigned given, nodeAt, get_eq_getElem, getElem?_eq_getElem]

theorem nodes_removeNode {node : String} (there : node ∈ s.nodeLoads) :
    (s.removeNode node).nodes = s.nodes.eraseIdx (s.nodeLoads.filter (· < node)).card := sort_erase there

theorem getElem?_nodes {node : String} (there : node ∈ s.nodeLoads) : s.nodes[(s.nodeLoads.filter (· < node)).card]? = some node := by
  rw [← idxOf_sort there]
  exact getElem?_idxOf (mem_nodes.mpr there)

/-- **One partition** that is on another node stays there just if its hash keeps its place. -/
theorem lookup_removeNode_iff (strategy : s.strategy = .consistentHash) {node : String} (there : node ∈ s.nodeLoads)
    {before after : AList fun _ : TopicPartitionId => String} (computed : newAssignment hashString s = some before)
    (computed' : newAssignment hashString (s.removeNode node) = some after) {key : TopicPartitionId} (listed : key ∈ s.currentAssignment) :
    (∀ n, before.lookup key = some n → n ≠ node → after.lookup key = some n) ↔
      KeepsPlace s.nodeLoads.card (s.nodeLoads.filter (· < node)).card (keyHash hashString key) := by
  have own := getElem?_nodes there
  have inside : (s.nodeLoads.filter (· < node)).card < s.nodes.length := (List.getElem?_eq_some_iff.mp own).1
  have fewer : (s.removeNode node).nodes.length = s.nodes.length - 1 := by
    rw [nodes_removeNode there, length_eraseIdx_of_lt inside]
  have places : keyHash hashString key % s.nodes.length < s.nodes.length := Nat.mod_lt _ (Nat.zero_lt_of_lt inside)
  have listed' : key ∈ (s.removeNode node).currentAssignment := listed
  rw [lookup_consistentHash computed strategy listed, lookup_consistentHash computed' strategy listed', fewer, nodes_removeNode there,
    ← nodes_length]
  by_cases itself : keyHash hashString key % s.nodes.length = (s.nodeLoads.filter (· < node)).card
  · rw [itself, own]
    refine iff_of_true (fun n placed other => absurd (Option.some.inj placed).symm other) ⟨fun less => ?_, fun greater => ?_⟩
    · omega
    · omega
  · rw [← getElem?_eraseIdx_mod nodes_nodup inside itself, getElem?_eq_getElem places]
    have elsewhere : s.nodes[keyHash hashString key % s.nodes.length] ≠ node := by
      intro same
      have own : s.nodes[(s.nodeLoads.filter (· < node)).card]? = s.nodes[keyHash hashString key % s.nodes.length]? := by
        rw [own, getElem?_eq_getElem places, same]
      exact itself ((getElem?_inj inside nodes_nodup).mp own).symm
    constructor
    · intro stays
      exact stays _ rfl elsewhere
    · rintro stays n placed -
      rw [stays, placed]

/-- Among all nodes with the one that is removed. -/
theorem removed_iff (strategy : s.strategy = .consistentHash) {node : String} (there : node ∈ s.nodeLoads) :
    (∀ before after, newAssignment hashString s = some before → newAssignment hashString (s.removeNode node) = some after →
      ∀ key n, before.lookup key = some n → n ≠ node → after.lookup key = some n) ↔
    ∀ key ∈ s.currentAssignment,
      KeepsPlace s.nodeLoads.card (s.nodeLoads.filter (· < node)).card (keyHash hashString key) := by
  obtain ⟨before, computed⟩ : ∃ before, newAssignment hashString s = some before :=
    ⟨_, exists_newAssignment (Finset.ne_empty_of_mem there)⟩
  by_cases last : (s.removeNode node).nodeLoads = ∅
  · have none : newAssignment hashString (s.removeNode node) = none := dif_neg (not_not.mpr last)
    have single : s.nodeLoads.card = 1 := by
      have counted := Finset.card_erase_add_one there
      have gone : (s.nodeLoads.erase node).card = 0 := Finset.card_eq_zero.mpr last
      omega
    refine iff_of_true (fun _ _ _ computed' => ?_) fun key _ => ?_
    · rw [none] at computed'
      cases computed'
    · have inside := (List.getElem?_eq_some_iff.mp (getElem?_nodes there)).1
      rw [nodes_length] at inside
      refine ⟨fun less => ?_, fun greater => ?_⟩
      · omega
      · rw [single, Nat.mod_one] at greater
        omega
  · obtain ⟨after, computed'⟩ : ∃ after, newAssignment hashString (s.removeNode node) = some after := ⟨_, exists_newAssignment last⟩
    constructor
    · intro stable key listed
      exact (lookup_removeNode_iff strategy there computed computed' listed).mp (stable before after computed computed' key)
    · intro stays before after computed computed' key n placed
      have listed : key ∈ s.currentAssignment :=
        (mem_newAssignment computed).mp (AList.lookup_isSome.mp (Option.isSome_of_mem placed))
      exact (lookup_removeNode_iff strategy there computed computed' listed).mpr (stays key listed) n placed

theorem removeNode_addNode {node : String} (absent : node ∉ s.nodeLoads) : (s.addNode node).removeNode node = s := by
  unfold addNode removeNode
  rw [Finset.erase_insert absent]

end

/-- **Consistent hashing is stable exactly where** the hashes of the partitions keep their places. -/
theorem stable_iff (hashString : String → UInt64) {s : PartitionRebalancer} (strategy : s.strategy = .consistentHash) (node : String) :
    Stable hashString s node ↔ HashesKeepPlace hashString s node := by
  by_cases there : node ∈ s.nodeLoads
  · rw [HashesKeepPlace, Finset.insert_eq_of_mem there, ← removed_iff strategy there]
    exact ⟨fun stable => stable.removed there, fun removed => ⟨fun _ => removed, fun absent => absurd there absent⟩⟩
  · have whole := @removed_iff hashString (s.addNode node) strategy node (Finset.mem_insert_self node _)
    rw [removeNode_addNode there] at whole
    refine Iff.trans ?_ whole
    constructor
    · intro stable larger smaller computed' computed key n placed other
      by_contra moved
      exact other (stable.added there smaller larger computed computed' key n placed moved)
    · intro removed
      refine ⟨fun present => absurd present there, ?_⟩
      intro _ smaller larger computed computed' key n placed moved
      by_contra other
      exact moved (removed larger smaller computed' computed key n placed other)

namespace Example

/-- The hashes of `orders:0` and `orders:6`, as the standard library's default hasher has them. -/
def hashed : String → UInt64 := fun key => if key = "orders:6" then 5132169763735698751 else 7842077750031545241

/-- One partition, three nodes. -/
def threeNodes (partitionId : Nat) : PartitionRebalancer :=
  ⟨.consistentHash, 5, {"node-1", "node-2", "node-3"}, AList.insert ("orders", partitionId) "node-1" ∅⟩

end Example

/-- The partition of the second node stays there when the third is removed. -/
theorem stable_iff_sixth : Stable Example.hashed (Example.threeNodes 6) "node-3" := by
  refine (stable_iff Example.hashed rfl "node-3").mpr fun key listed => ?_
  obtain rfl : key = ("orders", 6) := mem_singleton.mp listed
  decide

/-- The partition of the first node goes to the second when the third is removed. -/
theorem stable_fails : ¬ Stable Example.hashed (Example.threeNodes 0) "node-3" := by
  intro stable
  have there : "node-3" ∈ (Example.threeNodes 0).nodeLoads := by decide
  have stays := (removed_iff rfl there).mp (stable.removed there) ("orders", 0) (by decide)
  revert stays
  decide

end StreamHouse.Agent.PartitionRebalancer
