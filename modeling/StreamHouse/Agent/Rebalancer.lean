import Mathlib.Data.Finset.Sort
import StreamHouse.Agent.Assignment
import StreamHouse.Lib.HashMaps
import StreamHouse.Lib.LeastLoaded
import StreamHouse.Lib.Run

/-!
# Moving partitions between nodes

`PartitionRebalancer` (`rebalancer.rs`). A plan works out a new assignment of all partitions, and
moves those that are elsewhere, up to a limit; executing it changes the current assignment, which
the next plan starts from. The maps are walked in the order of their hashes: which movements are
within the limit is different from plan to plan.
-/

namespace StreamHouse.Agent
open Lib Lib.HashMaps List

inductive RebalanceStrategy where
  | roundRobin
  | leastLoaded
  | consistentHash
  | stickyAssignment
  deriving DecidableEq

structure PartitionMovement where
  topic : String
  partitionId : Nat
  fromNode : Option String
  toNode : String

structure RebalancePlan where
  movements : List PartitionMovement
  strategy : RebalanceStrategy
  wasBalanced : Bool
  partitionsUnchanged : Nat
  totalPartitions : Nat

/-- No strategy reads the load metrics of `node_loads`, so it is the set of its keys. -/
structure PartitionRebalancer where
  strategy : RebalanceStrategy
  maxConcurrentMovements : Nat
  nodeLoads : Finset String
  currentAssignment : AList fun _ : TopicPartitionId => String

namespace PartitionRebalancer

def addNode (s : PartitionRebalancer) (nodeId : String) : PartitionRebalancer :=
  { s with nodeLoads := insert nodeId s.nodeLoads }

def removeNode (s : PartitionRebalancer) (nodeId : String) : PartitionRebalancer :=
  { s with nodeLoads := s.nodeLoads.erase nodeId }

/-- `nodes`, sorted. -/
def nodes (s : PartitionRebalancer) : List String := s.nodeLoads.sort (· ≤ ·)

/-- `partitions`, sorted. -/
def partitions (s : PartitionRebalancer) : List TopicPartitionId := s.currentAssignment.keys.insertionSort TopicPartitionId.Before

section strategies
variable (hashString : String → UInt64) (s : PartitionRebalancer) (live : s.nodes ≠ [])

/-- `nodes[i % nodes.len()]`. -/
def nodeAt (i : Nat) : String := s.nodes.get ⟨i % s.nodes.length, Nat.mod_lt _ (length_pos_of_ne_nil live)⟩

def assignRoundRobin : List (TopicPartitionId × String) :=
  s.partitions.zipIdx.map fun p => (p.1, nodeAt s live p.2)

/-- The load counts are `u32`. -/
def assignLeastLoaded : List (TopicPartitionId × String) :=
  s.partitions.zip (dealLeast s.nodes live 32 (fun _ => 0) s.partitions.length)

def assignConsistentHash : List (TopicPartitionId × String) :=
  s.partitions.map fun key => (key, nodeAt s live (hashString (key.1 ++ ":" ++ toString key.2)).toNat)

/-- The node of a partition, if it still exists. -/
def keptNode (key : TopicPartitionId) : Option String := (s.currentAssignment.lookup key).filter (· ∈ s.nodeLoads)

/-- First the partitions on nodes that still exist, then the others. -/
def assignSticky : List (TopicPartitionId × String) :=
  let kept := s.partitions.filterMap fun key => (keptNode s key).map fun node => (key, node)
  let unassigned := s.partitions.filter fun key => keptNode s key = none
  let loadCounts := fun node => (kept.map Prod.snd).count node % 2 ^ 32
  kept ++ unassigned.zip (dealLeast s.nodes live 32 loadCounts unassigned.length)

/-- What is inserted into the new assignment, in this order. -/
def assigned : List (TopicPartitionId × String) :=
  match s.strategy with
  | .roundRobin => assignRoundRobin s live
  | .leastLoaded => assignLeastLoaded s live
  | .consistentHash => assignConsistentHash hashString s live
  | .stickyAssignment => assignSticky s live

theorem nodes_ne_nil {s : PartitionRebalancer} (live : s.nodeLoads ≠ ∅) : s.nodes ≠ [] := by
  intro none
  apply live
  rw [← Finset.sort_toFinset s.nodeLoads (· ≤ ·)]
  exact congrArg toFinset none

/-- `new_assignment`; without nodes there is none. -/
def newAssignment : Option (AList fun _ : TopicPartitionId => String) :=
  if live : s.nodeLoads ≠ ∅ then some (insertAll ∅ (assigned hashString s (nodes_ne_nil live))) else none

end strategies

section plans
variable (hashString : String → UInt64)

/-- The movement of one partition of the new assignment, unless it is there already. -/
def movement (s : PartitionRebalancer) (new : AList fun _ : TopicPartitionId => String) (key : TopicPartitionId) : Option PartitionMovement :=
  (new.lookup key).bind fun newNode =>
    if s.currentAssignment.lookup key = some newNode then none
    else some ⟨key.1, key.2, s.currentAssignment.lookup key, newNode⟩

/-- `compute_rebalance`. Without nodes it finds the assignment balanced. -/
def computeRebalance (s : PartitionRebalancer) (iteration : HashOrder TopicPartitionId) : RebalancePlan :=
  match newAssignment hashString s with
  | none => ⟨[], s.strategy, true, s.currentAssignment.keys.length, s.currentAssignment.keys.length⟩
  | some new =>
    let movements := (iteration.order new.keys).filterMap (movement s new)
    { movements := movements.take s.maxConcurrentMovements
      strategy := s.strategy
      wasBalanced := movements.isEmpty
      partitionsUnchanged := (iteration.order new.keys).countP fun key => s.currentAssignment.lookup key = new.lookup key
      totalPartitions := s.currentAssignment.keys.length }

def executePlan (s : PartitionRebalancer) (plan : RebalancePlan) : PartitionRebalancer :=
  { s with currentAssignment := insertAll s.currentAssignment (plan.movements.map fun m => ((m.topic, m.partitionId), m.toNode)) }

/-- A plan, executed. -/
def round (s : PartitionRebalancer) (iteration : HashOrder TopicPartitionId) : PartitionRebalancer :=
  s.executePlan (s.computeRebalance hashString iteration)

/-- The number of partitions that a node has. -/
def load (s : PartitionRebalancer) (node : String) : Nat :=
  s.currentAssignment.keys.countP fun key => s.currentAssignment.lookup key = some node

end plans

/-! ## The new assignment -/
variable {hashString : String → UInt64} {s : PartitionRebalancer} {live : s.nodes ≠ []}

variable {node : String} {key : TopicPartitionId}

theorem mem_nodes : node ∈ s.nodes ↔ node ∈ s.nodeLoads := Finset.mem_sort _

theorem nodes_nodup : s.nodes.Nodup := Finset.sort_nodup _ _

@[simp] theorem nodes_length : s.nodes.length = s.nodeLoads.card := Finset.length_sort _

theorem partitions_perm : s.partitions.Perm s.currentAssignment.keys := perm_insertionSort _ _

theorem nodeAt_live (live : s.nodes ≠ []) (i : Nat) : nodeAt s live i ∈ s.nodeLoads := mem_nodes.mp (get_mem _ _)

theorem keptNode_eq_some : keptNode s key = some node ↔ s.currentAssignment.lookup key = some node ∧ node ∈ s.nodeLoads := by
  rw [keptNode, Option.filter_eq_some_iff, decide_eq_true_eq]

theorem map_fst_zip_dealLeast (keys : List TopicPartitionId) (loads : String → Nat) :
    (keys.zip (dealLeast s.nodes live 32 loads keys.length)).map Prod.fst = keys :=
  map_fst_zip (by rw [dealLeast_length])

/-- Every partition is assigned, once. -/
theorem assigned_keys_perm : ((assigned hashString s live).map Prod.fst).Perm s.currentAssignment.keys := by
  refine Perm.trans ?_ partitions_perm
  unfold assigned
  cases s.strategy with
  | roundRobin =>
    have same : (assignRoundRobin s live).map Prod.fst = s.partitions := by
      rw [assignRoundRobin, map_map]
      exact zipIdx_map_fst 0 _
    rw [same]
  | leastLoaded =>
    dsimp only
    rw [assignLeastLoaded, map_fst_zip_dealLeast]
  | consistentHash =>
    have same : (assignConsistentHash hashString s live).map Prod.fst = s.partitions := by
      rw [assignConsistentHash, map_map]
      exact map_id _
    rw [same]
  | stickyAssignment =>
    -- the kept ones are those with a node that exists, the unassigned ones the others
    have kept : (s.partitions.filterMap fun key => (keptNode s key).map fun node => (key, node)).map Prod.fst =
        s.partitions.filter fun key => !decide (keptNode s key = none) := by
      rw [map_filterMap, ← filterMap_eq_filter]
      apply filterMap_congr
      intro key _
      cases found : keptNode s key <;> simp [found, Option.guard]
    dsimp only
    rw [assignSticky, map_append, map_fst_zip_dealLeast, kept]
    exact perm_append_comm.trans (filter_append_perm _ _)

/-- Every node assigned to exists. -/
theorem assigned_live {e : TopicPartitionId × String} (given : e ∈ assigned hashString s live) : e.2 ∈ s.nodeLoads := by
  have dealt : ∀ (keys : List TopicPartitionId) (loads : String → Nat),
      e ∈ keys.zip (dealLeast s.nodes live 32 loads keys.length) → e.2 ∈ s.nodeLoads :=
    fun _ _ member => mem_nodes.mp (mem_of_mem_dealLeast (of_mem_zip member).2)
  unfold assigned at given
  cases strategy : s.strategy with
  | roundRobin =>
    rw [strategy] at given
    obtain ⟨p, -, rfl⟩ := mem_map.mp given
    exact nodeAt_live live _
  | leastLoaded =>
    rw [strategy] at given
    exact dealt _ _ given
  | consistentHash =>
    rw [strategy] at given
    obtain ⟨key, -, rfl⟩ := mem_map.mp given
    exact nodeAt_live live _
  | stickyAssignment =>
    rw [strategy] at given
    rcases mem_append.mp given with kept | other
    · obtain ⟨key, -, same⟩ := mem_filterMap.mp kept
      obtain ⟨node, found, rfl⟩ := Option.map_eq_some_iff.mp same
      exact (keptNode_eq_some.mp found).2
    · exact dealt _ _ other

/-- The strategies other than the sticky one look at the partitions only. -/
theorem assigned_of_perm {m : AList fun _ : TopicPartitionId => String} (same : m.keys.Perm s.currentAssignment.keys)
    (other : s.strategy ≠ .stickyAssignment) :
    assigned hashString { s with currentAssignment := m } live = assigned hashString s live := by
  obtain ⟨strategy, limit, nodeLoads, current⟩ := s
  have partitions : partitions ⟨strategy, limit, nodeLoads, m⟩ = partitions ⟨strategy, limit, nodeLoads, current⟩ :=
    insertionSort_eq_of_perm _ same
  cases strategy with
  | roundRobin =>
    unfold assigned assignRoundRobin
    dsimp only
    rw [partitions]
    rfl
  | leastLoaded =>
    unfold assigned assignLeastLoaded
    dsimp only
    rw [partitions]
    rfl
  | consistentHash =>
    unfold assigned assignConsistentHash
    dsimp only
    rw [partitions]
    rfl
  | stickyAssignment => exact absurd rfl other

theorem lookup_of_assigned (given : (key, node) ∈ assigned hashString s live) :
    (insertAll ∅ (assigned hashString s live)).lookup key = some node :=
  lookup_insertAll_of_mem (assigned_keys_perm.nodup_iff.mpr s.currentAssignment.nodupKeys) given ∅

variable {new : AList fun _ : TopicPartitionId => String} (computed : newAssignment hashString s = some new)

theorem exists_newAssignment (live : s.nodeLoads ≠ ∅) :
    newAssignment hashString s = some (insertAll ∅ (assigned hashString s (nodes_ne_nil live))) := dif_pos live

include computed

theorem newAssignment_cases : ∃ live, new = insertAll ∅ (assigned hashString s live) := by
  unfold newAssignment at computed
  split at computed
  · exact ⟨_, (Option.some.inj computed).symm⟩
  · cases computed

theorem mem_newAssignment : key ∈ new ↔ key ∈ s.currentAssignment := by
  obtain ⟨live, rfl⟩ := newAssignment_cases computed
  rw [mem_insertAll, assigned_keys_perm.mem_iff]
  exact or_iff_left (AList.notMem_empty key)

/-- Every partition has a node in the new assignment, one that exists. -/
theorem newAssignment_live (there : key ∈ s.currentAssignment) : ∃ node ∈ s.nodeLoads, new.lookup key = some node := by
  obtain ⟨live, rfl⟩ := newAssignment_cases computed
  have keys : ((assigned hashString s live).map Prod.fst).Perm s.currentAssignment.keys := assigned_keys_perm
  obtain ⟨e, given, rfl⟩ := mem_map.mp (keys.mem_iff.mpr there)
  exact ⟨e.2, assigned_live given, lookup_of_assigned given⟩

/-- The sticky strategy leaves a partition on a node that exists. -/
theorem lookup_of_kept (sticky : s.strategy = .stickyAssignment) (kept : s.currentAssignment.lookup key = some node) (exists_node : node ∈ s.nodeLoads) : new.lookup key = some node := by
  obtain ⟨live, rfl⟩ := newAssignment_cases computed
  have stays : keptNode s key = some node := keptNode_eq_some.mpr ⟨kept, exists_node⟩
  have listed : key ∈ s.partitions := partitions_perm.mem_iff.mpr (AList.lookup_isSome.mp (Option.isSome_of_mem kept))
  apply lookup_of_assigned
  unfold assigned
  rw [sticky]
  apply mem_append_left
  exact mem_filterMap.mpr ⟨key, listed, by rw [stays, Option.map_some]⟩

end PartitionRebalancer

end StreamHouse.Agent
