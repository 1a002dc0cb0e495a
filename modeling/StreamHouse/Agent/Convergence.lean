import StreamHouse.Agent.Rebalancer

/-!
# Rounds of rebalancing

A plan that is cut off at its limit leaves partitions behind, and the next one is worked out from
where the first has got to. What is on its node in the new assignment stays on it, whatever the strategy,
so the partitions that are elsewhere get fewer with each round, and there are rounds enough when
there are as many as partitions. Without nodes the assignment is found balanced and nothing moves.
-/

namespace StreamHouse.Agent.PartitionRebalancer
open Lib Lib.HashMaps List HashOrder

/-- What the rounds from `s` on have to come to. -/
structure Settled (hashString : String → UInt64) (s t : PartitionRebalancer) : Prop where
  balanced : ∀ iteration, (t.computeRebalance hashString iteration).wasBalanced = true
  same : ∀ key, key ∈ t.currentAssignment ↔ key ∈ s.currentAssignment
  assigned : ∀ key ∈ s.currentAssignment, ∃ node ∈ s.nodeLoads, t.currentAssignment.lookup key = some node

/-- The loads of two nodes differ by one at most. -/
def Even (s : PartitionRebalancer) : Prop := ∀ a ∈ s.nodeLoads, ∀ b ∈ s.nodeLoads, s.load a ≤ s.load b + 1

/-- The partitions that the new assignment has elsewhere. -/
def misplaced (s : PartitionRebalancer) (new : AList fun _ : TopicPartitionId => String) : Finset TopicPartitionId :=
  s.currentAssignment.keys.toFinset.filter fun key => s.currentAssignment.lookup key ≠ new.lookup key

/-- How many they are. -/
def remaining (hashString : String → UInt64) (s : PartitionRebalancer) : Nat :=
  ((newAssignment hashString s).map fun new => (misplaced s new).card).getD 0

variable {hashString : String → UInt64} {s : PartitionRebalancer} {new : AList fun _ : TopicPartitionId => String}

variable {key : TopicPartitionId}

/-- **A partition on its node stays there**, wherever the others are. -/
theorem lookup_newAssignment_of_kept {m new' : AList fun _ : TopicPartitionId => String} (same : ∀ key, key ∈ m ↔ key ∈ s.currentAssignment)
    (computed : newAssignment hashString s = some new) (computed' : newAssignment hashString { s with currentAssignment := m } = some new')
    {node : String} (placed : new.lookup key = some node) (kept : m.lookup key = some node) :
    new'.lookup key = some node := by
  by_cases sticky : s.strategy = .stickyAssignment
  · have there : key ∈ m := AList.lookup_isSome.mp (Option.isSome_of_mem kept)
    obtain ⟨node', exists_node, placed'⟩ := newAssignment_live computed ((same key).mp there)
    obtain rfl := Option.some.inj (placed'.symm.trans placed)
    exact lookup_of_kept computed' sticky kept exists_node
  · have perm : m.keys.Perm s.currentAssignment.keys :=
      (perm_ext_iff_of_nodup m.nodupKeys s.currentAssignment.nodupKeys).mpr same
    obtain ⟨live, rfl⟩ := newAssignment_cases computed
    obtain ⟨live', rfl⟩ := newAssignment_cases computed'
    have unchanged : assigned hashString { s with currentAssignment := m } live' = assigned hashString s live := assigned_of_perm perm sticky
    rwa [unchanged]

/-! ## One round -/

/-- What a movement inserts. -/
abbrev entry (m : PartitionMovement) : TopicPartitionId × String := ((m.topic, m.partitionId), m.toNode)

/-- A movement is there for each partition that is elsewhere. -/
theorem movement_eq_some {m : PartitionMovement} :
    movement s new key = some m ↔ ∃ node, new.lookup key = some node ∧ s.currentAssignment.lookup key ≠ some node ∧
      ⟨key.1, key.2, s.currentAssignment.lookup key, node⟩ = m := by
  unfold movement
  rw [Option.bind_eq_some_iff]
  apply exists_congr
  intro node
  apply and_congr_right
  intro _
  split
  · next there => exact iff_of_false (Option.some_ne_none m).symm fun elsewhere => elsewhere.1 there
  · next elsewhere => rw [Option.some.injEq, and_iff_right elsewhere]

theorem mem_entries {keys : List TopicPartitionId} {node : String} :
    (key, node) ∈ (keys.filterMap (movement s new)).map entry ↔
      key ∈ keys ∧ new.lookup key = some node ∧ s.currentAssignment.lookup key ≠ some node := by
  rw [mem_map]
  constructor
  · rintro ⟨m, listed, same⟩
    obtain ⟨key', inside, moved⟩ := mem_filterMap.mp listed
    obtain ⟨node', placed, elsewhere, rfl⟩ := movement_eq_some.mp moved
    obtain ⟨rfl, rfl⟩ := Prod.mk.inj same
    exact ⟨inside, placed, elsewhere⟩
  · rintro ⟨inside, placed, elsewhere⟩
    exact ⟨_, mem_filterMap.mpr ⟨key, inside, movement_eq_some.mpr ⟨node, placed, elsewhere, rfl⟩⟩, rfl⟩

/-- A plan moves no partition twice. -/
theorem entries_nodup {keys : List TopicPartitionId} (distinct : keys.Nodup) :
    (((keys.filterMap (movement s new)).map entry).map Prod.fst).Nodup := by
  rw [map_map, map_filterMap]
  refine distinct.filterMap fun key key' moved here there => ?_
  obtain ⟨m, isMoved, rfl⟩ := Option.map_eq_some_iff.mp (Option.mem_def.mp here)
  obtain ⟨m', isMoved', same⟩ := Option.map_eq_some_iff.mp (Option.mem_def.mp there)
  obtain ⟨_, -, -, rfl⟩ := movement_eq_some.mp isMoved
  obtain ⟨_, -, -, rfl⟩ := movement_eq_some.mp isMoved'
  exact same.symm

section round
variable (computed : newAssignment hashString s = some new) (iteration : HashOrder TopicPartitionId)

/-- What executing a plan inserts. -/
abbrev inserted (s : PartitionRebalancer) (new : AList fun _ : TopicPartitionId => String) (iteration : HashOrder TopicPartitionId) :
    List (TopicPartitionId × String) :=
  (((iteration.order new.keys).filterMap (movement s new)).map entry).take s.maxConcurrentMovements

theorem inserted_nodup : ((inserted s new iteration).map Prod.fst).Nodup :=
  (entries_nodup (nodup new.nodupKeys)).sublist ((take_sublist _ _).map _)

include computed

theorem round_eq : s.round hashString iteration =
    { s with currentAssignment := insertAll s.currentAssignment (inserted s new iteration) } := by
  unfold round executePlan computeRebalance
  rw [computed]
  dsimp only
  rw [map_take]

theorem wasBalanced_iff : (s.computeRebalance hashString iteration).wasBalanced = true ↔ misplaced s new = ∅ := by
  have movements : (s.computeRebalance hashString iteration).wasBalanced =
      ((iteration.order new.keys).filterMap (movement s new)).isEmpty := by
    unfold computeRebalance
    rw [computed]
  rw [movements, List.isEmpty_iff, filterMap_eq_nil_iff, misplaced, Finset.filter_eq_empty_iff]
  apply forall_congr'
  intro key
  rw [mem, mem_toFinset, not_not]
  change (key ∈ new → _) ↔ (key ∈ s.currentAssignment → _)
  rw [mem_newAssignment computed]
  apply imp_congr_right
  intro there
  obtain ⟨node, -, placed⟩ := newAssignment_live computed there
  rw [movement, placed, Option.bind_some]
  split
  · next same => exact iff_of_true rfl same
  · next elsewhere => exact iff_of_false (Option.some_ne_none _) elsewhere

theorem mem_round : key ∈ (s.round hashString iteration).currentAssignment ↔ key ∈ s.currentAssignment := by
  rw [round_eq computed, mem_insertAll]
  apply or_iff_right_of_imp
  intro moved
  obtain ⟨⟨_, node⟩, listed, rfl⟩ := mem_map.mp moved
  rw [← mem_newAssignment computed]
  exact mem.mp (mem_entries.mp (mem_of_mem_take listed)).1

/-- A round moves a partition to its node or leaves it. -/
theorem lookup_round (key : TopicPartitionId) :
    (s.round hashString iteration).currentAssignment.lookup key = s.currentAssignment.lookup key ∨
      (s.round hashString iteration).currentAssignment.lookup key = new.lookup key := by
  rw [round_eq computed]
  by_cases moved : key ∈ (inserted s new iteration).map Prod.fst
  · obtain ⟨⟨_, node⟩, listed, rfl⟩ := mem_map.mp moved
    rw [lookup_insertAll_of_mem (inserted_nodup iteration) listed, (mem_entries.mp (mem_of_mem_take listed)).2.1]
    exact .inr rfl
  · exact .inl (lookup_insertAll_of_notMem moved _)

/-- A round that has something to move moves something. -/
theorem exists_moved (limit : 1 ≤ s.maxConcurrentMovements) (some_elsewhere : (misplaced s new).Nonempty) :
    ∃ key ∈ misplaced s new, (s.round hashString iteration).currentAssignment.lookup key = new.lookup key := by
  have unbalanced : ((iteration.order new.keys).filterMap (movement s new)).map entry ≠ [] := by
    obtain ⟨key, elsewhere⟩ := some_elsewhere
    obtain ⟨there, different⟩ := Finset.mem_filter.mp elsewhere
    obtain ⟨node, -, placed⟩ := newAssignment_live computed (mem_toFinset.mp there)
    rw [placed] at different
    have moved : (key, node) ∈ ((iteration.order new.keys).filterMap (movement s new)).map entry :=
      mem_entries.mpr ⟨mem.mpr ((mem_newAssignment computed).mpr (mem_toFinset.mp there)), placed, different⟩
    exact ne_nil_of_mem moved
  obtain ⟨⟨key, node⟩, others, list⟩ := exists_cons_of_ne_nil unbalanced
  have first : (key, node) ∈ inserted s new iteration := by
    obtain ⟨limit', within⟩ := Nat.exists_eq_add_of_le' limit
    rw [inserted, list, within, take_succ_cons]
    exact mem_cons_self
  obtain ⟨listed, placed, elsewhere⟩ := mem_entries.mp (mem_of_mem_take first)
  have there := (mem_newAssignment computed).mp (mem.mp listed)
  refine ⟨key, Finset.mem_filter.mpr ⟨mem_toFinset.mpr there, by rwa [placed]⟩, ?_⟩
  rw [round_eq computed, placed]
  exact lookup_insertAll_of_mem (inserted_nodup iteration) first _

/-- **What a round leaves to do** was to do before, and is not what it has moved. -/
theorem misplaced_round {new' : AList fun _ : TopicPartitionId => String}
    (computed' : newAssignment hashString (s.round hashString iteration) = some new') (elsewhere : key ∈ misplaced (s.round hashString iteration) new') :
    key ∈ misplaced s new ∧ (s.round hashString iteration).currentAssignment.lookup key ≠ new.lookup key := by
  obtain ⟨there', different⟩ := Finset.mem_filter.mp elsewhere
  have there := (mem_round computed iteration).mp (mem_toFinset.mp there')
  obtain ⟨node, -, placed⟩ := newAssignment_live computed there
  have notThere : (s.round hashString iteration).currentAssignment.lookup key ≠ new.lookup key := by
    intro same
    apply different
    rw [placed] at same
    have keys : ∀ key, key ∈ (s.round hashString iteration).currentAssignment ↔ key ∈ s.currentAssignment :=
      fun key => mem_round computed iteration
    have isRound := round_eq computed iteration
    rw [same]
    rw [isRound] at computed' keys same
    exact (lookup_newAssignment_of_kept keys computed computed' placed same).symm
  refine ⟨Finset.mem_filter.mpr ⟨mem_toFinset.mpr there, ?_⟩, notThere⟩
  intro same
  rcases lookup_round computed iteration key with left | moved
  · exact notThere (left.trans same)
  · exact notThere moved

end round

/-! ## Rounds -/

@[simp] theorem round_nodeLoads (iteration : HashOrder TopicPartitionId) : (s.round hashString iteration).nodeLoads = s.nodeLoads := rfl

/-- What rounds do not change. -/
structure Same (s t : PartitionRebalancer) : Prop where
  strategy : t.strategy = s.strategy
  limit : t.maxConcurrentMovements = s.maxConcurrentMovements
  nodes : t.nodeLoads = s.nodeLoads
  keys : ∀ key, key ∈ t.currentAssignment ↔ key ∈ s.currentAssignment

theorem Same.round {s t : PartitionRebalancer} (same : Same s t) (live : s.nodeLoads ≠ ∅) (iteration : HashOrder TopicPartitionId) :
    Same s (t.round hashString iteration) := by
  have liveNow : t.nodeLoads ≠ ∅ := by rwa [same.nodes]
  exact ⟨same.strategy, same.limit, same.nodes, fun key => (mem_round (exists_newAssignment liveNow) iteration).trans (same.keys key)⟩

theorem remaining_eq (computed : newAssignment hashString s = some new) : remaining hashString s = (misplaced s new).card := by
  rw [remaining, computed, Option.map_some, Option.getD_some]

theorem remaining_le (hashString : String → UInt64) (s : PartitionRebalancer) : remaining hashString s ≤ s.currentAssignment.keys.length := by
  unfold remaining
  cases newAssignment hashString s with
  | none => exact Nat.zero_le _
  | some new => exact (Finset.card_filter_le _ _).trans (toFinset_card_le _)

/-- **A round leaves less to do.** -/
theorem remaining_round (live : s.nodeLoads ≠ ∅) (limit : 1 ≤ s.maxConcurrentMovements) (iteration : HashOrder TopicPartitionId) :
    remaining hashString (s.round hashString iteration) ≤ remaining hashString s - 1 := by
  obtain ⟨new, computed⟩ : ∃ new, newAssignment hashString s = some new := ⟨_, exists_newAssignment live⟩
  have liveNow : (s.round hashString iteration).nodeLoads ≠ ∅ := by rwa [round_nodeLoads]
  obtain ⟨new', computed'⟩ : ∃ new', newAssignment hashString (s.round hashString iteration) = some new' :=
    ⟨_, exists_newAssignment liveNow⟩
  rw [remaining_eq computed, remaining_eq computed']
  by_cases done : misplaced s new = ∅
  · have left : misplaced (s.round hashString iteration) new' = ∅ := by
      apply Finset.eq_empty_of_forall_notMem
      intro key elsewhere
      have before := (misplaced_round computed iteration computed' elsewhere).1
      rw [done] at before
      exact Finset.notMem_empty key before
    rw [left, Finset.card_empty]
    exact Nat.zero_le _
  · obtain ⟨key, elsewhere, moved⟩ := exists_moved computed iteration limit (Finset.nonempty_iff_ne_empty.mpr done)
    rw [← Finset.card_erase_of_mem elsewhere]
    apply Finset.card_le_card
    intro key' left
    obtain ⟨before, notMoved⟩ := misplaced_round computed iteration computed' left
    refine Finset.mem_erase.mpr ⟨?_, before⟩
    rintro rfl
    exact notMoved moved

/-! ## Loads -/

section loads
variable {live : s.nodes ≠ []}

section

variable (balanced : misplaced s (insertAll ∅ (assigned hashString s live)) = ∅)
include balanced

/-- On a balanced assignment, the loads are those of the new one. -/
theorem load_eq (node : String) :
    s.load node = ((assigned hashString s live).map Prod.snd).count node := by
  have keys : ((assigned hashString s live).map Prod.fst).Perm s.currentAssignment.keys := assigned_keys_perm
  have placed : ∀ e ∈ assigned hashString s live, s.currentAssignment.lookup e.1 = some e.2 := by
    intro e given
    have there : e.1 ∈ s.currentAssignment.keys.toFinset :=
      mem_toFinset.mpr (keys.mem_iff.mp (mem_map_of_mem given))
    rw [not_not.mp (Finset.filter_eq_empty_iff.mp balanced there)]
    exact lookup_of_assigned given
  calc s.load node
      = ((assigned hashString s live).map Prod.fst).countP fun key => s.currentAssignment.lookup key = some node := keys.symm.countP_eq _
    _ = (assigned hashString s live).countP fun e => e.2 = node := by
        rw [countP_map]
        apply countP_congr
        intro e given
        rw [Function.comp_apply, placed e given, decide_eq_true_eq, decide_eq_true_eq, Option.some.injEq]
    _ = ((assigned hashString s live).map Prod.snd).count node := by
        rw [List.count, countP_map]
        rfl

/-- In turn, the nodes get even shares. -/
theorem even_of_roundRobin (strategy : s.strategy = .roundRobin) :
    s.Even := by
  have dealt : assigned hashString s live = assignRoundRobin s live := by
    unfold assigned
    rw [strategy]
  -- a node's load is its share
  have shares : ∀ j (inside : j < s.nodes.length), s.load s.nodes[j] = (share s.partitions s.nodes.length j).length := by
    intro j inside
    rw [load_eq balanced, dealt, assignRoundRobin, map_map, List.count, countP_map, share, length_map,
      ← countP_eq_length_filter]
    apply countP_congr
    intro p _
    rw [Function.comp_apply, Function.comp_apply, beq_iff_eq, decide_eq_true_eq, nodeAt, get_eq_getElem]
    exact nodes_nodup.getElem_inj_iff
  intro a hereA b hereB
  obtain ⟨i, insideA, rfl⟩ := mem_iff_getElem.mp (mem_nodes.mpr hereA)
  obtain ⟨j, insideB, rfl⟩ := mem_iff_getElem.mp (mem_nodes.mpr hereB)
  rw [shares i insideA, shares j insideB]
  exact share_length_le _ insideA insideB

/-- To the node with the smallest load, too, while the load counts can take the partitions. -/
theorem even_of_leastLoaded (strategy : s.strategy = .leastLoaded)
    (counted : s.currentAssignment.keys.length ≤ s.nodeLoads.card * (2 ^ 32 - 1)) : s.Even := by
  have dealt : assigned hashString s live = assignLeastLoaded s live := by
    unfold assigned
    rw [strategy]
  have loads : ∀ node, s.load node = (dealLeast s.nodes live 32 (fun _ => 0) s.partitions.length).count node := by
    intro node
    rw [load_eq balanced, dealt, assignLeastLoaded, map_snd_zip (by rw [dealLeast_length])]
  have fits : ∑ node ∈ s.nodes.toFinset, 0 + s.partitions.length ≤ s.nodes.length * (2 ^ 32 - 1) := by
    rwa [Finset.sum_const_zero, Nat.zero_add, partitions_perm.length_eq, nodes_length]
  intro a hereA b hereB
  have even := @dealLeast_even String _ s.nodes live 32 nodes_nodup (fun _ => 0) s.partitions.length (fun _ _ _ _ => Nat.zero_le _) fits
    a (mem_nodes.mpr hereA) b (mem_nodes.mpr hereB)
  rwa [Nat.zero_add, Nat.zero_add, ← loads, ← loads] at even


end
end loads

/-! ## Convergence -/

/-- Rounds keep the partitions and the nodes, and each of them leaves less to do. -/
theorem run_rounds (live : s.nodeLoads ≠ ∅) (limit : 1 ≤ s.maxConcurrentMovements) (iterations : List (HashOrder TopicPartitionId)) :
    Same s (run (round hashString) s iterations) ∧
      remaining hashString (run (round hashString) s iterations) ≤ remaining hashString s - iterations.length := by
  have start : Same s s := ⟨rfl, rfl, rfl, fun _ => Iff.rfl⟩
  have keep : ∀ (t : PartitionRebalancer) (iteration : HashOrder TopicPartitionId), Same s t → Same s (t.round hashString iteration) :=
    fun t iteration same => same.round live iteration
  have lower : ∀ (t : PartitionRebalancer) (iteration : HashOrder TopicPartitionId), Same s t →
      remaining hashString (t.round hashString iteration) ≤ remaining hashString t - 1 := by
    intro t iteration same
    apply remaining_round
    · rwa [same.nodes]
    · rwa [same.limit]
  exact ⟨run_invariant (Same s) keep start iterations, run_measure_le (Same s) (remaining hashString) keep lower start iterations⟩

theorem misplaced_of_remaining (computed : newAssignment hashString s = some new) (done : remaining hashString s = 0) :
    misplaced s new = ∅ := by
  rw [remaining_eq computed] at done
  exact Finset.card_eq_zero.mp done

/-- With nothing left to do, every partition is on a node that exists. -/
theorem settled_of_remaining {t : PartitionRebalancer} (same : Same s t) (live : s.nodeLoads ≠ ∅) (done : remaining hashString t = 0) :
    Settled hashString s t := by
  have liveNow : t.nodeLoads ≠ ∅ := by rwa [same.nodes]
  obtain ⟨new, computed⟩ : ∃ new, newAssignment hashString t = some new := ⟨_, exists_newAssignment liveNow⟩
  have balanced := misplaced_of_remaining computed done
  refine ⟨fun iteration => (wasBalanced_iff computed iteration).mpr balanced, same.keys, ?_⟩
  intro key there
  have thereNow := (same.keys key).mpr there
  obtain ⟨node, exists_node, placed⟩ := newAssignment_live computed thereNow
  rw [same.nodes] at exists_node
  refine ⟨node, exists_node, ?_⟩
  rw [not_not.mp (Finset.filter_eq_empty_iff.mp balanced (mem_toFinset.mpr thereNow)), placed]

/-- **Rebalancing converges** on any nodes at all: after as many rounds as there are partitions, in
whatever order each walks the maps, the assignment is found balanced and every partition is on a node that
exists. The loads are even if they are dealt out in turn, or by loads that can be counted. -/
theorem converges (hashString : String → UInt64) {s : PartitionRebalancer} (live : s.nodeLoads ≠ ∅) (limit : 1 ≤ s.maxConcurrentMovements)
    {iterations : List (HashOrder TopicPartitionId)} (enough : s.currentAssignment.keys.length ≤ iterations.length) :
    Settled hashString s (run (round hashString) s iterations) ∧
      (s.strategy = .roundRobin → (run (round hashString) s iterations).Even) ∧
      (s.strategy = .leastLoaded → s.currentAssignment.keys.length ≤ s.nodeLoads.card * (2 ^ 32 - 1) →
        (run (round hashString) s iterations).Even) := by
  obtain ⟨same, left⟩ := @run_rounds hashString s live limit iterations
  have most := remaining_le hashString s
  have done : remaining hashString (run (round hashString) s iterations) = 0 := by omega
  have liveNow : (run (round hashString) s iterations).nodeLoads ≠ ∅ := by rwa [same.nodes]
  have balanced := misplaced_of_remaining (exists_newAssignment liveNow) done
  refine ⟨settled_of_remaining same live done, ?_, ?_⟩
  · intro strategy
    exact even_of_roundRobin balanced (same.strategy.trans strategy)
  · intro strategy counted
    apply even_of_leastLoaded balanced (same.strategy.trans strategy)
    have keys : (run (round hashString) s iterations).currentAssignment.keys.Perm s.currentAssignment.keys :=
      (perm_ext_iff_of_nodup (run (round hashString) s iterations).currentAssignment.nodupKeys s.currentAssignment.nodupKeys).mpr same.keys
    rwa [keys.length_eq, same.nodes]

namespace Example

/-- A partition of a node. -/
def assigned : PartitionRebalancer := ⟨.roundRobin, 5, {"node-1"}, AList.insert ("orders", 0) "node-1" ∅⟩

/-- A second node has joined the one that has all partitions; one of them is moved at a time. -/
def joined : PartitionRebalancer where
  strategy := .roundRobin
  maxConcurrentMovements := 1
  nodeLoads := {"node-1", "node-2"}
  currentAssignment := insertAll ∅ ((List.range 4).map fun p => (("orders", p), "node-1"))

end Example

/-- Two of the four partitions have to move, one in each round. -/
theorem converges_joined :
    let s := run (round fun _ => 0) Example.joined (replicate 4 (listed _))
    Settled (fun _ => 0) Example.joined s ∧ s.Even :=
  have rounds := @converges (fun _ => 0) Example.joined (by decide) (by decide) (replicate 4 (listed _)) (by decide)
  ⟨rounds.1, rounds.2.1 rfl⟩

/-- Its only node is removed: a plan finds nothing to move, and the partition stays where it was. -/
theorem converges_fails : ¬ ∀ (hashString : String → UInt64) (s : PartitionRebalancer), 1 ≤ s.maxConcurrentMovements →
    ∃ iterations, Settled hashString s (run (round hashString) s iterations) ∧
      (s.strategy = .roundRobin ∨ s.strategy = .leastLoaded → (run (round hashString) s iterations).Even) := by
  intro every
  obtain ⟨iterations, settled, -⟩ := every (fun _ => 0) (Example.assigned.removeNode "node-1") (by decide)
  obtain ⟨node, exists_node, -⟩ := settled.assigned ("orders", 0) (by decide)
  exact absurd exists_node (by decide +revert)

end StreamHouse.Agent.PartitionRebalancer
