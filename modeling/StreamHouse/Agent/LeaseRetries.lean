import StreamHouse.Agent.Assignment
import StreamHouse.Lib.Run

/-!
# Leases that could not be acquired

A pass of `RebalanceTask::perform_rebalance` as a whole: it acquires what it has not recorded yet,
releases what it has recorded and should not have, and then records the new assignment, with the
partitions in it whose acquisition failed. The next pass finds them recorded and does not try again.
`retries_iff` says that every acquisition has to succeed at once.
-/

namespace StreamHouse.Agent.LeaseRetries
open Lib Finset

/-- What a pass reads, and which leases it is given. A read that fails gives nothing. -/
structure Pass where
  agents : Option (List String)
  checked : String → Option (Option Nat)
  counted : String → Option (Option Nat)
  acquires : TopicPartitionId → Bool

/-- `AssignerState`, and beside it the partitions whose leases were acquired and not released since.
The ids of the topology are in the order of their indices. -/
structure Assigner where
  assignedPartitions : Finset TopicPartitionId
  agentTopology : List String
  held : Finset TopicPartitionId

namespace Assigner

def start : Assigner := ⟨∅, [], ∅⟩

variable (agentId : String) (topics : List String)

/-- The assignment of a pass that gets to it. -/
def assignmentOf (agents : List String) (partitionCount : String → Option (Option Nat)) : Finset TopicPartitionId :=
  computeAssignment agentId agents (fun topic => (partitionCount topic).join) topics

/-- The topology and the assignment are those that are recorded. A topic that cannot be read is skipped. -/
def UpToDate (s : Assigner) (agents : List String) (pass : Pass) : Prop :=
  agents.insertionSort (· ≤ ·) = s.agentTopology ∧ assignmentOf agentId topics agents pass.checked = s.assignedPartitions

instance (s : Assigner) (agents : List String) (pass : Pass) : Decidable (UpToDate agentId topics s agents pass) :=
  inferInstanceAs (Decidable (_ ∧ _))

/-- The new assignment, if the pass gets to it. -/
def newAssignment (s : Assigner) (pass : Pass) : Option (Finset TopicPartitionId) :=
  match pass.agents with
  | none | some [] => none
  | some agents =>
    if UpToDate agentId topics s agents pass then none
    else if topics.any (fun topic => (pass.counted topic).isNone) then none
    else some (assignmentOf agentId topics agents pass.counted)

/-- `to_acquire`. -/
def toAcquire (s : Assigner) (pass : Pass) : Finset TopicPartitionId :=
  match newAssignment agentId topics s pass with
  | none => ∅
  | some assignment => assignment \ s.assignedPartitions

/-- `perform_rebalance`. -/
def step (s : Assigner) (pass : Pass) : Assigner :=
  match newAssignment agentId topics s pass with
  | none => s
  | some assignment =>
    { assignedPartitions := assignment
      agentTopology := (pass.agents.getD []).insertionSort (· ≤ ·)
      held := (s.held \ (s.assignedPartitions \ assignment)) ∪ (assignment \ s.assignedPartitions).filter fun p => pass.acquires p }

/-- The partitions that the pass should give the agent. -/
def Wants (pass : Pass) (p : TopicPartitionId) : Prop :=
  ∃ agents, pass.agents = some agents ∧ agents ≠ [] ∧ (∀ topic ∈ topics, (pass.counted topic).isSome) ∧
    p ∈ assignmentOf agentId topics agents pass.counted

end Assigner

open Assigner

/-- A partition whose acquisition failed is attempted by the next pass that gives it to the agent, and
what is recorded was acquired. -/
structure Retries (agentId : String) (topics : List String) (passes : List Pass) : Prop where
  retried : ∀ before a b after, passes = before ++ a :: b :: after →
    ∀ p ∈ toAcquire agentId topics (run (step agentId topics) start before) a, a.acquires p = false → Wants agentId topics b p →
      p ∈ toAcquire agentId topics (run (step agentId topics) start (before ++ [a])) b
  recorded : ∀ before after, passes = before ++ after →
    (run (step agentId topics) start before).assignedPartitions ⊆ (run (step agentId topics) start before).held

/-- Every acquisition that the pass attempts succeeds. -/
def AcquiresAll (agentId : String) (topics : List String) (s : Assigner) (pass : Pass) : Prop :=
  ∀ p ∈ toAcquire agentId topics s pass, pass.acquires p = true

section

variable {agentId : String} {topics : List String} {s : Assigner}

/-- What was acquired stays recorded until it is released. -/
theorem held_step (within : s.held ⊆ s.assignedPartitions) (pass : Pass) :
    (s.step agentId topics pass).held ⊆ (s.step agentId topics pass).assignedPartitions := by
  unfold step
  cases newAssignment agentId topics s pass with
  | none => exact within
  | some assignment =>
    intro p inside
    rcases mem_union.mp inside with kept | acquired
    · obtain ⟨old, notReleased⟩ := mem_sdiff.mp kept
      by_contra gone
      exact notReleased (mem_sdiff.mpr ⟨within old, gone⟩)
    · exact (mem_sdiff.mp (mem_filter.mp acquired).1).1

/-- **One pass** leaves nothing recorded that was not acquired just if it acquires what it attempts. -/
theorem recorded_step_iff (same : s.assignedPartitions = s.held) (pass : Pass) :
    (s.step agentId topics pass).assignedPartitions ⊆ (s.step agentId topics pass).held ↔ AcquiresAll agentId topics s pass := by
  unfold step AcquiresAll toAcquire
  cases newAssignment agentId topics s pass with
  | none => exact iff_of_true same.subset fun p inside => absurd inside (notMem_empty p)
  | some assignment =>
    dsimp only
    constructor
    · intro recorded p inside
      obtain ⟨now, fresh⟩ := mem_sdiff.mp inside
      rcases mem_union.mp (recorded now) with kept | acquired
      · rw [← same] at kept
        exact absurd (mem_sdiff.mp kept).1 fresh
      · exact (mem_filter.mp acquired).2
    · intro acquires p now
      by_cases old : p ∈ s.assignedPartitions
      · rw [same] at old
        exact mem_union_left _ (mem_sdiff.mpr ⟨old, fun released => (mem_sdiff.mp released).2 now⟩)
      · have fresh := mem_sdiff.mpr ⟨now, old⟩
        exact mem_union_right _ (mem_filter.mpr ⟨fresh, acquires p fresh⟩)

/-- What is recorded is what was acquired, as long as every acquisition succeeds. -/
theorem same_run {passes : List Pass} (meets : Meets (step agentId topics) (AcquiresAll agentId topics) start passes) :
    (run (step agentId topics) start passes).assignedPartitions = (run (step agentId topics) start passes).held := by
  have keep : ∀ (s : Assigner) (pass : Pass), s.assignedPartitions = s.held → AcquiresAll agentId topics s pass →
      (s.step agentId topics pass).assignedPartitions = (s.step agentId topics pass).held := by
    intro s pass same acquires
    exact Subset.antisymm ((recorded_step_iff same pass).mpr acquires) (held_step same.symm.subset pass)
  exact meets.invariant keep rfl

theorem heldRecorded_run (passes : List Pass) :
    (run (step agentId topics) start passes).held ⊆ (run (step agentId topics) start passes).assignedPartitions :=
  run_invariant (fun s : Assigner => s.held ⊆ s.assignedPartitions) (fun _ pass within => held_step within pass) (Subset.refl _) passes

theorem acquiresAll_of_retries {passes : List Pass} (retries : Retries agentId topics passes) :
    Meets (step agentId topics) (AcquiresAll agentId topics) start passes := by
  rw [meets_iff_forall]
  intro before pass after split
  have same : (run (step agentId topics) start before).assignedPartitions = (run (step agentId topics) start before).held :=
    Subset.antisymm (retries.recorded before (pass :: after) split) (heldRecorded_run before)
  refine (recorded_step_iff same pass).mp ?_
  have recorded := retries.recorded (before ++ [pass]) after (by rw [split, List.append_assoc, List.singleton_append])
  rwa [run_append] at recorded

end

/-- **Failed acquisitions are retried and not recorded exactly if** every acquisition that is attempted succeeds. -/
theorem retries_iff (agentId : String) (topics : List String) (passes : List Pass) :
    Retries agentId topics passes ↔ Meets (step agentId topics) (AcquiresAll agentId topics) start passes := by
  refine ⟨acquiresAll_of_retries, fun meets => ⟨?_, ?_⟩⟩
  · rintro before a b after rfl p attempted failed -
    have acquired := meets_iff_forall.mp meets before a (b :: after) rfl p attempted
    rw [failed] at acquired
    cases acquired
  · rintro before after rfl
    exact (same_run (meets_append.mp meets).1).subset

namespace Example

/-- One agent, one topic with a partition, and a lease that somebody else holds. -/
def heldElsewhere : Pass := ⟨some ["agent"], fun _ => some (some 1), fun _ => some (some 1), fun _ => false⟩

end Example

/-- The second pass finds the partition recorded and does not try. -/
theorem retries_fail : ¬ Retries "agent" ["orders"] [Example.heldElsewhere, Example.heldElsewhere] := by
  intro retries
  have attempted := retries.retried [] Example.heldElsewhere Example.heldElsewhere [] rfl ("orders", 0) (by decide) rfl
    ⟨["agent"], rfl, by decide, by decide, by decide⟩
  revert attempted
  decide

end StreamHouse.Agent.LeaseRetries
