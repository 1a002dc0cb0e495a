import Mathlib.Data.List.Induction
import StreamHouse.Kafka.Coordinator
import StreamHouse.Lib.Run

/-!
# Who decides a member's assignment

Calls on any number of groups, in any order. Beside each group stands what the leader
of its present generation has given in the sync that made the group stable: a history
the coordinator does not keep. A sync answered without an error must return what stands
there for the member. The coordinator returns what is in the member's entry, which a
rebalance carries into the next generation, and which it also returns while it waits
for the leader.
-/

namespace StreamHouse.Kafka
open StreamHouse.Lib ConsumerGroup List Option

inductive GroupRequest where
  | joinGroup (memberId : Option String) (clientId protocolType : String) (protocols : List MemberProtocol)
      (choices : JoinChoices)
  | syncGroup (generationId : BitVec 32) (memberId : String) (assignments : List SyncGroupAssignment)
  | heartbeat (generationId : BitVec 32) (memberId : String)
  | leaveGroup (memberId leader : String)

/-- The group's entry after a request. -/
def GroupRequest.leaves (entry : Option ConsumerGroup) : GroupRequest → Option ConsumerGroup
  | .joinGroup memberId clientId protocolType protocols choices =>
    some (ConsumerGroup.joinGroup entry memberId clientId protocolType protocols choices).1
  | .syncGroup generationId memberId assignments => (ConsumerGroup.syncGroup entry generationId memberId assignments).1
  | .heartbeat _ _ => entry
  | .leaveGroup memberId leader => (ConsumerGroup.leaveGroup entry memberId leader).1

def generationOf (entry : Option ConsumerGroup) : BitVec 32 := (entry.getD new).generationId

/-- The sync of the generation's leader, which the group has been waiting for. -/
def LeaderSyncs (entry : Option ConsumerGroup) (generationId : BitVec 32) (memberId : String) : Prop :=
  ∃ g ∈ entry, g.state = .completingRebalance ∧ g.leaderId = some memberId ∧
    Members.contains g.members memberId = true ∧ generationId = g.generationId

instance (entry : Option ConsumerGroup) (generationId : BitVec 32) (memberId : String) :
    Decidable (LeaderSyncs entry generationId memberId) :=
  inferInstanceAs (Decidable (∃ g ∈ entry, _))

/-- What the leader of the present generation has supplied, after a request: nothing once the
generation is another one, and the list of its sync from then on. -/
def GroupRequest.suppliedAfter (entry : Option ConsumerGroup) (supplied : Option (List SyncGroupAssignment))
    (request : GroupRequest) : Option (List SyncGroupAssignment) :=
  if generationOf (request.leaves entry) ≠ generationOf entry then none
  else
    match request with
    | .syncGroup generationId memberId assignments =>
      if LeaderSyncs entry generationId memberId then some assignments else supplied
    | _ => supplied

/-- What a list of assignments gives a member: the last entry for it. -/
def suppliedFor (assignments : List SyncGroupAssignment) (memberId : String) : Option (List UInt8) :=
  ((assignments.filter fun a => a.memberId == memberId).getLast?).map SyncGroupAssignment.assignment

structure GroupKey where
  orgId : String
  groupId : String
deriving DecidableEq

structure GroupCall where
  key : GroupKey
  request : GroupRequest

/-- The coordinator's groups, each with what the leader of its generation has supplied. -/
structure Coordinated where
  groups : GroupKey → Option ConsumerGroup
  supplied : GroupKey → Option (List SyncGroupAssignment)

namespace Coordinated

def start : Coordinated := ⟨fun _ => none, fun _ => none⟩

def step (s : Coordinated) (a : GroupCall) : Coordinated where
  groups := Function.update s.groups a.key (a.request.leaves (s.groups a.key))
  supplied := Function.update s.supplied a.key (a.request.suppliedAfter (s.groups a.key) (s.supplied a.key))

end Coordinated

open Coordinated

/-- A sync answered without an error returns what the leader of the generation has supplied for the member. -/
def GroupRequest.Agrees (entry : Option ConsumerGroup) (supplied : Option (List SyncGroupAssignment)) :
    GroupRequest → Prop
  | .syncGroup generationId memberId assignments =>
    (ConsumerGroup.syncGroup entry generationId memberId assignments).2.errorCode = .none →
      ∃ given ∈ GroupRequest.suppliedAfter entry supplied (.syncGroup generationId memberId assignments),
        suppliedFor given memberId = some (ConsumerGroup.syncGroup entry generationId memberId assignments).2.assignment
  | _ => True

/-- A sync of a member at the present generation: while the group waits, it is the leader's and
names the leader; once the group is stable, the leader's list names the member. -/
def GroupRequest.InTurn (entry : Option ConsumerGroup) (supplied : Option (List SyncGroupAssignment)) : GroupRequest → Prop
  | .syncGroup generationId memberId assignments =>
    ∀ g ∈ entry, Members.contains g.members memberId = true → generationId = g.generationId →
      (g.state = .completingRebalance → g.leaderId = some memberId ∧ ∃ a ∈ assignments, a.memberId = memberId) ∧
      (g.state = .stable → ∃ given ∈ supplied, ∃ a ∈ given, a.memberId = memberId)
  | _ => True

/-! ### Maps of members -/

namespace Members

theorem insert_ne_nil (members : Members) (m : GroupMember) : insert members m ≠ [] := by
  simp [insert]

theorem insertAll_ne_nil {members : Members} (some_ : members ≠ []) (entries : Members) : insertAll members entries ≠ [] := by
  induction entries generalizing members with
  | nil => exact some_
  | cons m entries ih => exact ih (insert_ne_nil members m)

theorem contains_assign (members : Members) (id memberId : String) (assignment : List UInt8) :
    contains (assign members id assignment) memberId = contains members memberId := by
  induction members with
  | nil => rfl
  | cons m members ih =>
    have kept : (if m.memberId = id then { m with assignment } else m).memberId = m.memberId := by
      split <;> rfl
    simp only [contains, assign, map_cons, any_cons, kept] at ih ⊢
    rw [ih]

theorem get_of_contains {members : Members} {memberId : String} (present : contains members memberId = true) :
    ∃ m ∈ members, get members memberId = some m ∧ m.memberId = memberId := by
  obtain ⟨m, member, same⟩ := any_eq_true.1 present
  cases found : get members memberId with
  | none => exact absurd same (find?_eq_none.1 found m member)
  | some entry => exact ⟨entry, mem_of_find?_eq_some found, rfl, by simpa using find?_some found⟩

end Members

open Members

theorem contains_assignAll (assignments : List SyncGroupAssignment) (members : Members) (memberId : String) :
    contains (assignAll members assignments) memberId = contains members memberId := by
  induction assignments generalizing members with
  | nil => rfl
  | cons a assignments ih =>
    rw [assignAll, foldl_cons]
    exact (ih _).trans (contains_assign members a.memberId memberId a.assignment)

theorem suppliedFor_concat (assignments : List SyncGroupAssignment) (a : SyncGroupAssignment) (memberId : String) :
    suppliedFor (assignments ++ [a]) memberId =
      if a.memberId = memberId then some a.assignment else suppliedFor assignments memberId := by
  by_cases same : a.memberId = memberId
  · simp [suppliedFor, filter_append, same]
  · simp [suppliedFor, filter_append, same]

theorem suppliedFor_isSome {assignments : List SyncGroupAssignment} {memberId : String} :
    (∃ bytes, suppliedFor assignments memberId = some bytes) ↔ ∃ a ∈ assignments, a.memberId = memberId := by
  induction assignments using reverseRecOn with
  | nil => simp [suppliedFor]
  | append_singleton assignments a ih =>
    rw [suppliedFor_concat]
    by_cases same : a.memberId = memberId
    · simp [same]
    · simp [same, ih]

/-- The leader's list, written entry by entry, leaves each member with what it gives it. -/
theorem assignAll_gives (assignments : List SyncGroupAssignment) (members : Members) :
    ∀ m ∈ assignAll members assignments, ∀ bytes, suppliedFor assignments m.memberId = some bytes → m.assignment = bytes := by
  induction assignments using reverseRecOn with
  | nil => intro m _ bytes gives; cases gives
  | append_singleton assignments a ih =>
    intro m member bytes gives
    have written : assignAll members (assignments ++ [a]) = assign (assignAll members assignments) a.memberId a.assignment :=
      foldl_append
    rw [written] at member
    obtain ⟨old, before, rfl⟩ := mem_map.1 member
    rw [suppliedFor_concat] at gives
    by_cases same : old.memberId = a.memberId
    · simp only [same, if_true] at gives ⊢
      exact some.inj gives
    · simp only [same, Ne.symm same, if_false] at gives ⊢
      exact ih old before bytes gives

/-! ### One request -/

/-- What holds between the calls: a stable group has the leader's list written into its
entries, and while the group is between two generations there is no list. -/
structure Settled (g : ConsumerGroup) (supplied : Option (List SyncGroupAssignment)) : Prop where
  given : g.state = .stable → ∃ given ∈ supplied,
    ∀ m ∈ g.members, ∀ bytes, suppliedFor given m.memberId = some bytes → m.assignment = bytes
  waiting : g.state = .preparingRebalance ∨ g.state = .completingRebalance → supplied = none

theorem succ_ne_self (generation : BitVec 32) : generation + 1 ≠ generation := by
  bv_omega

/-- A new generation that does not begin stable has nothing supplied yet. -/
theorem Settled.of_next {g : ConsumerGroup} (state : g.state ≠ .stable) : Settled g none :=
  ⟨fun stable => absurd stable state, fun _ => rfl⟩

theorem completeJoin_completes {g : ConsumerGroup} (preparing : g.state = .preparingRebalance) (pending : g.pendingMembers ≠ [])
    (choices : JoinChoices) :
    (g.completeJoin choices).state = .completingRebalance ∧ (g.completeJoin choices).generationId = g.generationId := by
  rw [completeJoin, if_pos ⟨preparing, pending⟩]
  exact ⟨rfl, rfl⟩

theorem completeJoin_of_ne {g : ConsumerGroup} (other : g.state ≠ .preparingRebalance) (choices : JoinChoices) :
    g.completeJoin choices = g := by
  rw [completeJoin, if_neg fun both => other both.1]

/-- A member that joins leaves the group waiting for its leader, in a new generation unless one was being prepared. -/
theorem join_completes (g : ConsumerGroup) (member : GroupMember) (protocolType : String) (choices : JoinChoices) :
    ((g.addMember member protocolType choices).completeJoin choices).state = .completingRebalance ∧
      (((g.addMember member protocolType choices).completeJoin choices).generationId = g.generationId + 1 ∨
        g.state = .preparingRebalance ∧
          ((g.addMember member protocolType choices).completeJoin choices).generationId = g.generationId) := by
  have pending : insert g.pendingMembers member ≠ [] := insert_ne_nil g.pendingMembers member
  cases state : g.state with
  | empty =>
    have added : (g.addMember member protocolType choices).state = .completingRebalance := by simp [addMember, state]
    rw [completeJoin_of_ne (by simp [added])]
    exact ⟨added, .inl (by simp [addMember, state])⟩
  | dead =>
    have added : (g.addMember member protocolType choices).state = .completingRebalance := by simp [addMember, state]
    rw [completeJoin_of_ne (by simp [added])]
    exact ⟨added, .inl (by simp [addMember, state])⟩
  | preparingRebalance =>
    obtain ⟨completing, generation⟩ := completeJoin_completes (g := g.addMember member protocolType choices)
      (by simp [addMember, state]) (by simpa [addMember, state] using pending) choices
    exact ⟨completing, .inr ⟨rfl, generation.trans (by simp [addMember, state])⟩⟩
  | completingRebalance =>
    obtain ⟨completing, generation⟩ := completeJoin_completes (g := g.addMember member protocolType choices)
      (by simp [addMember, state]) (by simpa [addMember, state] using insertAll_ne_nil pending g.members) choices
    exact ⟨completing, .inl (generation.trans (by simp [addMember, state]))⟩
  | stable =>
    obtain ⟨completing, generation⟩ := completeJoin_completes (g := g.addMember member protocolType choices)
      (by simp [addMember, state]) (by simpa [addMember, state] using insertAll_ne_nil pending g.members) choices
    exact ⟨completing, .inl (generation.trans (by simp [addMember, state]))⟩

variable {entry : Option ConsumerGroup} {supplied : Option (List SyncGroupAssignment)} {generationId : BitVec 32} {memberId : String}

theorem suppliedAfter_next {request : GroupRequest}
    (next : generationOf (request.leaves entry) = generationOf entry + 1) (supplied : Option (List SyncGroupAssignment)) :
    request.suppliedAfter entry supplied = none := by
  unfold GroupRequest.suppliedAfter
  rw [if_pos]
  rw [next]
  exact succ_ne_self _

/-- Between the calls the entry of a group, if there is one, is settled. -/
def EntrySettled (entry : Option ConsumerGroup) (supplied : Option (List SyncGroupAssignment)) : Prop :=
  Settled (entry.getD new) supplied

theorem join_settled
    (settled : EntrySettled entry supplied) (memberId : Option String) (clientId protocolType : String)
    (protocols : List MemberProtocol) (choices : JoinChoices) :
    EntrySettled (GroupRequest.leaves entry (.joinGroup memberId clientId protocolType protocols choices))
      (GroupRequest.suppliedAfter entry supplied (.joinGroup memberId clientId protocolType protocols choices)) := by
  generalize asked : GroupRequest.joinGroup memberId clientId protocolType protocols choices = request
  have kept : generationOf (request.leaves entry) = generationOf entry → request.suppliedAfter entry supplied = supplied := by
    intro same
    subst asked
    exact if_neg (not_not.2 same)
  have left : (request.leaves entry).getD new = (joinGroup entry memberId clientId protocolType protocols choices).1 := by
    subst asked
    rfl
  have refused : (request.leaves entry).getD new = entry.getD new →
      EntrySettled (request.leaves entry) (request.suppliedAfter entry supplied) := by
    intro unchanged
    rw [kept (congrArg generationId unchanged), EntrySettled, unchanged]
    exact settled
  by_cases unnamed : memberId.getD "" = ""
  · exact refused (by simp [left, joinGroup, unnamed])
  by_cases other : (entry.getD new).protocolType.isSome ∧ (entry.getD new).protocolType ≠ some protocolType
  · refine refused (left.trans ?_)
    rw [joinGroup]
    simp only [unnamed, if_false, if_pos other]
  obtain ⟨completing, generation⟩ :=
    join_completes (entry.getD new) ⟨memberId.getD "", protocols, []⟩ protocolType choices
  have joined : (request.leaves entry).getD new =
      ((entry.getD new).addMember ⟨memberId.getD "", protocols, []⟩ protocolType choices).completeJoin choices := by
    rw [left, joinGroup]
    simp only [unnamed, if_false, if_neg other]
  have nothing : request.suppliedAfter entry supplied = none := by
    obtain next | ⟨preparing, same⟩ := generation
    · exact suppliedAfter_next ((congrArg generationId joined).trans next) supplied
    · rw [kept ((congrArg generationId joined).trans same)]
      exact settled.waiting (.inl preparing)
  rw [nothing]
  refine Settled.of_next ?_
  rw [joined, completing]
  exact fun stable => nomatch stable

theorem leave_settled
    (settled : EntrySettled entry supplied) (memberId leader : String) :
    EntrySettled (GroupRequest.leaves entry (.leaveGroup memberId leader))
      (GroupRequest.suppliedAfter entry supplied (.leaveGroup memberId leader)) := by
  have kept : (GroupRequest.leaves entry (.leaveGroup memberId leader)) = entry →
      EntrySettled (GroupRequest.leaves entry (.leaveGroup memberId leader))
        (GroupRequest.suppliedAfter entry supplied (.leaveGroup memberId leader)) := by
    intro unchanged
    have same : GroupRequest.suppliedAfter entry supplied (.leaveGroup memberId leader) = supplied :=
      if_neg (not_not.2 (congrArg generationOf unchanged))
    rw [same, unchanged]
    exact settled
  cases entry with
  | none => exact kept rfl
  | some g =>
    by_cases absent : contains g.members memberId = false
    · refine kept ?_
      simp only [GroupRequest.leaves, ConsumerGroup.leaveGroup, absent, if_true]
    by_cases last : remove g.members memberId = []
    · constructor
      · intro stable
        simp [GroupRequest.leaves, ConsumerGroup.leaveGroup, absent, last] at stable
      · intro waiting
        simp [GroupRequest.leaves, ConsumerGroup.leaveGroup, absent, last] at waiting
    · have next : generationOf (GroupRequest.leaves (some g) (.leaveGroup memberId leader)) = generationOf (some g) + 1 := by
        simp [GroupRequest.leaves, ConsumerGroup.leaveGroup, absent, last, generationOf]
      rw [suppliedAfter_next next]
      refine Settled.of_next ?_
      simp [GroupRequest.leaves, leaveGroup, absent, last]

/-- What a sync returns once it has passed the checks. -/
def assignmentOf (members : Members) (memberId : String) : List UInt8 :=
  ((get members memberId).map GroupMember.assignment).getD []

/-- A member at the present generation. -/
structure Checked (entry : Option ConsumerGroup) (generationId : BitVec 32) (memberId : String) (g : ConsumerGroup) : Prop where
  present : entry = some g
  contains : contains g.members memberId = true
  generation : generationId = g.generationId

/-- The four ways a sync can go. -/
inductive SyncOutcome (entry : Option ConsumerGroup) (generationId : BitVec 32) (memberId : String)
    (assignments : List SyncGroupAssignment) : Prop where
  | refused (unchanged : (syncGroup entry generationId memberId assignments).1 = entry)
      (error : (syncGroup entry generationId memberId assignments).2.errorCode ≠ .none)
      (idle : ∀ g, Checked entry generationId memberId g → g.state ≠ .completingRebalance ∧ g.state ≠ .stable)
  | early (g : ConsumerGroup) (checked : Checked entry generationId memberId g) (state : g.state = .completingRebalance)
      (follower : g.leaderId ≠ some memberId)
      (result : syncGroup entry generationId memberId assignments =
        (some g, ⟨.none, assignmentOf g.members memberId⟩))
  | leads (g : ConsumerGroup) (checked : Checked entry generationId memberId g) (state : g.state = .completingRebalance)
      (leader : g.leaderId = some memberId)
      (result : syncGroup entry generationId memberId assignments =
        (some { g with state := .stable, members := assignAll g.members assignments },
          ⟨.none, assignmentOf (assignAll g.members assignments) memberId⟩))
  | stable (g : ConsumerGroup) (checked : Checked entry generationId memberId g) (state : g.state = .stable)
      (result : syncGroup entry generationId memberId assignments =
        (some g, ⟨.none, assignmentOf g.members memberId⟩))

theorem Checked.unique {g g' : ConsumerGroup}
    (one : Checked entry generationId memberId g) (two : Checked entry generationId memberId g') : g = g' :=
  some.inj (one.present.symm.trans two.present)

/-- Past its checks a sync goes by the group's state. -/
theorem Checked.syncGroup {g : ConsumerGroup}
    (checked : Checked (some g) generationId memberId g) (assignments : List SyncGroupAssignment) :
    syncGroup (some g) generationId memberId assignments =
      match g.takeAssignments memberId assignments with
      | .error e => (some g, ⟨e, []⟩)
      | .ok g => (some g, ⟨.none, assignmentOf g.members memberId⟩) := by
  have present : ¬ Members.contains g.members memberId = false := by simp [checked.contains]
  simp only [ConsumerGroup.syncGroup, if_neg present, if_neg (not_not.2 checked.generation)]
  rfl

theorem sync_outcome (entry : Option ConsumerGroup) (generationId : BitVec 32) (memberId : String)
    (assignments : List SyncGroupAssignment) : SyncOutcome entry generationId memberId assignments := by
  cases entry with
  | none =>
    refine .refused rfl (fun no => nomatch no) ?_
    intro g checked
    cases checked.present
  | some g =>
    by_cases absent : contains g.members memberId = false
    · have result : syncGroup (some g) generationId memberId assignments = (some g, ⟨.unknownMemberId, []⟩) := by
        simp only [syncGroup, absent, if_true]
      refine .refused (by rw [result]) (by rw [result]; exact fun no => nomatch no) ?_
      intro g' checked
      obtain rfl := some.inj checked.present
      exact absurd checked.contains (by simp [absent])
    by_cases other : generationId ≠ g.generationId
    · have result : syncGroup (some g) generationId memberId assignments = (some g, ⟨.illegalGeneration, []⟩) := by
        simp only [syncGroup, if_neg absent, if_pos other]
      refine .refused (by rw [result]) (by rw [result]; exact fun no => nomatch no) ?_
      intro g' checked
      obtain rfl := some.inj checked.present
      exact absurd checked.generation other
    have checked : Checked (some g) generationId memberId g := ⟨rfl, by simpa using absent, not_not.1 other⟩
    have taken := checked.syncGroup assignments
    cases state : g.state with
    | completingRebalance =>
      by_cases leader : g.leaderId = some memberId
      · refine .leads g checked state leader (taken.trans ?_)
        simp only [takeAssignments, state, leader, if_true]
      · refine .early g checked state leader (taken.trans ?_)
        simp only [takeAssignments, state, leader, if_false]
    | stable =>
      refine .stable g checked state (taken.trans ?_)
      simp only [takeAssignments, state]
    | empty | dead | preparingRebalance =>
      simp only [takeAssignments, state] at taken
      refine .refused (by rw [taken]) (by rw [taken]; exact fun no => nomatch no) ?_
      intro g' checked'
      obtain rfl := checked.unique checked'
      rw [state]
      exact ⟨(fun no => nomatch no), (fun no => nomatch no)⟩

/-- A sync begins no generation. -/
theorem suppliedAfter_sync
    {assignments : List SyncGroupAssignment}
    (same : generationOf (syncGroup entry generationId memberId assignments).1 = generationOf entry)
    (supplied : Option (List SyncGroupAssignment)) :
    GroupRequest.suppliedAfter entry supplied (.syncGroup generationId memberId assignments) =
      if LeaderSyncs entry generationId memberId then some assignments else supplied :=
  if_neg (not_not.2 same)

theorem Checked.leaderSyncs_iff {g : ConsumerGroup}
    (checked : Checked entry generationId memberId g) :
    LeaderSyncs entry generationId memberId ↔ g.state = .completingRebalance ∧ g.leaderId = some memberId := by
  constructor
  · rintro ⟨g', present, state, leader, -, -⟩
    obtain rfl := some.inj (checked.present.symm.trans present)
    exact ⟨state, leader⟩
  · rintro ⟨state, leader⟩
    exact ⟨g, checked.present, state, leader, checked.contains, checked.generation⟩

/-- What it takes of a member that passes the checks to sync in turn. -/
theorem Checked.inTurn_iff {g : ConsumerGroup}
    (checked : Checked entry generationId memberId g) (supplied : Option (List SyncGroupAssignment))
    (assignments : List SyncGroupAssignment) :
    GroupRequest.InTurn entry supplied (.syncGroup generationId memberId assignments) ↔
      (g.state = .completingRebalance → g.leaderId = some memberId ∧ ∃ a ∈ assignments, a.memberId = memberId) ∧
      (g.state = .stable → ∃ given ∈ supplied, ∃ a ∈ given, a.memberId = memberId) := by
  constructor
  · intro inTurn
    exact inTurn g checked.present checked.contains checked.generation
  · rintro both g' present - -
    obtain rfl := some.inj (checked.present.symm.trans present)
    exact both

theorem assignmentOf_gives {members : Members} {given : List SyncGroupAssignment}
    (contains : contains members memberId = true)
    (gives : ∀ m ∈ members, ∀ bytes, suppliedFor given m.memberId = some bytes → m.assignment = bytes) :
    suppliedFor given memberId = some (assignmentOf members memberId) ↔ ∃ a ∈ given, a.memberId = memberId := by
  obtain ⟨m, member, found, rfl⟩ := get_of_contains contains
  rw [← suppliedFor_isSome]
  constructor
  · intro supplied
    exact ⟨_, supplied⟩
  · rintro ⟨bytes, supplied⟩
    have equal : assignmentOf members m.memberId = m.assignment := by
      rw [assignmentOf, found]
      rfl
    rw [equal, gives m member bytes supplied]
    exact supplied

theorem sync_settled
    (settled : EntrySettled entry supplied) (generationId : BitVec 32) (memberId : String)
    (assignments : List SyncGroupAssignment) :
    EntrySettled (GroupRequest.leaves entry (.syncGroup generationId memberId assignments))
      (GroupRequest.suppliedAfter entry supplied (.syncGroup generationId memberId assignments)) := by
  have kept (unchanged : (syncGroup entry generationId memberId assignments).1 = entry)
      (not_ : ¬ LeaderSyncs entry generationId memberId) :
      EntrySettled (GroupRequest.leaves entry (.syncGroup generationId memberId assignments))
        (GroupRequest.suppliedAfter entry supplied (.syncGroup generationId memberId assignments)) := by
    rw [suppliedAfter_sync (congrArg generationOf unchanged), if_neg not_, GroupRequest.leaves, unchanged]
    exact settled
  cases sync_outcome entry generationId memberId assignments with
  | refused unchanged error idle =>
    refine kept unchanged ?_
    rintro ⟨g, present, state, -, contains, generation⟩
    exact (idle g ⟨present, contains, generation⟩).1 state
  | early g checked state follower result =>
    exact kept (by rw [result, checked.present]) fun leads => follower (checked.leaderSyncs_iff.1 leads).2
  | stable g checked state result =>
    exact kept (by rw [result, checked.present]) fun leads => nomatch state.symm.trans (checked.leaderSyncs_iff.1 leads).1
  | leads g checked state leader result =>
    have leads := checked.leaderSyncs_iff.2 ⟨state, leader⟩
    rw [suppliedAfter_sync (by rw [result, checked.present]; rfl), if_pos leads, GroupRequest.leaves, result]
    refine ⟨fun _ => ⟨assignments, rfl, assignAll_gives assignments g.members⟩, ?_⟩
    rintro (waiting | waiting)
    · cases waiting
    · cases waiting

/-- **The step**: every request leaves the group's entry settled. -/
theorem request_settled
    (settled : EntrySettled entry supplied) (request : GroupRequest) :
    EntrySettled (request.leaves entry) (request.suppliedAfter entry supplied) := by
  cases request with
  | joinGroup memberId clientId protocolType protocols choices =>
    exact join_settled settled memberId clientId protocolType protocols choices
  | syncGroup generationId memberId assignments => exact sync_settled settled generationId memberId assignments
  | heartbeat generationId memberId =>
    have kept : GroupRequest.suppliedAfter entry supplied (.heartbeat generationId memberId) = supplied := if_neg (not_not.2 rfl)
    rw [kept]
    exact settled
  | leaveGroup memberId leader => exact leave_settled settled memberId leader

section agrees
variable
  {assignments : List SyncGroupAssignment} {g : ConsumerGroup}

/-- A sync ahead of the leader's agrees with nothing. -/
theorem early_disagrees (settled : EntrySettled entry supplied) (checked : Checked entry generationId memberId g)
    (state : g.state = .completingRebalance) (follower : g.leaderId ≠ some memberId)
    (result : syncGroup entry generationId memberId assignments = (some g, ⟨.none, assignmentOf g.members memberId⟩)) :
    ¬ GroupRequest.Agrees entry supplied (.syncGroup generationId memberId assignments) := by
  intro agrees
  obtain ⟨given, member, -⟩ := agrees (by rw [result])
  have nothing : supplied = none := by
    refine settled.waiting (.inr ?_)
    rw [checked.present]
    exact state
  have waits : ¬ LeaderSyncs entry generationId memberId := fun leads => follower (checked.leaderSyncs_iff.1 leads).2
  rw [suppliedAfter_sync (by rw [result, checked.present]), if_neg waits, nothing] at member
  cases member

/-- The leader's own sync agrees if its list names the leader. -/
theorem leader_agrees_iff (checked : Checked entry generationId memberId g) (state : g.state = .completingRebalance)
    (leader : g.leaderId = some memberId)
    (result : syncGroup entry generationId memberId assignments =
      (some { g with state := .stable, members := assignAll g.members assignments },
        ⟨.none, assignmentOf (assignAll g.members assignments) memberId⟩)) :
    GroupRequest.Agrees entry supplied (.syncGroup generationId memberId assignments) ↔ ∃ a ∈ assignments, a.memberId = memberId := by
  have contains : contains (assignAll g.members assignments) memberId = true :=
    (contains_assignAll assignments g.members memberId).trans checked.contains
  rw [GroupRequest.Agrees, suppliedAfter_sync (by rw [result, checked.present]; rfl),
    if_pos (checked.leaderSyncs_iff.2 ⟨state, leader⟩), result]
  simp only [forall_const, mem_def, some.injEq, exists_eq_left']
  exact assignmentOf_gives contains (assignAll_gives assignments g.members)

/-- A sync of a stable group agrees if the leader's list names the member. -/
theorem stable_agrees_iff {given : List SyncGroupAssignment} (checked : Checked entry generationId memberId g) (state : g.state = .stable)
    (gives : ∀ m ∈ g.members, ∀ bytes, suppliedFor given m.memberId = some bytes → m.assignment = bytes)
    (result : syncGroup entry generationId memberId assignments = (some g, ⟨.none, assignmentOf g.members memberId⟩)) :
    GroupRequest.Agrees entry (some given) (.syncGroup generationId memberId assignments) ↔ ∃ a ∈ given, a.memberId = memberId := by
  have waits : ¬ LeaderSyncs entry generationId memberId := fun leads => nomatch state.symm.trans (checked.leaderSyncs_iff.1 leads).1
  rw [GroupRequest.Agrees, suppliedAfter_sync (by rw [result, checked.present]), if_neg waits, result]
  simp only [forall_const, mem_def, some.injEq, exists_eq_left']
  exact assignmentOf_gives checked.contains gives

/-- A sync agrees with the leader exactly if it is made in turn. -/
theorem agrees_iff (settled : EntrySettled entry supplied) (request : GroupRequest) :
    request.Agrees entry supplied ↔ request.InTurn entry supplied := by
  cases request with
  | joinGroup memberId clientId protocolType protocols choices => exact Iff.rfl
  | heartbeat generationId memberId => exact Iff.rfl
  | leaveGroup memberId leader => exact Iff.rfl
  | syncGroup generationId memberId assignments =>
    cases sync_outcome entry generationId memberId assignments with
    | refused unchanged error idle =>
      refine iff_of_true (fun answered => absurd answered error) ?_
      intro g present contains generation
      obtain ⟨notCompleting, notStable⟩ := idle g ⟨present, contains, generation⟩
      exact ⟨fun state => absurd state notCompleting, fun state => absurd state notStable⟩
    | early g checked state follower result =>
      refine iff_of_false (early_disagrees settled checked state follower result) fun inTurn => ?_
      exact follower (((checked.inTurn_iff supplied assignments).1 inTurn).1 state).1
    | leads g checked state leader result =>
      rw [leader_agrees_iff checked state leader result, checked.inTurn_iff, state]
      simp [leader]
    | stable g checked state result =>
      obtain ⟨given, rfl, gives⟩ := settled.given (by rw [checked.present]; exact state)
      rw [checked.present] at gives
      rw [stable_agrees_iff checked state gives result, checked.inTurn_iff, state]
      simp

end agrees

/-! ### Runs -/

def Coordinated.Settled (s : Coordinated) : Prop := ∀ k, EntrySettled (s.groups k) (s.supplied k)

theorem start_settled : start.Settled :=
  fun _ => ⟨(fun stable => nomatch stable), fun _ => rfl⟩

theorem step_settled {s : Coordinated} (settled : s.Settled) (a : GroupCall) : (s.step a).Settled := by
  intro k
  by_cases same : k = a.key
  · subst same
    simp only [step, Function.update_self]
    exact request_settled (settled a.key) a.request
  · simp only [step, Function.update_of_ne same]
    exact settled k

theorem run_settled {s : Coordinated} (settled : s.Settled) (calls : List GroupCall) : (run Coordinated.step s calls).Settled :=
  run_invariant Coordinated.Settled (fun _ a settled => step_settled settled a) settled calls

/-- In a run of calls on any groups, every sync answered without an error returns what the
leader of the generation has supplied for the member, exactly if every sync that passes the
checks is made in turn. -/
theorem assignments_agree_iff (calls : List GroupCall) :
    (∀ before a after, calls = before ++ a :: after →
      a.request.Agrees ((run step start before).groups a.key)
        ((run step start before).supplied a.key)) ↔
      Meets step (fun s a => a.request.InTurn (s.groups a.key) (s.supplied a.key)) start calls := by
  rw [meets_iff_forall]
  refine forall_congr' fun before => forall_congr' fun a => forall_congr' fun after => imp_congr_right fun _ => ?_
  exact agrees_iff (run_settled start_settled before a.key) a.request

namespace Example

def group : GroupKey := ⟨"org", "readers"⟩

def joins (memberId : String) : GroupCall :=
  ⟨group, .joinGroup (some memberId) "client" "consumer" [⟨"range", []⟩] ⟨"uuid", memberId, "range"⟩⟩

def syncs (generationId : BitVec 32) (memberId : String) (assignments : List SyncGroupAssignment) : GroupCall :=
  ⟨group, .syncGroup generationId memberId assignments⟩

/-- The leader gives both members a partition; the second joins again and syncs before the leader does. -/
def staleRun : List GroupCall :=
  [joins "a", joins "b", joins "a", syncs 3 "a" [⟨"a", [0]⟩, ⟨"b", [1]⟩], joins "b", syncs 4 "b" []]

end Example

open Example

theorem assignments_agree_fails :
    ¬ ∀ before a after, staleRun = before ++ a :: after →
      a.request.Agrees ((run step start before).groups a.key)
        ((run step start before).supplied a.key) := by
  intro every
  have agrees := every (staleRun.take 5) (syncs 4 "b" []) [] rfl
  have answered : (syncGroup ((run step start (staleRun.take 5)).groups group)
      4 "b" []).2 = ⟨.none, [1]⟩ := by
    decide
  have nothing : GroupRequest.suppliedAfter ((run step start (staleRun.take 5)).groups group)
      ((run step start (staleRun.take 5)).supplied group) (.syncGroup 4 "b" []) = none := by
    decide
  obtain ⟨given, member, -⟩ := agrees (congrArg SyncGroupResult.errorCode answered)
  cases nothing.symm.trans member

end StreamHouse.Kafka
