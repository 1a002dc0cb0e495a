import Mathlib.Algebra.Group.Nat.Defs
import StreamHouse.Kafka.GroupAgreement

/-!
# The states of a group

What every call leaves of a group: it is empty just if it has no members, and its leader is one of
them. A call that changes the members raises the generation or begins to wait for a leader's sync,
so two generations that synced with other members have other numbers. The number is an `i32`:
`groupInvariants_iff` says that it is enough that no call raises the last one.
-/

namespace StreamHouse.Kafka
open StreamHouse.Lib ConsumerGroup List Coordinated Example

/-! ## Maps of members -/

namespace Members

theorem contains_iff {members : Members} {memberId : String} :
    contains members memberId = true ↔ ∃ m ∈ members, m.memberId = memberId := by
  simp [contains]

@[simp] theorem contains_nil (memberId : String) : contains [] memberId = false := rfl

theorem contains_remove (members : Members) (removed memberId : String) :
    contains (remove members removed) memberId = true ↔ contains members memberId = true ∧ memberId ≠ removed := by
  simp only [contains_iff, remove, mem_filter, Bool.not_eq_true', beq_eq_false_iff_ne]
  constructor
  · rintro ⟨m, ⟨there, other⟩, rfl⟩
    exact ⟨⟨m, there, rfl⟩, other⟩
  · rintro ⟨⟨m, there, rfl⟩, other⟩
    exact ⟨m, ⟨there, other⟩, rfl⟩

theorem contains_insert (members : Members) (m : GroupMember) (memberId : String) :
    contains (insert members m) memberId = true ↔ contains members memberId = true ∨ m.memberId = memberId := by
  rw [insert, contains, any_append, Bool.or_eq_true, ← contains, contains_remove]
  simp only [any_cons, any_nil, Bool.or_false, beq_iff_eq]
  constructor
  · rintro (⟨there, -⟩ | same)
    · exact .inl there
    · exact .inr same
  · rintro (there | same)
    · by_cases own : m.memberId = memberId
      · exact .inr own
      · exact .inl ⟨there, Ne.symm own⟩
    · exact .inr same

theorem contains_insertAll (members entries : Members) (memberId : String) :
    contains (insertAll members entries) memberId = true ↔ contains members memberId = true ∨ contains entries memberId = true := by
  induction entries generalizing members with
  | nil => simp [insertAll]
  | cons m entries ih =>
    rw [insertAll, foldl_cons]
    refine (ih (insert members m)).trans ?_
    rw [contains_insert, contains_iff, @contains_iff (m :: entries), exists_mem_cons_iff, ← contains_iff, ← @contains_iff entries,
      or_assoc]

/-- The first key of a map with entries. -/
theorem firstKey_mem {members : Members} (some_ : members ≠ []) (chosen : String) :
    ∃ leader, firstKey members chosen = some leader ∧ contains members leader = true := by
  unfold firstKey
  split
  · next there => exact ⟨chosen, rfl, there⟩
  · obtain ⟨m, rest, rfl⟩ := exists_cons_of_ne_nil some_
    exact ⟨m.memberId, rfl, contains_iff.mpr ⟨m, mem_cons_self, rfl⟩⟩

end Members

open Members

/-! ## One request -/

/-- The last generation that an `i32` has. -/
def lastGeneration : BitVec 32 := BitVec.intMax 32

/-- `join_group` does not answer with an error. -/
def MayJoin (g : ConsumerGroup) (memberId : Option String) (protocolType : String) : Prop :=
  memberId.getD "" ≠ "" ∧ ¬ (g.protocolType.isSome ∧ g.protocolType ≠ some protocolType)

/-- The request begins a generation: a member joins while none is being prepared, or one of several
members leaves. -/
def GroupRequest.Raises (g : ConsumerGroup) : GroupRequest → Prop
  | .joinGroup memberId _ protocolType _ _ => MayJoin g memberId protocolType ∧ g.state ≠ .preparingRebalance
  | .leaveGroup memberId _ => contains g.members memberId = true ∧ remove g.members memberId ≠ []
  | _ => False

/-- The members are there just if the group is not empty, and one of them leads it. -/
structure Consistent (g : ConsumerGroup) : Prop where
  empty_iff : g.members = [] ↔ g.state = .empty
  led : g.members ≠ [] → ∃ leader, g.leaderId = some leader ∧ contains g.members leader = true

/-- A group between two calls. Nobody waits to be let in. -/
structure Resting (g : ConsumerGroup) : Prop extends Consistent g where
  admitted : g.pendingMembers = []
  alive : g.state ≠ .dead

/-- Members with a generation of their own. -/
def Active (g : ConsumerGroup) : Prop := g.state = .completingRebalance ∨ g.state = .stable

instance (g : ConsumerGroup) : Decidable (Active g) := inferInstanceAs (Decidable (_ ∨ _))

/-- What a request does to a group. -/
inductive Move (g g' : ConsumerGroup) : Prop where
  | keeps (members : ∀ id, contains g'.members id = contains g.members id)
      (generation : g'.generationId = g.generationId) (state : g'.state = g.state ∨ Active g ∧ Active g')
  | raises (generation : g'.generationId = g.generationId + 1)
  | completes (state : g.state = .preparingRebalance) (generation : g'.generationId = g.generationId)
  | empties (state : g'.state = .empty) (generation : g'.generationId = g.generationId)

theorem Move.refl (g : ConsumerGroup) : Move g g := .keeps (fun _ => rfl) rfl (.inl rfl)

theorem resting_new : Resting new := ⟨⟨iff_of_true rfl rfl, fun some_ => absurd rfl some_⟩, rfl, by decide⟩

section

variable {g : ConsumerGroup}

/-- A group that waits for its leader's sync. -/
theorem resting_of_completing {state : GroupState} {members : Members} (some_ : members ≠ []) {leader : String}
    (leads : contains members leader = true) (waits : state = .completingRebalance ∨ state = .preparingRebalance)
    (generation : BitVec 32) (protocolType protocolName : Option String) :
    Resting ⟨state, generation, protocolType, protocolName, some leader, members, []⟩ := by
  have notEmpty : state ≠ .empty := by rcases waits with rfl | rfl <;> decide
  have notDead : state ≠ .dead := by rcases waits with rfl | rfl <;> decide
  exact ⟨⟨iff_of_false some_ notEmpty, fun _ => ⟨leader, rfl, leads⟩⟩, rfl, notDead⟩

/-- What completes a join. -/
theorem completeJoin_resting (preparing : g.state = .preparingRebalance) (waiting : g.pendingMembers ≠ []) (choices : JoinChoices) :
    Resting (g.completeJoin choices) := by
  have some_ : insertAll g.members g.pendingMembers ≠ [] := by
    intro none
    obtain ⟨m, rest, split⟩ := exists_cons_of_ne_nil waiting
    have there := (contains_insertAll g.members g.pendingMembers m.memberId).mpr (.inr (by
      rw [split]
      exact contains_iff.mpr ⟨m, mem_cons_self, rfl⟩))
    rw [none] at there
    cases there
  rw [completeJoin, if_pos ⟨preparing, waiting⟩]
  dsimp only
  split_ifs with keeps
  · cases led : g.leaderId with
    | none =>
      rw [led] at keeps
      cases keeps
    | some leader =>
      rw [led] at keeps
      exact resting_of_completing some_ keeps (.inl rfl) _ _ _
  · obtain ⟨leader, first, leads⟩ := firstKey_mem some_ choices.leader
    rw [first]
    exact resting_of_completing some_ leads (.inl rfl) _ _ _

/-- A join is refused, or the member is let in. -/
theorem joinGroup_cases (memberId : Option String) (clientId protocolType : String) (protocols : List MemberProtocol)
    (choices : JoinChoices) :
    ¬ MayJoin g memberId protocolType ∧
        (joinGroup (some g) memberId clientId protocolType protocols choices).1 = g ∨
      MayJoin g memberId protocolType ∧
        (joinGroup (some g) memberId clientId protocolType protocols choices).1 =
          (g.addMember ⟨memberId.getD "", protocols, []⟩ protocolType choices).completeJoin choices := by
  unfold joinGroup
  by_cases unnamed : memberId.getD "" = ""
  · exact .inl ⟨fun may => may.1 unnamed, by simp [unnamed]⟩
  by_cases other : g.protocolType.isSome ∧ g.protocolType ≠ some protocolType
  · refine .inl ⟨fun may => may.2 other, ?_⟩
    simp only [unnamed, if_false, Option.getD_some, if_pos other]
  · refine .inr ⟨⟨unnamed, other⟩, ?_⟩
    simp only [unnamed, if_false, Option.getD_some, if_neg other]

theorem join_generation (member : GroupMember) (protocolType : String) (choices : JoinChoices) :
    ((g.addMember member protocolType choices).completeJoin choices).generationId =
      if g.state = .preparingRebalance then g.generationId else g.generationId + 1 := by
  have completed : ∀ h : ConsumerGroup, (h.completeJoin choices).generationId = h.generationId := by
    intro h
    unfold completeJoin
    split <;> rfl
  rw [completed, addMember]
  cases g.state <;> rfl

/-- A member that may join. -/
theorem join_move (resting : Resting g) (member : GroupMember) (protocolType : String) (choices : JoinChoices) :
    Resting ((g.addMember member protocolType choices).completeJoin choices) ∧
      Move g ((g.addMember member protocolType choices).completeJoin choices) := by
  refine ⟨?_, ?_⟩
  · have joins : insert g.pendingMembers member ≠ [] := insert_ne_nil _ _
    cases state : g.state with
    | empty =>
      have added : (g.addMember member protocolType choices).state ≠ .preparingRebalance := by simp [addMember, state]
      rw [completeJoin_of_ne added, addMember, state]
      dsimp only
      rw [resting.admitted]
      exact resting_of_completing (cons_ne_nil _ _) (contains_iff.mpr ⟨member, mem_cons_self, rfl⟩) (.inl rfl) _ _ _
    | dead => exact absurd state resting.alive
    | preparingRebalance =>
      refine completeJoin_resting ?_ ?_ choices
      · simp [addMember, state]
      · simpa [addMember, state] using joins
    | completingRebalance =>
      refine completeJoin_resting ?_ ?_ choices
      · simp [addMember, state]
      · simpa [addMember, state] using insertAll_ne_nil joins g.members
    | stable =>
      refine completeJoin_resting ?_ ?_ choices
      · simp [addMember, state]
      · simpa [addMember, state] using insertAll_ne_nil joins g.members
  · obtain ⟨-, next | ⟨preparing, same⟩⟩ := join_completes g member protocolType choices
    · exact .raises next
    · exact .completes preparing same

/-- Of a sync the members keep their places. -/
theorem sync_move (resting : Resting g) (generationId : BitVec 32) (memberId : String) (assignments : List SyncGroupAssignment) :
    ∃ g', (syncGroup (some g) generationId memberId assignments).1 = some g' ∧ Resting g' ∧ Move g g' := by
  cases sync_outcome (some g) generationId memberId assignments with
  | refused unchanged error idle => exact ⟨g, unchanged, resting, .refl g⟩
  | early g' checked state follower result =>
    obtain rfl := Option.some.inj checked.present
    exact ⟨g, by rw [result], resting, .refl g⟩
  | stable g' checked state result =>
    obtain rfl := Option.some.inj checked.present
    exact ⟨g, by rw [result], resting, .refl g⟩
  | leads g' checked state leader result =>
    obtain rfl := Option.some.inj checked.present
    have same := contains_assignAll assignments g.members
    have some_ : assignAll g.members assignments ≠ [] := by
      intro none
      have there := (same memberId).trans checked.contains
      rw [none] at there
      cases there
    refine ⟨{ g with state := .stable, members := assignAll g.members assignments }, by rw [result], ?_, ?_⟩
    · refine ⟨⟨iff_of_false some_ (fun no => by cases no), fun _ => ?_⟩, resting.admitted, fun no => by cases no⟩
      exact ⟨memberId, leader, (same memberId).trans checked.contains⟩
    · exact .keeps same rfl (.inr ⟨.inl state, .inr rfl⟩)

theorem leave_move (resting : Resting g) (memberId leader : String) :
    ∃ g', (leaveGroup (some g) memberId leader).1 = some g' ∧ Resting g' ∧ Move g g' := by
  unfold leaveGroup
  dsimp only
  split_ifs with absent last own
  · exact ⟨g, rfl, resting, .refl g⟩
  · refine ⟨_, rfl, ⟨⟨iff_of_true last rfl, fun some_ => absurd last some_⟩, resting.admitted, fun no => by cases no⟩, .empties rfl rfl⟩
  · obtain ⟨next, first, leads⟩ := firstKey_mem last leader
    refine ⟨_, rfl, ?_, .raises rfl⟩
    rw [first, resting.admitted]
    exact resting_of_completing last leads (.inr rfl) _ _ _
  · have some_ : g.members ≠ [] := by
      intro none
      rw [none] at absent
      exact absent rfl
    obtain ⟨old, leads, there⟩ := resting.led some_
    refine ⟨_, rfl, ?_, .raises rfl⟩
    rw [leads, resting.admitted]
    have stays : old ≠ memberId := by
      rintro rfl
      exact own leads
    exact resting_of_completing last ((contains_remove _ _ _).mpr ⟨there, stays⟩) (.inr rfl) _ _ _

/-- **One request** of a group at rest. -/
theorem request_move (resting : Resting g) (request : GroupRequest) :
    ∃ g', request.leaves (some g) = some g' ∧ Resting g' ∧ Move g g' := by
  cases request with
  | joinGroup memberId clientId protocolType protocols choices =>
    obtain ⟨-, same⟩ | ⟨-, joined⟩ := @joinGroup_cases g memberId clientId protocolType protocols choices
    · exact ⟨g, congrArg some same, resting, .refl g⟩
    · exact ⟨_, congrArg some joined, join_move resting ⟨memberId.getD "", protocols, []⟩ protocolType choices⟩
  | syncGroup generationId memberId assignments => exact sync_move resting generationId memberId assignments
  | heartbeat generationId memberId => exact ⟨g, rfl, resting, .refl g⟩
  | leaveGroup memberId leader => exact leave_move resting memberId leader

/-- What a request makes of the generation. -/
theorem request_generation (request : GroupRequest) :
    generationOf (request.leaves (some g)) = g.generationId + 1 ∧ request.Raises g ∨
      generationOf (request.leaves (some g)) = g.generationId ∧ ¬ request.Raises g := by
  cases request with
  | joinGroup memberId clientId protocolType protocols choices =>
    obtain ⟨refused, same⟩ | ⟨may, joined⟩ := @joinGroup_cases g memberId clientId protocolType protocols choices
    · exact .inr ⟨congrArg generationId same, fun raises => refused raises.1⟩
    · have generation := (congrArg generationId joined).trans (join_generation _ protocolType choices)
      by_cases preparing : g.state = .preparingRebalance
      · rw [if_pos preparing] at generation
        exact .inr ⟨generation, fun raises => raises.2 preparing⟩
      · rw [if_neg preparing] at generation
        exact .inl ⟨generation, may, preparing⟩
  | syncGroup generationId memberId assignments =>
    refine .inr ⟨?_, id⟩
    cases sync_outcome (some g) generationId memberId assignments with
    | refused unchanged error idle => exact congrArg generationOf unchanged
    | early g' checked state follower result =>
      obtain rfl := Option.some.inj checked.present
      exact congrArg (fun answer => generationOf answer.1) result
    | stable g' checked state result =>
      obtain rfl := Option.some.inj checked.present
      exact congrArg (fun answer => generationOf answer.1) result
    | leads g' checked state leader result =>
      obtain rfl := Option.some.inj checked.present
      exact congrArg (fun answer => generationOf answer.1) result
  | heartbeat generationId memberId => exact .inr ⟨rfl, id⟩
  | leaveGroup memberId leader =>
    simp only [GroupRequest.leaves, leaveGroup, GroupRequest.Raises, generationOf]
    split_ifs with absent last
    · exact .inr ⟨rfl, fun raises => by simp [absent] at raises⟩
    · exact .inr ⟨rfl, fun raises => raises.2 last⟩
    · exact .inl ⟨rfl, by simpa using absent, last⟩
    · exact .inl ⟨rfl, by simpa using absent, last⟩

theorem succ_toInt {generation : BitVec 32} (below : generation ≠ lastGeneration) : (generation + 1).toInt = generation.toInt + 1 := by
  have number : generation.toNat ≠ 2147483647 := fun same => below (BitVec.eq_of_toNat_eq same)
  have bound := generation.isLt
  have next : (generation + 1).toNat = (generation.toNat + 1) % 2 ^ 32 := BitVec.toNat_add generation 1
  rw [BitVec.toInt_eq_toNat_cond, BitVec.toInt_eq_toNat_cond, next]
  split_ifs <;> omega

theorem wrapped_toInt : (lastGeneration + 1).toInt < lastGeneration.toInt := by decide

end

/-! ## Runs -/

/-- The group under a key; one that is not there is as a new one. -/
def Coordinated.groupAt (s : Coordinated) (key : GroupKey) : ConsumerGroup := (s.groups key).getD new

/-- The call is a sync that is answered without an error. -/
def Synced (s : Coordinated) (a : GroupCall) : Prop :=
  ∃ generationId memberId assignments, a.request = .syncGroup generationId memberId assignments ∧
    (syncGroup (s.groups a.key) generationId memberId assignments).2.errorCode = .none

/-- Groups are consistent after every call, their generations never decrease, and of two syncs that
succeed with other members the later one has a greater generation. -/
structure GroupInvariants (calls : List GroupCall) : Prop where
  consistent : ∀ before after, calls = before ++ after → ∀ key, Consistent ((run step .start before).groupAt key)
  monotone : ∀ before between after, calls = before ++ (between ++ after) → ∀ key,
    ((run step .start before).groupAt key).generationId.toInt ≤
      ((run step .start (before ++ between)).groupAt key).generationId.toInt
  strict : ∀ before a between b after, calls = before ++ a :: (between ++ b :: after) → a.key = b.key →
    Synced (run step .start before) a → Synced (run step .start (before ++ a :: between)) b →
      (∃ id, contains ((run step .start before).groupAt a.key).members id ≠
        contains ((run step .start (before ++ a :: between)).groupAt a.key).members id) →
        ((run step .start before).groupAt a.key).generationId.toInt <
          ((run step .start (before ++ a :: between)).groupAt a.key).generationId.toInt

/-- The call does not begin a generation behind the last one. -/
def InRange (s : Coordinated) (a : GroupCall) : Prop :=
  a.request.Raises (s.groupAt a.key) → (s.groupAt a.key).generationId ≠ lastGeneration

section

variable {s : Coordinated} {a : GroupCall}

theorem groupAt_step_self : (s.step a).groupAt a.key = (a.request.leaves (some (s.groupAt a.key))).getD new := by
  have entry : (s.step a).groups a.key = a.request.leaves (s.groups a.key) := Function.update_self _ _ _
  rw [groupAt, groupAt, entry]
  cases s.groups a.key with
  | some g => rfl
  | none => cases a.request <;> rfl

theorem groupAt_step_of_ne {key : GroupKey} (other : key ≠ a.key) : (s.step a).groupAt key = s.groupAt key :=
  congrArg (fun entry => Option.getD entry new) (Function.update_of_ne other _ _)

/-- All groups are at rest. -/
def AllResting (s : Coordinated) : Prop := ∀ key, Resting (s.groupAt key)

/-- **One call**, as each group sees it. -/
theorem step_move (resting : AllResting s) (a : GroupCall) (key : GroupKey) :
    Resting ((s.step a).groupAt key) ∧ Move (s.groupAt key) ((s.step a).groupAt key) := by
  by_cases own : key = a.key
  · rw [own, groupAt_step_self]
    obtain ⟨g', left, rests, move⟩ := request_move (resting a.key) a.request
    rw [left]
    exact ⟨rests, move⟩
  · rw [groupAt_step_of_ne own]
    exact ⟨resting key, .refl _⟩

theorem allResting_run (calls : List GroupCall) : AllResting (run step .start calls) :=
  run_invariant AllResting (fun _ a resting key => (step_move resting a key).1)
    (show AllResting .start from fun _ => resting_new) calls

/-- A call in range raises the generation of its group by one, or leaves it. -/
theorem step_generation (inRange : InRange s a) (key : GroupKey) :
    ((s.step a).groupAt key).generationId.toInt = (s.groupAt key).generationId.toInt + 1 ∨
      ((s.step a).groupAt key).generationId = (s.groupAt key).generationId := by
  by_cases own : key = a.key
  · rw [own, groupAt_step_self]
    obtain ⟨next, raises⟩ | ⟨same, -⟩ := @request_generation (s.groupAt a.key) a.request
    · refine .inl ?_
      rw [← succ_toInt (inRange raises), ← next]
      rfl
    · exact .inr same
  · rw [groupAt_step_of_ne own]
    exact .inr rfl

/-- A group in which a sync succeeds has members and a generation of their own. -/
theorem Synced.active (synced : Synced s a) : Active (s.groupAt a.key) := by
  obtain ⟨generationId, memberId, assignments, -, answered⟩ := synced
  unfold groupAt
  cases sync_outcome (s.groups a.key) generationId memberId assignments with
  | refused unchanged error idle => exact absurd answered error
  | early g checked state follower result =>
    rw [checked.present]
    exact .inl state
  | leads g checked state leader result =>
    rw [checked.present]
    exact .inl state
  | stable g checked state result =>
    rw [checked.present]
    exact .inr state

/-- A generation behind the one of `g₀`, or the same one: with its members, or none. -/
def Since (g₀ g : ConsumerGroup) : Prop :=
  g₀.generationId.toInt < g.generationId.toInt ∨ g.generationId = g₀.generationId ∧
    (g.state = .empty ∨ Active g ∧ ∀ id, contains g.members id = contains g₀.members id)

/-- What has been since a sync goes on. -/
theorem since_step (resting : AllResting s) (inRange : InRange s a) {g₀ : ConsumerGroup} {key : GroupKey}
    (since : Since g₀ (s.groupAt key)) : Since g₀ ((s.step a).groupAt key) := by
  have generation := step_generation inRange key
  obtain later | ⟨same, now⟩ := since
  · refine .inl ?_
    rcases generation with next | stays
    · omega
    · rwa [stays]
  · rcases generation with next | stays
    · rw [same] at next
      exact .inl (by omega)
    · obtain ⟨-, move⟩ := step_move resting a key
      refine .inr ⟨stays.trans same, ?_⟩
      cases move with
      | keeps members _ state =>
        rcases now with empty | ⟨active, own⟩
        · rcases state with kept | ⟨active | active, -⟩
          · exact .inl (kept.trans empty)
          · rw [empty] at active
            cases active
          · rw [empty] at active
            cases active
        · refine .inr ⟨?_, fun id => (members id).trans (own id)⟩
          rcases state with kept | ⟨-, next⟩
          · unfold Active
            rw [kept]
            exact active
          · exact next
      | raises next =>
        rw [stays] at next
        exact absurd next.symm (succ_ne_self _)
      | completes preparing _ =>
        rcases now with empty | ⟨active | active, -⟩
        · rw [empty] at preparing
          cases preparing
        · rw [active] at preparing
          cases preparing
        · rw [active] at preparing
          cases preparing
      | empties state _ => exact .inl state

/-- What the calls of a run in range keep. -/
theorem run_keeps {P : Coordinated → Prop} (keep : ∀ s a, AllResting s → InRange s a → P s → P (s.step a)) {s : Coordinated}
    {calls : List GroupCall} (resting : AllResting s) (inRange : Meets step InRange s calls) (now : P s) :
    P (run step s calls) := by
  have both := inRange.invariant (fun s a (here : AllResting s ∧ P s) inRange =>
    (⟨fun key => (step_move here.1 a key).1, keep s a here.1 inRange here.2⟩ : AllResting (s.step a) ∧ P (s.step a))) ⟨resting, now⟩
  exact both.2

end

/-- A generation behind the last one is less. -/
theorem inRange_of_invariants {calls : List GroupCall} (invariants : GroupInvariants calls) :
    Meets step InRange .start calls := by
  rw [meets_iff_forall]
  intro before a after split raises last
  have up := invariants.monotone before [a] after split a.key
  rw [run_append, run_cons, run_nil, groupAt_step_self] at up
  obtain ⟨next, -⟩ | ⟨-, stays⟩ := @request_generation ((run step .start before).groupAt a.key) a.request
  · have wrapped : ((a.request.leaves (some ((run step .start before).groupAt a.key))).getD new).generationId =
        lastGeneration + 1 := by
      rw [← last]
      exact next
    rw [wrapped, last] at up
    exact absurd up (Int.not_le.mpr wrapped_toInt)
  · exact stays raises

/-- **The states of every group are as they should be exactly if** no call begins a generation behind the last `i32`. -/
theorem groupInvariants_iff (calls : List GroupCall) :
    GroupInvariants calls ↔ Meets step InRange .start calls := by
  refine ⟨inRange_of_invariants, fun inRange => ?_⟩
  refine ⟨fun before after _ key => (allResting_run before key).toConsistent, ?_, ?_⟩
  · rintro before between after rfl key
    rw [run_append]
    refine run_keeps (P := fun s => ((run step .start before).groupAt key).generationId.toInt ≤
      (s.groupAt key).generationId.toInt) (fun s a _ within up => ?_) (allResting_run before) inRange.between (Int.le_refl _)
    rcases step_generation within key with next | stays
    · omega
    · rwa [stays]
  · rintro before a between b after rfl same first second ⟨id, differ⟩
    have within : Meets step InRange (run step .start before) (a :: between) :=
      @Meets.between _ _ _ _ _ _ _ (b :: after) (by simpa using inRange)
    have since := run_keeps (P := fun s => Since ((run step .start before).groupAt a.key) (s.groupAt a.key))
      (fun s c resting within since => since_step resting within since) (allResting_run before) within
      (.inr ⟨rfl, .inr ⟨first.active, fun _ => rfl⟩⟩)
    rw [run_append] at second differ ⊢
    have active := second.active
    rw [← same] at active
    obtain later | ⟨-, empty | ⟨-, own⟩⟩ := since
    · exact later
    · rcases active with active | active <;> rw [empty] at active <;> cases active
    · exact absurd (own id).symm differ

/-! ## A member that joins again and again -/

theorem join_protocolType (g : ConsumerGroup) (member : GroupMember) (protocolType : String) (choices : JoinChoices) :
    ((g.addMember member protocolType choices).completeJoin choices).protocolType = g.protocolType ∨
      ((g.addMember member protocolType choices).completeJoin choices).protocolType = some protocolType := by
  have completed : ∀ h : ConsumerGroup, (h.completeJoin choices).protocolType = h.protocolType := by
    intro h
    unfold completeJoin
    split <;> rfl
  rw [completed, addMember]
  cases g.state with
  | empty => exact .inr rfl
  | dead => exact .inr rfl
  | preparingRebalance => exact .inl rfl
  | completingRebalance => exact .inl rfl
  | stable => exact .inl rfl

/-- Each join begins a generation. -/
theorem joins_generation (n : Nat) :
    ((run step .start (replicate n (joins "a"))).groupAt group).generationId = BitVec.ofNat 32 n ∧
      GroupRequest.Raises ((run step .start (replicate n (joins "a"))).groupAt group)
        (joins "a").request := by
  induction n with
  | zero => exact ⟨rfl, ⟨by decide, by decide⟩, by decide⟩
  | succ n ih =>
    rw [replicate_succ', run_append, run_cons, run_nil]
    generalize run step .start (replicate n (joins "a")) = s at ih
    obtain ⟨number, may, waits⟩ := ih
    have left : (s.step (joins "a")).groupAt group =
        ((s.groupAt group).addMember ⟨"a", [⟨"range", []⟩], []⟩ "consumer" ⟨"uuid", "a", "range"⟩).completeJoin
          ⟨"uuid", "a", "range"⟩ := by
      obtain ⟨refused, -⟩ | ⟨-, joined⟩ := @joinGroup_cases (s.groupAt group) (some "a") "client" "consumer" [⟨"range", []⟩]
        ⟨"uuid", "a", "range"⟩
      · exact absurd may refused
      · exact groupAt_step_self.trans joined
    rw [left]
    refine ⟨?_, ⟨may.1, ?_⟩, ?_⟩
    · rw [join_generation, if_neg waits, number, BitVec.ofNat_add]
      rfl
    · rintro ⟨isSome, other⟩
      rcases join_protocolType (s.groupAt group) ⟨"a", [⟨"range", []⟩], []⟩ "consumer" ⟨"uuid", "a", "range"⟩ with same | own
      · rw [same] at isSome other
        exact may.2 ⟨isSome, other⟩
      · exact other own
    · rw [(join_completes _ _ _ _).1]
      decide

/-- The generation behind 2^31 - 1 is -2^31. -/
theorem groupInvariants_fail : ¬ GroupInvariants (replicate (2 ^ 31) (joins "a")) := by
  intro invariants
  have inRange := meets_iff_forall.mp (inRange_of_invariants invariants) (replicate (2 ^ 31 - 1) (joins "a"))
    (joins "a") [] (replicate_succ' (n := 2 ^ 31 - 1))
  obtain ⟨number, raises⟩ := joins_generation (2 ^ 31 - 1)
  exact inRange raises number

end StreamHouse.Kafka
