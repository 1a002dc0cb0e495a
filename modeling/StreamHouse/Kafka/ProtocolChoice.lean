import Mathlib.Data.List.Nodup
import StreamHouse.Kafka.GroupStates

/-!
# Rejoining and the choice of a protocol

`join_group` lets the entries of the members it has replace the one of a member that joins again,
counts how often a protocol is listed and not by how many, and hands the leader what each member
has listed first. `joins_iff` says in which groups a join takes effect all the same.
-/

namespace StreamHouse.Kafka
open StreamHouse.Lib ConsumerGroup List Members GroupMember Coordinated

/-- The protocol is listed. -/
def Lists (protocols : List MemberProtocol) (name : String) : Prop := ∃ p ∈ protocols, p.name = name

/-- All members list the protocol. -/
def Common (members : Members) (name : String) : Prop := ∀ m ∈ members, Lists m.protocols name

/-- The protocol is listed as often as there are members. -/
def Counted (members : Members) (name : String) : Prop := votes members name = members.length

/-- The metadata is that of a listing of the protocol. -/
def Describes (protocols : List MemberProtocol) (name : String) (metadata : List UInt8) : Prop :=
  ∃ p ∈ protocols, p.name = name ∧ p.metadata = metadata

/-- What is handed to the leader. -/
def firstMetadata (protocols : List MemberProtocol) : List UInt8 := (protocols.head?.map MemberProtocol.metadata).getD []

/-- The joining member is stored with its protocols, a common protocol is selected if there is one, and
the leader is handed the metadata of the selected protocol. -/
structure JoinTakesEffect (entry : Option ConsumerGroup) (memberId : Option String) (clientId protocolType : String)
    (protocols : List MemberProtocol) (choices : JoinChoices) : Prop where
  stored : ((joinGroup entry memberId clientId protocolType protocols choices).1.members.get (memberId.getD "")).map
    GroupMember.protocols = some protocols
  common : (∃ name, Common (joinGroup entry memberId clientId protocolType protocols choices).1.members name) →
    ∃ name, (joinGroup entry memberId clientId protocolType protocols choices).1.protocolName = some name ∧
      Common (joinGroup entry memberId clientId protocolType protocols choices).1.members name
  handed : ∀ name, (joinGroup entry memberId clientId protocolType protocols choices).1.protocolName = some name →
    ∀ e ∈ (joinGroup entry memberId clientId protocolType protocols choices).2.members,
      ∀ m, (joinGroup entry memberId clientId protocolType protocols choices).1.members.get e.memberId = some m →
        Lists m.protocols name → Describes m.protocols name e.metadata

/-- The members with the one that joins. -/
def gathered (g : ConsumerGroup) (memberId : String) (protocols : List MemberProtocol) : Members :=
  if g.state = .empty then [⟨memberId, protocols, []⟩] else insert g.members ⟨memberId, protocols, []⟩

/-- A member that is there joins again with the protocols that it has, unless a generation is being
prepared. If a protocol is common, some protocol is listed as often as there are members, and each one
that is is common. Of each one that is, those who list it have first in their lists what describes it, if
the one that joins leads. -/
structure MayTakeEffect (g : ConsumerGroup) (memberId : String) (protocols : List MemberProtocol) : Prop where
  again : Active g → ∀ m ∈ g.members, m.memberId = memberId → m.protocols = protocols
  counts : (∃ name, Common (gathered g memberId protocols) name) →
    (∃ name, Counted (gathered g memberId protocols) name) ∧
      ∀ name, Counted (gathered g memberId protocols) name → Common (gathered g memberId protocols) name
  first : g.state = .empty ∨ g.leaderId = some memberId → ∀ name, Counted (gathered g memberId protocols) name →
    ∀ m ∈ gathered g memberId protocols, Lists m.protocols name → Describes m.protocols name (firstMetadata m.protocols)

/-! ## Members under one id each -/

/-- A map has an id once. -/
def Distinct (members : Members) : Prop := (members.map memberId).Nodup

theorem distinct_remove {members : Members} (distinct : Distinct members) (memberId : String) :
    Distinct (remove members memberId) :=
  distinct.sublist (filter_sublist.map _)

theorem distinct_insert {members : Members} (distinct : Distinct members) (m : GroupMember) :
    Distinct (Members.insert members m) := by
  unfold Distinct Members.insert
  rw [map_append]
  refine nodup_append.mpr ⟨distinct_remove distinct m.memberId, nodup_singleton _, ?_⟩
  rintro id old _ new_ rfl
  obtain ⟨o, there, rfl⟩ := mem_map.mp old
  have other := (mem_filter.mp there).2
  simp [mem_singleton.mp new_] at other

/-- The entries of the one map, and behind them those of the other. -/
theorem insertAll_eq {entries : Members} (distinct : Distinct entries) (members : Members) :
    insertAll members entries = (members.filter fun m => !contains entries m.memberId) ++ entries := by
  induction entries generalizing members with
  | nil => simp [insertAll]
  | cons e entries ih =>
    obtain ⟨fresh, rest⟩ := nodup_cons.mp distinct
    have alone : contains entries e.memberId = false := by
      rw [Bool.eq_false_iff, ne_eq, contains_iff]
      rintro ⟨m, there, same⟩
      exact fresh (mem_map.mpr ⟨m, there, same⟩)
    have step : Members.insertAll members (e :: entries) = Members.insertAll (Members.insert members e) entries := rfl
    rw [step, ih rest, Members.insert, Members.remove, filter_append, filter_filter, filter_cons_of_pos (by simp [alone]),
      filter_nil, append_assoc, singleton_append]
    congr 2
    funext m
    rw [Members.contains, Members.contains, any_cons, Bool.not_or, Bool.and_comm, BEq.comm]

theorem distinct_insertAll {members entries : Members} (distinct : Distinct members) (others : Distinct entries) :
    Distinct (insertAll members entries) := by
  induction entries generalizing members with
  | nil => exact distinct
  | cons e entries ih => exact ih (distinct_insert distinct e) (nodup_cons.mp others).2

theorem distinct_assignAll {members : Members} (distinct : Distinct members) (assignments : List SyncGroupAssignment) :
    Distinct (assignAll members assignments) := by
  induction assignments generalizing members with
  | nil => exact distinct
  | cons a assignments ih =>
    refine ih ?_
    unfold Distinct assign
    rw [map_map]
    refine Eq.mpr (congrArg Nodup (map_congr_left fun m _ => ?_)) distinct
    dsimp only [Function.comp]
    split <;> rfl

theorem get_of_mem {members : Members} (distinct : Distinct members) {m : GroupMember} (there : m ∈ members) :
    members.get m.memberId = some m := by
  obtain ⟨found, isIn, got, same⟩ := get_of_contains (contains_iff.mpr ⟨m, there, rfl⟩)
  rw [got, inj_on_of_nodup_map distinct isIn there same]

theorem remove_absent {members : Members} {memberId : String} (absent : ¬ contains members memberId = true) :
    remove members memberId = members := by
  refine filter_eq_self.mpr fun m there => ?_
  have other : m.memberId ≠ memberId := fun same => absent (contains_iff.mpr ⟨m, there, same⟩)
  simpa using other

/-- Without the one entry of an id the others are left. -/
theorem remove_middle {front back : Members} {old : GroupMember} {memberId : String} (distinct : Distinct (front ++ old :: back))
    (same : old.memberId = memberId) : remove (front ++ old :: back) memberId = front ++ back := by
  unfold Distinct at distinct
  rw [map_append, map_cons, nodup_middle, ← map_append] at distinct
  have absent : ¬ contains (front ++ back) memberId = true := by
    intro there
    obtain ⟨m, inside, named⟩ := contains_iff.mp there
    exact (nodup_cons.mp distinct).1 (mem_map.mpr ⟨m, inside, named.trans same.symm⟩)
  have gone : remove (front ++ old :: back) memberId = remove (front ++ back) memberId := by
    unfold remove
    rw [filter_append, filter_append, filter_cons_of_neg (by simp [same])]
  rw [gone, remove_absent absent]

/-! ## One join -/

section

variable {g : ConsumerGroup} (resting : Resting g) (distinct : Distinct g.members)

/-- The members that a join leaves. -/
def joinedMembers (g : ConsumerGroup) (member : GroupMember) : Members :=
  if Active g then if contains g.members member.memberId = true then g.members else member :: g.members
  else if g.state = .preparingRebalance then insert g.members member
  else [member]

theorem joinedMembers_ne_nil (member : GroupMember) : joinedMembers g member ≠ [] := by
  unfold joinedMembers
  split_ifs with active there preparing
  · intro none
    rw [none] at there
    cases there
  · exact cons_ne_nil _ _
  · exact insert_ne_nil _ _
  · exact cons_ne_nil _ _

include distinct in
theorem distinct_joinedMembers (member : GroupMember) : Distinct (joinedMembers g member) := by
  unfold joinedMembers
  split_ifs with active there preparing
  · exact distinct
  · refine nodup_cons.mpr ⟨fun listed => there ?_, distinct⟩
    obtain ⟨m, inside, same⟩ := mem_map.mp listed
    exact contains_iff.mpr ⟨m, inside, same⟩
  · exact distinct_insert distinct member
  · exact nodup_singleton _

/-- The old members are put over the new one. -/
theorem merged_eq (distinct : Distinct g.members) (member : GroupMember) :
    insertAll [] (insertAll (insert [] member) g.members) =
      if contains g.members member.memberId = true then g.members else member :: g.members := by
  have one : insert [] member = [member] := rfl
  have merged : insertAll [member] g.members =
      if contains g.members member.memberId = true then g.members else member :: g.members := by
    rw [insertAll_eq distinct]
    split_ifs with there <;> simp [there]
  have left : Distinct (insertAll [member] g.members) := distinct_insertAll (nodup_singleton _) distinct
  rw [one, insertAll_eq left, filter_nil, nil_append, merged]

include resting distinct in
/-- All members, the new one too, wait to be let in. -/
theorem added (member : GroupMember) (protocolType : String) (choices : JoinChoices) (some_ : g.state ≠ .empty) :
    (g.addMember member protocolType choices).state = .preparingRebalance ∧
      (g.addMember member protocolType choices).pendingMembers ≠ [] ∧
        insertAll (g.addMember member protocolType choices).members (g.addMember member protocolType choices).pendingMembers =
          joinedMembers g member ∧
          (g.addMember member protocolType choices).leaderId = g.leaderId := by
  have waiting : insert g.pendingMembers member ≠ [] := insert_ne_nil _ _
  cases state : g.state with
  | empty => exact absurd state some_
  | dead => exact absurd state resting.alive
  | preparingRebalance =>
    refine ⟨by simp [addMember, state], by simpa [addMember, state] using waiting, ?_, by simp [addMember, state]⟩
    simp [addMember, joinedMembers, Active, state, resting.admitted, Members.insertAll, Members.insert, Members.remove]
  | completingRebalance =>
    refine ⟨by simp [addMember, state], ?_, ?_, by simp [addMember, state]⟩
    · simpa [addMember, state] using insertAll_ne_nil waiting g.members
    · simp [addMember, joinedMembers, Active, state, resting.admitted, merged_eq distinct]
  | stable =>
    refine ⟨by simp [addMember, state], ?_, ?_, by simp [addMember, state]⟩
    · simpa [addMember, state] using insertAll_ne_nil waiting g.members
    · simp [addMember, joinedMembers, Active, state, resting.admitted, merged_eq distinct]

theorem state_cases (alive : g.state ≠ .dead) : g.state = .empty ∨ g.state = .preparingRebalance ∨ Active g := by
  unfold Active
  cases state : g.state with
  | dead => exact absurd state alive
  | _ => simp

include resting in
theorem contains_joinedMembers {leader : String} (there : contains g.members leader = true) (member : GroupMember) :
    contains (joinedMembers g member) leader = true := by
  unfold joinedMembers
  split_ifs with active inside preparing
  · exact there
  · obtain ⟨m, isIn, same⟩ := contains_iff.mp there
    exact contains_iff.mpr ⟨m, mem_cons_of_mem _ isIn, same⟩
  · exact (contains_insert _ _ _).mpr (.inl there)
  · rcases state_cases resting.alive with empty | state | state
    · rw [resting.empty_iff.mpr empty] at there
      cases there
    · exact absurd state preparing
    · exact absurd state active

/-- What a join makes of a group. -/
structure Joined (g g' : ConsumerGroup) (member : GroupMember) (choices : JoinChoices) : Prop where
  members : g'.members = joinedMembers g member
  protocol : g'.protocolName = selectProtocol (joinedMembers g member) choices.protocol
  leader : g'.leaderId = if g.state = .empty then some member.memberId else g.leaderId

include resting distinct in
/-- **One join**: the first member leads, and after that the leader stays. -/
theorem joined (member : GroupMember) (protocolType : String) (choices : JoinChoices) :
    Joined g ((g.addMember member protocolType choices).completeJoin choices) member choices := by
  by_cases empty : g.state = .empty
  · have waits : (g.addMember member protocolType choices).state ≠ .preparingRebalance := by simp [addMember, empty]
    rw [completeJoin_of_ne waits]
    constructor <;> simp [addMember, joinedMembers, Active, empty]
  · obtain ⟨preparing, waiting, members, leader⟩ := added resting distinct member protocolType choices empty
    have some_ : g.members ≠ [] := fun none => empty (resting.empty_iff.mp none)
    obtain ⟨old, leads, there⟩ := resting.led some_
    have stays : contains (joinedMembers g member) old = true := contains_joinedMembers resting there member
    rw [completeJoin, if_pos ⟨preparing, waiting⟩, members]
    refine ⟨rfl, rfl, ?_⟩
    dsimp only
    rw [leader, leads, if_neg empty]
    simp [stays]

/-- The one that joins is stored just if no entry with other protocols is put over it. -/
theorem stored_iff (distinct : Distinct g.members) (memberId : String) (protocols : List MemberProtocol) :
    ((joinedMembers g ⟨memberId, protocols, []⟩).get memberId).map GroupMember.protocols = some protocols ↔
      (Active g → ∀ m ∈ g.members, m.memberId = memberId → m.protocols = protocols) := by
  have isIn (there : ⟨memberId, protocols, []⟩ ∈ joinedMembers g ⟨memberId, protocols, []⟩) :
      ((joinedMembers g ⟨memberId, protocols, []⟩).get memberId).map GroupMember.protocols = some protocols := by
    rw [get_of_mem (distinct_joinedMembers distinct _) there]
    rfl
  by_cases active : Active g
  · by_cases there : contains g.members memberId = true
    · have kept : joinedMembers g ⟨memberId, protocols, []⟩ = g.members := by
        rw [joinedMembers, if_pos active, if_pos there]
      obtain ⟨old, inside, got, same⟩ := get_of_contains there
      rw [kept, got]
      simp only [Option.map_some, Option.some.injEq]
      constructor
      · intro own _ m isM named
        rw [← named, get_of_mem distinct isM] at got
        rw [Option.some.inj got, own]
      · exact fun all => all active old inside same
    · refine iff_of_true (isIn ?_) fun _ m isM named => absurd (contains_iff.mpr ⟨m, isM, named⟩) there
      rw [joinedMembers, if_pos active, if_neg there]
      exact mem_cons_self
  · refine iff_of_true (isIn ?_) fun now => absurd now active
    rw [joinedMembers, if_neg active]
    split_ifs
    · exact mem_append_right _ mem_cons_self
    · exact mem_cons_self

include resting in
/-- Then the members list what those list that are gathered. -/
theorem joined_perm (distinct : Distinct g.members) {memberId : String} {protocols : List MemberProtocol}
    (again : Active g → ∀ m ∈ g.members, m.memberId = memberId → m.protocols = protocols) :
    ((joinedMembers g ⟨memberId, protocols, []⟩).map GroupMember.protocols).Perm
      ((gathered g memberId protocols).map GroupMember.protocols) := by
  unfold joinedMembers gathered
  rcases state_cases resting.alive with empty | preparing | active
  · have idle : ¬ Active g := by simp [Active, empty]
    rw [if_pos empty, if_neg idle, if_neg (by simp [empty])]
  · have idle : ¬ Active g := by simp [Active, preparing]
    have some_ : g.state ≠ .empty := by simp [preparing]
    rw [if_neg some_, if_neg idle, if_pos preparing]
  · have some_ : g.state ≠ .empty := by rcases active with state | state <;> rw [state] <;> decide
    rw [if_pos active, if_neg some_, Members.insert]
    split_ifs with there
    · obtain ⟨old, inside, -, same⟩ := get_of_contains there
      obtain ⟨front, back, split⟩ := append_of_mem inside
      rw [split] at distinct
      rw [split, remove_middle distinct same]
      simp only [map_append, map_cons, map_nil, again active old inside same]
      exact perm_middle.trans (perm_append_singleton _ _).symm
    · rw [remove_absent there, map_append]
      exact (perm_append_singleton _ _).symm

end

/-! ## The choice -/

section

variable {members others : Members}

theorem votes_eq (members : Members) (name : String) :
    votes members name = ((members.map protocols).flatten).countP fun p => p.name == name := by
  rw [votes, flatMap_def]

section

variable (same : (members.map protocols).Perm (others.map protocols))
include same

theorem counted_congr (name : String) :
    Counted members name ↔ Counted others name := by
  have number := same.length_eq
  rw [length_map, length_map] at number
  rw [Counted, Counted, votes_eq, votes_eq, number, same.flatten.countP_eq]

theorem forall_congr_perm
    (P : List MemberProtocol → Prop) : (∀ m ∈ members, P m.protocols) ↔ ∀ m ∈ others, P m.protocols := by
  rw [← forall_mem_map (f := protocols) (P := P), ← forall_mem_map (f := protocols) (P := P)]
  exact forall_congr' fun ps => by rw [same.mem_iff]

theorem common_congr (name : String) :
    Common members name ↔ Common others name :=
  forall_congr_perm same fun ps => Lists ps name


end
theorem mem_names {name : String} :
    name ∈ ((members.flatMap protocols).map MemberProtocol.name).filter (fun name => votes members name == members.length) ↔
      (∃ p ∈ members.flatMap protocols, p.name = name) ∧ Counted members name := by
  rw [mem_filter, mem_map, beq_iff_eq]
  exact Iff.rfl

theorem counted_of_selected {chosen name : String} (selected : selectProtocol members chosen = some name) : Counted members name := by
  unfold selectProtocol at selected
  dsimp only at selected
  split at selected
  · next there =>
    obtain rfl := Option.some.inj selected
    exact (mem_names.mp (contains_iff_mem.mp there)).2
  · exact (mem_names.mp (mem_of_mem_head? selected)).2

/-- A protocol that is listed as often as there are members is listed. -/
theorem listed_of_counted (some_ : members ≠ []) {name : String} (counted : Counted members name) :
    ∃ p ∈ members.flatMap protocols, p.name = name := by
  have positive : 0 < votes members name := by
    rw [counted]
    exact length_pos_of_ne_nil some_
  obtain ⟨p, listed, named⟩ := countP_pos_iff.mp positive
  exact ⟨p, listed, beq_iff_eq.mp named⟩

/-- Each such protocol may come first. -/
theorem selected_of_counted (some_ : members ≠ []) {name : String} (counted : Counted members name) :
    selectProtocol members name = some name := by
  have there := mem_names.mpr ⟨listed_of_counted some_ counted, counted⟩
  unfold selectProtocol
  exact if_pos (contains_iff_mem.mpr there)

theorem exists_selected (some_ : members ≠ []) {name : String} (counted : Counted members name) (chosen : String) :
    ∃ other, selectProtocol members chosen = some other := by
  have there := mem_names.mpr ⟨listed_of_counted some_ counted, counted⟩
  unfold selectProtocol
  dsimp only
  split
  · exact ⟨chosen, rfl⟩
  · obtain ⟨first, rest, split⟩ := exists_cons_of_ne_nil (ne_nil_of_mem there)
    exact ⟨first, by rw [split]; rfl⟩

/-- The selection is a common protocol, whatever comes first, just if there is one to select and each is common. -/
theorem selects_common_iff (some_ : members ≠ []) :
    (∀ chosen, (∃ name, Common members name) → ∃ name, selectProtocol members chosen = some name ∧ Common members name) ↔
      ((∃ name, Common members name) → (∃ name, Counted members name) ∧ ∀ name, Counted members name → Common members name) := by
  constructor
  · intro every common
    obtain ⟨first, selected, -⟩ := every "" common
    refine ⟨⟨first, counted_of_selected selected⟩, fun name counted => ?_⟩
    obtain ⟨other, chosen, isCommon⟩ := every name common
    rw [selected_of_counted some_ counted] at chosen
    rwa [Option.some.inj chosen]
  · intro all chosen common
    obtain ⟨⟨name, counted⟩, each⟩ := all common
    obtain ⟨other, selected⟩ := exists_selected some_ counted chosen
    exact ⟨other, selected, each other (counted_of_selected selected)⟩

end

/-! ## Joins of reachable groups -/

section

variable {g : ConsumerGroup} (resting : Resting g) (distinct : Distinct g.members)

include resting distinct in
/-- Every request leaves an id once. -/
theorem request_distinct (request : GroupRequest) : Distinct ((request.leaves (some g)).getD new).members := by
  cases request with
  | joinGroup memberId clientId protocolType protocols choices =>
    obtain ⟨-, same⟩ | ⟨-, joins⟩ := @joinGroup_cases g memberId clientId protocolType protocols choices
    · exact (congrArg (fun h : ConsumerGroup => Distinct h.members) same).mpr distinct
    · have left := (joined resting distinct ⟨memberId.getD "", protocols, []⟩ protocolType choices).members
      refine (congrArg (fun h : ConsumerGroup => Distinct h.members) joins).mpr ?_
      rw [left]
      exact distinct_joinedMembers distinct _
  | syncGroup generationId memberId assignments =>
    show Distinct ((syncGroup (some g) generationId memberId assignments).1.getD new).members
    cases sync_outcome (some g) generationId memberId assignments with
    | refused unchanged error idle =>
      rw [unchanged]
      exact distinct
    | early g' checked state follower result =>
      obtain rfl := Option.some.inj checked.present
      rw [result]
      exact distinct
    | stable g' checked state result =>
      obtain rfl := Option.some.inj checked.present
      rw [result]
      exact distinct
    | leads g' checked state leader result =>
      obtain rfl := Option.some.inj checked.present
      rw [result]
      exact distinct_assignAll distinct assignments
  | heartbeat generationId memberId => exact distinct
  | leaveGroup memberId leader =>
    simp only [GroupRequest.leaves, leaveGroup]
    split
    · exact distinct
    · split
      · exact distinct_remove distinct memberId
      · exact distinct_remove distinct memberId

variable {memberId : Option String} {protocolType : String}

include resting distinct in
theorem joinGroup_joined (may : MayJoin g memberId protocolType) (clientId : String)
    (protocols : List MemberProtocol) (choices : JoinChoices) :
    Joined g (joinGroup (some g) memberId clientId protocolType protocols choices).1 ⟨memberId.getD "", protocols, []⟩
      choices := by
  obtain ⟨refused, -⟩ | ⟨-, joins⟩ := @joinGroup_cases g memberId clientId protocolType protocols choices
  · exact absurd may refused
  · rw [joins]
    exact joined resting distinct _ protocolType choices

/-- What the answer to a join hands out. -/
theorem joinGroup_handed (may : MayJoin g memberId protocolType) (clientId : String)
    (protocols : List MemberProtocol) (choices : JoinChoices) :
    (joinGroup (some g) memberId clientId protocolType protocols choices).2.members =
      if (joinGroup (some g) memberId clientId protocolType protocols choices).1.leaderId = some (memberId.getD "") then
        (joinGroup (some g) memberId clientId protocolType protocols choices).1.members.map fun m =>
          ⟨m.memberId, firstMetadata m.protocols⟩
      else [] := by
  unfold joinGroup
  simp only [if_neg may.1, Option.getD_some, if_neg may.2]
  rfl

theorem joinGroup_succeeds {clientId : String} {protocols : List MemberProtocol} {choices : JoinChoices} :
    (joinGroup (some g) memberId clientId protocolType protocols choices).2.errorCode = .none ↔
      MayJoin g memberId protocolType := by
  unfold joinGroup
  by_cases unnamed : memberId.getD "" = ""
  · exact iff_of_false (by simp [unnamed]) fun may => may.1 unnamed
  by_cases other : g.protocolType.isSome ∧ g.protocolType ≠ some protocolType
  · refine iff_of_false ?_ fun may => may.2 other
    simp only [unnamed, if_false, Option.getD_some, if_pos other]
    decide
  · refine iff_of_true ?_ ⟨unnamed, other⟩
    simp only [unnamed, if_false, Option.getD_some, if_neg other]

include resting distinct in
/-- What the leader is handed describes the selected protocol. -/
theorem handed_iff (may : MayJoin g memberId protocolType) (clientId : String) (protocols : List MemberProtocol) :
    (∀ choices name, (joinGroup (some g) memberId clientId protocolType protocols choices).1.protocolName = some name →
      ∀ e ∈ (joinGroup (some g) memberId clientId protocolType protocols choices).2.members,
        ∀ m, (joinGroup (some g) memberId clientId protocolType protocols choices).1.members.get e.memberId = some m →
          Lists m.protocols name → Describes m.protocols name e.metadata) ↔
      (g.state = .empty ∨ g.leaderId = some (memberId.getD "") →
        ∀ name, Counted (joinedMembers g ⟨memberId.getD "", protocols, []⟩) name →
          ∀ m ∈ joinedMembers g ⟨memberId.getD "", protocols, []⟩, Lists m.protocols name →
            Describes m.protocols name (firstMetadata m.protocols)) := by
  have some_ := @joinedMembers_ne_nil g ⟨memberId.getD "", protocols, []⟩
  have once := distinct_joinedMembers distinct ⟨memberId.getD "", protocols, []⟩
  have left := joinGroup_joined resting distinct may clientId protocols
  have leads (choices : JoinChoices) :
      (joinGroup (some g) memberId clientId protocolType protocols choices).1.leaderId = some (memberId.getD "") ↔
        g.state = .empty ∨ g.leaderId = some (memberId.getD "") := by
    rw [(left choices).leader]
    split_ifs with empty
    · exact iff_of_true rfl (.inl empty)
    · exact (or_iff_right empty).symm
  constructor
  · intro every leader name counted m inside lists
    have chosen := (left ⟨"", "", name⟩).protocol.trans (selected_of_counted some_ counted)
    refine every ⟨"", "", name⟩ name chosen ⟨m.memberId, firstMetadata m.protocols⟩ ?_ m ?_ lists
    · rw [joinGroup_handed may, if_pos ((leads _).mpr leader), (left _).members]
      exact mem_map.mpr ⟨m, inside, rfl⟩
    · rw [(left _).members]
      exact get_of_mem once inside
  · intro all choices name selected e handed m got lists
    rw [(left choices).protocol] at selected
    rw [joinGroup_handed may] at handed
    split_ifs at handed with leader
    · rw [(left choices).members] at handed got
      obtain ⟨m', inside, rfl⟩ := mem_map.mp handed
      rw [get_of_mem once inside] at got
      obtain rfl := Option.some.inj got
      exact all ((leads choices).mp leader) name (counted_of_selected selected) m' inside lists
    · cases handed

include resting distinct in
/-- A join that succeeds takes effect, whatever the hash orders are, just if it may. -/
theorem joinTakesEffect_iff (may : MayJoin g memberId protocolType) (clientId : String) (protocols : List MemberProtocol) :
    (∀ choices, JoinTakesEffect (some g) memberId clientId protocolType protocols choices) ↔
      MayTakeEffect g (memberId.getD "") protocols := by
  have some_ := @joinedMembers_ne_nil g ⟨memberId.getD "", protocols, []⟩
  have left := joinGroup_joined resting distinct may clientId protocols
  have stored := stored_iff distinct (memberId.getD "") protocols
  have selects := selects_common_iff some_
  have handed := handed_iff resting distinct may clientId protocols
  -- once the entries agree on the protocols, the conditions are on those that are gathered
  have carry (again : Active g → ∀ m ∈ g.members, m.memberId = memberId.getD "" → m.protocols = protocols) :=
    joined_perm resting distinct again
  constructor
  · intro every
    have again := stored.mp (by
      have isStored := (every ⟨"", "", ""⟩).stored
      rwa [(left _).members] at isStored)
    have perm := carry again
    refine ⟨again, ?_, ?_⟩
    · have counts := selects.mp fun chosen common => by
        have selected := (every ⟨"", "", chosen⟩).common
        rw [(left _).members, (left _).protocol] at selected
        exact selected common
      simp only [common_congr perm, counted_congr perm] at counts
      exact counts
    · have first := handed.mp fun choices => (every choices).handed
      simp only [counted_congr perm] at first
      intro leader name counted
      exact (forall_congr_perm perm fun ps => Lists ps name → Describes ps name (firstMetadata ps)).mp (first leader name counted)
  · intro takes choices
    have perm := carry takes.again
    refine ⟨?_, ?_, handed.mpr (fun leader name counted => ?_) choices⟩
    · rw [(left _).members]
      exact stored.mpr takes.again
    · rw [(left _).members, (left _).protocol]
      refine selects.mpr ?_ choices.protocol
      have counts := takes.counts
      simp only [← common_congr perm, ← counted_congr perm] at counts
      exact counts
    · exact (forall_congr_perm perm fun ps => Lists ps name → Describes ps name (firstMetadata ps)).mpr
        (takes.first leader name ((counted_congr perm name).mp counted))

end

theorem distinct_run (calls : List GroupCall) (key : GroupKey) :
    Distinct ((run step .start calls).groupAt key).members := by
  refine (run_invariant (fun s => AllResting s ∧ ∀ key, Distinct (s.groupAt key).members) (fun s a here => ?_) ?_ calls).2 key
  · refine ⟨fun key => (step_move here.1 a key).1, fun key => ?_⟩
    by_cases own : key = a.key
    · rw [own, groupAt_step_self]
      exact request_distinct (here.1 a.key) (here.2 a.key) a.request
    · rw [groupAt_step_of_ne own]
      exact here.2 key
  · exact ⟨fun _ => resting_new, fun _ => nodup_nil⟩

/-- **A join of a reachable group takes effect exactly if** it may: for every order of the maps, if it succeeds. -/
theorem joins_iff (calls : List GroupCall) (key : GroupKey) (memberId : Option String) (clientId protocolType : String)
    (protocols : List MemberProtocol) :
    (∀ choices, (joinGroup ((run step .start calls).groups key) memberId clientId protocolType protocols
        choices).2.errorCode = .none →
      JoinTakesEffect ((run step .start calls).groups key) memberId clientId protocolType protocols choices) ↔
      (MayJoin ((run step .start calls).groupAt key) memberId protocolType →
        MayTakeEffect ((run step .start calls).groupAt key) (memberId.getD "") protocols) := by
  have entry (choices : JoinChoices) :
      joinGroup ((run step .start calls).groups key) memberId clientId protocolType protocols choices =
        joinGroup (some ((run step .start calls).groupAt key)) memberId clientId protocolType protocols choices :=
    rfl
  have effect (choices : JoinChoices) :
      JoinTakesEffect ((run step .start calls).groups key) memberId clientId protocolType protocols choices ↔
        JoinTakesEffect (some ((run step .start calls).groupAt key)) memberId clientId protocolType protocols choices :=
    ⟨fun takes => ⟨takes.stored, takes.common, takes.handed⟩, fun takes => ⟨takes.stored, takes.common, takes.handed⟩⟩
  simp only [entry, effect, joinGroup_succeeds]
  rw [forall_comm]
  exact forall_congr' fun may => joinTakesEffect_iff (allResting_run calls key) (distinct_run calls key) may clientId protocols

/-- The member's new list is not stored. -/
theorem rejoin_fails : ¬ ∀ choices, (joinGroup ((run step .start [Example.joins "a"]).groups Example.group)
      (some "a") "client" "consumer" [⟨"roundrobin", []⟩] choices).2.errorCode = .none →
    JoinTakesEffect ((run step .start [Example.joins "a"]).groups Example.group) (some "a") "client" "consumer"
      [⟨"roundrobin", []⟩] choices := by
  intro every
  have stored := (every ⟨"uuid", "a", "roundrobin"⟩ (by decide)).stored
  revert stored
  decide

end StreamHouse.Kafka
