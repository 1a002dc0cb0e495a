import Mathlib.Data.List.Basic

/-!
# The consumer group coordinator

`GroupCoordinator` (`coordinator.rs`). A call works on one group under its lock from
beginning to end. The maps of members are kept in hash order, which is the
environment's choice: a call that takes the first key or the first protocol of a map
takes the one it is given, when it is there. Timeouts and heartbeat times are kept by
the coordinator but read by no call.
-/

namespace StreamHouse.Kafka

inductive ErrorCode where
  | none
  | memberIdRequired
  | inconsistentGroupProtocol
  | groupIdNotFound
  | unknownMemberId
  | illegalGeneration
  | rebalanceInProgress
deriving DecidableEq

inductive GroupState where
  | empty
  | preparingRebalance
  | completingRebalance
  | stable
  | dead
deriving DecidableEq

structure MemberProtocol where
  name : String
  metadata : List UInt8
deriving DecidableEq

structure GroupMember where
  memberId : String
  protocols : List MemberProtocol
  assignment : List UInt8

open GroupMember

/-! ## Maps of members

A `HashMap<String, GroupMember>` whose entries are under their own `member_id`. -/

abbrev Members := List GroupMember

namespace Members

def contains (members : Members) (memberId : String) : Bool := members.any fun m => m.memberId == memberId

def get (members : Members) (memberId : String) : Option GroupMember := members.find? fun m => m.memberId == memberId

def remove (members : Members) (memberId : String) : Members := members.filter fun m => !(m.memberId == memberId)

def insert (members : Members) (m : GroupMember) : Members := remove members m.memberId ++ [m]

/-- `drain` of one map with an `insert` of each entry into the other. -/
def insertAll (members entries : Members) : Members := entries.foldl insert members

/-- `get_mut` and an assignment of its `assignment`. -/
def assign (members : Members) (memberId : String) (assignment : List UInt8) : Members :=
  members.map fun m => if m.memberId = memberId then { m with assignment } else m

/-- `keys().next()`: the key the hash order has first. -/
def firstKey (members : Members) (chosen : String) : Option String :=
  if contains members chosen then some chosen else members.head?.map memberId

end Members

open Members

structure ConsumerGroup where
  state : GroupState
  generationId : BitVec 32
  protocolType : Option String
  protocolName : Option String
  leaderId : Option String
  members : Members
  pendingMembers : Members

/-- What the environment decides of a `join_group`: the identifier drawn, and what the hash orders have first. -/
structure JoinChoices where
  uuid : String
  leader : String
  protocol : String

structure JoinGroupMember where
  memberId : String
  metadata : List UInt8

structure JoinGroupResult where
  errorCode : ErrorCode
  generationId : BitVec 32
  protocolType : Option String
  protocolName : Option String
  leader : String
  memberId : String
  members : List JoinGroupMember

structure SyncGroupAssignment where
  memberId : String
  assignment : List UInt8

structure SyncGroupResult where
  errorCode : ErrorCode
  assignment : List UInt8
deriving DecidableEq

namespace ConsumerGroup

def new : ConsumerGroup := ⟨.empty, 0, none, none, none, [], []⟩

/-- How often a protocol is listed by the members; `protocol_votes`. -/
def votes (members : Members) (name : String) : Nat :=
  (members.flatMap protocols).countP fun p => p.name == name

/-- `select_protocol`. -/
def selectProtocol (members : Members) (chosen : String) : Option String :=
  let names := ((members.flatMap protocols).map MemberProtocol.name).filter fun name => votes members name == members.length
  if names.contains chosen then some chosen else names.head?

/-- The match on the state in `join_group`. -/
def addMember (g : ConsumerGroup) (member : GroupMember) (protocolType : String) (choices : JoinChoices) : ConsumerGroup :=
  match g.state with
  | .empty | .dead =>
    { g with
      state := .completingRebalance
      generationId := g.generationId + 1
      protocolType := some protocolType
      protocolName := selectProtocol [member] choices.protocol
      leaderId := some member.memberId
      members := [member] }
  | .preparingRebalance => { g with pendingMembers := insert g.pendingMembers member }
  | .completingRebalance | .stable =>
    -- the entries of the old members come last, also over the new entry of one that joins again
    { g with
      state := .preparingRebalance
      generationId := g.generationId + 1
      members := []
      pendingMembers := insertAll (insert g.pendingMembers member) g.members }

/-- The completion of the join in `join_group`. -/
def completeJoin (g : ConsumerGroup) (choices : JoinChoices) : ConsumerGroup :=
  if g.state = .preparingRebalance ∧ g.pendingMembers ≠ [] then
    let members := insertAll g.members g.pendingMembers
    let keeps := match g.leaderId with
      | some leader => contains members leader
      | none => false
    { g with
      state := .completingRebalance
      members
      pendingMembers := []
      leaderId := if keeps then g.leaderId else firstKey members choices.leader
      protocolName := selectProtocol members choices.protocol }
  else g

/-- `join_group` on the group's entry, which it creates. -/
def joinGroup (entry : Option ConsumerGroup) (memberId : Option String) (clientId protocolType : String)
    (protocols : List MemberProtocol) (choices : JoinChoices) : ConsumerGroup × JoinGroupResult :=
  let g := entry.getD new
  let id := memberId.getD ""
  if id = "" then
    (g, ⟨.memberIdRequired, -1, none, none, "", clientId ++ "-" ++ choices.uuid, []⟩)
  else if g.protocolType.isSome ∧ g.protocolType ≠ some protocolType then
    (g, ⟨.inconsistentGroupProtocol, -1, none, none, "", id, []⟩)
  else
    let g := (g.addMember ⟨id, protocols, []⟩ protocolType choices).completeJoin choices
    let members := if g.leaderId = some id then
        g.members.map fun m => ⟨m.memberId, (m.protocols.head?.map MemberProtocol.metadata).getD []⟩
      else []
    (g, ⟨.none, g.generationId, g.protocolType, g.protocolName, g.leaderId.getD "", id, members⟩)

/-- The leader's assignments, one entry after the other. -/
def assignAll (members : Members) (assignments : List SyncGroupAssignment) : Members :=
  assignments.foldl (fun members a => assign members a.memberId a.assignment) members

/-- The match on the state in `sync_group`. A member that is not the leader is answered before it. -/
def takeAssignments (g : ConsumerGroup) (memberId : String) (assignments : List SyncGroupAssignment) :
    Except ErrorCode ConsumerGroup :=
  match g.state with
  | .empty | .dead => .error .unknownMemberId
  | .preparingRebalance => .error .rebalanceInProgress
  | .completingRebalance =>
    if g.leaderId = some memberId then .ok { g with state := .stable, members := assignAll g.members assignments }
    else .ok g
  | .stable => .ok g

/-- `sync_group` on the group's entry. -/
def syncGroup (entry : Option ConsumerGroup) (generationId : BitVec 32) (memberId : String)
    (assignments : List SyncGroupAssignment) : Option ConsumerGroup × SyncGroupResult :=
  match entry with
  | none => (none, ⟨.groupIdNotFound, []⟩)
  | some g =>
    if contains g.members memberId = false then (some g, ⟨.unknownMemberId, []⟩)
    else if generationId ≠ g.generationId then (some g, ⟨.illegalGeneration, []⟩)
    else
      match g.takeAssignments memberId assignments with
      | .error e => (some g, ⟨e, []⟩)
      | .ok g => (some g, ⟨.none, ((get g.members memberId).map assignment).getD []⟩)

/-- `leave_group` on the group's entry; `leader` is what the hash order has first of those who stay. -/
def leaveGroup (entry : Option ConsumerGroup) (memberId leader : String) : Option ConsumerGroup × ErrorCode :=
  match entry with
  | none => (none, .groupIdNotFound)
  | some g =>
    if contains g.members memberId = false then (some g, .unknownMemberId)
    else
      let members := remove g.members memberId
      if members = [] then
        (some { g with state := .empty, leaderId := none, protocolType := none, protocolName := none, members }, .none)
      else
        (some { g with
          state := .preparingRebalance
          generationId := g.generationId + 1
          leaderId := if g.leaderId = some memberId then firstKey members leader else g.leaderId
          members }, .none)

end ConsumerGroup

end StreamHouse.Kafka
