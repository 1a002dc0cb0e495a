import StreamHouse.Api.Rbac
import StreamHouse.Lib.Run

/-!
# Calls to the role manager

The calls in progress, each by the locks that it holds and the one that it waits for. A step of a call
takes a lock that is free, or does what the call does under its locks and gives some back. The queues of the locks are left
out: they only put off some of these steps.
-/

namespace StreamHouse.Api
open Lib HashMaps List

inductive Lock where
  | roles
  | assignments
deriving DecidableEq

inductive LockMode where
  | read
  | write
deriving DecidableEq

/-- What is read under both locks. -/
inductive RbacQuery where
  | isAllowed (principal : String) (resource : AclResource) (action : AclAction)
  | getEffectivePermissions (principal : String)
  | getEffectiveRoleIds (principal : String)
deriving DecidableEq

inductive RbacResult where
  | role (role : Role)
  | assignments (revoked : List RoleAssignment)
  | allowed (answer : Bool)
  | permissions (permissions : List Permission)
  | roleIds (ids : List String)
  | error (e : RbacError)
deriving DecidableEq

/-- A call, from its first request for a lock on. What it has found so far it takes along. -/
inductive RbacCall where
  | createWaits (role : Role)
  | createHolds (role : Role)
  | deleteWaits (roleId : String)
  | deleteHolds (roleId : String)
  | deleteAsks (roleId : String) (removed : Role)
  | deleteHoldsBoth (roleId : String) (removed : Role)
  | deleteLeaves (removed : Role)
  | assignWaits (principal roleId assignedBy : String)
  | assignHolds (principal roleId assignedBy : String)
  | assignAsks (a : RoleAssignment)
  | assignInserts (a : RoleAssignment)
  | revokeWaits (assignmentId : String)
  | revokeHolds (assignmentId : String)
  | revokeAllWaits (principal roleId : String)
  | revokeAllHolds (principal roleId : String)
  | readWaits (query : RbacQuery)
  | readAsks (query : RbacQuery)
  | readHoldsBoth (query : RbacQuery)
  | readLeaves (result : RbacResult)
  | returned (result : RbacResult)
deriving DecidableEq

namespace RbacCall

/-- The lock that a call waits for. -/
def wants : RbacCall → Option (Lock × LockMode)
  | .createWaits _ => some (.roles, .write)
  | .deleteWaits _ => some (.roles, .write)
  | .deleteAsks _ _ => some (.assignments, .write)
  | .assignWaits _ _ _ => some (.roles, .read)
  | .assignAsks _ => some (.assignments, .write)
  | .revokeWaits _ => some (.assignments, .write)
  | .revokeAllWaits _ _ => some (.assignments, .write)
  | .readWaits _ => some (.assignments, .read)
  | .readAsks _ => some (.roles, .read)
  | _ => none

/-- The locks that a call holds. -/
def holds : RbacCall → List (Lock × LockMode)
  | .createHolds _ => [(.roles, .write)]
  | .deleteHolds _ => [(.roles, .write)]
  | .deleteAsks _ _ => [(.roles, .write)]
  | .deleteHoldsBoth _ _ => [(.roles, .write), (.assignments, .write)]
  | .deleteLeaves _ => [(.roles, .write)]
  | .assignHolds _ _ _ => [(.roles, .read)]
  | .assignInserts _ => [(.assignments, .write)]
  | .revokeHolds _ => [(.assignments, .write)]
  | .revokeAllHolds _ _ => [(.assignments, .write)]
  | .readAsks _ => [(.assignments, .read)]
  | .readHoldsBoth _ => [(.assignments, .read), (.roles, .read)]
  | .readLeaves _ => [(.assignments, .read)]
  | _ => []

/-- The call with the lock that it waits for. -/
def granted : RbacCall → RbacCall
  | .createWaits role => .createHolds role
  | .deleteWaits roleId => .deleteHolds roleId
  | .deleteAsks roleId removed => .deleteHoldsBoth roleId removed
  | .assignWaits principal roleId assignedBy => .assignHolds principal roleId assignedBy
  | .assignAsks a => .assignInserts a
  | .revokeWaits assignmentId => .revokeHolds assignmentId
  | .revokeAllWaits principal roleId => .revokeAllHolds principal roleId
  | .readWaits query => .readAsks query
  | .readAsks query => .readHoldsBoth query
  | c => c

/-- Where a call starts. -/
def Begins : RbacCall → Prop
  | .createWaits _ | .deleteWaits _ | .assignWaits _ _ _ | .revokeWaits _ | .revokeAllWaits _ _ | .readWaits _ => True
  | _ => False

instance Begins.decidable : DecidablePred Begins := fun c => by
  cases c <;> first | exact .isTrue trivial | exact .isFalse id

end RbacCall

/-- What the environment gives to a step: the id and the time of a new assignment, and the order of a hash map. -/
structure RbacEnv where
  uuid : String
  now : Int
  iteration : HashOrder String

def RbacQuery.answer (m : RbacManager) (iteration : HashOrder String) : RbacQuery → RbacResult
  | .isAllowed principal resource action => .allowed (m.isAllowed iteration principal resource action)
  | .getEffectivePermissions principal => .permissions (m.getEffectivePermissions iteration principal)
  | .getEffectiveRoleIds principal => .roleIds (m.getEffectiveRoleIds iteration principal)

/-- What a call does with the locks it holds, up to where it waits or has given one back. -/
def RbacManager.advance (m : RbacManager) (env : RbacEnv) : RbacCall → RbacCall × RbacManager
  | .createHolds role =>
    match m.createRole role with
    | .ok created => (.returned (.role role), created)
    | .error e => (.returned (.error e), m)
  | .deleteHolds roleId =>
    match m.removeRole roleId with
    | .ok (removed, rest) => (.deleteAsks roleId removed, rest)
    | .error e => (.returned (.error e), m)
  | .deleteHoldsBoth roleId removed => (.deleteLeaves removed, m.dropAssignments roleId)
  | .deleteLeaves removed => (.returned (.role removed), m)
  | .assignHolds principal roleId assignedBy =>
    match m.checkRole roleId with
    | .ok () => (.assignAsks ⟨env.uuid, principal, roleId, assignedBy, env.now⟩, m)
    | .error e => (.returned (.error e), m)
  | .assignInserts a => (.returned (.assignments [a]), m.insertAssignment a)
  | .revokeHolds assignmentId =>
    match m.revokeRole assignmentId with
    | .ok (revoked, rest) => (.returned (.assignments [revoked]), rest)
    | .error e => (.returned (.error e), m)
  | .revokeAllHolds principal roleId =>
    (.returned (.assignments (m.revokeRoleFromPrincipal env.iteration principal roleId).1),
      (m.revokeRoleFromPrincipal env.iteration principal roleId).2)
  | .readHoldsBoth query => (.readLeaves (query.answer m env.iteration), m)
  | .readLeaves result => (.returned result, m)
  | c => (c, m)

structure RbacSystem where
  manager : RbacManager
  calls : List RbacCall

namespace RbacSystem

def start : RbacSystem := ⟨.new, []⟩

/-- No call holds the lock, or all that hold it and this one read. -/
def Free (s : RbacSystem) (lock : Lock) (mode : LockMode) : Prop :=
  ∀ c ∈ s.calls, ∀ held ∈ c.holds, held.1 = lock → mode = .read ∧ held.2 = .read

instance Free.decidable (s : RbacSystem) (lock : Lock) (mode : LockMode) : Decidable (s.Free lock mode) :=
  inferInstanceAs (Decidable (∀ c ∈ s.calls, ∀ held ∈ c.holds, _))

/-- A new call, or a step of the call with the number. -/
inductive RbacStep where
  | begin (c : RbacCall)
  | go (i : Nat) (env : RbacEnv)

def go (s : RbacSystem) (i : Nat) (c : RbacCall) (env : RbacEnv) : RbacSystem :=
  match c.wants with
  | some (lock, mode) => if s.Free lock mode then { s with calls := s.calls.set i c.granted } else s
  | none => ⟨(s.manager.advance env c).2, s.calls.set i (s.manager.advance env c).1⟩

def step (s : RbacSystem) : RbacStep → RbacSystem
  | .begin c => if c.Begins then { s with calls := s.calls ++ [c] } else s
  | .go i env =>
    match s.calls[i]? with
    | some c => s.go i c env
    | none => s

variable {s : RbacSystem} {i : Nat} {c : RbacCall} {env : RbacEnv}

theorem step_go (there : s.calls[i]? = some c) : s.step (.go i env) = s.go i c env := by
  rw [step, there]

theorem go_of_waits {lock : Lock} {mode : LockMode} (waits : c.wants = some (lock, mode)) :
    s.go i c env = if s.Free lock mode then { s with calls := s.calls.set i c.granted } else s := by
  rw [go, waits]

theorem go_of_not_waits (waits : c.wants = none) :
    s.go i c env = ⟨(s.manager.advance env c).2, s.calls.set i (s.manager.advance env c).1⟩ := by
  rw [go, waits]

/-- A call that is not at the number stays. -/
theorem mem_set_of_ne {calls : List RbacCall} {c d : RbacCall} (there : calls[i]? = some c) (other : d ≠ c) (inside : d ∈ calls)
    (new : RbacCall) : d ∈ calls.set i new := by
  obtain ⟨j, below, rfl⟩ := getElem_of_mem inside
  have apart : i ≠ j := by
    rintro rfl
    rw [getElem?_eq_getElem below] at there
    exact other (Option.some.inj there)
  have kept : (calls.set i new)[j]? = some calls[j] := by
    rw [getElem?_set_ne apart, getElem?_eq_getElem below]
  exact mem_of_getElem? kept

theorem mem_set_self {calls : List RbacCall} {c : RbacCall} (there : calls[i]? = some c) (new : RbacCall) : new ∈ calls.set i new :=
  mem_set (List.getElem?_eq_some_iff.mp there).1 new

end RbacSystem

end StreamHouse.Api
