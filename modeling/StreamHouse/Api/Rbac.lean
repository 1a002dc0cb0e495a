import StreamHouse.Api.Acl
import StreamHouse.Lib.Ancestry
import StreamHouse.Lib.HashMaps

/-!
# Roles

The roles and assignments of `RbacManager` (`rbac.rs`), what each call does to them under its locks, and
the decision over them: `isAllowed_iff` says that it looks at all roles above those assigned, also
where a role is among its own ancestors.
-/

namespace StreamHouse.Api
open Lib HashMaps

structure Permission where
  resource : AclResource
  actions : List AclAction
deriving DecidableEq

def Permission.allows (p : Permission) (resource : AclResource) (action : AclAction) : Bool :=
  p.resource.matchesResource resource && p.actions.any (·.matchesAction action)

/-- `parentRole` is the id of a role. -/
structure Role where
  id : String
  name : String
  description : String
  permissions : List Permission
  parentRole : Option String
  createdAt : Int
  builtIn : Bool
deriving DecidableEq

structure RoleAssignment where
  id : String
  principal : String
  roleId : String
  assignedBy : String
  assignedAt : Int
deriving DecidableEq

inductive RbacError where
  | roleNotFound (id : String)
  | roleAlreadyExists (name : String)
  | assignmentNotFound (id : String)
  | builtInRole (name : String)
  | config (text : String)
deriving DecidableEq

/-! ## The built-in roles -/

/-- A built-in role has its actions on all resources. -/
def builtInRole (id name description : String) (actions : List AclAction) : Role :=
  ⟨id, name, description, [⟨.all, actions⟩], none, 0, true⟩

def createAdminRole : Role := builtInRole "builtin:admin" "admin" "Full administrative access to all resources" [.all]

def createOperatorRole : Role :=
  builtInRole "builtin:operator" "operator" "Operational access: read, write, describe, and alter resources" [.read, .write, .describe, .alter]

def createDeveloperRole : Role :=
  builtInRole "builtin:developer" "developer" "Developer access: read, write, and describe resources" [.read, .write, .describe]

def createViewerRole : Role := builtInRole "builtin:viewer" "viewer" "Read-only access: read and describe resources" [.read, .describe]

def builtInRoles : List Role := [createAdminRole, createOperatorRole, createDeveloperRole, createViewerRole]

/-! ## The manager -/

/-- `roles` by their ids, `assignments` by theirs. -/
structure RbacManager where
  roles : AList fun _ : String => Role
  assignments : AList fun _ : String => RoleAssignment

namespace RbacManager

def new : RbacManager := ⟨insertAll ∅ (builtInRoles.map fun role => (role.id, role)), ∅⟩

def hasRoleNamed (m : RbacManager) (name : String) : Bool := m.roles.entries.any fun entry => entry.2.name = name

/-- `create_role`. The role is the caller's own, with its id. -/
def createRole (m : RbacManager) (role : Role) : Except RbacError RbacManager :=
  if m.hasRoleNamed role.name then .error (.roleAlreadyExists role.name)
  else
    match role.parentRole with
    | some parentId =>
      if parentId ∈ m.roles then .ok { m with roles := m.roles.insert role.id role }
      else .error (.roleNotFound parentId)
    | none => .ok { m with roles := m.roles.insert role.id role }

def hasChildren (m : RbacManager) (roleId : String) : Bool := m.roles.entries.any fun entry => entry.2.parentRole = some roleId

/-- `delete_role` up to where it asks for the assignments. -/
def removeRole (m : RbacManager) (roleId : String) : Except RbacError (Role × RbacManager) :=
  match m.roles.lookup roleId with
  | none => .error (.roleNotFound roleId)
  | some role =>
    if role.builtIn then .error (.builtInRole role.name)
    else if m.hasChildren roleId then .error (.config ("Cannot delete role '" ++ roleId ++ "': other roles inherit from it"))
    else .ok (role, { m with roles := m.roles.erase roleId })

/-- The rest of `delete_role`. -/
def dropAssignments (m : RbacManager) (roleId : String) : RbacManager :=
  { m with assignments := filterValues (fun a => decide (a.roleId ≠ roleId)) m.assignments }

/-- `assign_role` up to where it gives the roles back. -/
def checkRole (m : RbacManager) (roleId : String) : Except RbacError Unit :=
  if roleId ∈ m.roles then .ok () else .error (.roleNotFound roleId)

/-- The rest of `assign_role`. -/
def insertAssignment (m : RbacManager) (a : RoleAssignment) : RbacManager :=
  { m with assignments := m.assignments.insert a.id a }

def revokeRole (m : RbacManager) (assignmentId : String) : Except RbacError (RoleAssignment × RbacManager) :=
  match m.assignments.lookup assignmentId with
  | some assignment => .ok (assignment, { m with assignments := m.assignments.erase assignmentId })
  | none => .error (.assignmentNotFound assignmentId)

def isRevoked (principal roleId : String) (a : RoleAssignment) : Bool := a.principal = principal && a.roleId = roleId

def revokeRoleFromPrincipal (m : RbacManager) (iteration : HashOrder String) (principal roleId : String) :
    List RoleAssignment × RbacManager :=
  ((iteration.values m.assignments).filter (isRevoked principal roleId),
    { m with assignments := filterValues (fun a => !isRevoked principal roleId a) m.assignments })

/-! ## Decisions -/

def assignedRoleIds (m : RbacManager) (iteration : HashOrder String) (principal : String) : List String :=
  ((iteration.values m.assignments).filter fun a => a.principal = principal).map RoleAssignment.roleId

def parentOf (m : RbacManager) (roleId : String) : Option String := (m.roles.lookup roleId).bind Role.parentRole

/-- Which role inherits from which. -/
def hierarchy (m : RbacManager) : Ancestry String where
  parent := m.parentOf
  nodes := m.roles.keys
  listed a b above := by
    obtain ⟨role, found, -⟩ := Option.bind_eq_some_iff.mp above
    exact AList.mem_keys.mp (AList.lookup_isSome.mp (by rw [found]; exact Option.isSome_some))

/-- `resolve_role_hierarchy`; `collect_hierarchy` is the walk to the ancestors. -/
def resolveRoleHierarchy (m : RbacManager) (roleIds : List String) : List String := m.hierarchy.collectAll roleIds

def roleAllows (m : RbacManager) (resource : AclResource) (action : AclAction) (roleId : String) : Bool :=
  match m.roles.lookup roleId with
  | some role => role.permissions.any fun p => p.allows resource action
  | none => false

def isAllowed (m : RbacManager) (iteration : HashOrder String) (principal : String) (resource : AclResource) (action : AclAction) : Bool :=
  let assigned := m.assignedRoleIds iteration principal
  if assigned.isEmpty then false else (m.resolveRoleHierarchy assigned).any (m.roleAllows resource action)

def getEffectiveRoleIds (m : RbacManager) (iteration : HashOrder String) (principal : String) : List String :=
  m.resolveRoleHierarchy (m.assignedRoleIds iteration principal)

def getEffectivePermissions (m : RbacManager) (iteration : HashOrder String) (principal : String) : List Permission :=
  (m.getEffectiveRoleIds iteration principal).flatMap fun roleId =>
    match m.roles.lookup roleId with
    | some role => role.permissions
    | none => []

/-- A role above one that the principal is assigned has a permission for it. -/
def Grants (m : RbacManager) (principal : String) (resource : AclResource) (action : AclAction) : Prop :=
  ∃ key assignment, m.assignments.lookup key = some assignment ∧ assignment.principal = principal ∧
    ∃ roleId role, m.hierarchy.Reaches assignment.roleId roleId ∧ m.roles.lookup roleId = some role ∧
      ∃ p ∈ role.permissions, p.allows resource action = true

variable {m : RbacManager}

theorem mem_assignedRoleIds {iteration : HashOrder String} {principal roleId : String} :
    roleId ∈ m.assignedRoleIds iteration principal ↔
      ∃ key assignment, m.assignments.lookup key = some assignment ∧ assignment.principal = principal ∧ assignment.roleId = roleId := by
  unfold assignedRoleIds
  rw [List.mem_map]
  constructor
  · rintro ⟨assignment, inside, rfl⟩
    obtain ⟨listed, of⟩ := List.mem_filter.mp inside
    obtain ⟨key, found⟩ := HashOrder.mem_values.mp listed
    exact ⟨key, assignment, found, of_decide_eq_true of, rfl⟩
  · rintro ⟨key, assignment, found, of, rfl⟩
    exact ⟨assignment, List.mem_filter.mpr ⟨HashOrder.mem_values.mpr ⟨key, found⟩, decide_eq_true of⟩, rfl⟩

theorem roleAllows_iff {resource : AclResource} {action : AclAction} {roleId : String} : m.roleAllows resource action roleId = true ↔
    ∃ role, m.roles.lookup roleId = some role ∧ ∃ p ∈ role.permissions, p.allows resource action = true := by
  unfold roleAllows
  cases m.roles.lookup roleId with
  | some role => simp
  | none => simp

/-- **A decision looks at every role that is reached.** -/
theorem isAllowed_iff (iteration : HashOrder String) (principal : String) (resource : AclResource) (action : AclAction) :
    m.isAllowed iteration principal resource action = true ↔ m.Grants principal resource action := by
  have some : m.isAllowed iteration principal resource action =
      (m.resolveRoleHierarchy (m.assignedRoleIds iteration principal)).any (m.roleAllows resource action) := by
    unfold isAllowed
    dsimp only
    split
    · next none =>
      rw [List.isEmpty_iff.mp none]
      rfl
    · rfl
  rw [some, List.any_eq_true]
  constructor
  · rintro ⟨roleId, inside, allows⟩
    obtain ⟨start, assigned, reached⟩ := Ancestry.mem_collectAll.mp inside
    obtain ⟨key, assignment, found, of, rfl⟩ := mem_assignedRoleIds.mp assigned
    obtain ⟨role, there, permits⟩ := roleAllows_iff.mp allows
    exact ⟨key, assignment, found, of, roleId, role, reached, there, permits⟩
  · rintro ⟨key, assignment, found, of, roleId, role, reached, there, permits⟩
    refine ⟨roleId, Ancestry.mem_collectAll.mpr ⟨assignment.roleId, ?_, reached⟩, roleAllows_iff.mpr ⟨role, there, permits⟩⟩
    exact mem_assignedRoleIds.mpr ⟨key, assignment, found, of, rfl⟩

end RbacManager

end StreamHouse.Api
