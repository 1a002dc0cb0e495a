import StreamHouse.Api.RbacCalls

/-!
# Deadlocks and the integrity of roles

Over any interleaving of calls to the role manager: `deadlocks_iff` says when calls wait for each other for ever, and
`integrity_of_sound` what keeps roles and assignments in order.
-/

namespace StreamHouse.Api.RbacSystem
open Lib HashMaps List Option RbacManager AList RbacCall

/-! ## Deadlocks -/

/-- The calls with these numbers each wait for a lock that another of them holds. -/
def Deadlock (s : RbacSystem) (S : Set Nat) : Prop := S.Nonempty ∧ ∀ i ∈ S, ∃ c lock mode, s.calls[i]? = some c ∧ c.wants = some (lock, mode) ∧
  ∃ j ∈ S, j ≠ i ∧ ∃ d mode', s.calls[j]? = some d ∧ (lock, mode') ∈ d.holds

/-- A deletion with the roles asks for the assignments, and a reader with the assignments asks for the roles. -/
def Crossing (s : RbacSystem) : Prop := (∃ roleId removed, .deleteAsks roleId removed ∈ s.calls) ∧ ∃ query, .readAsks query ∈ s.calls

/-- The condition on a step: it does not bring the second of the two about. -/
def Uncrossed (s : RbacSystem) : RbacStep → Prop
  | .begin _ => True
  | .go i _ => ∀ c, s.calls[i]? = some c →
    (∀ query, c = .readWaits query → s.Free .assignments .read → ∀ roleId removed, .deleteAsks roleId removed ∉ s.calls) ∧
    ∀ roleId done, c = .deleteHolds roleId → s.manager.removeRole roleId = .ok done → ∀ query, .readAsks query ∉ s.calls

variable {s : RbacSystem} {i : Nat} {c : RbacCall} {env : RbacEnv}

/-- Only two kinds of calls hold a lock and wait for another. -/
theorem holds_and_wants {want held : Lock × LockMode} (waits : c.wants = some want) (holds : held ∈ c.holds) :
    (∃ roleId removed, c = .deleteAsks roleId removed ∧ want.1 = .assignments ∧ held.1 = .roles) ∨
      ∃ query, c = .readAsks query ∧ want.1 = .roles ∧ held.1 = .assignments := by
  cases c <;> simp [RbacCall.wants, RbacCall.holds] at waits holds
  · subst waits holds
    simp
  · subst waits holds
    simp

/-- **Calls wait for each other exactly if** a deletion and a reader do. -/
theorem deadlock_iff : (∃ S, s.Deadlock S) ↔ s.Crossing := by
  constructor
  · rintro ⟨S, ⟨i, inside⟩, each⟩
    obtain ⟨_, _, _, -, -, j, insideJ, -, d, _, thereD, holdsD⟩ := each i inside
    obtain ⟨d', lock, mode, thereD', waits, k, insideK, -, e, mode', thereE, holdsE⟩ := each j insideJ
    obtain rfl := some.inj (thereD.symm.trans thereD')
    obtain ⟨e', lock', mode'', thereE', waitsE, -⟩ := each k insideK
    obtain rfl := some.inj (thereE.symm.trans thereE')
    have inD := mem_of_getElem? thereD
    have inE := mem_of_getElem? thereE
    obtain ⟨roleId, removed, rfl, wantsD, -⟩ | ⟨query, rfl, wantsD, -⟩ := holds_and_wants waits holdsD
    · obtain ⟨-, -, -, -, holdsRoles⟩ | ⟨query, rfl, -, -⟩ := holds_and_wants waitsE holdsE
      · exact absurd (wantsD.symm.trans holdsRoles) (by decide)
      · exact ⟨⟨roleId, removed, inD⟩, query, inE⟩
    · obtain ⟨roleId, removed, rfl, -, -⟩ | ⟨-, -, -, holdsAssignments⟩ := holds_and_wants waitsE holdsE
      · exact ⟨⟨roleId, removed, inE⟩, query, inD⟩
      · exact absurd (wantsD.symm.trans holdsAssignments) (by decide)
  · rintro ⟨⟨roleId, removed, inD⟩, query, inA⟩
    obtain ⟨i, thereD⟩ := mem_iff_getElem?.mp inD
    obtain ⟨j, thereA⟩ := mem_iff_getElem?.mp inA
    have apart : i ≠ j := by
      rintro rfl
      exact absurd (some.inj (thereD.symm.trans thereA)) (by simp)
    refine ⟨{i, j}, ⟨i, .inl rfl⟩, ?_⟩
    rintro k (rfl | rfl)
    · exact ⟨_, .assignments, .write, thereD, rfl, j, .inr rfl, apart.symm, _, .read, thereA, mem_cons_self⟩
    · exact ⟨_, .roles, .read, thereA, rfl, i, .inl rfl, apart, _, .write, thereD, mem_cons_self⟩

theorem granted_cases {lock : Lock} {mode : LockMode} (waits : c.wants = some (lock, mode)) :
    (∀ roleId removed, c.granted ≠ .deleteAsks roleId removed) ∧
      ∀ query, c.granted = .readAsks query → c = .readWaits query ∧ lock = .assignments ∧ mode = .read := by
  cases c <;> simp_all [wants, granted]

theorem advance_cases (m : RbacManager) (env : RbacEnv) (waits : c.wants = none) :
    (∀ roleId removed, (m.advance env c).1 = .deleteAsks roleId removed → ∃ rest, c = .deleteHolds roleId ∧ m.removeRole roleId = .ok (removed, rest)) ∧
      ∀ query, (m.advance env c).1 ≠ .readAsks query := by
  cases c <;> simp [wants] at waits <;> simp only [advance] <;> (try split) <;> simp_all

theorem crossing_step (clear : ¬ s.Crossing) (a : RbacStep) : ¬ (s.step a).Crossing ↔ s.Uncrossed a := by
  cases a with
  | «begin» c =>
    refine iff_of_true ?_ trivial
    rw [step]
    split
    · next begins =>
      rintro ⟨⟨roleId, removed, inD⟩, query, inA⟩
      refine clear ⟨⟨roleId, removed, ?_⟩, query, ?_⟩
      · obtain old | new := mem_append.mp inD
        · exact old
        · rw [← mem_singleton.mp new] at begins
          exact begins.elim
      · obtain old | new := mem_append.mp inA
        · exact old
        · rw [← mem_singleton.mp new] at begins
          exact begins.elim
    · exact clear
  | go i env =>
    cases there : s.calls[i]? with
    | none =>
      refine iff_of_true ?_ fun c found => ?_
      · rw [step, there]
        exact clear
      · rw [there] at found
        cases found
    | some c =>
      rw [step_go there]
      cases waits : c.wants with
      | some want =>
        obtain ⟨lock, mode⟩ := want
        obtain ⟨noDelete, reads⟩ := granted_cases waits
        rw [go_of_waits waits]
        split
        · next free =>
          constructor
          · intro clear' d found
            obtain rfl := some.inj (there.symm.trans found)
            constructor
            · rintro query rfl - roleId removed inD
              exact clear' ⟨⟨roleId, removed, mem_set_of_ne there (by simp) inD _⟩, query, mem_set_self there _⟩
            · rintro roleId done rfl
              cases waits
          · rintro uncrossed ⟨⟨roleId, removed, inD⟩, query, inA⟩
            have old : .deleteAsks roleId removed ∈ s.calls :=
              (mem_or_eq_of_mem_set inD).resolve_right fun new => noDelete roleId removed new.symm
            obtain oldA | new := mem_or_eq_of_mem_set inA
            · exact clear ⟨⟨roleId, removed, old⟩, query, oldA⟩
            · obtain ⟨rfl, rfl, rfl⟩ := reads query new.symm
              exact (uncrossed _ there).1 query rfl free roleId removed old
        · next taken =>
          refine iff_of_true clear fun d found => ?_
          obtain rfl := some.inj (there.symm.trans found)
          constructor
          · rintro query rfl free
            cases waits
            exact absurd free taken
          · rintro roleId done rfl
            cases waits
      | none =>
        obtain ⟨deletes, noRead⟩ := advance_cases s.manager env waits
        rw [go_of_not_waits waits]
        constructor
        · intro clear' d found
          obtain rfl := some.inj (there.symm.trans found)
          constructor
          · rintro query rfl
            cases waits
          · rintro roleId ⟨removed, rest⟩ rfl ok query inA
            refine clear' ⟨⟨roleId, removed, ?_⟩, query, mem_set_of_ne there (by simp) inA _⟩
            have new : (s.manager.advance env (.deleteHolds roleId)).1 = .deleteAsks roleId removed := by
              rw [advance, ok]
            rw [new]
            exact mem_set_self there _
        · rintro uncrossed ⟨⟨roleId, removed, inD⟩, query, inA⟩
          have old : .readAsks query ∈ s.calls := (mem_or_eq_of_mem_set inA).resolve_right fun new => noRead query new.symm
          obtain oldD | new := mem_or_eq_of_mem_set inD
          · exact clear ⟨⟨roleId, removed, oldD⟩, query, old⟩
          · obtain ⟨rest, rfl, ok⟩ := deletes roleId removed new.symm
            exact (uncrossed _ there).2 roleId _ rfl ok query old

/-- **No calls wait for each other in any state of a run exactly if** no step brings a deletion and a reader together. -/
theorem deadlocks_iff (as : List RbacStep) :
    (∀ before after, as = before ++ after → ¬ ∃ S, (run step start before).Deadlock S) ↔ Meets step Uncrossed start as := by
  have clear : ¬ start.Crossing := by
    rintro ⟨⟨roleId, removed, inside⟩, -⟩
    cases inside
  simp only [deadlock_iff]
  refine (meets_next_iff (P := fun s : RbacSystem => ¬ s.Crossing) clear as).symm.trans ?_
  exact meets_congr (fun s => ¬ s.Crossing) (fun _ a clear => crossing_step clear a)
    (fun _ a clear uncrossed => (crossing_step clear a).mpr uncrossed) clear as

/-- What the runs of the examples are given. -/
def noEnv : RbacEnv := ⟨"assignment", 0, .listed String⟩

def auditor : Role := ⟨"auditor", "auditor", "", [], none, 0, false⟩

def aliceReads : RbacQuery := .isAllowed "user:alice" .all .read

/-- A deletion takes the roles, a request takes the assignments, and each asks for what the other has. -/
theorem deadlocks_fail : ¬ ∀ as before after, as = before ++ after → ¬ ∃ S, (run step start before).Deadlock S := by
  intro none
  refine none _ [.begin (.createWaits auditor), .go 0 noEnv, .go 0 noEnv, .begin (.deleteWaits "auditor"), .go 1 noEnv,
    .begin (.readWaits aliceReads), .go 2 noEnv, .go 1 noEnv] [] (append_nil _).symm (deadlock_iff.mpr ?_)
  exact ⟨⟨"auditor", auditor, by decide +kernel⟩, aliceReads, by decide +kernel⟩

/-! ## Integrity -/

/-- What is to hold of the roles and assignments. -/
structure Integrity (m : RbacManager) : Prop where
  builtIn : ∀ role ∈ builtInRoles, m.roles.lookup role.id = some role
  names : ∀ id id' role role', m.roles.lookup id = some role → m.roles.lookup id' = some role' → role.name = role'.name → id = id'
  parents : ∀ id role parentId, m.roles.lookup id = some role → role.parentRole = some parentId → parentId ∈ m.roles
  assigned : ∀ id a, m.assignments.lookup id = some a → a.roleId ∈ m.roles
  decides : ∀ iteration principal resource action,
    m.isAllowed iteration principal resource action = true ↔ m.Grants principal resource action

/-- A deletion of the role is still going to drop its assignments. -/
def Deleting (calls : List RbacCall) (roleId : String) : Prop :=
  ∃ removed, .deleteAsks roleId removed ∈ calls ∨ .deleteHoldsBoth roleId removed ∈ calls

/-- The condition on a step: a role that is created has not the id of a built-in one, and an assignment is inserted while
its role is there. -/
def Sound (s : RbacSystem) : RbacStep → Prop
  | .begin _ => True
  | .go i _ => ∀ c, s.calls[i]? = some c →
    (∀ role created, c = .createHolds role → s.manager.createRole role = .ok created → ∀ builtIn ∈ builtInRoles, role.id ≠ builtIn.id) ∧
    ∀ a, c = .assignInserts a → a.roleId ∈ s.manager.roles ∨ Deleting s.calls a.roleId

/-- What holds of the roles in every state. -/
structure Formed (roles : AList fun _ : String => Role) : Prop where
  builtIn : ∀ role ∈ builtInRoles, roles.lookup role.id = some role
  names : ∀ id id' role role', roles.lookup id = some role → roles.lookup id' = some role' → role.name = role'.name → id = id'
  parents : ∀ id role parentId, roles.lookup id = some role → role.parentRole = some parentId → parentId ∈ roles

structure Inv (s : RbacSystem) : Prop where
  formed : Formed s.manager.roles
  assigned : ∀ id a, s.manager.assignments.lookup id = some a → a.roleId ∈ s.manager.roles ∨ Deleting s.calls a.roleId

theorem any_entries {roles : AList fun _ : String => Role} {p : Role → Bool} (none : ¬ (roles.entries.any fun e => p e.2) = true)
    {id : String} {role : Role} (found : roles.lookup id = some role) : ¬ p role = true :=
  fun holds => none (any_eq_true.mpr ⟨⟨id, role⟩, mem_lookup_iff.mp found, holds⟩)

variable {m m' : RbacManager} {roleId : String}

theorem createRole_ok {role : Role} (ok : m.createRole role = .ok m') : m' = { m with roles := m.roles.insert role.id role } ∧
    ¬ m.hasRoleNamed role.name = true ∧ ∀ parentId, role.parentRole = some parentId → parentId ∈ m.roles := by
  unfold createRole at ok
  split at ok
  · cases ok
  · next fresh =>
    split at ok
    · next parentId above =>
      split at ok
      · next there =>
        refine ⟨(Except.ok.inj ok).symm, fresh, fun other same => ?_⟩
        rwa [← some.inj (above.symm.trans same)]
      · cases ok
    · next root =>
      refine ⟨(Except.ok.inj ok).symm, fresh, fun other same => ?_⟩
      rw [root] at same
      cases same

theorem Formed.insert {roles : AList fun _ : String => Role} (formed : Formed roles) {role : Role}
    (fresh : ∀ id other, roles.lookup id = some other → other.name ≠ role.name)
    (above : ∀ parentId, role.parentRole = some parentId → parentId ∈ roles) (custom : ∀ builtIn ∈ builtInRoles, role.id ≠ builtIn.id) :
    Formed (roles.insert role.id role) := by
  have cases' : ∀ id found, (roles.insert role.id role).lookup id = some found → (id = role.id ∧ found = role) ∨ roles.lookup id = some found := by
    intro id found there
    by_cases same : id = role.id
    · subst same
      rw [lookup_insert] at there
      exact .inl ⟨rfl, (some.inj there).symm⟩
    · rw [lookup_insert_ne same] at there
      exact .inr there
  refine ⟨?_, ?_, ?_⟩
  · intro builtIn inside
    rw [lookup_insert_ne (custom builtIn inside).symm]
    exact formed.builtIn builtIn inside
  · intro id id' found found' there there' same
    obtain ⟨rfl, rfl⟩ | old := cases' id found there
    · obtain ⟨rfl, rfl⟩ | old' := cases' id' found' there'
      · rfl
      · exact absurd same.symm (fresh _ _ old')
    · obtain ⟨rfl, rfl⟩ | old' := cases' id' found' there'
      · exact absurd same (fresh _ _ old)
      · exact formed.names id id' found found' old old' same
  · intro id found parentId there up
    refine (mem_insert _).mpr (.inr ?_)
    obtain ⟨rfl, rfl⟩ | old := cases' id found there
    · exact above parentId up
    · exact formed.parents id found parentId old up

theorem removeRole_ok {removed : Role} (ok : m.removeRole roleId = .ok (removed, m')) :
    m' = { m with roles := m.roles.erase roleId } ∧ (∃ role, m.roles.lookup roleId = some role ∧ role.builtIn = false) ∧
      ¬ m.hasChildren roleId = true := by
  unfold removeRole at ok
  split at ok
  · cases ok
  · next role found =>
    split_ifs at ok with kept children
    obtain ⟨-, rfl⟩ := Prod.mk.inj (Except.ok.inj ok)
    exact ⟨rfl, ⟨role, found, by simpa using kept⟩, children⟩

theorem Formed.erase {roles : AList fun _ : String => Role} (formed : Formed roles)
    (custom : ∀ builtIn ∈ builtInRoles, roleId ≠ builtIn.id)
    (childless : ∀ id role, roles.lookup id = some role → role.parentRole ≠ some roleId) : Formed (roles.erase roleId) := by
  have kept : ∀ id role, (roles.erase roleId).lookup id = some role → roles.lookup id = some role := by
    intro id role there
    by_cases same : id = roleId
    · rw [same, lookup_erase] at there
      cases there
    · rwa [lookup_erase_ne same] at there
  refine ⟨?_, ?_, ?_⟩
  · intro builtIn inside
    rw [lookup_erase_ne (custom builtIn inside).symm]
    exact formed.builtIn builtIn inside
  · intro id id' role role' there there'
    exact formed.names id id' role role' (kept _ _ there) (kept _ _ there')
  · intro id role parentId there up
    refine mem_erase.mpr ⟨?_, formed.parents id role parentId (kept _ _ there) up⟩
    rintro rfl
    exact childless id role (kept _ _ there) up

/-- A step of another call leaves the deletion. -/
theorem Deleting.set {calls : List RbacCall} (deleting : Deleting calls roleId) (there : calls[i]? = some c)
    (other : ∀ removed, c ≠ .deleteAsks roleId removed ∧ c ≠ .deleteHoldsBoth roleId removed) (new : RbacCall) :
    Deleting (calls.set i new) roleId := by
  obtain ⟨removed, asks | both⟩ := deleting
  · exact ⟨removed, .inl (mem_set_of_ne there (other removed).1.symm asks new)⟩
  · exact ⟨removed, .inr (mem_set_of_ne there (other removed).2.symm both new)⟩

/-- A step that leaves the roles, puts in no assignment and does not end a deletion. -/
theorem Inv.quiet (inv : Inv s) (there : s.calls[i]? = some c) (new : RbacCall)
    (other : ∀ roleId removed, c ≠ .deleteAsks roleId removed ∧ c ≠ .deleteHoldsBoth roleId removed)
    (roles : m.roles = s.manager.roles)
    (fewer : ∀ id a, m.assignments.lookup id = some a → ∃ id, s.manager.assignments.lookup id = some a) :
    Inv ⟨m, s.calls.set i new⟩ := by
  refine ⟨roles ▸ inv.formed, fun id a found => ?_⟩
  obtain ⟨id', old⟩ := fewer id a found
  exact (inv.assigned id' a old).imp (fun inside => roles ▸ inside) fun deleting => deleting.set there (other _) new

theorem Inv.granted (inv : Inv s) (there : s.calls[i]? = some c) {want : Lock × LockMode} (waits : c.wants = some want) :
    Inv { s with calls := s.calls.set i c.granted } := by
  by_cases asks : ∃ roleId removed, c = .deleteAsks roleId removed
  · obtain ⟨roleId, removed, rfl⟩ := asks
    refine ⟨inv.formed, fun id a found => (inv.assigned id a found).imp_right fun deleting => ?_⟩
    by_cases same : a.roleId = roleId
    · rw [same]
      exact ⟨removed, .inr (mem_set_self there _)⟩
    · exact deleting.set there (fun _ => by simp [Ne.symm same]) _
  · refine inv.quiet there _ (fun roleId removed => ⟨fun is => asks ⟨roleId, removed, is⟩, ?_⟩) rfl fun id a found => ⟨id, found⟩
    rintro rfl
    cases waits

theorem Inv.advance (inv : Inv s) (there : s.calls[i]? = some c) (waits : c.wants = none) (sound : s.Sound (.go i env)) :
    Inv ⟨(s.manager.advance env c).2, s.calls.set i (s.manager.advance env c).1⟩ := by
  obtain ⟨creates, inserts⟩ := sound c there
  cases c with
  | createHolds role =>
    rw [advance]
    split
    · next created ok =>
      obtain ⟨rfl, fresh, above⟩ := createRole_ok ok
      refine ⟨inv.formed.insert (fun id other found same => ?_) above (creates role _ rfl ok), fun id a found => ?_⟩
      · exact any_entries (p := fun other => other.name = role.name) fresh found (by simpa using same)
      · exact (inv.assigned id a found).imp (fun inside => (mem_insert _).mpr (.inr inside)) fun deleting =>
          deleting.set there (fun _ => by simp) _
    · exact inv.quiet there _ (fun _ _ => by simp) rfl fun id a found => ⟨id, found⟩
  | deleteHolds roleId =>
    rw [advance]
    split
    · next removed rest ok =>
      obtain ⟨rfl, ⟨role, found, custom⟩, childless⟩ := removeRole_ok ok
      refine ⟨inv.formed.erase ?_ fun id other there up =>
        any_entries (p := fun other => other.parentRole = some roleId) childless there (by simpa using up), fun id a there' => ?_⟩
      · rintro builtIn inside rfl
        rw [inv.formed.builtIn builtIn inside] at found
        obtain rfl := some.inj found
        have always : ∀ role ∈ builtInRoles, role.builtIn = true := by decide
        rw [always _ inside] at custom
        cases custom
      · by_cases same : a.roleId = roleId
        · rw [same]
          exact .inr ⟨removed, .inl (mem_set_self there _)⟩
        · exact (inv.assigned id a there').imp (fun inside => mem_erase.mpr ⟨same, inside⟩) fun deleting =>
            deleting.set there (fun _ => by simp) _
    · exact inv.quiet there _ (fun _ _ => by simp) rfl fun id a found => ⟨id, found⟩
  | deleteHoldsBoth roleId removed =>
    refine ⟨inv.formed, fun id a found => ?_⟩
    have kept : (s.manager.assignments.lookup id).filter (fun a => decide (a.roleId ≠ roleId)) = some a :=
      (lookup_filterValues _ _ _).symm.trans found
    obtain ⟨old, other⟩ := filter_eq_some_iff.mp kept
    have apart : a.roleId ≠ roleId := of_decide_eq_true other
    exact (inv.assigned id a old).imp_right fun deleting => deleting.set there (fun _ => by simp [Ne.symm apart]) _
  | assignInserts a =>
    refine ⟨inv.formed, fun id other found => ?_⟩
    have old : other.roleId ∈ s.manager.roles ∨ Deleting s.calls other.roleId := by
      have inserted : (s.manager.assignments.insert a.id a).lookup id = some other := found
      by_cases same : id = a.id
      · rw [same, lookup_insert] at inserted
        rw [← some.inj inserted]
        exact inserts a rfl
      · rw [lookup_insert_ne same] at inserted
        exact inv.assigned id other inserted
    exact old.imp_right fun deleting => deleting.set there (fun _ => by simp) _
  | revokeHolds assignmentId =>
    rw [advance]
    unfold revokeRole
    cases s.manager.assignments.lookup assignmentId with
    | some revoked =>
      refine inv.quiet there _ (fun _ _ => by simp) rfl fun id a found => ⟨id, ?_⟩
      have erased : (s.manager.assignments.erase assignmentId).lookup id = some a := found
      by_cases same : id = assignmentId
      · rw [same, lookup_erase] at erased
        cases erased
      · rwa [lookup_erase_ne same] at erased
    | none => exact inv.quiet there _ (fun _ _ => by simp) rfl fun id a found => ⟨id, found⟩
  | revokeAllHolds principal roleId =>
    refine inv.quiet there _ (fun _ _ => by simp) rfl fun id a found => ⟨id, ?_⟩
    have kept : (s.manager.assignments.lookup id).filter (fun a => !isRevoked principal roleId a) = some a :=
      (lookup_filterValues _ _ _).symm.trans found
    exact (filter_eq_some_iff.mp kept).1
  | assignHolds principal roleId assignedBy =>
    rw [advance]
    split <;> exact inv.quiet there _ (fun _ _ => by simp) rfl fun id a found => ⟨id, found⟩
  | deleteAsks roleId removed => cases waits
  | _ => exact inv.quiet there _ (fun _ _ => by simp) rfl fun id a found => ⟨id, found⟩

theorem inv_step (s : RbacSystem) (a : RbacStep) (inv : Inv s) (sound : s.Sound a) : Inv (s.step a) := by
  cases a with
  | «begin» c =>
    rw [step]
    split
    · refine ⟨inv.formed, fun id a found => (inv.assigned id a found).imp_right ?_⟩
      rintro ⟨removed, asks | both⟩
      · exact ⟨removed, .inl (mem_append_left _ asks)⟩
      · exact ⟨removed, .inr (mem_append_left _ both)⟩
    · exact inv
  | go i env =>
    cases there : s.calls[i]? with
    | none =>
      rw [step, there]
      exact inv
    | some c =>
      rw [step_go there]
      cases waits : c.wants with
      | some want =>
        rw [go_of_waits waits]
        split
        · exact inv.granted there waits
        · exact inv
      | none =>
        rw [go_of_not_waits waits]
        exact inv.advance there waits sound

theorem inv_start : Inv start where
  formed := by
    have once : ((builtInRoles.map fun role => (role.id, role)).map Prod.fst).Nodup := by decide
    have there : ∀ role ∈ builtInRoles, new.roles.lookup role.id = some role := fun role inside =>
      lookup_insertAll_of_mem once (mem_map.mpr ⟨role, inside, rfl⟩) _
    have only : ∀ id role, new.roles.lookup id = some role → role ∈ builtInRoles ∧ role.id = id := by
      intro id role found
      have inside : id ∈ new.roles := lookup_isSome.mp (by rw [found]; exact isSome_some)
      obtain listed | absent := mem_insertAll.mp inside
      · obtain ⟨⟨_, other⟩, paired, rfl⟩ := mem_map.mp listed
        obtain ⟨builtIn, member, same⟩ := mem_map.mp paired
        obtain ⟨rfl, rfl⟩ := Prod.mk.inj same
        rw [there builtIn member] at found
        obtain rfl := some.inj found
        exact ⟨member, rfl⟩
      · exact absurd absent (notMem_empty id)
    have distinct : ∀ role ∈ builtInRoles, ∀ role' ∈ builtInRoles, role.name = role'.name → role.id = role'.id := by decide
    have roots : ∀ role ∈ builtInRoles, role.parentRole = none := by decide
    refine ⟨there, ?_, ?_⟩
    · intro id id' role role' found found' same
      obtain ⟨inside, rfl⟩ := only id role found
      obtain ⟨inside', rfl⟩ := only id' role' found'
      exact distinct role inside role' inside' same
    · intro id role parentId found up
      rw [roots role (only id role found).1] at up
      cases up
  assigned id a found := by cases found

/-- With every call returned, roles and assignments are in order. -/
def Orderly (s : RbacSystem) : Prop := (∀ c ∈ s.calls, ∃ result, c = .returned result) → Integrity s.manager

/-- **Roles and assignments are in order** in every state of a run, with every call returned, if no role is created
over a built-in one and no assignment is inserted after its role is gone. -/
theorem integrity_of_sound (as : List RbacStep) (sound : Meets step Sound start as) : Orderly (run step start as) := by
  have inv := sound.invariant inv_step inv_start
  intro settled
  refine ⟨inv.formed.builtIn, inv.formed.names, inv.formed.parents, fun id a found => ?_, isAllowed_iff⟩
  refine (inv.assigned id a found).resolve_right ?_
  rintro ⟨removed, asks | both⟩
  · obtain ⟨result, is⟩ := settled _ asks
    cases is
  · obtain ⟨result, is⟩ := settled _ both
    cases is

/-- Alice is an auditor. -/
theorem integrity_auditor : Orderly (run step start [.begin (.createWaits auditor), .go 0 noEnv, .go 0 noEnv,
    .begin (.assignWaits "user:alice" "auditor" "admin"), .go 1 noEnv, .go 1 noEnv, .go 1 noEnv, .go 1 noEnv]) := by
  apply integrity_of_sound
  refine ⟨trivial, ?_, ?_, trivial, ?_, ?_, ?_, ?_, trivial⟩
  all_goals
    intro c there
    obtain rfl := some.inj there
  · exact ⟨fun role created is => (by cases is), fun a is => by cases is⟩
  · refine ⟨fun role created is _ => ?_, fun a is => by cases is⟩
    cases is
    decide
  · exact ⟨fun role created is => (by cases is), fun a is => by cases is⟩
  · exact ⟨fun role created is => (by cases is), fun a is => by cases is⟩
  · exact ⟨fun role created is => (by cases is), fun a is => by cases is⟩
  · refine ⟨fun role created is => (by cases is), fun a is => ?_⟩
    cases is
    exact .inl (by decide +kernel)

/-- A role with the id of a built-in one takes its place. -/
theorem integrity_fails : ¬ ∀ as, Orderly (run step start as) := by
  intro every
  have settled := every [.begin (.createWaits { auditor with id := "builtin:admin" }), .go 0 noEnv, .go 0 noEnv]
  have integrity := settled (by
    intro c inside
    obtain rfl := mem_singleton.mp inside
    exact ⟨_, rfl⟩)
  have admin := integrity.builtIn createAdminRole mem_cons_self
  revert admin
  decide +kernel

end StreamHouse.Api.RbacSystem
