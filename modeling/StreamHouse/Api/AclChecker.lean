import StreamHouse.Api.Acl
import StreamHouse.Lib.ReadThrough

/-!
# The access checker

`AclChecker` with its cache of decisions. A check looks its rendered request up, reads the entries and
puts the decision in; a change of the entries empties the cache afterwards. The calls overlap in any way. A check
that starts when a change has returned is to decide by the rule over the entries since that change.
-/

namespace StreamHouse.Api.AclChecker
open Lib ReadThrough

/-- What changes the entries. -/
inductive AclChange where
  | addEntry (entry : AclEntry)
  | removeEntry (entryId : String)
  | clear

/-- A removal that finds nothing leaves the cache too. -/
def AclChange.apply : AclChange → List AclEntry → Option (List AclEntry)
  | .addEntry entry, entries => some (entries ++ [entry])
  | .removeEntry entryId, entries =>
    let kept := entries.filter fun e => e.id ≠ entryId
    if kept.length < entries.length then some kept else none
  | .clear, _ => some []

def cacheKey (request : AclRequest) : String × String × String :=
  (request.principal, request.resource.display, request.action.display)

/-- A request has a key of its own. -/
theorem cacheKey_injective : Function.Injective cacheKey := by
  rintro ⟨principal, resource, action⟩ ⟨principal', resource', action'⟩ same
  obtain ⟨rfl, others⟩ := Prod.mk.inj same
  obtain ⟨resources, actions⟩ := Prod.mk.inj others
  obtain rfl := AclResource.display_inj resources
  obtain rfl := AclAction.display_inj actions
  rfl

/-- The entries behind their cache, which every change empties. A check that an entry denies does not put that in. -/
def source (matching : AclEntry → AclRequest → Bool) :
    Source (List AclEntry) AclRequest (String × String × String) Verdict AclChange where
  query entries request := verdict entries fun e => matching e request
  key := cacheKey
  keeps v := decide (v ≠ .denied)
  apply := AclChange.apply
  removes _ := [fun _ => true]
  ttl _ := 1
  trim := id

/-- The checker as it is. -/
abbrev code := source AclEntry.matchesRequest

/-- The checker as it is to be. -/
abbrev rule := source fun e request => decide (e.Applies request)

abbrev CheckerState := ReadThrough.State (List AclEntry) AclRequest (String × String × String) Verdict

/-- One step of one of the calls. A check is a lookup, an evaluation and an insert. -/
inductive CheckerStep where
  | lookup (id : ℕ) (request : AclRequest)
  | evaluate (id : ℕ)
  | insert (id : ℕ)
  | change (c : AclChange)
  | clearCache (version : ℕ)

/-- Entries do not age. What the rule would answer is only recorded. -/
def step (s : CheckerState) : CheckerStep → CheckerState
  | .lookup id request => s.lookup rule id request 0
  | .evaluate id => s.fetch code id
  | .insert id => s.put rule id 0
  | .change c => s.write rule c false
  | .clearCache version => s.remove version

/-- The entries are plain for the request. -/
def PlainEntries (entries : List AclEntry) : Phase AclRequest Verdict → Prop
  | .missed request _ => ∀ e ∈ entries, e.PlainFor request
  | _ => True

/-- A decision that is not put in. -/
def Unkept : Phase AclRequest Verdict → Prop
  | .fetched _ _ value _ => value = .denied
  | _ => False

/-- The condition on a step. -/
def Fit (s : CheckerState) : CheckerStep → Prop
  | .evaluate id => PlainEntries s.store (s.reads id)
  | .insert id => Unkept (s.reads id) ∨ PutsCurrent rule s (s.reads id)
  | _ => True

variable {s : CheckerState}

theorem inv_evaluate (inv : Inv rule s) {id : ℕ} (plain : PlainEntries s.store (s.reads id)) : Inv rule (s.fetch code id) := by
  have same : s.fetch code id = s.fetch rule id := by
    unfold State.fetch
    cases phase : s.reads id with
    | missed request since =>
      rw [phase] at plain
      have query : code.query s.store request = rule.query s.store request := verdict_plain plain
      dsimp only
      rw [query]
    | _ => rfl
  rw [same]
  exact inv.fetch id

theorem inv_insert (inv : Inv rule s) {id : ℕ} (fit : Unkept (s.reads id) ∨ PutsCurrent rule s (s.reads id)) :
    Inv rule (s.put rule id 0) := by
  obtain denied | current := fit
  · have before := inv.going id
    unfold State.put
    cases phase : s.reads id with
    | fetched request since value version =>
      rw [phase] at before denied
      have discarded : ¬ rule.keeps value = true := by
        have is : value = .denied := denied
        rw [is]
        decide
      dsimp only
      rw [if_neg discarded]
      exact inv.goOn inv.sound ⟨version, before⟩
    | _ => exact inv
  · exact inv.put (fun _ _ inside => inside) 0 current

/-- What one step keeps. -/
theorem inv_step (s : CheckerState) (a : CheckerStep) (inv : Inv rule s) (fit : Fit s a) : Inv rule (step s a) := by
  cases a with
  | lookup id request => exact inv.lookup (inv.findsOwn cacheKey_injective request 0)
  | evaluate id => exact inv_evaluate inv fit
  | insert id => exact inv_insert inv fit
  | change c => exact inv.write fun _ _ _ _ _ => ⟨fun _ => true, List.mem_cons_self, rfl⟩
  | clearCache version => exact inv.remove version

/-- Every check that is answered is so by the rule over entries from after the last change of its answer that had returned when it
started. -/
def DecidesByRule (s : CheckerState) : Prop := ∀ id request since value, s.reads id = .answered request since value →
  ∃ version, since ≤ version ∧ version ≤ s.latest ∧ (value = .allowed ↔ RuleAllows (s.versions version) request)

def aliceReads : AclRequest := ⟨"user:alice", .topic "orders", .read⟩

def allowAlice : AclEntry := ⟨"1", "user:alice", .topic "orders", .read, .allow⟩

theorem plain_of_notMem {pattern value : List Char} (without : '*' ∉ pattern) : Plain pattern value :=
  patternMatches_iff.mp (by rw [patternMatches_of_notMem without, Globs.glob_of_notMem without])

theorem plain_alice : allowAlice.PlainFor aliceReads where
  principal := plain_of_notMem (by decide)
  resource := by
    rintro - names compared
    obtain rfl := Option.mem_some_iff.mp compared
    exact plain_of_notMem (by decide)

end StreamHouse.Api.AclChecker
