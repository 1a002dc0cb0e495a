import StreamHouse.Lib.Delimited
import StreamHouse.Lib.Globs

/-!
# Access rules

The entries of `acl.rs`, what they match and how `check` decides over them. Names are matched by
`pattern_matches`, which has a branch of its own for a wildcard at the end, at the
beginning and in the middle; `patternMatches_iff` says where it agrees with what a wildcard stands for.
-/

namespace StreamHouse.Api
open Lib Globs List

/-! ## Patterns -/

/-- `pattern_matches`. -/
def patternMatches (pattern value : List Char) : Bool :=
  if pattern = ['*'] then true
  else if pattern.getLast? = some '*' then pattern.dropLast.isPrefixOf value
  else if pattern.head? = some '*' then pattern.tail.isSuffixOf value
  else
    match pattern.splitOn '*' with
    | [front, back] => front.isPrefixOf value && back.isSuffixOf value
    | _ => decide (pattern = value)

/-- The name has all wildcards of the pattern but one in it as they are. -/
def Literally (pattern value : List Char) : Prop :=
  (∃ stem, pattern = stem ++ ['*'] ∧ stem <+: value) ∨
    (∃ stem, pattern = '*' :: stem ∧ stem.getLast? ≠ some '*' ∧ stem <:+ value) ∨ value = pattern

/-- What stands on both sides of one wildcard does not overlap in the name; and if there are more wildcards the
name does not match, or has them in it. -/
structure Plain (pattern value : List Char) : Prop where
  apart : ∀ front back, pattern = front ++ '*' :: back → '*' ∉ front → '*' ∉ back → front <+: value → back <:+ value →
    front.length + back.length ≤ value.length
  literal : 2 ≤ pattern.count '*' → Glob '*' pattern value → Literally pattern value

variable {pattern value : List Char}

theorem getLast?_back {front back : List Char} (some : back ≠ []) (none : '*' ∉ back) :
    (front ++ '*' :: back).getLast? ≠ .some '*' := by
  intro ends
  have last : back.getLast? = .some '*' := by
    rw [getLast?_append, getLast?_cons_of_ne_nil some, getLast?_eq_some_getLast some, Option.some_or] at ends
    rw [getLast?_eq_some_getLast some, ends]
  exact none (mem_of_getLast? last)

theorem patternMatches_one {front back : List Char} (noneBefore : '*' ∉ front) (noneBehind : '*' ∉ back) :
    patternMatches (front ++ '*' :: back) value = true ↔ front <+: value ∧ back <:+ value := by
  unfold patternMatches
  by_cases atEnd : back = []
  · subst atEnd
    rw [getLast?_concat, if_pos rfl, dropLast_concat]
    by_cases alone : front = []
    · subst alone
      simp
    · have more : front ++ ['*'] ≠ ['*'] := by simpa using alone
      rw [if_neg more, isPrefixOf_iff_prefix]
      exact ⟨fun begins => ⟨begins, nil_suffix⟩, fun both => both.1⟩
  · rw [if_neg (by cases front <;> simp [atEnd]), if_neg (getLast?_back atEnd noneBehind)]
    by_cases atFront : front = []
    · subst atFront
      rw [nil_append, head?_cons, if_pos rfl, tail_cons, isSuffixOf_iff_suffix]
      exact ⟨fun ends => ⟨List.nil_prefix, ends⟩, fun both => both.2⟩
    · obtain ⟨c, front, rfl⟩ := exists_cons_of_ne_nil atFront
      have other : (c :: front ++ '*' :: back).head? ≠ some '*' := by
        rw [cons_append, head?_cons]
        rintro same
        exact noneBefore (Option.some.inj same ▸ mem_cons_self)
      rw [if_neg other, splitOn_append_cons_self, splitOn_eq_singleton noneBefore, splitOn_eq_singleton noneBehind,
        singleton_append]
      simp

theorem patternMatches_of_notMem (without : '*' ∉ pattern) : patternMatches pattern value = true ↔ value = pattern := by
  have last : pattern.getLast? ≠ some '*' := fun ends => without (mem_of_getLast? ends)
  have first : pattern.head? ≠ some '*' := fun begins => without (mem_of_head? begins)
  unfold patternMatches
  have more : pattern ≠ ['*'] := by
    rintro rfl
    exact without mem_cons_self
  rw [if_neg more, if_neg last, if_neg first, splitOn_eq_singleton without]
  simp [eq_comm]

theorem patternMatches_many (many : 2 ≤ pattern.count '*') : patternMatches pattern value = true ↔ Literally pattern value := by
  have more : pattern ≠ ['*'] := by
    rintro rfl
    exact absurd many (by decide)
  unfold patternMatches
  rw [if_neg more]
  by_cases ends : pattern.getLast? = some '*'
  · obtain ⟨stem, rfl⟩ := getLast?_eq_some_iff.mp ends
    rw [if_pos ends, dropLast_concat, isPrefixOf_iff_prefix]
    constructor
    · exact fun begins => .inl ⟨stem, rfl, begins⟩
    · rintro (⟨other, same, begins⟩ | ⟨other, same, last, -⟩ | rfl)
      · rwa [append_cancel_right same]
      · have nonempty : other ≠ [] := by
          rintro rfl
          exact more same
        rw [same, getLast?_cons_of_ne_nil nonempty] at ends
        exact absurd ends last
      · exact prefix_append _ _
  · rw [if_neg ends]
    have noEnd : ∀ stem, pattern ≠ stem ++ ['*'] := by
      rintro stem rfl
      exact ends getLast?_concat
    by_cases begins : pattern.head? = some '*'
    · obtain ⟨stem, rfl⟩ := head?_eq_some_iff.mp begins
      rw [if_pos begins, tail_cons, isSuffixOf_iff_suffix]
      constructor
      · intro suffix
        refine .inr (.inl ⟨stem, rfl, fun last => ends ?_, suffix⟩)
        rw [getLast?_cons, last, Option.getD_some]
      · rintro (⟨other, same, -⟩ | ⟨other, same, -, suffix⟩ | rfl)
        · exact absurd same (noEnd other)
        · rwa [(cons.inj same).2]
        · exact suffix_cons _ _
    · rw [if_neg begins]
      have parts := length_splitOn '*' pattern
      have whole : Literally pattern value ↔ value = pattern := by
        constructor
        · rintro (⟨other, same, -⟩ | ⟨other, rfl, -, -⟩ | same)
          · exact absurd same (noEnd other)
          · exact absurd head?_cons begins
          · exact same
        · exact fun same => .inr (.inr same)
      rw [whole]
      split
      · next front back two =>
        rw [two] at parts
        simp only [length_cons, length_nil] at parts
        omega
      · rw [decide_eq_true_iff, eq_comm]

/-- A name that has the wildcards in it matches. -/
theorem Literally.glob (literally : Literally pattern value) : Glob '*' pattern value := by
  obtain ⟨stem, rfl, begins⟩ | ⟨stem, rfl, -, ends⟩ | rfl := literally
  · exact glob_of_prefix begins
  · exact glob_of_suffix ends
  · exact glob_self value

theorem exists_one_of_count {c : Char} (one : pattern.count c = 1) :
    ∃ front back, pattern = front ++ c :: back ∧ c ∉ front ∧ c ∉ back := by
  have inside : c ∈ pattern := count_pos_iff.mp (by omega)
  obtain ⟨front, back, rfl⟩ := append_of_mem inside
  rw [count_append, count_cons_self] at one
  exact ⟨front, back, rfl, count_eq_zero.mp (by omega), count_eq_zero.mp (by omega)⟩

/-- **A pattern matches as a glob exactly if** it is plain for the name. -/
theorem patternMatches_iff : (patternMatches pattern value = true ↔ Glob '*' pattern value) ↔ Plain pattern value := by
  rcases Nat.lt_trichotomy (pattern.count '*') 1 with none | one | many
  · have without : '*' ∉ pattern := count_eq_zero.mp (by omega)
    rw [patternMatches_of_notMem without, glob_of_notMem without]
    refine iff_of_true Iff.rfl ⟨?_, fun many => by omega⟩
    rintro front back rfl - -
    simp at without
  · obtain ⟨front, back, rfl, noneBefore, noneBehind⟩ := exists_one_of_count one
    rw [patternMatches_one noneBefore noneBehind, glob_one noneBefore noneBehind]
    constructor
    · intro agree
      refine ⟨?_, fun many => by omega⟩
      intro front' back' same without _ begins ends
      obtain ⟨rfl, rfl⟩ := Delimited.cut noneBefore without same
      exact (agree.mp ⟨begins, ends⟩).2.2
    · intro plain
      constructor
      · rintro ⟨begins, ends⟩
        exact ⟨begins, ends, plain.apart front back rfl noneBefore noneBehind begins ends⟩
      · rintro ⟨begins, ends, -⟩
        exact ⟨begins, ends⟩
  · rw [patternMatches_many many]
    constructor
    · intro agree
      refine ⟨?_, fun _ glob => agree.mpr glob⟩
      rintro front back rfl none none'
      rw [count_append, count_cons_self, count_eq_zero.mpr none, count_eq_zero.mpr none'] at many
      omega
    · exact fun plain => ⟨Literally.glob, plain.literal many⟩

/-! ## Resources and actions -/

inductive AclResource where
  | topic (name : String)
  | consumerGroup (name : String)
  | organization (name : String)
  | schema (name : String)
  | cluster
  | all
deriving DecidableEq

namespace AclResource

/-- `self.matches(other)`: names are matched with those of their own type. -/
def matchesResource : AclResource → AclResource → Bool
  | .all, _ => true
  | .cluster, .cluster => true
  | .topic pattern, .topic name => patternMatches pattern.toList name.toList
  | .consumerGroup pattern, .consumerGroup name => patternMatches pattern.toList name.toList
  | .organization pattern, .organization name => patternMatches pattern.toList name.toList
  | .schema pattern, .schema name => patternMatches pattern.toList name.toList
  | _, _ => false

def resourceType : AclResource → String
  | .topic _ => "topic"
  | .consumerGroup _ => "consumer_group"
  | .organization _ => "organization"
  | .schema _ => "schema"
  | .cluster => "cluster"
  | .all => "all"

def name : AclResource → String
  | .topic name => name
  | .consumerGroup name => name
  | .organization name => name
  | .schema name => name
  | .cluster => "*"
  | .all => "*"

/-- `to_string`. -/
def display (resource : AclResource) : String := resource.resourceType ++ ":" ++ resource.name

/-- The pattern and the name that are compared. -/
def names : AclResource → AclResource → Option (List Char × List Char)
  | .topic pattern, .topic name => some (pattern.toList, name.toList)
  | .consumerGroup pattern, .consumerGroup name => some (pattern.toList, name.toList)
  | .organization pattern, .organization name => some (pattern.toList, name.toList)
  | .schema pattern, .schema name => some (pattern.toList, name.toList)
  | _, _ => none

/-- The two are of one type, or `self` is all. -/
def Covers (self other : AclResource) : Prop := self = .all ∨ (self = .cluster ∧ other = .cluster) ∨
  ∃ names ∈ self.names other, Glob '*' names.1 names.2

instance Covers.decidable (self other : AclResource) : Decidable (self.Covers other) :=
  inferInstanceAs (Decidable (_ ∨ _ ∨ ∃ names ∈ self.names other, _))

/-- The names, if any are compared, are plain. -/
def PlainFor (self other : AclResource) : Prop := ∀ names ∈ self.names other, Plain names.1 names.2

theorem matchesResource_iff {self other : AclResource} (plain : self.PlainFor other) :
    self.matchesResource other = true ↔ self.Covers other := by
  have agree : ∀ names ∈ self.names other, (patternMatches names.1 names.2 = true ↔ Glob '*' names.1 names.2) :=
    fun names compared => patternMatches_iff.mpr (plain names compared)
  unfold Covers
  cases self <;> cases other <;> simp_all [matchesResource, names]

theorem display_toList (resource : AclResource) : resource.display.toList = resource.resourceType.toList ++ [':'] ++ resource.name.toList := by
  rw [display, String.toList_append, String.toList_append]
  rfl

/-- What a resource is rendered as tells it. -/
theorem display_inj {a b : AclResource} (same : a.display = b.display) : a = b := by
  have types : Delimited (fun r : AclResource => r.resourceType.toList ++ [':']) resourceType :=
    .stopped (fun r => by cases r <;> simp [resourceType]) fun _ _ => String.toList_inj.mp
  have texts := congrArg String.toList same
  rw [display_toList, display_toList] at texts
  obtain ⟨ofType, named⟩ := types a b _ _ texts
  have sameName := String.toList_inj.mp named
  cases a <;> cases b <;> simp_all [resourceType, name]

end AclResource

inductive AclAction where
  | read
  | write
  | create
  | delete
  | alter
  | describe
  | admin
  | all
deriving DecidableEq

namespace AclAction

/-- `self.matches(other)`. -/
def matchesAction (self other : AclAction) : Bool := if self = .all then true else decide (self = other)

/-- `to_string`. -/
def display : AclAction → String
  | .read => "read"
  | .write => "write"
  | .create => "create"
  | .delete => "delete"
  | .alter => "alter"
  | .describe => "describe"
  | .admin => "admin"
  | .all => "all"

theorem display_inj {a b : AclAction} (same : a.display = b.display) : a = b := by
  cases a <;> cases b <;> first | rfl | exact absurd same (by decide)

end AclAction

/-! ## Entries -/

inductive AclPermission where
  | allow
  | deny
deriving DecidableEq

structure AclEntry where
  id : String
  principal : String
  resource : AclResource
  action : AclAction
  permission : AclPermission

/-- What `check` is asked. -/
structure AclRequest where
  principal : String
  resource : AclResource
  action : AclAction

namespace AclEntry

/-- `self.matches(principal, resource, action)`. -/
def matchesRequest (e : AclEntry) (request : AclRequest) : Bool :=
  patternMatches e.principal.toList request.principal.toList && e.resource.matchesResource request.resource &&
    e.action.matchesAction request.action

/-- The rule that `matches` is to keep. -/
structure Applies (e : AclEntry) (request : AclRequest) : Prop where
  principal : Glob '*' e.principal.toList request.principal.toList
  resource : e.resource.Covers request.resource
  action : e.action = .all ∨ e.action = request.action

instance Applies.decidable (e : AclEntry) (request : AclRequest) : Decidable (e.Applies request) :=
  decidable_of_iff (Glob '*' e.principal.toList request.principal.toList ∧ e.resource.Covers request.resource ∧
    (e.action = .all ∨ e.action = request.action)) ⟨fun ⟨p, r, a⟩ => ⟨p, r, a⟩, fun ⟨p, r, a⟩ => ⟨p, r, a⟩⟩

/-- The names that are compared are plain. That of the resource is compared if the principal matches. -/
structure PlainFor (e : AclEntry) (request : AclRequest) : Prop where
  principal : Plain e.principal.toList request.principal.toList
  resource : Glob '*' e.principal.toList request.principal.toList → e.resource.PlainFor request.resource

theorem matchesRequest_iff {e : AclEntry} {request : AclRequest} (plain : e.PlainFor request) :
    e.matchesRequest request = true ↔ e.Applies request := by
  have principal := patternMatches_iff.mpr plain.principal
  have action : e.action.matchesAction request.action = true ↔ e.action = .all ∨ e.action = request.action := by
    unfold AclAction.matchesAction
    split <;> simp [*]
  unfold matchesRequest
  rw [Bool.and_eq_true, Bool.and_eq_true, principal, action]
  constructor
  · rintro ⟨⟨who, what⟩, how⟩
    exact ⟨who, (AclResource.matchesResource_iff (plain.resource who)).mp what, how⟩
  · rintro ⟨who, what, how⟩
    exact ⟨⟨who, (AclResource.matchesResource_iff (plain.resource who)).mpr what⟩, how⟩

end AclEntry

/-! ## Decisions -/

/-- Which of the three ways a check ends in. Only the first is not kept in the cache. -/
inductive Verdict where
  | denied
  | allowed
  | notAllowed
deriving DecidableEq

/-- The loops of `check` over the entries: **deny overrides allow**, and what is not allowed is denied. -/
def verdict (entries : List AclEntry) (matching : AclEntry → Bool) : Verdict :=
  if ∃ e ∈ entries, e.permission = .deny ∧ matching e = true then .denied
  else if ∃ e ∈ entries, e.permission = .allow ∧ matching e = true then .allowed
  else .notAllowed

/-- The rule over the entries. -/
def RuleAllows (entries : List AclEntry) (request : AclRequest) : Prop :=
  (∃ e ∈ entries, e.permission = .allow ∧ e.Applies request) ∧ ¬ ∃ e ∈ entries, e.permission = .deny ∧ e.Applies request

theorem verdict_applies {entries : List AclEntry} {request : AclRequest} :
    verdict entries (fun e => decide (e.Applies request)) = .allowed ↔ RuleAllows entries request := by
  unfold verdict RuleAllows
  simp only [decide_eq_true_eq]
  split_ifs with denied allowed
  · exact iff_of_false (by decide) fun rule => rule.2 denied
  · exact iff_of_true rfl ⟨allowed, denied⟩
  · exact iff_of_false (by decide) fun rule => allowed rule.1

/-- Over plain entries the code and the rule come to one verdict. -/
theorem verdict_plain {entries : List AclEntry} {request : AclRequest} (plain : ∀ e ∈ entries, e.PlainFor request) :
    verdict entries (·.matchesRequest request) = verdict entries fun e => decide (e.Applies request) := by
  have agree (permission : AclPermission) : (∃ e ∈ entries, e.permission = permission ∧ e.matchesRequest request = true) ↔
      ∃ e ∈ entries, e.permission = permission ∧ decide (e.Applies request) = true := by
    refine exists_congr fun e => and_congr_right fun inside => and_congr_right fun _ => ?_
    rw [AclEntry.matchesRequest_iff (plain e inside), decide_eq_true_iff]
  unfold verdict
  simp only [agree]

end StreamHouse.Api
