import Mathlib.Algebra.BigOperators.Ring.Finset
import Mathlib.Algebra.Order.BigOperators.Group.List
import StreamHouse.Lib.Run
import StreamHouse.Metadata.Quota

/-!
# Topics within the quota

`check_topic_creation` of `quota.rs` and the callers that create a topic when it has admitted them. Between the check
and the creation anything may happen to the catalog, the number of partitions is compared as an `i32`, and the partitions
of all topics are not counted: `topicLimits_iff` says in which runs the limits are kept all the same.
-/

namespace StreamHouse.Metadata.Quota
open Lib List

/-- `is_allowed`. -/
def QuotaCheck.isAllowed : QuotaCheck → Bool
  | .allowed | .warning _ => true
  | .denied _ => false

/-- `check_topic_creation`, with the topics that the store lists for the organization. -/
def checkTopicCreation (ctx : TenantContext) (topics : List Topic) (partitionCount : BitVec 32) : QuotaCheck :=
  if ctx.organization.status ≠ .active then .denied ("Organization is " ++ statusText ctx.organization.status)
  else if QuotaEnforcer.isPaying ctx then .allowed
  else
    let currentTopics := (BitVec.ofNat 32 topics.length).toInt
    if currentTopics ≥ ctx.quota.maxTopics then
      .denied ("Topic limit reached (" ++ toString currentTopics ++ "/" ++ toString ctx.quota.maxTopics ++ ")")
    else if partitionCount.toInt > ctx.quota.maxPartitionsPerTopic then
      .denied ("Partition count " ++ toString partitionCount.toNat ++ " exceeds limit of " ++ toString ctx.quota.maxPartitionsPerTopic)
    else
      let usagePercent : ℚ := currentTopics / ctx.quota.maxTopics * 100
      if usagePercent > 80 then .warning usagePercent else .allowed

/-- A partition count that a caller has been admitted with. The topics that its check has found, and the creations since, are
no data of the source. -/
structure Admission where
  partitionCount : BitVec 32
  found : Nat
  since : Nat

def Admission.next (a : Admission) : Admission := { a with since := a.since + 1 }

/-- The catalog, and the admissions of callers that have not used them. -/
structure TopicCallers where
  catalog : Catalog
  admitted : Nat → Option Admission

inductive TopicCall where
  | check (caller : Nat) (partitionCount : BitVec 32)
  /-- `create_topic_for_org` with the partition count that the caller has been admitted with. -/
  | create (caller : Nat) (config : TopicConfig) (now : Int)

namespace TopicCallers

variable (ctx : TenantContext) (s : TopicCallers)

def creation (config : TopicConfig) (now : Int) (count : BitVec 32) : Option Catalog :=
  s.catalog.createTopicForOrg ctx.organization.id { config with partitionCount := count.toNat } now

def step : TopicCall → TopicCallers
  | .check caller count =>
    let topics := s.catalog.listTopicsForOrg ctx.organization.id
    let check := checkTopicCreation ctx topics count
    { s with admitted := Function.update s.admitted caller (if check.isAllowed then some ⟨count, topics.length, 0⟩ else none) }
  | .create caller config now =>
    match (s.admitted caller).bind fun a => s.creation ctx config now a.partitionCount with
    | some created => ⟨created, fun other => (Function.update s.admitted caller none other).map Admission.next⟩
    | none => { s with admitted := Function.update s.admitted caller none }

/-! ## The limits -/

/-- The rows of the organization. -/
def rows : List TopicRow := s.catalog.topics.filter fun r => r.organizationId = ctx.organization.id

def partitions : Nat := ((s.rows ctx).map TopicRow.partitionCount).sum

structure Within : Prop where
  topics : ((s.rows ctx).length : Int) ≤ ctx.quota.maxTopics
  each : ∀ r ∈ s.rows ctx, (r.partitionCount : Int) ≤ ctx.quota.maxPartitionsPerTopic
  all : (s.partitions ctx : Int) ≤ ctx.quota.maxTotalPartitions

/-- A creation that goes through has a place that the creations since its check have not taken, its count fits an `i32`, and
the partitions of all topics leave room for its own. -/
def Leaves : TopicCall → Prop
  | .check _ _ => True
  | .create caller config now => ∀ a ∈ s.admitted caller, (s.creation ctx config now a.partitionCount).isSome = true →
      (a.found + a.since : Int) < ctx.quota.maxTopics ∧ a.partitionCount.toNat < 2 ^ 31 ∧
        (s.partitions ctx + a.partitionCount.toNat : Int) ≤ ctx.quota.maxTotalPartitions

instance : DecidablePred (s.Leaves ctx)
  | .check _ _ => .isTrue trivial
  | .create caller _ _ => Option.decidableForallMem (s.admitted caller)

/-- Who has been admitted has been compared with the limit, and the topics have been counted. -/
def Compared : Prop :=
  ∀ caller, ∀ a ∈ s.admitted caller, a.partitionCount.toInt ≤ ctx.quota.maxPartitionsPerTopic ∧ a.found + a.since = (s.rows ctx).length

variable {ctx s}

/-- What a check that admits has compared. -/
theorem compares (free : ctx.organization.plan = .free) {topics : List Topic} {count : BitVec 32}
    (allowed : (checkTopicCreation ctx topics count).isAllowed = true) :
    (BitVec.ofNat 32 topics.length).toInt < ctx.quota.maxTopics ∧ count.toInt ≤ ctx.quota.maxPartitionsPerTopic := by
  have unpaid : ¬ QuotaEnforcer.isPaying ctx = true := by simp [QuotaEnforcer.isPaying, free]
  rw [checkTopicCreation, if_neg unpaid] at allowed
  dsimp only at allowed
  split at allowed
  · cases allowed
  · split at allowed
    · cases allowed
    · split at allowed
      · cases allowed
      · omega

/-- The admission of one caller is replaced. -/
theorem forall_update {P : Admission → Prop} (kept : ∀ caller, ∀ a ∈ s.admitted caller, P a) (caller : Nat) {now : Option Admission}
    (fits : ∀ a ∈ now, P a) : ∀ other, ∀ a ∈ Function.update s.admitted caller now other, P a :=
  (Function.forall_update_iff s.admitted fun _ v => ∀ a ∈ v, P a).mpr ⟨fits, fun other _ => kept other⟩

/-- A creation that goes through adds one row of the organization. -/
theorem rows_creation {config : TopicConfig} {now : Int} {count : BitVec 32} {m : Catalog}
    (created : s.creation ctx config now count = some m) (admitted : Nat → Option Admission) :
    ∃ r : TopicRow, rows ctx ⟨m, admitted⟩ = s.rows ctx ++ [r] ∧ r.partitionCount = count.toNat := by
  unfold creation Catalog.createTopicForOrg Catalog.insertTopic at created
  split_ifs at created
  obtain rfl := Option.some.inj created
  exact ⟨_, (filter_append _ _).trans (congrArg _ (filter_cons_of_pos (decide_eq_true rfl))), rfl⟩

theorem length_listTopicsForOrg (m : Catalog) (admitted : Nat → Option Admission) :
    (m.listTopicsForOrg ctx.organization.id).length = (rows ctx ⟨m, admitted⟩).length := by
  simp [Catalog.listTopicsForOrg, rows]

theorem compared_step (free : ctx.organization.plan = .free) (compared : s.Compared ctx) (a : TopicCall) :
    (s.step ctx a).Compared ctx := by
  cases a with
  | check caller count =>
    refine forall_update compared caller fun _ admitted => ?_
    split at admitted
    · next allowed =>
      cases admitted
      exact ⟨(compares free allowed).2, length_listTopicsForOrg s.catalog _⟩
    · cases admitted
  | create caller config now =>
    have others := forall_update compared caller fun a (no : a ∈ (none : Option Admission)) => nomatch no
    rw [step]
    cases goes : (s.admitted caller).bind fun a => s.creation ctx config now a.partitionCount with
    | none => exact others
    | some m =>
      -- what the others have been admitted with is one creation older
      obtain ⟨_, -, created⟩ := Option.bind_eq_some_iff.mp goes
      obtain ⟨_, added, -⟩ := rows_creation created fun other => (Function.update s.admitted caller none other).map Admission.next
      intro other a old
      obtain ⟨before, there, rfl⟩ := Option.map_eq_some_iff.mp old
      obtain ⟨limit, counted⟩ := others other before there
      refine ⟨limit, ?_⟩
      rw [added, length_append, length_singleton, ← counted]
      exact (Nat.add_assoc ..).symm

/-- **One call** leaves the limits kept exactly if it is a check, a creation that fails, or one for which they leave room. -/
theorem within_step_iff (word : ctx.quota.maxPartitionsPerTopic < 2 ^ 31) (compared : s.Compared ctx) (within : s.Within ctx)
    (a : TopicCall) : (s.step ctx a).Within ctx ↔ s.Leaves ctx a := by
  cases a with
  | check caller count => exact iff_of_true ⟨within.topics, within.each, within.all⟩ trivial
  | create caller config now =>
    rw [step]
    cases goes : (s.admitted caller).bind fun a => s.creation ctx config now a.partitionCount with
    | none =>
      refine iff_of_true ⟨within.topics, within.each, within.all⟩ fun a admitted created => ?_
      rw [admitted, Option.bind_some] at goes
      rw [goes] at created
      cases created
    | some m =>
      obtain ⟨a, isAdmitted, created⟩ := Option.bind_eq_some_iff.mp goes
      obtain ⟨r, added, counted⟩ := rows_creation created fun other => (Function.update s.admitted caller none other).map Admission.next
      obtain ⟨limit, topicsCounted⟩ := compared caller a isAdmitted
      have asInt := BitVec.toInt_eq_toNat_cond a.partitionCount
      have bound := a.partitionCount.isLt
      constructor
      · rintro ⟨topics, each, all⟩ _ admitted -
        cases isAdmitted.symm.trans admitted
        rw [added, length_append, length_singleton] at topics
        have own := each r (by rw [added]; exact mem_append_right _ mem_cons_self)
        rw [partitions, added, map_append, sum_append, map_singleton, sum_singleton, counted] at all
        rw [counted] at own
        exact ⟨by omega, by omega, by exact_mod_cast all⟩
      · intro leaves
        obtain ⟨place, fits, room⟩ := leaves a isAdmitted (by rw [created]; rfl)
        refine ⟨?_, fun row inside => ?_, ?_⟩
        · rw [added, length_append, length_singleton]
          omega
        · rw [added] at inside
          obtain old | new := mem_append.mp inside
          · exact within.each row old
          · rw [mem_singleton.mp new, counted]
            split at asInt <;> omega
        · rw [partitions, added, map_append, sum_append, map_singleton, sum_singleton, counted]
          exact_mod_cast room

theorem keeps (free : ctx.organization.plan = .free) (word : ctx.quota.maxPartitionsPerTopic < 2 ^ 31) (s : TopicCallers) (a : TopicCall)
    (inv : s.Compared ctx ∧ s.Within ctx) (leaves : s.Leaves ctx a) : (s.step ctx a).Compared ctx ∧ (s.step ctx a).Within ctx :=
  ⟨compared_step free inv.1 a, (within_step_iff word inv.1 inv.2 a).mpr leaves⟩

theorem compared_start (ctx : TenantContext) (m : Catalog) : Compared ctx ⟨m, fun _ => none⟩ := by rintro _ _ ⟨⟩

/-- **The quota of a free organization is kept in every state of a run exactly if** every creation that goes through has a place
that no creation since its check has taken, a count below 2 ^ 31, and room for its partitions. -/
theorem topicLimits_iff (free : ctx.organization.plan = .free) (word : ctx.quota.maxPartitionsPerTopic < 2 ^ 31) {m : Catalog}
    (start : Within ctx ⟨m, fun _ => none⟩) (as : List TopicCall) :
    (∀ before after, as = before ++ after → (run (step ctx) ⟨m, fun _ => none⟩ before).Within ctx) ↔
      Meets (step ctx) (Leaves ctx) ⟨m, fun _ => none⟩ as :=
  (meets_next_iff start as).symm.trans (meets_congr (fun s => s.Compared ctx ∧ s.Within ctx)
    (fun _ a inv => within_step_iff word inv.1 inv.2 a) (keeps free word) ⟨compared_start ctx m, start⟩ as)

/-- A caller that checks and then creates, with nothing in between. -/
def turn (t : Nat × BitVec 32 × TopicConfig × Int) : List TopicCall := [.check t.1 t.2.1, .create t.1 t.2.2.1 t.2.2.2]

/-- **Callers one after the other keep the quota**, whatever the counts and the topics they ask for, if their counts are below
2 ^ 31 and the quota has room for all partitions of as many topics. -/
theorem topicLimits_in_turn (free : ctx.organization.plan = .free) (words : ctx.quota.maxTopics < 2 ^ 31)
    (word : ctx.quota.maxPartitionsPerTopic < 2 ^ 31)
    (enough : ctx.quota.maxTopics * ctx.quota.maxPartitionsPerTopic ≤ ctx.quota.maxTotalPartitions) {m : Catalog}
    (start : Within ctx ⟨m, fun _ => none⟩) (turns : List (Nat × BitVec 32 × TopicConfig × Int))
    (small : ∀ t ∈ turns, t.2.1.toNat < 2 ^ 31) : (run (step ctx) ⟨m, fun _ => none⟩ (turns.flatMap turn)).Within ctx := by
  have inv := And.intro (compared_start ctx m) start
  generalize (⟨m, fun _ => none⟩ : TopicCallers) = s at inv ⊢
  induction turns generalizing s with
  | nil => exact inv.2
  | cons t turns ih =>
    rw [flatMap_cons, run_append]
    refine ih (fun u later => small u (mem_cons_of_mem t later)) _ (Meets.invariant (keeps free word) ⟨trivial, ?_, trivial⟩ inv)
    intro a admitted _
    replace admitted := (Function.update_self ..).symm.trans admitted
    split at admitted
    · next allowed =>
      cases admitted
      obtain ⟨place, fits⟩ := compares free allowed
      have listed : (s.catalog.listTopicsForOrg ctx.organization.id).length = (s.rows ctx).length :=
        length_listTopicsForOrg s.catalog s.admitted
      have few := inv.2.topics
      have count := small t mem_cons_self
      have each : (s.partitions ctx : Int) ≤ (s.rows ctx).length * ctx.quota.maxPartitionsPerTopic := by
        rw [partitions, Nat.cast_list_sum, map_map, ← nsmul_eq_mul, ← length_map]
        exact sum_le_card_nsmul _ _ (forall_mem_map.mpr inv.2.each)
      rw [listed, BitVec.toInt_ofNat', Int.bmod_eq_of_le (by omega) (by omega)] at place
      rw [BitVec.toInt_eq_toNat_of_lt (by omega)] at fits
      refine ⟨?_, count, ?_⟩
      · rw [listed]
        exact (Int.add_zero _).trans_lt place
      have room := mul_le_mul_of_nonneg_right (Int.add_one_le_iff.mpr place) ((Int.natCast_nonneg _).trans fits)
      rw [Int.add_mul, Int.one_mul] at room
      exact (Int.add_le_add each fits).trans (room.trans enough)
    · cases admitted

end TopicCallers

namespace Example

/-- A free organization with room for one topic. -/
def oneTopic : TenantContext where
  organization := ⟨"acme", "Acme", "acme", .free, .active, 0, [], none, .selfHosted⟩
  quota := { OrganizationQuota.default with maxTopics := 1 }

def acmeStore : Catalog := { Catalog.empty with organizations := [oneTopic.organization] }

def topicNamed (name : String) : TopicConfig := ⟨name, 1, none, .delete, []⟩

end Example

namespace TopicCallers
open Quota.Example

theorem within_acmeStore : Within oneTopic ⟨acmeStore, fun _ => none⟩ := ⟨by decide, by rintro _ ⟨⟩, by decide⟩

theorem topicLimits_of_one : (run (step oneTopic) ⟨acmeStore, fun _ => none⟩
    [.check 0 3, .create 0 (topicNamed "orders") 0, .check 0 3]).Within oneTopic :=
  (topicLimits_iff rfl (by decide) within_acmeStore _).mpr (by decide +kernel) _ [] rfl

theorem topicLimits_in_turn_of_two : (run (step oneTopic) ⟨acmeStore, fun _ => none⟩
    ([(0, 3, topicNamed "orders", 0), (1, 1, topicNamed "users", 0)].flatMap turn)).Within oneTopic :=
  topicLimits_in_turn rfl (by decide) (by decide) (by decide) within_acmeStore _ (by decide)

/-- Two callers are admitted before either creates its topic. -/
theorem topicLimits_fail : ¬ ∀ (as before after : List TopicCall), as = before ++ after →
    (run (step oneTopic) ⟨acmeStore, fun _ => none⟩ before).Within oneTopic := by
  intro all
  have within := all _ [.check 0 1, .check 1 1, .create 0 (topicNamed "orders") 0, .create 1 (topicNamed "users") 0] [] rfl
  exact absurd within.topics (by decide +kernel)

end TopicCallers

end StreamHouse.Metadata.Quota
