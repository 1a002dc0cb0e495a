import StreamHouse.Lib.Run
import StreamHouse.Metadata.QuotaAccounts

/-!
# What the rate limits admit

Over all runs of an enforcer: whether a call that is denied has been charged, and whether the account of every
bucket is within its limits. A call that the key's limit denies has been charged to the organization
by then, and a bucket may be given more than its limits allow in several ways, which `Meets` leaves out.
-/

namespace StreamHouse.Metadata.Quota
open Lib Account Option QuotaEnforcer RateKind Event

def Event.taken (id : BucketId) : Event → Nat
  | take bucket _ tokens => if bucket = id then tokens else 0
  | pass _ | rate _ _ => 0

variable {id : BucketId}

theorem RateKind.mem_all (kind : RateKind) : kind ∈ all := by
  cases kind <;> decide

namespace QuotaEnforcer

def account (e : QuotaEnforcer) (id : BucketId) : List Entry := e.journal.filterMap (entry id)

/-- The tokens that have been taken from a bucket. -/
def tokensTaken (e : QuotaEnforcer) (id : BucketId) : Nat := (e.journal.map (taken id)).sum

/-- The bucket, as it will be refilled, has the amount. -/
def Affords (e : QuotaEnforcer) (id : BucketId) (amount : Int) : Prop :=
  0 < amount → ∀ b ∈ e.bucket id, scaled amount ≤ (b.refill e.clock).tokens

instance (e : QuotaEnforcer) (id : BucketId) (amount : Int) : Decidable (e.Affords id amount) := inferInstanceAs (Decidable (_ → _))

/-- An amount that can be counted in thousandths, from a bucket that is not over its burst. -/
def TakesWithin (e : QuotaEnforcer) (id : BucketId) (amount : Int) : Prop :=
  0 < amount → e.Affords id amount →
    amount * 1000 < 2 ^ 64 ∧ ∀ b ∈ e.bucket id, (b.refill e.clock).uncapped e.clock ≤ 1000000 * b.burst

instance (e : QuotaEnforcer) (id : BucketId) (amount : Int) : Decidable (e.TakesWithin id amount) := inferInstanceAs (Decidable (_ → _))

/-- A limiter that is made now has a rate that may be. -/
def MakesWithin (e : QuotaEnforcer) (bucket : RateKind → BucketId) (rate : RateKind → Option Int) : Prop :=
  ∀ kind ∈ all, ∀ r ∈ rate kind, Grants e.clock (e.account (bucket kind)) none (.new r e.clock)

instance (e : QuotaEnforcer) (bucket : RateKind → BucketId) (rate : RateKind → Option Int) : Decidable (e.MakesWithin bucket rate) :=
  inferInstanceAs (Decidable (∀ _ ∈ _, _))

/-- The state in which the organization's tokens are taken. -/
def openOrg (e : QuotaEnforcer) (ctx : TenantContext) (readings : Readings) : QuotaEnforcer :=
  ((e.getOrCreateLimiter ctx readings.orgLimiters readings.nowSecs).touch ctx.organization.id readings.nowSecs).elapse
    readings.orgAcquire

def openKey (e : QuotaEnforcer) (orgId : String) (key : ApiKey) (readings : Readings) : QuotaEnforcer :=
  (e.ensureKeyLimiter orgId key readings.keyLimiters).elapse readings.keyAcquire

/-- The key has what the organization has given. -/
def KeyMeets (e : QuotaEnforcer) (kind : RateKind) (orgId : String) (amount : Int) (apiKey : Option ApiKey) (readings : Readings) : Prop :=
  ∀ key ∈ apiKey, (kind.ofKey key).isSome →
    (e.keyLimiters (orgId, key.id) = none → e.MakesWithin (⟨orgId, some key.id, ·⟩) (·.ofKey key)) ∧
      (e.openKey orgId key readings).TakesWithin ⟨orgId, some key.id, kind⟩ amount ∧
      (e.openKey orgId key readings).Affords ⟨orgId, some key.id, kind⟩ amount

def CheckMeets (e : QuotaEnforcer) (kind : RateKind) (ctx : TenantContext) (amount : Int) (apiKey : Option ApiKey)
    (readings : Readings) : Prop :=
  ctx.organization.status = .active → isPaying ctx = false →
    (e.rateLimiters ctx.organization.id = none →
        e.MakesWithin (⟨ctx.organization.id, none, ·⟩) fun kind => some (kind.ofQuota ctx.quota)) ∧
      (e.openOrg ctx readings).TakesWithin ⟨ctx.organization.id, none, kind⟩ amount ∧
      ((e.openOrg ctx readings).Affords ⟨ctx.organization.id, none, kind⟩ amount →
        ((e.openOrg ctx readings).tryAcquire ⟨ctx.organization.id, none, kind⟩ amount).2.KeyMeets kind ctx.organization.id amount
          apiKey readings)

/-- A refresh puts rates in force that may be. -/
def RefreshMeets (e : QuotaEnforcer) (orgId : String) (quota : Option OrganizationQuota) : Prop :=
  ∀ newQuota ∈ quota, ∀ s ∈ e.rateLimiters orgId, ∀ kind ∈ all,
    Grants e.clock (e.account ⟨orgId, none, kind⟩) (some (s.limiter kind)) ((s.limiter kind).updateRate (kind.ofQuota newQuota))

/-- What is evicted is full. -/
def EvictMeets (e : QuotaEnforcer) : Prop :=
  ∀ id : BucketId, id.orgId ∈ e.toEvict → ∀ b ∈ e.bucket id, b.Full e.clock

/-- A call that goes well: its amount can be counted and the key, too, has what the organization gives; no bucket that
gives is over its burst; a rate that comes into force brings no more credit, or is the first to be so high; and
what is evicted has filled up. -/
def Good (e : QuotaEnforcer) : Call → Prop
  | .checkProduce ctx bytes apiKey readings => e.CheckMeets .produce ctx bytes apiKey readings
  | .checkConsume ctx bytes apiKey readings => e.CheckMeets .consume ctx bytes apiKey readings
  | .checkRequest ctx apiKey readings => e.CheckMeets .request ctx 1 apiKey readings
  | .elapse _ => True
  | .refresh orgId nowSecs quota =>
    nowSecs - (e.rateLimiters orgId).elim 0 (·.lastActivity) ≤ 300 → e.RefreshMeets orgId quota
  | .evict => e.EvictMeets

/-- Every bucket agrees with its account. -/
def Kept (e : QuotaEnforcer) : Prop := ∀ id, Accounted e.clock (e.account id) (e.bucket id)

theorem Kept.new : QuotaEnforcer.new.Kept := by
  intro id
  have none_yet : QuotaEnforcer.new.bucket id = none := by
    unfold bucket
    cases id.keyId <;> rfl
  rw [none_yet]
  exact .start 0

variable {e : QuotaEnforcer}

@[simp] theorem bucket_elapse (time : Nat) (id : BucketId) : (e.elapse time).bucket id = e.bucket id := rfl

@[simp] theorem account_elapse (time : Nat) (id : BucketId) : (e.elapse time).account id = e.account id ++ [.pass time] := by
  simp [account, elapse, entry]

theorem Kept.elapse (kept : e.Kept) (time : Nat) : (e.elapse time).Kept := by
  intro id
  rw [account_elapse, bucket_elapse]
  exact (kept id).pass time

theorem bucket_touch (orgId : String) (nowSecs : Nat) (id : BucketId) : (e.touch orgId nowSecs).bucket id = e.bucket id := by
  unfold bucket touch
  cases id.keyId with
  | some keyId => rfl
  | none =>
    by_cases same : id.orgId = orgId
    · simp [same]
      rfl
    · simp [same]

theorem Kept.touch (kept : e.Kept) (orgId : String) (nowSecs : Nat) : (e.touch orgId nowSecs).Kept := by
  intro id
  rw [bucket_touch]
  exact kept id

/-- A bucket that is there is the only one that is changed. -/
theorem bucket_setBucket (there : (e.bucket id).isSome) (id' : BucketId) (b : TokenBucket) :
    (e.setBucket id b).bucket id' = if id' = id then some b else e.bucket id' := by
  obtain ⟨orgId, keyId, kind⟩ := id
  obtain ⟨orgId', keyId', kind'⟩ := id'
  cases keyId with
  | none =>
    obtain ⟨s, known⟩ : ∃ s, e.rateLimiters orgId = some s := isSome_iff_exists.mp (by simpa [bucket] using there)
    cases keyId' with
    | some keyId' => simp [bucket, setBucket]
    | none =>
      by_cases org : orgId' = orgId
      · by_cases same : kind' = kind <;> simp [bucket, setBucket, org, same, known]
      · simp [bucket, setBucket, org]
  | some keyId =>
    obtain ⟨s, known⟩ : ∃ s, e.keyLimiters (orgId, keyId) = some s := by
      apply isSome_iff_exists.mp
      cases known : e.keyLimiters (orgId, keyId) with
      | none => simp [bucket, known] at there
      | some s => rfl
    cases keyId' with
    | none => simp [bucket, setBucket]
    | some keyId' =>
      by_cases key : orgId' = orgId ∧ keyId' = keyId
      · by_cases same : kind' = kind <;> simp [bucket, setBucket, key.1, key.2, same, known]
      · simp [bucket, setBucket, key, ← and_assoc]

end QuotaEnforcer

/-- What the making of a limiter is in the account of `id`. -/
def limitsOf (id bucket : BucketId) (rate : Option Int) : List Entry :=
  if bucket = id then rate.toList.map fun r => .limit ⟨r, I64.wrap (r * 2)⟩ else []

theorem filterMap_entry_made (id : BucketId) (bucket : RateKind → BucketId) (rate : RateKind → Option Int) (later : RateKind → Nat) :
    (made bucket rate later).filterMap (entry id) =
      [.pass (later .produce)] ++ limitsOf id (bucket .produce) (rate .produce) ++ [.pass (later .consume)] ++
        limitsOf id (bucket .consume) (rate .consume) ++ [.pass (later .request)] ++ limitsOf id (bucket .request) (rate .request) := by
  have one (kind : RateKind) :
      ((rate kind).toList.map fun r => Event.rate (bucket kind) ⟨r, I64.wrap (r * 2)⟩).filterMap (Event.entry id) =
        limitsOf id (bucket kind) (rate kind) := by
    unfold limitsOf
    cases rate kind with
    | none => simp
    | some r => by_cases same : bucket kind = id <;> simp [Event.entry, same]
  simp [made, all, one, Event.entry]

/-- Rates that are put in force for three limiters, in the account of one of them. -/
theorem filterMap_entry_rates (orgId : String) (keyId : Option String) (kind : RateKind) (limit : RateKind → Limit) :
    (all.map fun kind => rate ⟨orgId, keyId, kind⟩ (limit kind)).filterMap (entry ⟨orgId, keyId, kind⟩) =
      [.limit (limit kind)] := by
  cases kind <;> simp [all, entry]

theorem filterMap_entry_rates_of_ne {bucket : RateKind → BucketId} (other : ∀ kind, bucket kind ≠ id)
    (limit : RateKind → Limit) : (all.map fun kind => rate (bucket kind) (limit kind)).filterMap (entry id) = [] := by
  simp [all, entry, other]

variable {entries : List Entry} {kind : RateKind} {orgId : String} {ctx : TenantContext} {amount : Int}
    {apiKey : Option ApiKey} {readings : Readings}

/-- A limiter that is made, or is not, because there is no rate for it. -/
theorem Accounted.limitsOf {now : Nat} {rate : Option Int} (accounted : Accounted now entries none)
    (grants : ∀ r ∈ rate, Grants now entries none (.new r now)) (id : BucketId) :
    Accounted now (entries ++ Quota.limitsOf id id rate) (rate.map fun r => .new r now) := by
  rw [Quota.limitsOf, if_pos rfl]
  cases rate with
  | none => simpa using accounted
  | some r => exact accounted.new (grants r rfl)

theorem limitsOf_of_ne {id bucket : BucketId} (other : bucket ≠ id) (rate : Option Int) : limitsOf id bucket rate = [] := if_neg other

/-- Limiters that are made one after the other, in the account of one of them. -/
theorem Accounted.made {now : Nat} (accounted : Accounted now entries none)
    (rate : RateKind → Option Int) (grants : ∀ r ∈ rate kind, Grants now entries none (.new r now))
    (orgId : String) (keyId : Option String) (later : RateKind → Nat) :
    Accounted (instants now later .request)
      (entries ++ (made (⟨orgId, keyId, ·⟩) rate later).filterMap (entry ⟨orgId, keyId, kind⟩))
      ((rate kind).map fun r => .new r (instants now later kind)) := by
  rw [filterMap_entry_made]
  have first := accounted.pass (later .produce)
  have grants₁ := fun r is => (grants r is).pass (later .produce)
  cases kind with
  | produce =>
    have made := ((first.limitsOf grants₁ ⟨orgId, keyId, .produce⟩).pass (later .consume)).pass (later .request)
    simpa [limitsOf_of_ne, instants] using made
  | consume =>
    have second := first.pass (later .consume)
    have made := (second.limitsOf (fun r is => (grants₁ r is).pass (later .consume)) ⟨orgId, keyId, .consume⟩).pass (later .request)
    simpa [limitsOf_of_ne, instants] using made
  | request =>
    have third := (first.pass (later .consume)).pass (later .request)
    have made := third.limitsOf (fun r is => ((grants₁ r is).pass (later .consume)).pass (later .request)) ⟨orgId, keyId, .request⟩
    simpa [limitsOf_of_ne, instants] using made

/-- In any other account only time has passed. -/
theorem Accounted.made_of_ne {now : Nat} {made : RateKind → BucketId} {bucket : Option TokenBucket}
    (accounted : Accounted now entries bucket) (other : ∀ kind, made kind ≠ id) (rate : RateKind → Option Int) (later : RateKind → Nat) :
    Accounted (instants now later .request) (entries ++ (QuotaEnforcer.made made rate later).filterMap (entry id))
      bucket := by
  rw [filterMap_entry_made]
  have passed := ((accounted.pass (later .produce)).pass (later .consume)).pass (later .request)
  simpa [limitsOf_of_ne, other, instants] using passed

namespace QuotaEnforcer

variable {e : QuotaEnforcer}

/-- **A state is made**: its limiters are new, and the others have seen time pass. -/
theorem Kept.made {after : QuotaEnforcer} {keyId : Option String} {rate : RateKind → Option Int} {later : RateKind → Nat}
    (kept : e.Kept) (makes : e.MakesWithin (⟨orgId, keyId, ·⟩) rate) (absent : ∀ kind, e.bucket ⟨orgId, keyId, kind⟩ = none)
    (clock : after.clock = instants e.clock later .request)
    (journal : after.journal = e.journal ++ made (⟨orgId, keyId, ·⟩) rate later)
    (new : ∀ kind, after.bucket ⟨orgId, keyId, kind⟩ = (rate kind).map fun r => .new r (instants e.clock later kind))
    (others : ∀ id : BucketId, ¬ (id.orgId = orgId ∧ id.keyId = keyId) → after.bucket id = e.bucket id) : after.Kept := by
  rintro ⟨orgId', keyId', kind⟩
  have accounted := kept ⟨orgId', keyId', kind⟩
  rw [account, clock, journal, List.filterMap_append]
  by_cases mine : orgId' = orgId ∧ keyId' = keyId
  · obtain ⟨rfl, rfl⟩ := mine
    rw [absent] at accounted
    rw [new]
    exact accounted.made rate (makes kind kind.mem_all) orgId' keyId' later
  · rw [others _ mine]
    apply accounted.made_of_ne
    intro kind' same
    obtain ⟨rfl, rfl, -⟩ := BucketId.mk.inj same
    exact mine ⟨rfl, rfl⟩

theorem Kept.getOrCreateLimiter (kept : e.Kept) (makes : e.rateLimiters ctx.organization.id = none →
      e.MakesWithin (⟨ctx.organization.id, none, ·⟩) fun kind => some (kind.ofQuota ctx.quota))
    (later : RateKind → Nat) (nowSecs : Nat) : (e.getOrCreateLimiter ctx later nowSecs).Kept := by
  unfold QuotaEnforcer.getOrCreateLimiter
  split_ifs with known
  · exact kept
  · rw [isSome_iff_ne_none, not_not] at known
    apply kept.made (makes known) (fun kind => by simp [bucket, known]) rfl rfl
    · intro kind
      simp [bucket, OrgRateLimitState.new]
    · rintro ⟨orgId, keyId, kind⟩ other
      cases keyId with
      | none =>
        have apart : orgId ≠ ctx.organization.id := fun same => other ⟨same, rfl⟩
        simp [bucket, Function.update_of_ne apart]
      | some keyId => rfl

theorem Kept.ensureKeyLimiter {key : ApiKey} (kept : e.Kept)
    (makes : e.keyLimiters (orgId, key.id) = none → e.MakesWithin (⟨orgId, some key.id, ·⟩) (·.ofKey key))
    (later : RateKind → Nat) : (e.ensureKeyLimiter orgId key later).Kept := by
  unfold QuotaEnforcer.ensureKeyLimiter
  split_ifs with known
  · exact kept
  rw [isSome_iff_ne_none, not_not] at known
  unfold KeyRateLimitState.fromApiKey
  split_ifs with limited
  · apply kept.made (makes known) (fun kind => by simp [bucket, known]) rfl rfl
    · intro kind
      simp [bucket]
    · rintro ⟨orgId', keyId, kind⟩ other
      cases keyId with
      | none => rfl
      | some keyId =>
        have apart : (orgId', keyId) ≠ (orgId, key.id) :=
          fun same => other ((Prod.mk.inj same).imp id (congrArg some))
        simp [bucket, Function.update_of_ne apart]
  · exact kept

@[simp] theorem account_setBucket (id : BucketId) (b : TokenBucket) (id' : BucketId) :
    (e.setBucket id b).account id' = e.account id' := by
  unfold setBucket
  cases id.keyId <;> rfl

@[simp] theorem clock_setBucket (id : BucketId) (b : TokenBucket) : (e.setBucket id b).clock = e.clock := by
  unfold setBucket
  cases id.keyId <;> rfl

@[simp] theorem journal_setBucket (id : BucketId) (b : TokenBucket) : (e.setBucket id b).journal = e.journal := by
  unfold setBucket
  cases id.keyId <;> rfl

theorem Kept.setBucket {b b' : TokenBucket} (kept : e.Kept) (there : e.bucket id = some b)
    (accounted : Accounted e.clock (e.account id) (some b')) : (e.setBucket id b').Kept := by
  intro id'
  rw [account_setBucket, clock_setBucket, bucket_setBucket (by rw [there]; rfl)]
  split_ifs with same
  · rw [same]
    exact accounted
  · exact kept id'

theorem Kept.refill {b : TokenBucket} (kept : e.Kept) (there : e.bucket id = some b) :
    (e.setBucket id (b.refill e.clock)).Kept :=
  kept.setBucket there (there ▸ kept id).refill

theorem tryAcquire_of_none (absent : e.bucket id = none) : e.tryAcquire id amount = (true, e) := by
  rw [tryAcquire, absent]

/-- **An acquisition**: of nothing, of more than there is, or of an amount that is taken. -/
theorem tryAcquire_of_some {b : TokenBucket} (there : e.bucket id = some b) (amount : Int) :
    (amount ≤ 0 ∧ e.tryAcquire id amount = (true, e.setBucket id b)) ∨
      (0 < amount ∧ (b.refill e.clock).tokens < scaled amount ∧
        e.tryAcquire id amount = (false, e.setBucket id (b.refill e.clock))) ∨
      (0 < amount ∧ scaled amount ≤ (b.refill e.clock).tokens ∧
        e.tryAcquire id amount = (true, { e.setBucket id { b.refill e.clock with tokens := (b.refill e.clock).tokens - scaled amount } with
          journal := e.journal ++ [.take id amount (scaled amount)] })) := by
  simp only [tryAcquire, there, TokenBucket.tryAcquire]
  rcases lt_or_ge 0 amount with positive | nothing
  · rw [if_neg (by omega)]
    rcases Nat.lt_or_ge (b.refill e.clock).tokens (scaled amount) with short | enough
    · rw [if_pos short]
      exact .inr (.inl ⟨positive, short, by simp⟩)
    · rw [if_neg (by omega)]
      exact .inr (.inr ⟨positive, enough, by simp [positive]⟩)
  · rw [if_pos nothing]
    exact .inl ⟨nothing, by simp [Int.not_lt.mpr nothing]⟩

theorem Kept.tryAcquire (kept : e.Kept) (within : e.TakesWithin id amount) :
    (e.tryAcquire id amount).2.Kept := by
  cases there : e.bucket id with
  | none =>
    rw [tryAcquire_of_none there]
    exact kept
  | some b =>
    have accounted := kept id
    rw [there] at accounted
    rcases tryAcquire_of_some there amount with ⟨-, same⟩ | ⟨-, -, refilled⟩ | ⟨positive, enough, taken⟩
    · rw [same]
      exact kept.setBucket there accounted
    · rw [refilled]
      exact kept.setBucket there accounted.refill
    · obtain ⟨fits, within⟩ := within positive fun _ b' is => some.inj (there.symm.trans is) ▸ enough
      rw [taken]
      intro id'
      have after : (e.setBucket id { b.refill e.clock with tokens := (b.refill e.clock).tokens - scaled amount }).bucket id' = _ :=
        bucket_setBucket (by rw [there]; rfl) id' _
      change Accounted (e.setBucket id _).clock ((e.journal ++ _).filterMap _) ((e.setBucket id _).bucket id')
      rw [after, clock_setBucket, List.filterMap_append]
      by_cases same : id' = id
      · rw [if_pos same, same]
        simpa [entry, account] using accounted.refill.take positive fits enough (by simpa using within b there)
      · rw [if_neg same]
        simpa [entry, Ne.symm same, account] using kept id'

theorem Kept.refresh {nowSecs : Nat} {quota : Option OrganizationQuota} (kept : e.Kept)
    (meets : nowSecs - (e.rateLimiters orgId).elim 0 (·.lastActivity) ≤ 300 → e.RefreshMeets orgId quota) :
    (e.refresh orgId nowSecs quota).Kept := by
  unfold QuotaEnforcer.refresh
  split_ifs with idle
  · exact kept
  cases quota with
  | none => exact kept
  | some quota =>
    cases known : e.rateLimiters orgId with
    | none => exact kept
    | some s =>
      have grants := meets (Nat.not_lt.mp idle) quota rfl s known
      rintro ⟨orgId', keyId, kind⟩
      have accounted := kept ⟨orgId', keyId, kind⟩
      rw [account, List.filterMap_append]
      by_cases mine : orgId' = orgId ∧ keyId = none
      · obtain ⟨rfl, rfl⟩ := mine
        rw [filterMap_entry_rates]
        have there : e.bucket ⟨orgId', none, kind⟩ = some (s.limiter kind) := by simp [bucket, known]
        have updated := (there ▸ accounted).updateRate (grants kind kind.mem_all)
        simpa [bucket, account, OrgRateLimitState.updateRates] using updated
      · rw [filterMap_entry_rates_of_ne fun kind' same => mine ⟨(BucketId.mk.inj same).1.symm, (BucketId.mk.inj same).2.1.symm⟩,
          List.append_nil]
        cases keyId with
        | none =>
          have apart : orgId' ≠ orgId := fun same => mine ⟨same, rfl⟩
          simpa [bucket, account, Function.update_of_ne apart] using accounted
        | some keyId => exact accounted

theorem Kept.evict (kept : e.Kept) (meets : e.EvictMeets) : e.evict.Kept := by
  intro id
  have accounted := kept id
  by_cases evicted : id.orgId ∈ e.toEvict
  · have gone : e.evict.bucket id = none := by
      unfold bucket QuotaEnforcer.evict
      cases id.keyId <;> simp [evicted]
    rw [gone]
    cases there : e.bucket id with
    | none => exact there ▸ accounted
    | some b => exact (there ▸ accounted).evict (meets id evicted b there)
  · have stays : e.evict.bucket id = e.bucket id := by
      unfold bucket QuotaEnforcer.evict
      cases id.keyId <;> simp [evicted]
    rw [stays]
    exact accounted

theorem tryAcquire_fst (id : BucketId) (amount : Int) : (e.tryAcquire id amount).1 = true ↔ e.Affords id amount := by
  cases there : e.bucket id with
  | none => simp [tryAcquire_of_none there, Affords, there]
  | some b =>
    rcases tryAcquire_of_some there amount with ⟨nothing, same⟩ | ⟨positive, short, refilled⟩ | ⟨positive, enough, taken⟩
    · rw [same]
      exact iff_of_true rfl fun positive => absurd nothing (by omega)
    · rw [refilled]
      refine iff_of_false Bool.false_ne_true fun affords => ?_
      have enough := affords positive b there
      omega
    · rw [taken]
      exact iff_of_true rfl fun _ b' is => some.inj (there.symm.trans is) ▸ enough

theorem Kept.openOrg (kept : e.Kept) (makes : e.rateLimiters ctx.organization.id = none →
      e.MakesWithin (⟨ctx.organization.id, none, ·⟩) fun kind => some (kind.ofQuota ctx.quota))
    (readings : Readings) : (e.openOrg ctx readings).Kept :=
  ((kept.getOrCreateLimiter makes readings.orgLimiters readings.nowSecs).touch _ _).elapse _

theorem Kept.checkKey (kept : e.Kept) (meets : e.KeyMeets kind orgId amount apiKey readings) :
    (e.checkKey kind orgId amount apiKey readings).1 = none ∧ (e.checkKey kind orgId amount apiKey readings).2.Kept := by
  unfold QuotaEnforcer.checkKey
  cases apiKey with
  | none => exact ⟨rfl, kept⟩
  | some key =>
    cases limited : kind.ofKey key with
    | none =>
      simp only [limited]
      exact ⟨trivial, kept⟩
    | some limit =>
      simp only [limited]
      obtain ⟨makes, within, affords⟩ := meets key rfl (by rw [limited]; rfl)
      have opened : (e.openKey orgId key readings).Kept := (kept.ensureKeyLimiter makes readings.keyLimiters).elapse _
      exact ⟨if_pos ((tryAcquire_fst _ _).mpr affords), opened.tryAcquire within⟩

/-- The organization's limit denies, or neither does. -/
theorem Kept.checkLimits (kept : e.Kept) (active : ctx.organization.status = .active) (free : isPaying ctx = false)
    (meets : e.CheckMeets kind ctx amount apiKey readings) :
    (e.checkLimits kind ctx amount apiKey readings).2.Kept ∧
      ((e.checkLimits kind ctx amount apiKey readings).1 = none ∨
        (e.checkLimits kind ctx amount apiKey readings).2 =
          ((e.openOrg ctx readings).tryAcquire ⟨ctx.organization.id, none, kind⟩ amount).2 ∧
        ((e.openOrg ctx readings).tryAcquire ⟨ctx.organization.id, none, kind⟩ amount).1 = false) := by
  obtain ⟨makes, within, key⟩ := meets active free
  have charged := (kept.openOrg makes readings).tryAcquire within
  have org : e.checkOrg kind ctx amount readings =
      (if ((e.openOrg ctx readings).tryAcquire ⟨ctx.organization.id, none, kind⟩ amount).1 then none
        else some (kind.exceeded (kind.ofQuota ctx.quota)),
      ((e.openOrg ctx readings).tryAcquire ⟨ctx.organization.id, none, kind⟩ amount).2) := rfl
  rw [QuotaEnforcer.checkLimits, org]
  cases admits : ((e.openOrg ctx readings).tryAcquire ⟨ctx.organization.id, none, kind⟩ amount).1 with
  | false => exact ⟨charged, .inr ⟨rfl, rfl⟩⟩
  | true =>
    have given := charged.checkKey (key ((tryAcquire_fst _ _).mp admits))
    exact ⟨given.2, .inl given.1⟩

theorem Kept.warn (kept : e.Kept) (kind : RateKind) (orgId : String) (readings : Readings) : (e.warn kind orgId readings).2.Kept := by
  unfold QuotaEnforcer.warn
  have passed := kept.elapse readings.usage
  cases there : (e.elapse readings.usage).bucket ⟨orgId, none, kind⟩ with
  | none =>
    simp only [there]
    exact passed
  | some b =>
    simp only [there]
    exact passed.refill there

theorem warn_not_denied (kind : RateKind) (orgId : String) (readings : Readings) (reason : String) :
    (e.warn kind orgId readings).1 ≠ .denied reason := by
  unfold warn
  cases there : (e.elapse readings.usage).bucket ⟨orgId, none, kind⟩ with
  | none =>
    simp only [there]
    exact QuotaCheck.noConfusion
  | some b =>
    simp only [there]
    split_ifs
    · exact QuotaCheck.noConfusion
    · exact QuotaCheck.noConfusion

theorem tokensTaken_openOrg (ctx : TenantContext) (readings : Readings) (id : BucketId) :
    (e.openOrg ctx readings).tokensTaken id = e.tokensTaken id := by
  have made (bucket : RateKind → BucketId) (rate : RateKind → Option Int) (later : RateKind → Nat) :
      ((made bucket rate later).map (Event.taken id)).sum = 0 := by
    have one (kind : RateKind) :
        (((rate kind).toList.map fun r => Event.rate (bucket kind) ⟨r, I64.wrap (r * 2)⟩).map (Event.taken id)).sum = 0 := by
      cases rate kind <;> rfl
    simp only [List.map_map] at one
    simp [made, all, one, taken]
  unfold openOrg getOrCreateLimiter
  split_ifs
  · simp [tokensTaken, elapse, touch, taken]
  · simp [tokensTaken, elapse, touch, taken, made]

theorem tokensTaken_of_denied (denied : (e.tryAcquire id amount).1 = false) (id' : BucketId) :
    (e.tryAcquire id amount).2.tokensTaken id' = e.tokensTaken id' := by
  cases there : e.bucket id with
  | none =>
    rw [tryAcquire_of_none there] at denied
    exact absurd denied Bool.noConfusion
  | some b =>
    rcases tryAcquire_of_some there amount with ⟨-, same⟩ | ⟨-, -, refilled⟩ | ⟨-, -, taken⟩
    · rw [same] at denied
      exact absurd denied Bool.noConfusion
    · rw [refilled, tokensTaken, journal_setBucket]
      rfl
    · rw [taken] at denied
      exact absurd denied Bool.noConfusion

/-- **A check that goes well**: the accounts are kept, and if it denies, nothing has been taken. -/
theorem Kept.check (kept : e.Kept) (meets : e.CheckMeets kind ctx amount apiKey readings) (allow : QuotaEnforcer → QuotaCheck × QuotaEnforcer)
    (keeps : ∀ e : QuotaEnforcer, e.Kept → (allow e).2.Kept) (allows : ∀ e reason, (allow e).1 ≠ .denied reason) :
    (e.check kind ctx amount apiKey readings allow).2.Kept ∧
      ∀ reason, (e.check kind ctx amount apiKey readings allow).1 = .denied reason →
        ∀ id, (e.check kind ctx amount apiKey readings allow).2.tokensTaken id = e.tokensTaken id := by
  unfold QuotaEnforcer.check
  split_ifs with inactive paying
  · exact ⟨kept, fun _ _ _ => rfl⟩
  · exact ⟨kept, fun _ _ _ => rfl⟩
  · have limits := kept.checkLimits (not_not.mp inactive) (Bool.eq_false_iff.mpr paying) meets
    cases given : e.checkLimits kind ctx amount apiKey readings with
    | mk denial after =>
      rw [given] at limits
      obtain ⟨after_kept, admitted | ⟨same, denied⟩⟩ := limits
      · obtain rfl : denial = none := admitted
        exact ⟨keeps after after_kept, fun reason is => absurd is (allows after reason)⟩
      · cases denial with
        | none => exact ⟨keeps after after_kept, fun reason is => absurd is (allows after reason)⟩
        | some reason =>
          refine ⟨after_kept, fun _ _ id => ?_⟩
          rw [same, tokensTaken_of_denied denied, tokensTaken_openOrg]

/-- **One call that goes well.** -/
theorem Kept.perform (kept : e.Kept) {call : Call} (good : e.Good call) :
    (e.step call).Kept ∧ ∀ reason, (e.perform call).1 = some (.denied reason) → ∀ id, (e.step call).tokensTaken id = e.tokensTaken id := by
  cases call with
  | checkProduce ctx bytes apiKey readings =>
    have well := kept.check good (fun e => e.warn .produce ctx.organization.id readings) (fun e kept => kept.warn .produce ctx.organization.id readings)
      fun e reason => warn_not_denied .produce ctx.organization.id readings reason
    exact ⟨well.1, fun reason is => well.2 reason (some.inj is)⟩
  | checkConsume ctx bytes apiKey readings =>
    have well := kept.check good (fun e => e.warn .consume ctx.organization.id readings) (fun e kept => kept.warn .consume ctx.organization.id readings)
      fun e reason => warn_not_denied .consume ctx.organization.id readings reason
    exact ⟨well.1, fun reason is => well.2 reason (some.inj is)⟩
  | checkRequest ctx apiKey readings =>
    have well := kept.check good (fun e => (.allowed, e)) (fun e kept => kept) fun e reason => QuotaCheck.noConfusion
    exact ⟨well.1, fun reason is => well.2 reason (some.inj is)⟩
  | elapse time => exact ⟨kept.elapse time, fun _ is => by cases is⟩
  | refresh orgId nowSecs quota => exact ⟨kept.refresh good, fun _ is => by cases is⟩
  | evict => exact ⟨kept.evict good, fun _ is => by cases is⟩

end QuotaEnforcer

/-- Wherever a run is cut, a call that is denied takes nothing from any bucket. -/
def Uncharged (calls : List Call) : Prop :=
  ∀ before call after, calls = before ++ call :: after → ∀ reason,
    ((run step .new before).perform call).1 = some (.denied reason) →
      ∀ id, ((run step .new before).step call).tokensTaken id = (run step .new before).tokensTaken id

/-- Whatever part of a run is looked at, every bucket has admitted no more in it than its limits allow. -/
def WithinLimits (calls : List Call) : Prop :=
  ∀ id, Within 1000000 ((run step .new calls).account id)

open QuotaEnforcer in
/-- **Denied calls are not charged, and buckets stay within their limits**, where every call goes well. -/
theorem limits_of_meets (calls : List Call) (meets : Meets step Good new calls) :
    Uncharged calls ∧ WithinLimits calls := by
  have kept : ∀ {calls}, Meets step Good new calls → (run step .new calls).Kept := fun meets =>
    meets.invariant (fun e call kept good => (kept.perform good).1) Kept.new
  constructor
  · intro before call after cut reason denied id
    rw [cut, meets_append] at meets
    exact ((kept meets.1).perform meets.2.1).2 reason denied id
  · intro id
    exact (kept meets id).kept.within

/-- An active organization of the free plan. -/
def freeOrg (quota : OrganizationQuota) : TenantContext where
  organization := ⟨"org", "Org", "org", .free, .active, 0, [], none, .managed⟩
  quota := quota

/-- No time passes between the readings. -/
def atOnce : Readings := ⟨fun _ => 0, 0, 0, fun _ => 0, 0, 0⟩

/-- A key of a thousand bytes per second. -/
def slowKey : ApiKey := ⟨"key", none, some 1000, none⟩

/-- Of a key's bytes and a request, with the organization's bytes doubled in between. -/
def orderly : List Call :=
  [.checkProduce (freeOrg .default) 500 (some slowKey) atOnce, .elapse 1000000,
    .refresh "org" 1 (some { OrganizationQuota.default with maxProduceBytesPerSec := 20971520 }),
    .checkProduce (freeOrg .default) 50000000 none atOnce, .checkRequest (freeOrg .default) (some slowKey) atOnce]

theorem limits_of_meets_orderly : Uncharged orderly ∧ WithinLimits orderly := by
  apply limits_of_meets
  refine ⟨?_, trivial, ?_, ?_, ?_, trivial⟩
  · unfold Good CheckMeets KeyMeets
    decide +kernel
  · unfold Good RefreshMeets
    decide +kernel
  · unfold Good CheckMeets KeyMeets
    decide +kernel
  · unfold Good CheckMeets KeyMeets
    decide +kernel

/-- Five thousand bytes with that key: the organization has them, the key has not. -/
def tooMuch : Call := .checkProduce (freeOrg .default) 5000 (some slowKey) atOnce

/-- A request after the organization's rate of requests has gone to zero. -/
def stopped : List Call :=
  [.checkRequest (freeOrg .default) none atOnce, .refresh "org" 0 (some { OrganizationQuota.default with maxRequestsPerSec := 0 }),
    .checkRequest (freeOrg .default) none atOnce]

/-- Neither holds of all runs. -/
theorem limits_fail : (¬ ∀ calls, Uncharged calls) ∧ ¬ ∀ calls, WithinLimits calls := by
  constructor
  · intro every
    have uncharged := every [tooMuch] [] tooMuch [] rfl "API key produce rate limit exceeded (1000 bytes/s)" (by decide +kernel)
      ⟨"org", none, .produce⟩
    revert uncharged
    decide +kernel
  · intro every
    have within := every stopped ⟨"org", none, .request⟩
      [.pass 0, .pass 0, .pass 0, .limit ⟨1000, 2000⟩, .pass 0, .take 1, .limit ⟨0, 0⟩] [.pass 0, .take 1] [] (by decide +kernel)
    revert within
    decide +kernel

end StreamHouse.Metadata.Quota
