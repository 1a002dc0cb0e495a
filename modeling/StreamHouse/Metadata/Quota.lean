import Mathlib.Algebra.Order.Field.Rat
import StreamHouse.Core.I64
import StreamHouse.Lib.RateLimits
import StreamHouse.Metadata.Catalog

/-!
# Rate limits of an organization

The token buckets of `quota.rs`, and the calls of `QuotaEnforcer` that take tokens or change the
buckets: `check_produce`, `check_consume` and `check_request`, and the task that refreshes the quotas and
evicts idle organizations. An instant is a reading of one clock in microseconds, and each reading is said
as the time since the one before. The product of rate and time in a refill is taken as exact, and so
is the percentage of a warning, which stands in for its text.

`journal` is no field of the source: it notes the time between readings, each rate that is put in force and
each acquisition, for what is said about all calls together.
-/

namespace StreamHouse.Metadata.Quota
open Lib

/-- An `as u64` of an `i64`. -/
def asU64 (n : Int) : Nat := (n % 2 ^ 64).toNat

/-- `n as u64 * TOKEN_PRECISION`. -/
def scaled (n : Int) : Nat := asU64 n * 1000 % 2 ^ 64

structure TokenBucket where
  tokens : Nat
  lastRefillUs : Nat
  rate : Int
  burst : Int
  epoch : Nat

namespace TokenBucket

def new (rate : Int) (now : Nat) : TokenBucket where
  tokens := scaled (I64.wrap (rate * 2))
  lastRefillUs := 0
  rate := rate
  burst := I64.wrap (rate * 2)
  epoch := now

def nowUs (b : TokenBucket) (now : Nat) : Nat := now - b.epoch

def elapsedUs (b : TokenBucket) (now : Nat) : Nat := b.nowUs now - b.lastRefillUs

def tokensToAdd (b : TokenBucket) (now : Nat) : Nat :=
  min (b.rate.toNat * b.elapsedUs now * 1000 / 1000000) (2 ^ 64 - 1)

/-- The time is kept where nothing is added, also when the bucket is full. -/
def refill (b : TokenBucket) (now : Nat) : TokenBucket :=
  if b.elapsedUs now = 0 then b
  else if b.rate ≤ 0 ∨ b.burst ≤ 0 then b
  else if b.tokensToAdd now = 0 then b
  else { b with
    tokens := min (min (b.tokens + b.tokensToAdd now) (2 ^ 64 - 1)) (scaled b.burst)
    lastRefillUs := b.nowUs now }

def tryAcquire (b : TokenBucket) (now : Nat) (amount : Int) : Bool × TokenBucket :=
  if amount ≤ 0 then (true, b)
  else if (b.refill now).tokens < scaled amount then (false, b.refill now)
  else (true, { b.refill now with tokens := (b.refill now).tokens - scaled amount })

/-- `usage_percent`, of the bucket as it is refilled. -/
def usagePercent (b : TokenBucket) (now : Nat) : ℚ :=
  if b.burst ≤ 0 then 100
  else (scaled b.burst - (b.refill now).tokens : Nat) / (scaled b.burst : Nat) * 100

def updateRate (b : TokenBucket) (newRate : Int) : TokenBucket :=
  { b with rate := newRate, burst := I64.wrap (newRate * 2) }

end TokenBucket

/-- The three limiters of a state, in the order of its fields. -/
inductive RateKind where
  | produce
  | consume
  | request
deriving DecidableEq

open RateKind

def RateKind.all : List RateKind := [.produce, .consume, .request]

structure ApiKey where
  id : String
  maxRequestsPerSec : Option Int
  maxProduceBytesPerSec : Option Int
  maxConsumeBytesPerSec : Option Int

structure TenantContext where
  organization : Organization
  quota : OrganizationQuota

namespace RateKind

def ofQuota (quota : OrganizationQuota) : RateKind → Int
  | produce => quota.maxProduceBytesPerSec
  | consume => quota.maxConsumeBytesPerSec
  | request => quota.maxRequestsPerSec

def ofKey (key : ApiKey) : RateKind → Option Int
  | produce => key.maxProduceBytesPerSec
  | consume => key.maxConsumeBytesPerSec
  | request => key.maxRequestsPerSec

def exceeded (limit : Int) : RateKind → String
  | produce => "Produce rate limit exceeded (" ++ toString limit ++ " bytes/s)"
  | consume => "Consume rate limit exceeded (" ++ toString limit ++ " bytes/s)"
  | request => "Request rate limit exceeded (" ++ toString limit ++ "/s)"

def keyExceeded (limit : Int) : RateKind → String
  | produce => "API key produce rate limit exceeded (" ++ toString limit ++ " bytes/s)"
  | consume => "API key consume rate limit exceeded (" ++ toString limit ++ " bytes/s)"
  | request => "API key request rate limit exceeded (" ++ toString limit ++ "/s)"

/-- The instants at which the three limiters of a state are made, one after the other. -/
def instants (now : Nat) (later : RateKind → Nat) : RateKind → Nat
  | produce => now + later produce
  | consume => now + later produce + later consume
  | request => now + later produce + later consume + later request

end RateKind

def statusText : OrganizationStatus → String
  | .active => "active"
  | .suspended => "suspended"
  | .deleted => "deleted"

/-- A warning has the percentage that its text gives. -/
inductive QuotaCheck where
  | allowed
  | denied (reason : String)
  | warning (usagePercent : ℚ)
deriving DecidableEq

structure OrgRateLimitState where
  limiter : RateKind → TokenBucket
  lastActivity : Nat

namespace OrgRateLimitState

def new (quota : OrganizationQuota) (now : RateKind → Nat) (nowSecs : Nat) : OrgRateLimitState where
  limiter kind := .new (kind.ofQuota quota) (now kind)
  lastActivity := nowSecs

def updateRates (s : OrgRateLimitState) (quota : OrganizationQuota) : OrgRateLimitState :=
  { s with limiter := fun kind => (s.limiter kind).updateRate (kind.ofQuota quota) }

end OrgRateLimitState

structure KeyRateLimitState where
  limiter : RateKind → Option TokenBucket

def KeyRateLimitState.fromApiKey (key : ApiKey) (now : RateKind → Nat) : Option KeyRateLimitState :=
  if key.maxRequestsPerSec.isSome || key.maxProduceBytesPerSec.isSome || key.maxConsumeBytesPerSec.isSome then
    some ⟨fun kind => (kind.ofKey key).map fun limit => .new limit (now kind)⟩
  else none

/-- A limiter of an organization or of one of its keys. -/
structure BucketId where
  orgId : String
  keyId : Option String
  kind : RateKind
deriving DecidableEq

inductive Event where
  | pass (time : Nat)
  | rate (bucket : BucketId) (limit : Account.Limit)
  | take (bucket : BucketId) (amount : Int) (tokens : Nat)

/-- What an event is in the account of a bucket. -/
def Event.entry (id : BucketId) : Event → Option Account.Entry
  | pass time => some (.pass time)
  | rate bucket limit => if bucket = id then some (.limit limit) else none
  | take bucket amount _ => if bucket = id then some (.take amount) else none

/-- `clock` is the last reading, and `to_evict` is the list that the refresh task is gathering. -/
structure QuotaEnforcer where
  rateLimiters : String → Option OrgRateLimitState
  keyLimiters : String × String → Option KeyRateLimitState
  toEvict : List String
  clock : Nat
  journal : List Event

/-- What one check reads of the clocks. -/
structure Readings where
  orgLimiters : RateKind → Nat
  nowSecs : Nat
  orgAcquire : Nat
  keyLimiters : RateKind → Nat
  keyAcquire : Nat
  usage : Nat

namespace QuotaEnforcer

def new : QuotaEnforcer := ⟨fun _ => none, fun _ => none, [], 0, []⟩

/-- Time passes until the next reading. -/
def elapse (e : QuotaEnforcer) (time : Nat) : QuotaEnforcer :=
  { e with clock := e.clock + time, journal := e.journal ++ [.pass time] }

def bucket (e : QuotaEnforcer) (id : BucketId) : Option TokenBucket :=
  match id.keyId with
  | none => (e.rateLimiters id.orgId).map fun s => s.limiter id.kind
  | some keyId => (e.keyLimiters (id.orgId, keyId)).bind fun s => s.limiter id.kind

/-- A bucket is changed in place. -/
def setBucket (e : QuotaEnforcer) (id : BucketId) (b : TokenBucket) : QuotaEnforcer :=
  match id.keyId with
  | none =>
    { e with
      rateLimiters := Function.update e.rateLimiters id.orgId
        ((e.rateLimiters id.orgId).map fun s => { s with limiter := Function.update s.limiter id.kind b }) }
  | some keyId =>
    { e with
      keyLimiters := Function.update e.keyLimiters (id.orgId, keyId)
        ((e.keyLimiters (id.orgId, keyId)).map fun s => { s with limiter := Function.update s.limiter id.kind (some b) }) }

/-- The events of three limiters that are made one after the other. -/
def made (bucket : RateKind → BucketId) (rate : RateKind → Option Int) (later : RateKind → Nat) : List Event :=
  all.flatMap fun kind =>
    .pass (later kind) :: (rate kind).toList.map fun r => .rate (bucket kind) ⟨r, I64.wrap (r * 2)⟩

/-- `get_or_create_limiter`. -/
def getOrCreateLimiter (e : QuotaEnforcer) (ctx : TenantContext) (later : RateKind → Nat) (nowSecs : Nat) : QuotaEnforcer :=
  if (e.rateLimiters ctx.organization.id).isSome then e
  else { e with
    rateLimiters := Function.update e.rateLimiters ctx.organization.id
      (some (.new ctx.quota (instants e.clock later) nowSecs))
    clock := instants e.clock later .request
    journal := e.journal ++ made (⟨ctx.organization.id, none, ·⟩) (fun kind => some (kind.ofQuota ctx.quota)) later }

/-- `ensure_key_limiter`. -/
def ensureKeyLimiter (e : QuotaEnforcer) (orgId : String) (key : ApiKey) (later : RateKind → Nat) : QuotaEnforcer :=
  if (e.keyLimiters (orgId, key.id)).isSome then e
  else match KeyRateLimitState.fromApiKey key (instants e.clock later) with
    | none => e
    | some s => { e with
      keyLimiters := Function.update e.keyLimiters (orgId, key.id) (some s)
      clock := instants e.clock later .request
      journal := e.journal ++ made (⟨orgId, some key.id, ·⟩) (·.ofKey key) later }

def touch (e : QuotaEnforcer) (orgId : String) (nowSecs : Nat) : QuotaEnforcer :=
  { e with
    rateLimiters := Function.update e.rateLimiters orgId
      ((e.rateLimiters orgId).map fun s => { s with lastActivity := nowSecs }) }

/-- `try_acquire` of the bucket, if there is one. -/
def tryAcquire (e : QuotaEnforcer) (id : BucketId) (amount : Int) : Bool × QuotaEnforcer :=
  match e.bucket id with
  | none => (true, e)
  | some b =>
    let (admitted, b) := b.tryAcquire e.clock amount
    let e := e.setBucket id b
    (admitted, if admitted && decide (0 < amount) then { e with journal := e.journal ++ [.take id amount (scaled amount)] } else e)

/-- The check of the organization's limit: the denial, if it is denied. -/
def checkOrg (e : QuotaEnforcer) (kind : RateKind) (ctx : TenantContext) (amount : Int) (readings : Readings) :
    Option String × QuotaEnforcer :=
  let e := (e.getOrCreateLimiter ctx readings.orgLimiters readings.nowSecs).touch ctx.organization.id readings.nowSecs
  let (admitted, e) := (e.elapse readings.orgAcquire).tryAcquire ⟨ctx.organization.id, none, kind⟩ amount
  (if admitted then none else some (kind.exceeded (kind.ofQuota ctx.quota)), e)

/-- The check of the key's own limit, if it has one. -/
def checkKey (e : QuotaEnforcer) (kind : RateKind) (orgId : String) (amount : Int) (apiKey : Option ApiKey) (readings : Readings) :
    Option String × QuotaEnforcer :=
  match apiKey with
  | none => (none, e)
  | some key =>
    match kind.ofKey key with
    | none => (none, e)
    | some limit =>
      let e := (e.ensureKeyLimiter orgId key readings.keyLimiters).elapse readings.keyAcquire
      let (admitted, e) := e.tryAcquire ⟨orgId, some key.id, kind⟩ amount
      (if admitted then none else some (kind.keyExceeded limit), e)

/-- The organization's limit comes first, and what it has given is not given back when the key has none left. -/
def checkLimits (e : QuotaEnforcer) (kind : RateKind) (ctx : TenantContext) (amount : Int) (apiKey : Option ApiKey)
    (readings : Readings) : Option String × QuotaEnforcer :=
  match e.checkOrg kind ctx amount readings with
  | (some reason, e) => (some reason, e)
  | (none, e) => e.checkKey kind ctx.organization.id amount apiKey readings

/-- The warning of an organization that is near its limit. -/
def warn (e : QuotaEnforcer) (kind : RateKind) (orgId : String) (readings : Readings) : QuotaCheck × QuotaEnforcer :=
  let e := e.elapse readings.usage
  match e.bucket ⟨orgId, none, kind⟩ with
  | none => (.allowed, e)
  | some b =>
    (if 80 < b.usagePercent e.clock then .warning (b.usagePercent e.clock) else .allowed,
      e.setBucket ⟨orgId, none, kind⟩ (b.refill e.clock))

/-- `is_paying`. -/
def isPaying (ctx : TenantContext) : Bool :=
  ctx.organization.plan == .pro || ctx.organization.plan == .enterprise

/-- What the three checks have in common; `allow` is their end. -/
def check (e : QuotaEnforcer) (kind : RateKind) (ctx : TenantContext) (amount : Int) (apiKey : Option ApiKey) (readings : Readings)
    (allow : QuotaEnforcer → QuotaCheck × QuotaEnforcer) : QuotaCheck × QuotaEnforcer :=
  if ctx.organization.status ≠ .active then (.denied ("Organization is " ++ statusText ctx.organization.status), e)
  else if isPaying ctx then (.allowed, e)
  else match e.checkLimits kind ctx amount apiKey readings with
    | (some reason, e) => (.denied reason, e)
    | (none, e) => allow e

def checkProduce (e : QuotaEnforcer) (ctx : TenantContext) (bytes : Int) (apiKey : Option ApiKey) (readings : Readings) :
    QuotaCheck × QuotaEnforcer :=
  e.check .produce ctx bytes apiKey readings fun e => e.warn .produce ctx.organization.id readings

def checkConsume (e : QuotaEnforcer) (ctx : TenantContext) (bytes : Int) (apiKey : Option ApiKey) (readings : Readings) :
    QuotaCheck × QuotaEnforcer :=
  e.check .consume ctx bytes apiKey readings fun e => e.warn .consume ctx.organization.id readings

/-- A request is one token, and there is no warning. -/
def checkRequest (e : QuotaEnforcer) (ctx : TenantContext) (apiKey : Option ApiKey) (readings : Readings) :
    QuotaCheck × QuotaEnforcer :=
  e.check .request ctx 1 apiKey readings fun e => (.allowed, e)

/-- The refresh task looks at one organization: it is to be evicted, or has the quota that the
store has, if the store answers. -/
def refresh (e : QuotaEnforcer) (orgId : String) (nowSecs : Nat) (quota : Option OrganizationQuota) : QuotaEnforcer :=
  if 300 < nowSecs - ((e.rateLimiters orgId).elim 0 (·.lastActivity)) then { e with toEvict := e.toEvict ++ [orgId] }
  else match quota, e.rateLimiters orgId with
    | some quota, some s => { e with
      rateLimiters := Function.update e.rateLimiters orgId (some (s.updateRates quota))
      journal := e.journal ++ all.map fun kind =>
        .rate ⟨orgId, none, kind⟩ ⟨kind.ofQuota quota, I64.wrap (kind.ofQuota quota * 2)⟩ }
    | _, _ => e

/-- The end of a round of the refresh task. -/
def evict (e : QuotaEnforcer) : QuotaEnforcer :=
  { e with
    rateLimiters := fun orgId => if orgId ∈ e.toEvict then none else e.rateLimiters orgId
    keyLimiters := fun key => if key.1 ∈ e.toEvict then none else e.keyLimiters key
    toEvict := [] }

end QuotaEnforcer

/-- Checks, the steps of the refresh task, and time between them. -/
inductive Call where
  | checkProduce (ctx : TenantContext) (bytes : Int) (apiKey : Option ApiKey) (readings : Readings)
  | checkConsume (ctx : TenantContext) (bytes : Int) (apiKey : Option ApiKey) (readings : Readings)
  | checkRequest (ctx : TenantContext) (apiKey : Option ApiKey) (readings : Readings)
  | elapse (time : Nat)
  | refresh (orgId : String) (nowSecs : Nat) (quota : Option OrganizationQuota)
  | evict

namespace QuotaEnforcer

/-- The answer of a check, and the enforcer after the call. -/
def perform (e : QuotaEnforcer) : Call → Option QuotaCheck × QuotaEnforcer
  | .checkProduce ctx bytes apiKey readings => (e.checkProduce ctx bytes apiKey readings).map some id
  | .checkConsume ctx bytes apiKey readings => (e.checkConsume ctx bytes apiKey readings).map some id
  | .checkRequest ctx apiKey readings => (e.checkRequest ctx apiKey readings).map some id
  | .elapse time => (none, e.elapse time)
  | .refresh orgId nowSecs quota => (none, e.refresh orgId nowSecs quota)
  | .evict => (none, e.evict)

def step (e : QuotaEnforcer) (call : Call) : QuotaEnforcer := (e.perform call).2

end QuotaEnforcer

end StreamHouse.Metadata.Quota
