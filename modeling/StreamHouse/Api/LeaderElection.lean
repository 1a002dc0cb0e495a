import StreamHouse.Core.I64
import StreamHouse.Lib.Run
import Mathlib.Data.List.Pairwise

/-!
# Leader election

A node keeps a flag, an election state and the leadership record of its backend, whose lease runs out by itself.
`believes_iff` says in which runs a node that believes to be leader holds the lease, in which the tokens of its terms
increase and its guards end with their terms.
-/

namespace StreamHouse.Api.Leader

open StreamHouse.Lib List Option

inductive LeaderError where
  | acquireFailed (message : String)
  | renewFailed (message : String)
  | leadershipLost (message : String)
  | config (message : String)

inductive LeaderBackend where
  | postgres (connectionString tableName : String)
  | memory

/-- The durations are in nanoseconds. -/
structure LeaderConfig where
  backend : LeaderBackend
  electionNamespace : String
  nodeId : String
  leaseDuration : Nat
  renewInterval : Nat

/-- `lease_duration.as_millis() as i64`. -/
def LeaderConfig.leaseMillis (config : LeaderConfig) : Int := I64.wrap (config.leaseDuration / 1000000 : Nat)

structure LeadershipRecord where
  electionNamespace : String
  leaderId : String
  fencingToken : BitVec 64
  acquiredAt : Int
  expiresAt : Int

inductive LostReason where
  | renewFailed
  | released

inductive LeaderEvent where
  | acquired (fencingToken : BitVec 64)
  | lost (reason : LostReason)

/-- The token of a term that begins. -/
def LeaderEvent.token : LeaderEvent → Option (BitVec 64)
  | .acquired fencingToken => some fencingToken
  | .lost _ => none

inductive LeaderState where
  | follower
  | candidate
  | leader
  | stopped
deriving DecidableEq

structure ElectionState where
  state : LeaderState
  fencingToken : Option (BitVec 64)

/-- An election, with the events that it has sent and what its clock reads. -/
structure LeaderElection where
  config : LeaderConfig
  state : ElectionState
  isLeader : Bool
  fencingToken : BitVec 64
  memoryState : Option LeadershipRecord
  events : List LeaderEvent
  now : Int

namespace LeaderElection

def new (config : LeaderConfig) (now : Int) : Except LeaderError LeaderElection :=
  if config.leaseDuration ≤ config.renewInterval then
    .error (.config "Renew interval must be less than lease duration")
  else .ok ⟨config, ⟨.follower, none⟩, false, 0, none, [], now⟩

/-- When a lease that is written now expires. -/
def expiry (e : LeaderElection) : Int := I64.wrap (e.now + e.config.leaseMillis)

/-- Another term begins in the record. -/
def acquireRecord (e : LeaderElection) (newToken : BitVec 64) : LeaderElection :=
  { e with
    fencingToken := newToken
    memoryState := some ⟨e.config.electionNamespace, e.config.nodeId, newToken, e.now, e.expiry⟩ }

def tryAcquireMemory (e : LeaderElection) : Bool × LeaderElection :=
  match e.memoryState with
  | some existing =>
    if existing.leaderId = e.config.nodeId ∧ e.now < existing.expiresAt then (true, e)
    else if e.now < existing.expiresAt then (false, e)
    else (true, e.acquireRecord (existing.fencingToken + 1))
  | none => (true, e.acquireRecord 1)

/-- The fallback of the source. -/
def tryAcquirePostgres (e : LeaderElection) : Bool × LeaderElection := e.tryAcquireMemory

/-- A term begins in the state. -/
def becomeLeader (e : LeaderElection) : LeaderElection :=
  { e with
    state := ⟨.leader, some e.fencingToken⟩
    isLeader := true
    events := e.events ++ [.acquired e.fencingToken] }

/-- The state after a term. -/
def becomeFollower (e : LeaderElection) (reason : LostReason) : LeaderElection :=
  { e with
    state := ⟨.follower, none⟩
    isLeader := false
    events := e.events ++ [.lost reason] }

def tryAcquire (e : LeaderElection) : Bool × LeaderElection :=
  if e.state.state = .leader then (true, e)
  else
    let candidate := { e with state := { e.state with state := .candidate } }
    let attempt := match e.config.backend with
      | .postgres _ _ => candidate.tryAcquirePostgres
      | .memory => candidate.tryAcquireMemory
    if attempt.1 then (true, attempt.2.becomeLeader)
    else (false, { attempt.2 with state := { attempt.2.state with state := .follower } })

def renewMemory (e : LeaderElection) : Except LeaderError LeaderElection :=
  match e.memoryState with
  | some existing =>
    if existing.leaderId ≠ e.config.nodeId then .error (.leadershipLost "Another node is leader")
    else if existing.expiresAt < e.now then .error (.leadershipLost "Lease expired")
    else .ok { e with memoryState := some { existing with expiresAt := e.expiry } }
  | none => .error (.leadershipLost "No leadership record")

/-- The fallback of the source. -/
def renewPostgres (e : LeaderElection) : Except LeaderError LeaderElection := e.renewMemory

def renew (e : LeaderElection) : Except LeaderError LeaderElection :=
  if e.isLeader = false then .error (.renewFailed "Not currently leader")
  else
    match e.config.backend with
    | .postgres _ _ => e.renewPostgres
    | .memory => e.renewMemory

def releaseMemory (e : LeaderElection) : LeaderElection :=
  match e.memoryState with
  | some existing =>
    if existing.leaderId = e.config.nodeId then { e with memoryState := some { existing with expiresAt := 0 } } else e
  | none => e

/-- The fallback of the source. -/
def releasePostgres (e : LeaderElection) : LeaderElection := e.releaseMemory

def release (e : LeaderElection) : LeaderElection :=
  if e.state.state ≠ .leader then e
  else
    let released := match e.config.backend with
      | .postgres _ _ => e.releasePostgres
      | .memory => e.releaseMemory
    released.becomeFollower .released

/-- A tick of the loop of `run`. -/
def tick (e : LeaderElection) : LeaderElection :=
  if e.isLeader then
    match e.renew with
    | .ok renewed => renewed
    | .error _ => e.becomeFollower .renewFailed
  else e.tryAcquire.2

end LeaderElection

open LeaderElection

structure LeaderGuard where
  fencingToken : BitVec 64

namespace LeaderGuard

def new (election : LeaderElection) : Except LeaderError LeaderGuard :=
  if election.isLeader = false then .error (.acquireFailed "Not leader") else .ok ⟨election.fencingToken⟩

def isValid (guard : LeaderGuard) (election : LeaderElection) : Bool :=
  election.isLeader && election.fencingToken = guard.fencingToken

end LeaderGuard

/-! ## Runs -/

inductive Op where
  | tryAcquire
  | renew
  | release
  | tick
  | advance (millis : Nat)

namespace LeaderElection

/-- What an operation leaves; a renewal that fails leaves all as it was. -/
def step (e : LeaderElection) : Op → LeaderElection
  | .tryAcquire => e.tryAcquire.2
  | .renew =>
    match e.renew with
    | .ok renewed => renewed
    | .error _ => e
  | .release => e.release
  | .tick => e.tick
  | .advance millis => { e with now := e.now + millis }

/-- A node that believes to be leader is named by a record that has not expired. -/
def HoldsLease (e : LeaderElection) : Prop :=
  e.isLeader = true → ∃ r, e.memoryState = some r ∧ r.leaderId = e.config.nodeId ∧ e.now < r.expiresAt

/-- The fencing tokens of the terms, in order. -/
def tokens (e : LeaderElection) : List (BitVec 64) := e.events.filterMap LeaderEvent.token

/-- The tokens of successive terms increase. -/
def TokensIncrease (e : LeaderElection) : Prop := e.tokens.Pairwise (· < ·)

/-- A lease that is written now is in force. -/
def InForce (e : LeaderElection) : Prop := e.now < e.expiry

/-- No lease is in force, and there is another token. -/
def Vacant (e : LeaderElection) : Prop :=
  ∀ r, e.memoryState = some r → r.expiresAt ≤ e.now ∧ r.fencingToken < r.fencingToken + 1

/-- A leader writes leases that are in force and lets none run out; a follower finds none in force. -/
def Allowed (e : LeaderElection) : Op → Prop
  | .tryAcquire => e.isLeader = false → e.Vacant ∧ e.InForce
  | .renew => e.isLeader = true → e.InForce
  | .release => True
  | .tick => (e.isLeader = false → e.Vacant) ∧ e.InForce
  | .advance millis => e.isLeader = true → ∀ r, e.memoryState = some r → e.now + millis < r.expiresAt

/-- The record is this node's and has the token of the last term; the tokens increase. -/
structure Recorded (e : LeaderElection) : Prop where
  own : ∀ r, e.memoryState = some r → r.leaderId = e.config.nodeId
  last : ∀ r, e.memoryState = some r → r.fencingToken = e.fencingToken ∧ e.tokens.getLast? = some e.fencingToken
  first : e.memoryState = none → e.tokens = []
  increase : e.TokensIncrease

/-- The flag and the state agree, and a leader holds the lease. -/
structure Inv (e : LeaderElection) : Prop extends Recorded e where
  flag : e.state.state = .leader ↔ e.isLeader = true
  holds : e.HoldsLease

variable {e : LeaderElection}

/-! ## Terms -/

@[simp] theorem tokens_becomeLeader : e.becomeLeader.tokens = e.tokens ++ [e.fencingToken] := by
  rw [tokens, becomeLeader, filterMap_append]
  rfl

@[simp] theorem tokens_becomeFollower (reason : LostReason) : (e.becomeFollower reason).tokens = e.tokens := by
  rw [tokens, becomeFollower, filterMap_append]
  exact append_nil _

/-- One more token increases if it is above the last. -/
theorem pairwise_concat_iff {l : List (BitVec 64)} {a b : BitVec 64} (increase : l.Pairwise (· < ·)) (last : l.getLast? = some a) :
    (l ++ [b]).Pairwise (· < ·) ↔ a < b := by
  obtain ⟨front, rfl⟩ := getLast?_eq_some_iff.mp last
  have below := (List.pairwise_append.mp increase).2.2
  simp only [List.pairwise_append, increase, pairwise_singleton, true_and]
  constructor
  · intro above
    exact above a (by simp) b (by simp)
  · intro above c inside d isLast
    obtain rfl := mem_singleton.mp isLast
    obtain earlier | isA := mem_append.mp inside
    · exact BitVec.lt_trans (below c earlier a (by simp)) above
    · rwa [mem_singleton.mp isA]

/-! ## Operations -/

theorem tryAcquire_leader (leads : e.state.state = .leader) : e.tryAcquire = (true, e) := by
  rw [tryAcquire, if_pos leads]

theorem tryAcquire_vacant (follows : e.state.state ≠ .leader) (vacant : e.memoryState = none) :
    e.tryAcquire.2 = (e.acquireRecord 1).becomeLeader := by
  unfold tryAcquire tryAcquirePostgres tryAcquireMemory
  rw [if_neg follows]
  cases e.config.backend <;> simp [vacant, acquireRecord, becomeLeader, expiry]

variable {r : LeadershipRecord}

theorem tryAcquire_expired (follows : e.state.state ≠ .leader) (isRecord : e.memoryState = some r)
    (expired : r.expiresAt ≤ e.now) : e.tryAcquire.2 = (e.acquireRecord (r.fencingToken + 1)).becomeLeader := by
  have lapsed : ¬ e.now < r.expiresAt := by omega
  unfold tryAcquire tryAcquirePostgres tryAcquireMemory
  rw [if_neg follows]
  cases e.config.backend <;> simp [isRecord, lapsed, acquireRecord, becomeLeader, expiry]

theorem tryAcquire_held (follows : e.state.state ≠ .leader) (isRecord : e.memoryState = some r)
    (own : r.leaderId = e.config.nodeId) (held : e.now < r.expiresAt) : e.tryAcquire.2 = e.becomeLeader := by
  unfold tryAcquire tryAcquirePostgres tryAcquireMemory
  rw [if_neg follows]
  cases e.config.backend <;> simp [isRecord, own, held, becomeLeader]

theorem renew_leader (leads : e.isLeader = true) (isRecord : e.memoryState = some r)
    (own : r.leaderId = e.config.nodeId) (held : e.now < r.expiresAt) :
    e.renew = .ok { e with memoryState := some { r with expiresAt := e.expiry } } := by
  have kept : ¬ r.expiresAt < e.now := by omega
  unfold renew renewPostgres renewMemory
  cases e.config.backend <;> simp [leads, isRecord, own, kept]

theorem renew_follower (follows : e.isLeader = false) : e.renew = .error (.renewFailed "Not currently leader") := by
  rw [renew, if_pos follows]

theorem release_leader (leads : e.state.state = .leader) (isRecord : e.memoryState = some r)
    (own : r.leaderId = e.config.nodeId) :
    e.release = ({ e with memoryState := some { r with expiresAt := 0 } }).becomeFollower .released := by
  unfold release releasePostgres releaseMemory
  rw [if_neg (not_not_intro leads)]
  cases e.config.backend <;> simp [isRecord, own, becomeFollower]

theorem release_follower (follows : e.state.state ≠ .leader) : e.release = e := by rw [release, if_pos follows]

/-! ## Steps -/

/-- A lease that has been written holds if it is in force. -/
theorem holdsLease_written {x : LeaderElection} (leads : x.isLeader = true) (isRecord : x.memoryState = some r)
    (own : r.leaderId = x.config.nodeId) : x.HoldsLease ↔ x.now < r.expiresAt := by
  constructor
  · intro holds
    obtain ⟨other, isOther, -, held⟩ := holds leads
    rw [isRecord, some.injEq] at isOther
    rwa [isOther]
  · exact fun held _ => ⟨r, isRecord, own, held⟩

theorem acquireRecord_holds (token : BitVec 64) : (e.acquireRecord token).becomeLeader.HoldsLease ↔ e.InForce :=
  holdsLease_written (x := (e.acquireRecord token).becomeLeader) rfl rfl rfl

/-- The term of a new record. -/
theorem acquireRecord_inv {token : BitVec 64} (holds : (e.acquireRecord token).becomeLeader.HoldsLease)
    (increase : (e.acquireRecord token).becomeLeader.TokensIncrease) : Inv (e.acquireRecord token).becomeLeader where
  own := by
    rintro r isRecord
    obtain rfl := some.inj isRecord
    rfl
  last := by
    rintro r isRecord
    obtain rfl := some.inj isRecord
    rw [tokens_becomeLeader, getLast?_append]
    exact ⟨rfl, rfl⟩
  first := fun none_ => absurd none_ (some_ne_none _)
  increase := increase
  flag := iff_of_true rfl rfl
  holds := holds

/-- A record with another expiry is the same term. -/
theorem Recorded.extend (recorded : Recorded e) (isRecord : e.memoryState = some r) (expiresAt : Int) :
    Recorded { e with memoryState := some { r with expiresAt := expiresAt } } where
  own := by
    rintro _ isOther
    obtain rfl := some.inj isOther
    exact recorded.own r isRecord
  last := by
    rintro _ isOther
    obtain rfl := some.inj isOther
    exact recorded.last r isRecord
  first := fun none_ => absurd none_ (some_ne_none _)
  increase := recorded.increase

/-- The end of a term leaves the record. -/
theorem Recorded.becomeFollower (recorded : Recorded e) (reason : LostReason) : Inv (e.becomeFollower reason) where
  own := recorded.own
  last := by
    rw [tokens_becomeFollower]
    exact recorded.last
  first := by
    rw [tokens_becomeFollower]
    exact recorded.first
  increase := by
    rw [TokensIncrease, tokens_becomeFollower]
    exact recorded.increase
  flag := iff_of_false (by simp [LeaderElection.becomeFollower]) (by simp [LeaderElection.becomeFollower])
  holds := fun leads => absurd leads (by simp [LeaderElection.becomeFollower])

namespace Inv

theorem follows (inv : Inv e) (notLeader : e.isLeader = false) : e.state.state ≠ .leader := by
  intro leads
  rw [inv.flag.mp leads] at notLeader
  cases notLeader

/-- A term that begins is in order exactly if no lease was in force and its own is. -/
theorem acquire_iff (inv : Inv e) (notLeader : e.isLeader = false) :
    (e.tryAcquire.2.HoldsLease ∧ e.tryAcquire.2.TokensIncrease) ↔ e.Vacant ∧ e.InForce := by
  have follows := inv.follows notLeader
  cases isRecord : e.memoryState with
  | none =>
    have vacant : e.Vacant := by simp [Vacant, isRecord]
    have one : (e.acquireRecord 1).becomeLeader.TokensIncrease := by
      have none_ : (e.acquireRecord 1).tokens = [] := inv.first isRecord
      rw [TokensIncrease, tokens_becomeLeader, none_]
      exact pairwise_singleton _ _
    rw [tryAcquire_vacant follows isRecord, acquireRecord_holds]
    exact ⟨fun both => ⟨vacant, both.1⟩, fun both => ⟨both.2, one⟩⟩
  | some r =>
    obtain ⟨current, last⟩ := inv.last r isRecord
    by_cases held : e.now < r.expiresAt
    · rw [tryAcquire_held follows isRecord (inv.own r isRecord) held]
      refine iff_of_false ?_ ?_
      · rintro ⟨-, increase⟩
        rw [TokensIncrease, tokens_becomeLeader, pairwise_concat_iff inv.increase last] at increase
        exact BitVec.lt_irrefl _ increase
      · rintro ⟨vacant, -⟩
        have expired := (vacant r isRecord).1
        omega
    · rw [tryAcquire_expired follows isRecord (by omega), acquireRecord_holds, TokensIncrease, tokens_becomeLeader]
      have next : ((e.acquireRecord (r.fencingToken + 1)).tokens ++ [r.fencingToken + 1]).Pairwise (· < ·) ↔
          e.fencingToken < r.fencingToken + 1 := pairwise_concat_iff inv.increase last
      have vacant : e.Vacant ↔ e.fencingToken < r.fencingToken + 1 := by
        rw [← current, Vacant, isRecord]
        constructor
        · exact fun every => (every r rfl).2
        · rintro above _ rfl'
          obtain rfl := some.inj rfl'
          exact ⟨by omega, above⟩
      rw [vacant, and_comm]
      exact and_congr_left fun _ => next

theorem acquire (inv : Inv e) (notLeader : e.isLeader = false) (vacant : e.Vacant) (inForce : e.InForce) :
    Inv e.tryAcquire.2 := by
  obtain ⟨holds, increase⟩ := (inv.acquire_iff notLeader).mpr ⟨vacant, inForce⟩
  have follows := inv.follows notLeader
  cases isRecord : e.memoryState with
  | none =>
    rw [tryAcquire_vacant follows isRecord] at holds increase ⊢
    exact acquireRecord_inv holds increase
  | some r =>
    rw [tryAcquire_expired follows isRecord (vacant r isRecord).1] at holds increase ⊢
    exact acquireRecord_inv holds increase

/-- What a renewal by the leader leaves. -/
theorem renew_ok (inv : Inv e) (leads : e.isLeader = true) : ∃ r, e.memoryState = some r ∧
    e.renew = .ok { e with memoryState := some { r with expiresAt := e.expiry } } := by
  obtain ⟨r, isRecord, own, held⟩ := inv.holds leads
  exact ⟨r, isRecord, renew_leader leads isRecord own held⟩

/-- A lease that is renewed is in order exactly if it is in force. -/
theorem renewed_iff (inv : Inv e) (leads : e.isLeader = true) (isRecord : e.memoryState = some r) :
    HoldsLease { e with memoryState := some { r with expiresAt := e.expiry } } ↔ e.InForce :=
  holdsLease_written (x := { e with memoryState := some { r with expiresAt := e.expiry } }) leads rfl (inv.own r isRecord)

theorem renewed (inv : Inv e) (leads : e.isLeader = true) (isRecord : e.memoryState = some r)
    (inForce : e.InForce) : Inv { e with memoryState := some { r with expiresAt := e.expiry } } :=
  { inv.toRecorded.extend isRecord e.expiry with flag := inv.flag, holds := (inv.renewed_iff leads isRecord).mpr inForce }

theorem release (inv : Inv e) : Inv e.release := by
  by_cases leads : e.state.state = .leader
  · obtain ⟨r, isRecord, own, -⟩ := inv.holds (inv.flag.mp leads)
    rw [release_leader leads isRecord own]
    exact (inv.toRecorded.extend isRecord 0).becomeFollower .released
  · rwa [release_follower leads]

/-- A leader renews, also at a tick. -/
theorem step_renew (inv : Inv e) (leads : e.isLeader = true) : ∃ r, e.memoryState = some r ∧
    e.step .renew = { e with memoryState := some { r with expiresAt := e.expiry } } ∧ e.step .tick = e.step .renew := by
  obtain ⟨r, isRecord, renewed⟩ := inv.renew_ok leads
  refine ⟨r, isRecord, ?_, ?_⟩
  · simp only [step, renewed]
  · simp only [step, tick, leads, if_true, renewed]

/-- A follower cannot renew, and acquires at a tick. -/
theorem step_follower (notLeader : e.isLeader = false) : e.step .renew = e ∧ e.step .tick = e.step .tryAcquire := by
  constructor
  · simp only [step, renew_follower notLeader]
  · simp [step, tick, notLeader]

theorem step_iff (inv : Inv e) (op : Op) : ((e.step op).HoldsLease ∧ (e.step op).TokensIncrease) ↔ e.Allowed op := by
  cases leads : e.isLeader with
  | true =>
    obtain ⟨r, isRecord, renewed, ticked⟩ := inv.step_renew leads
    have renewal : ((e.step .renew).HoldsLease ∧ (e.step .renew).TokensIncrease) ↔ e.InForce := by
      rw [renewed, inv.renewed_iff leads isRecord]
      exact and_iff_left inv.increase
    cases op with
    | tryAcquire =>
      have same : e.step .tryAcquire = e := by rw [step, tryAcquire_leader (inv.flag.mpr leads)]
      rw [same]
      exact iff_of_true ⟨inv.holds, inv.increase⟩ (by simp [Allowed, leads])
    | renew =>
      rw [renewal]
      simp [Allowed, leads]
    | release => exact iff_of_true ⟨inv.release.holds, inv.release.increase⟩ trivial
    | tick =>
      rw [ticked, renewal]
      simp [Allowed, leads]
    | advance millis =>
      have held := holdsLease_written (x := e.step (.advance millis)) leads isRecord (inv.own r isRecord)
      rw [held, Allowed, isRecord]
      constructor
      · rintro ⟨later, -⟩ - _ isOther
        obtain rfl := some.inj isOther
        exact later
      · exact fun allowed => ⟨allowed leads r rfl, inv.increase⟩
  | false =>
    obtain ⟨same, ticked⟩ := step_follower leads
    have acquisition := inv.acquire_iff leads
    cases op with
    | tryAcquire =>
      rw [step, acquisition]
      simp [Allowed, leads]
    | renew =>
      rw [same]
      exact iff_of_true ⟨inv.holds, inv.increase⟩ (by simp [Allowed, leads])
    | release => exact iff_of_true ⟨inv.release.holds, inv.release.increase⟩ trivial
    | tick =>
      rw [ticked, step, acquisition]
      simp [Allowed, leads]
    | advance millis =>
      refine iff_of_true ⟨fun believes => ?_, inv.increase⟩ (by simp [Allowed, leads])
      exact absurd (leads.symm.trans believes) (by simp)

/-- The clock moves on. -/
theorem advance (inv : Inv e) {millis : Nat} (allowed : e.Allowed (.advance millis)) : Inv (e.step (.advance millis)) :=
  { inv with
    own := inv.own
    holds := ((inv.step_iff _).mpr allowed).1 }

theorem step (inv : Inv e) {op : Op} (allowed : e.Allowed op) : Inv (e.step op) := by
  cases leads : e.isLeader with
  | true =>
    obtain ⟨r, isRecord, renewed, ticked⟩ := inv.step_renew leads
    cases op with
    | tryAcquire => rwa [LeaderElection.step, tryAcquire_leader (inv.flag.mpr leads)]
    | renew =>
      rw [renewed]
      exact inv.renewed leads isRecord (allowed leads)
    | release => exact inv.release
    | tick =>
      rw [ticked, renewed]
      exact inv.renewed leads isRecord allowed.2
    | advance millis => exact inv.advance allowed
  | false =>
    obtain ⟨same, ticked⟩ := step_follower leads
    cases op with
    | tryAcquire => exact inv.acquire leads (allowed leads).1 (allowed leads).2
    | renew => rwa [same]
    | release => exact inv.release
    | tick =>
      rw [ticked]
      exact inv.acquire leads (allowed.1 leads) allowed.2
    | advance millis => exact inv.advance allowed

end Inv

/-! ## Guards -/

/-- The term of `a` goes on in `b`, or there is none, or another one with a larger token has begun since. -/
def Later (a b : LeaderElection) : Prop :=
  b.fencingToken = a.fencingToken ∧ (b.events = a.events ∧ b.isLeader = a.isLeader ∨ b.isLeader = false) ∨
    a.fencingToken < b.fencingToken

theorem Later.trans {a b c : LeaderElection} (first : Later a b) (second : Later b c) : Later a c := by
  obtain ⟨tokenB, stateB⟩ | aboveB := first
  · obtain ⟨tokenC, stateC⟩ | aboveC := second
    · refine .inl ⟨tokenC.trans tokenB, ?_⟩
      obtain ⟨eventsC, flagC⟩ | endedC := stateC
      · obtain ⟨eventsB, flagB⟩ | endedB := stateB
        · exact .inl ⟨eventsC.trans eventsB, flagC.trans flagB⟩
        · exact .inr (flagC.trans endedB)
      · exact .inr endedC
    · rw [tokenB] at aboveC
      exact .inr aboveC
  · obtain ⟨tokenC, -⟩ | aboveC := second
    · rw [← tokenC] at aboveB
      exact .inr aboveB
    · exact .inr (BitVec.lt_trans aboveB aboveC)

/-- A term that begins after another has a larger token. -/
theorem later_acquire (inv : Inv e) (notLeader : e.isLeader = false) (recorded : e.memoryState ≠ none) (vacant : e.Vacant) :
    Later e e.tryAcquire.2 ∧ e.tryAcquire.2.memoryState ≠ none := by
  obtain ⟨r, isRecord⟩ := ne_none_iff_exists'.mp recorded
  obtain ⟨expired, above⟩ := vacant r isRecord
  rw [tryAcquire_expired (inv.follows notLeader) isRecord expired]
  rw [(inv.last r isRecord).1] at above ⊢
  exact ⟨.inr above, some_ne_none _⟩

theorem later_release (inv : Inv e) (recorded : e.memoryState ≠ none) : Later e e.release ∧ e.release.memoryState ≠ none := by
  by_cases leads : e.state.state = .leader
  · obtain ⟨r, isRecord, own, -⟩ := inv.holds (inv.flag.mp leads)
    rw [release_leader leads isRecord own]
    exact ⟨.inl ⟨rfl, .inr rfl⟩, some_ne_none _⟩
  · rw [release_follower leads]
    exact ⟨.inl ⟨rfl, .inl ⟨rfl, rfl⟩⟩, recorded⟩

theorem later_step (inv : Inv e) {op : Op} (allowed : e.Allowed op) (recorded : e.memoryState ≠ none) :
    Later e (e.step op) ∧ (e.step op).memoryState ≠ none := by
  have same : Later e e := .inl ⟨rfl, .inl ⟨rfl, rfl⟩⟩
  cases leads : e.isLeader with
  | true =>
    obtain ⟨r, isRecord, renewed, ticked⟩ := inv.step_renew leads
    have renewal : Later e (e.step .renew) ∧ (e.step .renew).memoryState ≠ none := by
      rw [renewed]
      exact ⟨.inl ⟨rfl, .inl ⟨rfl, rfl⟩⟩, some_ne_none _⟩
    cases op with
    | tryAcquire =>
      rw [step, tryAcquire_leader (inv.flag.mpr leads)]
      exact ⟨same, recorded⟩
    | renew => exact renewal
    | release => exact later_release inv recorded
    | tick =>
      rw [ticked]
      exact renewal
    | advance millis => exact ⟨.inl ⟨rfl, .inl ⟨rfl, rfl⟩⟩, recorded⟩
  | false =>
    obtain ⟨unchanged, ticked⟩ := Inv.step_follower leads
    cases op with
    | tryAcquire => exact later_acquire inv leads recorded (allowed leads).1
    | renew =>
      rw [unchanged]
      exact ⟨same, recorded⟩
    | release => exact later_release inv recorded
    | tick =>
      rw [ticked]
      exact later_acquire inv leads recorded (allowed.1 leads)
    | advance millis => exact ⟨.inl ⟨rfl, .inl ⟨rfl, rfl⟩⟩, recorded⟩

/-- The run after a leader. -/
theorem later_run {ops : List Op} (inv : Inv e) (leads : e.isLeader = true) (meets : Meets step Allowed e ops) :
    Later e (run step e ops) := by
  obtain ⟨r, isRecord, -⟩ := inv.holds leads
  have start : Inv e ∧ Later e e ∧ e.memoryState ≠ none :=
    ⟨inv, .inl ⟨rfl, .inl ⟨rfl, rfl⟩⟩, ne_none_iff_exists'.mpr ⟨r, isRecord⟩⟩
  have keep (x : LeaderElection) (op : Op) (all : Inv x ∧ Later e x ∧ x.memoryState ≠ none) (allowed : x.Allowed op) :
      Inv (x.step op) ∧ Later e (x.step op) ∧ (x.step op).memoryState ≠ none := by
    obtain ⟨invX, later, recorded⟩ := all
    obtain ⟨next, still⟩ := later_step invX allowed recorded
    exact ⟨invX.step allowed, later.trans next, still⟩
  exact (meets.invariant keep start).2.1

/-! ## Every run -/

/-- In every state of the run a node that believes to be leader holds the lease and the tokens of its terms increase;
a guard is valid only while no term ends and none begins. -/
structure LeadershipHolds (config : LeaderConfig) (now : Int) (ops : List Op) : Prop where
  lease : ∀ e, new config now = .ok e → ∀ before after, ops = before ++ after → (run step e before).HoldsLease
  tokens : ∀ e, new config now = .ok e → ∀ before after, ops = before ++ after → (run step e before).TokensIncrease
  guards : ∀ e, new config now = .ok e → ∀ before between after, ops = before ++ (between ++ after) →
    ∀ guard, LeaderGuard.new (run step e before) = .ok guard → guard.isValid (run step e (before ++ between)) = true →
      (run step e (before ++ between)).events = (run step e before).events

/-- Every step of the run is allowed. -/
def Kept (config : LeaderConfig) (now : Int) (ops : List Op) : Prop :=
  ∀ e, new config now = .ok e → Meets step Allowed e ops

theorem new_inv {config : LeaderConfig} {now : Int} (started : new config now = .ok e) : Inv e := by
  unfold new at started
  split_ifs at started
  obtain rfl := Except.ok.inj started
  exact {
    own := fun r isRecord => absurd isRecord (by simp)
    last := fun r isRecord => absurd isRecord (by simp)
    first := fun _ => rfl
    increase := .nil
    flag := iff_of_false (by simp) (by simp)
    holds := fun leads => absurd leads (by simp) }

/-- **A node that believes to be leader holds the lease** in exactly the runs in which a leader renews or releases
before its lease runs out, leases are in force when they are written, and a follower finds none in force. -/
theorem believes_iff (config : LeaderConfig) (now : Int) (ops : List Op) :
    LeadershipHolds config now ops ↔ Kept config now ops := by
  have cuts {e : LeaderElection} (inv : Inv e) : (∀ before after, ops = before ++ after →
      (run step e before).HoldsLease ∧ (run step e before).TokensIncrease) ↔ Meets step Allowed e ops := by
    rw [← meets_next_iff (P := fun x : LeaderElection => x.HoldsLease ∧ x.TokensIncrease) ⟨inv.holds, inv.increase⟩ ops]
    exact meets_congr Inv (fun x op invX => invX.step_iff op) (fun x op invX allowed => invX.step allowed) inv ops
  constructor
  · intro leadership e started
    exact (cuts (new_inv started)).mp fun before after cut =>
      ⟨leadership.lease e started before after cut, leadership.tokens e started before after cut⟩
  · intro kept
    have both (e) (started : new config now = .ok e) := (cuts (new_inv started)).mpr (kept e started)
    refine ⟨fun e started before after cut => (both e started before after cut).1,
      fun e started before after cut => (both e started before after cut).2, ?_⟩
    rintro e started before between after rfl guard created valid
    have meets := kept e started
    have inv : Inv (run step e before) :=
      (meets_append.mp meets).1.invariant (fun x op invX allowed => invX.step allowed) (new_inv started)
    unfold LeaderGuard.new at created
    split_ifs at created with follows
    obtain rfl := Except.ok.inj created
    rw [Bool.not_eq_false] at follows
    rw [LeaderGuard.isValid, Bool.and_eq_true, decide_eq_true_eq] at valid
    obtain ⟨still, sameToken⟩ := valid
    have later := later_run inv follows meets.between
    rw [← run_append] at later
    obtain ⟨-, ⟨events, -⟩ | ended⟩ | above := later
    · exact events
    · rw [ended] at still
      cases still
    · rw [sameToken] at above
      exact absurd above (BitVec.lt_irrefl _)

/-- Half a minute of lease, renewed every ten seconds. -/
def halfMinute : LeaderConfig := ⟨.memory, "default", "node-1", 30 * 10 ^ 9, 10 * 10 ^ 9⟩

/-- The lease runs out, and the node still believes to be leader. -/
theorem lapsed_lease_believed : ¬ LeadershipHolds halfMinute 0 [.tryAcquire, .advance 30000] := by
  intro leadership
  obtain ⟨r, isRecord, -, held⟩ := leadership.lease _ rfl [.tryAcquire, .advance 30000] [] rfl (by decide)
  obtain rfl := some.inj isRecord
  exact absurd held (by decide)

end LeaderElection

end StreamHouse.Api.Leader
