import StreamHouse.Lib.Run
import StreamHouse.Metadata.Transactions

/-!
# Partition leases and their transfer

The `partition_leases` and `lease_transfers` tables of `SqliteMetadataStore` and
the calls on them (`store.rs`). A call is a sequence of statements with other
calls' statements between them, so a call in flight is kept with what it has read
so far (`Call`), and `Call.next` runs its next statement. The clock is read at the
start of a call and again by `get_partition_lease`. The statements on transfers are put
together from the topic and the agents' names as they are, so these are `QuoteFree`.

A new row starts at epoch 1, also after a release has deleted the partition's row,
and `complete_lease_transfer` writes `from_epoch + 1` without looking at the row it
overwrites. `fenced_run` is the guarantee for runs in which neither happens.
-/

namespace StreamHouse.Metadata
open Lib List Function

/-- The unique key of `partition_leases`. No organization is part of it. -/
structure LeaseKey where
  topic : String
  partitionId : Nat
deriving DecidableEq

structure PartitionLease where
  organizationId : String
  leaderAgentId : String
  leaseExpiresAt : Int
  acquiredAt : Int
  epoch : Nat
deriving DecidableEq

inductive LeaseTransferState where
  | pending
  | accepted
  | completing
  | completed
  | rejected
  | timedOut
  | failed
deriving DecidableEq

/-- `LeaseTransfer`, the fields the protocol reads; the id is the row's place in the table. -/
structure LeaseTransfer where
  key : LeaseKey
  fromAgentId : String
  toAgentId : String
  fromEpoch : Nat
  state : LeaseTransferState
  timeoutAt : Int
deriving DecidableEq

inductive LeaseError where
  | leasedToAnother (k : LeaseKey)
  | notFoundAfterAcquisition (k : LeaseKey)
  | notHeldBy (k : LeaseKey) (agentId : String)
  | noLease (k : LeaseKey)
  | transferInProgress (k : LeaseKey)
  | transferNotFound (id : Nat)
  | notInState (id : Nat) (state : LeaseTransferState)
  | notFor (id : Nat) (agentId : String)
  | timedOut (id : Nat)

structure LeaseStore where
  leases : LeaseKey → Option PartitionLease
  transfers : List LeaseTransfer

namespace LeaseStore

/-! ## The statements -/

def setLease (s : LeaseStore) (k : LeaseKey) (l : Option PartitionLease) : LeaseStore :=
  { s with leases := update s.leases k l }

/-- `acquire_partition_lease`'s upsert: a new row, or a new grant of a row that is the
agent's own or expired, or no change. -/
def upsertLease (s : LeaseStore) (k : LeaseKey) (organizationId agentId : String) (nowMs expiresAt : Int) : LeaseStore :=
  match s.leases k with
  | none => s.setLease k (some ⟨organizationId, agentId, expiresAt, nowMs, 1⟩)
  | some l =>
    if agentId = l.leaderAgentId ∨ l.leaseExpiresAt < nowMs then
      s.setLease k (some { l with
        leaderAgentId := agentId, leaseExpiresAt := expiresAt, acquiredAt := nowMs, epoch := l.epoch + 1 })
    else s

/-- `get_partition_lease`: the row while it has not expired. -/
def getPartitionLease (s : LeaseStore) (k : LeaseKey) (nowMs : Int) : Option PartitionLease :=
  (s.leases k).filter fun l => decide (l.leaseExpiresAt > nowMs)

/-- `release_partition_lease`. -/
def releasePartitionLease (s : LeaseStore) (k : LeaseKey) (agentId : String) : Except LeaseError LeaseStore :=
  match s.leases k with
  | some l => if l.leaderAgentId = agentId then .ok (s.setLease k none) else .error (.notHeldBy k agentId)
  | none => .error (.notHeldBy k agentId)

/-- `initiate_lease_transfer`'s check for a transfer in progress. -/
def hasTransferInProgress (s : LeaseStore) (k : LeaseKey) : Bool :=
  s.transfers.any fun t => t.key == k && (t.state == .pending || t.state == .accepted || t.state == .completing)

def setTransferState (s : LeaseStore) (id : Nat) (state : LeaseTransferState) : LeaseStore :=
  { s with transfers := s.transfers.modify id fun t => { t with state := state } }

/-- `complete_lease_transfer`'s transaction. The row is overwritten whoever holds it. -/
def moveLease (s : LeaseStore) (id : Nat) (t : LeaseTransfer) (nowMs : Int) : LeaseStore :=
  let s := s.setTransferState id .completed
  match s.leases t.key with
  | none => s
  | some l =>
    s.setLease t.key (some { l with
      leaderAgentId := t.toAgentId, epoch := t.fromEpoch + 1, leaseExpiresAt := nowMs + 30000, acquiredAt := nowMs })

/-- `reject_lease_transfer`; `none` when no row matches. -/
def rejectLeaseTransfer (s : LeaseStore) (id : Nat) : Option LeaseStore :=
  match s.transfers[id]? with
  | some t => if t.state = .pending ∨ t.state = .accepted then some (s.setTransferState id .rejected) else none
  | none => none

/-- `cleanup_timed_out_transfers`. -/
def cleanupTimedOutTransfers (s : LeaseStore) (nowMs : Int) : LeaseStore :=
  { s with transfers := s.transfers.map fun t =>
      if (t.state = .pending ∨ t.state = .accepted) ∧ t.timeoutAt < nowMs then { t with state := .timedOut } else t }

end LeaseStore

open LeaseStore

/-! ## Calls in flight -/

/-- A call before its next statement, with what it has read. -/
inductive Call where
  | acquire (k : LeaseKey) (organizationId agentId : String) (nowMs expiresAt : Int)
  | acquireVerify (k : LeaseKey) (agentId : String)
  | initiate (k : LeaseKey) (fromAgentId toAgentId : String) (timeoutAt : Int)
  | initiateCheck (k : LeaseKey) (fromAgentId toAgentId : String) (timeoutAt : Int) (fromEpoch : Nat)
  | initiateInsert (k : LeaseKey) (fromAgentId toAgentId : String) (timeoutAt : Int) (fromEpoch : Nat)
  | accept (id : Nat) (agentId : String) (nowMs : Int)
  | acceptUpdate (id : Nat)
  | complete (id : Nat) (nowMs : Int)
  | completeMove (id : Nat) (t : LeaseTransfer) (nowMs : Int)

/-- How a call ends. -/
inductive Outcome where
  | acquired (k : LeaseKey) (agentId : String) (lease : PartitionLease)
  | initiated (id : Nat)
  | accepted (id : Nat)
  | completed (t : LeaseTransfer)
  | failed (e : LeaseError)

/-- The next statement of a call: the store after it, and the rest of the call or its outcome. -/
def Call.next (nowMs : Int) (s : LeaseStore) : Call → LeaseStore × (Call ⊕ Outcome)
  | .acquire k organizationId agentId now expiresAt =>
    (s.upsertLease k organizationId agentId now expiresAt, .inl (.acquireVerify k agentId))
  | .acquireVerify k agentId =>
    match s.getPartitionLease k nowMs with
    | some l => if l.leaderAgentId = agentId then (s, .inr (.acquired k agentId l)) else (s, .inr (.failed (.leasedToAnother k)))
    | none => (s, .inr (.failed (.notFoundAfterAcquisition k)))
  | .initiate k fromAgentId toAgentId timeoutAt =>
    match s.getPartitionLease k nowMs with
    | some l =>
      if l.leaderAgentId = fromAgentId then (s, .inl (.initiateCheck k fromAgentId toAgentId timeoutAt l.epoch))
      else (s, .inr (.failed (.notHeldBy k fromAgentId)))
    | none => (s, .inr (.failed (.noLease k)))
  | .initiateCheck k fromAgentId toAgentId timeoutAt fromEpoch =>
    if s.hasTransferInProgress k then (s, .inr (.failed (.transferInProgress k)))
    else (s, .inl (.initiateInsert k fromAgentId toAgentId timeoutAt fromEpoch))
  | .initiateInsert k fromAgentId toAgentId timeoutAt fromEpoch =>
    ({ s with transfers := s.transfers ++ [⟨k, fromAgentId, toAgentId, fromEpoch, .pending, timeoutAt⟩] },
      .inr (.initiated s.transfers.length))
  | .accept id agentId now =>
    match s.transfers[id]? with
    | none => (s, .inr (.failed (.transferNotFound id)))
    | some t =>
      if t.state ≠ .pending then (s, .inr (.failed (.notInState id t.state)))
      else if t.toAgentId ≠ agentId then (s, .inr (.failed (.notFor id agentId)))
      else if now > t.timeoutAt then (s, .inr (.failed (.timedOut id)))
      else (s, .inl (.acceptUpdate id))
  | .acceptUpdate id => (s.setTransferState id .accepted, .inr (.accepted id))
  | .complete id now =>
    match s.transfers[id]? with
    | none => (s, .inr (.failed (.transferNotFound id)))
    | some t => if t.state ≠ .accepted then (s, .inr (.failed (.notInState id t.state))) else (s, .inl (.completeMove id t now))
  | .completeMove id t now => (s.moveLease id t now, .inr (.completed t))

/-- An agent that was told it has the lease, until when. -/
structure Told where
  key : LeaseKey
  agentId : String
  expiresAt : Int

/-- An epoch given to an agent. -/
structure Grant where
  agentId : String
  epoch : Nat
deriving DecidableEq

/-- The store with the clock, the calls in flight, every grant that was ever recorded
and the agents that were told they hold a lease (and have not given it up). -/
structure Cluster where
  now : Int
  store : LeaseStore
  calls : List Call
  grants : LeaseKey → List Grant
  told : List Told

/-- What agents can ask for. -/
inductive Request where
  | acquire (k : LeaseKey) (organizationId agentId : String) (leaseDurationMs : Int)
  | initiate (k : LeaseKey) (fromAgentId toAgentId : String) (timeoutMs : Nat)
      (plain : ∀ t ∈ [k.topic, fromAgentId, toAgentId], QuoteFree t)
  | accept (id : Nat) (agentId : String)
  | complete (id : Nat)
deriving DecidableEq

inductive LeaseEvent where
  | tick (ms : Nat)
  | start (r : Request)
  /-- The next statement of the call at this place in the list. -/
  | proceed (i : Nat)
  | release (k : LeaseKey) (agentId : String)
  | reject (id : Nat)
  | cleanup
deriving DecidableEq

/-- The first clock reading of a call. -/
def Request.call (now : Int) : Request → Call
  | .acquire k organizationId agentId leaseDurationMs => .acquire k organizationId agentId now (now + leaseDurationMs)
  | .initiate k fromAgentId toAgentId timeoutMs _ => .initiate k fromAgentId toAgentId (now + timeoutMs)
  | .accept id agentId => .accept id agentId now
  | .complete id => .complete id now

namespace Cluster

/-- The store changes; a row that was written is noted as a grant. -/
def write (s : Cluster) (store : LeaseStore) : Cluster :=
  { s with
    store := store
    grants := fun k => match store.leases k with
      | some l => if s.store.leases k = some l then s.grants k else s.grants k ++ [⟨l.leaderAgentId, l.epoch⟩]
      | none => s.grants k }

/-- Who knows of a lease after a statement. A grant to the agent itself moves the
expiry of a lease it holds already; a completed transfer ends it for both sides. -/
def tell (s : Cluster) : Call → Call ⊕ Outcome → List Told
  | .acquire k _ agentId _ expiresAt, _ =>
    if (s.store.leases k).any (fun l => l.leaderAgentId = agentId) then
      s.told.map fun t => if t.key = k ∧ t.agentId = agentId then { t with expiresAt := expiresAt } else t
    else s.told
  | _, .inr (.acquired k agentId l) => s.told ++ [⟨k, agentId, l.leaseExpiresAt⟩]
  | _, .inr (.completed t) => s.told.filter fun x => !(x.key == t.key && (x.agentId == t.fromAgentId || x.agentId == t.toAgentId))
  | _, _ => s.told

/-- The next statement of the call `c` at place `i`. -/
def advance (s : Cluster) (i : Nat) (c : Call) : Cluster :=
  let (store, rest) := c.next s.now s.store
  let s := s.write store
  { s with
    told := s.tell c rest
    calls := match rest with
      | .inl c => s.calls.set i c
      | .inr _ => s.calls.eraseIdx i }

def step (s : Cluster) : LeaseEvent → Cluster
  | .tick ms => { s with now := s.now + ms }
  | .start r => { s with calls := s.calls ++ [r.call s.now] }
  | .proceed i =>
    match s.calls[i]? with
    | some c => s.advance i c
    | none => s
  | .release k agentId =>
    match s.store.releasePartitionLease k agentId with
    | .ok store => { s.write store with told := s.told.filter fun x => !(x.key == k && x.agentId == agentId) }
    | .error _ => s
  | .reject id =>
    match s.store.rejectLeaseTransfer id with
    | some store => s.write store
    | none => s
  | .cleanup => s.write (s.store.cleanupTimedOutTransfers s.now)

/-- No lease, no transfer, no call. -/
def initial (now : Int) : Cluster := ⟨now, ⟨fun _ => none, []⟩, [], fun _ => [], []⟩

end Cluster

open Cluster

/-- Whenever the leader changes, the new one's epoch is above all that were given before. -/
def Fenced (grants : List Grant) : Prop :=
  ∀ before old new after, grants = before ++ old :: new :: after → old.agentId ≠ new.agentId →
    ∀ g ∈ before ++ [old], g.epoch < new.epoch

/-- (a) every partition's grants are fenced, and (b) an agent that was told it has a
lease is the one `get_partition_lease` reports until the lease expires. -/
structure Cluster.Safe (s : Cluster) : Prop where
  fenced : ∀ k, Fenced (s.grants k)
  reported : ∀ t ∈ s.told, s.now < t.expiresAt →
    ∃ l, s.store.getPartitionLease t.key s.now = some l ∧ l.leaderAgentId = t.agentId

/-! ## The condition and the invariant -/

/-- An upsert makes a new row only for a partition that was never leased, and a
transfer is completed only while its source still has the lease it offered. -/
def Cluster.Sound (s : Cluster) : LeaseEvent → Prop
  | .proceed i => match s.calls[i]? with
    | some (.acquire k _ _ _ _) => s.store.leases k = none → s.grants k = []
    | some (.completeMove _ t _) => ∀ l ∈ s.store.leases t.key, l.leaderAgentId = t.fromAgentId ∧ l.epoch = t.fromEpoch
    | _ => True
  | _ => True

instance (s : Cluster) (e : LeaseEvent) : Decidable (s.Sound e) := by
  cases e with
  | proceed i =>
    simp only [Sound]
    cases s.calls[i]? with
    | none => exact inferInstanceAs (Decidable True)
    | some c => cases c <;> infer_instance
  | _ => exact inferInstanceAs (Decidable True)

/-- Epochs only rise, and the row shows the last of them. -/
structure Rising (leases : LeaseKey → Option PartitionLease) (grants : LeaseKey → List Grant) : Prop where
  rising : ∀ k, (grants k).Pairwise fun a b => a.epoch < b.epoch
  last : ∀ k l, leases k = some l → (grants k).getLast? = some ⟨l.leaderAgentId, l.epoch⟩

variable {s : Cluster}

theorem Rising.fenced {leases : LeaseKey → Option PartitionLease} {grants : LeaseKey → List Grant}
    (r : Rising leases grants) (k : LeaseKey) : Fenced (grants k) := by
  intro before old new after split _ g member
  have rising := r.rising k
  have regrouped : grants k = (before ++ [old]) ++ (new :: after) := by simp [split]
  rw [regrouped, List.pairwise_append] at rising
  exact rising.2.2 g member new mem_cons_self

/-- No grant is above the row's. -/
theorem Rising.le {leases : LeaseKey → Option PartitionLease} {grants : LeaseKey → List Grant}
    (r : Rising leases grants) {k : LeaseKey} {l : PartitionLease} (row : leases k = some l) :
    ∀ g ∈ grants k, g.epoch ≤ l.epoch := by
  intro g member
  obtain ⟨front, shape⟩ := getLast?_eq_some_iff.mp (r.last k l row)
  have rising := r.rising k
  rw [shape, List.pairwise_append] at rising
  rw [shape] at member
  rcases mem_append.mp member with earlier | final
  · exact Nat.le_of_lt (rising.2.2 g earlier _ mem_cons_self)
  · exact Nat.le_of_eq (congrArg Grant.epoch (mem_singleton.mp final))

namespace Cluster

variable {store : LeaseStore}

/-- Writes that leave the rows alone. -/
theorem write_same (same : store.leases = s.store.leases) : (s.write store).grants = s.grants := by
  funext k
  simp only [write, same]
  split
  · next l row => simp [row]
  · rfl

theorem Rising.removed (r : Rising s.store.leases s.grants) {k : LeaseKey}
    (rows : store.leases = update s.store.leases k none) :
    Rising (s.write store).store.leases (s.write store).grants := by
  have same : (s.write store).grants = s.grants := by
    funext k'
    simp only [write, rows]
    by_cases here : k' = k
    · subst here
      simp
    · simp only [update_of_ne here]
      split
      · next l row => simp [row]
      · rfl
  rw [same]
  refine ⟨r.rising, ?_⟩
  intro k' l row
  simp only [write, rows] at row
  by_cases here : k' = k
  · subst here
    simp at row
  · rw [update_of_ne here] at row
    exact r.last k' l row

/-- A row written with an epoch above all earlier ones. -/
theorem Rising.granted (r : Rising s.store.leases s.grants) {k : LeaseKey}
    {l : PartitionLease} (rows : store.leases = update s.store.leases k (some l))
    (above : ∀ g ∈ s.grants k, g.epoch < l.epoch) :
    Rising (s.write store).store.leases (s.write store).grants := by
  have new : s.store.leases k ≠ some l := by
    intro row
    have last := mem_of_getLast? (r.last k l row)
    exact Nat.lt_irrefl _ (above _ last)
  have noted : (s.write store).grants = update s.grants k (s.grants k ++ [⟨l.leaderAgentId, l.epoch⟩]) := by
    funext k'
    simp only [write, rows]
    by_cases here : k' = k
    · subst here
      simp [new]
    · simp only [update_of_ne here]
      split
      · next l row => simp [row]
      · rfl
  rw [noted]
  constructor
  · intro k'
    by_cases here : k' = k
    · subst here
      rw [update_self, List.pairwise_append]
      refine ⟨r.rising k', pairwise_singleton _ _, ?_⟩
      intro g member x final
      rw [mem_singleton.mp final]
      exact above g member
    · rw [update_of_ne here]
      exact r.rising k'
  · intro k' l' row
    simp only [write, rows] at row
    by_cases here : k' = k
    · subst here
      rw [update_self] at row ⊢
      cases row
      simp
    · rw [update_of_ne here] at row ⊢
      exact r.last k' l' row

/-- Every lease an agent was told of, and that has not expired, is in the table as told. -/
def Held (now : Int) (leases : LeaseKey → Option PartitionLease) (told : List Told) : Prop :=
  ∀ t ∈ told, now < t.expiresAt →
    ∃ l, leases t.key = some l ∧ l.leaderAgentId = t.agentId ∧ l.leaseExpiresAt = t.expiresAt

/-- A call's clock reading is not ahead of the clock. -/
def Clocked (now : Int) : Call → Prop
  | .acquire _ _ _ nowMs _ => nowMs ≤ now
  | _ => True

/-- What sound runs keep. -/
structure Inv (s : Cluster) : Prop where
  rising : Rising s.store.leases s.grants
  held : Held s.now s.store.leases s.told
  clocks : ∀ c ∈ s.calls, Clocked s.now c

theorem Inv.safe (inv : s.Inv) : s.Safe := by
  refine ⟨inv.rising.fenced, ?_⟩
  intro t member live
  obtain ⟨l, row, leader, expires⟩ := inv.held t member live
  refine ⟨l, ?_, leader⟩
  simp [getPartitionLease, row, Option.filter, expires, live]

/-- The upsert: no change, or one row granted to the agent. -/
theorem upsertLease_cases (s : LeaseStore) (k : LeaseKey) (organizationId agentId : String) (nowMs expiresAt : Int) :
    (s.upsertLease k organizationId agentId nowMs expiresAt = s ∧ ∃ l, s.leases k = some l ∧ l.leaderAgentId ≠ agentId) ∨
    ∃ l, s.upsertLease k organizationId agentId nowMs expiresAt = s.setLease k (some l) ∧
      l.leaderAgentId = agentId ∧ l.leaseExpiresAt = expiresAt ∧
      (s.leases k = none ∨ ∃ old, s.leases k = some old ∧ l.epoch = old.epoch + 1 ∧
        (old.leaderAgentId = agentId ∨ old.leaseExpiresAt < nowMs)) := by
  unfold upsertLease
  cases row : s.leases k with
  | none => exact .inr ⟨_, rfl, rfl, rfl, .inl rfl⟩
  | some old =>
    simp only
    split
    · next granted => exact .inr ⟨_, rfl, rfl, rfl, .inr ⟨old, rfl, rfl, granted.imp_left Eq.symm⟩⟩
    · next refused => exact .inl ⟨rfl, old, rfl, fun same => refused (.inl same.symm)⟩

section Upsert

variable {k : LeaseKey} {organizationId agentId : String} {now expiresAt : Int}

theorem rising_upsert (inv : s.Inv) (unleased : s.store.leases k = none → s.grants k = []) :
    let after := s.write (s.store.upsertLease k organizationId agentId now expiresAt)
    Rising after.store.leases after.grants := by
  intro after
  rcases upsertLease_cases s.store k organizationId agentId now expiresAt with ⟨same, -⟩ | ⟨l, written, -, -, origin⟩
  · simp only [after, same, write_same (s := s) rfl]
    exact inv.rising
  · simp only [after, written]
    apply Rising.granted inv.rising rfl
    intro g member
    rcases origin with absent | ⟨old, row, epoch, -⟩
    · rw [unleased absent] at member
      cases member
    · have := inv.rising.le row g member
      omega

theorem held_upsert (inv : s.Inv) (clock : now ≤ s.now) (rest : Call ⊕ Outcome) :
    let after := s.write (s.store.upsertLease k organizationId agentId now expiresAt)
    Held s.now after.store.leases (after.tell (.acquire k organizationId agentId now expiresAt) rest) := by
  intro after
  rcases upsertLease_cases s.store k organizationId agentId now expiresAt with
    ⟨same, l, row, other⟩ | ⟨l, written, leader, expires, origin⟩
  · have told : after.tell (.acquire k organizationId agentId now expiresAt) rest = s.told := by
      simp [tell, after, write, same, row, other]
    rw [told]
    simp only [after, write, same]
    exact inv.held
  · have here : after.store.leases k = some l := by simp [after, write, written, setLease]
    simp only [tell, here, Option.any_some, leader, decide_true, if_true]
    intro t member live
    obtain ⟨t0, old, rfl⟩ := mem_map.mp member
    by_cases own : t0.key = k ∧ t0.agentId = agentId
    · obtain ⟨rfl, rfl⟩ := own
      simp only [and_self, if_true]
      exact ⟨l, here, leader, expires⟩
    · rw [if_neg own] at live ⊢
      obtain ⟨l0, row, leader0, expires0⟩ := inv.held t0 old live
      by_cases same : t0.key = k
      · -- a live lease of another agent is not taken over
        exfalso
        rw [same] at row
        rcases origin with absent | ⟨x, row', -, mine | late⟩
        · rw [absent] at row
          cases row
        · rw [row] at row'
          cases row'
          exact own ⟨same, leader0.symm.trans mine⟩
        · rw [row] at row'
          cases row'
          omega
      · refine ⟨l0, ?_, leader0, expires0⟩
        simp only [after, write, written, setLease]
        rw [update_of_ne same]
        exact row

end Upsert

section Move

variable {id : Nat} {t : LeaseTransfer} {now : Int}

theorem moveLease_leases (store : LeaseStore) (id : Nat) (t : LeaseTransfer) (now : Int) :
    (store.moveLease id t now).leases = store.leases ∧ store.leases t.key = none ∨
    ∃ old l, store.leases t.key = some old ∧ (store.moveLease id t now).leases = update store.leases t.key (some l) ∧
      l.epoch = t.fromEpoch + 1 := by
  unfold moveLease
  cases row : store.leases t.key with
  | none =>
    refine .inl ⟨?_, rfl⟩
    simp [setTransferState, row]
  | some old =>
    refine .inr ⟨old, ⟨old.organizationId, t.toAgentId, now + 30000, now, t.fromEpoch + 1⟩, rfl, ?_, rfl⟩
    simp [setTransferState, row, setLease]

theorem rising_move (inv : s.Inv)
    (offered : ∀ l ∈ s.store.leases t.key, l.leaderAgentId = t.fromAgentId ∧ l.epoch = t.fromEpoch) :
    let after := s.write (s.store.moveLease id t now)
    Rising after.store.leases after.grants := by
  intro after
  rcases moveLease_leases s.store id t now with ⟨same, -⟩ | ⟨old, l, row, moved, epoch⟩
  · simp only [after, write_same same]
    simp only [write, same]
    exact inv.rising
  · apply Rising.granted inv.rising moved
    intro g member
    have := inv.rising.le row g member
    have := (offered old row).2
    omega

theorem held_move (inv : s.Inv)
    (offered : ∀ l ∈ s.store.leases t.key, l.leaderAgentId = t.fromAgentId ∧ l.epoch = t.fromEpoch) :
    Held s.now (s.store.moveLease id t now).leases
      (s.told.filter fun x => !(x.key == t.key && (x.agentId == t.fromAgentId || x.agentId == t.toAgentId))) := by
  intro x member live
  obtain ⟨old, apart⟩ := mem_filter.mp member
  obtain ⟨l, row, leader, expires⟩ := inv.held x old live
  refine ⟨l, ?_, leader, expires⟩
  rcases moveLease_leases s.store id t now with ⟨same, -⟩ | ⟨prior, new, there, moved, -⟩
  · rw [same]
    exact row
  · rw [moved, update_of_ne, row]
    intro here
    -- whoever holds this row is the transfer's source, and was dropped from the list
    rw [here] at row
    have source := (offered l row).1
    simp [here, ← leader, source] at apart

end Move

/-- The statements that leave leases and what is known of them alone. -/
def Quiet : Call → Prop
  | .acquire .. => False
  | .acquireVerify .. => False
  | .completeMove .. => False
  | _ => True

theorem next_quiet {c : Call} (quiet : Quiet c) :
    (c.next s.now s.store).1.leases = s.store.leases ∧
      ∀ s' : Cluster, s'.told = s.told → s'.tell c (c.next s.now s.store).2 = s.told := by
  cases c with
  | acquire => exact quiet.elim
  | acquireVerify => exact quiet.elim
  | completeMove => exact quiet.elim
  | initiate k fromAgentId toAgentId timeoutAt =>
    simp only [Call.next]
    split
    · split <;> exact ⟨rfl, fun s' same => same⟩
    · exact ⟨rfl, fun s' same => same⟩
  | initiateCheck k fromAgentId toAgentId timeoutAt fromEpoch =>
    simp only [Call.next]
    split <;> exact ⟨rfl, fun s' same => same⟩
  | initiateInsert k fromAgentId toAgentId timeoutAt fromEpoch => exact ⟨rfl, fun s' same => same⟩
  | accept id agentId now =>
    simp only [Call.next]
    split
    · exact ⟨rfl, fun s' same => same⟩
    · split
      · exact ⟨rfl, fun s' same => same⟩
      · split
        · exact ⟨rfl, fun s' same => same⟩
        · split <;> exact ⟨rfl, fun s' same => same⟩
  | acceptUpdate id => exact ⟨rfl, fun s' same => same⟩
  | complete id now =>
    simp only [Call.next]
    split
    · exact ⟨rfl, fun s' same => same⟩
    · split <;> exact ⟨rfl, fun s' same => same⟩

/-- What a call goes on with is never another upsert. -/
theorem next_clocked {now : Int} {c c' : Call} (more : (c.next now store).2 = .inl c') : Clocked now c' := by
  cases c <;> simp only [Call.next] at more <;> (repeat' split at more) <;> cases more <;> trivial

/-- The verifying read of `acquire_partition_lease`. -/
theorem held_verify (inv : s.Inv) (k : LeaseKey) (agentId : String) :
    ((Call.acquireVerify k agentId).next s.now s.store).1 = s.store ∧
      ∀ s' : Cluster, s'.told = s.told →
        Held s.now s.store.leases (s'.tell (.acquireVerify k agentId) ((Call.acquireVerify k agentId).next s.now s.store).2) := by
  simp only [Call.next]
  split
  · next l found =>
    split
    · next leader =>
      refine ⟨rfl, ?_⟩
      intro s' same t member live
      simp only [tell, same] at member
      rcases mem_append.mp member with old | new
      · exact inv.held t old live
      · obtain rfl := mem_singleton.mp new
        exact ⟨l, (Option.filter_eq_some_iff.mp found).1, leader, rfl⟩
    · refine ⟨rfl, ?_⟩
      intro s' same
      simp only [tell, same]
      exact inv.held
  · refine ⟨rfl, ?_⟩
    intro s' same
    simp only [tell, same]
    exact inv.held

/-- The calls left after a statement are clocked. -/
theorem clocks_advance (inv : s.Inv) (i : Nat) (c : Call) :
    ∀ c' ∈ (s.advance i c).calls, Clocked s.now c' := by
  simp only [advance]
  cases more : (c.next s.now s.store).2 with
  | inl d =>
    intro c' member
    rcases mem_or_eq_of_mem_set member with old | rfl
    · exact inv.clocks c' old
    · exact next_clocked more
  | inr outcome =>
    intro c' member
    exact inv.clocks c' (mem_of_mem_eraseIdx member)

theorem Inv.quiet (inv : s.Inv) (i : Nat) {c : Call} (quiet : Quiet c) : (s.advance i c).Inv := by
  obtain ⟨same, told⟩ := next_quiet (s := s) quiet
  refine ⟨?_, ?_, clocks_advance inv i c⟩
  · simp only [advance, write_same same]
    simp only [write, same]
    exact inv.rising
  · simp only [advance, told (s.write (c.next s.now s.store).1) rfl]
    simp only [write, same]
    exact inv.held

theorem Inv.verify (inv : s.Inv) (i : Nat) (k : LeaseKey) (agentId : String) :
    (s.advance i (.acquireVerify k agentId)).Inv := by
  obtain ⟨same, held⟩ := held_verify inv k agentId
  refine ⟨?_, ?_, clocks_advance inv i (.acquireVerify k agentId)⟩
  · simp only [advance, same, write_same (s := s) rfl]
    exact inv.rising
  · simp only [advance, same]
    exact held _ rfl

theorem Inv.proceed (inv : s.Inv) {i : Nat} (sound : s.Sound (.proceed i)) : (s.step (.proceed i)).Inv := by
  simp only [Sound] at sound
  simp only [step]
  cases found : s.calls[i]? with
  | none => exact inv
  | some c =>
    have pending : c ∈ s.calls := mem_of_getElem? found
    rw [found] at sound
    cases c with
    | acquire k organizationId agentId now expiresAt =>
      exact ⟨rising_upsert inv sound, held_upsert inv (inv.clocks _ pending) (.inl (.acquireVerify k agentId)),
        clocks_advance inv i (.acquire k organizationId agentId now expiresAt)⟩
    | acquireVerify k agentId => exact inv.verify i k agentId
    | completeMove id t now =>
      exact ⟨rising_move inv sound, held_move inv sound, clocks_advance inv i (.completeMove id t now)⟩
    | initiate k fromAgentId toAgentId timeoutAt => exact inv.quiet i trivial
    | initiateCheck k fromAgentId toAgentId timeoutAt fromEpoch => exact inv.quiet i trivial
    | initiateInsert k fromAgentId toAgentId timeoutAt fromEpoch => exact inv.quiet i trivial
    | accept id agentId now => exact inv.quiet i trivial
    | acceptUpdate id => exact inv.quiet i trivial
    | complete id now => exact inv.quiet i trivial

theorem Inv.release (inv : s.Inv) (k : LeaseKey) (agentId : String) : (s.step (.release k agentId)).Inv := by
  simp only [step, releasePartitionLease]
  cases row : s.store.leases k with
  | none => exact inv
  | some l =>
    by_cases own : l.leaderAgentId = agentId
    · simp only [own, if_true]
      refine ⟨Rising.removed inv.rising rfl, ?_, inv.clocks⟩
      intro t member live
      obtain ⟨old, apart⟩ := mem_filter.mp member
      obtain ⟨x, there, leader, expires⟩ := inv.held t old live
      refine ⟨x, ?_, leader, expires⟩
      simp only [write, setLease]
      rw [update_of_ne, there]
      intro here
      rw [here, row] at there
      cases there
      simp [here, ← leader, own] at apart
    · simp only [own, if_false]
      exact inv

theorem Inv.transfersOnly (inv : s.Inv) (same : store.leases = s.store.leases) : (s.write store).Inv := by
  refine ⟨?_, ?_, inv.clocks⟩
  · rw [write_same same]
    simp only [write, same]
    exact inv.rising
  · simp only [write, same]
    exact inv.held

theorem Inv.step (inv : s.Inv) {e : LeaseEvent} (sound : s.Sound e) : (s.step e).Inv := by
  cases e with
  | tick ms =>
    refine ⟨inv.rising, ?_, ?_⟩
    · intro t member live
      exact inv.held t member (by simp only [Cluster.step] at live; omega)
    · intro c member
      have clocked := inv.clocks c member
      cases c <;> simp only [Cluster.step, Clocked] at clocked ⊢
      omega
  | start r =>
    refine ⟨inv.rising, inv.held, ?_⟩
    intro c member
    rcases mem_append.mp member with old | new
    · exact inv.clocks c old
    · obtain rfl := mem_singleton.mp new
      cases r <;> simp [Request.call, Clocked, Cluster.step]
  | proceed i => exact inv.proceed sound
  | release k agentId => exact inv.release k agentId
  | reject id =>
    simp only [Cluster.step, rejectLeaseTransfer]
    split
    · next store rejected =>
      split at rejected
      · split at rejected
        · cases rejected
          exact inv.transfersOnly rfl
        · cases rejected
      · cases rejected
    · exact inv
  | cleanup => exact inv.transfersOnly rfl

theorem initial_inv (now : Int) : (initial now).Inv :=
  ⟨⟨fun _ => List.Pairwise.nil, by simp [initial]⟩, by simp [initial, Held], by simp [initial]⟩

end Cluster

/-- **Lease safety** in every run in which no row is made anew for a partition that
was leased before and no transfer is completed from a lease that has moved on. -/
theorem fenced_run (now : Int) {events : List LeaseEvent}
    (sound : Meets step Sound (initial now) events) :
    (run step (initial now) events).Safe :=
  (sound.invariant (fun _ _ inv ok => Inv.step inv ok) (initial_inv now)).safe

namespace Example

def orders : LeaseKey := ⟨"orders", 0⟩

/-- A whole `acquire_partition_lease` with nothing in between. -/
def acquires (agentId : String) : List LeaseEvent := [.start (.acquire orders "acme" agentId 30000), .proceed 0, .proceed 0]

/-- `a` acquires and renews, then releases; `b` acquires. -/
def released : List LeaseEvent := acquires "a" ++ acquires "a" ++ [.release orders "a"] ++ acquires "b"

def offer : Request := .initiate orders "a" "b" 5000 (by decide)

/-- `a` hands the lease over to `b` by a transfer. -/
def handover : List LeaseEvent :=
  acquires "a" ++ [.start offer, .proceed 0, .proceed 0, .proceed 0, .start (.accept 0 "b"),
    .proceed 0, .proceed 0, .tick 10, .start (.complete 0), .proceed 0, .proceed 0] ++ acquires "b"

end Example

open Example

/-- `b` becomes the leader with epoch 1, after `a` was given epoch 2. -/
theorem fenced_run_fails :
    (run step (initial 0) released).grants orders = [⟨"a", 1⟩, ⟨"a", 2⟩, ⟨"b", 1⟩] ∧
      ¬ (run step (initial 0) released).Safe := by
  have grants : (run step (initial 0) released).grants orders =
      [⟨"a", 1⟩, ⟨"a", 2⟩, ⟨"b", 1⟩] := by decide
  refine ⟨grants, fun safe => ?_⟩
  have fenced := safe.fenced orders
  rw [grants] at fenced
  have less := fenced [⟨"a", 1⟩] ⟨"a", 2⟩ ⟨"b", 1⟩ [] rfl (by decide) ⟨"a", 2⟩ (by decide)
  revert less
  decide

theorem fenced_run_handover :
    (run step (initial 0) handover).grants orders = [⟨"a", 1⟩, ⟨"b", 2⟩, ⟨"b", 3⟩] ∧
      (run step (initial 0) handover).Safe :=
  ⟨by decide, fenced_run 0 (by decide)⟩

end StreamHouse.Metadata
