import StreamHouse.Lib.Noninterference
import StreamHouse.Metadata.Leases
import StreamHouse.Metadata.Transactions
import StreamHouse.Metadata.Watermark

/-!
# Organizations that share the store

The tables of one store hold the rows of every organization. `consumer_offsets` and
`partition_leases` have a unique key without the organization, `segments` and
`partition_lso` a primary key without it, and half of the statements name none either.
Two organizations with topics of the same name therefore meet in the same rows. What
one of them does must not change what the other reads for its own topics, now or after
the other goes on.
-/

namespace StreamHouse.Metadata
open Lib List Function LeaseStore

/-- The unique key of `consumer_offsets`. No organization is part of it. -/
structure OffsetKey where
  groupId : String
  topic : String
  partitionId : Nat
deriving DecidableEq

structure ConsumerOffset where
  organizationId : String
  committedOffset : Nat
  metadata : Option String

abbrev ConsumerOffsets := OffsetKey → Option ConsumerOffset

/-- `commit_offset_for_org`'s upsert: a row that is there keeps its organization. -/
def ConsumerOffsets.commitOffsetForOrg (rows : ConsumerOffsets) (orgId : String) (k : OffsetKey) (offset : Nat)
    (metadata : Option String) : ConsumerOffsets :=
  update rows k (some (match rows k with
    | some row => { row with committedOffset := offset, metadata }
    | none => ⟨orgId, offset, metadata⟩))

/-- `get_committed_offset_for_org`. -/
def ConsumerOffsets.getCommittedOffsetForOrg (rows : ConsumerOffsets) (orgId : String) (k : OffsetKey) : Option Nat :=
  match rows k with
  | some row => if row.organizationId = orgId then some row.committedOffset else none
  | none => none

/-- The id is built from topic, partition and base offset. -/
def SegmentNamed (s : SegmentInfo) : Prop :=
  s.id = .segment s.topic s.partitionId s.baseOffset ∨ s.id = .compacted s.topic s.partitionId s.baseOffset

/-- A segment as its writers describe it to the store. -/
structure NamedSegment where
  info : SegmentInfo
  named : SegmentNamed info
  /-- `CHECK (end_offset >= base_offset)`. -/
  ordered : info.baseOffset ≤ info.endOffset

structure TenantStore where
  consumerOffsets : ConsumerOffsets
  leases : LeaseStore
  segments : SegmentStore
  transactions : TransactionStore
  named : ∀ r ∈ segments.segments, SegmentNamed r.info
  /-- The topics of `transaction_partitions` get into SQL as they are. -/
  plain : ∀ id t, transactions.transactions id = some t → ∀ p ∈ t.partitions, QuoteFree p.key.topic

inductive TenantOp where
  | commitOffsetForOrg (k : OffsetKey) (offset : Nat) (metadata : Option String)
  | acquirePartitionLease (k : LeaseKey) (agentId : String) (nowMs leaseDurationMs : Int)
  | releasePartitionLease (k : LeaseKey) (agentId : String)
  | addSegment (segment : NamedSegment)
  /-- `commit_transaction` or `abort_transaction`, and with `forOrg` the variant for an organization. -/
  | endTransaction (marker : TransactionMarkerType) (forOrg : Bool) (id : TransactionId) (plain : QuoteFree id)

/-- An operation and the organization it is performed for. -/
structure TenantCall where
  orgId : String
  op : TenantOp

namespace TenantStore

def commitOffsetForOrg (m : TenantStore) (orgId : String) (k : OffsetKey) (offset : Nat) (metadata : Option String) : TenantStore :=
  { m with consumerOffsets := m.consumerOffsets.commitOffsetForOrg orgId k offset metadata }

def getCommittedOffsetForOrg (m : TenantStore) (orgId : String) (k : OffsetKey) : Option Nat :=
  m.consumerOffsets.getCommittedOffsetForOrg orgId k

/-- `add_segment`, nothing if the id is taken. -/
def addSegment (m : TenantStore) (orgId : String) (segment : NamedSegment) : TenantStore :=
  match added : m.segments.addSegment orgId segment.info with
  | .ok segments =>
    { m with
      segments
      named := by
        obtain ⟨rfl, -⟩ := SegmentStore.insert_ok added
        intro r member
        obtain old | new := mem_append.1 member
        · exact m.named r old
        · obtain rfl := mem_singleton.1 new
          exact segment.named }
  | .error _ => m

def endTransaction (m : TenantStore) (marker : TransactionMarkerType) (scope : Option String) (id : TransactionId) : TenantStore :=
  { m with
    transactions := m.transactions.ended marker scope id
    plain := by
      intro other t present p member
      obtain ⟨row, found, inside⟩ := TransactionStore.mem_of_ended present member
      exact m.plain other row found p inside }

theorem endTransaction_transactions (m : TenantStore) (marker : TransactionMarkerType) (scope : Option String) (id : TransactionId) :
    (m.endTransaction marker scope id).transactions = m.transactions.ended marker scope id := rfl

def step (m : TenantStore) (c : TenantCall) : TenantStore :=
  match c.op with
  | .commitOffsetForOrg k offset metadata => m.commitOffsetForOrg c.orgId k offset metadata
  | .acquirePartitionLease k agentId nowMs leaseDurationMs =>
    { m with leases := m.leases.upsertLease k c.orgId agentId nowMs (nowMs + leaseDurationMs) }
  | .releasePartitionLease k agentId =>
    match m.leases.releasePartitionLease k agentId with
    | .ok leases => { m with leases }
    | .error _ => m
  | .addSegment segment => m.addSegment c.orgId segment
  | .endTransaction marker forOrg id _ => m.endTransaction marker (if forOrg then some c.orgId else none) id

end TenantStore

open TenantStore

/-- An organization and its topics. -/
structure Tenant where
  orgId : String
  topics : String → Bool
  plain : ∀ topic, topics topic = true → QuoteFree topic

/-- What the tenant reads for its own topics is the same in both stores. -/
structure ReadsSame (b : Tenant) (m m' : TenantStore) : Prop where
  committedOffset : ∀ k, b.topics k.topic = true →
    m.getCommittedOffsetForOrg b.orgId k = m'.getCommittedOffsetForOrg b.orgId k
  partitionLease : ∀ k nowMs, b.topics k.topic = true →
    m.leases.getPartitionLease k nowMs = m'.leases.getPartitionLease k nowMs
  segmentForOffset : ∀ topic partitionId offset, b.topics topic = true →
    m.segments.findSegmentForOffset topic partitionId offset = m'.segments.findSegmentForOffset topic partitionId offset
  lastStableOffset : ∀ k, b.topics k.topic = true →
    m.transactions.getLastStableOffset k = m'.transactions.getLastStableOffset k

/-- On a topic of the tenant: an offset goes to a row that is there, and if it is the tenant's
row it is the offset it has; a lease is neither granted nor given up; a segment's id is
taken; a transaction's partition has its last stable offset past it already. -/
def Harmless (b : Tenant) (m : TenantStore) (c : TenantCall) : Prop :=
  match c.op with
  | .commitOffsetForOrg k offset _ =>
    b.topics k.topic = true → ∃ row, m.consumerOffsets k = some row ∧ (row.organizationId = b.orgId → row.committedOffset = offset)
  | .acquirePartitionLease k agentId nowMs _ =>
    b.topics k.topic = true → ∃ l, m.leases.leases k = some l ∧ agentId ≠ l.leaderAgentId ∧ nowMs ≤ l.leaseExpiresAt
  | .releasePartitionLease k agentId => b.topics k.topic = true → ∀ l, m.leases.leases k = some l → l.leaderAgentId ≠ agentId
  | .addSegment segment => b.topics segment.info.topic = true → ¬ Free m.segments segment.info.id
  | .endTransaction _ forOrg id _ =>
    ∀ t, m.transactions.transactions id = some t → t.Visible (if forOrg then some c.orgId else none) →
      (t.state = .ongoing ∨ t.state = .preparing) →
      ∀ p ∈ t.partitions, b.topics p.key.topic = true → p.lastOffset + 1 ≤ m.transactions.getLastStableOffset p.key

/-! ### Two stores that a tenant cannot tell apart -/

namespace TenantStore

/-- What the tenant's reads and commits depend on: whether there is a row, and its offset if it is the tenant's. -/
def standing (m : TenantStore) (orgId : String) (k : OffsetKey) : Option (Option Nat) :=
  (m.consumerOffsets k).map fun row => if row.organizationId = orgId then some row.committedOffset else none

/-- The rows of the tenant's topics, whatever organization they are of. -/
def ownRows (m : TenantStore) (b : Tenant) : List SegmentInfo :=
  (m.segments.segments.map SegmentRow.info).filter fun s => b.topics s.topic

/-- Ending the transaction raises no last stable offset on a topic of the tenant, now or later. -/
def Spent (m : TenantStore) (b : Tenant) (id : TransactionId) : Prop :=
  ∀ t, m.transactions.transactions id = some t → ∀ p ∈ t.partitions, b.topics p.key.topic = true →
    p.lastOffset + 1 ≤ m.transactions.getLastStableOffset p.key

end TenantStore

structure SameFor (b : Tenant) (m m' : TenantStore) : Prop where
  offsets : ∀ k, b.topics k.topic = true → m.standing b.orgId k = m'.standing b.orgId k
  leases : ∀ k, b.topics k.topic = true → m.leases.leases k = m'.leases.leases k
  segments : m.ownRows b = m'.ownRows b
  lso : ∀ k, b.topics k.topic = true → m.transactions.getLastStableOffset k = m'.transactions.getLastStableOffset k
  transactions : ∀ id, m.transactions.transactions id = m'.transactions.transactions id ∨ m.Spent b id ∧ m'.Spent b id

theorem SameFor.refl (b : Tenant) (m : TenantStore) : SameFor b m m :=
  ⟨fun _ _ => rfl, fun _ _ => rfl, rfl, fun _ _ => rfl, fun _ => .inl rfl⟩

theorem getCommittedOffset_eq (m : TenantStore) (orgId : String) (k : OffsetKey) :
    m.getCommittedOffsetForOrg orgId k = (m.standing orgId k).join := by
  unfold getCommittedOffsetForOrg ConsumerOffsets.getCommittedOffsetForOrg standing
  cases m.consumerOffsets k with
  | none => rfl
  | some row => rfl

variable {b : Tenant} {m : TenantStore}

theorem findSegment_eq {topic : String} (own : b.topics topic = true) (partitionId offset : Nat) :
    m.segments.findSegmentForOffset topic partitionId offset =
      (((m.ownRows b).filter fun s =>
          decide (s.topic = topic ∧ s.partitionId = partitionId ∧ s.baseOffset ≤ offset ∧ offset ≤ s.endOffset)).insertionSort
        (fun a b => b.baseOffset ≤ a.baseOffset)).head? := by
  have rows : (m.segments.segments.map SegmentRow.info).filter (fun s =>
        decide (s.topic = topic ∧ s.partitionId = partitionId ∧ s.baseOffset ≤ offset ∧ offset ≤ s.endOffset)) =
      (m.ownRows b).filter fun s =>
        decide (s.topic = topic ∧ s.partitionId = partitionId ∧ s.baseOffset ≤ offset ∧ offset ≤ s.endOffset) := by
    rw [ownRows, filter_filter]
    refine filter_congr ?_
    intro s _
    by_cases same : s.topic = topic
    · simp [same, own]
    · simp [same]
  rw [SegmentStore.findSegmentForOffset, rows]

variable {m' : TenantStore} {offset : Nat} {segment : NamedSegment}

/-- What cannot be told apart reads the same. -/
theorem SameFor.reads (same : SameFor b m m') : ReadsSame b m m' where
  committedOffset k own := by rw [getCommittedOffset_eq, getCommittedOffset_eq, same.offsets k own]
  partitionLease k nowMs own := by rw [getPartitionLease, getPartitionLease, same.leases k own]
  segmentForOffset topic partitionId offset own := by rw [findSegment_eq own, findSegment_eq own, same.segments]
  lastStableOffset := same.lso

/-! ### Committed offsets -/

theorem standing_commit (m : TenantStore) (orgId own : String) (k : OffsetKey) (offset : Nat) (metadata : Option String) :
    (m.commitOffsetForOrg orgId k offset metadata).standing own k =
      match m.standing own k with
      | none => some (if orgId = own then some offset else none)
      | some none => some none
      | some (some _) => some (some offset) := by
  unfold standing commitOffsetForOrg ConsumerOffsets.commitOffsetForOrg
  simp only [update_self]
  cases m.consumerOffsets k with
  | none => rfl
  | some row =>
    by_cases its : row.organizationId = own
    · simp [its]
    · simp [its]

theorem standing_commit_of_ne {k other : OffsetKey} (different : other ≠ k) (orgId own : String)
    (offset : Nat) (metadata : Option String) :
    (m.commitOffsetForOrg orgId k offset metadata).standing own other = m.standing own other := by
  simp only [standing, commitOffsetForOrg, ConsumerOffsets.commitOffsetForOrg, update_of_ne different]

theorem commitOffset_shared (same : SameFor b m m') (orgId : String) (k : OffsetKey)
    (offset : Nat) (metadata : Option String) :
    SameFor b (m.commitOffsetForOrg orgId k offset metadata) (m'.commitOffsetForOrg orgId k offset metadata) := by
  refine ⟨?_, same.leases, same.segments, same.lso, same.transactions⟩
  intro other own
  by_cases equal : other = k
  · subst equal
    rw [standing_commit, standing_commit, same.offsets other own]
  · rw [standing_commit_of_ne equal, standing_commit_of_ne equal, same.offsets other own]

theorem commitOffset_kept (same : SameFor b m m') {orgId : String} {k : OffsetKey}
    {metadata : Option String}
    (harmless : Harmless b m ⟨orgId, .commitOffsetForOrg k offset metadata⟩) :
    SameFor b (m.commitOffsetForOrg orgId k offset metadata) m' := by
  refine ⟨?_, same.leases, same.segments, same.lso, same.transactions⟩
  intro other own
  by_cases equal : other = k
  · subst equal
    obtain ⟨row, present, sets⟩ := harmless own
    rw [← same.offsets other own, standing_commit, standing, present]
    by_cases its : row.organizationId = b.orgId
    · simp [its, sets its]
    · simp [its]
  · rw [standing_commit_of_ne equal, same.offsets other own]

theorem commitOffset_exposed (same : SameFor b m m') {orgId : String}
    (different : orgId ≠ b.orgId) {k : OffsetKey} {metadata : Option String}
    (harm : ¬ Harmless b m ⟨orgId, .commitOffsetForOrg k offset metadata⟩) :
    ∃ more : List TenantCall, (∀ c ∈ more, c.orgId = b.orgId) ∧
      ¬ ReadsSame b (run step (m.commitOffsetForOrg orgId k offset metadata) more) (run step m' more) := by
  obtain ⟨own, taken⟩ := Classical.not_imp.1 harm
  have standing := same.offsets k own
  cases present : m.consumerOffsets k with
  | none =>
    -- the row goes to the other organization, and a commit of the tenant does not get it back
    refine ⟨[⟨b.orgId, .commitOffsetForOrg k 0 none⟩], by simp, ?_⟩
    intro reads
    have seen := reads.committedOffset k own
    have absent : m.standing b.orgId k = none := by rw [TenantStore.standing, present]; rfl
    rw [run_cons, run_nil, run_cons, run_nil, getCommittedOffset_eq, getCommittedOffset_eq] at seen
    simp only [step] at seen
    rw [standing_commit, standing_commit, standing_commit, ← standing, absent] at seen
    simp [different] at seen
  | some row =>
    refine ⟨[], by simp, ?_⟩
    intro reads
    have seen := reads.committedOffset k own
    rw [run_nil, run_nil, getCommittedOffset_eq, getCommittedOffset_eq, standing_commit, ← standing, TenantStore.standing,
      present] at seen
    have its : row.organizationId = b.orgId := by
      by_contra other
      exact taken ⟨row, present, fun its => absurd its other⟩
    simp only [Option.map_some, its, if_true, Option.join_some, Option.some.injEq] at seen
    exact taken ⟨row, present, fun _ => seen.symm⟩

/-! ### Leases -/

theorem upsertLease_of_ne {s : LeaseStore} {k other : LeaseKey} (different : other ≠ k) (organizationId agentId : String)
    (nowMs expiresAt : Int) : (s.upsertLease k organizationId agentId nowMs expiresAt).leases other = s.leases other := by
  unfold upsertLease
  split
  · exact update_of_ne different _ _
  · split
    · exact update_of_ne different _ _
    · rfl

/-- What the row is after the upsert depends on the row alone. -/
theorem upsertLease_congr {s s' : LeaseStore} {k : LeaseKey} (same : s.leases k = s'.leases k) (organizationId agentId : String)
    (nowMs expiresAt : Int) :
    (s.upsertLease k organizationId agentId nowMs expiresAt).leases k =
      (s'.upsertLease k organizationId agentId nowMs expiresAt).leases k := by
  unfold upsertLease
  rw [← same]
  cases present : s.leases k with
  | none => simp [setLease]
  | some l =>
    simp only
    split
    · simp [setLease]
    · rw [present, ← same, present]

theorem acquire_shared (same : SameFor b m m') (orgId agentId : String) (k : LeaseKey)
    (nowMs expiresAt : Int) :
    SameFor b { m with leases := m.leases.upsertLease k orgId agentId nowMs expiresAt }
      { m' with leases := m'.leases.upsertLease k orgId agentId nowMs expiresAt } := by
  refine ⟨same.offsets, ?_, same.segments, same.lso, same.transactions⟩
  intro other own
  by_cases equal : other = k
  · subst equal
    exact upsertLease_congr (same.leases other own) orgId agentId nowMs expiresAt
  · rw [upsertLease_of_ne equal, upsertLease_of_ne equal, same.leases other own]

theorem acquire_kept (same : SameFor b m m') {orgId agentId : String} {k : LeaseKey}
    {nowMs leaseDurationMs : Int} (harmless : Harmless b m ⟨orgId, .acquirePartitionLease k agentId nowMs leaseDurationMs⟩) :
    SameFor b { m with leases := m.leases.upsertLease k orgId agentId nowMs (nowMs + leaseDurationMs) } m' := by
  refine ⟨same.offsets, ?_, same.segments, same.lso, same.transactions⟩
  intro other own
  by_cases equal : other = k
  · subst equal
    obtain ⟨l, present, held, lasts⟩ := harmless own
    have denied : ¬ (agentId = l.leaderAgentId ∨ l.leaseExpiresAt < nowMs) := by
      rintro (its | expired)
      · exact held its
      · omega
    rw [← same.leases other own]
    simp only [upsertLease, present, denied, if_false]
  · rw [upsertLease_of_ne equal, same.leases other own]

/-- Before its expiry a row is read. -/
theorem getPartitionLease_before {s : LeaseStore} {k : LeaseKey} {l : PartitionLease} (present : s.leases k = some l) :
    s.getPartitionLease k (l.leaseExpiresAt - 1) = some l := by
  rw [getPartitionLease, present, Option.filter_some, if_pos]
  rw [decide_eq_true_eq]
  omega

theorem acquire_exposed (same : SameFor b m m') {orgId agentId : String} {k : LeaseKey}
    {nowMs leaseDurationMs : Int} (harm : ¬ Harmless b m ⟨orgId, .acquirePartitionLease k agentId nowMs leaseDurationMs⟩) :
    ¬ ReadsSame b { m with leases := m.leases.upsertLease k orgId agentId nowMs (nowMs + leaseDurationMs) } m' := by
  obtain ⟨own, granted⟩ := Classical.not_imp.1 harm
  intro reads
  have rows := same.leases k own
  cases present : m.leases.leases k with
  | none =>
    have row : (m.leases.upsertLease k orgId agentId nowMs (nowMs + leaseDurationMs)).leases k =
        some ⟨orgId, agentId, nowMs + leaseDurationMs, nowMs, 1⟩ := by
      simp [upsertLease, present, setLease]
    have seen := reads.partitionLease k (nowMs + leaseDurationMs - 1) own
    rw [getPartitionLease_before row, getPartitionLease, ← rows, present] at seen
    cases seen
  | some l =>
    have takes : agentId = l.leaderAgentId ∨ l.leaseExpiresAt < nowMs := by
      by_contra denied
      exact granted ⟨l, present, fun its => denied (.inl its), by omega⟩
    have row : (m.leases.upsertLease k orgId agentId nowMs (nowMs + leaseDurationMs)).leases k =
        some ⟨l.organizationId, agentId, nowMs + leaseDurationMs, nowMs, l.epoch + 1⟩ := by
      simp [upsertLease, present, takes, setLease]
    have seen := reads.partitionLease k (nowMs + leaseDurationMs - 1) own
    rw [getPartitionLease_before row, getPartitionLease, ← rows, present] at seen
    have its := (Option.filter_eq_some_iff.1 seen.symm).1
    have epoch := congrArg PartitionLease.epoch (Option.some.inj its)
    exact absurd epoch (by simp)

section Release
variable (m : TenantStore) (orgId agentId : String) (k : LeaseKey)

/-- A release takes the row away from the agent that holds it, and does nothing else. -/
theorem release_eq : m.step ⟨orgId, .releasePartitionLease k agentId⟩ =
    { m with leases := (m.step ⟨orgId, .releasePartitionLease k agentId⟩).leases } := by
  simp only [step]
  split <;> rfl

theorem release_self : (m.step ⟨orgId, .releasePartitionLease k agentId⟩).leases.leases k =
    (m.leases.leases k).filter fun l => decide (l.leaderAgentId ≠ agentId) := by
  cases present : m.leases.leases k with
  | none => simp [step, releasePartitionLease, present]
  | some l =>
    by_cases its : l.leaderAgentId = agentId
    · simp [step, releasePartitionLease, present, its, setLease, Option.filter]
    · simp [step, releasePartitionLease, present, its, Option.filter]

theorem release_of_ne {other : LeaseKey} (different : other ≠ k) :
    (m.step ⟨orgId, .releasePartitionLease k agentId⟩).leases.leases other = m.leases.leases other := by
  cases present : m.leases.leases k with
  | none => simp [step, releasePartitionLease, present]
  | some l =>
    by_cases its : l.leaderAgentId = agentId
    · simp [step, releasePartitionLease, present, its, setLease, different]
    · simp [step, releasePartitionLease, present, its]

end Release

theorem release_shared (same : SameFor b m m') (orgId agentId : String) (k : LeaseKey) :
    SameFor b (m.step ⟨orgId, .releasePartitionLease k agentId⟩) (m'.step ⟨orgId, .releasePartitionLease k agentId⟩) := by
  rw [release_eq m, release_eq m']
  refine ⟨same.offsets, ?_, same.segments, same.lso, same.transactions⟩
  intro other own
  by_cases equal : other = k
  · subst equal
    rw [release_self, release_self, same.leases other own]
  · rw [release_of_ne m orgId agentId k equal, release_of_ne m' orgId agentId k equal, same.leases other own]

theorem release_kept (same : SameFor b m m') {orgId agentId : String} {k : LeaseKey}
    (harmless : Harmless b m ⟨orgId, .releasePartitionLease k agentId⟩) :
    SameFor b (m.step ⟨orgId, .releasePartitionLease k agentId⟩) m' := by
  rw [release_eq m]
  refine ⟨same.offsets, ?_, same.segments, same.lso, same.transactions⟩
  intro other own
  by_cases equal : other = k
  · subst equal
    rw [release_self, ← same.leases other own]
    cases present : m.leases.leases other with
    | none => rfl
    | some l => rw [Option.filter_some, if_pos (decide_eq_true (harmless own l present))]
  · rw [release_of_ne m orgId agentId k equal, same.leases other own]

theorem release_exposed (same : SameFor b m m') {orgId agentId : String} {k : LeaseKey}
    (harm : ¬ Harmless b m ⟨orgId, .releasePartitionLease k agentId⟩) :
    ¬ ReadsSame b (m.step ⟨orgId, .releasePartitionLease k agentId⟩) m' := by
  obtain ⟨own, held⟩ := Classical.not_imp.1 harm
  intro reads
  refine held ?_
  intro l present its
  have seen := reads.partitionLease k (l.leaseExpiresAt - 1) own
  rw [getPartitionLease_before ((same.leases k own).symm.trans present), getPartitionLease, release_self, present,
    Option.filter_some, if_neg (by simp [its])] at seen
  cases seen

/-! ### Segments -/

theorem SegmentNamed.topic_eq {s s' : SegmentInfo} (named : SegmentNamed s) (named' : SegmentNamed s') (same : s.id = s'.id) :
    s.topic = s'.topic := by
  obtain one | one := named <;> obtain two | two := named' <;> rw [one, two] at same
  · exact (SegmentId.segment.inj same).1
  · cases same
  · cases same
  · exact (SegmentId.compacted.inj same).1

/-- Whether an id is free on a topic of the tenant, the rows of its topics decide. -/
theorem free_iff_ownRows (own : b.topics segment.info.topic = true) :
    Free m.segments segment.info.id ↔ ∀ s ∈ m.ownRows b, s.id ≠ segment.info.id := by
  constructor
  · intro free s member
    obtain ⟨r, row, rfl⟩ := mem_map.1 (mem_filter.1 member).1
    exact free r row
  · intro free r row taken
    refine free r.info (mem_filter.2 ⟨mem_map_of_mem row, ?_⟩) taken
    rw [(m.named r row).topic_eq segment.named taken]
    exact own

theorem addSegment_taken (taken : ¬ Free m.segments segment.info.id) (orgId : String) :
    m.addSegment orgId segment = m := by
  unfold addSegment
  split
  case h_1 added =>
    rw [SegmentStore.addSegment, insert_taken taken] at added
    cases added
  case h_2 => rfl

theorem addSegment_free (free : Free m.segments segment.info.id) (orgId : String) :
    (m.addSegment orgId segment).segments.segments = m.segments.segments ++ [⟨orgId, segment.info⟩] := by
  unfold addSegment
  split
  case h_1 segments added =>
    rw [SegmentStore.addSegment, insert_free free] at added
    exact (congrArg SegmentStore.segments (Except.ok.inj added)).symm
  case h_2 failed =>
    rw [SegmentStore.addSegment, insert_free free] at failed
    cases failed

theorem ownRows_added (own : b.topics segment.info.topic = true)
    (free : Free m.segments segment.info.id) (orgId : String) :
    (m.addSegment orgId segment).ownRows b = m.ownRows b ++ [segment.info] := by
  rw [ownRows, addSegment_free free]
  simp [ownRows, filter_append, own]

theorem ownRows_kept (outside : b.topics segment.info.topic = true → ¬ Free m.segments segment.info.id) (orgId : String) :
    (m.addSegment orgId segment).ownRows b = m.ownRows b := by
  by_cases free : Free m.segments segment.info.id
  · have foreign : b.topics segment.info.topic ≠ true := fun own => outside own free
    rw [ownRows, addSegment_free free]
    simp [ownRows, filter_append, foreign]
  · rw [addSegment_taken free]

/-- The second store differs from the first in its segments only. -/
structure SegmentsOnly (m n : TenantStore) : Prop where
  offsets : n.consumerOffsets = m.consumerOffsets
  leases : n.leases = m.leases
  transactions : n.transactions = m.transactions

theorem SegmentsOnly.refl (m : TenantStore) : SegmentsOnly m m := ⟨rfl, rfl, rfl⟩

theorem addSegment_only (m : TenantStore) (orgId : String) (segment : NamedSegment) :
    SegmentsOnly m (m.addSegment orgId segment) := by
  unfold addSegment
  split <;> exact ⟨rfl, rfl, rfl⟩

theorem SameFor.of_segments {m n n' : TenantStore} (same : SameFor b m m') (left : SegmentsOnly m n)
    (right : SegmentsOnly m' n') (rows : n.ownRows b = n'.ownRows b) : SameFor b n n' := by
  refine ⟨?_, ?_, rows, ?_, ?_⟩
  · intro k own
    rw [standing, standing, left.offsets, right.offsets]
    exact same.offsets k own
  · rw [left.leases, right.leases]
    exact same.leases
  · rw [left.transactions, right.transactions]
    exact same.lso
  · unfold Spent
    rw [left.transactions, right.transactions]
    exact same.transactions

theorem addSegment_shared (same : SameFor b m m') (orgId : String) (segment : NamedSegment) :
    SameFor b (m.addSegment orgId segment) (m'.addSegment orgId segment) := by
  refine same.of_segments (addSegment_only m orgId segment) (addSegment_only m' orgId segment) ?_
  by_cases own : b.topics segment.info.topic = true
  · have agree : Free m.segments segment.info.id ↔ Free m'.segments segment.info.id := by
      rw [free_iff_ownRows own, free_iff_ownRows own, same.segments]
    by_cases free : Free m.segments segment.info.id
    · rw [ownRows_added own free, ownRows_added own (agree.1 free), same.segments]
    · rw [ownRows_kept fun _ => free, ownRows_kept fun _ taken => free (agree.2 taken), same.segments]
  · rw [ownRows_kept fun yes => absurd yes own, ownRows_kept fun yes => absurd yes own, same.segments]

theorem addSegment_kept (same : SameFor b m m') {orgId : String} (harmless : Harmless b m ⟨orgId, .addSegment segment⟩) : SameFor b (m.addSegment orgId segment) m' := by
  refine same.of_segments (addSegment_only m orgId segment) (SegmentsOnly.refl m') ?_
  rw [ownRows_kept harmless, same.segments]

/-- An offset past the end of every segment in a list. -/
theorem exists_past (segments : List SegmentInfo) : ∃ offset, ∀ s ∈ segments, s.endOffset < offset := by
  induction segments with
  | nil => exact ⟨0, fun s member => nomatch member⟩
  | cons s segments ih =>
    obtain ⟨offset, past⟩ := ih
    refine ⟨max offset (s.endOffset + 1), forall_mem_cons.2 ⟨by omega, ?_⟩⟩
    intro s' member
    have below := past s' member
    omega

theorem filter_past {segments : List SegmentInfo} (past : ∀ s ∈ segments, s.endOffset < offset) (topic : String)
    (partitionId : Nat) :
    (segments.filter fun s =>
      decide (s.topic = topic ∧ s.partitionId = partitionId ∧ s.baseOffset ≤ offset ∧ offset ≤ s.endOffset)) = [] := by
  rw [filter_eq_nil_iff]
  intro s member has
  have below := past s member
  have inside := of_decide_eq_true has
  omega

/-- Past the end of every other row only the last one can be found. -/
theorem findSegment_past {s : SegmentInfo} (own : b.topics s.topic = true) {rows : List SegmentInfo} (added : m.ownRows b = rows ++ [s]) (past : ∀ s ∈ rows, s.endOffset < offset)
    (base : s.baseOffset ≤ offset) :
    m.segments.findSegmentForOffset s.topic s.partitionId offset = if offset ≤ s.endOffset then some s else none := by
  rw [findSegment_eq own, added, filter_append, filter_past past]
  by_cases reaches : offset ≤ s.endOffset
  · simp [base, reaches]
  · simp [reaches]

/-- A segment added on a topic of the tenant is in the way of the tenant's own segment of that id. -/
theorem addSegment_exposed (same : SameFor b m m') {orgId : String} (harm : ¬ Harmless b m ⟨orgId, .addSegment segment⟩) :
    ∃ more : List TenantCall, (∀ c ∈ more, c.orgId = b.orgId) ∧
      ¬ ReadsSame b (run step (m.addSegment orgId segment) more) (run step m' more) := by
  obtain ⟨own, untaken⟩ := Classical.not_imp.1 harm
  have free : Free m.segments segment.info.id := not_not.1 untaken
  obtain ⟨offset, past⟩ := exists_past (segment.info :: m.ownRows b)
  have after : segment.info.endOffset < offset := past _ mem_cons_self
  have ordered := segment.ordered
  let its : NamedSegment := ⟨{ segment.info with endOffset := offset }, segment.named, by simp only; omega⟩
  refine ⟨[⟨b.orgId, .addSegment its⟩], by simp, ?_⟩
  intro reads
  have seen := reads.segmentForOffset segment.info.topic segment.info.partitionId offset own
  have rows : (m.addSegment orgId segment).ownRows b = m.ownRows b ++ [segment.info] := ownRows_added own free orgId
  have taken : ¬ Free (m.addSegment orgId segment).segments its.info.id := by
    rw [free_iff_ownRows own, rows]
    exact fun none => none segment.info (by simp) rfl
  have free' : Free m'.segments its.info.id := by
    rw [free_iff_ownRows own, ← same.segments]
    exact (free_iff_ownRows own).1 free
  have ownIts : b.topics its.info.topic = true := own
  have rows' : (m'.addSegment b.orgId its).ownRows b = m.ownRows b ++ [its.info] := by
    rw [same.segments]
    exact ownRows_added ownIts free' b.orgId
  have others : ∀ s ∈ m.ownRows b, s.endOffset < offset := fun s member => past s (mem_cons_of_mem _ member)
  have base : segment.info.baseOffset ≤ offset := by omega
  have nothing := findSegment_past own rows others base
  have found := findSegment_past ownIts rows' others base
  rw [if_neg (by omega)] at nothing
  rw [if_pos (Nat.le_refl _)] at found
  have blocked : (m.addSegment orgId segment).addSegment b.orgId its = m.addSegment orgId segment := addSegment_taken taken b.orgId
  simp only [run_cons, run_nil, step, blocked] at seen
  cases nothing.symm.trans (seen.trans found)

/-! ### Transactions -/

open TransactionStore

/-- Spent is kept by a call that ends a transaction: partitions stay as they are and offsets only rise. -/
theorem Spent.ended {other : TransactionId} (spent : m.Spent b other)
    (marker : TransactionMarkerType) (scope : Option String) (id : TransactionId) :
    (m.endTransaction marker scope id).Spent b other := by
  intro t present p member own
  obtain ⟨row, found, inside⟩ := mem_of_ended present member
  exact Nat.le_trans (spent row found p inside own) (le_ended_lso m.transactions marker scope id p.key)

section

variable (same : SameFor b m m')
include same

theorem end_shared (marker : TransactionMarkerType)
    (scope : Option String) (id : TransactionId) :
    SameFor b (m.endTransaction marker scope id) (m'.endTransaction marker scope id) := by
  refine ⟨same.offsets, same.leases, same.segments, ?_, ?_⟩
  · intro k own
    refine eq_of_forall_ge_iff fun bound => ?_
    rw [endTransaction_transactions, endTransaction_transactions, ended_lso_le_iff, ended_lso_le_iff, same.lso k own]
    refine and_congr_right fun stored => ?_
    obtain equal | ⟨spent, spent'⟩ := same.transactions id
    · rw [equal]
    · refine iff_of_true ?_ ?_
      · rintro t present - p member rfl
        have past := spent t present p member own
        rw [same.lso p.key own] at past
        omega
      · rintro t present - p member rfl
        have past := spent' t present p member own
        omega
  · intro other
    obtain equal | ⟨spent, spent'⟩ := same.transactions other
    · refine .inl ?_
      by_cases its : other = id
      · subst its
        simp only [endTransaction_transactions, ended_row, equal]
      · simp only [endTransaction_transactions, ended_of_ne its, equal]
    · exact .inr ⟨Spent.ended spent marker scope id, Spent.ended spent' marker scope id⟩

theorem end_kept {orgId : String} {marker : TransactionMarkerType}
    {forOrg : Bool} {id : TransactionId} {plain : QuoteFree id} (harmless : Harmless b m ⟨orgId, .endTransaction marker forOrg id plain⟩) :
    SameFor b (m.endTransaction marker (if forOrg then some orgId else none) id) m' := by
  obtain idle | ⟨t, present, ends⟩ := idle_or_ends m.transactions (if forOrg then some orgId else none) id
  · refine ⟨same.offsets, same.leases, same.segments, ?_, ?_⟩
    · rw [endTransaction_transactions, ended_of_not idle]
      exact same.lso
    · rw [endTransaction_transactions, ended_of_not idle]
      intro other
      refine (same.transactions other).imp_right fun both => ⟨?_, both.2⟩
      intro t present
      rw [endTransaction_transactions, ended_of_not idle] at present ⊢
      exact both.1 t present
  have spent : m.Spent b id := by
    intro row found
    obtain rfl := Option.some.inj (present.symm.trans found)
    exact harmless t present ends.1 ends.2
  have unmoved : ∀ k, b.topics k.topic = true →
      (m.transactions.ended marker (if forOrg then some orgId else none) id).getLastStableOffset k =
        m.transactions.getLastStableOffset k := by
    intro k own
    refine Nat.le_antisymm (ended_lso_le_iff.2 ⟨Nat.le_refl _, ?_⟩) (le_ended_lso m.transactions marker _ id k)
    rintro row found - p member rfl
    exact spent row found p member own
  refine ⟨same.offsets, same.leases, same.segments, ?_, ?_⟩
  · intro k own
    rw [← same.lso k own]
    exact unmoved k own
  · intro other
    have after := fun before : m.Spent b other => Spent.ended before marker (if forOrg then some orgId else none) id
    obtain equal | ⟨spentOther, spent'⟩ := same.transactions other
    · by_cases its : other = id
      · subst its
        refine .inr ⟨after spent, ?_⟩
        intro row found p member own
        rw [← same.lso p.key own]
        exact spent row (equal.trans found) p member own
      · refine .inl ?_
        simp only [endTransaction_transactions, ended_of_ne its, equal]
    · exact .inr ⟨after spentOther, spent'⟩

theorem end_exposed {orgId : String} {marker : TransactionMarkerType}
    {forOrg : Bool} {id : TransactionId} {plain : QuoteFree id} (harm : ¬ Harmless b m ⟨orgId, .endTransaction marker forOrg id plain⟩) :
    ¬ ReadsSame b (m.endTransaction marker (if forOrg then some orgId else none) id) m' := by
  intro reads
  refine harm ?_
  intro t present visible state p member own
  have seen := reads.lastStableOffset p.key own
  rw [← same.lso p.key own] at seen
  exact (ended_lso_le_iff.1 (Nat.le_of_eq seen)).2 t present ⟨visible, state⟩ p member rfl

/-! ### Runs -/

theorem tenant_shared (c : TenantCall) :
    SameFor b (m.step c) (m'.step c) := by
  obtain ⟨orgId, op⟩ := c
  cases op with
  | commitOffsetForOrg k offset metadata => exact commitOffset_shared same orgId k offset metadata
  | acquirePartitionLease k agentId nowMs leaseDurationMs =>
    exact acquire_shared same orgId agentId k nowMs (nowMs + leaseDurationMs)
  | releasePartitionLease k agentId => exact release_shared same orgId agentId k
  | addSegment segment => exact addSegment_shared same orgId segment
  | endTransaction marker forOrg id plain => exact end_shared same marker _ id

theorem tenant_kept {c : TenantCall} (harmless : Harmless b m c) :
    SameFor b (m.step c) m' := by
  obtain ⟨orgId, op⟩ := c
  cases op with
  | commitOffsetForOrg k offset metadata => exact commitOffset_kept same harmless
  | acquirePartitionLease k agentId nowMs leaseDurationMs => exact acquire_kept same harmless
  | releasePartitionLease k agentId => exact release_kept same harmless
  | addSegment segment => exact addSegment_kept same harmless
  | endTransaction marker forOrg id plain => exact end_kept same harmless

/-- A call that is not harmless shows, at once or after one more call of the tenant. -/
theorem tenant_exposed {c : TenantCall} (different : c.orgId ≠ b.orgId)
    (harm : ¬ Harmless b m c) :
    ∃ more : List TenantCall, (∀ c ∈ more, c.orgId = b.orgId) ∧
      ¬ ReadsSame b (run step (m.step c) more) (run step m' more) := by
  obtain ⟨orgId, op⟩ := c
  cases op with
  | commitOffsetForOrg k offset metadata => exact commitOffset_exposed same different harm
  | acquirePartitionLease k agentId nowMs leaseDurationMs => exact ⟨[], by simp, acquire_exposed same harm⟩
  | releasePartitionLease k agentId => exact ⟨[], by simp, release_exposed same harm⟩
  | addSegment segment => exact addSegment_exposed same harm
  | endTransaction marker forOrg id plain => exact ⟨[], by simp, end_exposed same harm⟩


end
/-- Of two organizations, the second reads for its topics, at every point of a run of anyone's
calls and whatever it does next, what it would read without the first one's calls, exactly
if each of these is harmless where it is made. -/
theorem tenantIsolation_iff {orgId : String} (different : orgId ≠ b.orgId) (m : TenantStore)
    (calls : List TenantCall) :
    Undisturbed step (fun c => decide (c.orgId = orgId)) (fun c => decide (c.orgId = b.orgId)) (ReadsSame b) m m calls ↔
      Meets step (fun m c => decide (c.orgId = orgId) = true → Harmless b m c) m calls := by
  refine undisturbed_iff ?_ ?_ ?_ ?_ ?_ (SameFor.refl b m) calls
  · intro m m' same
    exact same.reads
  · intro m m' c same _
    exact tenant_shared same c
  · intro c its
    have other : c.orgId ≠ orgId := by
      rw [of_decide_eq_true its]
      exact Ne.symm different
    exact decide_eq_false other
  · intro m m' c same _ harmless
    exact tenant_kept same harmless
  · intro m m' c same its harm
    have other : c.orgId ≠ b.orgId := by
      rw [of_decide_eq_true its]
      exact different
    obtain ⟨more, acts, shows⟩ := tenant_exposed same other harm
    exact ⟨more, fun d member => decide_eq_true (acts d member), shows⟩

namespace Example

/-- The tenant `"b"` with a topic `"events"`. -/
def tenantB : Tenant := ⟨"b", fun topic => topic == "events", fun topic own => by rw [eq_of_beq own]; decide⟩

def emptyTenants : TenantStore := ⟨fun _ => none, ⟨fun _ => none, []⟩, ⟨[], fun _ => none⟩, ⟨fun _ => none, fun _ => none⟩, by simp, by simp⟩

def readersKey : OffsetKey := ⟨"readers", "events", 0⟩

/-- `"b"` commits offset 7, and `"a"` offset 3 for its own topic and group of the same names. -/
def sharedNames : List TenantCall :=
  [⟨"b", .commitOffsetForOrg readersKey 7 none⟩, ⟨"a", .commitOffsetForOrg readersKey 3 none⟩]

/-- An agent of `"b"` holds the lease of a partition, and one of `"a"` asks for it under the same name. -/
def deniedLease : List TenantCall :=
  [⟨"b", .acquirePartitionLease ⟨"events", 0⟩ "agent-b" 0 30000⟩, ⟨"a", .acquirePartitionLease ⟨"events", 0⟩ "agent-a" 10 30000⟩]

end Example

open Example

theorem tenantIsolation_fails : "a" ≠ tenantB.orgId ∧
    ¬ Undisturbed step (fun c => decide (c.orgId = "a")) (fun c => decide (c.orgId = tenantB.orgId))
      (ReadsSame tenantB) emptyTenants emptyTenants sharedNames := by
  refine ⟨by decide, ?_⟩
  intro undisturbed
  have reads := undisturbed sharedNames [] rfl [] (fun c member => nomatch member)
  have seen := reads.committedOffset readersKey (by decide)
  exact absurd seen (by decide)

theorem tenantIsolation_iff_denied : "a" ≠ tenantB.orgId ∧
    Undisturbed step (fun c => decide (c.orgId = "a")) (fun c => decide (c.orgId = tenantB.orgId))
      (ReadsSame tenantB) emptyTenants emptyTenants deniedLease := by
  refine ⟨by decide, (tenantIsolation_iff (by decide) emptyTenants deniedLease).2 ⟨?_, ?_, trivial⟩⟩
  · intro its
    exact absurd its (by decide)
  · intro _ _
    exact ⟨⟨"b", "agent-b", 30000, 0, 1⟩, by decide, by decide, by decide⟩

end StreamHouse.Metadata
