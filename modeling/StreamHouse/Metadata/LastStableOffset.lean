import StreamHouse.Lib.Run
import StreamHouse.Metadata.Transactions

/-!
# The last stable offset

Callers of the store and the EndTxn handler of the Kafka server, each between two of
its statements. A commit or an abort raises the last stable offset of each partition
past its own records, and EndTxn sets it once more afterwards, whatever is stored by
then. Neither looks at the other transactions that are open on the partition.
-/

namespace StreamHouse.Metadata
open Lib List Option

/-! ## Calls in flight -/

/-- A caller that ends a transaction, before its next statement and with what it has read.
`advance` is what EndTxn has listed for itself and will set once the commit is done. -/
inductive Ending where
  | idle
  | endTxn (orgId : String) (id : TransactionId) (marker : TransactionMarkerType)
  | begun (orgId : String) (id : TransactionId) (marker : TransactionMarkerType)
  | ending (scope : Option String) (id : TransactionId) (marker : TransactionMarkerType) (advance : List TransactionPartition)
  | read (scope : Option String) (id : TransactionId) (marker : TransactionMarkerType)
      (partitions advance : List TransactionPartition)
  | advancing (partitions : List TransactionPartition)
deriving DecidableEq

/-- The next statement of a caller and whether the database carries it out. EndTxn looks
for the producer's transaction by beginning one, and goes on with the next partition
when setting an offset fails; every other failure ends the call. -/
def Ending.next (m : TransactionStore) (carriedOut : Bool) : Ending → TransactionStore × Ending
  | .idle => (m, .idle)
  | .endTxn orgId id marker =>
    if carriedOut then
      match m.beginTransaction id (some orgId) with
      | .ok m' => (m', .begun orgId id marker)
      | .error _ => (m, .idle)
    else (m, .idle)
  | .begun orgId id marker =>
    if carriedOut then
      (m, .ending (some orgId) id marker (if marker = .commit then m.getTransactionPartitionsForOrg orgId id else []))
    else (m, .idle)
  | .ending scope id marker advance =>
    if carriedOut then (m, .read scope id marker (m.getTransactionPartitions id) advance) else (m, .idle)
  | .read scope id marker partitions advance =>
    if carriedOut then
      match m.endTransaction marker scope id partitions with
      | .ok m' => (m', .advancing advance)
      | .error _ => (m, .idle)
    else (m, .idle)
  | .advancing [] => (m, .idle)
  | .advancing (p :: rest) =>
    (if carriedOut then m.updateLastStableOffset p.key (p.lastOffset + 1) else m, .advancing rest)

structure LsoSystem where
  metadata : TransactionStore
  callers : Nat → Ending

/-- A statement, or the start of a call of several. -/
inductive LsoCall where
  | beginTransaction (id : TransactionId) (organizationId : Option String)
  | addTransactionPartition (id : TransactionId) (key : TopicPartition) (firstOffset : Nat)
  | addTransactionPartitionForOrg (orgId : String) (id : TransactionId) (key : TopicPartition) (firstOffset : Nat)
  | updateTransactionPartitionOffset (id : TransactionId) (key : TopicPartition) (lastOffset : Nat)
  | prepareTransaction (scope : Option String) (id : TransactionId)
  | endTransaction (who : Nat) (scope : Option String) (id : TransactionId) (marker : TransactionMarkerType)
  | endTxn (who : Nat) (orgId : String) (id : TransactionId) (marker : TransactionMarkerType)
  | next (who : Nat)

/-- What a call puts into SQL as it is. -/
def LsoCall.texts : LsoCall → List String
  | .beginTransaction id organizationId => id :: organizationId.toList
  | .addTransactionPartition id key _ | .updateTransactionPartitionOffset id key _ => [id, key.topic]
  | .addTransactionPartitionForOrg orgId id key _ => [orgId, id, key.topic]
  | .prepareTransaction scope id | .endTransaction _ scope id _ => id :: scope.toList
  | .endTxn _ orgId id _ => [orgId, id]
  | .next _ => []

/-- No text that gets into SQL has a quote in it. -/
structure LsoStep where
  call : LsoCall
  carriedOut : Bool
  plain : ∀ t ∈ call.texts, QuoteFree t

namespace LsoSystem

def goOn (s : LsoSystem) (who : Nat) (phase : Ending) : LsoSystem :=
  { s with callers := Function.update s.callers who phase }

/-- A caller takes up a call when it is not in another. -/
def start (s : LsoSystem) (who : Nat) (phase : Ending) : LsoSystem :=
  if s.callers who = .idle then s.goOn who phase else s

def step (s : LsoSystem) (a : LsoStep) : LsoSystem :=
  match a.call with
  | .beginTransaction id organizationId =>
    if a.carriedOut then { s with metadata := s.metadata.settle (s.metadata.beginTransaction id organizationId) } else s
  | .addTransactionPartition id key firstOffset =>
    if a.carriedOut then { s with metadata := s.metadata.settle (s.metadata.addTransactionPartition id key firstOffset) } else s
  | .addTransactionPartitionForOrg orgId id key firstOffset =>
    if a.carriedOut then
      { s with metadata := s.metadata.settle (s.metadata.addTransactionPartitionForOrg orgId id key firstOffset) }
    else s
  | .updateTransactionPartitionOffset id key lastOffset =>
    if a.carriedOut then { s with metadata := s.metadata.updateTransactionPartitionOffset id key lastOffset } else s
  | .prepareTransaction scope id =>
    if a.carriedOut then { s with metadata := s.metadata.settle (s.metadata.prepareTransaction scope id) } else s
  | .endTransaction who scope id marker => s.start who (.ending scope id marker [])
  | .endTxn who orgId id marker => s.start who (.endTxn orgId id marker)
  | .next who =>
    let (metadata, phase) := (s.callers who).next s.metadata a.carriedOut
    { s with metadata }.goOn who phase

end LsoSystem

open LsoSystem

/-! ## What the last stable offset is for -/

/-- The transaction is ongoing and recorded on the partition, from `first` on. -/
def OpenOn (m : TransactionStore) (id : TransactionId) (k : TopicPartition) (first : Nat) : Prop :=
  ∃ t, m.transactions id = some t ∧ t.state = .ongoing ∧ ∃ p ∈ t.partitions, p.key = k ∧ p.firstOffset = first

/-- No transaction open on a partition begins below its last stable offset. -/
def Stable (m : TransactionStore) : Prop :=
  ∀ id k first, OpenOn m id k first → m.getLastStableOffset k ≤ first

def LsoNoLess (before after : TransactionStore) : Prop :=
  ∀ k, before.getLastStableOffset k ≤ after.getLastStableOffset k

/-- Every transaction open on the partition, `but` apart, begins at `offset` or later. -/
def Clear (m : TransactionStore) (but : Option TransactionId) (k : TopicPartition) (offset : Nat) : Prop :=
  ∀ id first, some id ≠ but → OpenOn m id k first → offset ≤ first

/-- A partition that is enrolled for an ongoing transaction begins at the last stable offset or later. -/
def EnrolsAbove (m : TransactionStore) (scope : Option String) (id : TransactionId) (key : TopicPartition) (firstOffset : Nat) :
    Prop :=
  ∀ t, m.transactions id = some t → t.Visible scope → t.state = .ongoing → (∀ p ∈ t.partitions, p.key ≠ key) →
    m.getLastStableOffset key ≤ firstOffset

/-- The caller's next statement moves a last stable offset past no open transaction, and not back. -/
def Ending.InOrder (m : TransactionStore) : Ending → Prop
  | .read scope id _ partitions _ =>
    ∀ t, m.transactions id = some t → t.Visible scope → (t.state = .ongoing ∨ t.state = .preparing) →
      ∀ p ∈ partitions, Clear m (some id) p.key (p.lastOffset + 1)
  | .advancing (p :: _) =>
    m.getLastStableOffset p.key ≤ p.lastOffset + 1 ∧ Clear m none p.key (p.lastOffset + 1)
  | _ => True

def LsoInOrder (s : LsoSystem) (a : LsoStep) : Prop :=
  a.carriedOut = true →
    match a.call with
    | .addTransactionPartition id key firstOffset => EnrolsAbove s.metadata none id key firstOffset
    | .addTransactionPartitionForOrg orgId id key firstOffset => EnrolsAbove s.metadata (some orgId) id key firstOffset
    | .next who => (s.callers who).InOrder s.metadata
    | _ => True

/-! ## One statement -/

open TransactionStore

/-- What a statement must do to the store for the last stable offsets to be right. -/
def LsoKept (m m' : TransactionStore) : Prop := LsoNoLess m m' ∧ Stable m'

variable {m : TransactionStore}

/-- A statement that sets no offset and opens nothing keeps them right. -/
theorem lsoKept_of_fewer {m' : TransactionStore} (stable : Stable m) (same : m'.partitionLso = m.partitionLso)
    (fewer : ∀ id k first, OpenOn m' id k first → OpenOn m id k first) : LsoKept m m' := by
  have lso : m'.getLastStableOffset = m.getLastStableOffset := by
    funext k
    rw [getLastStableOffset, same]
    rfl
  constructor
  · intro k
    rw [lso]
  · intro id k first opened
    rw [lso]
    exact stable id k first (fewer id k first opened)

theorem lsoKept_refl (stable : Stable m) : LsoKept m m :=
  lsoKept_of_fewer stable rfl fun _ _ _ opened => opened

theorem openOn_setTransaction {id other : TransactionId} {t : Transaction} {k : TopicPartition}
    {first : Nat} (opened : OpenOn (m.setTransaction id t) other k first) :
    (other = id ∧ t.state = .ongoing ∧ ∃ p ∈ t.partitions, p.key = k ∧ p.firstOffset = first) ∨
      (other ≠ id ∧ OpenOn m other k first) := by
  obtain ⟨row, present, ongoing, recorded⟩ := opened
  by_cases same : other = id
  · rw [same, setTransaction_self] at present
    obtain rfl := some.inj present
    exact .inl ⟨same, ongoing, recorded⟩
  · rw [setTransaction_of_ne same] at present
    exact .inr ⟨same, row, present, ongoing, recorded⟩

section

variable (stable : Stable m)
include stable

theorem beginTransaction_kept (id : TransactionId) (organizationId : Option String) :
    LsoKept m (m.settle (m.beginTransaction id organizationId)) := by
  unfold beginTransaction
  split
  · exact lsoKept_refl stable
  · refine lsoKept_of_fewer stable rfl ?_
    intro other k first opened
    obtain ⟨-, -, p, member, -⟩ | ⟨-, before⟩ := openOn_setTransaction opened
    · cases member
    · exact before

theorem updateOffset_kept (id : TransactionId) (key : TopicPartition) (lastOffset : Nat) :
    LsoKept m (m.updateTransactionPartitionOffset id key lastOffset) := by
  unfold updateTransactionPartitionOffset
  split
  case h_1 t present =>
    refine lsoKept_of_fewer stable rfl ?_
    intro other k first opened
    obtain ⟨rfl, ongoing, p', member, rfl, rfl⟩ | ⟨-, before⟩ := openOn_setTransaction opened
    · obtain ⟨p, old, rfl⟩ := mem_map.1 member
      refine ⟨t, present, ongoing, p, old, ?_⟩
      split <;> exact ⟨rfl, rfl⟩
    · exact before
  case h_2 => exact lsoKept_refl stable

theorem prepareTransaction_kept (scope : Option String) (id : TransactionId) :
    LsoKept m (m.settle (m.prepareTransaction scope id)) := by
  unfold prepareTransaction
  split
  · split
    · refine lsoKept_of_fewer stable rfl ?_
      intro other k first opened
      obtain ⟨-, ongoing, -⟩ | ⟨-, before⟩ := openOn_setTransaction opened
      · cases ongoing
      · exact before
    · exact lsoKept_refl stable
  · exact lsoKept_refl stable

/-- A new row for a partition keeps the order exactly if it begins at the last stable offset or
later, should its transaction be ongoing. -/
theorem enroll_kept_iff {id : TransactionId} {t : Transaction}
    (present : m.transactions id = some t) (key : TopicPartition) (firstOffset : Nat) :
    LsoKept m (m.setTransaction id (t.enroll key firstOffset)) ↔
      (t.state = .ongoing → (∀ p ∈ t.partitions, p.key ≠ key) → m.getLastStableOffset key ≤ firstOffset) := by
  unfold Transaction.enroll
  split
  case isTrue enrolled =>
    obtain ⟨p, member, same⟩ := any_eq_true.1 enrolled
    refine iff_of_true (lsoKept_of_fewer stable rfl ?_) fun _ others => absurd (eq_of_beq same) (others p member)
    intro other k first opened
    obtain ⟨rfl, ongoing, recorded⟩ | ⟨-, before⟩ := openOn_setTransaction opened
    · exact ⟨t, present, ongoing, recorded⟩
    · exact before
  case isFalse new =>
    constructor
    · rintro ⟨-, after⟩ ongoing -
      refine after id key firstOffset ⟨_, setTransaction_self _ _ _, ongoing, ⟨key, firstOffset, firstOffset⟩, ?_, rfl, rfl⟩
      exact mem_append_right _ (mem_singleton_self _)
    · intro above
      refine ⟨fun k => Nat.le_refl _, ?_⟩
      intro other k first opened
      obtain ⟨rfl, ongoing, p, member, rfl, rfl⟩ | ⟨-, before⟩ := openOn_setTransaction opened
      · obtain old | added := mem_append.1 member
        · exact stable other _ _ ⟨t, present, ongoing, p, old, rfl, rfl⟩
        · obtain rfl := mem_singleton.1 added
          refine above ongoing ?_
          intro q recorded same
          exact new (any_eq_true.2 ⟨q, recorded, beq_iff_eq.2 same⟩)
      · exact stable other k first before

theorem add_kept_iff (id : TransactionId) (key : TopicPartition) (firstOffset : Nat) :
    LsoKept m (m.settle (m.addTransactionPartition id key firstOffset)) ↔ EnrolsAbove m none id key firstOffset := by
  unfold addTransactionPartition EnrolsAbove
  cases present : m.transactions id with
  | none => exact iff_of_true (lsoKept_refl stable) fun t found => nomatch found
  | some t =>
    refine (enroll_kept_iff stable present key firstOffset).trans ?_
    constructor
    · rintro above row found -
      obtain rfl := some.inj found
      exact above
    · intro above
      exact above t rfl (.inl rfl)

theorem addForOrg_kept_iff (orgId : String) (id : TransactionId)
    (key : TopicPartition) (firstOffset : Nat) :
    LsoKept m (m.settle (m.addTransactionPartitionForOrg orgId id key firstOffset)) ↔
      EnrolsAbove m (some orgId) id key firstOffset := by
  unfold addTransactionPartitionForOrg EnrolsAbove
  cases present : m.transactions id with
  | none => exact iff_of_true (lsoKept_refl stable) fun t found => nomatch found
  | some t =>
    by_cases own : t.organizationId = some orgId
    · simp only [own, if_true]
      rw [add_kept_iff stable]
      constructor
      · rintro above row found -
        exact above row (present.trans found) (.inl rfl)
      · rintro above row found -
        obtain rfl := some.inj (present.symm.trans found)
        exact above t rfl (.inr own)
    · simp only [own, if_false]
      refine iff_of_true (lsoKept_refl stable) ?_
      intro row found visible
      obtain rfl := some.inj found
      obtain no | its := visible
      · cases no
      · exact absurd its own

/-- Ending a transaction keeps the order exactly if no other one that is open on one of its
partitions begins below the offset after its last. -/
theorem endTransaction_kept_iff (id : TransactionId) (t : Transaction)
    (marker : TransactionMarkerType) (partitions : List TransactionPartition) :
    LsoKept m (partitions.foldl raiseLso (m.setTransaction id { t with state := marker.state })) ↔
      ∀ p ∈ partitions, Clear m (some id) p.key (p.lastOffset + 1) := by
  have opened : ∀ other k first, OpenOn (partitions.foldl raiseLso (m.setTransaction id { t with state := marker.state })) other k first ↔
      other ≠ id ∧ OpenOn m other k first := by
    intro other k first
    unfold OpenOn
    rw [foldl_raiseLso_transactions]
    constructor
    · intro after
      obtain ⟨-, ongoing, -⟩ | before := openOn_setTransaction after
      · cases marker <;> cases ongoing
      · exact before
    · rintro ⟨different, before⟩
      rw [setTransaction_of_ne different]
      exact before
  constructor
  · rintro ⟨-, after⟩ p member other first different before
    have below := after other p.key first ((opened other p.key first).2 ⟨fun same => different (congrArg some same), before⟩)
    exact (foldl_raiseLso_le_iff.1 below).2 p member rfl
  · intro clear
    constructor
    · exact le_foldl_raiseLso partitions (m.setTransaction id { t with state := marker.state })
    · intro other k first after
      obtain ⟨different, before⟩ := (opened other k first).1 after
      refine foldl_raiseLso_le_iff.2 ⟨stable other k first before, ?_⟩
      rintro p member rfl
      exact clear p member other first (fun same => different (some.inj same)) before

/-- Setting an offset keeps the order exactly if it is not lower, and past no open transaction. -/
theorem updateLso_kept_iff (k : TopicPartition) (lso : Nat) :
    LsoKept m (m.updateLastStableOffset k lso) ↔ m.getLastStableOffset k ≤ lso ∧ Clear m none k lso := by
  unfold updateLastStableOffset
  constructor
  · rintro ⟨noLess, after⟩
    constructor
    · have raised := noLess k
      rwa [setLso_self] at raised
    · intro id first _ opened
      have below := after id k first opened
      rwa [setLso_self] at below
  · rintro ⟨raised, clear⟩
    constructor
    · intro other
      by_cases same : other = k
      · rw [same, setLso_self]
        exact raised
      · rw [setLso_of_ne same]
    · intro id other first opened
      by_cases same : other = k
      · subst same
        rw [setLso_self]
        exact clear id first (fun none => nomatch none) opened
      · rw [setLso_of_ne same]
        exact stable id other first opened

/-- A statement of a caller keeps the offsets right exactly if it is in order. -/
theorem next_kept_iff (phase : Ending) : LsoKept m (phase.next m true).1 ↔ phase.InOrder m := by
  cases phase with
  | idle => exact iff_of_true (lsoKept_refl stable) trivial
  | endTxn orgId id marker =>
    refine iff_of_true ?_ trivial
    have begun := beginTransaction_kept stable id (some orgId)
    simp only [Ending.next, if_true]
    cases started : m.beginTransaction id (some orgId) with
    | ok m' => rwa [started] at begun
    | error e => exact lsoKept_refl stable
  | begun orgId id marker => exact iff_of_true (lsoKept_refl stable) trivial
  | ending scope id marker advance => exact iff_of_true (lsoKept_refl stable) trivial
  | read scope id marker partitions advance =>
    simp only [Ending.next, if_true, Ending.InOrder, endTransaction]
    cases present : m.transactions id with
    | none => exact iff_of_true (lsoKept_refl stable) fun t found => nomatch found
    | some t =>
      by_cases ends : t.Visible scope ∧ (t.state = .ongoing ∨ t.state = .preparing)
      · simp only [ends, and_self, if_true]
        rw [endTransaction_kept_iff stable]
        constructor
        · intro clear row found _ _
          exact clear
        · intro clear
          exact clear t rfl ends.1 ends.2
      · simp only [ends, if_false]
        refine iff_of_true (lsoKept_refl stable) ?_
        intro row found visible state
        obtain rfl := some.inj found
        exact absurd ⟨visible, state⟩ ends
  | advancing partitions =>
    cases partitions with
    | nil => exact iff_of_true (lsoKept_refl stable) trivial
    | cons p rest => exact updateLso_kept_iff stable p.key (p.lastOffset + 1)


end
theorem next_failed (m : TransactionStore) (phase : Ending) : (phase.next m false).1 = m := by
  cases phase with
  | advancing partitions => cases partitions <;> rfl
  | _ => rfl

theorem start_metadata (s : LsoSystem) (who : Nat) (phase : Ending) : (s.start who phase).metadata = s.metadata := by
  unfold start
  split <;> rfl

/-- A statement that fails leaves the tables alone. -/
theorem metadata_failed (s : LsoSystem) (call : LsoCall) (plain : ∀ t ∈ call.texts, QuoteFree t) :
    (s.step ⟨call, false, plain⟩).metadata = s.metadata := by
  cases call with
  | next who => exact next_failed s.metadata (s.callers who)
  | endTransaction who scope id marker => exact start_metadata s who _
  | endTxn who orgId id marker => exact start_metadata s who _
  | _ => rfl

/-- **The step**: it keeps the last stable offsets right exactly if it is in order. -/
theorem lsoKept_step_iff {s : LsoSystem} (stable : Stable s.metadata) (a : LsoStep) :
    LsoKept s.metadata (s.step a).metadata ↔ LsoInOrder s a := by
  obtain ⟨call, carriedOut, plain⟩ := a
  cases carriedOut with
  | false =>
    rw [metadata_failed]
    exact iff_of_true (lsoKept_refl stable) fun done => nomatch done
  | true =>
    unfold LsoInOrder
    rw [forall_prop_of_true rfl]
    cases call with
    | beginTransaction id organizationId => exact iff_of_true (beginTransaction_kept stable id organizationId) trivial
    | addTransactionPartition id key firstOffset => exact add_kept_iff stable id key firstOffset
    | addTransactionPartitionForOrg orgId id key firstOffset => exact addForOrg_kept_iff stable orgId id key firstOffset
    | updateTransactionPartitionOffset id key lastOffset => exact iff_of_true (updateOffset_kept stable id key lastOffset) trivial
    | prepareTransaction scope id => exact iff_of_true (prepareTransaction_kept stable scope id) trivial
    | endTransaction who scope id marker =>
      refine iff_of_true ?_ trivial
      rw [step, start_metadata]
      exact lsoKept_refl stable
    | endTxn who orgId id marker =>
      refine iff_of_true ?_ trivial
      rw [step, start_metadata]
      exact lsoKept_refl stable
    | next who => exact next_kept_iff stable (s.callers who)

/-! ## Runs -/

theorem lsoKept_run_iff {s : LsoSystem} (stable : Stable s.metadata) (steps : List LsoStep) :
    Meets step (fun s a => LsoKept s.metadata (s.step a).metadata) s steps ↔
      Meets step LsoInOrder s steps := by
  apply meets_congr (fun s : LsoSystem => Stable s.metadata) (fun s a stable => lsoKept_step_iff stable a) ?_ stable
  intro s a stable ordered
  exact ((lsoKept_step_iff stable a).2 ordered).2

/-- In a run from a store with no open transaction below a last stable offset, none ever
is and no last stable offset decreases, exactly if each statement is in order where it
is carried out. -/
theorem lastStableOffset_iff {s : LsoSystem} (stable : Stable s.metadata) (steps : List LsoStep) :
    (∀ before a after, steps = before ++ a :: after →
      LsoNoLess (run step s before).metadata (run step s (before ++ [a])).metadata ∧
        Stable (run step s (before ++ [a])).metadata) ↔
      Meets step LsoInOrder s steps := by
  rw [← lsoKept_run_iff stable, meets_iff_forall]
  simp only [run_append, run_cons, run_nil, LsoKept]

namespace Example

def events0 : TopicPartition := ⟨"events", 0⟩

def emptyLso : LsoSystem := ⟨⟨fun _ => none, fun _ => none⟩, fun _ => .idle⟩

/-- Two producers write to one partition, each in a transaction of its own. -/
def bothOpen : List LsoStep :=
  [⟨.beginTransaction "first" none, true, by decide⟩, ⟨.beginTransaction "second" none, true, by decide⟩,
    ⟨.addTransactionPartition "first" events0 0, true, by decide⟩, ⟨.addTransactionPartition "second" events0 1, true, by decide⟩]

def goesOn : LsoStep := ⟨.next 0, true, by decide⟩

def commit (id : TransactionId) (plain : ∀ t ∈ [id], QuoteFree t) : List LsoStep :=
  [⟨.endTransaction 0 none id .commit, true, plain⟩, goesOn, goesOn, goesOn]

theorem emptyLso_stable : Stable emptyLso.metadata := by
  rintro id k first ⟨t, present, -⟩
  cases present

theorem bothOpen_clear : Clear (run step emptyLso bothOpen).metadata (some "first") events0 1 := by
  rintro id first different ⟨t, present, ongoing, p, member, -, rfl⟩
  have unlike : id ≠ "first" := fun same => different (congrArg some same)
  by_cases second : id = "second"
  · subst second
    have row : (run step emptyLso bothOpen).metadata.transactions "second" =
        some ⟨none, .ongoing, [⟨events0, 1, 1⟩]⟩ := by
      decide
    obtain rfl := some.inj (row.symm.trans present)
    obtain rfl := mem_singleton.1 member
    exact Nat.le_refl _
  · have absent : (run step emptyLso bothOpen).metadata.transactions id = none := by
      simp [run, bothOpen, step, beginTransaction, addTransactionPartition, settle, setTransaction, emptyLso,
        unlike, second]
    cases absent.symm.trans present

end Example

open Example

theorem lastStableOffset_iff_in_order : Stable emptyLso.metadata ∧
    Stable (run step emptyLso (bothOpen ++ commit "first" (by decide))).metadata := by
  have ordered : Meets step LsoInOrder emptyLso (bothOpen ++ commit "first" (by decide)) := by
    refine meets_append.2 ⟨⟨fun _ => trivial, fun _ => trivial, ?_, ?_, trivial⟩, ?_⟩
    · intro _ t _ _ _ _
      exact Nat.zero_le _
    · intro _ t _ _ _ _
      exact Nat.zero_le _
    · refine ⟨fun _ => trivial, fun _ => trivial, ?_, fun _ => trivial, trivial⟩
      intro _ t _ _ _ p member
      obtain rfl := mem_singleton.1 member
      exact bothOpen_clear
  have kept := (lastStableOffset_iff emptyLso_stable _).2 ordered
    (bothOpen ++ (commit "first" (by decide)).take 3) goesOn [] rfl
  exact ⟨emptyLso_stable, kept.2⟩

theorem lastStableOffset_fails : Stable emptyLso.metadata ∧
    ¬ ∀ before a after, bothOpen ++ commit "second" (by decide) = before ++ a :: after →
      LsoNoLess (run step emptyLso before).metadata
          (run step emptyLso (before ++ [a])).metadata ∧
        Stable (run step emptyLso (before ++ [a])).metadata := by
  refine ⟨emptyLso_stable, ?_⟩
  intro every
  obtain ⟨-, stable⟩ := every (bothOpen ++ (commit "second" (by decide)).take 3) goesOn [] rfl
  have first : OpenOn (run step emptyLso (bothOpen ++ commit "second" (by decide))).metadata "first"
      events0 0 :=
    ⟨⟨none, .ongoing, [⟨events0, 0, 0⟩]⟩, by decide, rfl, ⟨events0, 0, 0⟩, mem_singleton_self _, rfl, rfl⟩
  have below := stable "first" events0 0 first
  have past : (run step emptyLso (bothOpen ++ commit "second" (by decide))).metadata.getLastStableOffset
      events0 = 2 := by
    decide
  exact absurd (past.symm.trans_le below) (by decide)

end StreamHouse.Metadata
