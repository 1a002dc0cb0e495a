import StreamHouse.Metadata.LastStableOffset

/-!
# Settled data and the last stable offset

The store of `Metadata.LastStableOffset` together with the logs of the partitions:
produces append, plainly or in a transaction, and a roll moves the high watermark.
A record is settled once it is below the high watermark and below everything that a
transaction which is still ongoing has written to its partition. Fetch, ListOffsets
and the client's consumer show a reader of committed data what is below
`get_last_stable_offset`. Only the end of a transaction raises that offset, past the
records of this transaction, and without a row it is 0.
-/

namespace StreamHouse.Metadata
open Lib Option Function Ending

/-- The offsets of a partition: all below `nextOffset` are stored. -/
structure PartitionLog where
  nextOffset : Nat
  highWatermark : Nat
  bounded : highWatermark ≤ nextOffset

def PartitionLog.append (log : PartitionLog) (count : Nat) : PartitionLog :=
  ⟨log.nextOffset + count, log.highWatermark, Nat.le_add_right_of_le log.bounded⟩

/-- The high watermark is set, to the end of the log at most. -/
def PartitionLog.roll (log : PartitionLog) (upTo : Nat) : PartitionLog :=
  ⟨log.nextOffset, min upTo log.nextOffset, Nat.min_le_right _ _⟩

/-- Where a transaction has written. -/
structure Written where
  id : TransactionId
  key : TopicPartition
  baseOffset : Nat

/-- A write to `partition_lso` and the last offset that it goes past. EndTxn's own one overwrites
what there is, the others raise it. -/
structure LsoWrite where
  key : TopicPartition
  lastOffset : Nat
  overwrites : Bool

/-- The end of a transaction, for each partition in turn. -/
def endingWrites (partitions : List TransactionPartition) (writes : List LsoWrite) : List LsoWrite :=
  partitions.foldl (fun before p => ⟨p.key, p.lastOffset, false⟩ :: before) writes

structure DataSystem where
  lso : LsoSystem
  logs : TopicPartition → PartitionLog
  written : List Written
  /-- The writes that were carried out, the latest first. -/
  writes : List LsoWrite

inductive DataAction where
  | store (a : LsoStep)
  /-- A produce of the agent or the Kafka server, in a transaction or not. -/
  | append (key : TopicPartition) (count : Nat) (transactionId : Option TransactionId)
  | roll (key : TopicPartition) (upTo : Nat)

def Ending.record (m : TransactionStore) (writes : List LsoWrite) : Ending → List LsoWrite
  | .read scope id _ partitions _ =>
    match m.transactions id with
    | some t => if TransactionStore.Ends scope t then endingWrites partitions writes else writes
    | none => writes
  | .advancing (p :: _) => ⟨p.key, p.lastOffset, true⟩ :: writes
  | _ => writes

namespace DataSystem

def record (s : DataSystem) (a : LsoStep) : List LsoWrite :=
  match a.call with
  | .next who => if a.carriedOut then (s.lso.callers who).record s.lso.metadata s.writes else s.writes
  | _ => s.writes

def step (s : DataSystem) : DataAction → DataSystem
  | .store a => { s with lso := s.lso.step a, writes := s.record a }
  | .append key count transactionId =>
    { s with
      logs := Function.update s.logs key ((s.logs key).append count)
      written := match transactionId with
        | some id => if count = 0 then s.written else s.written ++ [⟨id, key, (s.logs key).nextOffset⟩]
        | none => s.written }
  | .roll key upTo => { s with logs := Function.update s.logs key ((s.logs key).roll upTo) }

def initial : DataSystem := ⟨⟨⟨fun _ => none, fun _ => none⟩, fun _ => .idle⟩, fun _ => ⟨0, 0, Nat.le_refl 0⟩, [], []⟩

end DataSystem

open DataSystem

def Ongoing (m : TransactionStore) (id : TransactionId) : Prop := ∃ t, m.transactions id = some t ∧ t.state = .ongoing

/-- The ongoing transaction, another one than `but`, has records on the partition from `base` on. -/
def Pending (s : DataSystem) (but : Option TransactionId) (key : TopicPartition) (base : Nat) : Prop :=
  ∃ id, some id ≠ but ∧ Ongoing s.lso.metadata id ∧ ⟨id, key, base⟩ ∈ s.written

/-- Every settled record is below the last stable offset. -/
def DataSystem.Visible (s : DataSystem) : Prop :=
  ∀ key offset, offset < (s.logs key).highWatermark → (∀ base, Pending s none key base → offset < base) →
    offset < s.lso.metadata.getLastStableOffset key

/-! ## The condition -/

/-- A transaction that ended had recorded an offset of the partition just below `upTo`, or a later
one, and EndTxn has not gone back behind it since. -/
def Reached (key : TopicPartition) (upTo : Nat) : List LsoWrite → Prop
  | [] => upTo = 0
  | w :: before => w.key = key ∧ upTo ≤ w.lastOffset + 1 ∨ ¬ (w.key = key ∧ w.overwrites = true) ∧ Reached key upTo before

/-- The partition is reached up to its high watermark, or up to where an ongoing transaction other
than `but` has written. -/
def WatermarkReached (s : DataSystem) (writes : List LsoWrite) (but : Option TransactionId) (key : TopicPartition) (highWatermark : Nat) :
    Prop :=
  Reached key highWatermark writes ∨ ∃ base, Pending s but key base ∧ Reached key base writes

/-- The end of an ongoing transaction covers the partitions it has written to by what it has read
that the transaction recorded, and EndTxn afterwards by what it had listed. -/
def Ending.Covers (s : DataSystem) : Ending → Prop
  | .read scope id _ partitions _ =>
    ∀ t, s.lso.metadata.transactions id = some t → TransactionStore.Ends scope t → t.state = .ongoing →
      ∀ w ∈ s.written, w.id = id → WatermarkReached s (endingWrites partitions s.writes) (some id) w.key (s.logs w.key).highWatermark
  | .advancing (p :: _) => WatermarkReached s (⟨p.key, p.lastOffset, true⟩ :: s.writes) none p.key (s.logs p.key).highWatermark
  | _ => True

namespace DataSystem

/-- A roll finds the partition covered up to the new high watermark, and a statement that ends or
prepares a transaction leaves covered what that has written to. -/
def Covers (s : DataSystem) : DataAction → Prop
  | .append _ _ _ => True
  | .roll key upTo => WatermarkReached s s.writes none key (min upTo (s.logs key).nextOffset)
  | .store a => a.carriedOut = true →
    match a.call with
    | .prepareTransaction scope id =>
      ∀ t, s.lso.metadata.transactions id = some t → t.Visible scope → t.state = .ongoing →
        ∀ w ∈ s.written, w.id = id → WatermarkReached s s.writes (some id) w.key (s.logs w.key).highWatermark
    | .next who => (s.lso.callers who).Covers s
    | _ => True

end DataSystem

/-! ## The writes and the last stable offset -/

/-- `lso` is at the high watermark, or at the records of an ongoing transaction other than `but`. -/
def LsoCovered (s : DataSystem) (but : Option TransactionId) (key : TopicPartition) (lso highWatermark : Nat) : Prop :=
  highWatermark ≤ lso ∨ ∃ base, Pending s but key base ∧ base ≤ lso

/-- The last stable offset of each partition is what the writes reach. -/
def Accounts (m : TransactionStore) (writes : List LsoWrite) : Prop :=
  ∀ key upTo, Reached key upTo writes ↔ upTo ≤ m.getLastStableOffset key

section Writes

variable {m : TransactionStore} {writes : List LsoWrite}

section

variable (accounts : Accounts m writes)
include accounts

theorem watermarkReached_iff {s : DataSystem} {but : Option TransactionId} {key : TopicPartition}
    {highWatermark : Nat} : WatermarkReached s writes but key highWatermark ↔ LsoCovered s but key (m.getLastStableOffset key) highWatermark := by
  simp only [WatermarkReached, LsoCovered, accounts key]

theorem Accounts.same {m' : TransactionStore} (same : m'.partitionLso = m.partitionLso) :
    Accounts m' writes := by
  intro key upTo
  rw [accounts key upTo, TransactionStore.getLastStableOffset, TransactionStore.getLastStableOffset, same]

theorem Accounts.raise (p : TransactionPartition) :
    Accounts (m.raiseLso p) (⟨p.key, p.lastOffset, false⟩ :: writes) := by
  intro key upTo
  rw [Reached, accounts key upTo]
  by_cases here : p.key = key
  · subst here
    simp [TransactionStore.raiseLso_self, or_comm]
  · have kept : (m.raiseLso p).getLastStableOffset key = m.getLastStableOffset key := TransactionStore.setLso_of_ne (Ne.symm here) _
    simp [kept, here]

theorem Accounts.set (p : TransactionPartition) :
    Accounts (m.setLso p.key (p.lastOffset + 1)) (⟨p.key, p.lastOffset, true⟩ :: writes) := by
  intro key upTo
  rw [Reached, accounts key upTo]
  by_cases here : p.key = key
  · subst here
    simp [TransactionStore.setLso_self]
  · simp [TransactionStore.setLso_of_ne (Ne.symm here), here]

theorem Accounts.ending (partitions : List TransactionPartition) :
    Accounts (partitions.foldl TransactionStore.raiseLso m) (endingWrites partitions writes) := by
  induction partitions generalizing m writes with
  | nil => exact accounts
  | cons p rest ih => exact ih (accounts.raise p)


end
end Writes

namespace DataSystem

/-- A record is below the offset whenever it is settled exactly if the offset is at the high
watermark or at the records of an ongoing transaction. -/
theorem visible_iff (s : DataSystem) :
    s.Visible ↔ ∀ key, LsoCovered s none key (s.lso.metadata.getLastStableOffset key) (s.logs key).highWatermark := by
  constructor
  · intro visible key
    by_contra uncovered
    rw [LsoCovered, not_or, not_exists] at uncovered
    obtain ⟨below, apart⟩ := uncovered
    refine Nat.lt_irrefl _ (visible key (s.lso.metadata.getLastStableOffset key) (Nat.lt_of_not_le below) ?_)
    intro base pending
    apply Nat.lt_of_not_le
    intro reached
    exact apart base ⟨pending, reached⟩
  · intro covered key offset stored settled
    obtain reached | ⟨base, pending, reached⟩ := covered key
    · omega
    · have before := settled base pending
      omega

end DataSystem

/-! ## One action -/

variable {s s' : DataSystem}

variable {key : TopicPartition} {m : TransactionStore}

theorem Pending.mono {but : Option TransactionId} {base : Nat} (pending : Pending s but key base)
    (ongoing : ∀ id, some id ≠ but → Ongoing s.lso.metadata id → Ongoing s'.lso.metadata id) (written : ∀ w ∈ s.written, w ∈ s'.written) :
    Pending s' but key base := by
  obtain ⟨id, other, isOngoing, member⟩ := pending
  exact ⟨id, other, ongoing id other isOngoing, written _ member⟩

theorem LsoCovered.mono {but but' : Option TransactionId} {lso lso' highWatermark : Nat}
    (covered : LsoCovered s but key lso highWatermark) (raised : lso ≤ lso')
    (pending : ∀ base, base ≤ lso → Pending s but key base → Pending s' but' key base) :
    LsoCovered s' but' key lso' highWatermark := by
  obtain reached | ⟨base, before, reached⟩ := covered
  · exact .inl (Nat.le_trans reached raised)
  · exact .inr ⟨base, pending base reached before, Nat.le_trans reached raised⟩

namespace DataSystem

/-- Where nothing is settled that was not. -/
theorem Visible.keep (visible : s.Visible) (watermarks : ∀ key, (s'.logs key).highWatermark = (s.logs key).highWatermark)
    (written : ∀ w ∈ s.written, w ∈ s'.written)
    (lso : ∀ key, s'.lso.metadata.getLastStableOffset key = s.lso.metadata.getLastStableOffset key)
    (ongoing : ∀ id, Ongoing s.lso.metadata id → Ongoing s'.lso.metadata id) : s'.Visible := by
  rw [visible_iff] at visible ⊢
  intro key
  rw [watermarks, lso]
  refine (visible key).mono (Nat.le_refl _) ?_
  intro base _ pending
  exact pending.mono (fun id _ => ongoing id) written

/-- A transaction is no longer ongoing, and no last stable offset falls: the partitions on
which it has records are those that count. -/
theorem visible_ended_iff (visible : s.Visible) (id : TransactionId) (logs : s'.logs = s.logs) (written : s'.written = s.written)
    (ongoing : ∀ j, Ongoing s'.lso.metadata j ↔ j ≠ id ∧ Ongoing s.lso.metadata j)
    (raised : ∀ key, s.lso.metadata.getLastStableOffset key ≤ s'.lso.metadata.getLastStableOffset key) :
    s'.Visible ↔ (Ongoing s.lso.metadata id → ∀ w ∈ s.written, w.id = id →
      LsoCovered s (some id) w.key (s'.lso.metadata.getLastStableOffset w.key) (s.logs w.key).highWatermark) := by
  have pending : ∀ key base, Pending s' none key base ↔ Pending s (some id) key base := by
    intro key base
    constructor
    · rintro ⟨j, -, isOngoing, member⟩
      obtain ⟨other, before⟩ := (ongoing j).mp isOngoing
      exact ⟨j, fun same => other (some.inj same), before, written ▸ member⟩
    · rintro ⟨j, other, before, member⟩
      exact ⟨j, (fun no => nomatch no), (ongoing j).mpr ⟨fun same => other (congrArg some same), before⟩, written.symm ▸ member⟩
  rw [visible_iff] at visible ⊢
  constructor
  · intro covered _ w _ _
    have here := covered w.key
    rw [logs] at here
    exact here.mono (Nat.le_refl _) fun base _ => (pending w.key base).mp
  · intro covered key
    rw [logs]
    by_cases concerned : Ongoing s.lso.metadata id ∧ ∃ w ∈ s.written, w.id = id ∧ w.key = key
    · obtain ⟨isOngoing, w, member, isIts, rfl⟩ := concerned
      exact (covered isOngoing w member isIts).mono (Nat.le_refl _) fun base _ => (pending w.key base).mpr
    · refine (visible key).mono (raised key) ?_
      rintro base - ⟨j, -, isOngoing, member⟩
      refine (pending key base).mpr ⟨j, ?_, isOngoing, member⟩
      intro same
      obtain rfl := some.inj same
      exact concerned ⟨isOngoing, _, member, rfl, rfl⟩

/-- The last stable offset of one partition is set. -/
theorem visible_set_iff (visible : s.Visible) {value : Nat} (logs : s'.logs = s.logs)
    (written : s'.written = s.written) (metadata : s'.lso.metadata = s.lso.metadata.setLso key value) :
    s'.Visible ↔ LsoCovered s none key value (s.logs key).highWatermark := by
  have same : ∀ id, Ongoing s'.lso.metadata id ↔ Ongoing s.lso.metadata id := by
    intro id
    rw [metadata]
    exact Iff.rfl
  rw [visible_iff] at visible ⊢
  constructor
  · intro covered
    have here := covered key
    rw [logs, metadata, TransactionStore.setLso_self] at here
    exact here.mono (Nat.le_refl _) fun base _ pending => pending.mono (fun id _ => (same id).mp) (written ▸ fun w member => member)
  · intro covered other
    rw [logs, metadata]
    by_cases here : other = key
    · rw [here, TransactionStore.setLso_self]
      exact covered.mono (Nat.le_refl _) fun base _ pending =>
        pending.mono (fun id _ => (same id).mpr) (written.symm ▸ fun w member => member)
    · rw [TransactionStore.setLso_of_ne here]
      exact (visible other).mono (Nat.le_refl _) fun base _ pending =>
        pending.mono (fun id _ => (same id).mpr) (written.symm ▸ fun w member => member)

end DataSystem

/-! ## One statement -/

open TransactionStore

/-- A statement that sets no offset, and after which every ongoing transaction still is. -/
structure Untouched (m m' : TransactionStore) : Prop where
  lso : m'.partitionLso = m.partitionLso
  ongoing : ∀ id, Ongoing m id → Ongoing m' id

theorem Untouched.refl (m : TransactionStore) : Untouched m m := ⟨rfl, fun _ ongoing => ongoing⟩

theorem Untouched.set {id : TransactionId} {t : Transaction}
    (same : ∀ row, m.transactions id = some row → t.state = row.state) : Untouched m (m.setTransaction id t) := by
  refine ⟨rfl, ?_⟩
  rintro j ⟨row, present, ongoing⟩
  by_cases here : j = id
  · subst here
    exact ⟨t, setTransaction_self _ _ _, (same row present).trans ongoing⟩
  · exact ⟨row, (setTransaction_of_ne here t).trans present, ongoing⟩

theorem beginTransaction_untouched (m : TransactionStore) (id : TransactionId) (organizationId : Option String) :
    Untouched m (m.settle (m.beginTransaction id organizationId)) := by
  unfold beginTransaction
  split
  · exact .refl m
  · next fresh =>
    refine Untouched.set fun row present => ?_
    rw [present] at fresh
    exact (fresh rfl).elim

theorem addTransactionPartition_untouched (m : TransactionStore) (id : TransactionId) (key : TopicPartition) (firstOffset : Nat) :
    Untouched m (m.settle (m.addTransactionPartition id key firstOffset)) := by
  unfold addTransactionPartition
  cases present : m.transactions id with
  | none => exact .refl m
  | some t =>
    refine Untouched.set fun row found => ?_
    obtain rfl := some.inj (present.symm.trans found)
    unfold Transaction.enroll
    split <;> rfl

theorem addForOrg_untouched (m : TransactionStore) (orgId : String) (id : TransactionId) (key : TopicPartition) (firstOffset : Nat) :
    Untouched m (m.settle (m.addTransactionPartitionForOrg orgId id key firstOffset)) := by
  unfold addTransactionPartitionForOrg
  split
  · split
    · exact addTransactionPartition_untouched m id key firstOffset
    · exact .refl m
  · exact .refl m

theorem updateOffset_untouched (m : TransactionStore) (id : TransactionId) (key : TopicPartition) (lastOffset : Nat) :
    Untouched m (m.updateTransactionPartitionOffset id key lastOffset) := by
  unfold updateTransactionPartitionOffset
  split
  · next t present =>
    refine Untouched.set fun row found => ?_
    obtain rfl := some.inj (present.symm.trans found)
    rfl
  · exact .refl m

theorem marker_over (marker : TransactionMarkerType) : marker.state ≠ .ongoing := by
  cases marker with
  | commit => decide
  | abort => decide

theorem ongoing_ended {id : TransactionId} {t : Transaction} (finished : t.state ≠ .ongoing) (j : TransactionId) :
    Ongoing (m.setTransaction id t) j ↔ j ≠ id ∧ Ongoing m j := by
  constructor
  · rintro ⟨row, present, ongoing⟩
    by_cases here : j = id
    · subst here
      rw [setTransaction_self] at present
      rw [← some.inj present] at ongoing
      exact (finished ongoing).elim
    · exact ⟨here, row, (setTransaction_of_ne here t).symm.trans present, ongoing⟩
  · rintro ⟨here, row, present, ongoing⟩
    exact ⟨row, (setTransaction_of_ne here t).trans present, ongoing⟩

theorem ongoing_foldl (partitions : List TransactionPartition) (m : TransactionStore) (id : TransactionId) :
    Ongoing (partitions.foldl raiseLso m) id ↔ Ongoing m id := by
  rw [Ongoing, foldl_raiseLso_transactions, Ongoing]

namespace DataSystem

theorem Visible.untouched (visible : s.Visible) (logs : s'.logs = s.logs) (written : s'.written = s.written)
    (untouched : Untouched s.lso.metadata s'.lso.metadata) : s'.Visible := by
  refine visible.keep (fun key => by rw [logs]) (written ▸ fun w member => member) ?_ untouched.ongoing
  intro key
  rw [getLastStableOffset, untouched.lso]
  rfl

theorem Visible.unchanged (visible : s.Visible) (logs : s'.logs = s.logs) (written : s'.written = s.written)
    (metadata : s'.lso.metadata = s.lso.metadata) : s'.Visible := by
  refine visible.untouched logs written ?_
  rw [metadata]
  exact .refl _

theorem ongoing_iff {id : TransactionId} {t : Transaction} (present : m.transactions id = some t) :
    Ongoing m id ↔ t.state = .ongoing := by
  constructor
  · rintro ⟨row, found, ongoing⟩
    rw [some.inj (present.symm.trans found)]
    exact ongoing
  · exact fun ongoing => ⟨t, present, ongoing⟩

/-- The statement that ends a transaction. -/
theorem visible_read_iff (visible : s.Visible) (accounts : Accounts s.lso.metadata s.writes) (scope : Option String) (id : TransactionId) (marker : TransactionMarkerType)
    (partitions advance : List TransactionPartition) (logs : s'.logs = s.logs) (written : s'.written = s.written)
    (metadata : s'.lso.metadata = (next s.lso.metadata true (.read scope id marker partitions advance)).1) :
    s'.Visible ↔ (Ending.read scope id marker partitions advance).Covers s := by
  simp only [Ending.Covers]
  cases present : s.lso.metadata.transactions id with
  | none =>
    refine iff_of_true (visible.unchanged logs written ?_) ?_
    · rw [metadata]
      simp only [next, if_true, endTransaction, present]
    · intro t found
      cases found
  | some t =>
    by_cases ends : Ends scope t
    · have after : s'.lso.metadata =
          partitions.foldl raiseLso (s.lso.metadata.setTransaction id { t with state := marker.state }) := by
        have taken : t.Visible scope ∧ (t.state = .ongoing ∨ t.state = .preparing) := ends
        rw [metadata]
        simp only [next, if_true, endTransaction, present, taken, and_self]
      have finished : ({ t with state := marker.state } : Transaction).state ≠ .ongoing := marker_over marker
      have raised : ∀ key, s.lso.metadata.getLastStableOffset key ≤ s'.lso.metadata.getLastStableOffset key := by
        intro key
        rw [after]
        exact le_foldl_raiseLso partitions (s.lso.metadata.setTransaction id { t with state := marker.state }) key
      rw [visible_ended_iff visible id logs written (fun j => by rw [after, ongoing_foldl, ongoing_ended finished]) raised,
        ongoing_iff present]
      have marked : Accounts (s.lso.metadata.setTransaction id { t with state := marker.state }) s.writes := accounts.same rfl
      simp only [watermarkReached_iff (marked.ending partitions), ← after]
      constructor
      · rintro covers row found - ongoing
        obtain rfl := some.inj found
        exact covers ongoing
      · intro covers ongoing
        exact covers t rfl ends ongoing
    · have refused : ¬ (t.Visible scope ∧ (t.state = .ongoing ∨ t.state = .preparing)) := ends
      refine iff_of_true (visible.unchanged logs written ?_) ?_
      · rw [metadata]
        simp only [next, if_true, endTransaction, present, refused, if_false]
      · intro row found yes
        rw [some.inj found] at ends
        exact (ends yes).elim

/-- A statement of a caller. -/
theorem visible_next_iff (visible : s.Visible) (accounts : Accounts s.lso.metadata s.writes) (phase : Ending) (logs : s'.logs = s.logs) (written : s'.written = s.written)
    (metadata : s'.lso.metadata = (phase.next s.lso.metadata true).1) : s'.Visible ↔ phase.Covers s := by
  cases phase with
  | idle => exact iff_of_true (visible.unchanged logs written metadata) trivial
  | endTxn orgId id marker =>
    refine iff_of_true (visible.untouched logs written ?_) trivial
    have begun := beginTransaction_untouched s.lso.metadata id (some orgId)
    rw [metadata]
    simp only [next, if_true]
    cases started : s.lso.metadata.beginTransaction id (some orgId) with
    | ok m' =>
      rw [started] at begun
      exact begun
    | error e => exact .refl _
  | begun orgId id marker => exact iff_of_true (visible.unchanged logs written metadata) trivial
  | ending scope id marker advance => exact iff_of_true (visible.unchanged logs written metadata) trivial
  | read scope id marker partitions advance => exact visible_read_iff visible accounts scope id marker partitions advance logs written metadata
  | advancing partitions =>
    cases partitions with
    | nil => exact iff_of_true (visible.unchanged logs written metadata) trivial
    | cons p rest =>
      rw [visible_set_iff visible logs written metadata, Ending.Covers, watermarkReached_iff (accounts.set p), setLso_self]

/-- `prepare_transaction`: the transaction is not ongoing any more, and no offset is set. -/
theorem visible_prepare_iff (visible : s.Visible) (accounts : Accounts s.lso.metadata s.writes) (scope : Option String) (id : TransactionId)
    (plain : ∀ t ∈ (LsoCall.prepareTransaction scope id).texts, QuoteFree t) :
    (s.step (.store ⟨.prepareTransaction scope id, true, plain⟩)).Visible ↔
      ∀ t, s.lso.metadata.transactions id = some t → t.Visible scope → t.state = .ongoing →
        ∀ w ∈ s.written, w.id = id → WatermarkReached s s.writes (some id) w.key (s.logs w.key).highWatermark := by
  simp only [watermarkReached_iff accounts]
  have metadata : (s.step (.store ⟨.prepareTransaction scope id, true, plain⟩)).lso.metadata =
      s.lso.metadata.settle (s.lso.metadata.prepareTransaction scope id) := rfl
  have logs : (s.step (.store ⟨.prepareTransaction scope id, true, plain⟩)).logs = s.logs := rfl
  have written : (s.step (.store ⟨.prepareTransaction scope id, true, plain⟩)).written = s.written := rfl
  generalize s.step (.store ⟨.prepareTransaction scope id, true, plain⟩) = s' at metadata logs written ⊢
  cases present : s.lso.metadata.transactions id with
  | none =>
    refine iff_of_true (visible.unchanged logs written ?_) ?_
    · rw [metadata]
      simp only [prepareTransaction, present, settle]
    · intro t found
      cases found
  | some t =>
    by_cases prepares : t.Visible scope ∧ t.state = .ongoing
    · have after : s'.lso.metadata = s.lso.metadata.setTransaction id { t with state := .preparing } := by
        rw [metadata]
        simp only [prepareTransaction, present, prepares, and_self, if_true, settle]
      have finished : ({ t with state := .preparing } : Transaction).state ≠ .ongoing := TransactionState.noConfusion
      have same : ∀ key, s'.lso.metadata.getLastStableOffset key = s.lso.metadata.getLastStableOffset key := by
        intro key
        rw [after]
        rfl
      rw [visible_ended_iff visible id logs written (fun j => by rw [after, ongoing_ended finished]) (fun key => (same key).ge),
        ongoing_iff present]
      simp only [same]
      constructor
      · rintro covers row found - ongoing
        obtain rfl := some.inj found
        exact covers ongoing
      · intro covers _
        exact covers t rfl prepares.1 prepares.2
    · refine iff_of_true (visible.unchanged logs written ?_) ?_
      · rw [metadata]
        simp only [prepareTransaction, present, prepares, if_false, settle]
      · rintro row found sees ongoing
        obtain rfl := some.inj found
        exact (prepares ⟨sees, ongoing⟩).elim

/-- New records are above the high watermark. -/
theorem Visible.append (visible : s.Visible) (key : TopicPartition) (count : Nat) (transactionId : Option TransactionId) :
    (s.step (.append key count transactionId)).Visible := by
  refine visible.keep ?_ ?_ (fun _ => rfl) fun _ ongoing => ongoing
  · intro other
    simp only [step]
    by_cases here : other = key
    · subst here
      rw [update_self]
      rfl
    · rw [update_of_ne here]
  · intro w member
    simp only [step]
    cases transactionId with
    | none => exact member
    | some id =>
      dsimp only
      split
      · exact member
      · exact List.mem_append_left _ member

theorem visible_roll_iff (visible : s.Visible) (accounts : Accounts s.lso.metadata s.writes) (key : TopicPartition) (upTo : Nat) :
    (s.step (.roll key upTo)).Visible ↔ s.Covers (.roll key upTo) := by
  rw [Covers, watermarkReached_iff accounts]
  rw [visible_iff] at visible ⊢
  constructor
  · intro covered
    have here := covered key
    rw [step] at here
    dsimp only at here
    rw [update_self] at here
    exact here
  · intro covered other
    rw [step]
    dsimp only
    by_cases here : other = key
    · subst here
      rw [update_self]
      exact covered
    · rw [update_of_ne here]
      exact visible other

/-- **The step**: settled data stays visible exactly if the action leaves the last stable offset
where it covers it. -/
theorem visible_step_iff (visible : s.Visible) (accounts : Accounts s.lso.metadata s.writes) (a : DataAction) : (s.step a).Visible ↔ s.Covers a := by
  cases a with
  | append key count transactionId => exact iff_of_true (visible.append key count transactionId) trivial
  | roll key upTo => exact visible_roll_iff visible accounts key upTo
  | store a =>
    obtain ⟨call, carriedOut, plain⟩ := a
    cases carriedOut with
    | false =>
      refine iff_of_true (visible.unchanged rfl rfl (metadata_failed s.lso call plain)) ?_
      intro no
      cases no
    | true =>
      rw [Covers, forall_prop_of_true rfl]
      cases call with
      | beginTransaction id organizationId =>
        exact iff_of_true (visible.untouched rfl rfl (beginTransaction_untouched _ id organizationId)) trivial
      | addTransactionPartition id key firstOffset =>
        exact iff_of_true (visible.untouched rfl rfl (addTransactionPartition_untouched _ id key firstOffset)) trivial
      | addTransactionPartitionForOrg orgId id key firstOffset =>
        exact iff_of_true (visible.untouched rfl rfl (addForOrg_untouched _ orgId id key firstOffset)) trivial
      | updateTransactionPartitionOffset id key lastOffset =>
        exact iff_of_true (visible.untouched rfl rfl (updateOffset_untouched _ id key lastOffset)) trivial
      | prepareTransaction scope id => exact visible_prepare_iff visible accounts scope id plain
      | endTransaction who scope id marker => exact iff_of_true (visible.unchanged rfl rfl (start_metadata s.lso who _)) trivial
      | endTxn who orgId id marker => exact iff_of_true (visible.unchanged rfl rfl (start_metadata s.lso who _)) trivial
      | next who => exact visible_next_iff visible accounts (s.lso.callers who) rfl rfl rfl

/-- What the writes reach stays the last stable offset. -/
theorem next_accounts {writes : List LsoWrite} (accounts : Accounts m writes) (phase : Ending) :
    Accounts (phase.next m true).1 (phase.record m writes) := by
  cases phase with
  | idle => exact accounts
  | endTxn orgId id marker =>
    refine accounts.same ?_
    have begun := beginTransaction_untouched m id (some orgId)
    simp only [next, if_true]
    cases started : m.beginTransaction id (some orgId) with
    | ok m' =>
      rw [started] at begun
      exact begun.lso
    | error e => rfl
  | begun orgId id marker => exact accounts
  | ending scope id marker advance => exact accounts
  | read scope id marker partitions advance =>
    simp only [next, if_true, endTransaction, Ending.record]
    cases m.transactions id with
    | none => exact accounts
    | some t =>
      by_cases ends : t.Visible scope ∧ (t.state = .ongoing ∨ t.state = .preparing)
      · have marked : Accounts (m.setTransaction id { t with state := marker.state }) writes := accounts.same rfl
        simp only [ends, Ends, and_self, if_true]
        exact marked.ending partitions
      · simp only [ends, Ends, if_false]
        exact accounts
  | advancing partitions =>
    cases partitions with
    | nil => exact accounts
    | cons p rest => exact accounts.set p

theorem step_accounts (accounts : Accounts s.lso.metadata s.writes) (a : DataAction) :
    Accounts (s.step a).lso.metadata (s.step a).writes := by
  cases a with
  | append key count transactionId => exact accounts
  | roll key upTo => exact accounts
  | store a =>
    obtain ⟨call, carriedOut, plain⟩ := a
    cases carriedOut with
    | false =>
      have kept : s.record ⟨call, false, plain⟩ = s.writes := by cases call <;> rfl
      show Accounts (s.lso.step ⟨call, false, plain⟩).metadata (s.record ⟨call, false, plain⟩)
      rw [metadata_failed, kept]
      exact accounts
    | true =>
      cases call with
      | beginTransaction id organizationId => exact accounts.same (beginTransaction_untouched _ id organizationId).lso
      | addTransactionPartition id key firstOffset => exact accounts.same (addTransactionPartition_untouched _ id key firstOffset).lso
      | addTransactionPartitionForOrg orgId id key firstOffset => exact accounts.same (addForOrg_untouched _ orgId id key firstOffset).lso
      | updateTransactionPartitionOffset id key lastOffset => exact accounts.same (updateOffset_untouched _ id key lastOffset).lso
      | prepareTransaction scope id =>
        refine accounts.same ?_
        show (s.lso.metadata.settle (s.lso.metadata.prepareTransaction scope id)).partitionLso = s.lso.metadata.partitionLso
        unfold prepareTransaction
        split
        · split <;> rfl
        · rfl
      | endTransaction who scope id marker => exact accounts.same (congrArg _ (start_metadata s.lso who _))
      | endTxn who orgId id marker => exact accounts.same (congrArg _ (start_metadata s.lso who _))
      | next who => exact next_accounts accounts (s.lso.callers who)

theorem visible_run_iff (visible : s.Visible) (accounts : Accounts s.lso.metadata s.writes) (actions : List DataAction) :
    Meets step (fun s a => (s.step a).Visible) s actions ↔ Meets step Covers s actions := by
  apply meets_congr (fun s => s.Visible ∧ Accounts s.lso.metadata s.writes) ?_ ?_ ⟨visible, accounts⟩
  · rintro s a ⟨visible, accounts⟩
    exact visible_step_iff visible accounts a
  · rintro s a ⟨visible, accounts⟩ covers
    exact ⟨(visible_step_iff visible accounts a).mpr covers, step_accounts accounts a⟩

theorem initial_visible : initial.Visible := by
  intro key offset stored
  exact (Nat.not_lt_zero offset stored).elim

end DataSystem

namespace Example

/-- A record is produced and flushed, outside of any transaction. -/
def plainRecord : List DataAction := [.append events0 1 none, .roll events0 1]

end Example

end StreamHouse.Metadata
