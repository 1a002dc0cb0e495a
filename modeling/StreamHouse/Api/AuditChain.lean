import StreamHouse.Api.AuditStore
import StreamHouse.Lib.HashChain
import StreamHouse.Lib.Run

/-!
# The audit chain

What is stored and what the appends in progress are going to store make up one chain: the appends
that have written `last_hash` are queued behind the records in storage, and `last_hash` belongs to the
last of them. The next append may read it when all before it have written theirs, and the line of a
record may be written when it is the first of the queue, to the last file that has lines.
-/

namespace StreamHouse.Api

open Lib HashChain List Option Function AuditState Appending StoredAuditRecord OrderedMap

namespace AuditState

variable {Entry : Type}

/-- Every record names the one before it, has the right hash, and the numbers are 1, 2, 3, ... -/
structure Chained (format : AuditFormat Entry) (records : List (StoredAuditRecord Entry)) : Prop where
  linked : Linked prevHash hash "" records
  verified : ∀ r ∈ records, format.verify r = true
  numbered : records.map seq = range' 1 records.length

/-- The hash that the record after these has to name. -/
def lastOf (records : List (StoredAuditRecord Entry)) : String := tip hash "" records

variable {format : AuditFormat Entry} {config : AuditStoreConfig}

theorem Chained.nil : Chained format ([] : List (StoredAuditRecord Entry)) := ⟨trivial, (by rintro _ ⟨⟩), rfl⟩

variable {records : List (StoredAuditRecord Entry)}

theorem Chained.snoc {r : StoredAuditRecord Entry} (chained : Chained format records)
    (names : r.prevHash = lastOf records) (verified : format.verify r = true) (next : r.seq = records.length + 1) :
    Chained format (records ++ [r]) where
  linked := chained.linked.snoc _ _ names
  verified other inside := by
    obtain old | last := mem_append.mp inside
    · exact chained.verified other old
    · rw [mem_singleton.mp last]
      exact verified
  numbered := by
    rw [map_append, chained.numbered, length_append, length_singleton, range'_concat, map_singleton, next,
      Nat.one_mul, Nat.add_comm]

theorem Chained.of_append {more : List (StoredAuditRecord Entry)} (chained : Chained format (records ++ more)) :
    Chained format records where
  linked := ((linked_append _ _).mp chained.linked).1
  verified r inside := chained.verified r (mem_append_left _ inside)
  numbered := by
    have all := chained.numbered
    rw [map_append, length_append, ← range'_append] at all
    exact (append_inj all (by rw [length_map, length_range'])).1

theorem Chained.seq_getElem (chained : Chained format records) {i : Nat}
    (within : i < records.length) : records[i].seq = i + 1 := by
  have all := congrArg (fun l => l[i]?) chained.numbered
  simp only [getElem?_map, getElem?_eq_getElem within, map_some, getElem?_range' within] at all
  rw [some.inj all, Nat.one_mul, Nat.add_comm]

/-- In a chain the loop gets to the end. -/
theorem verifyLoop_of_linked {prevHash : String} (n : Nat)
    (linked : Linked StoredAuditRecord.prevHash StoredAuditRecord.hash prevHash records)
    (verified : ∀ r ∈ records, format.verify r = true) :
    format.verifyLoop prevHash n records = ⟨true, n + records.length, none, none⟩ := by
  induction records generalizing prevHash n with
  | nil => rfl
  | cons r rest ih =>
    obtain ⟨names, linked⟩ := linked
    have good := verified r mem_cons_self
    rw [AuditFormat.verifyLoop, if_neg (not_not.mpr names), if_neg (not_not.mpr good),
      ih (n + 1) linked fun other inside => verified other (mem_cons_of_mem _ inside), length_cons]
    congr 1
    omega

/-! ## The queue behind the log -/

theorem seq?_of_record? {phase : Appending Entry} {r : StoredAuditRecord Entry} (holds : phase.record? = some r) :
    phase.seq? = some r.seq := by
  cases phase with
  | hashed r' => exact congrArg (fun r => some r.seq) (some.inj holds)
  | rotating r' => exact congrArg (fun r => some r.seq) (some.inj holds)
  | rotated r' => exact congrArg (fun r => some r.seq) (some.inj holds)
  | ready r' => exact congrArg (fun r => some r.seq) (some.inj holds)
  | chosen r' file => exact congrArg (fun r => some r.seq) (some.inj holds)
  | opened r' file => exact congrArg (fun r => some r.seq) (some.inj holds)
  | failed r' => exact congrArg (fun r => some r.seq) (some.inj holds)
  | _ => cases holds

/-- An open store with the records on their way. `L` is the whole chain, what is stored and what is on its way. -/
structure Going (format : AuditFormat Entry) (config : AuditStoreConfig) (s : AuditState Entry)
    (queue L : List (StoredAuditRecord Entry)) : Prop where
  all : s.stored config ++ queue = L
  chained : Chained format L
  tip : s.lastHash = lastOf L
  queued : ∀ r, r ∈ queue ↔ ∃ id, (s.appends id).record? = some r
  created : ∀ id r, s.appends id = .created r → format.verify r = true ∧ r.seq = L.length + 1 ∧ r.prevHash = s.lastHash
  later : ∀ id n, (s.appends id).seq? = some n → (s.appends id).record? = none → L.length < n ∧ n ≤ s.sequence
  covered : ∀ n, L.length < n → n ≤ s.sequence → ∃ id, (s.appends id).seq? = some n ∧ (s.appends id).record? = none
  distinct : ∀ id id' n, (s.appends id).seq? = some n → (s.appends id').seq? = some n → id = id'
  within : L.length ≤ s.sequence
  started : ∀ id, s.appends id ≠ .idle → id ∈ s.started

variable {s t : AuditState Entry} {queue L : List (StoredAuditRecord Entry)} {id : Nat} {phase : Appending Entry}
  {r : StoredAuditRecord Entry}

section

variable (going : Going format config s queue L)
include going

/-- A step that leaves the log, the number and the hash alone, and what its append holds. -/
theorem Going.keep (stored : t.stored config = s.stored config)
    (sequence : t.sequence = s.sequence) (lastHash : t.lastHash = s.lastHash) (begun : t.started = s.started)
    (appends : t.appends = update s.appends id phase) (seq : phase.seq? = (s.appends id).seq?)
    (record : phase.record? = (s.appends id).record?) (busy : s.appends id ≠ .idle)
    (fresh : ∀ r, phase = .created r → format.verify r = true ∧ r.seq = L.length + 1 ∧ r.prevHash = s.lastHash) :
    Going format config t queue L := by
  have sameSeq : ∀ other, (t.appends other).seq? = (s.appends other).seq? := by
    intro other
    rw [appends]
    by_cases same : other = id
    · rw [same, update_self, seq]
    · rw [update_of_ne same]
  have sameRecord : ∀ other, (t.appends other).record? = (s.appends other).record? := by
    intro other
    rw [appends]
    by_cases same : other = id
    · rw [same, update_self, record]
    · rw [update_of_ne same]
  refine ⟨by rw [stored, going.all], going.chained, lastHash.trans going.tip, fun r => ?_, fun other r => ?_, fun other n => ?_,
    fun n => ?_, fun a b n => ?_, sequence ▸ going.within, fun other => ?_⟩
  · simp only [sameRecord]
    exact going.queued r
  · rw [lastHash, appends]
    by_cases same : other = id
    · rw [same, update_self]
      exact fresh r
    · rw [update_of_ne same]
      exact going.created other r
  · rw [sameSeq, sameRecord, sequence]
    exact going.later other n
  · simp only [sameSeq, sameRecord, sequence]
    exact going.covered n
  · rw [sameSeq, sameSeq]
    exact going.distinct a b n
  · rw [begun, appends]
    by_cases same : other = id
    · rw [same]
      exact fun _ => going.started id busy
    · rw [update_of_ne same]
      exact going.started other

/-- No number above the last one has been taken. -/
theorem Going.seq_le {n : Nat} (seq : (s.appends id).seq? = some n) : n ≤ s.sequence := by
  cases record : (s.appends id).record? with
  | none => exact (going.later id n seq record).2
  | some r =>
    have inside : r ∈ L := going.all ▸ mem_append_right _ ((going.queued r).mpr ⟨id, record⟩)
    obtain ⟨i, within, rfl⟩ := getElem_of_mem inside
    have numbered := going.chained.seq_getElem within
    have same : n = L[i].seq := some.inj (seq.symm.trans (seq?_of_record? record))
    have bound := going.within
    omega

theorem Going.number (idle : s.appends id = .idle) (entry : Entry) :
    Going format config ({ s with sequence := s.sequence + 1, started := id :: s.started }.goOn id (.numbered entry (s.sequence + 1)))
      queue L := by
  let t := ({ s with sequence := s.sequence + 1, started := id :: s.started } : AuditState Entry).goOn id (.numbered entry (s.sequence + 1))
  have own : t.appends id = .numbered entry (s.sequence + 1) := update_self _ _ _
  have others : ∀ other, other ≠ id → t.appends other = s.appends other := fun other different => update_of_ne different _ _
  have within := going.within
  refine ⟨going.all, going.chained, going.tip, fun r => ?_, fun other r created => ?_, fun other n seq record => ?_,
    fun n above upper => ?_, fun a b n first second => ?_, Nat.le_succ_of_le within, fun other busy => ?_⟩
  · rw [going.queued r]
    refine exists_congr fun other => ?_
    show _ ↔ (t.appends other).record? = some r
    by_cases same : other = id
    · rw [same, own, idle]
      exact Iff.rfl
    · rw [others other same]
  · by_cases same : other = id
    · rw [same] at created
      cases own.symm.trans created
    · exact going.created other r ((others other same).symm.trans created)
  · by_cases same : other = id
    · rw [same] at seq
      have number : s.sequence + 1 = n := some.inj ((congrArg seq? own).symm.trans seq)
      show L.length < n ∧ n ≤ s.sequence + 1
      omega
    · have old := going.later other n ((congrArg seq? (others other same)).symm.trans seq)
        ((congrArg record? (others other same)).symm.trans record)
      exact ⟨old.1, Nat.le_succ_of_le old.2⟩
  · obtain last | before : n = s.sequence + 1 ∨ n ≤ s.sequence := (Nat.le_succ_iff.mp upper).symm
    · refine ⟨id, ?_, congrArg record? own⟩
      rw [last]
      exact congrArg seq? own
    · obtain ⟨other, seq, record⟩ := going.covered n above before
      have different : other ≠ id := by
        rintro rfl
        rw [idle] at seq
        cases seq
      exact ⟨other, (congrArg seq? (others other different)).trans seq,
        (congrArg record? (others other different)).trans record⟩
  · have number : ∀ other m, (t.appends other).seq? = some m → (other = id ∧ m = s.sequence + 1) ∨
        ((s.appends other).seq? = some m ∧ m ≤ s.sequence) := by
      intro other m seq
      by_cases same : other = id
      · rw [same] at seq
        exact .inl ⟨same, (some.inj ((congrArg seq? own).symm.trans seq)).symm⟩
      · have old := (congrArg seq? (others other same)).symm.trans seq
        exact .inr ⟨old, going.seq_le old⟩
    obtain ⟨isId, last⟩ | ⟨old, bound⟩ := number a n first
    · obtain ⟨isId', -⟩ | ⟨-, bound⟩ := number b n second
      · rw [isId, isId']
      · omega
    · obtain ⟨-, last⟩ | ⟨old', -⟩ := number b n second
      · omega
      · exact going.distinct a b n old old'
  · by_cases same : other = id
    · rw [same]
      exact mem_cons_self
    · exact mem_cons_of_mem _ (going.started other fun idle => busy ((others other same).trans idle))

/-- The append whose turn it is writes the hash and joins the queue. -/
theorem Going.writeHash (created : s.appends id = .created r) :
    Going format config ({ s with lastHash := r.hash }.goOn id (.hashed r)) (queue ++ [r]) (L ++ [r]) := by
  obtain ⟨verified, next, names⟩ := going.created id r created
  let t := ({ s with lastHash := r.hash } : AuditState Entry).goOn id (.hashed r)
  have own : t.appends id = .hashed r := update_self _ _ _
  have others : ∀ other, other ≠ id → t.appends other = s.appends other := fun other different => update_of_ne different _ _
  have ownSeq : (s.appends id).seq? = some r.seq := congrArg seq? created
  have ownRecord : (s.appends id).record? = none := congrArg record? created
  have length : (L ++ [r]).length = L.length + 1 := length_append
  have sameSeq : ∀ other, (t.appends other).seq? = (s.appends other).seq? := by
    intro other
    by_cases same : other = id
    · rw [same, own, created]
      rfl
    · rw [others other same]
  have waiting : ∀ other, (t.appends other).record? = none → (s.appends other).record? = none ∧ other ≠ id := by
    intro other record
    have different : other ≠ id := by
      rintro rfl
      cases (congrArg record? own).symm.trans record
    exact ⟨(congrArg record? (others other different)).symm.trans record, different⟩
  refine ⟨?_, going.chained.snoc (names.trans going.tip) verified next, ?_, fun r' => ?_, fun other r' isCreated => ?_,
    fun other n seq record => ?_, fun n above upper => ?_, fun a b n => ?_, ?_, fun other busy => ?_⟩
  · rw [← going.all, append_assoc]
    rfl
  · show r.hash = lastOf (L ++ [r])
    unfold lastOf
    rw [tip_append, tip_singleton]
  · rw [mem_append, going.queued r', mem_singleton]
    constructor
    · rintro (⟨other, record⟩ | rfl)
      · have different : other ≠ id := by
          rintro rfl
          rw [ownRecord] at record
          cases record
        exact ⟨other, (congrArg record? (others other different)).trans record⟩
      · exact ⟨id, congrArg record? own⟩
    · rintro ⟨other, record⟩
      by_cases same : other = id
      · rw [same] at record
        exact .inr (some.inj ((congrArg record? own).symm.trans record)).symm
      · exact .inl ⟨other, (congrArg record? (others other same)).symm.trans record⟩
  · have before : s.appends other = .created r' := by
      by_cases same : other = id
      · rw [same] at isCreated
        cases own.symm.trans isCreated
      · exact (others other same).symm.trans isCreated
    -- two appends cannot both be next
    have same : other = id := by
      obtain ⟨-, next', -⟩ := going.created other r' before
      apply going.distinct other id r.seq _ ownSeq
      rw [before, next, ← next']
      rfl
    rw [same] at isCreated
    cases own.symm.trans isCreated
  · rw [sameSeq] at seq
    obtain ⟨none, different⟩ := waiting other record
    obtain ⟨above, upper⟩ := going.later other n seq none
    have apart : n ≠ r.seq := by
      rintro rfl
      exact different (going.distinct other id r.seq seq ownSeq)
    rw [length]
    exact ⟨by omega, upper⟩
  · rw [length] at above
    obtain ⟨other, seq, record⟩ := going.covered n (by omega) upper
    have different : other ≠ id := by
      rintro rfl
      have number : n = r.seq := some.inj (seq.symm.trans ownSeq)
      omega
    exact ⟨other, (sameSeq other).trans seq, (congrArg record? (others other different)).trans record⟩
  · rw [sameSeq, sameSeq]
    exact going.distinct a b n
  · rw [length, ← next]
    exact going.seq_le ownSeq
  · by_cases same : other = id
    · rw [same]
      exact going.started id (by rw [created]; exact fun equal => by cases equal)
    · exact going.started other fun idle => busy ((others other same).trans idle)

/-- The next number belongs to the append before which all have written the hash. -/
theorem Going.eq_next {entry : Entry} {n : Nat} (numbered : s.appends id = .numbered entry n)
    (turn : ∀ other ∈ s.started, ∀ m ∈ (s.appends other).seq?, m < n → (s.appends other).record?.isSome = true) :
    n = L.length + 1 := by
  obtain ⟨above, upper⟩ := going.later id n (congrArg seq? numbered) (congrArg record? numbered)
  by_contra different
  obtain ⟨other, seq, record⟩ := going.covered (L.length + 1) (Nat.lt_succ_self _) (by omega)
  have busy : s.appends other ≠ .idle := by
    intro idle
    rw [idle] at seq
    cases seq
  have written := turn other (going.started other busy) _ seq (by omega)
  rw [record] at written
  cases written

/-- A record that all appends with a smaller number are done with is the first of the queue. -/
theorem Going.eq_head (record : (s.appends id).record? = some r)
    (turn : ∀ other ∈ s.started, ∀ m ∈ (s.appends other).seq?, ¬ m < r.seq) : ∃ rest, queue = r :: rest := by
  have inside : r ∈ queue := (going.queued r).mpr ⟨id, record⟩
  cases queue with
  | nil => cases inside
  | cons first rest =>
    obtain ⟨i, within, at'⟩ := getElem_of_mem inside
    obtain ⟨other, held⟩ := (going.queued first).mp mem_cons_self
    have position : ∀ j (below : j < (first :: rest).length), ((first :: rest)[j]).seq = (s.stored config).length + j + 1 := by
      intro j below
      have bound : (s.stored config).length + j < L.length := by
        rw [← going.all, length_append]
        omega
      have numbered := going.chained.seq_getElem bound
      simp only [← going.all] at numbered
      rw [getElem_append_right (Nat.le_add_right _ _)] at numbered
      simpa only [Nat.add_sub_cancel_left] using numbered
    have busy : s.appends other ≠ .idle := by
      intro idle
      rw [idle] at held
      cases held
    have least := turn other (going.started other busy) _ (seq?_of_record? held)
    have firstSeq : first.seq = (s.stored config).length + 0 + 1 := position 0 (Nat.zero_lt_succ _)
    have ownSeq := position i within
    rw [at'] at ownSeq
    have isFirst : i = 0 := by omega
    subst isFirst
    exact ⟨rest, by rw [← at']; rfl⟩


end
/-- The append whose turn it is stores its record. -/
theorem Going.store {rest : List (StoredAuditRecord Entry)} (going : Going format config s (r :: rest) L)
    (record : (s.appends id).record? = some r) (stored : t.stored config = s.stored config ++ [r]) (sequence : t.sequence = s.sequence)
    (lastHash : t.lastHash = s.lastHash) (begun : t.started = s.started) (appends : t.appends = update s.appends id phase)
    (noSeq : phase.seq? = none) : Going format config t rest L := by
  have noRecord : phase.record? = none := by
    cases held : phase.record? with
    | none => rfl
    | some r' => exact absurd ((seq?_of_record? held).symm.trans noSeq) (by simp)
  have others : ∀ other, other ≠ id → t.appends other = s.appends other := by
    intro other different
    rw [appends, update_of_ne different]
  have own : t.appends id = phase := by rw [appends, update_self]
  have back : ∀ other n, (t.appends other).seq? = some n → other ≠ id := by
    rintro other n seq rfl
    rw [own, noSeq] at seq
    cases seq
  refine ⟨?_, going.chained, lastHash.trans going.tip, fun r' => ?_, fun other r' isCreated => ?_, fun other n seq none => ?_,
    fun n above upper => ?_, fun a b n first second => ?_, sequence ▸ going.within, fun other busy => ?_⟩
  · rw [stored, ← going.all, append_assoc]
    rfl
  · constructor
    · intro inside
      obtain ⟨other, held⟩ := (going.queued r').mp (mem_cons_of_mem _ inside)
      have different : other ≠ id := by
        rintro rfl
        have same : r' = r := some.inj (held.symm.trans record)
        -- no record is queued twice
        have numbered := going.chained.numbered
        rw [← going.all, map_append] at numbered
        have once : ((r :: rest).map seq).Nodup :=
          (nodup_append.mp (numbered ▸ nodup_range')).2.1
        rw [map_cons, nodup_cons] at once
        exact once.1 (same ▸ mem_map_of_mem inside)
      exact ⟨other, by rw [others other different, held]⟩
    · rintro ⟨other, held⟩
      have different := back other r'.seq (seq?_of_record? held)
      rw [others other different] at held
      obtain rfl | inside := mem_cons.mp ((going.queued r').mpr ⟨other, held⟩)
      · exact absurd (going.distinct other id r'.seq (seq?_of_record? held) (seq?_of_record? record)) different
      · exact inside
  · have different : other ≠ id := back other r'.seq (congrArg seq? isCreated)
    rw [lastHash]
    exact going.created other r' ((others other different).symm.trans isCreated)
  · have different := back other n seq
    rw [others other different] at seq none
    rw [sequence]
    exact going.later other n seq none
  · rw [sequence] at upper
    obtain ⟨other, seq, none⟩ := going.covered n above upper
    have different : other ≠ id := by
      rintro rfl
      rw [record] at none
      cases none
    exact ⟨other, by rw [others other different, seq], by rw [others other different, none]⟩
  · rw [others a (back a n first)] at first
    rw [others b (back b n second)] at second
    exact going.distinct a b n first second
  · rw [begun]
    by_cases same : other = id
    · rw [same]
      refine going.started id fun idle => ?_
      rw [idle] at record
      cases record
    · exact going.started other fun idle => busy ((others other same).trans idle)

/-- A store that has just been opened on a chain. -/
theorem Going.fresh (stored : t.stored config = L) (chained : Chained format L) (sequence : t.sequence = L.length)
    (lastHash : t.lastHash = lastOf L) (idle : t.appends = fun _ => .idle) : Going format config t [] L where
  all := (append_nil _).trans stored
  chained := chained
  tip := lastHash
  queued r := by
    constructor
    · rintro ⟨⟩
    · rintro ⟨id, record⟩
      rw [idle] at record
      cases record
  created id r isCreated := by
    rw [idle] at isCreated
    cases isCreated
  later id n seq := by
    rw [idle] at seq
    cases seq
  covered n above upper := by
    rw [sequence] at upper
    omega
  distinct id id' n seq := by
    rw [idle] at seq
    cases seq
  within := sequence.symm.le
  started id busy := absurd (congrFun idle id) busy

/-! ## Steps -/

/-- The appends with smaller numbers have written their hashes when this one reads `last_hash`. -/
def ReadsInTurn (s : AuditState Entry) : Appending Entry → Prop
  | .numbered _ seq => ∀ other ∈ s.started, ∀ n ∈ (s.appends other).seq?, n < seq → (s.appends other).record?.isSome = true
  | _ => True

/-- The records with smaller numbers have been stored. -/
def StoresInTurn (s : AuditState Entry) (r : StoredAuditRecord Entry) : Prop :=
  ∀ other ∈ s.started, ∀ n ∈ (s.appends other).seq?, ¬ n < r.seq

/-- A line is written in its turn, and no file of a later name has lines. -/
def WritesInTurn (s : AuditState Entry) : Appending Entry → Prop
  | .opened r file => s.StoresInTurn r ∧ ∀ entry ∈ s.files, file < entry.1 → entry.2 = []
  | _ => True

def PushesInTurn (s : AuditState Entry) : Appending Entry → Prop
  | .hashed r => s.StoresInTurn r
  | _ => True

/-- Appends read and store in the order of their numbers, lines go to the last file that has any, and when a store is
opened the last file has lines, if there are any. -/
def Fit (config : AuditStoreConfig) (s : AuditState Entry) : AuditStep Entry → Prop
  | .readHash id _ => s.ReadsInTurn (s.appends id)
  | .writeLine id => s.WritesInTurn (s.appends id)
  | .push id => s.PushesInTurn (s.appends id)
  | .reopen _ => config.backend = .file → ∀ latest ∈ s.files.getLast?, latest.2 = [] → s.stored config = []
  | _ => True

instance StoresInTurn.decidable (s : AuditState Entry) (r : StoredAuditRecord Entry) : Decidable (s.StoresInTurn r) :=
  inferInstanceAs (Decidable (∀ other ∈ s.started, ∀ n ∈ (s.appends other).seq?, ¬ n < r.seq))

instance ReadsInTurn.decidable (s : AuditState Entry) : ∀ phase, Decidable (s.ReadsInTurn phase)
  | .numbered _ seq => inferInstanceAs (Decidable (∀ other ∈ s.started, ∀ n ∈ (s.appends other).seq?, n < seq →
      (s.appends other).record?.isSome = true))
  | .idle | .created _ | .hashed _ | .rotating _ | .rotated _ | .ready _ | .chosen _ _ | .opened _ _ | .written _ | .failed _ =>
    .isTrue trivial

instance WritesInTurn.decidable [DecidableEq Entry] (s : AuditState Entry) : ∀ phase, Decidable (s.WritesInTurn phase)
  | .opened r file => inferInstanceAs (Decidable (s.StoresInTurn r ∧ ∀ entry ∈ s.files, file < entry.1 → entry.2 = []))
  | .idle | .numbered _ _ | .created _ | .hashed _ | .rotating _ | .rotated _ | .ready _ | .chosen _ _ | .written _ | .failed _ =>
    .isTrue trivial

instance PushesInTurn.decidable (s : AuditState Entry) : ∀ phase, Decidable (s.PushesInTurn phase)
  | .hashed r => inferInstanceAs (Decidable (s.StoresInTurn r))
  | .idle | .numbered _ _ | .created _ | .rotating _ | .rotated _ | .ready _ | .chosen _ _ | .opened _ _ | .written _ | .failed _ =>
    .isTrue trivial

instance Fit.decidable [DecidableEq Entry] (config : AuditStoreConfig) (s : AuditState Entry) : ∀ a, Decidable (Fit config s a)
  | .readHash id _ => inferInstanceAs (Decidable (s.ReadsInTurn (s.appends id)))
  | .writeLine id => inferInstanceAs (Decidable (s.WritesInTurn (s.appends id)))
  | .push id => inferInstanceAs (Decidable (s.PushesInTurn (s.appends id)))
  | .reopen _ =>
    inferInstanceAs (Decidable (config.backend = .file → ∀ latest ∈ s.files.getLast?, latest.2 = [] → s.stored config = []))
  | .number _ _ | .writeHash _ | .checkSize _ | .rotateFile _ _ | .rotateSize _ | .chooseFile _ _ | .openFile _ | .addSize _ | .fail _ =>
    .isTrue trivial

structure Inv (format : AuditFormat Entry) (config : AuditStoreConfig) (s : AuditState Entry) : Prop where
  ascending : Ascending s.files
  stored : Chained format (s.stored config)
  going : s.isOpen = true → ∃ queue L, Going format config s queue L

theorem inv_initial : Inv format config (initial : AuditState Entry) where
  ascending := .nil
  stored := by
    unfold stored
    cases config.backend <;> exact .nil
  going := by
    intro opened
    cases opened

theorem verifyChain_valid (chained : Chained format (s.stored config)) :
    s.verifyChain format config = ⟨true, (s.stored config).length, none, none⟩ := by
  unfold verifyChain
  rw [verifyLoop_of_linked 0 chained.linked chained.verified, Nat.zero_add]

/-- The last record of the last file, if that has lines, is the last of all. -/
theorem loadFileState_eq {front : List (Nat × List (StoredAuditRecord Entry))} {latest : Nat × List (StoredAuditRecord Entry)}
    (chained : Chained format ((front ++ [latest]).flatMap Prod.snd))
    (lines : latest.2 = [] → (front ++ [latest]).flatMap Prod.snd = []) :
    loadFileState latest.2 = (((front ++ [latest]).flatMap Prod.snd).length, lastOf ((front ++ [latest]).flatMap Prod.snd)) := by
  unfold loadFileState
  cases last : latest.2.getLast? with
  | none =>
    rw [lines (getLast?_eq_none_iff.mp last)]
    rfl
  | some r =>
    obtain ⟨before, records⟩ := getLast?_eq_some_iff.mp last
    have all : (front ++ [latest]).flatMap Prod.snd = (front.flatMap Prod.snd ++ before) ++ [r] := by
      rw [flatMap_append, flatMap_singleton, records, append_assoc]
    rw [all] at chained ⊢
    have size : ((front.flatMap Prod.snd ++ before) ++ [r]).length = (front.flatMap Prod.snd ++ before).length + 1 := length_append
    have position : (front.flatMap Prod.snd ++ before).length < ((front.flatMap Prod.snd ++ before) ++ [r]).length := by omega
    have seq := chained.seq_getElem position
    rw [getElem_concat_length rfl position] at seq
    rw [size]
    unfold lastOf
    rw [tip_append, tip_singleton]
    exact Prod.ext seq rfl

variable (format) in
theorem initFileBackend_cases (t : AuditState Entry) (now : Nat) :
    (t.initFileBackend format now).files = t.files ∧ (t.initFileBackend format now).appends = t.appends ∧
      ((t.files = [] ∧ (t.initFileBackend format now).sequence = t.sequence ∧ (t.initFileBackend format now).lastHash = t.lastHash) ∨
        ∃ front latest, t.files = front ++ [latest] ∧ (t.initFileBackend format now).sequence = (loadFileState latest.2).1 ∧
          (t.initFileBackend format now).lastHash = (loadFileState latest.2).2) := by
  unfold initFileBackend
  cases last : t.files.getLast? with
  | none => exact ⟨rfl, rfl, .inl ⟨getLast?_eq_none_iff.mp last, rfl, rfl⟩⟩
  | some latest =>
    obtain ⟨front, files⟩ := getLast?_eq_some_iff.mp last
    exact ⟨rfl, rfl, .inr ⟨front, latest, files, rfl, rfl⟩⟩

theorem stored_file (backend : config.backend = .file) (t : AuditState Entry) : t.stored config = t.files.flatMap Prod.snd := by
  unfold stored
  rw [backend]

theorem Inv.load (inv : Inv format config s) (now : Nat) (fit : Fit config s (.reopen now)) :
    Inv format config (s.load format config now) := by
  have chained := inv.stored
  unfold AuditState.load
  cases backend : config.backend with
  | memory =>
    have nothing : s.fresh.stored config = [] := by
      unfold AuditState.stored
      rw [backend]
      rfl
    exact ⟨inv.ascending, nothing ▸ .nil, fun _ => ⟨[], [], .fresh nothing .nil rfl rfl rfl⟩⟩
  | file =>
    show Inv format config (s.fresh.initFileBackend format now)
    obtain ⟨files, appends, loaded⟩ := initFileBackend_cases format s.fresh now
    have stored : (s.fresh.initFileBackend format now).stored config = s.stored config := by
      rw [stored_file backend, stored_file backend, files]
      rfl
    have current : (s.fresh.initFileBackend format now).sequence = (s.stored config).length ∧
        (s.fresh.initFileBackend format now).lastHash = lastOf (s.stored config) := by
      obtain ⟨none, sequence, lastHash⟩ | ⟨front, latest, some, sequence, lastHash⟩ := loaded
      · have empty : s.stored config = [] := by
          rw [stored_file backend, show s.files = [] from none]
          rfl
        rw [sequence, lastHash, empty]
        exact ⟨rfl, rfl⟩
      · have listed : s.stored config = (front ++ [latest]).flatMap Prod.snd := by
          rw [stored_file backend, show s.files = front ++ [latest] from some]
        have state := loadFileState_eq (listed ▸ chained) fun empty => by
          rw [← listed]
          exact fit backend latest (by rw [show s.files = front ++ [latest] from some, getLast?_concat]; rfl) empty
        rw [sequence, lastHash, state, listed]
        exact ⟨rfl, rfl⟩
    exact ⟨by rw [files]; exact inv.ascending, stored ▸ chained,
      fun _ => ⟨[], s.stored config, .fresh stored chained current.1 current.2 appends⟩⟩

theorem Inv.reopen (inv : Inv format config s) (now : Nat) (fit : Fit config s (.reopen now)) :
    Inv format config (s.reopen format config now) := by
  have loaded := inv.load now fit
  unfold AuditState.reopen
  have valid : ¬ (config.verifyOnStartup ∧ ¬ ((s.load format config now).verifyChain format config).valid) := by
    rw [verifyChain_valid loaded.stored]
    exact fun broken => broken.2 rfl
  show Inv format config (if _ then _ else _)
  rw [if_neg valid]
  exact loaded

theorem Inv.of_going (ascending : Ascending t.files) (going : Going format config t queue L) : Inv format config t where
  ascending := ascending
  stored := (going.all.symm ▸ going.chained).of_append
  going _ := ⟨queue, L, going⟩

/-- The step neither moves a record nor touches the number and the hash. -/
theorem Inv.keep {old : Appending Entry} (ascending : Ascending t.files) (going : Going format config s queue L)
    (held : s.appends id = old) (stored : t.stored config = s.stored config) (sequence : t.sequence = s.sequence)
    (lastHash : t.lastHash = s.lastHash) (begun : t.started = s.started) (appends : t.appends = update s.appends id phase)
    (seq : phase.seq? = old.seq?) (record : phase.record? = old.record?) (busy : old ≠ .idle)
    (created : ∀ r, phase ≠ .created r) : Inv format config t := by
  subst held
  refine .of_going ascending (going.keep stored sequence lastHash begun appends seq record busy ?_)
  exact fun r isCreated => absurd isCreated (created r)

theorem stored_openFile (ascending : Ascending s.files) (file : Nat) :
    ({ s with files := insert file (s.contents file) s.files } : AuditState Entry).stored config = s.stored config := by
  unfold stored
  cases config.backend with
  | memory => rfl
  | file => exact ascending.flatMap_insert_self file

/-- The step of an open store, with the file backend or in memory. -/
theorem Inv.advance (inv : Inv format config s) (opened : s.isOpen = true) (a : AuditStep Entry) (fit : Fit config s a) :
    Inv format config (s.advance format config a) := by
  obtain ⟨queue, L, going⟩ := inv.going opened
  cases a with
  | number id entry =>
    simp only [AuditState.advance]
    cases held : s.appends id with
    | idle => exact .of_going inv.ascending (going.number held entry)
    | _ => exact inv
  | readHash id storedAt =>
    simp only [AuditState.advance]
    cases held : s.appends id with
    | numbered entry n =>
      have turn : s.ReadsInTurn (s.appends id) := fit
      rw [held] at turn
      have next := going.eq_next held turn
      refine .of_going inv.ascending (going.keep rfl rfl rfl rfl rfl (by rw [held]; rfl) (by rw [held]; rfl) (by rw [held]; simp) ?_)
      rintro r created
      cases created
      exact ⟨decide_eq_true rfl, next, rfl⟩
    | _ => exact inv
  | writeHash id =>
    simp only [AuditState.advance]
    cases held : s.appends id with
    | created r => exact .of_going inv.ascending (going.writeHash held)
    | _ => exact inv
  | checkSize id =>
    simp only [AuditState.advance]
    cases config.backend with
    | memory => exact inv
    | file =>
      cases held : s.appends id with
      | hashed r =>
        by_cases full : config.maxFileSize ≤ s.currentSize
        · simp only [if_pos full]
          exact .keep inv.ascending going held rfl rfl rfl rfl rfl rfl rfl (by simp) (by simp)
        · simp only [if_neg full]
          exact .keep inv.ascending going held rfl rfl rfl rfl rfl rfl rfl (by simp) (by simp)
      | _ => exact inv
  | rotateFile id now =>
    simp only [AuditState.advance]
    cases held : s.appends id with
    | rotating r =>
      exact .keep inv.ascending going held rfl rfl rfl rfl rfl rfl rfl (by simp) (by simp)
    | _ => exact inv
  | rotateSize id =>
    simp only [AuditState.advance]
    cases held : s.appends id with
    | rotated r =>
      exact .keep inv.ascending going held rfl rfl rfl rfl rfl rfl rfl (by simp) (by simp)
    | _ => exact inv
  | chooseFile id now =>
    simp only [AuditState.advance]
    cases held : s.appends id with
    | ready r =>
      exact .keep inv.ascending going held rfl rfl rfl rfl rfl rfl rfl (by simp) (by simp)
    | _ => exact inv
  | openFile id =>
    simp only [AuditState.advance]
    cases held : s.appends id with
    | chosen r file =>
      exact .keep (inv.ascending.insert file _) going held (stored_openFile inv.ascending file) rfl rfl rfl rfl rfl rfl
        (by simp) (by simp)
    | _ => exact inv
  | writeLine id =>
    simp only [AuditState.advance]
    cases backend : config.backend with
    | memory => exact inv
    | file =>
      cases held : s.appends id with
      | opened r file =>
        have turn : s.WritesInTurn (s.appends id) := fit
        rw [held] at turn
        have record : (s.appends id).record? = some r := by rw [held]; rfl
        obtain ⟨rest, rfl⟩ := going.eq_head record turn.1
        refine .of_going (inv.ascending.insert file _) (going.store record ?_ rfl rfl rfl rfl rfl)
        rw [stored_file backend, stored_file backend]
        exact inv.ascending.flatMap_insert_append turn.2 [r]
      | _ => exact inv
  | addSize id =>
    simp only [AuditState.advance]
    cases held : s.appends id with
    | written length =>
      exact .keep inv.ascending going held rfl rfl rfl rfl rfl rfl rfl (by simp) (by simp)
    | _ => exact inv
  | push id =>
    simp only [AuditState.advance]
    cases backend : config.backend with
    | file => exact inv
    | memory =>
      cases held : s.appends id with
      | hashed r =>
        have turn : s.PushesInTurn (s.appends id) := fit
        rw [held] at turn
        have record : (s.appends id).record? = some r := by rw [held]; rfl
        obtain ⟨rest, rfl⟩ := going.eq_head record turn
        refine .of_going inv.ascending (going.store record ?_ rfl rfl rfl rfl rfl)
        unfold AuditState.stored
        rw [backend]
        rfl
      | _ => exact inv
  | fail id =>
    simp only [AuditState.advance]
    cases held : s.appends id with
    | chosen r file =>
      exact .keep inv.ascending going held rfl rfl rfl rfl rfl rfl rfl (by simp) (by simp)
    | opened r file =>
      exact .keep inv.ascending going held rfl rfl rfl rfl rfl rfl rfl (by simp) (by simp)
    | written length =>
      exact .keep inv.ascending going held rfl rfl rfl rfl rfl rfl rfl (by simp) (by simp)
    | _ => exact inv
  | reopen now => exact inv

theorem Inv.step (inv : Inv format config s) (a : AuditStep Entry) (fit : Fit config s a) :
    Inv format config (s.step format config a) := by
  cases opened : s.isOpen with
  | false =>
    cases a with
    | reopen now => exact inv.reopen now fit
    | _ =>
      simp only [AuditState.step, opened]
      exact inv
  | true =>
    cases a with
    | reopen now => exact inv.reopen now fit
    | _ =>
      simp only [AuditState.step, if_pos opened]
      exact inv.advance opened _ fit

/-- **The audit chain is valid** wherever a run is cut whose steps are taken in turn. -/
theorem audit_chain_valid (format : AuditFormat Entry) (config : AuditStoreConfig) (as : List (AuditStep Entry))
    (fit : Meets (step format config) (Fit config) initial as) :
    ((run (step format config) initial as).verifyChain format config).valid = true ∧
      ((run (step format config) initial as).stored config).map seq =
        range' 1 ((run (step format config) initial as).stored config).length := by
  have inv : Inv format config (run (step format config) initial as) :=
    fit.invariant (fun _ a inv fit => inv.step a fit) inv_initial
  constructor
  · rw [verifyChain_valid inv.stored]
  · exact inv.stored.numbered

/-! ## Requests that differ in their id -/

/-- The SHA-256 of three entries, in a chain, and of the second one with no hash before it. -/
def requestFormat : AuditFormat Nat where
  computeHash seq entry prevHash :=
    if (seq, entry, prevHash) = (1, 1, "") then "8381c3b9863271ce12a22ed93e5a3fbf306849be72c91943808345e7aba845bc"
    else if (seq, entry) = (2, 2) then
      if prevHash = "" then "9823d5bf7a184ec1b648e483bff1858ede9dd7c654b7ac9538d8a3ee1990985f"
      else "98a7cbbaab4f82c2fc94a236ffffb64174030c877a2f012c0e8d74891ccfd791"
    else "1fc243626314c38a6bdf7a21cf401d30e0b182d10c25ce3e6efff5a964644c87"
  lineLength r := if r.prevHash = "" then 423 else 487

def smallFiles : AuditStoreConfig := ⟨.file, 400, true⟩

/-- The second append begins in the midst of the first one and rotates; the third follows after a restart. -/
def threeAppends : List (AuditStep Nat) :=
  [.reopen 100, .number 1 1, .readHash 1 5, .number 2 2, .writeHash 1, .readHash 2 6, .writeHash 2, .checkSize 1, .chooseFile 1 101,
    .openFile 1, .writeLine 1, .addSize 1, .checkSize 2, .rotateFile 2 102, .rotateSize 2, .chooseFile 2 102, .openFile 2,
    .writeLine 2, .addSize 2, .reopen 103, .number 1 3, .readHash 1 7, .writeHash 1, .checkSize 1, .rotateFile 1 104, .rotateSize 1,
    .chooseFile 1 104, .openFile 1, .writeLine 1]

theorem audit_chain_after_restart : ((run (step requestFormat smallFiles) initial threeAppends).stored smallFiles).length = 3 ∧
    ((run (step requestFormat smallFiles) initial threeAppends).verifyChain requestFormat smallFiles).valid = true ∧
      ((run (step requestFormat smallFiles) initial threeAppends).stored smallFiles).map seq =
        range' 1 ((run (step requestFormat smallFiles) initial threeAppends).stored smallFiles).length :=
  ⟨by decide, audit_chain_valid requestFormat smallFiles threeAppends (by decide)⟩

/-- Two appends that read `last_hash` before either of them has written it. -/
def readTogether : List (AuditStep Nat) :=
  [.reopen 100, .number 1 1, .number 2 2, .readHash 1 5, .readHash 2 5, .writeHash 1, .push 1, .writeHash 2, .push 2]

theorem audit_chain_broken : ¬ ∀ (format : AuditFormat Nat) (config : AuditStoreConfig) (as : List (AuditStep Nat)),
    ((run (step format config) initial as).verifyChain format config).valid = true ∧
      ((run (step format config) initial as).stored config).map seq =
        range' 1 ((run (step format config) initial as).stored config).length := by
  intro valid
  have broken : ((run (step requestFormat ⟨.memory, 400, true⟩) initial readTogether).verifyChain requestFormat
      ⟨.memory, 400, true⟩).valid = false := by decide
  have good := (valid requestFormat ⟨.memory, 400, true⟩ readTogether).1
  rw [broken] at good
  cases good

end AuditState

end StreamHouse.Api
