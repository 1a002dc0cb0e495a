import StreamHouse.Client.Consumer
import StreamHouse.Lib.Cursor
import StreamHouse.Lib.Run

/-!
# Where a consumer is and where the next one starts

What a consumer has returned of a partition since its last seek is what was stored from there up to its
position. The offset that the store has for the group follows the position only when a commit finds that past
the last-committed mark, and records that a poll has collected are behind the position also when the poll
fails in its own commit.
-/

namespace StreamHouse.Client

open Metadata Storage Lib List Function ConsumerState ConsumedRecord Metadata.Catalog
open Connectors (Follows offsetAbove lt_offsetAbove)

/-! ## The offsets of a group -/

/-- A sort keeps the first of a kind, when a kind is in order in any order. -/
theorem find?_insertionSort {α : Type*} {r : α → α → Prop} [DecidableRel r] {p : α → Bool} {l : List α}
    (alike : ∀ a b, p a = true → p b = true → r a b) : (l.insertionSort r).find? p = l.find? p := by
  have insert : ∀ (a : α) (l : List α), (l.orderedInsert r a).find? p = (a :: l).find? p := by
    intro a l
    induction l with
    | nil => rfl
    | cons b l ih =>
      rw [orderedInsert]
      split_ifs with ordered
      · rfl
      · cases isA : p a with
        | false => rw [find?_cons, ih, find?_cons_of_neg (by simp [isA]), find?_cons_of_neg (by simp [isA]), find?_cons]
        | true =>
          have isB : p b = false := by
            cases isB : p b with
            | false => rfl
            | true => exact absurd (alike a b isA isB) ordered
          rw [find?_cons_of_neg (by simp [isB]), ih, find?_cons_of_pos isA, find?_cons_of_pos isA]
  induction l with
  | nil => rfl
  | cons a l ih => rw [insertionSort_cons, insert, find?_cons, ih, find?_cons]

theorem storedOffset_eq (m : Metadata.Catalog) (groupId : String) (key : TopicPartition) :
    storedOffset m groupId key =
      (m.consumerOffsets.find? fun r => r.key = (groupId, key.topic, key.partitionId)).map OffsetRow.committedOffset := by
  unfold storedOffset getConsumerOffsets
  rw [find?_map, find?_insertionSort, find?_filter, Option.map_map]
  · have same : ∀ r : OffsetRow, (r.groupId = groupId ∧ r.topic = key.topic ∧ r.partitionId = key.partitionId) ↔
        r.key = (groupId, key.topic, key.partitionId) := fun r => by simp only [OffsetRow.key, Prod.mk.injEq]
    show Option.map OffsetRow.committedOffset _ = _
    congr 2
    funext r
    refine decide_eq_decide.mpr ?_
    rw [← same]
    exact and_congr decide_eq_true_iff decide_eq_true_iff
  · intro a b isA isB
    obtain ⟨topicA, partitionA⟩ := of_decide_eq_true isA
    obtain ⟨topicB, partitionB⟩ := of_decide_eq_true isB
    exact .inr ⟨topicA.trans topicB.symm, (partitionA.trans partitionB.symm).le⟩

/-- What a `commit_offset` does to the store, for those who read offsets and watermarks. -/
structure Commits (groupId : String) (key : TopicPartition) (offset : Nat) (m m' : Metadata.Catalog) : Prop where
  organizations : m'.organizations = m.organizations
  segments : m'.segments = m.segments
  own : storedOffset m' groupId key = some offset
  others : ∀ other, other ≠ key → storedOffset m' groupId other = storedOffset m groupId other

variable {m : Metadata.Catalog} {groupId : String} {all : List ConsumedRecord} {reset : OffsetReset}

theorem commits_of_commitOffset {m' : Metadata.Catalog} {key : TopicPartition} {offset : Nat} {metadata : Option String}
    (done : m.commitOffset groupId key.topic key.partitionId offset metadata = some m') : Commits groupId key offset m m' := by
  have apart : ∀ other, other ≠ key → (groupId, other.topic, other.partitionId) ≠ (groupId, key.topic, key.partitionId) := by
    intro other different same
    cases other
    cases key
    cases same
    exact different rfl
  unfold commitOffset at done
  dsimp only at done
  split_ifs at done with org there
  · cases done
    -- the row that is there gets the offset
    have find : ∀ wanted : String × String × Nat, ((m.consumerOffsets.map fun r => if r.key = (groupId, key.topic, key.partitionId) then
        { r with committedOffset := offset, metadata } else r).find? fun r => r.key = wanted) =
        (m.consumerOffsets.find? fun r => r.key = wanted).map fun r => if r.key = (groupId, key.topic, key.partitionId) then
          { r with committedOffset := offset, metadata } else r := by
      intro wanted
      rw [find?_map]
      congr 2
      funext r
      show decide (OffsetRow.key (if r.key = _ then _ else r) = wanted) = _
      split_ifs <;> rfl
    refine ⟨rfl, rfl, ?_, fun other different => ?_⟩
    · rw [storedOffset_eq]
      show ((List.map _ m.consumerOffsets).find? _).map _ = _
      rw [find]
      cases found : m.consumerOffsets.find? fun r => r.key = (groupId, key.topic, key.partitionId) with
      | none =>
        obtain ⟨r, inside, is⟩ := any_eq_true.mp there
        have absent := find?_eq_none.mp found r inside
        exact absurd is absent
      | some r =>
        have is := find?_some found
        rw [Option.map_some, if_pos (of_decide_eq_true is)]
        rfl
    · rw [storedOffset_eq, storedOffset_eq]
      show ((List.map _ m.consumerOffsets).find? _).map _ = _
      rw [find]
      cases found : m.consumerOffsets.find? fun r => r.key = (groupId, other.topic, other.partitionId) with
      | none => rfl
      | some r =>
        have is := find?_some found
        have is := of_decide_eq_true is
        rw [Option.map_some, if_neg (is ▸ apart other different)]
  · cases done
    refine ⟨rfl, rfl, ?_, fun other different => ?_⟩
    · rw [storedOffset_eq]
      show ((m.consumerOffsets ++ _).find? _).map _ = _
      have absent : (m.consumerOffsets.find? fun r => r.key = (groupId, key.topic, key.partitionId)) = none := by
        refine find?_eq_none.mpr fun r inside is => there ?_
        exact any_eq_true.mpr ⟨r, inside, is⟩
      rw [find?_append, absent]
      simp [OffsetRow.key]
    · rw [storedOffset_eq, storedOffset_eq]
      show ((m.consumerOffsets ++ _).find? _).map _ = _
      rw [find?_append]
      have other_row : ([⟨defaultOrganizationId, groupId, key.topic, key.partitionId, offset, metadata⟩] : List OffsetRow).find?
          (fun r => decide (r.key = (groupId, other.topic, other.partitionId))) = none := by
        refine find?_eq_none.mpr fun r inside is => ?_
        rw [mem_singleton.mp inside] at is
        exact apart other different (of_decide_eq_true is).symm
      rw [other_row, Option.or_none]

theorem commitOffset_isSome_iff {topic : String} {partitionId offset : Nat} {metadata : Option String} :
    (∃ m', m.commitOffset groupId topic partitionId offset metadata = some m') ↔ m.HasOrganization defaultOrganizationId := by
  unfold commitOffset
  dsimp only
  split_ifs with org there
  · exact iff_of_true ⟨_, rfl⟩ org
  · exact iff_of_true ⟨_, rfl⟩ org
  · exact iff_of_false (by rintro ⟨m', ⟨⟩⟩) org

/-! ## What is returned -/

/-- The record of the partition, whose value may have given its schema id away. -/
structure Shows (key : TopicPartition) (c : ConsumedRecord) (r : Record) : Prop where
  place : c.at = key
  offset : c.offset = r.offset
  timestamp : c.timestamp = r.timestamp
  key_ : c.key = r.key
  value : c.value = r.value ∨ ∃ schemaId, extractSchemaId r.value = some (schemaId, c.value) ∧ c.schemaId = some schemaId

theorem shows_consumed (key : TopicPartition) (r : Record) : Shows key (consumed key r) r :=
  ⟨rfl, rfl, rfl, rfl, .inl rfl⟩

theorem ConsumedRecord.resolve_cases (getSchema : Int → Option String) (c : ConsumedRecord) :
    c.resolve getSchema = c ∨ ∃ schemaId payload schema, extractSchemaId c.value = some (schemaId, payload) ∧
      c.resolve getSchema = { c with schemaId := some schemaId, schema := some schema, value := payload } := by
  unfold resolve
  cases extracted : extractSchemaId c.value with
  | none => exact .inl rfl
  | some found =>
    obtain ⟨schemaId, payload⟩ := found
    dsimp only
    cases getSchema schemaId with
    | none => exact .inl rfl
    | some schema => exact .inr ⟨schemaId, payload, schema, rfl, rfl⟩

theorem ConsumedRecord.at_resolve (getSchema : Int → Option String) (c : ConsumedRecord) : (c.resolve getSchema).at = c.at := by
  obtain same | ⟨schemaId, payload, schema, -, same⟩ := c.resolve_cases getSchema <;> rw [same]
  rfl

theorem shows_resolve (getSchema : Int → Option String) (key : TopicPartition) (r : Record) :
    Shows key ((consumed key r).resolve getSchema) r := by
  obtain same | ⟨schemaId, payload, schema, extracted, same⟩ := (consumed key r).resolve_cases getSchema <;> rw [same]
  · exact shows_consumed key r
  · exact ⟨rfl, rfl, rfl, rfl, .inr ⟨schemaId, extracted, rfl⟩⟩

namespace ConsumerState

variable {config : ConsumerConfig} {s t : ConsumerState} {key : TopicPartition}

/-- What has been returned of a partition is what it has had from the last seek up to the position. -/
def Delivers (s : ConsumerState) (key : TopicPartition) : Prop :=
  ∃ records, Forall₂ (Shows key) (s.history.returned key) records ∧
    Taken Record.offset (s.log key).records (s.history.soughtTo key) (s.position key) records ∧ ∀ r ∈ records, r ∈ s.history.stored key

theorem readPartition_of_read {c : ConsumerPoll} {result : ReadResult}
    (read : ((s.log key).view (c.reader key)).read (s.position key) config.maxPollRecords = .ok result) :
    s.readPartition config c key = .ok ((result.records.filter (visible config c key)).map (consumed key)) := by
  unfold readPartition
  rw [read]

theorem readPartition_ok {c : ConsumerPoll} (read : s.readPartition config c key = .ok all) :
    ∃ records, all = records.map (consumed key) ∧ records <+: (s.log key).records.filter fun r => decide (s.position key ≤ r.offset) := by
  unfold readPartition at read
  cases answer : ((s.log key).view (c.reader key)).read (s.position key) config.maxPollRecords with
  | ok result =>
    rw [answer] at read
    refine ⟨_, (Except.ok.inj read).symm, ?_⟩
    have whole := StoredLog.read_prefix answer
    refine IsPrefix.trans ?_ whole
    have ascending : result.records.Pairwise fun a b => a.offset < b.offset :=
      ((s.log key).ascending.filter _).sublist whole.sublist
    unfold visible
    cases config.isolationLevel with
    | readUncommitted => simp only [filter_true, prefix_rfl]
    | readCommitted =>
      cases c.lastStableOffset key with
      | ok lastStable => exact filter_below_prefix Record.offset ascending lastStable
      | error e => simp only [filter_true, prefix_rfl]
  | error e =>
    rw [answer] at read
    refine ⟨[], ?_, nil_prefix⟩
    cases e with
    | offsetNotFound offset => exact (Except.ok.inj read).symm
    | _ =>
      dsimp only at read
      split_ifs at read
      · exact (Except.ok.inj read).symm

/-- What a poll has of a partition is the beginning of what is stored there from the position on. -/
theorem collect_ok {c : ConsumerPoll} {keys : List TopicPartition} (nodup : keys.Nodup) (collected : s.collect config c keys = .ok all) (key : TopicPartition) :
    ∃ records, (all.filter fun r => decide (r.at = key)) = records.map (consumed key) ∧
      (records <+: (s.log key).records.filter fun r => decide (s.position key ≤ r.offset)) ∧ (key ∉ keys → records = []) := by
  induction keys generalizing all with
  | nil =>
    cases collected
    exact ⟨[], rfl, nil_prefix, fun _ => rfl⟩
  | cons first rest ih =>
    obtain ⟨apart, nodup⟩ := nodup_cons.mp nodup
    unfold collect at collected
    split_ifs at collected
    · cases collected
      exact ⟨[], rfl, nil_prefix, fun _ => rfl⟩
    · cases read : s.readPartition config c first with
      | error e =>
        rw [read] at collected
        cases collected
      | ok records =>
        rw [read] at collected
        cases later : s.collect config c rest with
        | error e =>
          rw [later] at collected
          cases collected
        | ok more =>
          rw [later] at collected
          cases collected
          obtain ⟨others, shown, prefix_, none⟩ := ih nodup later
          obtain ⟨own, rfl, ownPrefix⟩ := readPartition_ok read
          rw [filter_append, shown]
          by_cases here : key = first
          · subst here
            refine ⟨own, ?_, ownPrefix, fun absent => absurd mem_cons_self absent⟩
            rw [none apart, filter_eq_self.mpr, map_nil, append_nil]
            intro r inside
            obtain ⟨r', -, rfl⟩ := mem_map.mp inside
            exact decide_eq_true rfl
          · refine ⟨others, ?_, prefix_, fun absent => none fun inside => absent (mem_cons_of_mem _ inside)⟩
            rw [filter_eq_nil_iff.mpr, nil_append]
            intro r inside
            obtain ⟨r', -, rfl⟩ := mem_map.mp inside
            have different : ¬ first = key := fun same => here same.symm
            exact fun is => different (of_decide_eq_true is)

theorem allRecords_ok {c : ConsumerPoll} (nodup : s.keys.Nodup) (given : s.allRecords config c = .ok all)
    (key : TopicPartition) : ∃ records, Forall₂ (Shows key) (all.filter fun r => decide (r.at = key)) records ∧
      (records <+: (s.log key).records.filter fun r => decide (s.position key ≤ r.offset)) ∧ (key ∉ s.keys → records = []) := by
  unfold allRecords at given
  cases collected : s.collect config c s.keys with
  | error e =>
    rw [collected] at given
    cases given
  | ok base =>
    rw [collected] at given
    have given : (if config.schemaRegistry = true then base.map (resolve c.getSchema) else base) = all := Except.ok.inj given
    obtain ⟨records, shown, prefix_, none⟩ := collect_ok nodup collected key
    refine ⟨records, ?_, prefix_, none⟩
    rw [← given]
    split_ifs with registry
    · have same : (fun r : ConsumedRecord => decide (r.at = key)) ∘ resolve c.getSchema = fun r => decide (r.at = key) := by
        funext r
        rw [comp_apply, at_resolve]
      rw [filter_map, same, shown, map_map, forall₂_map_left_iff]
      exact forall₂_same.mpr fun r _ => shows_resolve c.getSchema key r
    · rw [shown, forall₂_map_left_iff]
      exact forall₂_same.mpr fun r _ => shows_consumed key r

theorem position_advance (s : ConsumerState) (records : List ConsumedRecord) (key : TopicPartition) :
    (s.advance records).position key =
      ((records.filter fun r => decide (r.at = key)).getLast?.map fun r => r.offset + 1).getD (s.position key) :=
  foldl_update_apply ConsumedRecord.at (fun r (reader : PartitionConsumer) => { reader with currentOffset := r.offset + 1 }) PartitionConsumer.currentOffset
    (fun r => r.offset + 1) (fun _ _ => rfl) records s.readers key

theorem getLast?_of_shows {shown : List ConsumedRecord} {records : List Record} (shows_ : Forall₂ (Shows key) shown records) :
    (shown.getLast?.map fun c => c.offset + 1) = records.getLast?.map fun r => r.offset + 1 := by
  have offsets : shown.map offset = records.map Record.offset := by
    induction shows_ with
    | nil => rfl
    | cons one _ ih => rw [map_cons, map_cons, one.offset, ih]
  have last := congrArg (fun offsets => offsets.getLast?.map (· + 1)) offsets
  simpa only [getLast?_map, Option.map_map, comp_def] using last

/-! ## Commits -/

/-- Every row that a commit writes can be written. -/
def CommitSucceeds (config : ConsumerConfig) (s : ConsumerState) (c : CommitConditions) : Prop :=
  config.groupId ≠ none ∧ ∀ key ∈ s.keys, (s.readers key).lastCommittedOffset < s.position key →
    c.commitOffset key = none ∧ s.store.HasOrganization defaultOrganizationId

/-- The store has the offset for the group, or has none and the policy gives it. -/
def StoreStarts (config : ConsumerConfig) (reset : OffsetReset) (m : Metadata.Catalog) (key : TopicPartition) (offset : Nat) : Prop :=
  match config.groupId.bind fun groupId => storedOffset m groupId key with
  | some stored => stored = offset
  | none =>
    match reset with
    | .earliest => offset = 0
    | .latest => m.segments.highWatermark ⟨config.orgId, key.topic, key.partitionId⟩ = some offset
    | .none => False

/-- Each position has passed the last-committed mark, or the store has it already. -/
def PositionsFit (config : ConsumerConfig) (reset : OffsetReset) (s : ConsumerState) : Prop :=
  ∀ key ∈ s.keys, (s.readers key).lastCommittedOffset < s.position key ∨ StoreStarts config reset s.store key (s.position key)

/-- A commit that succeeds leaves no position behind that a new consumer with the policy would not start from, and
a poll whose own commit fails has collected nothing. -/
def PositionsKept (config : ConsumerConfig) (reset : OffsetReset) (s : ConsumerState) : ConsumerStep → Prop
  | .poll c => ∀ records, s.allRecords config c = .ok records → (s.advance records).CommitDue config c.now →
      ((s.advance records).CommitSucceeds config c.commit → (s.advance records).PositionsFit config reset) ∧
      (¬ (s.advance records).CommitSucceeds config c.commit → records = [])
  | .commit c => s.CommitSucceeds config c → s.PositionsFit config reset
  | _ => True

/-- What the rows of a commit come to. -/
structure RowsWritten (s : ConsumerState) (groupId : String) (keys : List TopicPartition) (m m' : Metadata.Catalog) : Prop where
  organizations : m'.organizations = m.organizations
  segments : m'.segments = m.segments
  written : ∀ key ∈ keys, (s.readers key).lastCommittedOffset < s.position key → storedOffset m' groupId key = some (s.position key)
  kept : ∀ key, (key ∈ keys → ¬ (s.readers key).lastCommittedOffset < s.position key) →
    storedOffset m' groupId key = storedOffset m groupId key

theorem commitRows_ok {c : CommitConditions} {keys : List TopicPartition} {m' : Metadata.Catalog}
    (done : s.commitRows c groupId keys m = (m', .ok ())) : RowsWritten s groupId keys m m' := by
  induction keys generalizing m with
  | nil =>
    cases done
    exact ⟨rfl, rfl, (by rintro _ ⟨⟩), fun _ _ => rfl⟩
  | cons first rest ih =>
    unfold commitRows at done
    split_ifs at done with passed
    · cases refused : c.commitOffset first with
      | some e =>
        rw [refused] at done
        cases done
      | none =>
        rw [refused] at done
        cases row : m.commitOffset groupId first.topic first.partitionId (s.position first) none with
        | none =>
          rw [row] at done
          cases done
        | some middle =>
          rw [row] at done
          have one := commits_of_commitOffset row
          have later := ih done
          refine ⟨later.organizations.trans one.organizations, later.segments.trans one.segments, fun key inside moved => ?_,
            fun key still => ?_⟩
          · by_cases again : key ∈ rest
            · exact later.written key again moved
            · obtain rfl : key = first := (mem_cons.mp inside).resolve_right again
              rw [later.kept key fun inside => absurd inside again]
              exact one.own
          · rw [later.kept key fun inside => still (mem_cons_of_mem _ inside)]
            exact one.others key fun same => still (same ▸ mem_cons_self) (same ▸ passed)
    · have later := ih done
      refine ⟨later.organizations, later.segments, fun key inside moved => ?_,
        fun key still => later.kept key fun inside => still (mem_cons_of_mem _ inside)⟩
      obtain rfl | others := mem_cons.mp inside
      · exact absurd moved passed
      · exact later.written key others moved

theorem commitRows_ok_iff {c : CommitConditions} {keys : List TopicPartition} :
    (∃ m', s.commitRows c groupId keys m = (m', .ok ())) ↔
      ∀ key ∈ keys, (s.readers key).lastCommittedOffset < s.position key →
        c.commitOffset key = none ∧ m.HasOrganization defaultOrganizationId := by
  induction keys generalizing m with
  | nil => exact iff_of_true ⟨m, rfl⟩ (by rintro _ ⟨⟩)
  | cons first rest ih =>
    rw [forall_mem_cons]
    unfold commitRows
    by_cases passed : (s.readers first).lastCommittedOffset < s.position first
    · rw [if_pos passed]
      cases refused : c.commitOffset first with
      | some e => exact iff_of_false (by rintro ⟨m', ⟨⟩⟩) fun both => by cases (both.1 passed).1
      | none =>
        cases row : m.commitOffset groupId first.topic first.partitionId (s.position first) none with
        | none =>
          refine iff_of_false (by rintro ⟨m', ⟨⟩⟩) fun both => ?_
          obtain ⟨middle, done⟩ := commitOffset_isSome_iff.mpr (both.1 passed).2
          rw [row] at done
          cases done
        | some middle =>
          have org : m.HasOrganization defaultOrganizationId := commitOffset_isSome_iff.mp ⟨middle, row⟩
          have same : middle.HasOrganization defaultOrganizationId := by
            unfold HasOrganization
            rw [(commits_of_commitOffset row).organizations]
            exact org
          dsimp only
          rw [ih]
          simp only [org, same, and_true, true_and, implies_true]
    · rw [if_neg passed, ih]
      simp only [passed, false_implies, true_and]

theorem commit_cases (config : ConsumerConfig) (s : ConsumerState) (c : CommitConditions) :
    (s.CommitSucceeds config c ∧ ∃ groupId m, config.groupId = some groupId ∧ RowsWritten s groupId s.keys s.store m ∧
      s.commit config c = (s.marked m, .ok ())) ∨
    (¬ s.CommitSucceeds config c ∧ ∃ m e, s.commit config c = ({ s with store := m }, .error e)) := by
  unfold commit CommitSucceeds
  cases config.groupId with
  | none => exact .inr ⟨fun both => both.1 rfl, s.store, _, rfl⟩
  | some groupId =>
    dsimp only
    cases rows : s.commitRows c groupId s.keys s.store with
    | mk m result =>
      cases result with
      | ok u => exact .inl ⟨⟨by simp, commitRows_ok_iff.mp ⟨m, rows⟩⟩, groupId, m, rfl, commitRows_ok rows, rfl⟩
      | error e =>
        refine .inr ⟨fun both => ?_, m, e, rfl⟩
        obtain ⟨m', done⟩ := commitRows_ok_iff.mpr both.2
        rw [rows] at done
        cases done

/-- **A commit that succeeds and fits** leaves a store from which the group goes on at the positions. -/
theorem RowsWritten.starts (group : config.groupId = some groupId)
    (rows : RowsWritten s groupId s.keys s.store m) (fit : s.PositionsFit config reset) (inside : key ∈ s.keys) :
    StoreStarts config reset m key (s.position key) := by
  unfold StoreStarts
  rw [group, Option.bind_some]
  by_cases moved : (s.readers key).lastCommittedOffset < s.position key
  · rw [rows.written key inside moved]
  · have stated := (fit key inside).resolve_left moved
    unfold StoreStarts at stated
    rw [group, Option.bind_some] at stated
    rw [rows.kept key fun _ => moved, rows.segments]
    exact stated

theorem determineStartOffset_of_starts {config' : ConsumerConfig} {offset : Nat} (org : config'.orgId = config.orgId)
    (group : config'.groupId = config.groupId) (stated : StoreStarts config config'.offsetReset m key offset) :
    determineStartOffset config' m key = .ok offset := by
  unfold determineStartOffset
  unfold StoreStarts at stated
  rw [group]
  cases stored : config.groupId.bind fun groupId => storedOffset m groupId key with
  | some found =>
    rw [stored] at stated
    exact congrArg Except.ok stated
  | none =>
    rw [stored] at stated
    cases policy : config'.offsetReset with
    | earliest =>
      rw [policy] at stated
      exact congrArg Except.ok stated.symm
    | latest =>
      rw [policy] at stated
      dsimp only at stated ⊢
      unfold getPartition
      rw [org, stated]
      rfl
    | none =>
      rw [policy] at stated
      exact stated.elim

/-! ## Runs -/

structure Placed (config : ConsumerConfig) (reset : OffsetReset) (s : ConsumerState) : Prop where
  nodup : s.keys.Nodup
  delivers : ∀ key, s.Delivers key
  stored : ∀ key, ∀ r ∈ (s.log key).records, r ∈ s.history.stored key
  below : ∀ key, ∀ r ∈ s.history.stored key, r.offset < s.next key
  commits : ∀ done ∈ s.history.commits, ∀ key ∈ s.keys, StoreStarts config reset done.store key (done.positions key)

/-- The step has done nothing to a partition, apart from its marks. -/
theorem Delivers.same (delivers : s.Delivers key) (returned : t.history.returned key = s.history.returned key)
    (log : t.log key = s.log key) (soughtTo : t.history.soughtTo key = s.history.soughtTo key) (position : t.position key = s.position key)
    (stored : t.history.stored key = s.history.stored key) : t.Delivers key := by
  unfold Delivers
  rw [returned, log, soughtTo, position, stored]
  exact delivers

/-- The records of a poll are returned and the position is behind them. -/
theorem Placed.returns (placed : Placed config reset s) {c : ConsumerPoll} (given : s.allRecords config c = .ok all) (log : t.log = s.log) (soughtTo : t.history.soughtTo = s.history.soughtTo)
    (stored : t.history.stored = s.history.stored) (position : ∀ key, t.position key = (s.advance all).position key)
    (returned : ∀ key, t.history.returned key = s.history.returned key ++ all.filter fun r => decide (r.at = key)) (key : TopicPartition) :
    t.Delivers key := by
  obtain ⟨before, shown, taken, had⟩ := placed.delivers key
  obtain ⟨more, shown', first, -⟩ := allRecords_ok placed.nodup given key
  refine ⟨before ++ more, ?_, ?_, fun r inside => ?_⟩
  · rw [returned]
    exact rel_append shown shown'
  · rw [log, soughtTo, position, position_advance, getLast?_of_shows shown']
    exact taken.onward (s.log key).ascending first
  · rw [stored]
    obtain old | new := mem_append.mp inside
    · exact had r old
    · exact placed.stored key r (mem_filter.mp (first.subset new)).1

theorem Placed.commit (placed : Placed config reset s) (c : CommitConditions)
    (fit : s.CommitSucceeds config c → s.PositionsFit config reset) : Placed config reset (s.commit config c).1 := by
  obtain ⟨succeeds, groupId, m, group, rows, done⟩ | ⟨-, m, e, done⟩ := commit_cases config s c
  · rw [done]
    refine ⟨placed.nodup, fun key => (placed.delivers key).same rfl rfl rfl rfl rfl, placed.stored, placed.below,
      fun d inside key subscribed => ?_⟩
    obtain old | new := mem_append.mp inside
    · exact placed.commits d old key subscribed
    · rw [mem_singleton.mp new]
      exact rows.starts group (fit succeeds) subscribed
  · rw [done]
    exact ⟨placed.nodup, fun key => (placed.delivers key).same rfl rfl rfl rfl rfl, placed.stored, placed.below, placed.commits⟩

theorem Placed.poll (placed : Placed config reset s) (c : ConsumerPoll)
    (fit : s.PositionsKept config reset (.poll c)) : Placed config reset (s.poll config c).1 := by
  unfold ConsumerState.poll
  cases given : s.allRecords config c with
  | error e => exact placed
  | ok all =>
    have fit := fit all given
    dsimp only
    split_ifs with due
    · obtain ⟨fits, nothing⟩ := fit due
      obtain ⟨succeeds, groupId, m, group, rows, done⟩ | ⟨fails, m, e, done⟩ := commit_cases config (s.advance all) c.commit
      · rw [done]
        refine ⟨placed.nodup, placed.returns given rfl rfl rfl (fun _ => rfl) fun _ => rfl, placed.stored, placed.below,
          fun d inside key subscribed => ?_⟩
        obtain old | new := mem_append.mp inside
        · exact placed.commits d old key subscribed
        · rw [mem_singleton.mp new]
          exact rows.starts group (fits succeeds) subscribed
      · rw [done]
        have none := nothing fails
        subst none
        exact ⟨placed.nodup, fun key => (placed.delivers key).same rfl rfl rfl rfl rfl, placed.stored, placed.below, placed.commits⟩
    · exact ⟨placed.nodup, placed.returns given rfl rfl rfl (fun _ => rfl) fun _ => rfl, placed.stored, placed.below, placed.commits⟩

theorem Placed.seek (placed : Placed config reset s) (key : TopicPartition) (offset : Nat) :
    Placed config reset (s.seek key offset).1 := by
  unfold ConsumerState.seek
  split_ifs with subscribed
  · refine ⟨placed.nodup, fun other => ?_, placed.stored, placed.below, placed.commits⟩
    by_cases here : other = key
    · subst here
      refine ⟨[], ?_, ?_, (by rintro _ ⟨⟩)⟩
      · show Forall₂ _ (update s.history.returned other [] other) []
        rw [update_self]
        exact .nil
      · show Taken _ _ (update s.history.soughtTo other offset other)
          (update s.readers other { s.readers other with currentOffset := offset } other).currentOffset []
        rw [update_self, update_self]
        exact .nil Record.offset _ offset
    · refine (placed.delivers other).same (update_of_ne here _ _) rfl (update_of_ne here _ _) ?_ rfl
      exact congrArg PartitionConsumer.currentOffset (update_of_ne here _ _)
  · exact placed

theorem lt_offsetAbove_of_mem {log : StoredLog} {next : Nat} {r : Record} (inside : r ∈ log.records) :
    r.offset < offsetAbove log.segments next := by
  obtain ⟨segment, listed, inside⟩ := mem_flatMap.mp inside
  have := (segment.within r inside).2
  have := (lt_offsetAbove log.segments next).2 segment listed
  omega

theorem Placed.store (placed : Placed config reset s) (key : TopicPartition) (log : StoredLog) :
    Placed config reset (s.step config (.store key log)) := by
  unfold step
  dsimp only
  split_ifs with follows
  · refine ⟨placed.nodup, fun other => ?_, fun other => ?_, fun other => ?_, placed.commits⟩
    · by_cases here : other = key
      · subst here
        obtain ⟨records, shown, taken, had⟩ := placed.delivers other
        refine ⟨records, shown, ?_, fun r inside => ?_⟩
        · show Taken _ (update s.log other log other).records _ _ _
          rw [update_self]
          exact taken.follows follows fun r inside => placed.below other r (had r inside)
        · show r ∈ update s.history.stored other _ other
          rw [update_self]
          exact mem_append_left _ (had r inside)
      · exact (placed.delivers other).same rfl (update_of_ne here _ _) rfl rfl (update_of_ne here _ _)
    · show ∀ r ∈ (update s.log key log other).records, r ∈ update s.history.stored key _ other
      by_cases here : other = key
      · rw [here, update_self, update_self]
        exact fun r inside => mem_append_right _ inside
      · rw [update_of_ne here, update_of_ne here]
        exact placed.stored other
    · show ∀ r ∈ update s.history.stored key _ other, r.offset < update s.next key _ other
      by_cases here : other = key
      · rw [here, update_self, update_self]
        intro r inside
        obtain old | new := mem_append.mp inside
        · exact lt_of_lt_of_le (placed.below key r old) (lt_offsetAbove log.segments (s.next key)).1
        · exact lt_offsetAbove_of_mem new
      · rw [update_of_ne here, update_of_ne here]
        exact placed.below other
  · exact placed

theorem Placed.step (placed : Placed config reset s) (a : ConsumerStep) (fit : s.PositionsKept config reset a) :
    Placed config reset (s.step config a) := by
  cases a with
  | poll c => exact placed.poll c fit
  | commit c => exact placed.commit c fit
  | seek key offset => exact placed.seek key offset
  | store key log => exact placed.store key log
  | metadata m =>
    exact ⟨placed.nodup, fun key => (placed.delivers key).same rfl rfl rfl rfl rfl, placed.stored, placed.below, placed.commits⟩

theorem placed_build {log : TopicPartition → StoredLog} {now : Nat} {order : List TopicPartition}
    (built : build config m log now order = .ok s) : Placed config reset s := by
  unfold build at built
  split_ifs at built with none
  cases subscribed : subscribeTopics config m config.topics with
  | error e =>
    rw [subscribed] at built
    cases built
  | ok starts =>
    rw [subscribed] at built
    cases built
    refine ⟨?_, fun key => ⟨[], .nil, .nil Record.offset _ _, (by rintro _ ⟨⟩)⟩, fun key r inside => inside,
      fun key r inside => lt_offsetAbove_of_mem inside, (by rintro _ ⟨⟩)⟩
    refine nodup_append.mpr ⟨(nodup_dedup order).filter _, (nodup_dedup _).filter _, ?_⟩
    rintro a early b late rfl
    have listed := (mem_filter.mp early).1
    have absent := (mem_filter.mp late).2
    exact of_decide_eq_true absent (mem_dedup.mp listed)

/-- **A consumer keeps its place**, in every run whose steps fit. -/
theorem consumer_keeps_place {config : ConsumerConfig} {reset : OffsetReset} {m : Metadata.Catalog} {log : TopicPartition → StoredLog} {now : Nat}
    {order : List TopicPartition} {s : ConsumerState} {as : List ConsumerStep} (built : build config m log now order = .ok s)
    (fit : Meets (step config) (PositionsKept config reset) s as) :
    (∀ key ∈ (run (step config) s as).keys, (run (step config) s as).Delivers key) ∧
    ∀ done ∈ (run (step config) s as).history.commits, ∀ key ∈ (run (step config) s as).keys,
      ∀ config' : ConsumerConfig, config'.orgId = config.orgId → config'.groupId = config.groupId → config'.offsetReset = reset →
        determineStartOffset config' done.store key = .ok (done.positions key) := by
  have placed : Placed config reset (run (step config) s as) :=
    fit.invariant (fun _ a placed fit => placed.step a fit) (placed_build built)
  refine ⟨fun key _ => placed.delivers key, fun done inside key subscribed config' org group policy => ?_⟩
  subst policy
  exact determineStartOffset_of_starts org group (placed.commits done inside key subscribed)

/-! ## A consumer of one partition -/

def billing : ConsumerConfig := ⟨"acme", some "billing", ["orders"], true, 0, .earliest, 1000, .readCommitted, false⟩

def acmeOrders : TopicPartition := ⟨"orders", 0⟩

def twoOrders : StoredSegment where
  info := ⟨.segment "orders" 0 0, "orders", 0, 0, 1, 2, 60, "bucket", .segment .data "orders" 0 0, 0, 100, 101⟩
  ordered := by decide
  chunks := [[⟨0, 100, none, [1]⟩, ⟨1, 101, none, [2]⟩]]
  full := by decide
  within := by decide
  ascending := by decide

def ordersLog : StoredLog := ⟨[twoOrders], pairwise_singleton _ _⟩

/-- A store that still has the default organization. -/
def acmeStore : Metadata.Catalog :=
  { empty with
    organizations := [⟨defaultOrganizationId, "Default Organization", "default", .enterprise, .active, 0, [], none, .selfHosted⟩]
    topics := [⟨"acme", "orders", 1, none, 0, []⟩] }

def nothingFails : ConsumerPoll := ⟨fun _ => false, fun _ => ⟨none, fun _ => none, .ok (some 2)⟩, fun _ => false, fun _ => .ok 2, fun _ => none, 0,
  ⟨fun _ => none⟩⟩

def billingStart (key : TopicPartition) : Nat := (([(acmeOrders, 0)].find? fun p => p.1 = key).map Prod.snd).getD 0

def billingConsumer : ConsumerState where
  keys := [acmeOrders]
  readers := fun key => ⟨billingStart key, billingStart key⟩
  lastCommit := 0
  store := acmeStore
  log := fun _ => ordersLog
  next := fun _ => offsetAbove ordersLog.segments 0
  history := ⟨fun _ => [], billingStart, fun _ => ordersLog.records, []⟩

theorem build_billing : build billing acmeStore (fun _ => ordersLog) 0 [] = .ok billingConsumer := rfl

theorem read_orders : (ordersLog.view (nothingFails.reader acmeOrders)).read 0 1000 =
    .ok ⟨[⟨0, 100, none, [1]⟩, ⟨1, 101, none, [2]⟩], 2⟩ := by
  have segment : (ordersLog.view (nothingFails.reader acmeOrders)).readSegment twoOrders.info 0 =
      .ok [⟨0, 100, none, [1]⟩, ⟨1, 101, none, [2]⟩] := by
    show readFromOffset (blocksOf twoOrders.chunks) 0 = _
    rw [readFromOffset_blocksOf twoOrders.full twoOrders.ascending]
    rfl
  have first : (ordersLog.view (nothingFails.reader acmeOrders)).findSegmentForOffset 0 = .ok (some twoOrders.info) :=
    congrArg Except.ok (by decide : lookupInIndex (refreshIndex [twoOrders.info]) 0 = some twoOrders.info)
  have second : (ordersLog.view (nothingFails.reader acmeOrders)).findSegmentForOffset 2 = .ok none :=
    congrArg Except.ok (by decide : lookupInIndex (refreshIndex [twoOrders.info]) 2 = none)
  have loop : (ordersLog.view (nothingFails.reader acmeOrders)).readLoop 0 1000 0 [] =
      .ok [⟨0, 100, none, [1]⟩, ⟨1, 101, none, [2]⟩] := by
    rw [PartitionView.readLoop, if_pos (by decide), first]
    dsimp only
    rw [segment]
    dsimp only
    rw [if_neg (by decide), if_pos (by decide)]
    show PartitionView.readLoop _ 0 1000 2 [_, _] = _
    rw [PartitionView.readLoop, if_pos (by decide), second]
    rfl
  unfold PartitionView.read
  rw [loop]
  rfl

def twoConsumed : List ConsumedRecord := [⟨"orders", 0, 0, 100, none, [1], none, none⟩, ⟨"orders", 0, 1, 101, none, [2], none, none⟩]

theorem allRecords_orders : billingConsumer.allRecords billing nothingFails = .ok twoConsumed := by
  have read : billingConsumer.readPartition billing nothingFails acmeOrders = .ok twoConsumed :=
    (readPartition_of_read read_orders).trans rfl
  show (billingConsumer.collect billing nothingFails [acmeOrders]).map _ = _
  unfold collect
  rw [read]
  rfl

theorem poll_orders : (billingConsumer.poll billing nothingFails).1 =
    { ((billingConsumer.advance twoConsumed).commit billing ⟨fun _ => none⟩).1 with lastCommit := 0 }.giveBack twoConsumed := by
  unfold poll
  rw [allRecords_orders]
  rfl

/-- A poll that commits, and a commit after a seek ahead. -/
def aheadOfMark : List ConsumerStep := [.poll nothingFails, .seek acmeOrders 7, .commit ⟨fun _ => none⟩]

theorem aheadOfMark_fits : Meets (step billing) (PositionsKept billing .earliest) billingConsumer aheadOfMark := by
  refine ⟨fun records given _ => ?_, trivial, fun _ => ?_, trivial⟩
  · cases allRecords_orders.symm.trans given
    refine ⟨fun _ key inside => ?_, fun fails => absurd ⟨by decide, fun key inside _ => ⟨rfl, by decide⟩⟩ fails⟩
    rw [mem_singleton.mp inside]
    exact .inl (by decide)
  · show PositionsFit billing .earliest (((billingConsumer.poll billing nothingFails).1).seek acmeOrders 7).1
    rw [poll_orders]
    intro key inside
    rw [mem_singleton.mp inside]
    exact .inl (by decide)

theorem consumer_keeps_place_billing :
    (∀ key ∈ (run (step billing) billingConsumer aheadOfMark).keys,
      (run (step billing) billingConsumer aheadOfMark).Delivers key) ∧
    ∀ done ∈ (run (step billing) billingConsumer aheadOfMark).history.commits,
      ∀ key ∈ (run (step billing) billingConsumer aheadOfMark).keys, ∀ config' : ConsumerConfig,
        config'.orgId = billing.orgId → config'.groupId = billing.groupId → config'.offsetReset = .earliest →
          determineStartOffset config' done.store key = .ok (done.positions key) :=
  consumer_keeps_place build_billing aheadOfMark_fits

/-- The group has read up to 5 through another interface. -/
def readTo5 : Metadata.Catalog :=
  { empty with
    topics := [⟨"acme", "orders", 1, none, 0, []⟩]
    consumerOffsets := [⟨"acme", "billing", "orders", 0, 5, none⟩] }

/-- A commit after a seek back has nothing to write. -/
theorem consumer_loses_place : ¬ ∀ (config : ConsumerConfig) (reset : OffsetReset) (m : Metadata.Catalog) (log : TopicPartition → StoredLog) (now : Nat)
    (order : List TopicPartition) (s : ConsumerState) (as : List ConsumerStep), build config m log now order = .ok s →
    (∀ key ∈ (run (step config) s as).keys, (run (step config) s as).Delivers key) ∧
    ∀ done ∈ (run (step config) s as).history.commits, ∀ key ∈ (run (step config) s as).keys,
      ∀ config' : ConsumerConfig, config'.orgId = config.orgId → config'.groupId = config.groupId → config'.offsetReset = reset →
        determineStartOffset config' done.store key = .ok (done.positions key) := by
  intro keeps
  have resumed := (keeps billing .earliest readTo5 (fun _ => ordersLog) 0 [] _ [.seek acmeOrders 2, .commit ⟨fun _ => none⟩] rfl).2
    ⟨readTo5, _⟩ (mem_singleton_self _) acmeOrders (mem_singleton_self _) billing rfl rfl rfl
  cases resumed

end ConsumerState

end StreamHouse.Client
