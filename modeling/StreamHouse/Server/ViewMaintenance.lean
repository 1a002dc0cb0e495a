import StreamHouse.Core.I64
import StreamHouse.Server.ViewRows
import StreamHouse.Lib.Run

/-!
# Incremental maintenance and recomputation

A tick aggregates the new messages alone and replaces the rows of their windows. The table is
that of all messages below the stored offsets as long as no window is cut by a tick, and no tick
fails between its upserts and its offsets.
-/

namespace StreamHouse.Server.Views

open Metadata Storage Sql Lib List Option Function ViewState PartitionView Prod I64

section Maintenance

variable (display : Json → String) (text : Bytes → Text) (view : View)

/-! ## What a tick reads -/

section Tick

variable (s : ViewState) (conditions : TickConditions)

/-- The messages that a tick reads of a partition. -/
def reads (partition : Nat) : List MessageRow :=
  match readPartitionMessages view s conditions partition with
  | .ok (records, _) => records.map (messageRow text view partition)
  | .error _ => []

/-- The messages below the stored offsets and those that the tick reads, by partition. -/
def available : List MessageRow :=
  (List.range view.partitionCount.toNat).flatMap fun partition =>
    below text view s partition (s.startOffset partition) ++ reads text view s conditions partition

/-- Not below the stored offset of its partition. -/
def isNew (msg : MessageRow) : Bool := decide (s.startOffset msg.partition.toNat ≤ msg.offset.toNat)

end Tick

/-- What the groupings work out of the messages are `i64` numbers: quotients and bounds of windows,
the counter of hopping ones, and the distance of a message from the one before it in a session. -/
def Calculable (messages : List MessageRow) : Prop :=
  match view.query.window with
  | .tumble size => ∀ msg ∈ messages, Fits (msg.timestamp.tdiv size) ∧ Fits (msg.timestamp.tdiv size * size + size)
  | .hop size slide => messages ≠ [] → (slide < 0 → maxTimestamp messages < hopFirst slide messages) ∧
    ∀ windowStart ∈ hopStarts slide messages, Fits (windowStart.tdiv slide) ∧ Fits (windowStart + size) ∧ Fits (windowStart + slide)
  | .session _ => ∀ groupKey, (Sessions.sorted MessageRow.timestamp
      (messages.filter fun msg => extractGroupKey display msg view.query.groupBy = groupKey)).IsChain fun m n => Fits (n.timestamp - m.timestamp)

/-- A tick writes nothing, or it writes all its rows, and of an offset that it does not store no
message passes the filters; no window has messages of the tick and older ones, and no number
leaves `i64`. -/
def Clean (s : ViewState) : ViewEvent → Prop
  | .tick conditions => conditions.prepare = none → conditions.writes ≠ 0 →
    ∀ messages offsets, readPartitions text view s conditions (List.range view.partitionCount.toNat) = .ok (messages, offsets) →
      Calculable display view (applyFilters messages view.query.filters) ∧
      Calculable display view (applyFilters (available text view s conditions) view.query.filters) ∧
      ∀ rows, computeViewAggregations display view.query (applyFilters messages view.query.filters) = some rows →
        rows.length ≤ conditions.writes ∧
        (∀ lost ∈ (conditions.order offsets).drop (conditions.writes - rows.length), ∀ msg ∈ reads text view s conditions lost.1,
          matchesFilters view.query.filters msg = false) ∧
        Sql.Apart display view.query.window view.query.groupBy (applyFilters (available text view s conditions) view.query.filters) (isNew s)
  | .store _ _ => True

/-- The data is recomputed, and a stored offset is that behind a record. -/
structure Inv (s : ViewState) : Prop where
  recomputed : Recomputed display text view s
  reached : ∀ partition, s.startOffset partition = 0 ∨ ∃ r ∈ (s.log partition).log.records, r.offset + 1 = s.startOffset partition

variable {display text view} {s : ViewState} {conditions : TickConditions}

theorem applyFilters_eq (messages : List MessageRow) (filters : List Filter) :
    applyFilters messages filters = messages.filter (matchesFilters filters) := by
  unfold applyFilters
  split_ifs with empty
  · rw [empty]
    exact (filter_eq_self.mpr fun _ _ => rfl).symm
  · rfl

variable {partition : Nat} {rows : List MaterializedViewData} {r : Record} {timestamp : Nat}

/-- What a read of a partition gives, with the offset behind it. -/
theorem readPartitionMessages_ok {newOffset : Nat} {records : List Record}
    (read : readPartitionMessages view s conditions partition = .ok (records, newOffset)) :
    ((s.log partition).log.records.filter fun r => r.offset < newOffset) =
        ((s.log partition).log.records.filter fun r => r.offset < s.startOffset partition) ++ records ∧
      (records = [] ∧ newOffset = s.startOffset partition ∨
        ∃ last ∈ records, last ∈ (s.log partition).log.records ∧ last.offset + 1 = newOffset ∧ s.startOffset partition < newOffset) ∧
      ∀ r ∈ records, r ∈ (s.log partition).log.records ∧ s.startOffset partition ≤ r.offset := by
  unfold readPartitionMessages at read
  cases outcome : ((s.log partition).log.view (conditions.reader partition)).read (s.startOffset partition) view.maxRecordsPerTick with
  | error e =>
    rw [outcome] at read
    cases read
  | ok result =>
    rw [outcome] at read
    obtain ⟨rfl, rfl⟩ := mk.inj (Except.ok.inj read)
    have given (r : Record) (inside : r ∈ result.records) :
        r ∈ (s.log partition).log.records ∧ s.startOffset partition ≤ r.offset := by
      have listed := mem_filter.mp ((StoredLog.read_prefix outcome).subset inside)
      exact ⟨listed.1, of_decide_eq_true listed.2⟩
    refine ⟨StoredLog.filter_below_read outcome, ?_, given⟩
    cases isLast : result.records.getLast? with
    | none => exact .inl ⟨getLast?_eq_none_iff.mp isLast, rfl⟩
    | some last =>
      have inside := mem_of_getLast? isLast
      obtain ⟨stored, least⟩ := given last inside
      exact .inr ⟨last, inside, stored, rfl, Nat.lt_succ_of_le least⟩

/-- The offsets that a tick stores. -/
def newOffset (view : View) (s : ViewState) (conditions : TickConditions) (partition : Nat) : Option (Nat × Nat) :=
  match readPartitionMessages view s conditions partition with
  | .ok (_, offset) => if s.startOffset partition < offset then some (partition, offset) else none
  | .error _ => none

theorem newOffset_fst {entry : Nat × Nat} (stored : newOffset view s conditions partition = some entry) :
    entry.1 = partition := by
  unfold newOffset at stored
  split at stored
  · split_ifs at stored with moved
    exact congrArg fst (some.inj stored).symm
  · cases stored

theorem reads_eq_nil (unmoved : newOffset view s conditions partition = none) :
    reads text view s conditions partition = [] := by
  unfold newOffset at unmoved
  unfold reads
  cases outcome : readPartitionMessages view s conditions partition with
  | error e => rfl
  | ok read =>
    obtain ⟨records, offset⟩ := read
    rw [outcome] at unmoved
    dsimp only at unmoved
    obtain ⟨empty, -⟩ | ⟨last, -, -, -, moved⟩ := (readPartitionMessages_ok outcome).2.1
    · rw [empty]
      rfl
    · rw [if_pos moved] at unmoved
      cases unmoved

variable {offsets : List (Nat × Nat)}

/-- The loop over the partitions reads each of them. -/
theorem readPartitions_ok {partitions : List Nat} {messages : List MessageRow} (read : readPartitions text view s conditions partitions = .ok (messages, offsets)) :
    messages = partitions.flatMap (reads text view s conditions) ∧ offsets = partitions.filterMap (newOffset view s conditions) := by
  induction partitions generalizing messages offsets with
  | nil =>
    obtain ⟨rfl, rfl⟩ := mk.inj (Except.ok.inj read)
    exact ⟨rfl, rfl⟩
  | cons partition rest ih =>
    rw [readPartitions] at read
    rw [flatMap_cons, filterMap_cons]
    cases outcome : readPartitionMessages view s conditions partition with
    | error e =>
      have skipped : reads text view s conditions partition = [] ∧ newOffset view s conditions partition = none := by
        unfold reads newOffset
        rw [outcome]
        exact ⟨rfl, rfl⟩
      rw [skipped.1, skipped.2]
      rw [outcome] at read
      cases e with
      | offsetNotFound offset => exact ih read
      | _ => cases read
    | ok first =>
      obtain ⟨records, offset⟩ := first
      rw [outcome] at read
      dsimp only at read
      cases others : readPartitions text view s conditions rest with
      | error e =>
        rw [others] at read
        cases read
      | ok later =>
        obtain ⟨more, moreOffsets⟩ := later
        rw [others] at read
        obtain ⟨rfl, rfl⟩ := ih others
        have given : reads text view s conditions partition = records.map (messageRow text view partition) := by
          unfold reads
          rw [outcome]
        have moved : newOffset view s conditions partition = if s.startOffset partition < offset then some (partition, offset) else none := by
          unfold newOffset
          rw [outcome]
        have both := Except.ok.inj read
        dsimp only at both
        by_cases onward : s.startOffset partition < offset
        · rw [if_pos onward] at both moved
          rw [given, moved]
          exact ⟨(congrArg fst both).symm, (congrArg snd both).symm⟩
        · rw [if_neg onward] at both moved
          rw [reads_eq_nil moved, moved]
          exact ⟨(congrArg fst both).symm, (congrArg snd both).symm⟩

/-! ## What a tick writes -/

/-- Offsets that are stored one after another. -/
def updated (lastOffset : Nat → Option Nat) (offsets : List (Nat × Nat)) : Nat → Option Nat :=
  offsets.foldl (fun lastOffset entry => update lastOffset entry.1 (some entry.2)) lastOffset

theorem updated_other (other : partition ∉ offsets.map fst)
    (lastOffset : Nat → Option Nat) : updated lastOffset offsets partition = lastOffset partition := by
  induction offsets generalizing lastOffset with
  | nil => rfl
  | cons entry rest ih =>
    rw [map_cons, mem_cons, not_or] at other
    have step : updated lastOffset (entry :: rest) = updated (update lastOffset entry.1 (some entry.2)) rest := rfl
    rw [step, ih other.2, update_of_ne other.1]

theorem updated_mem (nodup : (offsets.map fst).Nodup) {offset : Nat}
    (inside : (partition, offset) ∈ offsets) (lastOffset : Nat → Option Nat) : updated lastOffset offsets partition = some offset := by
  induction offsets generalizing lastOffset with
  | nil => cases inside
  | cons entry rest ih =>
    obtain ⟨new, later⟩ := nodup_cons.mp nodup
    have step : updated lastOffset (entry :: rest) = updated (update lastOffset entry.1 (some entry.2)) rest := rfl
    rw [step]
    obtain rfl | inRest := mem_cons.mp inside
    · rw [updated_other new, update_self]
    · exact ih later inRest _

theorem apply_upserts (s : ViewState) (rows : List MaterializedViewData) :
    (rows.map ViewEffect.upsertData).foldl apply s = { s with data := upserted s.data rows } := by
  induction rows generalizing s with
  | nil => rfl
  | cons row rest ih => exact ih (s.upsertData row)

theorem apply_updates (s : ViewState) (offsets : List (Nat × Nat)) :
    (offsets.map fun (partition, offset) => ViewEffect.updateOffset partition offset).foldl apply s =
      { s with lastOffset := updated s.lastOffset offsets } := by
  induction offsets generalizing s with
  | nil => rfl
  | cons entry rest ih => exact ih (s.updateOffset entry.1 entry.2)

/-- The view after rows and offsets are written. -/
def written (s : ViewState) (rows : List MaterializedViewData) (offsets : List (Nat × Nat)) : ViewState :=
  { s with data := upserted s.data rows, lastOffset := updated s.lastOffset offsets }

theorem startOffset_written_mem {s : ViewState} (nodup : (offsets.map fst).Nodup) {offset : Nat} (inside : (partition, offset) ∈ offsets) :
    (written s rows offsets).startOffset partition = offset :=
  congrArg (Option.getD · 0) (updated_mem nodup inside s.lastOffset)

theorem startOffset_written_other {s : ViewState} (other : partition ∉ offsets.map fst) : (written s rows offsets).startOffset partition = s.startOffset partition :=
  congrArg (Option.getD · 0) (updated_other other s.lastOffset)

theorem apply_effects (s : ViewState) (rows : List MaterializedViewData) (offsets : List (Nat × Nat)) :
    (rows.map ViewEffect.upsertData ++ offsets.map fun (partition, offset) => ViewEffect.updateOffset partition offset).foldl
      apply s = written s rows offsets := by
  rw [foldl_append, apply_upserts, apply_updates]
  rfl

/-- What a tick comes to: nothing, or the first of its upserts and updates. -/
theorem processSingleView_cases (display : Json → String) (text : Bytes → Text) (view : View) (s : ViewState) (conditions : TickConditions) :
    processSingleView display text view s conditions = s ∨
    ∃ messages offsets rows, conditions.prepare = none ∧ conditions.writes ≠ 0 ∧
      readPartitions text view s conditions (List.range view.partitionCount.toNat) = .ok (messages, offsets) ∧
      computeViewAggregations display view.query (applyFilters messages view.query.filters) = some rows ∧
      processSingleView display text view s conditions =
        ((rows.map ViewEffect.upsertData ++ (conditions.order offsets).map fun (partition, offset) =>
          ViewEffect.updateOffset partition offset).take conditions.writes).foldl apply s := by
  unfold processSingleView viewEffects
  by_cases nothing : conditions.writes = 0
  · left
    rw [nothing]
    rfl
  cases failed : conditions.prepare with
  | some e =>
    left
    exact congrArg (foldl _ s) take_nil
  | none =>
    cases read : readPartitions text view s conditions (List.range view.partitionCount.toNat) with
    | error e =>
      left
      exact congrArg (foldl _ s) take_nil
    | ok both =>
      obtain ⟨messages, offsets⟩ := both
      dsimp only
      split_ifs with empty
      · left
        exact congrArg (foldl _ s) take_nil
      · cases aggregated : computeViewAggregations display view.query (applyFilters messages view.query.filters) with
        | none =>
          left
          exact congrArg (foldl _ s) take_nil
        | some rows => exact .inr ⟨messages, offsets, rows, rfl, nothing, rfl, aggregated, rfl⟩

/-! ## One step -/

/-- A message of a partition below an offset is not beyond it, and one that a tick reads is not
below its start. -/
theorem isNew_messageRow (s : ViewState) (listed : partition < view.partitionCount.toNat) (stored : r ∈ (s.log partition).log.records) :
    isNew s (messageRow text view partition r) = decide (s.startOffset partition ≤ r.offset) := by
  have fits := (s.log partition).fits r stored
  have small : partition % 2 ^ 32 = partition := by
    have := view.partitionCount.isLt
    exact Nat.mod_eq_of_lt (by omega)
  have whole : r.offset % 2 ^ 64 = r.offset := Nat.mod_eq_of_lt (by omega)
  unfold isNew messageRow
  simp only [BitVec.toNat_ofNat, small, whole]

theorem filter_flatMap_of {α β : Type*} {p : β → Bool} {f g : α → List β} {l : List α} (each : ∀ a ∈ l, (f a).filter p = g a) :
    (l.flatMap f).filter p = l.flatMap g := by
  rw [List.filter_flatMap]
  exact flatMap_congr each

/-- The messages below an offset of a partition are old if the offset is not beyond the start. -/
theorem isNew_below (listed : partition < view.partitionCount.toNat) :
    ∀ msg ∈ below text view s partition (s.startOffset partition), isNew s msg = false := by
  intro msg inside
  obtain ⟨r, inLog, rfl⟩ := mem_map.mp inside
  obtain ⟨stored, less⟩ := mem_filter.mp inLog
  rw [isNew_messageRow s listed stored]
  simp only [decide_eq_true_eq] at less
  simp only [decide_eq_false_iff_not]
  omega

theorem isNew_reads (listed : partition < view.partitionCount.toNat) :
    ∀ msg ∈ reads text view s conditions partition, isNew s msg = true := by
  intro msg inside
  unfold reads at inside
  cases outcome : readPartitionMessages view s conditions partition with
  | error e =>
    rw [outcome] at inside
    cases inside
  | ok read =>
    obtain ⟨records, offset⟩ := read
    rw [outcome] at inside
    obtain ⟨r, given, rfl⟩ := mem_map.mp inside
    obtain ⟨stored, least⟩ := (readPartitionMessages_ok outcome).2.2 r given
    rw [isNew_messageRow s listed stored]
    exact decide_eq_true least

/-- The new ones of the available messages are those that the tick reads. -/
theorem filter_isNew_available (text : Bytes → Text) (view : View) (s : ViewState) (conditions : TickConditions) :
    (available text view s conditions).filter (isNew s) =
      (List.range view.partitionCount.toNat).flatMap (reads text view s conditions) := by
  refine filter_flatMap_of fun partition inRange => ?_
  have listed := mem_range.mp inRange
  have old : (below text view s partition (s.startOffset partition)).filter (isNew s) = [] :=
    filter_eq_nil_iff.mpr fun msg inside => by rw [isNew_below listed msg inside]; exact Bool.false_ne_true
  rw [filter_append, old, nil_append]
  exact filter_eq_self.mpr (isNew_reads listed)

theorem filter_isOld_available (text : Bytes → Text) (view : View) (s : ViewState) (conditions : TickConditions) :
    (available text view s conditions).filter (fun msg => !isNew s msg) = consumed text view s := by
  refine filter_flatMap_of fun partition inRange => ?_
  have listed := mem_range.mp inRange
  have new : (reads text view s conditions partition).filter (fun msg => !isNew s msg) = [] :=
    filter_eq_nil_iff.mpr fun msg inside => by rw [isNew_reads listed msg inside]; exact Bool.false_ne_true
  rw [filter_append, new, append_nil]
  exact filter_eq_self.mpr fun msg inside => by rw [isNew_below listed msg inside]; rfl

/-- The offsets of a tick are for different partitions, in whatever order they are stored. -/
theorem nodup_order (conditions : TickConditions) {partitions : List Nat} (nodup : partitions.Nodup)
    (isOffsets : offsets = partitions.filterMap (newOffset view s conditions)) : ((conditions.order offsets).map fst).Nodup := by
  refine ((conditions.reordered offsets).map fst).nodup_iff.mpr ?_
  rw [isOffsets, map_filterMap]
  refine Nodup.filterMap ?_ nodup
  intro partition partition' key inFirst inSecond
  obtain ⟨entry, stored, rfl⟩ := map_eq_some_iff.mp (mem_def.mp inFirst)
  obtain ⟨entry', stored', same⟩ := map_eq_some_iff.mp (mem_def.mp inSecond)
  rw [← newOffset_fst stored, ← newOffset_fst stored', same]

theorem newOffset_ok {offset : Nat} (stored : newOffset view s conditions partition = some (partition, offset)) :
    below text view s partition offset = below text view s partition (s.startOffset partition) ++ reads text view s conditions partition ∧
      ∃ r ∈ (s.log partition).log.records, r.offset + 1 = offset := by
  unfold newOffset at stored
  unfold reads
  cases outcome : readPartitionMessages view s conditions partition with
  | error e =>
    rw [outcome] at stored
    cases stored
  | ok read =>
    obtain ⟨records, last⟩ := read
    rw [outcome] at stored
    dsimp only at stored ⊢
    split_ifs at stored with moved
    obtain rfl : last = offset := congrArg snd (some.inj stored)
    obtain ⟨joined, ends, -⟩ := readPartitionMessages_ok outcome
    refine ⟨?_, ?_⟩
    · rw [below, below, joined, map_append]
    · obtain ⟨-, same⟩ | ⟨r, -, inLog, behind, -⟩ := ends
      · omega
      · exact ⟨r, inLog, behind⟩

/-- A tick that writes its rows, and the offsets of all partitions with messages for them, keeps
the view as it is recomputed. -/
theorem tick_recomputed {messages : List MessageRow} (inv : Inv display text view s)
    (read : readPartitions text view s conditions (List.range view.partitionCount.toNat) = .ok (messages, offsets))
    (aggregated : computeViewAggregations display view.query (applyFilters messages view.query.filters) = some rows) (count : Nat)
    (lost : ∀ lost ∈ (conditions.order offsets).drop count, ∀ msg ∈ reads text view s conditions lost.1,
      matchesFilters view.query.filters msg = false)
    (apart : Sql.Apart display view.query.window view.query.groupBy (applyFilters (available text view s conditions) view.query.filters) (isNew s)) :
    Inv display text view (written s rows ((conditions.order offsets).take count)) := by
  obtain ⟨rfl, isOffsets⟩ := readPartitions_ok read
  have nodup := nodup_order conditions nodup_range isOffsets
  have nodupTaken : (((conditions.order offsets).take count).map fst).Nodup :=
    nodup.sublist ((take_sublist _ _).map fst)
  have ofEntry {entry : Nat × Nat} (inside : entry ∈ conditions.order offsets) :
      newOffset view s conditions entry.1 = some entry := by
    have listed := (conditions.reordered offsets).mem_iff.mp inside
    rw [isOffsets] at listed
    obtain ⟨partition, -, stored⟩ := mem_filterMap.mp listed
    rw [newOffset_fst stored, stored]
  -- the offset of a partition after the tick
  have after (partition : Nat) : newOffset view s conditions partition = some (partition,
        (written s rows ((conditions.order offsets).take count)).startOffset partition) ∨
      (partition ∉ ((conditions.order offsets).take count).map fst ∧
        (written s rows ((conditions.order offsets).take count)).startOffset partition = s.startOffset partition) := by
    by_cases taken : partition ∈ ((conditions.order offsets).take count).map fst
    · obtain ⟨⟨p, offset⟩, inside, rfl⟩ := mem_map.mp taken
      rw [startOffset_written_mem nodupTaken inside]
      exact .inl (ofEntry (mem_of_mem_take inside))
    · exact .inr ⟨taken, startOffset_written_other taken⟩
  refine ⟨?_, fun partition => ?_⟩
  · -- the messages below the offsets after the tick that pass the filters
    have sides : applyFilters (consumed text view (written s rows ((conditions.order offsets).take count))) view.query.filters =
        applyFilters (available text view s conditions) view.query.filters := by
      rw [applyFilters_eq, applyFilters_eq, consumed, available, List.filter_flatMap, List.filter_flatMap]
      refine flatMap_congr fun partition inRange => ?_
      obtain stored | ⟨untaken, unchanged⟩ := after partition
      · rw [← (newOffset_ok stored).1]
        rfl
      · have none : (reads text view s conditions partition).filter (matchesFilters view.query.filters) = [] := by
          cases moved : newOffset view s conditions partition with
          | none => rw [reads_eq_nil moved, filter_nil]
          | some entry =>
            have listed : entry ∈ conditions.order offsets := by
              rw [(conditions.reordered offsets).mem_iff, isOffsets]
              exact mem_filterMap.mpr ⟨partition, inRange, moved⟩
            rw [← take_append_drop count (conditions.order offsets)] at listed
            obtain inTaken | inLost := mem_append.mp listed
            · exact absurd (mem_map.mpr ⟨entry, inTaken, newOffset_fst moved⟩) untaken
            · refine filter_eq_nil_iff.mpr fun msg inside => ?_
              rw [lost entry inLost msg (by rwa [newOffset_fst moved])]
              exact Bool.false_ne_true
        rw [unchanged, filter_append, none, append_nil]
        rfl
    obtain ⟨old, recomputed, table⟩ := inv.recomputed
    have newRows : computeViewAggregations display view.query
        ((applyFilters (available text view s conditions) view.query.filters).filter (isNew s)) = some rows := by
      rw [← aggregated, applyFilters_eq, applyFilters_eq, filter_comm, filter_isNew_available]
    have oldRows : computeViewAggregations display view.query
        ((applyFilters (available text view s conditions) view.query.filters).filter fun msg => !isNew s msg) = some old := by
      rw [← recomputed, applyFilters_eq, applyFilters_eq, filter_comm, filter_isOld_available]
    obtain ⟨all, aggregatedAll, upserts⟩ := upserted_apart apart newRows oldRows
    refine ⟨all, by rw [sides, aggregatedAll], ?_⟩
    rw [← upserts, ← table]
    rfl
  · obtain stored | ⟨-, unchanged⟩ := after partition
    · exact .inr (@newOffset_ok text _ _ _ _ _ stored).2
    · rw [unchanged]
      exact inv.reached partition

/-- What is appended to a partition is not below the stored offset. -/
theorem store_recomputed (inv : Inv display text view s) {log : SourceLog}
    (onward : (s.log partition).log.records <+: log.log.records) :
    Inv display text view { s with log := update s.log partition log } := by
  have unchanged (p : Nat) : below text view { s with log := update s.log partition log } p (s.startOffset p) =
      below text view s p (s.startOffset p) := by
    unfold below
    by_cases here : p = partition
    · subst here
      obtain ⟨more, joined⟩ := onward
      dsimp only
      rw [update_self, ← joined, filter_append]
      have ascending := log.log.ascending
      rw [← joined] at ascending
      have beyond : (more.filter fun r => r.offset < s.startOffset p) = [] := by
        refine filter_eq_nil_iff.mpr fun r inside => ?_
        simp only [decide_eq_true_eq]
        obtain zero | ⟨last, inLog, behind⟩ := inv.reached p
        · omega
        · have := (List.pairwise_append.mp ascending).2.2 last inLog r inside
          omega
      rw [beyond, append_nil]
    · dsimp only
      rw [update_of_ne here]
  refine ⟨?_, fun p => ?_⟩
  · obtain ⟨rows, recomputed, table⟩ := inv.recomputed
    have same : consumed text view { s with log := update s.log partition log } = consumed text view s :=
      flatMap_congr fun p _ => unchanged p
    exact ⟨rows, by rw [same, recomputed], table⟩
  · obtain zero | ⟨r, inLog, behind⟩ := inv.reached p
    · exact .inl zero
    · refine .inr ⟨r, ?_, behind⟩
      dsimp only
      by_cases here : p = partition
      · subst here
        rw [update_self]
        exact onward.subset inLog
      · rwa [update_of_ne here]

theorem step_keeps (s : ViewState) (event : ViewEvent) (inv : Inv display text view s) (clean : Clean display text view s event) :
    Inv display text view (step display text view s event) := by
  cases event with
  | tick conditions =>
    obtain same | ⟨messages, offsets, rows, prepared, writes, read, aggregated, effects⟩ :=
      processSingleView_cases display text view s conditions
    · rw [step, same]
      exact inv
    · obtain ⟨-, -, written⟩ := clean prepared writes messages offsets read
      obtain ⟨complete, lost, apart⟩ := written rows aggregated
      have writesRows : (rows.map ViewEffect.upsertData).length ≤ conditions.writes := by rwa [length_map]
      rw [step, effects, take_append, take_of_length_le writesRows, length_map, ← map_take, apply_effects]
      exact tick_recomputed inv read aggregated _ lost apart
  | store partition log =>
    rw [step]
    split_ifs with onward
    · exact store_recomputed inv onward
    · exact inv

theorem Inv.initial (display : Json → String) (text : Bytes → Text) (view : View) (log : Nat → SourceLog) :
    Inv display text view (start log) := by
  refine ⟨⟨[], ?_, rfl⟩, fun partition => .inl rfl⟩
  have nothing : consumed text view (start log) = [] := by
    refine flatMap_eq_nil_iff.mpr fun partition _ => ?_
    have none : ((((start log).log partition).log.records).filter fun r =>
        r.offset < (start log).startOffset partition) = [] :=
      filter_eq_nil_iff.mpr fun r _ => by simp [start, startOffset]
    rw [below, none, map_nil]
  rw [nothing, applyFilters_eq]
  rfl

/-- **After a run of clean ticks the data of the view is the aggregation of all messages below its
stored offsets.** -/
theorem view_recomputed {log : Nat → SourceLog} {events : List ViewEvent}
    (clean : Meets (step display text view) (Clean display text view) (start log) events) :
    Recomputed display text view (run (step display text view) (start log) events) :=
  have keep : ∀ s event, Inv display text view s → Clean display text view s event → Inv display text view (step display text view s event) :=
    step_keeps
  (clean.invariant keep (Inv.initial display text view log)).recomputed

end Maintenance

namespace Example

/-- A count of the orders of each second, one record a tick. -/
def orders : View := ⟨"orders", 1, 1, ⟨.tumble 1000, [.count none], [], []⟩⟩

def first : Record := ⟨0, 100, none, []⟩

def second (timestamp : Nat) : Record := ⟨1, timestamp, none, []⟩

/-- Two records, of which the second is taken at the timestamp. -/
def segment (timestamp : Nat) : StoredSegment where
  info := ⟨.segment "orders" 0 0, "orders", 0, 0, 1, 2, 60, "bucket", .segment .data "orders" 0 0, 0, 100, 1100⟩
  ordered := by decide
  chunks := [[first, second timestamp]]
  full := by simp
  within := by simp [first, second]
  ascending := by simp [first, second]

def source (timestamp : Nat) : SourceLog := ⟨⟨[segment timestamp], pairwise_singleton _ _⟩, by
  simp [StoredLog.records, segment, first, second]⟩

def nothingFails : TickConditions where
  prepare := none
  reader _ := ⟨none, fun _ => none, .ok (some 2)⟩
  order := id
  reordered offsets := .refl offsets
  writes := 2

def display (_ : Json) : String := ""

def text (_ : Bytes) : Text := ⟨"", none⟩

def fresh (timestamp : Nat) : ViewState := .start fun _ => source timestamp

theorem found (timestamp offset : Nat) (upTo : offset ≤ 1) :
    ((source timestamp).log.view (nothingFails.reader 0)).findSegmentForOffset offset = .ok (some (segment timestamp).info) := by
  have segments : ((source timestamp).log.view (nothingFails.reader 0)).getSegments = .ok [(segment timestamp).info] := rfl
  have inside : (segment timestamp).info.baseOffset ≤ offset ∧ offset ≤ (segment timestamp).info.endOffset := ⟨Nat.zero_le _, upTo⟩
  have index : refreshIndex [(segment timestamp).info] = [(segment timestamp).info] := by simp [refreshIndex, insertSegment, maxSegments]
  have lookup : lookupInIndex [(segment timestamp).info] offset = some (segment timestamp).info := by
    rw [lookupInIndex, filter_cons_of_pos (by simpa using inside.1)]
    exact if_pos inside
  rw [findSegmentForOffset, segments, Except.map, index, lookup]

theorem readSegment_eq (timestamp offset : Nat) : ((source timestamp).log.view (nothingFails.reader 0)).readSegment (segment timestamp).info offset =
    .ok ([first, second timestamp].filter fun r => offset ≤ r.offset) := by
  have blocks : readFromOffset (blocksOf (segment timestamp).chunks) offset =
      .ok ([first, second timestamp].filter fun r => offset ≤ r.offset) :=
    readFromOffset_blocksOf (segment timestamp).full (segment timestamp).ascending offset
  rw [PartitionView.readSegment, ← blocks]
  rfl

theorem read_first (timestamp : Nat) : ((source timestamp).log.view (nothingFails.reader 0)).read 0 1 = .ok ⟨[first], 2⟩ := by
  rw [PartitionView.read, PartitionView.readLoop, found _ _ (by decide)]
  simp only [readSegment_eq]
  rfl

theorem read_second (timestamp : Nat) : ((source timestamp).log.view (nothingFails.reader 0)).read 1 1 = .ok ⟨[second timestamp], 2⟩ := by
  rw [PartitionView.read, PartitionView.readLoop, found _ _ (by decide)]
  have rest : ([first, second timestamp].filter fun r => 1 ≤ r.offset) = [second timestamp] := rfl
  simp only [readSegment_eq, rest]
  rw [readLoop]
  rfl

/-- The row of one record alone. -/
def row (r : Record) : MaterializedViewData :=
  viewData orders.query (tumbleKey display 1000 [] (messageRow text orders 0 r), [messageRow text orders 0 r])

/-- A tick that reads one record. -/
theorem read_one {s : ViewState} (isSource : s.log 0 = source timestamp) (start : s.startOffset 0 = r.offset)
    (read : ((source timestamp).log.view (nothingFails.reader 0)).read r.offset 1 = .ok ⟨[r], 2⟩) :
    readPartitionMessages orders s nothingFails 0 = .ok ([r], r.offset + 1) := by
  have limit : orders.maxRecordsPerTick = 1 := rfl
  rw [readPartitionMessages, isSource, start, limit, read]
  rfl

theorem read_record {s : ViewState} (isSource : s.log 0 = source timestamp) (start : s.startOffset 0 = r.offset)
    (read : ((source timestamp).log.view (nothingFails.reader 0)).read r.offset 1 = .ok ⟨[r], 2⟩) :
    readPartitions text orders s nothingFails [0] = .ok ([messageRow text orders 0 r], [(0, r.offset + 1)]) := by
  rw [readPartitions, read_one isSource start read]
  simp [readPartitions, Except.map, start]

theorem aggregated (r : Record) :
    computeViewAggregations display orders.query (applyFilters [messageRow text orders 0 r] orders.query.filters) = some [row r] := rfl

theorem tick_eq {s : ViewState} (isSource : s.log 0 = source timestamp) (start : s.startOffset 0 = r.offset)
    (read : ((source timestamp).log.view (nothingFails.reader 0)).read r.offset 1 = .ok ⟨[r], 2⟩) :
    step display text orders s (.tick nothingFails) = written s [row r] [(0, r.offset + 1)] := by
  have partitions : List.range orders.partitionCount.toNat = [0] := rfl
  have effects : viewEffects display text orders s nothingFails = [.upsertData (row r), .updateOffset 0 (r.offset + 1)] := by
    rw [viewEffects, partitions, read_record isSource start read]
    have prepared : nothingFails.prepare = none := rfl
    simp only [prepared, aggregated]
    rfl
  rw [step, processSingleView, effects]
  rfl

/-- The state after a tick for each of the records. -/
def caughtUp (timestamp : Nat) : ViewState := written (written (fresh timestamp) [row first] [(0, 1)]) [row (second timestamp)] [(0, 2)]

theorem first_tick (timestamp : Nat) :
    step display text orders (fresh timestamp) (.tick nothingFails) = written (fresh timestamp) [row first] [(0, 1)] :=
  tick_eq rfl rfl (read_first timestamp)

theorem two_ticks (timestamp : Nat) :
    run (step display text orders) (fresh timestamp) [.tick nothingFails, .tick nothingFails] = caughtUp timestamp := by
  have two : step display text orders (written (fresh timestamp) [row first] [(0, 1)]) (.tick nothingFails) = caughtUp timestamp :=
    tick_eq (r := second timestamp) rfl rfl (read_second timestamp)
  rw [run_cons, run_cons, run_nil, first_tick, two]

theorem consumed_caughtUp (timestamp : Nat) :
    consumed text orders (caughtUp timestamp) = [messageRow text orders 0 first, messageRow text orders 0 (second timestamp)] := rfl

theorem clean_tick {s : ViewState} (isSource : s.log 0 = source timestamp) (start : s.startOffset 0 = r.offset)
    (read : ((source timestamp).log.view (nothingFails.reader 0)).read r.offset 1 = .ok ⟨[r], 2⟩)
    (calculable : Calculable display orders (below text orders s 0 r.offset ++ [messageRow text orders 0 r]))
    (apart : Sql.Apart display (.tumble 1000) [] (below text orders s 0 r.offset ++ [messageRow text orders 0 r]) (isNew s)) :
    Clean display text orders s (.tick nothingFails) := by
  intro _ _ messages offsets given
  have partitions : List.range orders.partitionCount.toNat = [0] := rfl
  rw [partitions, read_record isSource start read] at given
  obtain ⟨rfl, rfl⟩ := mk.inj (Except.ok.inj given)
  have all : available text orders s nothingFails = below text orders s 0 r.offset ++ [messageRow text orders 0 r] := by
    rw [available, partitions, flatMap_singleton, reads, read_one isSource start read, start]
    rfl
  rw [all]
  refine ⟨fun msg inside => calculable msg (mem_append_right _ inside), calculable, ?_⟩
  intro rows rowsOf
  obtain rfl := some.inj ((aggregated r).symm.trans rowsOf)
  exact ⟨(by decide : 1 ≤ 2), (fun lost inside => absurd inside not_mem_nil), apart⟩

theorem clean_first (timestamp : Nat) : Clean display text orders (fresh timestamp) (.tick nothingFails) := by
  apply clean_tick (r := first) rfl rfl (read_first timestamp)
  · intro m inside
    obtain rfl := mem_singleton.mp inside
    decide
  intro m inM n inN old new
  rw [isNew, decide_eq_false_iff_not] at old
  exact absurd (Nat.zero_le _) old

theorem clean_second : Clean display text orders (written (fresh 1100) [row first] [(0, 1)]) (.tick nothingFails) := by
  have messages : below text orders (written (fresh 1100) [row first] [(0, 1)]) 0 1 ++ [messageRow text orders 0 (second 1100)] =
    [messageRow text orders 0 first, messageRow text orders 0 (second 1100)] := rfl
  apply clean_tick (r := second 1100) rfl rfl (read_second 1100)
  · change Calculable _ _ (below text orders (written (fresh 1100) [row first] [(0, 1)]) 0 1 ++ _)
    rw [messages]
    intro m inside
    simp only [mem_cons, not_mem_nil, or_false] at inside
    obtain rfl | rfl := inside
    · decide
    · decide
  change Sql.Apart _ _ _ (below text orders (written (fresh 1100) [row first] [(0, 1)]) 0 1 ++ _) _
  rw [messages]
  intro m inM n inN old new same
  have starts := (windowKey_inj.mp same).1
  simp only [mem_cons, not_mem_nil, or_false] at inM inN
  obtain rfl | rfl := inM
  · obtain rfl | rfl := inN
    · rw [old] at new
      cases new
    · exact absurd starts (by decide)
  · cases old

end Example

open Views.Example

/-- Records of different seconds are counted apart. -/
theorem two_seconds_recomputed : Meets (step display text orders) (Clean display text orders)
      (fresh 1100) [.tick nothingFails, .tick nothingFails] ∧
    Recomputed display text orders
      (run (step display text orders) (fresh 1100) [.tick nothingFails, .tick nothingFails]) := by
  have clean : Meets (step display text orders) (Clean display text orders)
      (fresh 1100) [.tick nothingFails, .tick nothingFails] := by
    refine ⟨clean_first 1100, ?_, trivial⟩
    rw [first_tick]
    exact clean_second
  exact ⟨clean, view_recomputed clean⟩

/-- Two records of one second that are read by two ticks are counted as one. -/
theorem view_loses_counts : ¬ ∀ (display : Json → String) (text : Bytes → Text) (view : View) (log : Nat → SourceLog) (events : List ViewEvent),
    Recomputed display text view (run (step display text view) (start log) events) := by
  intro always
  obtain ⟨rows, recomputed, table⟩ := always display text orders (fun _ => source 101)
    [.tick nothingFails, .tick nothingFails]
  have caughtUp : run (step display text orders) (start fun _ => source 101)
      [.tick nothingFails, .tick nothingFails] = caughtUp 101 := two_ticks 101
  rw [caughtUp] at recomputed table
  rw [consumed_caughtUp, applyFilters_eq, computeViewAggregations_eq] at recomputed
  obtain ⟨groups, grouped, rfl⟩ := map_eq_some_iff.mp recomputed
  obtain ⟨ascending, shaped⟩ := groups_spec grouped
  have key : Shaped [] (windowKey 0 1000 none) := iff_of_true rfl rfl
  have row := congrFun table (rowKey (windowKey 0 1000 none))
  have both : OrderedMap.get groups (windowKey 0 1000 none) = some [messageRow text orders 0 first,
      messageRow text orders 0 (second 101)] := by
    rw [get_tumble display grouped]
    rfl
  have recomputedRow := upserted_rowKey ascending shaped key (fun _ => none)
  rw [both] at recomputedRow
  change _ = upserted (fun _ => none) _ _ at row
  rw [recomputedRow] at row
  have counts : some (lengthJson 1) = some (lengthJson 2) :=
    congrArg (fun data : Option MaterializedViewData => data.bind fun data => data.aggValues.head?.map snd) row
  simp [lengthJson] at counts

end StreamHouse.Server.Views
