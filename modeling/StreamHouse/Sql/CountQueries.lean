import StreamHouse.Server.StoredCounts
import StreamHouse.Sql.StoredMessages
import StreamHouse.Storage.SegmentRoundTrip

/-!
# COUNT(*)

A COUNT(*) whose filters only name partitions adds up high watermarks. They are the numbers of
records for as long as no offset was left out and no record has gone. Of several filters only the
first is looked at.
-/

namespace StreamHouse.Sql

open Lib Metadata Storage Server List Function TopicWorld Storage.Example Metadata.Catalog Except

/-- How many stored messages pass the filters. -/
def storedCount (x : Externals) (e : SqlExecutor) (s : SqlSystem) (q : CountQuery) (topic : Topic) : Nat :=
  ((storedMessages x e s q.topic topic).filter fun msg => msg.matchesFilters q.filters).length

/-- The query with one more filter, which everything passes and which is not about a partition. -/
def CountQuery.scanning (q : CountQuery) : CountQuery := { q with filters := q.filters ++ [.offsetGte 0] }

/-- A SELECT of what is counted. -/
def CountQuery.select (q : CountQuery) : SelectQuery where
  topic := q.topic
  filters := q.filters
  others := q.others
  statFilters := []
  toRow := fun _ _ _ => []
  columnNames := none
  orderBy := none
  limit := none
  offset := none

/-- The number of stored messages that pass, and what a scan counts. -/
structure CountsStored (x : Externals) (e : SqlExecutor) (call : Call) (s : SqlSystem) (q : CountQuery) (topic : Topic) : Prop where
  fast : (executeCount x e call s q).run' 0 = .ok [[lengthJson (storedCount x e s q topic)]]
  slow : (∀ p, ∀ info ∈ registered e s q.topic p, ∃ segment, readSegment x s info = .ok segment) →
    (executeCount x e call s q.scanning).run' 0 = .ok [[lengthJson (storedCount x e s q topic)]]

/-- What the executor finds of a topic is what its writers and the compactor have made of it. -/
structure Serves (x : Externals) (e : SqlExecutor) (s : SqlSystem) (name : String) (topic : Topic) {n : Nat} (t : TopicWorld n) : Prop where
  found : s.catalog.getTopicForOrg e.org name = some topic
  counted : topic.partitionCount = n ∧ n < 2 ^ 32
  segments : s.catalog.segments = t.shared.metadata
  messages : ∀ id, ∀ info ∈ t.shared.metadata.rows ⟨e.org, name, id⟩,
    segmentMessages x s info = (contents t.shared info).map (recordMessage x info)
  fits : ∀ k, ∀ high ∈ t.shared.metadata.highWatermark k, high < 2 ^ 64

/-- The filters do not name two partitions, or the first that they name is empty. -/
def OnePartition (e : SqlExecutor) (s : SqlSystem) (q : CountQuery) : Prop :=
  (∀ p p', .partitionEquals p ∈ q.filters → .partitionEquals p' ∈ q.filters → p = p') ∨
    ∃ p, partitionFilter q.filters = some p ∧ watermark e s q.topic p = 0

variable {x : Externals} {e : SqlExecutor} {call : Call} {s : SqlSystem} {q : CountQuery} {topic : Topic} {n : Nat} {t : TopicWorld n}

/-! ## What is stored -/

/-- The messages of a partition. -/
def partitionMessages (x : Externals) (e : SqlExecutor) (s : SqlSystem) (name : String) (p : BitVec 32) : List MessageRow :=
  (registered e s name p).flatMap (segmentMessages x s)

section Serves

variable {name : String}

theorem Serves.mem_registered (serves : Serves x e s name topic t) {p : BitVec 32} {info : SegmentInfo} :
    info ∈ registered e s name p ↔ info ∈ t.shared.metadata.rows ⟨e.org, name, p.toNat⟩ := by
  unfold registered getSegments
  rw [serves.segments]
  exact SegmentStore.mem_getSegments

theorem Serves.kept (serves : Serves x e s name topic t) (inv : t.Inv e.org name) : KeptPartitions x e s name topic := by
  obtain ⟨count, small⟩ := serves.counted
  refine ⟨by rw [count]; exact small, fun p info inside => ?_, fun p info inside msg isMessage => ?_⟩
  · have row := serves.mem_registered.mp inside
    by_contra beyond
    rw [(inv.beyond p.toNat (by omega)).1] at row
    cases row
  · have row := serves.mem_registered.mp inside
    rw [serves.messages _ info row] at isMessage
    obtain ⟨record, -, rfl⟩ := mem_map.mp isMessage
    obtain ⟨r, -, own, rfl⟩ := SegmentStore.mem_rows.mp row
    have id : r.info.partitionId = p.toNat := congrArg PartitionKey.partitionId own
    change BitVec.ofNat 32 r.info.partitionId = p
    rw [id]
    exact BitVec.eq_of_toNat_eq (by rw [BitVec.toNat_ofNat, Nat.mod_eq_of_lt p.isLt])

theorem Serves.partitionMessages_length (serves : Serves x e s name topic t) (p : BitVec 32) :
    (partitionMessages x e s name p).length = (readable ⟨e.org, name, p.toNat⟩ t.shared).length := by
  have sorted : (registered e s name p).Perm (t.shared.metadata.rows ⟨e.org, name, p.toNat⟩) := by
    unfold registered getSegments
    rw [serves.segments]
    exact perm_insertionSort _ _
  unfold partitionMessages readable
  rw [(sorted.flatMap_right _).length_eq]
  have each : ∀ info ∈ t.shared.metadata.rows ⟨e.org, name, p.toNat⟩, (segmentMessages x s info).length = (contents t.shared info).length := by
    intro info row
    rw [serves.messages _ info row, length_map]
  rw [length_flatMap, length_flatMap, map_congr_left each]

/-- The watermark of a partition is how many messages it has. -/
theorem Serves.watermark_eq (serves : Serves x e s name topic t) (inv : t.Inv e.org name) (p : BitVec 32) :
    watermark e s name p = (partitionMessages x e s name p).length := by
  rw [serves.partitionMessages_length]
  unfold watermark getPartition
  rw [serves.segments]
  change (Option.map Partition.highWatermark (Option.map _ (t.shared.metadata.highWatermark ⟨e.org, name, p.toNat⟩))).getD 0 = _
  by_cases within : p.toNat < n
  · rw [inv.full ⟨p.toNat, within⟩]
    rfl
  · obtain ⟨rows, none⟩ := inv.beyond p.toNat (by omega)
    rw [none, readable, rows]
    rfl

end Serves

/-- An object that a segment writer has written has the messages of its records. -/
theorem segmentMessages_of_written (x : Externals) (s : SqlSystem) (info : SegmentInfo) {compression : Compression} {blockSizeTarget : Nat}
    {rs : List Record} {w : SegmentWriter} {bytes : Bytes} (undoes : ∀ block, x.packages.decompressSizePrepended (x.packages.compressPrependSize block) = .ok block)
    (supported : compression ≠ .zstd) (nonempty : rs ≠ []) (fits : ∀ r ∈ rs, r.Fits) (few : rs.length < 2 ^ 32)
    (appended : appendAll x.packages blockSizeTarget (.new compression) rs = .ok w) (finished : w.finish x.packages = .ok bytes)
    (size : bytes.length < 2 ^ 64) (fetched : fetchSegment s info = .ok bytes) :
    segmentMessages x s info = (rs.map Record.stored).map (recordMessage x info) := by
  obtain ⟨w', flushed, bytes', reader, again, -, written, opened, all, -⟩ :=
    finished_reads undoes supported blockSizeTarget nonempty fits few fun v bytes' appended' finished' => by
      obtain rfl := ok.inj (appended.symm.trans appended')
      obtain rfl := ok.inj (finished.symm.trans finished')
      exact size
  obtain rfl := ok.inj (appended.symm.trans again)
  obtain rfl := ok.inj (finished.symm.trans written)
  unfold segmentMessages readSegment
  rw [fetched]
  unfold Except.bind decodeSegment
  dsimp only
  rw [opened]
  dsimp only
  rw [all]
  rfl

/-! ## The two ways to count -/

theorem executeCount_fast (found : s.catalog.getTopicForOrg e.org q.topic = some topic) (only : onlyPartitionFilter q = true) :
    (executeCount x e call s q).run' 0 = .ok [[lengthJson ((partitionsOf q.filters topic).map (watermark e s q.topic)).sum]] := by
  unfold executeCount findTopic
  rw [found]
  change (StateT.run' (m := Except ExecuteError) (if onlyPartitionFilter q then _ else _) 0) = _
  rw [if_pos only]
  rfl

theorem executeCount_scan (x : Externals) (call : Call) (found : s.catalog.getTopicForOrg e.org q.topic = some topic) (scans : onlyPartitionFilter q = false) :
    (executeCount x e call s q).run' 0 =
      ((loadMatching x e call s q.topic q.filters q.others topic).run' 0).map fun messages => [[lengthJson messages.length]] := by
  unfold executeCount findTopic
  rw [found, scans]
  change Except.map Prod.fst (Except.bind _ _) = Except.map _ (Except.map Prod.fst _)
  cases loadMatching x e call s q.topic q.filters q.others topic 0 with
  | error error => rfl
  | ok loaded => rfl

section

variable (only : onlyPartitionFilter q = true)
include only

theorem CountQuery.others_of_only : q.others = [] :=
  List.isEmpty_iff.mp (Bool.and_eq_true_iff.mp only).1

theorem filter_of_only {filter : Filter} (inside : filter ∈ q.filters) :
    ∃ p, filter = .partitionEquals p := by
  have is := all_eq_true.mp (Bool.and_eq_true_iff.mp only).2 filter inside
  cases filter with
  | partitionEquals p => exact ⟨p, rfl⟩
  | _ => cases is

/-- A message passes if all filters name its partition. -/
theorem matches_iff {msg : MessageRow} :
    msg.matchesFilters q.filters = true ↔ ∀ p, .partitionEquals p ∈ q.filters → msg.partition = p := by
  unfold MessageRow.matchesFilters
  rw [all_eq_true]
  constructor
  · intro all p inside
    exact of_decide_eq_true (all _ inside)
  · intro all filter inside
    obtain ⟨p, rfl⟩ := filter_of_only only inside
    exact decide_eq_true (all p inside)

theorem select_passes (msg : MessageRow) : q.select.passes msg = msg.matchesFilters q.filters := by
  unfold SelectQuery.passes
  change (msg.matchesFilters q.filters && q.others.all fun other => other msg) = _
  rw [CountQuery.others_of_only only]
  exact Bool.and_true _

theorem passing_eq_filter (p : BitVec 32) :
    passing x e s q.select p = (partitionMessages x e s q.topic p).filter fun msg => msg.matchesFilters q.filters := by
  unfold passing partitionMessages
  rw [List.filter_flatMap]
  apply flatMap_congr
  intro info _
  exact filter_congr fun msg _ => select_passes only msg


end
/-- What is counted is in the partitions that are scanned. -/
theorem storedCount_eq (kept : KeptPartitions x e s q.topic topic) (only : onlyPartitionFilter q = true) :
    storedCount x e s q topic = ((partitionsOf q.filters topic).flatMap fun p =>
      (partitionMessages x e s q.topic p).filter fun msg => msg.matchesFilters q.filters).length := by
  have all := passing_partitions (q := q.select) kept
  unfold storedCount
  rw [← filter_congr fun msg _ => select_passes only msg]
  exact (congrArg List.length all.symm).trans (congrArg List.length (flatMap_congr fun p _ => passing_eq_filter only p))

theorem partition_of_mem (kept : KeptPartitions x e s q.topic topic) {p : BitVec 32} {msg : MessageRow}
    (inside : msg ∈ partitionMessages x e s q.topic p) : msg.partition = p := by
  obtain ⟨info, row, isMessage⟩ := mem_flatMap.mp inside
  exact kept.placed p info row msg isMessage

/-- All messages of a partition pass, or none does. -/
theorem filter_eq (kept : KeptPartitions x e s q.topic topic) (only : onlyPartitionFilter q = true) (p : BitVec 32) :
    ((∀ p', .partitionEquals p' ∈ q.filters → p = p') →
      (partitionMessages x e s q.topic p).filter (fun msg => msg.matchesFilters q.filters) = partitionMessages x e s q.topic p) ∧
    ((¬ ∀ p', .partitionEquals p' ∈ q.filters → p = p') →
      (partitionMessages x e s q.topic p).filter (fun msg => msg.matchesFilters q.filters) = []) := by
  constructor
  · intro named
    apply filter_eq_self.mpr
    intro msg inside
    rw [matches_iff only, partition_of_mem kept inside]
    exact named
  · intro other
    apply filter_eq_nil_iff.mpr
    intro msg inside passes
    rw [matches_iff only, partition_of_mem kept inside] at passes
    exact other passes

theorem sum_watermarks (marks : ∀ p, watermark e s q.topic p = (partitionMessages x e s q.topic p).length) (partitions : List (BitVec 32)) :
    (partitions.map (watermark e s q.topic)).sum = (partitions.flatMap (partitionMessages x e s q.topic)).length := by
  rw [length_flatMap, map_congr_left fun p _ => marks p]

/-- Filters of which none names a partition are none. -/
theorem filters_of_none (only : onlyPartitionFilter q = true) (first : partitionFilter q.filters = none) :
    q.filters = [] := by
  cases filters : q.filters with
  | nil => rfl
  | cons filter rest =>
    have inside : filter ∈ q.filters := by
      rw [filters]
      exact mem_cons_self
    obtain ⟨p, rfl⟩ := filter_of_only only inside
    have none := findSome?_eq_none_iff.mp first _ inside
    cases none

/-- Where every watermark is how many messages there are, the sum is right if one partition is named. -/
theorem sum_eq_iff (kept : KeptPartitions x e s q.topic topic) (only : onlyPartitionFilter q = true)
    (marks : ∀ p, watermark e s q.topic p = (partitionMessages x e s q.topic p).length) :
    ((partitionsOf q.filters topic).map (watermark e s q.topic)).sum = storedCount x e s q topic ↔ OnePartition e s q := by
  rw [storedCount_eq kept only]
  cases first : partitionFilter q.filters with
  | none =>
    have noFilter (p : BitVec 32) : .partitionEquals p ∉ q.filters := by
      rw [filters_of_none only first]
      exact not_mem_nil
    refine iff_of_true ?_ (Or.inl fun p p' inside => absurd inside (noFilter p))
    rw [sum_watermarks marks]
    exact congrArg List.length (flatMap_congr fun p _ => ((filter_eq kept only p).1 fun p' inside => absurd inside (noFilter p')).symm)
  | some p =>
    have one : partitionsOf q.filters topic = [p] := by
      unfold partitionsOf queryPartitions
      rw [first]
    have names : .partitionEquals p ∈ q.filters := by
      obtain ⟨filter, inside, selected⟩ := exists_of_findSome?_eq_some first
      obtain ⟨p', rfl⟩ := filter_of_only only inside
      obtain rfl := Option.some.inj selected
      exact inside
    rw [one, flatMap_singleton, map_singleton, sum_singleton, marks]
    by_cases named : ∀ p', .partitionEquals p' ∈ q.filters → p = p'
    · rw [(filter_eq kept only p).1 named]
      exact iff_of_true rfl (Or.inl fun a b isA isB => (named a isA).symm.trans (named b isB))
    · rw [(filter_eq kept only p).2 named, length_nil, ← marks]
      constructor
      · exact fun empty => Or.inr ⟨p, first, empty⟩
      · rintro (same | ⟨p', isFirst, empty⟩)
        · exact absurd (fun p' inside => same p p' names inside) named
        · obtain rfl := Option.some.inj (first.symm.trans isFirst)
          exact empty

theorem executeCount_slow (kept : KeptPartitions x e s q.topic topic) (found : s.catalog.getTopicForOrg e.org q.topic = some topic)
    (only : onlyPartitionFilter q = true) (inTime : ∀ asked, call.elapsed asked ≤ call.timeoutMs)
    (readable : ∀ p, ∀ info ∈ registered e s q.topic p, ∃ segment, readSegment x s info = .ok segment) :
    (executeCount x e call s q.scanning).run' 0 = .ok [[lengthJson (storedCount x e s q topic)]] := by
  have all := passing_partitions (q := q.scanning.select) kept
  have loads : (loadMatching x e call s q.topic q.scanning.filters q.scanning.others topic).run' 0 =
      .ok ((partitionsOf q.scanning.filters topic).flatMap (passing x e s q.scanning.select)) :=
    forPartitions_ok inTime fun p _ loaded asked => readSegments_ok _ (readable p) loaded asked
  have passes (msg : MessageRow) : q.scanning.select.passes msg = msg.matchesFilters q.filters := by
    unfold SelectQuery.passes
    change ((q.filters ++ [Filter.offsetGte 0]).all msg.matchesFilter && q.others.all fun other => other msg) = _
    have always : msg.matchesFilter (.offsetGte 0) = true := by
      change decide ((0 : BitVec 64) ≤ msg.offset) = true
      rw [decide_eq_true_iff, BitVec.le_def]
      exact Nat.zero_le _
    rw [CountQuery.others_of_only only, all_append, all_cons, always]
    exact (Bool.and_true _).trans (Bool.and_true _)
  have scans : onlyPartitionFilter q.scanning = false := by
    unfold onlyPartitionFilter
    change (_ && (q.filters ++ [Filter.offsetGte 0]).all _) = false
    rw [all_append]
    simp
  have count := filter_congr (l := storedMessages x e s q.topic topic) fun msg _ => passes msg
  rw [executeCount_scan x call (q := q.scanning) found scans]
  change Except.map _ ((loadMatching x e call s q.topic q.scanning.filters q.scanning.others topic).run' 0) = _
  rw [loads]
  change Except.map _ (Except.ok ((partitionsOf q.scanning.select.filters topic).flatMap _)) = _
  rw [all]
  exact congrArg (fun messages : List MessageRow => ok [[lengthJson messages.length]]) count

/-- No more pass than there are. -/
theorem storedCount_le (kept : KeptPartitions x e s q.topic topic) (only : onlyPartitionFilter q = true)
    (marks : ∀ p, watermark e s q.topic p = (partitionMessages x e s q.topic p).length) :
    storedCount x e s q topic ≤ ((partitionsOf q.filters topic).map (watermark e s q.topic)).sum := by
  rw [storedCount_eq kept only, sum_watermarks marks]
  exact (Sublist.flatMap_right _ fun p _ => filter_sublist).length_le

theorem watermark_lt {metadata : SegmentStore} (fits : ∀ k, ∀ high ∈ metadata.highWatermark k, high < 2 ^ 64)
    (segments : s.catalog.segments = metadata) (p : BitVec 32) : watermark e s q.topic p < 2 ^ 64 := by
  unfold watermark getPartition
  rw [segments]
  cases high : metadata.highWatermark (partitionKey e q.topic p) with
  | none => exact Nat.two_pow_pos 64
  | some high' => exact fits _ high' high

/-- **The count of the watermarks is the number of stored records, if and only if one partition is
named**, in every state that a sound run reaches. -/
theorem count_run_iff (cfg : CompactionConfig) (start : TopicWorld n) (acts : List (TopicAct n)) (fresh : start.Start e.org q.topic)
    (sound : Meets (step cfg) (Sound cfg) start acts)
    (serves : Serves x e s q.topic topic (run (step cfg) start acts)) (only : onlyPartitionFilter q = true)
    (inTime : ∀ asked, call.elapsed asked ≤ call.timeoutMs) : CountsStored x e call s q topic ↔ OnePartition e s q := by
  have inv := fresh.run sound
  have kept := serves.kept inv
  have marks := serves.watermark_eq inv
  have sum := sum_eq_iff kept only marks
  constructor
  · intro counts
    cases first : partitionFilter q.filters with
    | none =>
      left
      intro p p' inside
      rw [filters_of_none only first] at inside
      cases inside
    | some p =>
      have one : (partitionsOf q.filters topic).map (watermark e s q.topic) = [watermark e s q.topic p] := by
        unfold partitionsOf queryPartitions
        rw [first]
        rfl
      -- neither count wraps around
      have small : watermark e s q.topic p < 2 ^ 64 := watermark_lt serves.fits serves.segments p
      have less := storedCount_le kept only marks
      have fast := counts.fast
      rw [executeCount_fast serves.found only, ok.injEq, singleton_inj, singleton_inj, one, sum_singleton] at fast
      rw [one, sum_singleton] at sum less
      have words := JsonNumber.posInt.inj (Json.number.inj fast)
      have same := congrArg BitVec.toNat words
      rw [BitVec.toNat_ofNat, BitVec.toNat_ofNat, Nat.mod_eq_of_lt small, Nat.mod_eq_of_lt (by omega)] at same
      exact sum.mp same
  · intro one
    refine ⟨?_, executeCount_slow kept serves.found only inTime⟩
    rw [executeCount_fast serves.found only, sum.mpr one]

/-! ## A topic of one partition -/

namespace CountExample

/-- The topic `orders` of `acme`, which is new. -/
def start : TopicWorld 1 := ⟨fresh, fun _ => writer⟩

theorem start_fresh : start.Start "acme" "orders" where
  opened p := by
    obtain rfl : p = 0 := Subsingleton.elim _ _
    exact ⟨config, .org "acme", [], some ⟨[], [], true⟩, 0, rfl⟩
  empty _ := rfl
  fresh p := by
    obtain rfl : p = 0 := Subsingleton.elim _ _
    rfl
  beyond id outside := by
    have other : (⟨"acme", "orders", id⟩ : PartitionKey) ≠ Storage.Example.partition := by
      intro same
      have zero : id = 0 := congrArg PartitionKey.partitionId same
      omega
    exact update_of_ne other (some 0) fun _ => none

/-- A record is appended and flushed. -/
def produced : List (TopicAct 1) :=
  [.produce 0 (.append true 1500 none [1] 7), .produce 0 (.flushDurable (rollEnv true))]

/-- Retention comes by afterwards. -/
def retained : List (TopicAct 1) := produced ++ [.retain 0 1]

def compaction : CompactionConfig := ⟨100, 10, 100⟩

def externals : Externals where
  packages := packages
  fromUtf8Lossy := fun bytes => String.ofList (bytes.map fun b => Char.ofNat b.toNat)
  display := fun _ => ""
  parse := fun _ => none
  toLowercase := id
  iteration := ⟨id, fun table => .of_eq (Eq.refl table)⟩
  sortMessages := fun _ messages => some messages

def executor : SqlExecutor := ⟨false, some "acme"⟩

def quickCall : Call where
  timeoutMs := 30000
  elapsed := fun _ => 0
  monotone := fun _ _ _ => Nat.le_refl 0
  uuid := ""
  now := 0

def record : Record := ⟨0, 7, none, [1]⟩

/-- What the segment writer writes for the record. -/
def segmentBytes : Bytes :=
  (((appendAll packages 1048576 (.new .lz4) [record]).bind fun w => w.finish packages).toOption).getD []

/-- The system that serves a state of the topic. -/
def system (t : TopicWorld 1) : SqlSystem where
  catalog := {
    organizations := []
    quotas := []
    topics := [⟨"acme", "orders", 1, none, 0, []⟩]
    segments := t.shared.metadata
    consumerOffsets := [] }
  views := ViewTables.empty
  objects := fun key => if key = .segment (.org "acme") "orders" 0 0 then some segmentBytes else none
  cache := fun _ => none

def ordersTopic : Topic := (⟨"acme", "orders", 1, none, 0, []⟩ : TopicRow).topic

/-- `SELECT COUNT(*) FROM orders`. -/
def countOrders : CountQuery := ⟨"orders", [], []⟩

/-- The watermark behind the flush. -/
theorem highWatermark_produced (k : PartitionKey) :
    (run (step compaction) start produced).shared.metadata.highWatermark k = if k = Storage.Example.partition then some 1 else none := by
  have marks : (run (step compaction) start produced).shared.metadata.highWatermark =
      Function.update (Function.update (fun _ => none) Storage.Example.partition (some 0)) Storage.Example.partition (some 1) := rfl
  rw [marks]
  by_cases own : k = Storage.Example.partition
  · rw [own, if_pos rfl, update_self]
  · rw [if_neg own, update_of_ne own, update_of_ne own]

theorem fits_produced (k : PartitionKey) :
    ∀ high ∈ (run (step compaction) start produced).shared.metadata.highWatermark k, high < 2 ^ 64 := by
  intro high isHigh
  rw [highWatermark_produced] at isHigh
  split_ifs at isHigh
  · rw [← Option.some.inj isHigh]
    decide
  · cases isHigh

theorem serves_retained : Serves externals executor (system (run (step compaction) start retained)) "orders" ordersTopic
    (run (step compaction) start retained) where
  found := rfl
  counted := ⟨rfl, by decide⟩
  segments := rfl
  messages id info row := by cases row
  fits k := fits_produced k

theorem record_written : ∃ w bytes, appendAll packages 1048576 (.new .lz4) [record] = .ok w ∧
    w.finish packages = .ok bytes ∧ bytes = segmentBytes ∧ bytes.length < 2 ^ 64 := by
  have length : ((appendAll packages 1048576 (.new .lz4) [record]).bind fun w =>
      w.finish packages).map List.length = .ok 134 := by
    decide +kernel
  have is : segmentBytes = (((appendAll packages 1048576 (.new .lz4) [record]).bind fun w =>
      w.finish packages).toOption).getD [] := rfl
  cases appended : appendAll packages 1048576 (.new .lz4) [record] with
  | error e =>
    rw [appended] at length
    cases length
  | ok w =>
    rw [appended] at length is
    cases finished : w.finish packages with
    | error e =>
      simp only [Except.bind, finished] at length
      cases length
    | ok bytes =>
      simp only [Except.bind, finished, Except.map, Except.ok.injEq] at length is
      refine ⟨w, bytes, rfl, finished, is.symm, ?_⟩
      omega

/-- The row that the flush has registered. -/
def recordSegment : SegmentInfo :=
  ⟨.segment "orders" 0 0, "orders", 0, 0, 0, 1, 100, "streamhouse", .segment (.org "acme") "orders" 0 0, 1000, 7, 7⟩

theorem serves_produced : Serves externals executor (system (run (step compaction) start produced)) "orders" ordersTopic
    (run (step compaction) start produced) where
  found := rfl
  counted := ⟨rfl, by decide⟩
  segments := rfl
  messages id info row := by
    obtain ⟨r, inside, -, rfl⟩ := SegmentStore.mem_rows.mp row
    have rows : (run (step compaction) start produced).shared.metadata.segments = [⟨"acme", recordSegment⟩] := rfl
    rw [rows] at inside
    obtain rfl := mem_singleton.mp inside
    obtain ⟨w, bytes, appended, finished, same, size⟩ := record_written
    have fits : ∀ r ∈ [record], r.Fits := by
      intro r inside
      obtain rfl := mem_singleton.mp inside
      exact ⟨by decide, by decide, by decide, by decide⟩
    exact segmentMessages_of_written externals (system (run (step compaction) start produced)) recordSegment
      readLiterals_literals (by decide) (cons_ne_nil _ _) fits (by decide) appended finished size (by rw [same]; rfl)
  fits := fits_produced

end CountExample

open CountExample

theorem count_run_iff_one_record : CountsStored externals executor quickCall
    (system (run (step compaction) start produced))
    countOrders ordersTopic := by
  have sound : Meets (step compaction) (Sound compaction) start
      produced := by
    refine ⟨?_, ?_, trivial⟩
    · intro env rolls
      cases rolls
    · intro env _ _ last isLast high isHigh
      obtain rfl := Option.some.inj isLast
      obtain rfl := Option.some.inj isHigh
      rfl
  apply (count_run_iff (e := executor) (q := countOrders) compaction start
    produced start_fresh sound serves_produced rfl fun _ => Nat.zero_le _).mpr
  exact Or.inl fun p p' inside => absurd inside not_mem_nil

/-- Retention takes the record, and it is still counted. -/
theorem removed_record_counted : ¬ ∀ (n : Nat) (cfg : CompactionConfig) (start : TopicWorld n) (acts : List (TopicAct n)) (x : Externals)
    (e : SqlExecutor) (call : Call) (s : SqlSystem) (q : CountQuery) (topic : Topic), start.Start e.org q.topic →
      Serves x e s q.topic topic (run (step cfg) start acts) → onlyPartitionFilter q = true →
        (∀ asked, call.elapsed asked ≤ call.timeoutMs) → CountsStored x e call s q topic := by
  intro always
  have counts := always 1 compaction start retained externals executor
    quickCall _ countOrders ordersTopic start_fresh serves_retained rfl
    fun _ => Nat.zero_le _
  have fast := counts.fast
  have one : (executeCount externals executor quickCall
      (system (run (step compaction) start retained))
      countOrders).run' 0 = .ok [[lengthJson 1]] := rfl
  have none : storedCount externals executor
      (system (run (step compaction) start retained))
      countOrders ordersTopic = 0 := rfl
  rw [one, none, ok.injEq, singleton_inj, singleton_inj] at fast
  have words := JsonNumber.posInt.inj (Json.number.inj fast)
  revert words
  decide

end StreamHouse.Sql
