import StreamHouse.Sql.Windows
import StreamHouse.Storage.StoredLog

/-!
# Maintenance of materialized views

`process_single_view`: the messages behind the stored offsets are read, filtered and aggregated
by window, the rows are upserted under their keys, and then the offsets are stored.
-/

namespace StreamHouse.Server.Views

open Metadata Storage Sql Lib

/-! ## The filters of the maintenance task -/

/-- The parts of a path: a leading `$.` is stripped once, and empty parts count. -/
def pathParts (path : String) : List String :=
  let chars := path.toList
  let stripped := if ['$', '.'].isPrefixOf chars then chars.drop 2 else chars
  (stripped.splitOn '.').map String.ofList

def extractJsonPath (json : Json) (path : String) : Json := (pathParts path).foldl extractPart json

def compareJsonValues : Json → Json → Option Ordering
  | .number a, .number b => some (cmp a.asF64.value b.asF64.value)
  | .string a, .string b => some (cmp a b)
  | _, _ => none

def testJson (msg : MessageRow) (path : String) (test : Json → Bool) : Bool :=
  match msg.value.json with
  | some json => test (extractJsonPath json path)
  | none => false

def matchesFilter (msg : MessageRow) : Filter → Bool
  | .keyEquals key => (msg.key.map fun k => decide (k.chars = key)).getD false
  | .partitionEquals p => msg.partition = p
  | .offsetGte o => o ≤ msg.offset
  | .offsetLt o => msg.offset < o
  | .offsetEquals o => msg.offset = o
  | .timestampGte ts => ts ≤ msg.timestamp
  | .timestampLt ts => msg.timestamp < ts
  | .jsonEquals path value => testJson msg path fun extracted => extracted.same value
  | .jsonGt path value => testJson msg path fun extracted => compareJsonValues extracted value = some .gt
  | .jsonLt path value => testJson msg path fun extracted => compareJsonValues extracted value = some .lt

def matchesFilters (filters : List Filter) (msg : MessageRow) : Bool := filters.all (matchesFilter msg)

def applyFilters (messages : List MessageRow) (filters : List Filter) : List MessageRow :=
  if filters = [] then messages else messages.filter (matchesFilters filters)

/-! ## The rows of a view -/

def getAggregationName (agg : WindowAggregation) (index : Nat) : String :=
  match agg with
  | .count name => name.getD s!"count_{index}"
  | .countDistinct _ name => name.getD s!"count_distinct_{index}"
  | .sum _ name => name.getD s!"sum_{index}"
  | .avg _ name => name.getD s!"avg_{index}"
  | .min _ name => name.getD s!"min_{index}"
  | .max _ name => name.getD s!"max_{index}"
  | .first _ name => name.getD s!"first_{index}"
  | .last _ name => name.getD s!"last_{index}"

/-- A row of `materialized_view_data`, without the view's id and the time of the update. -/
structure MaterializedViewData where
  aggKey : String
  aggValues : List (String × Json)
  windowStart : Int
  windowEnd : Int

/-- `{group_key}:{window_start}:{window_end}`, where no group is `_`. -/
def aggKey (groupKey : Option String) (windowStart windowEnd : Int) : String :=
  groupKey.getD "_" ++ ":" ++ toString windowStart ++ ":" ++ toString windowEnd

/-- The values of one window; of two aggregations with one name the later stays. -/
def aggValues (aggregations : List WindowAggregation) (messages : List MessageRow) : List (String × Json) :=
  aggregations.zipIdx.foldl
    (fun values (agg, i) => OrderedMap.insert (getAggregationName agg i) (computeAggregation agg messages) values) []

/-- The query of a view with a window. -/
structure CreateMaterializedViewQuery where
  window : WindowType
  aggregations : List WindowAggregation
  groupBy : List String
  filters : List Filter

def viewData (query : CreateMaterializedViewQuery) (entry : WindowKey × List MessageRow) : MaterializedViewData where
  aggKey := aggKey (ofLex (ofLex entry.1).2).2 (ofLex entry.1).1 (ofLex (ofLex entry.1).2).1
  aggValues := aggValues query.aggregations entry.2
  windowStart := (ofLex entry.1).1
  windowEnd := (ofLex (ofLex entry.1).2).1

-- `to_string` of a JSON value
variable (display : Json → String)

/-- Nothing comes of a grouping that panics or does not end. -/
def computeViewAggregations (query : CreateMaterializedViewQuery) (messages : List MessageRow) : Option (List MaterializedViewData) :=
  if messages = [] then some []
  else (groupIntoWindows display query.window messages query.groupBy).map (List.map (viewData query))

/-! ## The state of a view -/

/-- What a partition has; the offset behind each record is a `u64`. -/
structure SourceLog where
  log : StoredLog
  fits : ∀ r ∈ log.records, r.offset + 1 < 2 ^ 64

/-- A view and the configuration of the task. -/
structure View where
  sourceTopic : String
  partitionCount : BitVec 32
  maxRecordsPerTick : Nat
  query : CreateMaterializedViewQuery

/-- The contents of the source topic, `materialized_view_offsets` and `materialized_view_data`. -/
structure ViewState where
  log : Nat → SourceLog
  lastOffset : Nat → Option Nat
  data : String → Option MaterializedViewData

/-- What a tick meets. -/
structure TickConditions where
  /-- What fails before the first read: the topic, the query or the offsets. -/
  prepare : Option MetadataError
  reader : Nat → ReadFaults
  /-- The order in which the map of new offsets is gone through. -/
  order : List (Nat × Nat) → List (Nat × Nat)
  reordered : ∀ offsets, (order offsets).Perm offsets
  /-- How many of the upserts and updates succeed before one fails. -/
  writes : Nat

inductive MaintenanceError where
  | metadata (e : MetadataError)
  | storage (e : ReadError)

inductive ViewEffect where
  | upsertData (data : MaterializedViewData)
  | updateOffset (partition offset : Nat)

namespace ViewState

variable (s : ViewState)

def startOffset (partition : Nat) : Nat := (s.lastOffset partition).getD 0

def upsertData (data : MaterializedViewData) : ViewState :=
  { s with data := Function.update s.data data.aggKey (some data) }

def updateOffset (partition offset : Nat) : ViewState :=
  { s with lastOffset := Function.update s.lastOffset partition (some offset) }

def apply : ViewEffect → ViewState
  | .upsertData data => s.upsertData data
  | .updateOffset partition offset => s.updateOffset partition offset

end ViewState

/-! ## One tick -/

-- the text of a key or a value, with the JSON that is read from it
variable (text : Bytes → Text) (view : View) (s : ViewState) (conditions : TickConditions)

def messageRow (partition : Nat) (r : Record) : MessageRow where
  topic := view.sourceTopic
  partition := BitVec.ofNat 32 partition
  offset := BitVec.ofNat 64 r.offset
  key := r.key.map text
  value := text r.value
  timestamp := (BitVec.ofNat 64 r.timestamp).toInt

/-- The records behind the stored offset, and the offset behind the last of them. -/
def readPartitionMessages (partition : Nat) : Except ReadError (List Record × Nat) :=
  match ((s.log partition).log.view (conditions.reader partition)).read (s.startOffset partition) view.maxRecordsPerTick with
  | .ok result => .ok (result.records, (result.records.getLast?.map fun last => last.offset + 1).getD (s.startOffset partition))
  | .error e => .error e

/-- The loop over the partitions: `all_messages` and `new_offsets`. A partition without data at
its offset is skipped. -/
def readPartitions : List Nat → Except MaintenanceError (List MessageRow × List (Nat × Nat))
  | [] => .ok ([], [])
  | partition :: rest =>
    match readPartitionMessages view s conditions partition with
    | .ok (records, newOffset) =>
      (readPartitions rest).map fun (messages, offsets) =>
        if s.startOffset partition < newOffset then
          (records.map (messageRow text view partition) ++ messages, (partition, newOffset) :: offsets)
        else (messages, offsets)
    | .error (.offsetNotFound _) => readPartitions rest
    | .error e => .error (.storage e)

/-- What a tick writes, in its order, if nothing fails. -/
def viewEffects : List ViewEffect :=
  match conditions.prepare, readPartitions text view s conditions (List.range view.partitionCount.toNat) with
  | none, .ok (messages, offsets) =>
    if messages = [] then []
    else
      match computeViewAggregations display view.query (applyFilters messages view.query.filters) with
      | some rows =>
        rows.map .upsertData ++ (conditions.order offsets).map fun (partition, offset) => .updateOffset partition offset
      | none => []
  | _, _ => []

/-- `process_single_view`. -/
def processSingleView : ViewState := ((viewEffects display text view s conditions).take conditions.writes).foldl ViewState.apply s

/-! ## Runs -/

/-- Ticks, and in between what is written to the source topic. -/
inductive ViewEvent where
  | tick (conditions : TickConditions)
  | store (partition : Nat) (log : SourceLog)

/-- A log that does not go on from the old one is not a stream's. -/
def step (s : ViewState) : ViewEvent → ViewState
  | .tick conditions => processSingleView display text view s conditions
  | .store partition log =>
    if (s.log partition).log.records <+: log.log.records then { s with log := Function.update s.log partition log } else s

/-- A new view. -/
def ViewState.start (log : Nat → SourceLog) : ViewState := ⟨log, fun _ => none, fun _ => none⟩

/-! ## Recomputation -/

/-- The messages of a partition below an offset. -/
def below (partition offset : Nat) : List MessageRow :=
  ((s.log partition).log.records.filter fun r => r.offset < offset).map (messageRow text view partition)

/-- All messages below the stored offsets. -/
def consumed : List MessageRow :=
  (List.range view.partitionCount.toNat).flatMap fun partition => below text view s partition (s.startOffset partition)

/-- The table of a view that has the rows. -/
def stored (rows : List MaterializedViewData) : String → Option MaterializedViewData :=
  rows.foldl (fun data row => Function.update data row.aggKey (some row)) fun _ => none

/-- The data of the view is the aggregation of all messages below the stored offsets at once. -/
def Recomputed : Prop :=
  ∃ rows, computeViewAggregations display view.query (applyFilters (consumed text view s) view.query.filters) = some rows ∧
    s.data = stored rows

end StreamHouse.Server.Views
