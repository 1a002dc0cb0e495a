import StreamHouse.Metadata.Catalog
import StreamHouse.Metadata.ViewTables
import StreamHouse.Sql.Arrow
import StreamHouse.Sql.Join
import StreamHouse.Storage.SegmentFormat

/-!
# The executor

`SqlExecutor::execute` over a whole system: the metadata store, the objects and the segment
cache. Topics are looked up in the organization of the executor, except by the Arrow executor;
materialized views are looked up by their names. A result is its rows: the columns are a function
of the statement, and the row count and the truncation flag of the rows.
-/

namespace StreamHouse.Sql

open Lib Metadata Storage

/-! ## Statements -/

/-- What a filter on statistics or vectors makes of a message where there are no statistics. -/
abbrev MessageFilter := MessageRow → Bool

structure SelectQuery where
  topic : String
  filters : List Filter
  /-- The vector filters. -/
  others : List MessageFilter
  /-- The filters on statistics, of all messages with the number and the message of a row. -/
  statFilters : List (List MessageRow → Nat → MessageRow → Bool)
  /-- The row that the columns make, of the same. -/
  toRow : List MessageRow → Nat → MessageRow → List Json
  /-- The names of the columns, and none where all are selected. -/
  columnNames : Option (List String)
  orderBy : Option OrderBy
  limit : Option Nat
  offset : Option Nat

structure CountQuery where
  topic : String
  filters : List Filter
  others : List MessageFilter

structure WindowAggregateQuery where
  topic : String
  window : WindowType
  aggregations : List WindowAggregation
  groupBy : List String
  filters : List Filter
  others : List MessageFilter
  limit : Option Nat

structure GroupByAggregateQuery where
  topic : String
  aggregations : List WindowAggregation
  groupBy : List String
  filters : List Filter
  others : List MessageFilter
  limit : Option Nat

inductive RefreshMode where
  | continuous
  | periodic (intervalMs : Int)
  | manual

structure CreateMaterializedViewQuery where
  name : String
  sourceTopic : String
  querySql : String
  refreshMode : RefreshMode
  orReplace : Bool

inductive SqlQuery where
  | select (q : SelectQuery)
  | showTopics
  | describeTopic (topic : String)
  | count (q : CountQuery)
  | windowAggregate (q : WindowAggregateQuery)
  | groupByAggregate (q : GroupByAggregateQuery)
  | join (q : JoinQuery)
  | createMaterializedView (q : CreateMaterializedViewQuery)
  | dropMaterializedView (name : String)
  | refreshMaterializedView (name : String)
  | showMaterializedViews
  | describeMaterializedView (name : String)

/-! ## The system and a call -/

structure SqlSystem where
  catalog : Metadata.Catalog
  views : ViewTables
  objects : S3Key → Option Bytes
  /-- `SegmentCache`; the organization of a call is a label of its metrics. -/
  cache : SegmentId → Option Bytes

structure SqlExecutor where
  useArrow : Bool
  orgId : Option String

/-- `self.org_id.as_deref().unwrap_or("")`. -/
def SqlExecutor.org (e : SqlExecutor) : String := e.orgId.getD ""

/-- What a call brings along: its timeout, the milliseconds that have passed when it asks for the
n-th time, the id that is drawn and the time of day. -/
structure Call where
  timeoutMs : Nat
  elapsed : Nat → Nat
  monotone : Monotone elapsed
  uuid : String
  now : Int

inductive ExecuteError where
  | topicNotFound (topic : String)
  | viewNotFound (name : String)
  | viewAlreadyExists (name : String)
  | timeout (ms : Nat)
  | storageError
  | metadataError
  /-- A panic, or a loop that does not end. -/
  | noAnswer

/-- What the code takes from other packages and the standard library. -/
structure Externals where
  packages : Packages
  fromUtf8Lossy : Bytes → String
  /-- `to_string` of a JSON value. -/
  display : Json → String
  /-- `serde_json::from_str`. -/
  parse : String → Option Json
  toLowercase : String → String
  iteration : TableOrder
  /-- `sort_by` of the messages by a column or a field of the value, nothing where it panics. -/
  sortMessages : OrderBy → List MessageRow → Option (List MessageRow)

abbrev Rows := List (List Json)

/-- A computation that counts how often it has asked for the time. -/
abbrev Timed := StateT Nat (Except ExecuteError)

variable (x : Externals) (e : SqlExecutor) (call : Call) (s : SqlSystem)

def checkTimeout : Timed Unit := fun asked =>
  if call.timeoutMs < call.elapsed asked then .error (.timeout call.timeoutMs) else .ok ((), asked + 1)

/-! ## Reading segments -/

/-- `str::lines`. -/
def lines (text : String) : List String :=
  let parts := text.toList.splitOn '\n'
  let ended := if parts.getLast? = some [] then parts.dropLast else parts
  ended.map fun line => String.ofList (if line.getLast? = some '\r' then line.dropLast else line)

def recordMessage (info : SegmentInfo) (record : Record) : MessageRow where
  topic := info.topic
  partition := BitVec.ofNat 32 info.partitionId
  offset := BitVec.ofNat 64 record.offset
  key := record.key.map fun key => textOf x.parse (x.fromUtf8Lossy key)
  value := textOf x.parse (x.fromUtf8Lossy record.value)
  timestamp := (BitVec.ofNat 64 record.timestamp).toInt

/-- The bytes as a segment, or else as lines of text. -/
def decodeSegment (info : SegmentInfo) (bytes : Bytes) : Except ExecuteError SegmentData :=
  match SegmentReader.new x.packages bytes with
  | .error .panicked => .error .noAnswer
  | .error (.error _) => .ok (.ndjson (lines (x.fromUtf8Lossy bytes)))
  | .ok reader =>
    match reader.readAll x.packages with
    | .error .panicked => .error .noAnswer
    | .error (.error _) => .ok (.binary [])
    | .ok records => .ok (.binary (records.map (recordMessage x info)))

/-- The cache is asked for the id, and then the object store for the key. -/
def fetchSegment (info : SegmentInfo) : Except ExecuteError Bytes :=
  match s.cache info.id with
  | some cached => .ok cached
  | none =>
    match s.objects info.s3Key with
    | some bytes => .ok bytes
    | none => .error .storageError

def readSegment (info : SegmentInfo) : Except ExecuteError TopicSegment :=
  (fetchSegment s info).bind fun bytes => (decodeSegment x info bytes).map fun data => {
    topic := info.topic
    partition := BitVec.ofNat 32 info.partitionId
    baseOffset := BitVec.ofNat 64 info.baseOffset
    endOffset := BitVec.ofNat 64 info.endOffset
    createdAt := info.createdAt
    data }

/-- `segment.end_offset < scan_start || segment.base_offset > scan_end`. -/
def outOfRange (filters : List Filter) (highWatermark : Nat) (info : SegmentInfo) : Bool :=
  let scanStart := ((Arrow.offsetStart filters).map BitVec.toNat).getD 0
  let scanEnd := ((Arrow.offsetEnd filters).map BitVec.toNat).getD highWatermark
  decide (info.endOffset < scanStart) || decide (scanEnd < info.baseOffset)

/-- The messages of the segments that `keep` keeps, behind those that are loaded. -/
def readSegments (keep : MessageRow → Bool) (segments : List SegmentInfo) (loaded : List MessageRow) : Timed (List MessageRow) :=
  segments.foldlM (fun loaded info => do
    let segment ← readSegment x s info
    pure (loaded ++ (readSegmentMessages x.display x.parse segment).filter keep)) loaded

def partitionKey (topic : String) (p : BitVec 32) : PartitionKey := ⟨e.org, topic, p.toNat⟩

/-- The loop over the partitions of a topic, with a look at the clock before each. -/
def forPartitions (partitions : List (BitVec 32)) (load : BitVec 32 → List MessageRow → Timed (List MessageRow)) : Timed (List MessageRow) :=
  partitions.foldlM (fun loaded p => do
    checkTimeout call
    load p loaded) []

def partitionsOf (filters : List Filter) (topic : Topic) : List (BitVec 32) :=
  queryPartitions filters (BitVec.ofNat 32 topic.partitionCount)

/-- `get_topic_for_org`, where no topic is an error. -/
def findTopic (name : String) : Except ExecuteError Topic :=
  match s.catalog.getTopicForOrg e.org name with
  | some topic => .ok topic
  | none => .error (.topicNotFound name)

/-- The messages of a topic that match the filters, read by partition and segment. -/
def loadMatching (name : String) (filters : List Filter) (others : List MessageFilter) (topic : Topic) : Timed (List MessageRow) :=
  forPartitions call (partitionsOf filters topic) fun p =>
    readSegments x s (fun msg => msg.matchesFilters filters && others.all fun other => other msg)
      (s.catalog.getSegments (partitionKey e name p))

/-! ## Statements on topics -/

/-- The rows of a SELECT: sorted, filtered by statistics, and from the offset up to the limit, which
is looked at behind a row. -/
def selectRows (q : SelectQuery) (loaded : List MessageRow) : Option Rows :=
  let sorted := match q.orderBy with
    | some orderBy => x.sortMessages orderBy loaded
    | none => some loaded
  sorted.map fun messages =>
    let passing := messages.zipIdx.filter fun (msg, i) => q.statFilters.all fun filter => filter loaded i msg
    ((passing.drop (q.offset.getD 0)).take (max 1 (min (q.limit.getD maxRows) maxRows))).map fun (msg, i) => q.toRow loaded i msg

/-- Rows that a panic takes away. -/
def answer : Option Rows → Timed Rows
  | some rows => pure rows
  | none => throw .noAnswer

/-- `parse_group_key_from_agg_key`: two numbers behind colons are taken off. -/
def parseGroupKeyFromAggKey (aggKey : String) : String :=
  match (aggKey.toList.splitOn ':').reverse with
  | last :: previous :: first :: rest =>
    if (parseI64 last).isSome ∧ (parseI64 previous).isSome then String.ofList (List.intercalate [':'] (first :: rest).reverse) else aggKey
  | _ => aggKey

/-- The rows of `execute_select_from_view`, of the rows that the view has. -/
def viewRows (q : SelectQuery) (view : MaterializedView) (data : List MaterializedViewData) : Rows :=
  match data with
  | [] => [[.string ("Materialized view '" ++ view.name ++ "' has no data yet")]]
  | head :: _ =>
    let aggColumns : List String := match head.aggValues with
      | .object fields => (fields.map Prod.fst).insertionSort fun a b => a ≤ b
      | _ => []
    let names := ["group_key", "window_start", "window_end"] ++ aggColumns
    let all := List.range names.length
    let chosen := match q.columnNames with
      | none => all
      | some columns =>
        let found := columns.filterMap fun column => if column ∈ names then some (names.idxOf column) else none
        if found = [] then all else found
    data.map fun r =>
      let full : List Json := [.string (parseGroupKeyFromAggKey r.aggKey), (r.windowStart.map i64Json).getD .null,
          (r.windowEnd.map i64Json).getD .null] ++
        aggColumns.map fun column => ((r.aggValues.get column).getD .null)
      chosen.map fun i => full.getD i .null

def executeSelectFromView (view : MaterializedView) (q : SelectQuery) : Rows :=
  viewRows q view (s.views.getMaterializedViewData view.id (some (min (q.limit.getD maxRows) maxRows)))

/-- The segments of a partition that a SELECT scans. -/
def selectPartition (q : SelectQuery) (p : BitVec 32) (loaded : List MessageRow) : Timed (List MessageRow) :=
  match s.catalog.getPartition (partitionKey e q.topic p) with
  | none => pure loaded
  | some partition =>
    readSegments x s (fun msg => msg.matchesFilters q.filters && q.others.all fun other => other msg)
      ((s.catalog.getSegments (partitionKey e q.topic p)).filter fun info => !outOfRange q.filters partition.highWatermark info) loaded

def executeSelect (q : SelectQuery) : Timed Rows :=
  match s.catalog.getTopicForOrg e.org q.topic with
  | some topic => do
    let loaded ← forPartitions call (partitionsOf q.filters topic) (selectPartition x e s q)
    answer (selectRows x q loaded)
  | none =>
    match s.views.getMaterializedView q.topic with
    | some view => pure (executeSelectFromView s view q)
    | none => throw (.topicNotFound q.topic)

def executeShowTopics : Rows :=
  let topics := match e.orgId with
    | some orgId => s.catalog.listTopicsForOrg orgId
    | none => s.catalog.listTopics
  topics.map fun topic => [.string topic.name, lengthJson topic.partitionCount]

/-- The high watermark, where no row is 0. -/
def watermark (name : String) (p : BitVec 32) : Nat :=
  ((s.catalog.getPartition (partitionKey e name p)).map Partition.highWatermark).getD 0

def executeDescribe (name : String) : Timed Rows := do
  let topic ← findTopic e s name
  let partitions := partitionsOf [] topic
  let rows := partitions.map fun p =>
    [lengthJson p.toNat, lengthJson (watermark e s name p), lengthJson (s.catalog.getSegments (partitionKey e name p)).length]
  pure (rows ++ [[.string ("TOTAL (" ++ toString topic.partitionCount ++ " partitions)"),
    lengthJson (partitions.map (watermark e s name)).sum, .string "-"]])

/-- The filters name partitions and nothing else. -/
def onlyPartitionFilter (q : CountQuery) : Bool :=
  q.others.isEmpty && q.filters.all fun filter =>
    match filter with
    | .partitionEquals _ => true
    | _ => false

def executeCount (q : CountQuery) : Timed Rows := do
  let topic ← findTopic e s q.topic
  if onlyPartitionFilter q then
    pure [[lengthJson ((partitionsOf q.filters topic).map (watermark e s q.topic)).sum]]
  else
    let loaded ← loadMatching x e call s q.topic q.filters q.others topic
    pure [[lengthJson loaded.length]]

/-- The rows of the windows without Arrow. -/
def windowRows (q : WindowAggregateQuery) (messages : List MessageRow) : Option Rows :=
  (groupIntoWindows x.display q.window (Sessions.sorted MessageRow.timestamp messages) q.groupBy).map fun windows =>
    (windows.map fun (key, windowMessages) =>
      let groupKey : Option String := (ofLex (ofLex key).2).2
      [i64Json (ofLex key).1, i64Json (ofLex (ofLex key).2).1] ++ (groupKey.map Json.string).toList ++
        q.aggregations.map fun agg => computeAggregation agg windowMessages).take (min (q.limit.getD maxRows) maxRows)

def executeWindowAggregateLegacy (q : WindowAggregateQuery) : Timed Rows := do
  let topic ← findTopic e s q.topic
  let messages ← loadMatching x e call s q.topic q.filters q.others topic
  answer (windowRows x q messages)

/-! ## The Arrow executor -/

/-- The loop over the segments, which ends when there are enough messages. -/
def arrowSegments (filters : List Filter) : List SegmentInfo → List MessageRow → Timed (List MessageRow)
  | [], loaded => pure loaded
  | info :: rest, loaded => do
    let segment ← readSegment x s info
    let more := loaded ++ Arrow.readSegmentMessages x.display x.parse filters segment
    if maxRows * 10 ≤ more.length then pure more else arrowSegments filters rest more

/-- The segments of a partition that the Arrow executor scans. -/
def arrowPartition (name : String) (filters : List Filter) (p : BitVec 32) (loaded : List MessageRow) : Timed (List MessageRow) :=
  match s.catalog.getPartition (partitionKey e name p) with
  | none => pure loaded
  | some partition =>
    arrowSegments x s filters
      ((s.catalog.getSegments (partitionKey e name p)).filter fun info => !outOfRange filters partition.highWatermark info) loaded

/-- `load_topic_messages` of the Arrow executor: the topic is looked up by its name. -/
def arrowMessages (name : String) (filters : List Filter) : Timed (List MessageRow) :=
  match s.catalog.getTopic name with
  | none => throw (.topicNotFound name)
  | some topic => forPartitions call (partitionsOf filters topic) (arrowPartition x e s name filters)

/-- The part of a query that is not about loading its messages. -/
def WindowAggregateQuery.aggregate (q : WindowAggregateQuery) : AggregateQuery := ⟨q.aggregations, q.groupBy, q.limit⟩

def GroupByAggregateQuery.aggregate (q : GroupByAggregateQuery) : AggregateQuery := ⟨q.aggregations, q.groupBy, q.limit⟩

def executeWindowAggregate (q : WindowAggregateQuery) : Timed Rows :=
  match e.useArrow, q.window with
  | true, .tumble size => do
    let messages ← arrowMessages x e call s q.topic q.filters
    answer (Arrow.tumbleRows x.display q.aggregate size messages)
  | _, _ => executeWindowAggregateLegacy x e call s q

def executeGroupByAggregate (q : GroupByAggregateQuery) : Timed Rows :=
  if e.useArrow then do
    let messages ← arrowMessages x e call s q.topic q.filters
    pure (Arrow.groupByRows x.display q.aggregate messages)
  else do
    let topic ← findTopic e s q.topic
    let messages ← loadMatching x e call s q.topic q.filters q.others topic
    pure (groupByRows x.display q.aggregate messages)

/-! ## Joins -/

/-- `load_topic_messages`. -/
def loadTopicMessages (name : String) : Timed (List MessageRow) := do
  let topic ← findTopic e s name
  loadMatching x e call s name [] [] topic

/-- The clock is looked at once more while the rows are projected, at each thousandth. -/
def executeJoinQuery (q : JoinQuery) : Timed Rows := do
  let _ ← findTopic e s q.left.topic
  let _ ← findTopic e s q.right.topic
  checkTimeout call
  let leftMessages ← loadTopicMessages x e call s q.left.topic
  checkTimeout call
  let rightMessages ← loadTopicMessages x e call s q.right.topic
  checkTimeout call
  let rows := executeJoin x.display x.toLowercase q x.iteration leftMessages rightMessages
  checkTimeout call
  ((List.range rows.length).filter fun i => i % 1000 = 0).forM fun _ => checkTimeout call
  pure rows

/-! ## Statements on materialized views -/

def convertRefreshMode : RefreshMode → MaterializedViewRefreshMode
  | .continuous => .continuous
  | .periodic intervalMs => .periodic intervalMs
  | .manual => .manual

def formatRefreshMode : MaterializedViewRefreshMode → String
  | .continuous => "continuous"
  | .periodic intervalMs => "periodic (" ++ toString intervalMs ++ "ms)"
  | .manual => "manual"

def formatStatus : MaterializedViewStatus → String
  | .initializing => "initializing"
  | .running => "running"
  | .paused => "paused"
  | .error => "error"

/-- The system behind a statement, with its result. -/
abbrev Executed := SqlSystem × Except ExecuteError Rows

/-- `id` of `create_materialized_view`. -/
def viewId (name : String) : String := "mv-" ++ name ++ "-" ++ call.uuid

def viewConfig (q : CreateMaterializedViewQuery) : CreateMaterializedView where
  name := q.name
  sourceTopic := q.sourceTopic
  querySql := q.querySql
  refreshMode := convertRefreshMode q.refreshMode
  organizationId := e.orgId

/-- The insertion of the view into the tables. -/
def insertView (q : CreateMaterializedViewQuery) (views : ViewTables) : Executed :=
  match views.create (viewId call q.name) (viewConfig e q) call.now with
  | some (inserted, view) =>
    ({ s with views := inserted }, .ok [[.string view.name, .string view.sourceTopic, .string (formatRefreshMode view.refreshMode),
      .string (formatStatus view.status)]])
  | none => ({ s with views }, .error .metadataError)

def executeCreateMaterializedView (q : CreateMaterializedViewQuery) : Executed :=
  match findTopic e s q.sourceTopic with
  | .error error => (s, .error error)
  | .ok _ =>
    match s.views.getMaterializedView q.name with
    | some existing =>
      if q.orReplace then insertView e call s q (s.views.deleteMaterializedView q.name)
      else (s, .error (.viewAlreadyExists existing.name))
    | none => insertView e call s q s.views

def executeDropMaterializedView (name : String) : Executed :=
  match s.views.getMaterializedView name with
  | none => (s, .error (.viewNotFound name))
  | some _ => ({ s with views := s.views.deleteMaterializedView name }, .ok [[.string name, .string "dropped"]])

def executeRefreshMaterializedView (name : String) : Executed :=
  match s.views.getMaterializedView name with
  | none => (s, .error (.viewNotFound name))
  | some view =>
    ({ s with views := s.views.updateMaterializedViewStatus view.id .initializing none call.now },
      .ok [[.string name, .string "refresh_scheduled", lengthJson view.rowCount]])

def executeShowMaterializedViews : Rows :=
  s.views.listMaterializedViews.map fun v =>
    [.string v.name, .string v.sourceTopic, .string (formatRefreshMode v.refreshMode), .string (formatStatus v.status), lengthJson v.rowCount]

def describeRows (view : MaterializedView) : Rows :=
  [[.string "id", .string view.id],
    [.string "name", .string view.name],
    [.string "source_topic", .string view.sourceTopic],
    [.string "query_sql", .string view.querySql],
    [.string "refresh_mode", .string (formatRefreshMode view.refreshMode)],
    [.string "status", .string (formatStatus view.status)],
    [.string "error_message", .string (view.errorMessage.getD "")],
    [.string "row_count", lengthJson view.rowCount],
    [.string "last_refresh_at", .string ((view.lastRefreshAt.map toString).getD "never")],
    [.string "created_at", .string (toString view.createdAt)]]

def executeDescribeMaterializedView (name : String) : Except ExecuteError Rows :=
  match s.views.getMaterializedView name with
  | none => .error (.viewNotFound name)
  | some view => .ok (describeRows view)

/-! ## The statement -/

def extractTopicNames : SqlQuery → List String
  | .select q => [q.topic]
  | .describeTopic name => [name]
  | .count q => [q.topic]
  | .windowAggregate q => [q.topic]
  | .groupByAggregate q => [q.topic]
  | .join q => [q.left.topic, q.right.topic]
  | .createMaterializedView q => [q.sourceTopic]
  | _ => []

/-- The first name of a topic that is not the organization's, if there is an organization. -/
def foreignTopic (q : SqlQuery) : Option String :=
  e.orgId.bind fun orgId => (extractTopicNames q).find? fun name => (s.catalog.getTopicForOrg orgId name).isNone

def executeQuery (q : SqlQuery) : Executed :=
  match q with
  | .select q => (s, (executeSelect x e call s q).run' 0)
  | .showTopics => (s, .ok (executeShowTopics e s))
  | .describeTopic name => (s, (executeDescribe e s name).run' 0)
  | .count q => (s, (executeCount x e call s q).run' 0)
  | .windowAggregate q => (s, (executeWindowAggregate x e call s q).run' 0)
  | .groupByAggregate q => (s, (executeGroupByAggregate x e call s q).run' 0)
  | .join q => (s, (executeJoinQuery x e call s q).run' 0)
  | .createMaterializedView q => executeCreateMaterializedView e call s q
  | .dropMaterializedView name => executeDropMaterializedView s name
  | .refreshMaterializedView name => executeRefreshMaterializedView call s name
  | .showMaterializedViews => (s, .ok (executeShowMaterializedViews s))
  | .describeMaterializedView name => (s, executeDescribeMaterializedView s name)

def execute (q : SqlQuery) : Executed :=
  match foreignTopic e s q with
  | some name => (s, .error (.topicNotFound name))
  | none => executeQuery x e call s q

end StreamHouse.Sql
