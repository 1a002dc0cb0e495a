import StreamHouse.Sql.MessageOrder
import StreamHouse.Sql.StoredMessages

/-!
# The pages of a SELECT

What a SELECT has to answer with is a page of all rows: those of the stored messages that pass
all filters, in the requested order. It looks at the limit behind a row, so that it has one row
where none is asked for.
-/

namespace StreamHouse.Sql

open Lib Pages Metadata List

variable (x : Externals) (e : SqlExecutor) (call : Call) (s : SqlSystem) (q : SelectQuery) (topic : Topic)

/-- The messages in the requested order, if the sort gives one. -/
def requested (messages : List MessageRow) : Option (List MessageRow) :=
  match q.orderBy with
  | some orderBy => x.sortMessages orderBy messages
  | none => some messages

/-- All rows of a query: the messages that pass, in the requested order, without those that the
filters on statistics take away. -/
def allRows : Rows :=
  let matching := (storedMessages x e s q.topic topic).filter q.passes
  (((requested x q matching).getD []).zipIdx.filter fun (msg, i) => q.statFilters.all fun filter => filter matching i msg).map fun (msg, i) =>
    q.toRow matching i msg

/-- The limit of a query. -/
def SelectQuery.rowLimit : Nat := min (q.limit.getD maxRows) maxRows

/-- What the scan of a SELECT loads. -/
def selectedMessages : Except ExecuteError (List MessageRow) :=
  (forPartitions call (partitionsOf q.filters topic) (selectPartition x e s q)).run' 0

/-- `sort_by` sorts stably where the comparison is an order. Elsewhere it may panic. -/
def SortsStably : Prop :=
  ∀ orderBy messages, Orders (compareMessages x.display x.toLowercase orderBy) messages →
    x.sortMessages orderBy messages = some (stableSort x.display x.toLowercase orderBy messages)

/-- What is asked for is an order of the messages that pass. -/
def AsksForOrder : Prop :=
  ∀ orderBy, q.orderBy = some orderBy →
    Orders (compareMessages x.display x.toLowercase orderBy) ((storedMessages x e s q.topic topic).filter q.passes)

/-- There is the order that is asked for, and the messages are those that pass, in this order. -/
def InRequestedOrder : Prop :=
  AsksForOrder x e s q topic ∧ ∃ messages, requested x q ((storedMessages x e s q.topic topic).filter q.passes) = some messages ∧
    messages.Perm ((storedMessages x e s q.topic topic).filter q.passes) ∧ ∀ orderBy, q.orderBy = some orderBy →
      messages.Pairwise fun a b => (compareMessages x.display x.toLowercase orderBy a b).isLE = true

/-- The query is answered with the page that it asks for. -/
structure AnswersPage : Prop where
  /-- Pruning loses no row. -/
  complete : selectedMessages x e call s q topic = .ok ((storedMessages x e s q.topic topic).filter q.passes)
  ordered : InRequestedOrder x e s q topic
  returned : (executeSelect x e call s q).run' 0 = .ok (page (q.offset.getD 0) q.rowLimit (allRows x e s q topic))
  /-- Pages of any size one behind the other make up all rows. -/
  pages : ∀ n, 0 < n → n ≤ maxRows → ∀ j, ∃ answers : Nat → Rows,
    (∀ i, (executeSelect x e call s { q with limit := some n, offset := some (i * n) }).run' 0 = .ok (answers i)) ∧
      (List.range j).flatMap answers = (allRows x e s q topic).take (j * n)

variable {x e call s q topic}

theorem selectRows_eq {messages : List MessageRow}
    (sorted : requested x q ((storedMessages x e s q.topic topic).filter q.passes) = some messages) :
    selectRows x q ((storedMessages x e s q.topic topic).filter q.passes) =
      some (page (q.offset.getD 0) (max 1 q.rowLimit) (allRows x e s q topic)) := by
  change (requested x q _).map _ = _
  rw [allRows, page]
  dsimp only
  rw [sorted, Option.map_some, Option.getD_some, ← map_drop, ← map_take]
  rfl

theorem rowLimit_ne_zero : q.rowLimit ≠ 0 ↔ q.limit ≠ some 0 := by
  unfold SelectQuery.rowLimit
  cases q.limit with
  | none => exact iff_of_true (by decide) (by rintro ⟨⟩)
  | some n =>
    change min n 10000 ≠ 0 ↔ _
    rw [ne_eq, ne_eq, Option.some.injEq]
    omega

theorem selectedMessages_eq (kept : KeptTopic x e s q.topic topic) (inTime : ∀ asked, call.elapsed asked ≤ call.timeoutMs) :
    selectedMessages x e call s q topic = .ok ((partitionsOf q.filters topic).flatMap (scanned x e s q)) :=
  forPartitions_ok inTime fun p _ => selectPartition_ok kept p

/-- What is loaded completely and sorted is answered with a page of at least one row. -/
theorem executeSelect_page (found : s.catalog.getTopicForOrg e.org q.topic = some topic)
    (complete : selectedMessages x e call s q topic = .ok ((storedMessages x e s q.topic topic).filter q.passes))
    (ordered : InRequestedOrder x e s q topic) :
    (executeSelect x e call s q).run' 0 = .ok (page (q.offset.getD 0) (max 1 q.rowLimit) (allRows x e s q topic)) := by
  obtain ⟨-, messages, sorted, -⟩ := ordered
  unfold selectedMessages at complete
  unfold executeSelect
  rw [found]
  cases loads : forPartitions call (partitionsOf q.filters topic) (selectPartition x e s q) 0 with
  | error error =>
    change Except.map Prod.fst (forPartitions call (partitionsOf q.filters topic) (selectPartition x e s q) 0) = _ at complete
    rw [loads] at complete
    cases complete
  | ok loaded =>
    change Except.map Prod.fst (forPartitions call (partitionsOf q.filters topic) (selectPartition x e s q) 0) = _ at complete
    rw [loads] at complete
    obtain ⟨messages, asked⟩ := loaded
    obtain rfl : messages = _ := Except.ok.inj complete
    change Except.map Prod.fst (Except.bind (forPartitions call (partitionsOf q.filters topic) (selectPartition x e s q) 0)
      fun both => answer (selectRows x q both.1) both.2) = _
    rw [loads]
    change Except.map Prod.fst (answer (selectRows x q _) asked) = _
    rw [selectRows_eq sorted]
    rfl

theorem inRequestedOrder (sorts : SortsStably x) (asks : AsksForOrder x e s q topic) : InRequestedOrder x e s q topic := by
  refine ⟨asks, ?_⟩
  unfold requested
  cases asked : q.orderBy with
  | none => exact ⟨_, rfl, .refl _, fun _ no => nomatch no⟩
  | some orderBy =>
    refine ⟨_, sorts orderBy _ (asks orderBy asked), stableSort_perm x.display x.toLowercase orderBy _, ?_⟩
    rintro _ ⟨rfl⟩
    exact stableSort_pairwise x.display x.toLowercase (asks orderBy asked)

def lineExternals : Externals where
  packages := ⟨id, fun bytes => .ok bytes, fun _ => 0⟩
  fromUtf8Lossy := fun bytes => String.ofList (bytes.map fun b => Char.ofNat b.toNat)
  display := fun _ => ""
  parse := fun _ => none
  toLowercase := id
  iteration := ⟨id, fun _ => Perm.refl _⟩
  sortMessages := fun orderBy messages => some (stableSort (fun _ => "") id orderBy messages)

def lineSegment : SegmentInfo where
  id := .segment "events" 0 0
  topic := "events"
  partitionId := 0
  baseOffset := 0
  endOffset := 0
  recordCount := 1
  sizeBytes := 2
  s3Bucket := "bucket"
  s3Key := .segment (.org "acme") "events" 0 0
  createdAt := 7
  minTimestamp := 7
  maxTimestamp := 7

/-- The topic `events` of `acme`, with the line "hi" in its partition. -/
def lineSystem : SqlSystem where
  catalog := {
    organizations := []
    quotas := []
    topics := [⟨"acme", "events", 1, none, 0, []⟩]
    segments := ⟨[⟨"acme", lineSegment⟩], fun k => if k = ⟨"acme", "events", 0⟩ then some 1 else none⟩
    consumerOffsets := [] }
  views := ViewTables.empty
  objects := fun key => if key = lineSegment.s3Key then some [104, 105] else none
  cache := fun _ => none

def lineTopic : Topic := (⟨"acme", "events", 1, none, 0, []⟩ : TopicRow).topic

def lineExecutor : SqlExecutor := ⟨false, some "acme"⟩

def promptCall : Call where
  timeoutMs := 30000
  elapsed := fun _ => 0
  monotone := monotone_const
  uuid := ""
  now := 0

/-- `SELECT value FROM events LIMIT n`. -/
def selectValues (n : Nat) : SelectQuery where
  topic := "events"
  filters := []
  others := []
  statFilters := []
  toRow := fun _ _ msg => [.string msg.value.chars]
  columnNames := some ["value"]
  orderBy := none
  limit := some n
  offset := none

theorem mem_lineSystem {p : BitVec 32} {info : SegmentInfo} (inside : info ∈ registered lineExecutor lineSystem "events" p) :
    p = 0 ∧ info = lineSegment := by
  have row := (mem_insertionSort _).mp inside
  obtain ⟨r, isRow, rfl⟩ := mem_map.mp row
  obtain ⟨listed, own⟩ := mem_filter.mp isRow
  obtain rfl := mem_singleton.mp listed
  have partitions := congrArg PartitionKey.partitionId (eq_of_beq own)
  exact ⟨BitVec.eq_of_toNat_eq partitions.symm, rfl⟩

theorem segmentMessages_lineSegment : segmentMessages lineExternals lineSystem lineSegment = [⟨"events", 0, 0, none, ⟨"hi", none⟩, 7⟩] := by
  rfl

theorem lineTopic_kept : KeptTopic lineExternals lineExecutor lineSystem "events" lineTopic where
  counted := by decide
  rows p := by
    change (Option.map _ (if (⟨"acme", "events", p.toNat⟩ : PartitionKey) = ⟨"acme", "events", 0⟩ then some 1 else none)).isSome = true ↔ p.toNat < 1
    by_cases zero : p.toNat = 0
    · rw [zero]
      exact iff_of_true rfl Nat.zero_lt_one
    · rw [if_neg fun same => zero (PartitionKey.mk.inj same).2.2]
      exact iff_of_false Bool.false_ne_true (by omega)
  own p info inside := by
    rw [(mem_lineSystem inside).1]
    decide
  readable p info inside := by
    rw [(mem_lineSystem inside).2]
    exact ⟨_, rfl⟩
  placed p info inside msg isMessage := by
    obtain ⟨rfl, rfl⟩ := mem_lineSystem inside
    rw [segmentMessages_lineSegment] at isMessage
    obtain rfl := mem_singleton.mp isMessage
    rfl
  spanned p info inside msg isMessage := by
    obtain ⟨rfl, rfl⟩ := mem_lineSystem inside
    rw [segmentMessages_lineSegment] at isMessage
    obtain rfl := mem_singleton.mp isMessage
    decide

theorem lineExternals_sorts : SortsStably lineExternals := fun _ _ _ => rfl

end StreamHouse.Sql
