import StreamHouse.Sql.AcceptedWindows
import StreamHouse.Sql.SelectTotality

/-!
# Where a query is parsed and grouped

A text is parsed without a panic exactly if the SELECT that it has is, and if the positions at which a materialized view
is cut, which come from a copy in upper case, are boundaries of the text itself. The windows that are accepted are those
of `i64` numbers; their grouping ends exactly where they fit the messages.
-/

namespace StreamHouse.Sql.Parser

open Lib List Option WindowExample

variable {F : Type} (x : Externals F)

/-! ## Materialized views -/

/-- A periodic refresh has an interval that is an `i64`. -/
def RefreshFits (withClause : String) : Prop :=
  ∀ mode interval, refreshSettings x withClause = .ok (mode, some interval) → mode ∈ ["periodic", "scheduled"] → IntervalFits x interval

/-- The name is cut around WITH. -/
def NameFits (namePart : String) : Prop :=
  ∀ withPos ∈ findText " WITH ".toList (toUppercase x namePart).toList,
    Boundary namePart.toList withPos ∧ Boundary namePart.toList (withPos + 6) ∧
      ∀ withClause ∈ behindByte (withPos + 6) namePart.toList, RefreshFits x (String.ofList withClause)

/-- The first statement of a text is this SELECT. -/
def Selects (text : String) (select : Select) : Prop :=
  ∃ ast query, x.parseSql text = .ok ast ∧ ast.head? = some (.query query) ∧ query.body = some select

/-- The statement is cut at the keywords: the name, and then the SELECT. -/
def ViewFits (sql : String) : Prop :=
  ∀ found ∈ findText "MATERIALIZED VIEW".toList (toUppercase x sql).toList,
    ∀ asPos ∈ findText " AS ".toList (toUppercase x sql).toList,
      (found + 17 ≤ asPos ∧ Boundary sql.toList (found + 17) ∧ Boundary sql.toList asPos) ∧
        ∀ namePart, sliceText sql.toList (found + 17) asPos = (.ok namePart : Parse (List Char)) →
          NameFits x (trim (String.ofList namePart)) ∧
            ((∃ named, parseViewName x (trim (String.ofList namePart)) = .ok named) →
              Boundary sql.toList (asPos + 4) ∧ ∀ selectSql ∈ behindByte (asPos + 4) sql.toList, ∀ select,
                Selects x (String.ofList selectSql) select → ViewSelectFits x select)

/-! ## Texts -/

def startsWithOne (starts : List String) (text : String) : Bool := starts.any (startsWith text)

/-- The commands that the parser reads itself. -/
def commandStarts : List String :=
  ["SHOW TOPICS", "SHOW MATERIALIZED VIEWS", "DESCRIBE MATERIALIZED VIEW ", "DESCRIBE ", "DESC ", "DROP MATERIALIZED VIEW ",
    "REFRESH MATERIALIZED VIEW "]

def viewStarts : List String := ["CREATE MATERIALIZED VIEW ", "CREATE OR REPLACE MATERIALIZED VIEW "]

/-- What a text needs to be parsed without a panic. -/
def ParseFits (sql : String) : Prop :=
  startsWithOne commandStarts (toUppercase x (trim sql)) = false →
    if startsWithOne viewStarts (toUppercase x (trim sql)) then ViewFits x (trim sql)
    else ∀ select, Selects x (trim sql) select → SelectFits x select

variable {x}

theorem total_keyValue (part : List Char) : Total (keyValue part) := by
  unfold keyValue
  dsimp only
  split
  · apply total_itemAt_bind (by omega)
    intro key
    exact total_itemAt_bind (by omega) fun _ => total_ok _
  · exact total_ok _

theorem total_refreshSettings (withClause : String) : Total (refreshSettings x withClause) :=
  total_foldlM (fun _ part _ => total_bind.mpr ⟨total_keyValue part, fun _ _ => total_ok _⟩) _

theorem total_parseRefreshMode {withClause : String} : Total (parseRefreshMode x withClause) ↔ RefreshFits x withClause := by
  unfold parseRefreshMode RefreshFits
  rw [total_bind, and_iff_right (total_refreshSettings withClause)]
  constructor
  · intro modes mode interval read periodic
    have total := modes _ read
    simp only at total
    rw [if_neg, if_neg, if_pos periodic, total_bind] at total
    · exact total_parseIntervalString.mp total.1
    · rcases mem_pair.mp periodic with rfl | rfl <;> simp
    · rcases mem_pair.mp periodic with rfl | rfl <;> simp
  · rintro intervals ⟨mode, interval⟩ read
    dsimp only
    split
    · exact total_ok _
    split
    · exact total_ok _
    split
    · next periodic =>
      cases interval with
      | some interval => exact total_bind.mpr ⟨total_parseIntervalString.mpr (intervals mode interval read periodic), fun _ _ => total_ok _⟩
      | none => exact total_ok _
    · exact total_parseError _

theorem total_parseViewName {namePart : String} : Total (parseViewName x namePart) ↔ NameFits x namePart := by
  unfold parseViewName NameFits
  cases found : findText " WITH ".toList (toUppercase x namePart).toList with
  | none => simp
  | some withPos =>
    have rest : ∀ viewName, Total (sliceFrom namePart.toList (withPos + 6) >>= fun withClause =>
        parseRefreshMode x (String.ofList withClause) >>= fun refresh =>
          (pure (trim (String.ofList viewName), refresh) : Parse (String × RefreshMode))) ↔
        Boundary namePart.toList (withPos + 6) ∧
          ∀ withClause ∈ behindByte (withPos + 6) namePart.toList, RefreshFits x (String.ofList withClause) := fun viewName => by
      rw [total_sliceFrom_bind]
      refine and_congr_right fun _ => forall₂_congr fun withClause _ => ?_
      exact total_bind.trans ((and_iff_left fun _ _ => total_ok _).trans total_parseRefreshMode)
    simp only [mem_some_iff, forall_eq']
    rw [total_sliceText_bind rest]
    simp [Boundary]

/-- The view of a statement: other statements are rejected. -/
theorem total_parseViewSelect {name : String} {refreshMode : RefreshMode} {orReplace : Bool} {selectSql : String} {statement : Statement} :
    Total (parseViewSelect x name refreshMode orReplace selectSql statement) ↔
      ∀ query, statement = .query query → ∀ select, query.body = some select → ViewSelectFits x select := by
  cases statement with
  | other => simp [parseViewSelect]
  | query query =>
    simp only [Statement.query.injEq, forall_eq']
    rw [parseViewSelect]
    cases body : query.body with
    | none => simp
    | some select =>
      simp only [some.injEq, forall_eq']
      unfold ViewSelectFits
      rw [total_bind, and_iff_right (total_parseFromClause select), ← parseFromClause_ok, forall_exists_index]
      refine forall₂_congr fun topic _ => ?_
      refine total_bind.trans ((and_iff_left fun _ _ => ?_).trans total_parseMvWindowClause)
      exact total_bind.mpr ⟨total_selectionFilters select, fun _ _ => total_ok _⟩

/-- A text that does not parse, or has no statement, is rejected. -/
theorem total_firstStatement {text : String} {α : Type} {invalid : String → String} {empty : String} {read : Statement → Parse α}
    {fits : Select → Prop}
    (reads : ∀ statement, Total (read statement) ↔ ∀ query, statement = .query query → ∀ select, query.body = some select → fits select) :
    Total (firstStatement x text invalid empty read) ↔ ∀ select, Selects x text select → fits select := by
  unfold firstStatement Selects
  cases parsed : x.parseSql text with
  | error e => simp
  | ok ast =>
    cases ast with
    | nil => simp
    | cons statement rest =>
      have first : itemAt (statement :: rest) 0 >>= read = read statement := rfl
      simp only [isEmpty_cons, Bool.false_eq_true, if_false, first, reads]
      constructor
      · rintro all select ⟨ast, query, isAst, isFirst, body⟩
        obtain rfl := Except.ok.inj isAst
        exact all query (some.inj isFirst) select body
      · exact fun all query isQuery select body => all select ⟨_, query, rfl, congrArg some isQuery, body⟩

theorem startsWithOne_iff {starts : List String} {text : String} :
    startsWithOne starts text = true ↔ ∃ start ∈ starts, start.toList <+: text.toList := by
  simp [startsWithOne, startsWith]

/-- Both commands have the keyword that the name stands behind. -/
theorem keyword_found {sqlUpper : String} (starts : startsWithOne viewStarts sqlUpper = true) :
    ∃ found, findText "MATERIALIZED VIEW".toList sqlUpper.toList = some found := by
  obtain ⟨start, isStart, begins⟩ := startsWithOne_iff.mp starts
  have occurs : "MATERIALIZED VIEW".toList <:+: start.toList := by
    rcases mem_pair.mp isStart with rfl | rfl
    · exact ⟨"CREATE ".toList, " ".toList, by simp⟩
    · exact ⟨"CREATE OR REPLACE ".toList, " ".toList, by simp⟩
  exact isSome_iff_exists.mp (findText_isSome (occurs.trans begins.isInfix))

theorem total_parseCreateMaterializedView {sql : String} (starts : startsWithOne viewStarts (toUppercase x sql) = true) :
    Total (parseCreateMaterializedView x sql) ↔ ViewFits x sql := by
  obtain ⟨found, isFound⟩ := keyword_found starts
  unfold parseCreateMaterializedView ViewFits
  simp only [isFound, mem_some_iff, forall_eq']
  cases findText " AS ".toList (toUppercase x sql).toList with
  | none => simp
  | some asPos =>
    simp only [mem_some_iff, forall_eq']
    rw [total_bind, total_sliceText]
    refine and_congr_right fun _ => forall₂_congr fun namePart _ => ?_
    rw [total_bind, total_parseViewName, forall_exists_index]
    refine and_congr_right fun _ => forall₂_congr fun named _ => ?_
    rw [total_sliceFrom_bind]
    exact and_congr_right fun _ => forall₂_congr fun selectSql _ => total_firstStatement fun _ => total_parseViewSelect

theorem total_parseStatement {statement : Statement} : Total (parseStatement x statement) ↔
    ∀ query, statement = .query query → ∀ select, query.body = some select → SelectFits x select := by
  cases statement with
  | other => simp [parseStatement]
  | query query =>
    simp only [Statement.query.injEq, forall_eq']
    exact total_parseSelectQuery

/-- Every text but a view or a SELECT is a command, or no statement of the parser. -/
theorem total_parseQuery {sql : String} : Total (parseQuery x sql) ↔ ParseFits x sql := by
  have word : ∀ n missing (query : String → ParsedQuery F), Total ((nthWord n missing (trim sql)).map query) := by
    intro n missing query
    rw [total_map]
    unfold nthWord
    split
    · exact total_ok _
    · exact total_parseError _
  unfold parseQuery ParseFits
  dsimp only
  cases command : startsWithOne commandStarts (toUppercase x (trim sql)) with
  | true =>
    refine iff_of_true ?_ fun none => by cases none
    split
    · exact total_ok _
    split
    · exact total_ok _
    split
    · exact word _ _ _
    split
    · exact word _ _ _
    split
    · exact word _ _ _
    split
    · exact word _ _ _
    · simp_all [startsWithOne, commandStarts]
  | false =>
    rw [forall_prop_of_true rfl]
    simp only [startsWithOne, commandStarts, any_cons, any_nil, Bool.or_false, Bool.or_eq_false_iff] at command
    obtain ⟨topics, views, describeView, describe, desc, dropView, refreshView⟩ := command
    simp only [topics, views, describeView, describe, desc, dropView, refreshView, Bool.or_self, Bool.false_eq_true, if_false]
    have starts : (startsWith (toUppercase x (trim sql)) "CREATE MATERIALIZED VIEW " ||
        startsWith (toUppercase x (trim sql)) "CREATE OR REPLACE MATERIALIZED VIEW ") = startsWithOne viewStarts (toUppercase x (trim sql)) := by
      simp [startsWithOne, viewStarts]
    rw [starts]
    split
    · next view => exact total_parseCreateMaterializedView view
    · exact total_firstStatement fun _ => total_parseStatement

/-! ## Queries -/

/-- A query of the text is executed with this window and these groups. -/
def Accepts (x : Externals F) (sql : String) (window : WindowType) (groupBy : List String) : Prop :=
  ∃ query, parseQuery x sql = .ok query ∧ query.grouping = some (window, groupBy)

/-- The parser returns exactly on the texts that fit, and the grouping of a window that it accepts ends exactly on the
messages that fit the window. -/
theorem query_total_iff (x : Externals F) (display : Json → String) (iteration : HashMaps.HashOrder (Option String)) (sql : String) :
    (Total (parseQuery x sql) ↔ ParseFits x sql) ∧
      ∀ window groupBy, Accepts x sql window groupBy → ∀ messages : List MessageRow, (∀ msg ∈ messages, I64.Fits msg.timestamp) →
        (GroupingEnds display iteration window messages groupBy ↔ WindowFits window messages) := by
  refine ⟨total_parseQuery, ?_⟩
  rintro window groupBy ⟨query, read, isGrouping⟩ messages stamps
  exact grouping_ends_iff iteration (yields_parseQuery query read window groupBy isGrouping) stamps

namespace QueryExample

/-- The parser of one text, over whole numbers. -/
def externals (sql : String) (ast : List Statement) : Externals Int where
  upper c := [c.toUpper]
  lower s := String.ofList (s.toList.map Char.toLower)
  parseFloat s := parseI64 s.toList
  negFloat := Neg.neg
  two := 2
  floatJson := i64Json
  parseSql text := if text = sql then .ok ast else .error "unexpected text"
  debugTerm _ := ""
  debugItem _ := ""
  debugOperator _ := ""
  debugStatement _ := ""
  parseRfc3339 _ := none

/-- `SELECT item FROM t GROUP BY term`. -/
def grouped (item term : Term) : List Statement :=
  let select : Select := ⟨[.unnamedExpr item], [⟨.table ⟨["t"], "t"⟩ none, []⟩], none, .expressions [term]⟩
  [.query ⟨some select, [], none, none⟩]

def sumOfNothing : String := "SELECT SUM() FROM t GROUP BY key"

def sumTree : List Statement := grouped (.function "SUM" [] false) (.identifier "key")

def milliseconds (n : String) : Argument := .term (.value (.number n))

def countOf (window : String) (args : List Argument) : List Statement :=
  grouped (.function "COUNT" [.wildcard] false) (.function window (.term (.identifier "timestamp") :: args) false)

def hopping : String := "SELECT COUNT(*) FROM t GROUP BY HOP(timestamp, 10, 5)"

def hoppingTree : List Statement := countOf "HOP" [milliseconds "10", milliseconds "5"]

def tumbling : String := "SELECT COUNT(*) FROM t GROUP BY TUMBLE(timestamp, 0)"

def tumblingTree : List Statement := countOf "TUMBLE" [milliseconds "0"]

theorem accepts_hopping : Accepts (externals hopping hoppingTree) hopping (.hop 10 5) [] :=
  ⟨.windowAggregate ⟨"t", .hop 10 5, [.count none], [], [], none⟩, rfl, rfl⟩

theorem accepts_tumbling : Accepts (externals tumbling tumblingTree) tumbling (.tumble 0) [] :=
  ⟨.windowAggregate ⟨"t", .tumble 0, [.count none], [], [], none⟩, rfl, rfl⟩

end QueryExample

open QueryExample in
/-- The windows of 10 every 5 of a message at 12 are made. -/
theorem hopping_query_ends : GroupingEnds plain (.listed _) (.hop 10 5) [at_ 12] [] := by
  refine ((query_total_iff (externals hopping hoppingTree) plain (.listed _) hopping).2 (.hop 10 5) [] accepts_hopping
    [at_ 12] (by decide)).mpr fun _ => ?_
  decide

open QueryExample in
/-- A sum of nothing panics, and a window of no size divides by zero. -/
theorem sum_of_nothing_panics : ¬ Total (parseQuery (externals sumOfNothing sumTree) sumOfNothing) ∧
    Accepts (externals tumbling tumblingTree) tumbling (.tumble 0) [] ∧
      ¬ GroupingEnds plain (.listed _) (.tumble 0) [at_ 12] [] := by
  refine ⟨fun total => total rfl, accepts_tumbling, fun ends => ?_⟩
  have size : SizesFit (.tumble 0) := (by decide : I64.Fits 0)
  have fits := (grouping_ends_iff _ size (by decide)).mp ends
  exact (fits _ mem_cons_self).1 rfl

end StreamHouse.Sql.Parser
