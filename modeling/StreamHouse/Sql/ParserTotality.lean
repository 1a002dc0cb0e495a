import StreamHouse.Sql.ParserQuery

/-!
# The parser where it does not panic

Every clause but the windows, the aggregations and the text of a materialized view is read without a panic, whatever the
tree is: an argument is read behind a check of their number.
-/

namespace StreamHouse.Sql.Parser

open Lib

variable {F : Type} {x : Externals F}

@[simp] theorem total_parseError {α : Type} (message : String) : Total (parseError message : Parse α) := total_error _

@[simp] theorem total_unsupportedOperation {α : Type} (message : String) : Total (unsupportedOperation message : Parse α) := total_error _

theorem total_secondOr {α β : Type} {items : List α} {read : α → Parse β} {absent : β} (reads : ∀ item, Total (read item)) :
    Total (secondOr items read absent) := by
  unfold secondOr
  split
  · next more => exact total_itemAt_bind more reads
  · exact total_ok _

theorem length_pos_of_not_isEmpty {α : Type} {items : List α} (some : ¬ items.isEmpty = true) : 0 < items.length :=
  List.length_pos_iff.mpr fun empty => some (List.isEmpty_iff.mpr empty)

/-! ## Arguments -/

theorem total_exprToJsonValue (e : Term) : Total (exprToJsonValue x e) := by
  unfold exprToJsonValue
  split
  · split
    · exact total_ok _
    · split
      · exact total_ok _
      · exact total_parseError _
  all_goals first | exact total_ok _ | exact total_parseError _

theorem total_extractPathFromJsonExtract (args : List Argument) : Total (extractPathFromJsonExtract args) := by
  unfold extractPathFromJsonExtract
  split_ifs with two
  · exact total_parseError _
  · apply total_itemAt_bind (by omega)
    intro arg
    split
    · exact total_ok _
    · exact total_parseError _

theorem total_pathOfArg (notExtract notPath : String) (arg : Argument) : Total (pathOfArg x notExtract notPath arg) := by
  unfold pathOfArg
  split
  · split_ifs
    · exact total_extractPathFromJsonExtract _
    · exact total_parseError _
  · exact total_ok _
  · exact total_parseError _

theorem total_extractPathFromNestedFuncOrDirect (args : List Argument) : Total (extractPathFromNestedFuncOrDirect x args) := by
  unfold extractPathFromNestedFuncOrDirect
  split_ifs with empty
  · exact total_parseError _
  · exact total_itemAt_bind (length_pos_of_not_isEmpty empty) (total_pathOfArg _ _)

theorem total_extractColumnFromArg (arg : Argument) : Total (extractColumnFromArg arg) := by
  unfold extractColumnFromArg
  split <;> simp

theorem total_extractPathFromAggArg (arg : Argument) : Total (extractPathFromAggArg x arg) := by
  unfold extractPathFromAggArg
  split
  · exact total_ok _
  · exact total_pathOfArg _ _ _

/-! ## The WHERE clause -/

theorem total_parseJsonExtractArgs (args : List Argument) : Total (parseJsonExtractArgs args) := by
  unfold parseJsonExtractArgs
  split_ifs with two
  · exact total_ok _
  · apply total_itemAt_bind (by omega)
    intro arg
    split
    · apply total_itemAt_bind (by omega)
      intro arg
      split <;> exact total_ok _
    · exact total_ok _

theorem total_anomalyPath (arg : Argument) : Total (anomalyPath x arg) := by
  unfold anomalyPath
  split
  · split_ifs
    · exact total_map.mpr (total_extractPathFromJsonExtract _)
    · exact total_ok _
  · exact total_ok _
  · exact total_ok _

theorem total_parseAnomalyFilter (args : List Argument) (right : Term) : Total (parseAnomalyFilter x args right) := by
  unfold parseAnomalyFilter
  split
  · exact total_ok _
  · next empty =>
    apply total_itemAt_bind (length_pos_of_not_isEmpty empty)
    intro arg
    refine total_bind.mpr ⟨total_anomalyPath arg, fun path _ => ?_⟩
    split
    · exact total_ok _
    · refine total_bind.mpr ⟨total_secondOr fun _ => total_ok _, fun threshold _ => ?_⟩
      split <;> exact total_ok _

theorem total_parseEqualityFilter (left right : Term) : Total (parseEqualityFilter x left right) := by
  unfold parseEqualityFilter
  split
  · dsimp only
    split_ifs <;> exact total_ok _
  · dsimp only
    split
    · refine total_bind.mpr ⟨total_parseJsonExtractArgs _, fun found _ => ?_⟩
      split
      · exact total_bind.mpr ⟨total_exprToJsonValue _, fun _ _ => total_ok _⟩
      · exact total_ok _
    · split
      · exact total_parseAnomalyFilter _ _
      · exact total_ok _
  · exact total_ok _

theorem total_parseComparisonFilter (left right : Term) (isGreater isEqual : Bool) :
    Total (parseComparisonFilter x left right isGreater isEqual) := by
  unfold parseComparisonFilter
  split
  · dsimp only
    split_ifs <;> exact total_ok _
  · dsimp only
    split
    · refine total_bind.mpr ⟨total_parseJsonExtractArgs _, fun found _ => ?_⟩
      split
      · exact total_bind.mpr ⟨total_exprToJsonValue _, fun _ _ => total_ok _⟩
      · exact total_ok _
    · split
      · exact total_bind.mpr ⟨total_extractPathFromNestedFuncOrDirect _, fun _ _ => total_ok _⟩
      · exact total_ok _
  · exact total_ok _

theorem total_comparison (left right : Term) (isGreater isEqual : Bool) (filters : List (ParsedFilter F)) :
    Total (do return filters ++ (← parseComparisonFilter x left right isGreater isEqual).toList) :=
  total_bind.mpr ⟨total_parseComparisonFilter _ _ _ _, fun _ _ => total_ok _⟩

/-- By the recursion of the terms through AND and parentheses. -/
theorem total_collectFilters (e : Term) (filters : List (ParsedFilter F)) : Total (collectFilters x e filters) := by
  induction e, filters using collectFilters.induct with
  | case1 filters left right first second =>
    rw [collectFilters]
    exact total_bind.mpr ⟨first, fun both _ => second both⟩
  | case2 filters left right =>
    rw [collectFilters]
    exact total_bind.mpr ⟨total_parseEqualityFilter left right, fun _ _ => total_ok _⟩
  | case3 filters left right =>
    rw [collectFilters]
    exact total_comparison left right true false filters
  | case4 filters left right =>
    rw [collectFilters]
    exact total_comparison left right true true filters
  | case5 filters left right =>
    rw [collectFilters]
    exact total_comparison left right false false filters
  | case6 filters left right =>
    rw [collectFilters]
    exact total_comparison left right false true filters
  | case7 filters left right =>
    rw [collectFilters]
    exact total_unsupportedOperation _
  | case8 filters inner ih =>
    rw [collectFilters]
    exact ih
  | case9 e filters =>
    rw [collectFilters]
    · exact total_unsupportedOperation _
    all_goals assumption

theorem total_parseWhereClause (e : Term) : Total (parseWhereClause x e) := total_collectFilters e []

theorem total_selectionFilters (select : Select) : Total (selectionFilters x select) := by
  unfold selectionFilters
  split
  · exact total_parseWhereClause _
  · exact total_ok _

/-! ## The columns -/

theorem total_parseJsonExtractFunc (args : List Argument) (called : Option String) :
    Total (parseJsonExtractFunc args called : Parse (SelectColumn F)) := by
  unfold parseJsonExtractFunc
  split
  · exact total_parseError _
  · next two =>
    apply total_itemAt_bind (by omega)
    intro arg
    split
    · apply total_itemAt_bind (by omega)
      intro arg
      split
      · exact total_ok _
      · exact total_parseError _
    · exact total_parseError _

theorem total_movingWindow (arg : Argument) : Total (movingWindow arg) := by
  unfold movingWindow
  split
  · split
    · exact total_ok _
    · exact total_parseError _
  · exact total_ok _

theorem total_anomalyThreshold (arg : Argument) : Total (anomalyThreshold x arg) := by
  unfold anomalyThreshold
  split
  · split
    · exact total_ok _
    · exact total_parseError _
  · exact total_ok _

theorem total_parseMovingAvgFunc (args : List Argument) (called : Option String) : Total (parseMovingAvgFunc x args called) := by
  unfold parseMovingAvgFunc
  split
  · exact total_parseError _
  · next empty =>
    apply total_itemAt_bind (length_pos_of_not_isEmpty empty)
    intro arg
    refine total_bind.mpr ⟨total_pathOfArg _ _ arg, fun path _ => ?_⟩
    exact total_bind.mpr ⟨total_secondOr total_movingWindow, fun _ _ => total_ok _⟩

theorem total_parseAnomalyFunc (args : List Argument) (called : Option String) : Total (parseAnomalyFunc x args called) := by
  unfold parseAnomalyFunc
  split
  · exact total_parseError _
  · next empty =>
    apply total_itemAt_bind (length_pos_of_not_isEmpty empty)
    intro arg
    refine total_bind.mpr ⟨total_pathOfArg _ _ arg, fun path _ => ?_⟩
    exact total_bind.mpr ⟨total_secondOr total_anomalyThreshold, fun _ _ => total_ok _⟩

theorem total_parseVectorString (s : String) : Total (parseVectorString x s) := by
  unfold parseVectorString
  refine total_bind.mpr ⟨total_foldlM (fun vec part _ => ?_) [], fun vec _ => ?_⟩
  · split
    · exact total_ok _
    · exact total_parseError _
  · split
    · exact total_parseError _
    · exact total_ok _

theorem total_parseVectorElement (e : Term) : Total (parseVectorElement x e) := by
  unfold parseVectorElement
  split
  · split
    · exact total_ok _
    · exact total_parseError _
  · split
    · exact total_ok _
    · exact total_parseError _
  · exact total_parseError _
  · exact total_parseError _

theorem total_parseVectorExpr (e : Term) : Total (parseVectorExpr x e) := by
  unfold parseVectorExpr
  split
  · exact total_foldlM (fun _ element _ => total_bind.mpr ⟨total_parseVectorElement element, fun _ _ => total_ok _⟩) []
  · exact total_parseVectorString _
  · exact total_parseError _

theorem total_parseVectorArg (arg : Argument) : Total (parseVectorArg x arg) := by
  unfold parseVectorArg
  split
  · exact total_parseVectorExpr _
  · exact total_parseError _

theorem total_parseVectorSimilarityArgs (args : List Argument) : Total (parseVectorSimilarityArgs x args) := by
  unfold parseVectorSimilarityArgs
  split
  · exact total_parseError _
  · next two =>
    apply total_itemAt_bind (by omega)
    intro arg
    refine total_bind.mpr ⟨total_pathOfArg _ _ arg, fun path _ => ?_⟩
    apply total_itemAt_bind (by omega)
    exact fun arg => total_bind.mpr ⟨total_parseVectorArg arg, fun _ _ => total_ok _⟩

/-- One case for each function of the projection. -/
theorem total_parseSelectExpr (e : Term) (called : Option String) : Total (parseSelectExpr x e called) := by
  have ofPath : ∀ args (column : String → SelectColumn F), Total (do return column (← extractPathFromNestedFuncOrDirect x args)) :=
    fun args column => total_bind.mpr ⟨total_extractPathFromNestedFuncOrDirect args, fun _ _ => total_ok _⟩
  have ofVector : ∀ args (column : String × List F → SelectColumn F), Total (do return column (← parseVectorSimilarityArgs x args)) :=
    fun args column => total_bind.mpr ⟨total_parseVectorSimilarityArgs args, fun _ _ => total_ok _⟩
  unfold parseSelectExpr
  split
  · exact total_ok _
  · next name args distinct =>
    dsimp only
    refine total_ite (fun _ => total_parseJsonExtractFunc args called) fun _ => ?_
    refine total_ite (fun _ => ofPath args fun path => .zScore path called) fun _ => ?_
    refine total_ite (fun _ => total_parseMovingAvgFunc args called) fun _ => ?_
    refine total_ite (fun _ => ofPath args fun path => .stddev path called) fun _ => ?_
    refine total_ite (fun _ => ofPath args fun path => .avg path called) fun _ => ?_
    refine total_ite (fun _ => total_parseAnomalyFunc args called) fun _ => ?_
    refine total_ite (fun _ => ofVector args fun read => .cosineSimilarity read.1 read.2 called) fun _ => ?_
    refine total_ite (fun _ => ofVector args fun read => .euclideanDistance read.1 read.2 called) fun _ => ?_
    refine total_ite (fun _ => ofVector args fun read => .dotProduct read.1 read.2 called) fun _ => ?_
    exact total_ite (fun _ => ofPath args fun path => .vectorNorm path called) fun _ => total_unsupportedOperation _
  · exact total_unsupportedOperation _

theorem total_parseSelectItem (item : SelectItem) : Total (parseSelectItem x item) := by
  unfold parseSelectItem
  split
  · exact total_ok _
  · exact total_parseSelectExpr _ _
  · exact total_parseSelectExpr _ _
  · exact total_unsupportedOperation _

theorem total_parseSelectColumns (select : Select) : Total (parseSelectColumns x select) :=
  total_foldlM (fun _ item _ => total_bind.mpr ⟨total_parseSelectItem item, fun _ _ => total_ok _⟩) []

theorem total_isCountQuery (select : Select) : Total (isCountQuery x select) := by
  unfold isCountQuery
  split
  · exact total_ok _
  · exact total_map.mpr (total_itemAt.mpr (by omega))

/-! ## The FROM clause and the joins -/

/-- The first table is one with a name. -/
def NamesTopic (select : Select) : Prop := ∃ table name called, select.tables.head? = some table ∧ table.relation = .table name called

theorem total_parseFromClause (select : Select) : Total (parseFromClause select) := by
  unfold parseFromClause
  split
  · exact total_parseError _
  · next empty =>
    apply total_itemAt_bind (length_pos_of_not_isEmpty empty)
    intro table
    split
    · split
      · exact total_itemAt.mpr (by omega)
      · exact total_ok _
    · exact total_unsupportedOperation _

theorem parseFromClause_ok (select : Select) : (∃ topic, parseFromClause select = .ok topic) ↔ NamesTopic select := by
  unfold parseFromClause NamesTopic
  cases tables : select.tables with
  | nil => simp [parseError]
  | cons table rest =>
    cases relation : table.relation with
    | table name called =>
      by_cases one : name.parts.length = 1
      · obtain ⟨part, isPart⟩ := List.length_eq_one_iff.mp one
        simp [itemAt, relation, isPart]
      · simp [itemAt, relation, one]
    | tableFunction e called => simp [itemAt, relation, unsupportedOperation]
    | function displayed args called => simp [itemAt, relation, unsupportedOperation]
    | other => simp [itemAt, relation, unsupportedOperation]

theorem total_tableArgument (arg : Argument) : Total (tableArgument arg) := by
  unfold tableArgument
  split <;> simp

theorem total_parseTableRef (relation : TableFactor) : Total (parseTableRef x relation) := by
  unfold parseTableRef
  split
  · exact total_ok _
  · split <;> simp
  · dsimp only
    split
    · split
      · exact total_parseError _
      · next empty =>
        apply total_itemAt_bind (length_pos_of_not_isEmpty empty)
        exact fun arg => total_bind.mpr ⟨total_tableArgument arg, fun _ _ => total_ok _⟩
    · exact total_unsupportedOperation _
  · exact total_unsupportedOperation _

theorem total_firstPart (parts : List String) (message : String) :
    Total (if parts.isEmpty then parseError message else itemAt parts 0 : Parse String) := by
  split
  · exact total_parseError _
  · next empty => exact total_itemAt.mpr (length_pos_of_not_isEmpty empty)

theorem total_onQualifier (arg : Argument) : Total (onQualifier arg) := by
  unfold onQualifier
  split
  · exact total_firstPart _ _
  · exact total_parseError _

theorem total_pathLiteral (arg : Argument) : Total (pathLiteral arg) := by
  unfold pathLiteral
  split <;> simp

theorem total_parseColumnRef (e : Term) : Total (parseColumnRef x e) := by
  unfold parseColumnRef
  dsimp only
  split
  · split
    · apply total_itemAt_bind (by omega)
      intro qualifier
      exact total_itemAt_bind (by omega) fun _ => total_ok _
    · exact total_unsupportedOperation _
  · split
    · split
      · exact total_parseError _
      · apply total_itemAt_bind (by omega)
        intro arg
        refine total_bind.mpr ⟨total_onQualifier arg, fun qualifier _ => ?_⟩
        apply total_itemAt_bind (by omega)
        exact fun arg => total_bind.mpr ⟨total_pathLiteral arg, fun _ _ => total_ok _⟩
    · exact total_unsupportedOperation _
  · exact total_unsupportedOperation _

theorem total_parseJoinOnExpr (e : Term) : Total (parseJoinOnExpr x e) := by
  unfold parseJoinOnExpr
  split
  · refine total_bind.mpr ⟨total_parseColumnRef _, fun _ _ => ?_⟩
    exact total_bind.mpr ⟨total_parseColumnRef _, fun _ _ => total_ok _⟩
  · exact total_unsupportedOperation _

theorem total_parseJoinCondition (join : TableJoin) : Total (parseJoinCondition x join) := by
  have constraints : ∀ c, Total (parseJoinConstraint x c) := by
    intro c
    cases c with
    | on e => exact total_parseJoinOnExpr e
    | using_ => exact total_unsupportedOperation _
    | natural => exact total_unsupportedOperation _
    | none => exact total_unsupportedOperation _
  unfold parseJoinCondition
  cases join.joinOperator with
  | inner c => exact constraints c
  | leftOuter c => exact constraints c
  | rightOuter c => exact constraints c
  | fullOuter c => exact constraints c
  | other => exact total_unsupportedOperation _

theorem total_parseJoinType (op : JoinOperator) : Total (parseJoinType op) := by
  unfold parseJoinType
  split <;> simp

theorem total_columnQualifier (arg : Argument) : Total (columnQualifier arg) := by
  unfold columnQualifier
  split
  · exact total_firstPart _ _
  · exact total_ok _
  · exact total_parseError _

theorem total_parseJsonExtractForJoin (args : List Argument) : Total (parseJsonExtractForJoin args) := by
  unfold parseJsonExtractForJoin
  split
  · exact total_parseError _
  · apply total_itemAt_bind (by omega)
    intro arg
    refine total_bind.mpr ⟨total_columnQualifier arg, fun qualifier _ => ?_⟩
    apply total_itemAt_bind (by omega)
    exact fun arg => total_bind.mpr ⟨total_pathLiteral arg, fun _ _ => total_ok _⟩

theorem total_parseJoinSelectExpr (e : Term) (called : Option String) : Total (parseJoinSelectExpr x e called) := by
  unfold parseJoinSelectExpr
  dsimp only
  split
  · split
    · apply total_itemAt_bind (by omega)
      intro qualifier
      exact total_itemAt_bind (by omega) fun _ => total_ok _
    · exact total_unsupportedOperation _
  · split
    · exact total_bind.mpr ⟨total_parseJsonExtractForJoin _, fun _ _ => total_ok _⟩
    · exact total_unsupportedOperation _
  · exact total_ok _
  · exact total_unsupportedOperation _

theorem total_parseJoinItem (item : SelectItem) : Total (parseJoinItem x item) := by
  unfold parseJoinItem
  split
  · exact total_ok _
  · exact total_ok _
  · exact total_parseJoinSelectExpr _ _
  · exact total_parseJoinSelectExpr _ _

theorem total_parseJoinSelectColumns (select : Select) : Total (parseJoinSelectColumns x select) :=
  total_foldlM (fun _ item _ => total_bind.mpr ⟨total_parseJoinItem item, fun _ _ => total_ok _⟩) []

theorem total_parseOrderBy (column : Term → Option String) (query : Query) : Total (parseOrderBy column query) := by
  unfold parseOrderBy
  split
  · exact total_ok _
  · next empty => exact total_itemAt_bind (length_pos_of_not_isEmpty empty) fun _ => total_ok _

/-- The first table has a join. -/
def Joined (select : Select) : Prop := ∃ table, select.tables.head? = some table ∧ table.joins ≠ []

theorem total_tryParseJoinQuery (select : Select) (query : Query) : Total (tryParseJoinQuery x select query) := by
  unfold tryParseJoinQuery
  split
  · exact total_ok _
  · next empty =>
    apply total_itemAt_bind (length_pos_of_not_isEmpty empty)
    intro tableWithJoins
    split
    · exact total_ok _
    · next none =>
      refine total_bind.mpr ⟨total_parseTableRef _, fun left _ => ?_⟩
      apply total_itemAt_bind (length_pos_of_not_isEmpty none)
      intro join
      refine total_bind.mpr ⟨total_parseJoinType _, fun joinType _ => ?_⟩
      refine total_bind.mpr ⟨total_parseTableRef _, fun right _ => ?_⟩
      refine total_bind.mpr ⟨total_parseJoinCondition _, fun condition _ => ?_⟩
      refine total_bind.mpr ⟨total_parseJoinSelectColumns _, fun columns _ => ?_⟩
      refine total_bind.mpr ⟨total_selectionFilters _, fun filters _ => ?_⟩
      exact total_bind.mpr ⟨total_parseOrderBy _ _, fun _ _ => total_ok _⟩

/-- The parser goes on to the other kinds of a SELECT that has no join. -/
theorem tryParseJoinQuery_none (select : Select) (query : Query) : tryParseJoinQuery x select query = .ok none ↔ ¬ Joined select := by
  unfold tryParseJoinQuery Joined
  cases tables : select.tables with
  | nil => simp
  | cons table rest =>
    cases joins : table.joins with
    | nil => simp [itemAt, joins]
    | cons join others =>
      refine iff_of_false ?_ (by simp [joins])
      intro ended
      simp only [List.isEmpty_cons, Bool.false_eq_true, if_false, itemAt, List.getElem?_cons_zero, ok_bind] at ended
      rw [joins] at ended
      obtain ⟨left, -, ended⟩ := bind_ok ended
      obtain ⟨join, -, ended⟩ := bind_ok ended
      obtain ⟨joinType, -, ended⟩ := bind_ok ended
      obtain ⟨right, -, ended⟩ := bind_ok ended
      obtain ⟨condition, -, ended⟩ := bind_ok ended
      obtain ⟨columns, -, ended⟩ := bind_ok ended
      obtain ⟨filters, -, ended⟩ := bind_ok ended
      obtain ⟨orderBy, -, ended⟩ := bind_ok ended
      cases ended

end StreamHouse.Sql.Parser
