import StreamHouse.Sql.ParserTotality

/-!
# Where a SELECT is read without a panic

The products of the intervals and the arguments of the aggregations are not checked. A SELECT is read without a panic
exactly if each that the parser gets to is one that it can read.
-/

namespace StreamHouse.Sql.Parser

open Lib List

variable {F : Type} (x : Externals F)

/-! ## Intervals -/

/-- The number of an interval, in its unit, is an `i64`. -/
def IntervalFits (s : String) : Prop :=
  ∀ first ∈ (splitWhitespace s).head?, ∀ value ∈ parseI64 first.toList,
    ∀ m ∈ multiplier (((splitWhitespace s)[1]?.map x.lower).getD "milliseconds"), I64.Fits (value * m)

/-- The text of an interval. -/
def intervalText : Argument → Option String
  | .term (.interval (.value (.singleQuotedString s))) => some s
  | .term (.value (.singleQuotedString s)) => some s
  | _ => none

def ArgumentFits (arg : Argument) : Prop := ∀ s ∈ intervalText arg, IntervalFits x s

/-- The intervals of a window function that has enough arguments. -/
def intervalArgs : Term → List Argument
  | .function name args _ =>
    let funcName := toUppercase x name
    if funcName ∈ ["TUMBLE", "SESSION"] then if args.length < 2 then [] else (args.drop 1).take 1
    else if funcName = "HOP" then if args.length < 3 then [] else (args.drop 1).take 2
    else []
  | _ => []

/-- The intervals of a term, up to the first that is rejected. -/
def CallFits (term : Term) : Prop := ∀ arg, Reaches (parseIntervalArg x) (intervalArgs x term) arg → ArgumentFits x arg

/-- The terms of a GROUP BY clause, up to the first that is rejected. -/
def GroupsFit (functionName : String → List Argument → Parse String) (terms : List Term) : Prop :=
  ∀ term, Reaches (groupTerm x functionName) terms term → CallFits x term

/-! ## Aggregations -/

/-- The functions that are aggregations of their first argument. -/
def pathFunctions : List String := ["SUM", "AVG", "MEAN", "MIN", "MAX", "FIRST", "FIRST_VALUE", "LAST", "LAST_VALUE"]

/-- An aggregation of an argument has one. -/
def ArgumentGiven : Term → Prop
  | .function name args distinct =>
    (toUppercase x name = "COUNT" ∧ distinct = true) ∨ toUppercase x name ∈ pathFunctions → args ≠ []
  | _ => True

def ItemFits : SelectItem → Prop
  | .unnamedExpr e => ArgumentGiven x e
  | .exprWithAlias e _ => ArgumentGiven x e
  | _ => True

/-- The items of the projection, up to the first that is rejected. -/
def AggregationsFit (select : Select) : Prop := ∀ item, Reaches (itemAggregation x) select.projection item → ItemFits x item

/-! ## SELECT -/

/-- All terms are accepted. -/
def Accepted (functionName : String → List Argument → Parse String) (terms : List Term) : Prop :=
  ∀ term ∈ terms, ∃ found, groupTerm x functionName term = .ok found

/-- Without a join, the GROUP BY clause is read, and then the aggregations; where there is a window, the topic comes
first. -/
def SelectFits (select : Select) : Prop :=
  ¬ Joined select → ∀ terms, select.groupBy = .expressions terms → terms ≠ [] →
    GroupsFit x (pathOrName x) terms ∧
      (Accepted x (pathOrName x) terms → ((∃ term ∈ terms, (windowCall x term).isSome) → NamesTopic select) → AggregationsFit x select)

/-- The SELECT of a materialized view: the topic, the GROUP BY clause and the aggregations. -/
def ViewSelectFits (select : Select) : Prop :=
  NamesTopic select → ∀ terms, select.groupBy = .expressions terms →
    GroupsFit x (fun name _ => .ok name) terms ∧ (Accepted x (fun name _ => .ok name) terms → AggregationsFit x select)

variable {x}

/-! ## The readers of intervals -/

theorem total_parseIntervalString {s : String} : Total (parseIntervalString x s) ↔ IntervalFits x s := by
  unfold parseIntervalString IntervalFits
  cases split : splitWhitespace s with
  | nil => simp
  | cons first rest =>
    cases number : parseI64 first.toList with
    | none => simp [itemAt, number]
    | some value =>
      have unit : secondOr (first :: rest) (fun part => .ok (x.lower part)) "milliseconds" =
          .ok (((first :: rest)[1]?.map x.lower).getD "milliseconds") := by
        cases rest <;> simp [secondOr, itemAt]
      simp only [isEmpty_cons, Bool.false_eq_true, if_false, itemAt, getElem?_cons_zero, ok_bind, number, unit]
      cases isUnit : multiplier (((first :: rest)[1]?.map x.lower).getD "milliseconds") with
      | none => simp
      | some m =>
        by_cases fits : I64.Fits (value * m)
        · simp [number, fits]
        · simp [number, fits]

theorem total_parseIntervalExpr {e : Term} : Total (parseIntervalExpr x e) ↔ ArgumentFits x (.term e) := by
  unfold ArgumentFits parseIntervalExpr
  split
  · simp [intervalText, total_parseIntervalString]
  · next value unquoted =>
    refine iff_of_true (total_parseError _) ?_
    unfold intervalText
    split
    · next s same => exact absurd (by injection same with same; injection same) (unquoted s)
    · next s same => cases same
    · simp
  · refine iff_of_true ?_ (by simp [intervalText])
    split
    · exact total_ok _
    · exact total_parseError _
  · simp [intervalText, total_parseIntervalString]
  · next first second third fourth =>
    refine iff_of_true (total_parseError _) ?_
    unfold intervalText
    split
    · next s same => exact absurd (by injection same) (second _)
    · next s same => exact absurd (by injection same) (fourth s)
    · simp

theorem total_parseIntervalArg {arg : Argument} : Total (parseIntervalArg x arg) ↔ ArgumentFits x arg := by
  cases arg with
  | term e => exact total_parseIntervalExpr
  | wildcard => simp [parseIntervalArg, ArgumentFits, intervalText]
  | other => simp [parseIntervalArg, ArgumentFits, intervalText]

variable {args : List Argument} {functionName : String → List Argument → Parse String} {terms : List Term}
    {found : Option WindowType × List String} {select : Select} {query : Query}

/-- The argument behind the timestamp is read. -/
theorem total_secondArg {α : Type} (enough : ¬ args.length < 2) (window : Int → α) :
    Total (do return window (← parseIntervalArg x (← itemAt args 1))) ↔
      ∀ arg, Reaches (parseIntervalArg x) ((args.drop 1).take 1) arg → ArgumentFits x arg := by
  obtain ⟨ts, args, rfl⟩ := exists_cons_of_length_pos (show 0 < args.length by omega)
  obtain ⟨size, args, rfl⟩ := exists_cons_of_length_pos (show 0 < args.length by rw [length_cons] at enough; omega)
  have reads : Total (parseIntervalArg x size >>= fun size => pure (window size)) ↔ ArgumentFits x size := by
    rw [total_bind, total_parseIntervalArg]
    exact and_iff_left fun _ _ => total_ok _
  rw [drop_one, tail_cons, take_cons Nat.one_pos, forall_reaches_cons, ← reads]
  exact (and_iff_left fun _ => forall_reaches_nil).symm

theorem total_parseTumbleWindow : Total (parseTumbleWindow x args) ↔
    ∀ arg, Reaches (parseIntervalArg x) (if args.length < 2 then [] else (args.drop 1).take 1) arg → ArgumentFits x arg := by
  unfold parseTumbleWindow
  split
  · exact iff_of_true (total_parseError _) forall_reaches_nil
  · next enough => exact total_secondArg enough WindowType.tumble

theorem total_parseSessionWindow : Total (parseSessionWindow x args) ↔
    ∀ arg, Reaches (parseIntervalArg x) (if args.length < 2 then [] else (args.drop 1).take 1) arg → ArgumentFits x arg := by
  unfold parseSessionWindow
  split
  · exact iff_of_true (total_parseError _) forall_reaches_nil
  · next enough => exact total_secondArg enough WindowType.session

theorem total_parseHopWindow : Total (parseHopWindow x args) ↔
    ∀ arg, Reaches (parseIntervalArg x) (if args.length < 3 then [] else (args.drop 1).take 2) arg → ArgumentFits x arg := by
  unfold parseHopWindow
  split
  · exact iff_of_true (total_parseError _) forall_reaches_nil
  · next enough =>
    obtain ⟨ts, args, rfl⟩ := exists_cons_of_length_pos (show 0 < args.length by omega)
    obtain ⟨size, args, rfl⟩ := exists_cons_of_length_pos (show 0 < args.length by rw [length_cons] at enough; omega)
    obtain ⟨slide, args, rfl⟩ := exists_cons_of_length_pos (show 0 < args.length by simp only [length_cons] at enough; omega)
    have reads : Total (parseIntervalArg x size >>= fun size => parseIntervalArg x slide >>= fun slide => pure (WindowType.hop size slide)) ↔
        ArgumentFits x size ∧ ((∃ v, parseIntervalArg x size = .ok v) → ArgumentFits x slide) := by
      rw [total_bind, total_parseIntervalArg, forall_exists_index]
      refine and_congr_right fun _ => forall_congr' fun _ => imp_congr_right fun _ => ?_
      rw [total_bind, total_parseIntervalArg]
      exact and_iff_left fun _ _ => total_ok _
    rw [drop_one, tail_cons, take_cons Nat.two_pos, take_cons Nat.one_pos, forall_reaches_cons, forall_reaches_cons]
    exact reads.trans (and_congr_right fun _ => imp_congr_right fun _ => (and_iff_left fun _ => forall_reaches_nil).symm)

/-! ## The GROUP BY clause -/

theorem total_pathOrName (name : String) (args : List Argument) : Total (pathOrName x name args) := by
  unfold pathOrName
  split
  · have total := total_extractPathFromJsonExtract args
    split
    · exact total_ok _
    · exact total_ok _
    · next read => exact absurd read total
  · exact total_ok _

theorem total_groupNames (names : ∀ name args, Total (functionName name args))
    (term : Term) : Total (groupNames functionName term) := by
  unfold groupNames
  split
  · exact total_bind.mpr ⟨names _ _, fun _ _ => total_ok _⟩
  · exact total_ok _
  · exact total_ok _

theorem total_groupTerm (names : ∀ name args, Total (functionName name args))
    {term : Term} : Total (groupTerm x functionName term) ↔ CallFits x term := by
  have none : intervalArgs x term = [] → windowCall x term = none → (Total (groupTerm x functionName term) ↔ CallFits x term) := by
    intro args call
    unfold groupTerm CallFits
    rw [args, call]
    exact iff_of_true (total_bind.mpr ⟨total_groupNames names term, fun _ _ => total_ok _⟩) forall_reaches_nil
  have call : ∀ window args, windowCall x term = some window → intervalArgs x term = args →
      (Total window ↔ ∀ arg, Reaches (parseIntervalArg x) args arg → ArgumentFits x arg) →
      (Total (groupTerm x functionName term) ↔ CallFits x term) := by
    intro window args isCall areArgs fits
    unfold groupTerm CallFits
    rw [isCall, areArgs, ← fits]
    exact total_bind.trans (and_iff_left fun _ _ => total_ok _)
  cases term with
  | function name args distinct =>
    by_cases tumble : toUppercase x name = "TUMBLE"
    · exact call _ _ (if_pos tumble) (if_pos (by simp [tumble])) total_parseTumbleWindow
    by_cases hop : toUppercase x name = "HOP"
    · exact call _ _ ((if_neg tumble).trans (if_pos hop)) ((if_neg (by simp [hop])).trans (if_pos hop)) total_parseHopWindow
    by_cases session : toUppercase x name = "SESSION"
    · exact call _ _ ((if_neg tumble).trans ((if_neg hop).trans (if_pos session))) (if_pos (by simp [session])) total_parseSessionWindow
    · exact none (by simp [intervalArgs, tumble, hop, session]) (by simp [windowCall, tumble, hop, session])
  | _ => exact none rfl rfl

theorem total_groupTerms (names : ∀ name args, Total (functionName name args))
    : Total (groupTerms x functionName terms) ↔ GroupsFit x functionName terms := by
  unfold groupTerms GroupsFit
  exact total_collect.trans (forall₂_congr fun term _ => total_groupTerm names)

theorem groupTerms_ok : (∃ found, groupTerms x functionName terms = .ok found) ↔ Accepted x functionName terms := collect_ok

/-- A term that is accepted has a window exactly if it is a call of one. -/
theorem groupTerm_window {term : Term} (read : groupTerm x functionName term = .ok found) : found.1.isSome = (windowCall x term).isSome := by
  unfold groupTerm at read
  cases call : windowCall x term with
  | none =>
    rw [call] at read
    obtain ⟨names, -, read⟩ := bind_ok read
    obtain rfl := Except.ok.inj read
    rfl
  | some window =>
    rw [call] at read
    obtain ⟨window, -, read⟩ := bind_ok read
    obtain rfl := Except.ok.inj read
    rfl

theorem groupTerms_from {start : Option WindowType × List String} (read : terms.foldlM (fun found term => do
      let (window, names) ← groupTerm x functionName term
      return (window.or found.1, found.2 ++ names)) start = .ok found) :
    found.1.isSome ↔ start.1.isSome ∨ ∃ term ∈ terms, (windowCall x term).isSome := by
  induction terms generalizing start with
  | nil =>
    obtain rfl := Except.ok.inj read
    simp
  | cons term terms ih =>
    rw [foldlM_cons] at read
    obtain ⟨next, turn, read⟩ := bind_ok read
    obtain ⟨added, isAdded, turn⟩ := bind_ok turn
    obtain rfl := Except.ok.inj turn
    rw [ih read, exists_mem_cons_iff, ← groupTerm_window isAdded]
    simp [or_assoc, or_left_comm]

/-- The loop finds a window if a term is one. -/
theorem groupTerms_window (read : groupTerms x functionName terms = .ok found) :
    found.1.isSome ↔ ∃ term ∈ terms, (windowCall x term).isSome := by
  simpa using groupTerms_from read

/-! ## The aggregations -/

theorem pathAggregation_isSome {funcName : String} {called : Option String} :
    (pathAggregation funcName called).isSome ↔ funcName ∈ pathFunctions := by
  unfold pathAggregation pathFunctions
  split_ifs <;> grind

theorem total_firstArg {α β : Type} {read : Argument → Parse α} (reads : ∀ arg, Total (read arg)) (f : α → β) :
    Total (do return f (← read (← itemAt args 0))) ↔ args ≠ [] := by
  rw [total_bind, total_itemAt, length_pos_iff]
  exact and_iff_left fun arg _ => total_bind.mpr ⟨reads arg, fun _ _ => total_ok _⟩

theorem total_tryParseAggregation {e : Term} {called : Option String} : Total (tryParseAggregation x e called) ↔ ArgumentGiven x e := by
  unfold tryParseAggregation ArgumentGiven
  cases e with
  | function name args distinct =>
    dsimp only
    by_cases count : toUppercase x name = "COUNT"
    · cases distinct with
      | true => simpa [count] using total_firstArg total_extractColumnFromArg fun column => some (WindowAggregation.countDistinct column called)
      | false => simp [count, pathFunctions]
    · rw [if_neg count, or_iff_right fun both => count both.1, ← @pathAggregation_isSome _ called]
      cases pathAggregation (toUppercase x name) called with
      | none => simp
      | some aggregation =>
        simpa using total_firstArg total_extractPathFromAggArg fun path => some (aggregation path)
  | _ => exact iff_of_true (total_ok _) trivial

theorem total_itemAggregation {item : SelectItem} : Total (itemAggregation x item) ↔ ItemFits x item := by
  cases item with
  | unnamedExpr e => exact total_tryParseAggregation
  | exprWithAlias e called => exact total_tryParseAggregation
  | wildcard => exact iff_of_true (total_ok _) trivial
  | qualifiedWildcard displayed => exact iff_of_true (total_ok _) trivial

theorem total_parseWindowAggregations : Total (parseWindowAggregations x select) ↔ AggregationsFit x select :=
  total_collect.trans (forall₂_congr fun _ _ => total_itemAggregation)

/-! ## The kinds of a SELECT -/

theorem total_tryParseWindowQuery : Total (tryParseWindowQuery x select query) ↔
    ∀ terms, select.groupBy = .expressions terms → terms ≠ [] → GroupsFit x (pathOrName x) terms ∧
      (Accepted x (pathOrName x) terms → ((∃ term ∈ terms, (windowCall x term).isSome) → NamesTopic select) → AggregationsFit x select) := by
  unfold tryParseWindowQuery
  cases groupBy : select.groupBy with
  | all => simp
  | expressions terms =>
    simp only [GroupByExpr.expressions.injEq, forall_eq']
    cases terms with
    | nil => simp
    | cons term terms =>
      rw [if_neg (by simp), forall_prop_of_true (cons_ne_nil _ _), total_bind, total_groupTerms total_pathOrName, ← groupTerms_ok]
      refine and_congr_right fun _ => ?_
      rw [forall_exists_index]
      refine forall₂_congr fun found read => ?_
      rw [← groupTerms_window read]
      obtain ⟨window, names⟩ := found
      cases window with
      | none =>
        simp only [Option.isSome_none, Bool.false_eq_true, false_imp_iff, true_imp_iff]
        exact total_bind.trans ((and_iff_left fun _ _ => total_ok _).trans total_parseWindowAggregations)
      | some window =>
        simp only [Option.isSome_some, true_imp_iff]
        rw [← parseFromClause_ok, total_bind, forall_exists_index]
        refine (and_iff_right (total_parseFromClause select)).trans (forall₂_congr fun topic _ => ?_)
        refine total_bind.trans ((and_iff_left fun _ _ => ?_).trans total_parseWindowAggregations)
        exact total_bind.mpr ⟨total_selectionFilters select, fun _ _ => total_ok _⟩

/-- A SELECT with groups that has no window has read its aggregations. -/
theorem aggregations_of_noWindow {term : Term} (groups : select.groupBy = .expressions (term :: terms)) (noWindow : tryParseWindowQuery x select query = .ok none) :
    Total (parseWindowAggregations x select) := by
  unfold tryParseWindowQuery at noWindow
  rw [groups] at noWindow
  obtain ⟨⟨window, names⟩, -, noWindow⟩ := bind_ok noWindow
  cases window with
  | none =>
    obtain ⟨aggregations, read, -⟩ := bind_ok noWindow
    rw [read]
    exact total_ok _
  | some window =>
    obtain ⟨topic, -, noWindow⟩ := bind_ok noWindow
    obtain ⟨aggregations, -, noWindow⟩ := bind_ok noWindow
    obtain ⟨filters, -, noWindow⟩ := bind_ok noWindow
    cases noWindow

theorem total_tryParseGroupByQuery (noWindow : tryParseWindowQuery x select query = .ok none) :
    Total (tryParseGroupByQuery x select query) := by
  unfold tryParseGroupByQuery
  cases groups : select.groupBy with
  | all => exact total_ok _
  | expressions terms =>
    cases terms with
    | nil => exact total_ok _
    | cons term terms =>
      refine total_bind.mpr ⟨aggregations_of_noWindow groups noWindow, fun aggregations _ => ?_⟩
      split
      · exact total_ok _
      · refine total_bind.mpr ⟨total_foldlM (fun _ term _ => ?_) [], fun groupBy _ => ?_⟩
        · exact total_bind.mpr ⟨total_groupNames total_pathOrName term, fun _ _ => total_ok _⟩
        · refine total_bind.mpr ⟨total_parseFromClause select, fun topic _ => ?_⟩
          exact total_bind.mpr ⟨total_selectionFilters select, fun _ _ => total_ok _⟩

theorem total_parseCountQuery (select : Select) : Total (parseCountQuery x select) := by
  refine total_bind.mpr ⟨total_parseFromClause select, fun topic _ => ?_⟩
  exact total_bind.mpr ⟨total_selectionFilters select, fun _ _ => total_ok _⟩

theorem total_parseRowsQuery (select : Select) (query : Query) : Total (parseRowsQuery x select query) := by
  refine total_bind.mpr ⟨total_parseFromClause select, fun topic _ => ?_⟩
  refine total_bind.mpr ⟨total_parseSelectColumns select, fun columns _ => ?_⟩
  refine total_bind.mpr ⟨total_selectionFilters select, fun filters _ => ?_⟩
  exact total_bind.mpr ⟨total_parseOrderBy _ query, fun _ _ => total_ok _⟩

/-- Only the reader of windows can panic: what comes behind it has been read before. -/
theorem total_parseSelectQuery :
    Total (parseSelectQuery x query) ↔ ∀ select, query.body = some select → SelectFits x select := by
  unfold parseSelectQuery
  cases body : query.body with
  | none => simp
  | some select =>
    simp only [Option.some.injEq, forall_eq']
    unfold SelectFits
    by_cases joined : Joined select
    · refine iff_of_true (total_bind.mpr ⟨total_tryParseJoinQuery select query, fun found read => ?_⟩) fun none => absurd joined none
      cases found with
      | none => exact absurd joined ((tryParseJoinQuery_none select query).mp read)
      | some join => exact total_ok _
    · rw [forall_prop_of_true joined, ← @total_tryParseWindowQuery _ x select query, (tryParseJoinQuery_none select query).mpr joined, ok_bind,
        total_bind]
      refine and_iff_left fun found read => ?_
      cases found with
      | some window => exact total_ok _
      | none =>
        refine total_bind.mpr ⟨total_tryParseGroupByQuery read, fun grouped _ => ?_⟩
        cases grouped with
        | some grouped => exact total_ok _
        | none =>
          refine total_bind.mpr ⟨total_isCountQuery select, fun counted _ => ?_⟩
          split
          · exact total_parseCountQuery select
          · exact total_parseRowsQuery select query

theorem total_parseMvWindowClause : Total (parseMvWindowClause x select) ↔
    ∀ terms, select.groupBy = .expressions terms → GroupsFit x (fun name _ => .ok name) terms ∧
      (Accepted x (fun name _ => .ok name) terms → AggregationsFit x select) := by
  unfold parseMvWindowClause
  cases groupBy : select.groupBy with
  | all => simp
  | expressions terms =>
    simp only [GroupByExpr.expressions.injEq, forall_eq']
    cases terms with
    | nil =>
      rw [if_pos (by simp), total_bind, total_parseWindowAggregations]
      refine (and_iff_left fun _ _ => total_ok _).trans ?_
      exact ⟨fun fit => ⟨forall_reaches_nil, fun _ => fit⟩, fun both => both.2 fun _ inside => absurd inside not_mem_nil⟩
    | cons term terms =>
      rw [if_neg (by simp), total_bind, total_groupTerms fun _ _ => total_ok _, ← groupTerms_ok, forall_exists_index]
      refine and_congr_right fun _ => forall₂_congr fun found read => ?_
      exact total_bind.trans ((and_iff_left fun _ _ => total_ok _).trans total_parseWindowAggregations)

end StreamHouse.Sql.Parser
