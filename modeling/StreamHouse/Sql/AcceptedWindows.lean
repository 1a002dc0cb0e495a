import StreamHouse.Sql.ParserTotality
import StreamHouse.Sql.WindowLoops

/-!
# The windows that are accepted

A window that a query is executed with has sizes that are `i64` numbers, of any sign: nothing else is checked of them.
-/

namespace StreamHouse.Sql.Parser

open Lib I64 Option

variable {F : Type} {x : Externals F}

/-- The window and the groups that a query is executed with. -/
def ParsedQuery.grouping : ParsedQuery F → Option (WindowType × List String)
  | .windowAggregate q => some (q.window, q.groupBy)
  | .createMaterializedView q => q.window.map fun window => (window, q.groupBy)
  | _ => none

/-- The window of a query, if it has one, has such sizes. -/
def WindowsFit (q : ParsedQuery F) : Prop := ∀ window groupBy, q.grouping = some (window, groupBy) → SizesFit window

theorem fits_of_parseI64 {text : List Char} {n : Int} (read : parseI64 text = some n) : Fits n := by
  unfold parseI64 at read
  dsimp only at read
  obtain ⟨⟨-, -, low, high⟩, same⟩ := ite_none_right_eq_some.mp read
  rw [← some.inj same]
  exact ⟨low, high⟩

theorem yields_parseIntervalString {s : String} : Yields Fits (parseIntervalString x s) := by
  unfold parseIntervalString
  dsimp only
  split
  · exact yields_error
  refine yields_bind yields_any fun first _ => ?_
  split
  · exact yields_error
  refine yields_bind yields_any fun unit _ => ?_
  split
  · exact yields_error
  split
  · next fits => exact yields_ok.mpr fits
  · exact yields_error

theorem yields_parseIntervalArg {arg : Argument} : Yields Fits (parseIntervalArg x arg) := by
  unfold parseIntervalArg
  split
  · unfold parseIntervalExpr
    split
    · exact yields_parseIntervalString
    · exact yields_error
    · split
      · next read => exact yields_ok.mpr (fits_of_parseI64 read)
      · exact yields_error
    · exact yields_parseIntervalString
    · exact yields_error
  · exact yields_error

theorem yields_windowCall {term : Term} {window : Parse WindowType} (call : windowCall x term = some window) : Yields SizesFit window := by
  unfold windowCall at call
  split at call
  · dsimp only at call
    split_ifs at call
    · obtain rfl := some.inj call
      unfold parseTumbleWindow
      split
      · exact yields_error
      refine yields_bind yields_any fun arg _ => ?_
      exact yields_bind yields_parseIntervalArg fun size fits => yields_ok.mpr fits
    · obtain rfl := some.inj call
      unfold parseHopWindow
      split
      · exact yields_error
      refine yields_bind yields_any fun arg _ => ?_
      refine yields_bind yields_parseIntervalArg fun size fits => ?_
      refine yields_bind yields_any fun arg _ => ?_
      exact yields_bind yields_parseIntervalArg fun slide fits' => yields_ok.mpr ⟨fits, fits'⟩
    · obtain rfl := some.inj call
      unfold parseSessionWindow
      split
      · exact yields_error
      refine yields_bind yields_any fun arg _ => ?_
      exact yields_bind yields_parseIntervalArg fun gap fits => yields_ok.mpr fits
  · cases call

theorem yields_groupTerm {functionName : String → List Argument → Parse String} {term : Term} :
    Yields (fun found => ∀ w ∈ found.1, SizesFit w) (groupTerm x functionName term) := by
  unfold groupTerm
  split
  · next window call =>
    exact yields_bind (yields_windowCall call) fun w fits => yields_ok.mpr fun w' same => some.inj same ▸ fits
  · exact yields_bind yields_any fun names _ => yields_ok.mpr fun w none => by cases none

/-- The window of the loop is that of a term. -/
theorem yields_groupTerms {functionName : String → List Argument → Parse String} {terms : List Term} :
    Yields (fun found => ∀ w ∈ found.1, SizesFit w) (groupTerms x functionName terms) := by
  refine yields_foldlM (fun found term fits => ?_) fun w none => by cases none
  refine yields_bind yields_groupTerm fun added fits' => yields_ok.mpr fun w isWindow => ?_
  obtain ⟨window, names⟩ := added
  cases window with
  | none => exact fits w isWindow
  | some window => exact fits' w isWindow

theorem yields_tryParseWindowQuery {select : Select} {query : Query} :
    Yields (fun q => ∀ q' ∈ q, SizesFit q'.window) (tryParseWindowQuery x select query) := by
  unfold tryParseWindowQuery
  split
  · exact yields_ok.mpr fun q none => by cases none
  split
  · exact yields_ok.mpr fun q none => by cases none
  refine yields_bind yields_groupTerms fun found fits => ?_
  obtain ⟨window, names⟩ := found
  cases window with
  | none => exact yields_bind yields_any fun _ _ => yields_ok.mpr fun q none => by cases none
  | some window =>
    refine yields_bind yields_any fun topic _ => ?_
    refine yields_bind yields_any fun aggregations _ => ?_
    refine yields_bind yields_any fun filters _ => ?_
    exact yields_ok.mpr fun q same => some.inj same ▸ fits window rfl

theorem yields_firstStatement {text : String} {α : Type} {invalid : String → String} {empty : String} {read : Statement → Parse α}
    {P : α → Prop} (reads : ∀ statement, Yields P (read statement)) : Yields P (firstStatement x text invalid empty read) := by
  unfold firstStatement
  split
  · exact yields_error
  split
  · exact yields_error
  · exact yields_bind yields_any fun statement _ => reads statement

/-- Joins, groups, counts and rows have no window. -/
theorem yields_parseSelectQuery {query : Query} : Yields WindowsFit (parseSelectQuery x query) := by
  have windowless : ∀ q : ParsedQuery F, q.grouping = none → WindowsFit q := fun q none window groupBy same => by
    rw [none] at same
    cases same
  unfold parseSelectQuery
  split
  · exact yields_error
  refine yields_bind yields_any fun joined _ => ?_
  split
  · exact yields_ok.mpr (windowless _ rfl)
  refine yields_bind yields_tryParseWindowQuery fun windowed fits => ?_
  split
  · next q =>
    refine yields_ok.mpr fun window groupBy same => ?_
    obtain ⟨rfl, rfl⟩ := Prod.mk.inj (some.inj same)
    exact fits q rfl
  refine yields_bind yields_any fun grouped _ => ?_
  split
  · exact yields_ok.mpr (windowless _ rfl)
  refine yields_bind yields_any fun counted _ => ?_
  split
  · refine yields_bind yields_any fun topic _ => ?_
    exact yields_bind yields_any fun filters _ => yields_ok.mpr (windowless _ rfl)
  · refine yields_bind yields_any fun topic _ => ?_
    refine yields_bind yields_any fun columns _ => ?_
    refine yields_bind yields_any fun filters _ => ?_
    exact yields_bind yields_any fun orderBy _ => yields_ok.mpr (windowless _ rfl)

theorem yields_parseMvWindowClause {select : Select} :
    Yields (fun found => ∀ w ∈ found.1, SizesFit w) (parseMvWindowClause x select) := by
  unfold parseMvWindowClause
  split
  · exact yields_ok.mpr fun w none => by cases none
  split
  · exact yields_bind yields_any fun aggregations _ => yields_ok.mpr fun w none => by cases none
  · refine yields_bind yields_groupTerms fun found fits => ?_
    exact yields_bind yields_any fun aggregations _ => yields_ok.mpr fits

theorem yields_parseCreateMaterializedView {sql : String} : Yields WindowsFit (parseCreateMaterializedView x sql) := by
  unfold parseCreateMaterializedView
  dsimp only
  split
  · exact yields_error
  split
  · exact yields_error
  refine yields_bind yields_any fun namePart _ => ?_
  refine yields_bind yields_any fun named _ => ?_
  refine yields_bind yields_any fun selectSql _ => ?_
  refine yields_firstStatement fun statement => ?_
  unfold parseViewSelect
  split
  · split
    · exact yields_error
    refine yields_bind yields_any fun sourceTopic _ => ?_
    refine yields_bind yields_parseMvWindowClause fun found fits => ?_
    refine yields_bind yields_any fun filters _ => yields_ok.mpr fun window groupBy same => ?_
    obtain ⟨w, isWindow, same⟩ := map_eq_some_iff.mp same
    obtain ⟨rfl, -⟩ := Prod.mk.inj same
    exact fits w isWindow
  · exact yields_error

theorem yields_parseQuery {sql : String} : Yields WindowsFit (parseQuery x sql) := by
  have windowless : ∀ q : ParsedQuery F, q.grouping = none → WindowsFit q := fun q none window groupBy same => by
    rw [none] at same
    cases same
  have word : ∀ {r : Parse String} {query : String → ParsedQuery F}, (∀ s, (query s).grouping = none) → Yields WindowsFit (r.map query) := by
    intro r query none
    cases r with
    | error fault => exact yields_error
    | ok s => exact yields_ok.mpr (windowless _ (none s))
  unfold parseQuery
  dsimp only
  split
  · exact yields_ok.mpr (windowless _ rfl)
  split
  · exact yields_ok.mpr (windowless _ rfl)
  split
  · exact word fun _ => rfl
  split
  · exact word fun _ => rfl
  split
  · exact word fun _ => rfl
  split
  · exact word fun _ => rfl
  split
  · exact yields_parseCreateMaterializedView
  refine yields_firstStatement fun statement => ?_
  unfold parseStatement
  split
  · exact yields_parseSelectQuery
  · exact yields_error

end StreamHouse.Sql.Parser
