import StreamHouse.Lib.Delimited
import StreamHouse.Server.MaterializedViews
import StreamHouse.Sql.WindowSplit

/-!
# The rows of a view

The key of a row tells the window and the group, so that the table of a view has one row for each
window of its messages.
-/

namespace StreamHouse.Server.Views

open Metadata Storage Sql Lib OrderedMap List Option

/-! ## The text of a key -/

theorem colon_notMem (n : Int) : ':' ∉ (toString n).toList := notMem_toString (by decide) (by decide) n

theorem aggKey_inj {groupKey groupKey' : Option String} (shape : groupKey = none ↔ groupKey' = none)
    {windowStart windowEnd windowStart' windowEnd' : Int}
    (same : aggKey groupKey windowStart windowEnd = aggKey groupKey' windowStart' windowEnd') :
    groupKey = groupKey' ∧ windowStart = windowStart' ∧ windowEnd = windowEnd' := by
  have texts := congrArg String.toList same
  simp only [aggKey, String.toList_append, append_assoc] at texts
  have colon : ":".toList = [':'] := rfl
  simp only [colon, singleton_append] at texts
  rw [← cons_append, ← append_assoc, ← cons_append, ← append_assoc] at texts
  obtain ⟨front, last⟩ := split_at_last (colon_notMem _) (colon_notMem _) texts
  obtain ⟨group, first⟩ := split_at_last (colon_notMem _) (colon_notMem _) front
  refine ⟨?_, toString_inj first, toString_inj last⟩
  cases groupKey with
  | none => exact (shape.mp rfl).symm
  | some name =>
    cases groupKey' with
    | none => cases shape.mpr rfl
    | some name' => exact congrArg some (String.toList_inj.mp group)

/-! ## The table of a view -/

/-- The key of a row with its group. -/
def rowKey (key : WindowKey) : String := aggKey (ofLex (ofLex key).2).2 (ofLex key).1 (ofLex (ofLex key).2).1

/-- The keys of one query all have a group, or none. -/
def Shaped (groupBy : List String) (key : WindowKey) : Prop := (ofLex (ofLex key).2).2 = (none : Option String) ↔ groupBy = []

theorem rowKey_inj {groupBy : List String} {key key' : WindowKey} (shaped : Shaped groupBy key) (shaped' : Shaped groupBy key')
    (same : rowKey key = rowKey key') : key = key' := by
  obtain ⟨groups, starts, ends⟩ := aggKey_inj (shaped.trans shaped'.symm) same
  exact Prod.ext starts (Prod.ext ends groups)

theorem shaped_windowKey (display : Json → String) (groupBy : List String) (msg : MessageRow) (windowStart windowEnd : Int) :
    Shaped groupBy (windowKey windowStart windowEnd (extractGroupKey display msg groupBy)) := by
  change extractGroupKey display msg groupBy = none ↔ _
  unfold extractGroupKey
  split_ifs with empty
  · exact iff_of_true rfl empty
  · exact iff_of_false (by simp) empty

variable {display : Json → String}

/-- The windows are in the order of their keys, and each key has its group. -/
theorem groups_spec {window : WindowType} {messages : List MessageRow} {groupBy : List String} {groups : WindowGroups}
    (grouped : groupIntoWindows display window messages groupBy = some groups) :
    Ascending groups ∧ ∀ entry ∈ groups, Shaped groupBy entry.1 := by
  have pushed {entries : List (WindowKey × MessageRow)} (shaped : ∀ entry ∈ entries, Shaped groupBy entry.1) :
      Ascending (entries.foldl OrderedMap.push []) ∧ ∀ entry ∈ entries.foldl OrderedMap.push [], Shaped groupBy entry.1 := by
    refine ⟨(filled_push entries).1, fun entry inside => ?_⟩
    obtain ⟨first, listed, named⟩ := (filled_push entries).2 entry inside
    rw [← named]
    exact shaped first listed
  cases window with
  | tumble size =>
    unfold groupIntoWindows groupIntoTumbleWindows at grouped
    dsimp only at grouped
    split_ifs at grouped with undefined
    rw [← some.inj grouped]
    apply pushed
    intro entry inside
    obtain ⟨msg, -, rfl⟩ := mem_map.mp inside
    apply shaped_windowKey
  | hop size slide =>
    unfold groupIntoWindows groupIntoHopWindows at grouped
    dsimp only at grouped
    split_ifs at grouped with empty
    · rw [← some.inj grouped]
      exact ⟨.nil, fun entry inside => by cases inside⟩
    · rw [← some.inj grouped]
      apply pushed
      intro entry inside
      obtain ⟨windowStart, -, inWindow⟩ := mem_flatMap.mp inside
      obtain ⟨msg, -, rfl⟩ := mem_map.mp inWindow
      apply shaped_windowKey
  | session gap =>
    rw [← some.inj grouped]
    unfold groupIntoSessionWindows
    dsimp only
    have full := filled (fun _ entry => entry.2) (((messages.map fun msg => extractGroupKey display msg groupBy).dedup).flatMap
      (groupSessions display messages gap groupBy))
    refine ⟨full.1, fun entry inside => ?_⟩
    obtain ⟨first, listed, named⟩ := full.2 entry inside
    obtain ⟨groupKey, isGroup, inGroup⟩ := mem_flatMap.mp listed
    obtain ⟨msg, -, rfl⟩ := mem_map.mp (mem_dedup.mp isGroup)
    obtain ⟨session, -, rfl⟩ := mem_map.mp inGroup
    rw [← named]
    apply shaped_windowKey

/-- The table after the rows are upserted into it. -/
def upserted (data : String → Option MaterializedViewData) (rows : List MaterializedViewData) : String → Option MaterializedViewData :=
  rows.foldl (fun data row => Function.update data row.aggKey (some row)) data

variable {query : CreateMaterializedViewQuery}

/-- Under the key of a window stands the row of its messages, if it has any. -/
theorem upserted_rowKey {groups : WindowGroups} (ascending : Ascending groups) (shaped : ∀ entry ∈ groups, Shaped query.groupBy entry.1)
    {key : WindowKey} (isKey : Shaped query.groupBy key) (data : String → Option MaterializedViewData) :
    upserted data (groups.map (viewData query)) (rowKey key) =
      ((get groups key).map fun messages => viewData query (key, messages)).or (data (rowKey key)) := by
  induction groups generalizing data with
  | nil => rfl
  | cons entry rest ih =>
    obtain ⟨least, tail⟩ := pairwise_cons.mp ascending
    have step : upserted data ((entry :: rest).map (viewData query)) =
        upserted (Function.update data (rowKey entry.1) (some (viewData query entry))) (rest.map (viewData query)) := rfl
    rw [step, ih tail (fun e inside => shaped e (mem_cons_of_mem _ inside)), get_cons]
    by_cases here : entry.1 = key
    · have absent : get rest key = none := by
        cases found : get rest key with
        | none => rfl
        | some value => exact absurd here (least _ (mem_of_get found)).ne
      rw [absent, if_pos here, here, Function.update_self, ← here]
      rfl
    · have other : rowKey key ≠ rowKey entry.1 := fun same =>
        here (rowKey_inj (shaped entry mem_cons_self) isKey same.symm)
      rw [if_neg here, Function.update_of_ne other]

/-- Other keys of the table are left as they are. -/
theorem upserted_other {groups : WindowGroups} (shaped : ∀ entry ∈ groups, Shaped query.groupBy entry.1) {key : String}
    (noKey : ∀ windowKey, Shaped query.groupBy windowKey → rowKey windowKey ≠ key) (data : String → Option MaterializedViewData) :
    upserted data (groups.map (viewData query)) key = data key := by
  induction groups generalizing data with
  | nil => rfl
  | cons entry rest ih =>
    have step : upserted data ((entry :: rest).map (viewData query)) =
        upserted (Function.update data (rowKey entry.1) (some (viewData query entry))) (rest.map (viewData query)) := rfl
    rw [step, ih fun e inside => shaped e (mem_cons_of_mem _ inside),
      Function.update_of_ne (noKey entry.1 (shaped entry mem_cons_self)).symm]

theorem computeViewAggregations_eq (messages : List MessageRow) :
    computeViewAggregations display query messages =
      (groupIntoWindows display query.window messages query.groupBy).map (List.map (viewData query)) := by
  unfold computeViewAggregations
  split_ifs with empty
  · rw [empty, groupIntoWindows_nil]
    rfl
  · rfl

/-- **Rows of two parts are the rows of all messages**, if no window has messages of both: the rows
of the new messages are upserted into the table of the old ones. -/
theorem upserted_apart {messages : List MessageRow} {isNew : MessageRow → Bool}
    (apart : Sql.Apart display query.window query.groupBy messages isNew) {new old : List MaterializedViewData}
    (newRows : computeViewAggregations display query (messages.filter isNew) = some new)
    (oldRows : computeViewAggregations display query (messages.filter fun m => !isNew m) = some old) :
    ∃ rows, computeViewAggregations display query messages = some rows ∧ upserted (stored old) new = stored rows := by
  rw [computeViewAggregations_eq] at newRows oldRows
  obtain ⟨newGroups, groupedNew, rfl⟩ := map_eq_some_iff.mp newRows
  obtain ⟨oldGroups, groupedOld, rfl⟩ := map_eq_some_iff.mp oldRows
  obtain ⟨groups, grouped, same⟩ := split_windows apart groupedNew groupedOld
  obtain ⟨ascendingNew, shapedNew⟩ := groups_spec groupedNew
  obtain ⟨ascendingOld, shapedOld⟩ := groups_spec groupedOld
  obtain ⟨ascending, shaped⟩ := groups_spec grouped
  refine ⟨groups.map (viewData query), by rw [computeViewAggregations_eq, grouped, map_some], ?_⟩
  funext key
  change upserted (upserted (fun _ => none) (oldGroups.map (viewData query))) _ key = upserted (fun _ => none) _ key
  by_cases isKey : ∃ windowKey, Shaped query.groupBy windowKey ∧ rowKey windowKey = key
  · obtain ⟨windowKey, shape, rfl⟩ := isKey
    rw [upserted_rowKey ascendingNew shapedNew shape, upserted_rowKey ascendingOld shapedOld shape,
      upserted_rowKey ascending shaped shape, same, or_none, or_none]
    cases get newGroups windowKey <;> rfl
  · have noKey : ∀ windowKey, Shaped query.groupBy windowKey → rowKey windowKey ≠ key := fun windowKey shape same =>
      isKey ⟨windowKey, shape, same⟩
    rw [upserted_other shapedNew noKey, upserted_other shapedOld noKey, upserted_other shaped noKey]

end StreamHouse.Server.Views
