import Mathlib.Data.List.Sort
import Mathlib.Data.String.Basic
import StreamHouse.Core.Json

/-!
# The tables of materialized views

`materialized_views`, `materialized_view_data` and `materialized_view_offsets` of
`SqliteMetadataStore`, and the statements on them. The row of a view has an organization, in
which its name is unique; `get_materialized_view` and `delete_materialized_view` take the name
alone, and `list_materialized_views` takes nothing.
-/

namespace StreamHouse.Metadata

open List

inductive MaterializedViewRefreshMode where
  | continuous
  | periodic (intervalMs : Int)
  | manual

inductive MaterializedViewStatus where
  | initializing
  | running
  | paused
  | error

structure MaterializedView where
  id : String
  organizationId : String
  name : String
  sourceTopic : String
  querySql : String
  refreshMode : MaterializedViewRefreshMode
  status : MaterializedViewStatus
  errorMessage : Option String
  rowCount : Nat
  lastRefreshAt : Option Int
  createdAt : Int
  updatedAt : Int

structure CreateMaterializedView where
  name : String
  sourceTopic : String
  querySql : String
  refreshMode : MaterializedViewRefreshMode
  organizationId : Option String

structure MaterializedViewData where
  viewId : String
  aggKey : String
  aggValues : Json
  windowStart : Option Int
  windowEnd : Option Int
  updatedAt : Int

structure MaterializedViewOffset where
  viewId : String
  partitionId : Nat
  lastOffset : Nat
  lastProcessedAt : Int

/-- What the constraint `UNIQUE(organization_id, name)` is about. -/
def MaterializedView.key (v : MaterializedView) : String × String := (v.organizationId, v.name)

structure ViewTables where
  views : List MaterializedView
  data : List MaterializedViewData
  offsets : List MaterializedViewOffset
  /-- The primary key of `materialized_views`. -/
  ids : (views.map MaterializedView.id).Nodup
  keys : (views.map MaterializedView.key).Nodup

namespace ViewTables

/-- The tables after their migration. -/
def empty : ViewTables where
  views := []
  data := []
  offsets := []
  ids := nodup_nil
  keys := nodup_nil

variable (m : ViewTables)

/-- The row that `create_materialized_view` inserts, with the id drawn for it. -/
def newView (id : String) (config : CreateMaterializedView) (now : Int) : MaterializedView where
  id
  organizationId := config.organizationId.getD ""
  name := config.name
  sourceTopic := config.sourceTopic
  querySql := config.querySql
  refreshMode := config.refreshMode
  status := .initializing
  errorMessage := none
  rowCount := 0
  lastRefreshAt := none
  createdAt := now
  updatedAt := now

theorem nodup_map_append {α β : Type*} {f : α → β} {l : List α} {a : α} (apart : (l.map f).Nodup) (free : f a ∉ l.map f) :
    ((l ++ [a]).map f).Nodup := by
  rw [map_append, map_singleton]
  apply Nodup.append apart (nodup_singleton _)
  rw [disjoint_singleton]
  exact free

/-- `create_materialized_view`. -/
def create (id : String) (config : CreateMaterializedView) (now : Int) : Option (ViewTables × MaterializedView) :=
  let view := newView id config now
  if free : view.id ∉ m.views.map MaterializedView.id ∧ view.key ∉ m.views.map MaterializedView.key then
    some ({ m with
      views := m.views ++ [view]
      ids := nodup_map_append m.ids free.1
      keys := nodup_map_append m.keys free.2 }, view)
  else none

/-- `get_materialized_view`: of several rows the one inserted first. -/
def getMaterializedView (name : String) : Option MaterializedView := m.views.find? fun v => v.name = name

/-- `list_materialized_views`. -/
def listMaterializedViews : List MaterializedView := m.views.insertionSort fun a b => a.name ≤ b.name

/-- A row with another status. -/
def setStatus (status : MaterializedViewStatus) (errorMessage : Option String) (now : Int) (v : MaterializedView) : MaterializedView :=
  { v with status, errorMessage, updatedAt := now }

/-- What an update by id makes of a row. -/
def updateRow (id : String) (change : MaterializedView → MaterializedView) (v : MaterializedView) : MaterializedView :=
  if v.id = id then change v else v

theorem map_updateRow {β : Type*} {f : MaterializedView → β} {change : MaterializedView → MaterializedView}
    (kept : ∀ v, f (change v) = f v) (id : String) (views : List MaterializedView) :
    (views.map (updateRow id change)).map f = views.map f := by
  rw [map_map]
  apply map_congr_left
  intro v _
  show f (if v.id = id then change v else v) = f v
  split
  · exact kept v
  · rfl

/-- `update_materialized_view_status`. -/
def updateMaterializedViewStatus (id : String) (status : MaterializedViewStatus) (errorMessage : Option String) (now : Int) :
    ViewTables :=
  { m with
    views := m.views.map (updateRow id (setStatus status errorMessage now))
    ids := by
      rw [map_updateRow fun v => (rfl : (setStatus status errorMessage now v).id = v.id)]
      exact m.ids
    keys := by
      rw [map_updateRow fun v => (rfl : (setStatus status errorMessage now v).key = v.key)]
      exact m.keys }

/-- The three deletions by id. -/
def deleteById (id : String) : ViewTables where
  views := m.views.filter fun v => v.id ≠ id
  data := m.data.filter fun r => r.viewId ≠ id
  offsets := m.offsets.filter fun r => r.viewId ≠ id
  ids := m.ids.sublist (filter_sublist.map _)
  keys := m.keys.sublist (filter_sublist.map _)

/-- `delete_materialized_view`. -/
def deleteMaterializedView (name : String) : ViewTables :=
  match m.getMaterializedView name with
  | some v => m.deleteById v.id
  | none => m

/-- `get_materialized_view_data`. -/
def getMaterializedViewData (viewId : String) (limit : Option Nat) : List MaterializedViewData :=
  ((m.data.filter fun r => r.viewId = viewId).insertionSort fun a b => a.aggKey ≤ b.aggKey).take (limit.getD 1000)

/-! ## What an organization has of them -/

/-- The rows of one organization; data and offsets are of the organization of their view. -/
structure Share where
  views : List MaterializedView
  data : List MaterializedViewData
  offsets : List MaterializedViewOffset

/-- The views of one organization. -/
def own (orgId : String) : List MaterializedView := m.views.filter fun v => v.organizationId = orgId

def share (orgId : String) : Share where
  views := m.own orgId
  data := m.data.filter fun r => r.viewId ∈ (m.own orgId).map MaterializedView.id
  offsets := m.offsets.filter fun r => r.viewId ∈ (m.own orgId).map MaterializedView.id

/-! ## Reading one organization's rows -/

theorem find?_of_owned {α : Type*} {own p : α → Bool} {l : List α} (owned : ∀ a, l.find? p = some a → own a = true) :
    l.find? p = (l.filter own).find? p := by
  induction l with
  | nil => rfl
  | cons a l ih =>
    cases found : p a with
    | true =>
      have mine : own a = true := owned a (find?_cons_of_pos found)
      rw [filter_cons_of_pos mine, find?_cons_of_pos found, find?_cons_of_pos found]
    | false =>
      have missed : ¬ p a = true := by simp [found]
      rw [find?_cons_of_neg missed] at owned ⊢
      rw [ih owned]
      cases mine : own a with
      | true => rw [filter_cons_of_pos mine, find?_cons_of_neg missed]
      | false => rw [filter_cons_of_neg (by simp [mine])]

variable {m} {orgId other : String}

/-- A view that is the organization's own is found among its rows. -/
theorem getMaterializedView_own {name : String}
    (owned : ∀ v, m.getMaterializedView name = some v → v.organizationId = orgId) :
    m.getMaterializedView name = (m.own orgId).find? fun v => v.name = name :=
  find?_of_owned fun v found => decide_eq_true (owned v found)

theorem own_of_owned (owned : ∀ v ∈ m.views, v.organizationId = orgId) : m.own orgId = m.views :=
  filter_eq_self.mpr fun v member => decide_eq_true (owned v member)

variable {v : MaterializedView}

theorem getMaterializedView_mem {name : String} (found : m.getMaterializedView name = some v) : v ∈ m.views :=
  mem_of_find?_eq_some found

theorem getMaterializedView_name {name : String} (found : m.getMaterializedView name = some v) : v.name = name := by
  unfold getMaterializedView at found
  have named := find?_some found
  exact of_decide_eq_true named

/-! ## What a statement leaves to the other organizations -/

theorem mem_own : v ∈ m.own orgId ↔ v ∈ m.views ∧ v.organizationId = orgId := by
  rw [own, mem_filter, decide_eq_true_iff]

/-- The id of a view of another organization is none of the organization's ids. -/
theorem id_not_mem_own (member : v ∈ m.views) (apart : v.organizationId ≠ other) :
    v.id ∉ (m.own other).map MaterializedView.id := by
  intro listed
  obtain ⟨w, mine, same⟩ := mem_map.mp listed
  obtain ⟨there, owned⟩ := mem_own.mp mine
  obtain rfl := inj_on_of_nodup_map m.ids there member same
  exact apart owned

theorem filter_filter_of_imp {α : Type*} {p q : α → Bool} {l : List α} (weaker : ∀ a, p a = true → q a = true) :
    (l.filter q).filter p = l.filter p := by
  rw [filter_filter]
  apply filter_congr
  intro a _
  cases holds : p a with
  | true => rw [weaker a holds, Bool.and_self]
  | false => rw [Bool.false_and]

theorem share_of_own {m' : ViewTables} (kept : m'.own other = m.own other) (data : m'.data = m.data) (offsets : m'.offsets = m.offsets) :
    m'.share other = m.share other := by
  unfold share
  rw [kept, data, offsets]

theorem create_some {id : String} {config : CreateMaterializedView} {now : Int} {m' : ViewTables} {view : MaterializedView}
    (created : m.create id config now = some (m', view)) :
    view = newView id config now ∧ m'.views = m.views ++ [view] ∧ m'.data = m.data ∧ m'.offsets = m.offsets := by
  unfold create at created
  dsimp only at created
  split_ifs at created
  obtain ⟨rfl, rfl⟩ := Prod.mk.inj (Option.some.inj created)
  exact ⟨rfl, rfl, rfl, rfl⟩

theorem share_create {id : String} {config : CreateMaterializedView} {now : Int} {m' : ViewTables} {view : MaterializedView}
    (created : m.create id config now = some (m', view)) (apart : config.organizationId.getD "" ≠ other) : m'.share other = m.share other := by
  obtain ⟨rfl, views, data, offsets⟩ := create_some created
  apply share_of_own _ data offsets
  have foreign : [newView id config now].filter (fun v => v.organizationId = other) = [] := by
    simpa [newView] using apart
  rw [own, views, filter_append, foreign, append_nil]
  rfl

theorem share_updateMaterializedViewStatus {status : MaterializedViewStatus} {errorMessage : Option String} {now : Int}
    (member : v ∈ m.views) (apart : v.organizationId ≠ other) :
    (m.updateMaterializedViewStatus v.id status errorMessage now).share other = m.share other := by
  have sameOrg : ∀ w, (updateRow v.id (setStatus status errorMessage now) w).organizationId = w.organizationId := by
    intro w
    unfold updateRow
    split <;> rfl
  have same : ∀ w ∈ m.own other, updateRow v.id (setStatus status errorMessage now) w = id w := by
    intro w mine
    apply if_neg
    intro hit
    exact id_not_mem_own member apart (mem_map.mpr ⟨w, mine, hit⟩)
  have kept : (m.updateMaterializedViewStatus v.id status errorMessage now).own other = m.own other := by
    show (m.views.map _).filter _ = _
    rw [filter_map]
    simp only [Function.comp_def, sameOrg]
    exact (map_congr_left same).trans (map_id _)
  exact share_of_own kept rfl rfl

theorem share_deleteById (member : v ∈ m.views) (apart : v.organizationId ≠ other) :
    (m.deleteById v.id).share other = m.share other := by
  have kept : (m.deleteById v.id).own other = m.own other := by
    unfold own deleteById
    rw [filter_filter]
    apply filter_congr
    intro w there
    cases owned : decide (w.organizationId = other) with
    | false => rfl
    | true =>
      have differs : w.id ≠ v.id := fun hit =>
        id_not_mem_own member apart (mem_map.mpr ⟨w, mem_own.mpr ⟨there, of_decide_eq_true owned⟩, hit⟩)
      exact decide_eq_true differs
  have outside : ∀ viewId, decide (viewId ∈ (m.own other).map MaterializedView.id) = true → decide (viewId ≠ v.id) = true := by
    intro viewId listed
    apply decide_eq_true
    rintro rfl
    exact id_not_mem_own member apart (of_decide_eq_true listed)
  unfold share
  rw [kept]
  congr 1
  · exact filter_filter_of_imp fun r => outside r.viewId
  · exact filter_filter_of_imp fun r => outside r.viewId

end ViewTables

end StreamHouse.Metadata
