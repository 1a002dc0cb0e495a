import StreamHouse.Lib.Bytes
import StreamHouse.Sql.Aggregation

/-!
# Moving averages

`FieldStatistics` collects the numbers of a field over the messages as they are loaded; a row without the field
leaves no trace in it. `moving_avg` is asked by the number of a row among all, after the sort. `aligned_iff` says
when the numbers it takes are those of the rows meant.
-/

namespace StreamHouse.Sql

open Lib List

/-- `FieldStatistics`, of which `moving_avg` reads the values. -/
structure FieldStatistics (α : Type) where
  values : List α

namespace FieldStatistics

variable {α β : Type}

def new : FieldStatistics α := ⟨[]⟩

def add (s : FieldStatistics α) (value : α) : FieldStatistics α := ⟨s.values ++ [value]⟩

/-- `&self.values[start..end]` in `moving_avg`. -/
def slice (s : FieldStatistics α) (window index : Nat) : Outcome Empty (List α) :=
  let start := if index ≥ window then index - window + 1 else 0
  let stop := min (index + 1) s.values.length
  if start ≤ stop ∧ stop ≤ s.values.length then .ok ((s.values.drop start).take (stop - start)) else .error .panicked

/-- The end of `moving_avg`: the mean of a slice, of an empty one 0. -/
def sliceMean (slice : List F64) : Option F64 := if slice = [] then F64.ofRational 0 else F64.mean slice

def movingAvg (s : FieldStatistics F64) (window index : Nat) : Outcome Empty (Option F64) := (s.slice window index).map sliceMean

theorem slice_map (s : FieldStatistics α) (f : α → β) (window index : Nat) :
    (FieldStatistics.mk (s.values.map f)).slice window index = (s.slice window index).map (List.map f) := by
  unfold slice
  simp only [length_map]
  generalize (if index ≥ window then index - window + 1 else 0) = start
  split
  · simp [Except.map]
  · rfl

/-- For a window that is not empty. -/
theorem slice_eq (s : FieldStatistics α) {window : Nat} (positive : 1 ≤ window) (index : Nat) :
    s.slice window index = if index + 1 - window ≤ s.values.length then
      .ok ((s.values.drop (index + 1 - window)).take (min (index + 1) s.values.length - (index + 1 - window)))
    else .error .panicked := by
  have start : (if index ≥ window then index - window + 1 else 0) = index + 1 - window := by
    split <;> omega
  unfold slice
  rw [start]
  by_cases inside : index + 1 - window ≤ s.values.length
  · rw [if_pos inside, if_pos (by omega)]
  · rw [if_neg inside, if_neg (by omega)]

end FieldStatistics

open FieldStatistics

/-- The statistics that `execute_select` collects for a path. -/
def fieldStatistics (path : String) (messages : List MessageRow) : FieldStatistics F64 :=
  messages.foldl (fun stats msg =>
    match extractNumericFromMsg msg path with
    | some v => stats.add v
    | none => stats) .new

theorem fieldStatistics_values (path : String) (messages : List MessageRow) :
    (fieldStatistics path messages).values = messages.filterMap fun msg => extractNumericFromMsg msg path := by
  suffices ∀ stats : FieldStatistics F64, (messages.foldl (fun stats msg =>
      match extractNumericFromMsg msg path with
      | some v => stats.add v
      | none => stats) stats).values = stats.values ++ messages.filterMap fun msg => extractNumericFromMsg msg path from
    this .new
  induction messages with
  | nil => simp
  | cons msg messages ih =>
    intro stats
    rw [foldl_cons, ih, filterMap_cons]
    cases extractNumericFromMsg msg path with
    | none => rfl
    | some v => simp [add]

/-- The rows of a query with a moving average: as they were loaded, and as they were sorted, each with the place
it was loaded at. -/
structure StatisticsScan where
  path : String
  loaded : List MessageRow
  sorted : List (MessageRow × Nat)
  perm : sorted.Perm loaded.zipIdx

namespace StatisticsScan

variable (s : StatisticsScan) (window index : Nat)

/-- What a row of the result gets. -/
def movingAvg : Outcome Empty (Option F64) := (fieldStatistics s.path s.loaded).movingAvg window index

def hasField (row : MessageRow × Nat) : Bool := (extractNumericFromMsg row.1 s.path).isSome

/-- The loaded rows that have the field. -/
def fieldRows : List (MessageRow × Nat) := s.loaded.zipIdx.filter s.hasField

/-- The rows up to an index that have the field. -/
def upTo : List (MessageRow × Nat) := (s.sorted.take (index + 1)).filter s.hasField

/-- The most recent of them. -/
def recent : List (MessageRow × Nat) := (s.upTo index).drop ((s.upTo index).length - window)

/-- The rows whose numbers are averaged. -/
def averaged : Outcome Empty (List (MessageRow × Nat)) := (FieldStatistics.mk s.fieldRows).slice window index

def fieldValues (rows : List (MessageRow × Nat)) : List F64 := rows.filterMap fun row => extractNumericFromMsg row.1 s.path

/-- No slice is out of range, and the mean is that of the most recent rows with the field. -/
def Aligned : Prop :=
  ∃ rows, s.movingAvg window index = .ok (FieldStatistics.sliceMean (s.fieldValues rows)) ∧
    s.averaged window index = .ok rows ∧ rows.Perm (s.recent window index)

/-! ## Rows and their numbers -/

variable {s window index}

theorem fieldValues_fieldRows : s.fieldValues s.fieldRows = (fieldStatistics s.path s.loaded).values := by
  have places : s.loaded.zipIdx.map Prod.fst = s.loaded := by rw [zipIdx_map_fst]
  rw [fieldStatistics_values, fieldValues, fieldRows]
  nth_rewrite 2 [← places]
  rw [filterMap_map]
  induction s.loaded.zipIdx with
  | nil => rfl
  | cons row rows ih =>
    cases number : extractNumericFromMsg row.1 s.path with
    | none => simp [hasField, number, ih]
    | some v => simp [hasField, number, ih]

theorem map_some_fieldValues {rows : List (MessageRow × Nat)} (all : ∀ row ∈ rows, s.hasField row = true) :
    (s.fieldValues rows).map some = rows.map fun row => extractNumericFromMsg row.1 s.path := by
  induction rows with
  | nil => rfl
  | cons row rows ih =>
    obtain ⟨v, number⟩ := Option.isSome_iff_exists.mp (all row mem_cons_self)
    have rest := ih fun other inside => all other (mem_cons_of_mem _ inside)
    simp only [fieldValues, filterMap_cons, number, map_cons]
    exact congrArg (cons (some v)) rest

theorem fieldValues_of_map {rows : List (MessageRow × Nat)} {values : List F64}
    (same : values.map some = rows.map fun row => extractNumericFromMsg row.1 s.path) : s.fieldValues rows = values := by
  have filtered := congrArg (filterMap id) same
  rw [filterMap_map, filterMap_map] at filtered
  simpa [fieldValues] using filtered.symm

/-- **The mean is that of the rows whose numbers are taken.** -/
theorem movingAvg_eq : s.movingAvg window index =
    (s.averaged window index).map fun rows => FieldStatistics.sliceMean (s.fieldValues rows) := by
  have all : ∀ row ∈ s.fieldRows, s.hasField row = true := fun row member => (mem_filter.mp member).2
  have values : (fieldStatistics s.path s.loaded).values.map some = s.fieldRows.map fun row => extractNumericFromMsg row.1 s.path := by
    rw [← fieldValues_fieldRows, map_some_fieldValues all]
  have numbers := FieldStatistics.slice_map (fieldStatistics s.path s.loaded) some window index
  have rows := FieldStatistics.slice_map (FieldStatistics.mk s.fieldRows) (fun row => extractNumericFromMsg row.1 s.path) window index
  rw [values] at numbers
  have same := numbers.symm.trans rows
  unfold movingAvg FieldStatistics.movingAvg averaged
  cases taken : (FieldStatistics.mk s.fieldRows).slice window index with
  | error fault =>
    rw [taken] at same
    cases number : (fieldStatistics s.path s.loaded).slice window index with
    | error other =>
      rw [number] at same
      cases same
      rfl
    | ok _ =>
      rw [number] at same
      cases same
  | ok rows =>
    rw [taken] at same
    cases number : (fieldStatistics s.path s.loaded).slice window index with
    | error other =>
      rw [number] at same
      cases same
    | ok numbers =>
      rw [number] at same
      have values : s.fieldValues rows = numbers := fieldValues_of_map (Except.ok.inj same)
      show Except.ok (sliceMean numbers) = Except.ok (sliceMean (s.fieldValues rows))
      rw [values]

/-! ## Places -/

theorem nodup_zipIdx (messages : List MessageRow) : messages.zipIdx.Nodup := by
  apply Nodup.of_map Prod.snd
  rw [zipIdx_map_snd]
  exact nodup_range'

theorem nodup_fieldRows : s.fieldRows.Nodup := (nodup_zipIdx s.loaded).filter _

theorem nodup_upTo : (s.upTo index).Nodup :=
  ((s.perm.nodup_iff.mpr (nodup_zipIdx s.loaded)).sublist (take_sublist _ _)).filter _

theorem recent_subset : ∀ row ∈ s.recent window index, row ∈ s.fieldRows := by
  intro row member
  obtain ⟨inside, has⟩ := mem_filter.mp (mem_of_mem_drop member)
  exact mem_filter.mpr ⟨s.perm.mem_iff.mp (mem_of_mem_take inside), has⟩

/-- What stands between two places of a list. -/
theorem mem_between {α : Type} {rows : List α} {start stop : Nat} {row : α} :
    row ∈ (rows.drop start).take (stop - start) ↔ ∃ place, start ≤ place ∧ place < stop ∧ rows[place]? = some row := by
  rw [mem_iff_getElem?]
  constructor
  · rintro ⟨i, found⟩
    rw [getElem?_take] at found
    split at found
    · next inside =>
      rw [getElem?_drop] at found
      exact ⟨start + i, by omega, by omega, found⟩
    · cases found
  · rintro ⟨place, after, before, found⟩
    refine ⟨place - start, ?_⟩
    have here : start + (place - start) = place := by omega
    rw [getElem?_take_of_lt (by omega), getElem?_drop, here, found]

/-- In a list without repetitions it stands there by its place. -/
theorem mem_between_iff {α : Type} {rows : List α} (nodup : rows.Nodup) {start stop place : Nat} {row : α}
    (found : rows[place]? = some row) : row ∈ (rows.drop start).take (stop - start) ↔ start ≤ place ∧ place < stop := by
  rw [mem_between]
  constructor
  · rintro ⟨other, after, before, same⟩
    obtain ⟨inside, -⟩ := List.getElem?_eq_some_iff.mp found
    obtain rfl := (getElem?_inj inside nodup).mp (found.trans same.symm)
    exact ⟨after, before⟩
  · rintro ⟨after, before⟩
    exact ⟨place, after, before, found⟩

/-- The rows meant are those at the places that the numbers are taken from. -/
def InPlace (s : StatisticsScan) (window index : Nat) : Prop :=
  index + 1 - window ≤ s.fieldRows.length ∧ ∀ place row, s.fieldRows[place]? = some row →
    (row ∈ s.recent window index ↔ index + 1 - window ≤ place ∧ place ≤ index)

theorem aligned_iff_inPlace (positive : 1 ≤ window) : s.Aligned window index ↔ s.InPlace window index := by
  have aligned : s.Aligned window index ↔ ∃ rows, s.averaged window index = .ok rows ∧ rows.Perm (s.recent window index) := by
    constructor
    · rintro ⟨rows, -, taken, perm⟩
      exact ⟨rows, taken, perm⟩
    · rintro ⟨rows, taken, perm⟩
      refine ⟨rows, ?_, taken, perm⟩
      rw [movingAvg_eq, taken]
      rfl
  rw [aligned, averaged, slice_eq _ positive]
  dsimp only
  by_cases inside : index + 1 - window ≤ s.fieldRows.length
  · rw [if_pos inside]
    have taken : (∃ rows, (.ok ((s.fieldRows.drop (index + 1 - window)).take
        (min (index + 1) s.fieldRows.length - (index + 1 - window))) : Outcome Empty _) = .ok rows ∧
          rows.Perm (s.recent window index)) ↔ ((s.fieldRows.drop (index + 1 - window)).take
            (min (index + 1) s.fieldRows.length - (index + 1 - window))).Perm (s.recent window index) := by
      simp
    have recentNodup : (s.recent window index).Nodup := nodup_upTo.sublist (drop_sublist _ _)
    rw [taken, perm_ext_iff_of_nodup ((nodup_fieldRows.sublist (drop_sublist _ _)).sublist (take_sublist _ _))
      recentNodup]
    constructor
    · intro same
      refine ⟨inside, fun place row found => ?_⟩
      obtain ⟨below, -⟩ := List.getElem?_eq_some_iff.mp found
      rw [← same row, mem_between_iff nodup_fieldRows found]
      omega
    · rintro ⟨-, places⟩ row
      constructor
      · intro member
        obtain ⟨place, after, before, found⟩ := mem_between.mp member
        exact (places place row found).mpr ⟨after, by omega⟩
      · intro member
        obtain ⟨place, found⟩ := mem_iff_getElem?.mp (recent_subset row member)
        obtain ⟨below, -⟩ := List.getElem?_eq_some_iff.mp found
        obtain ⟨after, before⟩ := (places place row found).mp member
        exact mem_between.mpr ⟨place, after, by omega, found⟩
  · rw [if_neg inside]
    constructor
    · rintro ⟨rows, impossible, -⟩
      cases impossible
    · rintro ⟨enough, -⟩
      exact absurd enough inside

/-- The number of rows up to an index, as loaded, that have the field. -/
def countUpTo (s : StatisticsScan) (index : Nat) : Nat := ((s.loaded.zipIdx.take (index + 1)).filter s.hasField).length

/-- Without a sort the rows up to an index are the first ones with the field. -/
theorem upTo_unsorted (unsorted : s.sorted = s.loaded.zipIdx) : s.upTo index = s.fieldRows.take (s.countUpTo index) := by
  have parts : s.fieldRows = (s.loaded.zipIdx.take (index + 1)).filter s.hasField ++
      (s.loaded.zipIdx.drop (index + 1)).filter s.hasField := by
    rw [← filter_append, take_append_drop]
    rfl
  rw [upTo, unsorted, parts, countUpTo, take_left]

theorem countUpTo_le : s.countUpTo index ≤ s.fieldRows.length ∧ s.countUpTo index ≤ index + 1 := by
  constructor
  · exact ((take_sublist _ _).filter _).length_le
  · exact (length_filter_le _ _).trans (length_take_le _ _)

theorem inPlace_unsorted (unsorted : s.sorted = s.loaded.zipIdx) (positive : 1 ≤ window) :
    s.InPlace window index ↔ s.countUpTo index = index + 1 ∨
      (s.countUpTo index = s.fieldRows.length ∧ index + 1 ≤ window) ∨
        (s.countUpTo index = 0 ∧ s.fieldRows.length = index + 1 - window) := by
  obtain ⟨all, most⟩ := @countUpTo_le s index
  have length : (s.upTo index).length = s.countUpTo index := by
    rw [upTo_unsorted unsorted, length_take, Nat.min_eq_left all]
  have member : ∀ place row, s.fieldRows[place]? = some row →
      (row ∈ s.recent window index ↔ s.countUpTo index - window ≤ place ∧ place < s.countUpTo index) := by
    intro place row found
    rw [recent, length, upTo_unsorted unsorted, drop_take, mem_between_iff nodup_fieldRows found]
  -- as a statement about places only
  have places : s.InPlace window index ↔ index + 1 - window ≤ s.fieldRows.length ∧ ∀ place < s.fieldRows.length,
      (s.countUpTo index - window ≤ place ∧ place < s.countUpTo index ↔ index + 1 - window ≤ place ∧ place ≤ index) := by
    apply and_congr_right
    intro _
    constructor
    · intro rows place below
      have found := getElem?_eq_getElem below
      rw [← rows place _ found, member place _ found]
    · intro numbers place row found
      obtain ⟨below, -⟩ := List.getElem?_eq_some_iff.mp found
      rw [member place row found, numbers place below]
  rw [places]
  generalize s.fieldRows.length = n at *
  generalize s.countUpTo index = p at *
  constructor
  · rintro ⟨inside, same⟩
    by_cases none_ : p = 0
    · by_cases exact_ : n = index + 1 - window
      · exact .inr (.inr ⟨none_, exact_⟩)
      · have first := same (index + 1 - window) (by omega)
        omega
    · have last := same (p - 1) (by omega)
      have first := same (p - window) (by omega)
      have start := same (index + 1 - window) (by omega)
      by_cases whole : p = n
      · omega
      · have next := same p (by omega)
        omega
  · rintro (every | ⟨whole, few⟩ | ⟨none_, exact_⟩)
    · refine ⟨by omega, fun place below => ?_⟩
      omega
    · refine ⟨by omega, fun place below => ?_⟩
      omega
    · refine ⟨by omega, fun place below => ?_⟩
      omega

/-- **Moving averages are aligned** exactly if the rows meant are loaded at the places that `moving_avg` reads;
without a sort that is a matter of how many rows have the field. -/
theorem aligned_iff (s : StatisticsScan) {window : Nat} (positive : 1 ≤ window) (index : Nat) :
    (s.Aligned window index ↔ s.InPlace window index) ∧
      (s.sorted = s.loaded.zipIdx → (s.Aligned window index ↔ s.countUpTo index = index + 1 ∨
        (s.countUpTo index = s.fieldRows.length ∧ index + 1 ≤ window) ∨
          (s.countUpTo index = 0 ∧ s.fieldRows.length = index + 1 - window))) :=
  ⟨aligned_iff_inPlace positive, fun unsorted => (aligned_iff_inPlace positive).trans (inPlace_unsorted unsorted positive)⟩

end StatisticsScan

namespace MovingExample

def seven (offset : BitVec 64) : MessageRow := ⟨"sensors", 0, offset, none, ⟨"7", some (.number (.posInt 7))⟩, 0⟩

/-- A message whose value is no number. -/
def noise (offset : BitVec 64) : MessageRow := ⟨"sensors", 0, offset, none, ⟨"noise", none⟩, 0⟩

/-- A scan without ORDER BY. -/
def unsorted (loaded : List MessageRow) : StatisticsScan := ⟨"$", loaded, loaded.zipIdx, .refl _⟩

end MovingExample

open MovingExample

/-- Three numbers in a row. -/
theorem aligned_sevens : (unsorted [seven 0, seven 1, seven 2]).Aligned 2 2 :=
  ((StatisticsScan.aligned_iff (unsorted [seven 0, seven 1, seven 2])
    (by decide) 2).2 rfl).mpr (.inl (by decide +kernel))

/-- A number behind two messages without one: the slice begins behind its end. -/
theorem late_seven_panics :
    ¬ (unsorted [noise 0, noise 1, seven 2]).Aligned 1 2 := by
  have positive : 1 ≤ 1 := by decide
  rw [StatisticsScan.aligned_iff_inPlace positive, StatisticsScan.inPlace_unsorted rfl positive]
  have count : (unsorted [noise 0, noise 1, seven 2]).countUpTo 2 = 1 := by
    decide +kernel
  have all : (unsorted [noise 0, noise 1, seven 2]).fieldRows.length = 1 := by
    decide +kernel
  omega

end StreamHouse.Sql
