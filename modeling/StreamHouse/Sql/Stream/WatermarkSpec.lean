import StreamHouse.Sql.Stream.Watermark
import Mathlib.Data.List.MinMax

/-!
# What the tracker does

One lemma for each call: when an event is too late, what an update leaves, what the global
watermark is, and that the idle partitions keep their watermarks.
-/

namespace StreamHouse.Sql.WatermarkTracker

open I64 Lib HashMaps List

variable {config : WatermarkConfig} {pw : PartitionWatermark} {timestamp : Int}

/-! ## Classification -/

theorem classifyEvent_eq_none :
    classifyEvent config pw timestamp = none ↔
      pw.currentWatermark ≠ least ∧ timestamp < pw.currentWatermark ∧ ¬ Fits (pw.currentWatermark - timestamp) := by
  unfold classifyEvent
  split_ifs with fresh onTime
  · exact iff_of_false (by simp) fun all => all.1 fresh
  · exact iff_of_false (by simp) fun all => absurd onTime (not_le.mpr all.2.1)
  · rw [Option.map_eq_none_iff, checkedSub_eq_none]
    exact ⟨fun overflow => ⟨fresh, not_le.mp onTime, overflow⟩, fun all => all.2.2⟩

/-- An event is too late when it is behind the watermark by more than the out-of-orderness. -/
theorem classifyEvent_eq_tooLate :
    classifyEvent config pw timestamp = some .tooLate ↔
      pw.currentWatermark ≠ least ∧ timestamp < pw.currentWatermark ∧ Fits (pw.currentWatermark - timestamp) ∧
        config.allowed < pw.currentWatermark - timestamp := by
  unfold classifyEvent
  split_ifs with fresh onTime
  · exact iff_of_false (by simp) fun all => all.1 fresh
  · exact iff_of_false (by simp) fun all => absurd onTime (not_le.mpr all.2.1)
  · rw [Option.map_eq_some_iff]
    constructor
    · rintro ⟨lateness, difference, late⟩
      obtain ⟨fits, rfl⟩ := checkedSub_eq_some.mp difference
      split_ifs at late with allowed
      exact ⟨fresh, not_le.mp onTime, fits, not_le.mp allowed⟩
    · rintro ⟨-, -, fits, above⟩
      exact ⟨_, checkedSub_eq_some.mpr ⟨fits, rfl⟩, if_neg (not_le.mpr above)⟩

/-! ## Updates -/

/-- The entry of a partition after an event. -/
def observed (config : WatermarkConfig) (now : Nat) (timestamp : Int) (result : EventTimeResult) (pw : PartitionWatermark) :
    PartitionWatermark :=
  { pw with
    maxTimestampSeen := max pw.maxTimestampSeen timestamp
    currentWatermark := max pw.currentWatermark (max pw.maxTimestampSeen timestamp - config.allowed)
    lastEventTime := now
    isIdle := false
    lateEventsDropped := if result = .tooLate then pw.lateEventsDropped + 1 else pw.lateEventsDropped }

theorem ite_gt_eq_max (a b : Int) : (if a > b then a else b) = max b a := by
  split_ifs with above
  · exact (max_eq_right above.le).symm
  · exact (max_eq_left (not_lt.mp above)).symm

variable {now : Nat} {topic : String} {partition : BitVec 32} {watermarks : Watermarks}

theorem updateWatermark_eq_some {updated : Watermarks} {result : EventTimeResult} :
    updateWatermark config now topic partition timestamp watermarks = some (updated, result) ↔
      classifyEvent config (entry watermarks topic partition now) timestamp = some result ∧
        Fits (max (entry watermarks topic partition now).maxTimestampSeen timestamp - config.allowed) ∧
          updated = watermarks.insert (topic, partition) (observed config now timestamp result (entry watermarks topic partition now)) := by
  unfold updateWatermark observed
  simp only [ite_gt_eq_max]
  cases classified : classifyEvent config (entry watermarks topic partition now) timestamp with
  | none => exact iff_of_false (by simp) (by simp)
  | some r =>
    cases difference : checkedSub (max (entry watermarks topic partition now).maxTimestampSeen timestamp) config.allowed with
    | none => exact iff_of_false (by simp) fun all => checkedSub_eq_none.mp difference all.2.1
    | some newWatermark =>
      obtain ⟨fits, rfl⟩ := checkedSub_eq_some.mp difference
      simp only [Option.bind_eq_bind, Option.bind_some, Option.pure_def, Option.some.injEq, Prod.mk.injEq, fits, true_and]
      constructor
      · rintro ⟨rfl, rfl⟩
        exact ⟨rfl, rfl⟩
      · rintro ⟨rfl, rfl⟩
        exact ⟨rfl, rfl⟩

/-- An update fails only in one of its two differences. -/
theorem updateWatermark_ne_none :
    updateWatermark config now topic partition timestamp watermarks ≠ none ↔
      classifyEvent config (entry watermarks topic partition now) timestamp ≠ none ∧
        Fits (max (entry watermarks topic partition now).maxTimestampSeen timestamp - config.allowed) := by
  constructor
  · intro some
    obtain ⟨⟨updated, result⟩, found⟩ := Option.ne_none_iff_exists'.mp some
    obtain ⟨classified, fits, -⟩ := updateWatermark_eq_some.mp found
    exact ⟨by rw [classified]; exact Option.some_ne_none _, fits⟩
  · rintro ⟨some, fits⟩
    obtain ⟨result, classified⟩ := Option.ne_none_iff_exists'.mp some
    have found := updateWatermark_eq_some.mpr ⟨classified, fits, rfl⟩
    rw [found]
    exact Option.some_ne_none _

theorem entry_of_lookup (found : watermarks.lookup (topic, partition) = some pw) : entry watermarks topic partition now = pw := by
  rw [entry, found, Option.getD_some]

theorem entry_of_none (absent : watermarks.lookup (topic, partition) = none) :
    entry watermarks topic partition now = PartitionWatermark.new topic partition now := by
  rw [entry, absent, Option.getD_none]

/-! ## The global watermark -/

/-- A partition is there and not idle. -/
def Active (watermarks : Watermarks) (key : TopicPartition) (pw : PartitionWatermark) : Prop :=
  watermarks.lookup key = some pw ∧ pw.isIdle = false

theorem mem_active {w : Int} :
    w ∈ ((watermarks.entries.map Sigma.snd).filter fun pw => !pw.isIdle).map PartitionWatermark.currentWatermark ↔
      ∃ key pw, Active watermarks key pw ∧ pw.currentWatermark = w := by
  rw [mem_map]
  constructor
  · rintro ⟨pw, listed, same⟩
    obtain ⟨inside, active⟩ := mem_filter.mp listed
    obtain ⟨⟨key, pw⟩, isEntry, rfl⟩ := mem_map.mp inside
    exact ⟨key, pw, ⟨AList.mem_lookup_iff.mpr isEntry, by simpa using active⟩, same⟩
  · rintro ⟨key, pw, ⟨found, active⟩, same⟩
    exact ⟨pw, mem_filter.mpr ⟨mem_map_of_mem (AList.mem_lookup_iff.mp found), by simpa using active⟩, same⟩

theorem getGlobalWatermark_eq_some {w : Int} :
    getGlobalWatermark watermarks = some w ↔
      (∃ key pw, Active watermarks key pw ∧ pw.currentWatermark = w) ∧ ∀ key pw, Active watermarks key pw → w ≤ pw.currentWatermark := by
  rw [getGlobalWatermark, min?_eq_some_iff, mem_active]
  refine and_congr_right fun _ => ⟨fun lower key pw active => ?_, fun lower v inside => ?_⟩
  · exact lower _ (mem_active.mpr ⟨key, pw, active, rfl⟩)
  · obtain ⟨key, pw, active, rfl⟩ := mem_active.mp inside
    exact lower key pw active

theorem exists_global {key : TopicPartition} (active : Active watermarks key pw) :
    ∃ w, getGlobalWatermark watermarks = some w ∧ w ≤ pw.currentWatermark := by
  cases found : getGlobalWatermark watermarks with
  | none =>
    have none := min?_eq_none_iff.mp found
    have inside := mem_active.mpr ⟨key, pw, active, rfl⟩
    rw [none] at inside
    cases inside
  | some w => exact ⟨w, rfl, (getGlobalWatermark_eq_some.mp found).2 key pw active⟩

/-! ## Idle partitions -/

/-- **A partition that becomes idle keeps its watermark**: the global one, of which it is a part,
is not above it. -/
theorem advance_lookup (clock : TopicPartition → Nat) (watermarks : Watermarks) (key : TopicPartition) :
    (advanceIdleWatermarks config clock watermarks).1.lookup key =
      (watermarks.lookup key).map fun pw => if becomesIdle config clock key pw then { pw with isIdle := true } else pw := by
  unfold advanceIdleWatermarks
  cases global : getGlobalWatermark watermarks with
  | none =>
    dsimp only
    cases found : watermarks.lookup key with
    | none => rfl
    | some pw =>
      have idle : pw.isIdle = true := by
        by_contra active
        obtain ⟨w, some, -⟩ := exists_global ⟨found, Bool.not_eq_true _ ▸ active⟩
        rw [global] at some
        cases some
      rw [Option.map_some, becomesIdle, idle]
      rfl
  | some w =>
    dsimp only
    rw [lookup_mapValues]
    cases found : watermarks.lookup key with
    | none => rfl
    | some pw =>
      rw [Option.map_some, Option.map_some, advanceIdle]
      split_ifs with stops above
      · have active : pw.isIdle = false := by
          unfold becomesIdle at stops
          simp only [Bool.and_eq_true, Bool.not_eq_true'] at stops
          exact stops.1
        have upto := (getGlobalWatermark_eq_some.mp global).2 key pw ⟨found, active⟩
        omega
      · rfl
      · rfl

end StreamHouse.Sql.WatermarkTracker
