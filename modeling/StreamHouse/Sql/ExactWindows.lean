import StreamHouse.Sql.Stream.WindowOperator
import StreamHouse.Sql.WindowSplit

/-!
# Exact windows

A message belongs to the windows from a multiple of the slide on that have its timestamp. The
batch grouping starts at the multiple of the least timestamp, and the operator at a multiple found
by a division towards zero: each finds all windows under its own condition.
-/

namespace StreamHouse.Sql

open Lib OrderedMap Multiples HashMaps List MessageRow

/-! ## The windows of a message -/

/-- The windows of a size at the multiples of the slide, with the messages of each and of a group. -/
def ExactGroups (display : Json → String) (size slide : Int) (groupBy : List String) (messages : List MessageRow)
    (groups : WindowGroups) : Prop :=
  ∀ windowStart windowEnd groupKey, get groups (windowKey windowStart windowEnd groupKey) = listed (messages.filter fun msg =>
    decide (slide ∣ windowStart ∧ windowEnd = windowStart + size ∧ windowStart ≤ msg.timestamp ∧ msg.timestamp < windowEnd ∧
      extractGroupKey display msg groupBy = groupKey))

/-- The starts of the windows of a timestamp, each once. -/
def ExactStarts (size slide timestamp : Int) (starts : List Int) : Prop :=
  starts.Nodup ∧ ∀ w, w ∈ starts ↔ slide ∣ w ∧ w ≤ timestamp ∧ timestamp < w + size

/-- The three computations put each message into exactly its windows. -/
structure WindowsExact (display : Json → String) (size slide : Int) (groupBy : List String) (messages : List MessageRow) : Prop where
  hop : ∃ groups, groupIntoHopWindows display messages size slide groupBy = some groups ∧
    ExactGroups display size slide groupBy messages groups
  tumble : ∃ groups, groupIntoTumbleWindows display messages size groupBy = some groups ∧
    ExactGroups display size size groupBy messages groups
  assignHop : ∀ (op : WindowAggregateOperator) (iteration : HashOrder Int), op.windowType = .hop size slide → ∀ msg ∈ messages,
    ∃ starts, op.assignWindows iteration msg.timestamp = some starts ∧ ExactStarts size slide msg.timestamp starts
  assignTumble : ∀ (op : WindowAggregateOperator) (iteration : HashOrder Int), op.windowType = .tumble size → ∀ msg ∈ messages,
    ∃ starts, op.assignWindows iteration msg.timestamp = some starts ∧ ExactStarts size size msg.timestamp starts

/-! ## The batch groupings -/

def minTimestamp (messages : List MessageRow) : Int := (messages.map timestamp).min?.getD 0

theorem minTimestamp_le {messages : List MessageRow} {m : MessageRow} (inside : m ∈ messages) : minTimestamp messages ≤ m.timestamp := by
  have listed : m.timestamp ∈ messages.map timestamp := mem_map.mpr ⟨m, inside, rfl⟩
  unfold minTimestamp
  cases low : (messages.map timestamp).min? with
  | none =>
    rw [min?_eq_none_iff.mp low] at listed
    cases listed
  | some lowest => exact (le_min?_iff low).mp le_rfl _ listed

theorem minTimestamp_mem {messages : List MessageRow} (some : messages ≠ []) : ∃ m ∈ messages, m.timestamp = minTimestamp messages := by
  unfold minTimestamp
  cases low : (messages.map timestamp).min? with
  | none => exact absurd (map_eq_nil_iff.mp (min?_eq_none_iff.mp low)) some
  | some lowest => exact mem_map.mp (min?_mem low)

theorem listed_inj {α : Type*} {l l' : List α} (same : listed l = listed l') : l = l' := by
  unfold listed at same
  split_ifs at same with empty empty'
  · rw [empty, empty']
  · exact Option.some.inj same

variable {display : Json → String} {size slide : Int} {groupBy : List String} {messages : List MessageRow}

theorem hop_defined (positive : 0 < slide) : ∃ groups, groupIntoHopWindows display messages size slide groupBy = some groups := by
  unfold groupIntoHopWindows
  split_ifs with empty zero negative
  · exact ⟨_, rfl⟩
  · omega
  · omega
  · exact ⟨_, rfl⟩

/-- A window at a multiple of the slide that has a message is not before the first that is made, if
that goes for the windows of the least timestamp. -/
theorem hopFirst_le_of_covers (positive : 0 < slide)
    (covers : ∀ w, slide ∣ w → w ≤ minTimestamp messages → minTimestamp messages < w + size → hopFirst slide messages ≤ w)
    {m : MessageRow} (inside : m ∈ messages) {w : Int} (isMultiple : slide ∣ w) (high : m.timestamp < w + size) :
    hopFirst slide messages ≤ w := by
  have low := minTimestamp_le inside
  by_cases upto : w ≤ minTimestamp messages
  · exact covers w isMultiple upto (by omega)
  · by_contra less
    have left := add_le_of_lt isMultiple (dvd_truncated slide (minTimestamp messages)) (not_le.mp less)
    have sum := truncated_add_tmod slide (minTimestamp messages)
    have small := abs_tmod_lt positive (minTimestamp messages)
    omega

theorem early_of_hop_exact (positive : 0 < slide) {groups : WindowGroups}
    (grouped : groupIntoHopWindows display messages size slide groupBy = some groups)
    (exact : ExactGroups display size slide groupBy messages groups) :
    messages = [] ∨ size ≤ slide + (minTimestamp messages).tmod slide := by
  rcases eq_or_ne messages [] with empty | some
  · exact .inl empty
  · right
    rw [← truncated_covers_iff positive]
    intro w isMultiple low high
    obtain ⟨m, inside, least⟩ := minTimestamp_mem some
    have found := exact w (w + size) (extractGroupKey display m groupBy)
    rw [get_hop display positive grouped] at found
    by_contra missed
    -- no window is made there, but the message of the least timestamp belongs to it
    rw [if_neg fun made => missed ((mem_hopStarts positive).mp made.1).1] at found
    have nothing := listed_inj (found.symm.trans (if_pos rfl).symm)
    have isThere := filter_eq_nil_iff.mp nothing m inside
    rw [least, decide_eq_true_eq] at isThere
    exact isThere ⟨isMultiple, rfl, low, high, rfl⟩

theorem hop_exact_of_early (positive : 0 < slide) (early : messages = [] ∨ size ≤ slide + (minTimestamp messages).tmod slide)
    {groups : WindowGroups} (grouped : groupIntoHopWindows display messages size slide groupBy = some groups) :
    ExactGroups display size slide groupBy messages groups := by
  intro windowStart windowEnd groupKey
  rw [get_hop display positive grouped, filter_filter]
  split_ifs with made
  · obtain ⟨isStart, rfl⟩ := made
    have isMultiple := ((mem_hopStarts positive).mp isStart).2.2
    congr 1
    refine filter_congr fun m _ => ?_
    simp only [inWindow, ← Bool.decide_and, isMultiple, true_and, decide_eq_decide]
    tauto
  · have nothing : (messages.filter fun msg => decide (slide ∣ windowStart ∧ windowEnd = windowStart + size ∧
        windowStart ≤ msg.timestamp ∧ msg.timestamp < windowEnd ∧ extractGroupKey display msg groupBy = groupKey)) = [] := by
      refine filter_eq_nil_iff.mpr fun m inside isThere => made ?_
      obtain ⟨isMultiple, rfl, low, high, -⟩ := of_decide_eq_true isThere
      obtain rfl | short := early
      · cases inside
      · have first := hopFirst_le_of_covers positive ((truncated_covers_iff positive).mpr short) inside isMultiple high
        have last := le_maxTimestamp inside
        exact ⟨(mem_hopStarts positive).mpr ⟨first, by omega, isMultiple⟩, rfl⟩
    rw [nothing]
    rfl

theorem hop_exact_iff (positive : 0 < slide) :
    (∃ groups, groupIntoHopWindows display messages size slide groupBy = some groups ∧
      ExactGroups display size slide groupBy messages groups) ↔
      messages = [] ∨ size ≤ slide + (minTimestamp messages).tmod slide := by
  constructor
  · rintro ⟨groups, grouped, exact⟩
    exact early_of_hop_exact positive grouped exact
  · intro early
    obtain ⟨groups, grouped⟩ := hop_defined positive
    exact ⟨groups, grouped, hop_exact_of_early positive early grouped⟩

theorem tumbleKey_eq_iff {m : MessageRow} {windowStart windowEnd : Int} {groupKey : Option String} :
    tumbleKey display size groupBy m = windowKey windowStart windowEnd groupKey ↔
      windowStart = truncated size m.timestamp ∧ windowEnd = windowStart + size ∧ extractGroupKey display m groupBy = groupKey := by
  have key : tumbleKey display size groupBy m = windowKey (truncated size m.timestamp) (truncated size m.timestamp + size)
    (extractGroupKey display m groupBy) := rfl
  rw [key, windowKey_inj]
  constructor
  · rintro ⟨start, ends, group⟩
    exact ⟨start.symm, by omega, group⟩
  · rintro ⟨start, ends, group⟩
    exact ⟨start.symm, by omega, group⟩

theorem tumble_defined (positive : 0 < size) : ∃ groups, groupIntoTumbleWindows display messages size groupBy = some groups :=
  ⟨_, if_neg fun undefined => positive.ne' undefined.1⟩

theorem tumble_exact_iff (positive : 0 < size) :
    (∃ groups, groupIntoTumbleWindows display messages size groupBy = some groups ∧
      ExactGroups display size size groupBy messages groups) ↔ ∀ m ∈ messages, 0 ≤ m.timestamp.tmod size := by
  constructor
  · rintro ⟨groups, grouped, exact⟩ m inside
    rw [← truncated_le_iff]
    have found := exact (truncated size m.timestamp) (truncated size m.timestamp + size) (extractGroupKey display m groupBy)
    rw [get_tumble display grouped] at found
    have here : m ∈ messages.filter fun msg => decide (tumbleKey display size groupBy msg =
        windowKey (truncated size m.timestamp) (truncated size m.timestamp + size) (extractGroupKey display m groupBy)) :=
      mem_filter.mpr ⟨inside, decide_eq_true rfl⟩
    rw [listed_inj found] at here
    exact (of_decide_eq_true (mem_filter.mp here).2).2.2.1
  · intro below
    obtain ⟨groups, grouped⟩ := tumble_defined positive
    refine ⟨groups, grouped, fun windowStart windowEnd groupKey => ?_⟩
    rw [get_tumble display grouped]
    congr 1
    refine filter_congr fun m inside => ?_
    simp only [tumbleKey_eq_iff, decide_eq_decide]
    constructor
    · rintro ⟨rfl, rfl, group⟩
      obtain ⟨low, high⟩ := (eq_truncated_iff positive (below m inside) (dvd_truncated size m.timestamp)).mp rfl
      exact ⟨dvd_truncated size m.timestamp, rfl, low, high, group⟩
    · rintro ⟨isMultiple, rfl, low, high, group⟩
      exact ⟨(eq_truncated_iff positive (below m inside) isMultiple).mpr ⟨low, high⟩, rfl, group⟩

/-! ## The operator -/

variable {op : WindowAggregateOperator} {iteration : HashOrder Int} {timestamp : Int}

theorem assign_tumble_iff (positive : 0 < size) (tumbles : op.windowType = .tumble size) :
    (∃ starts, op.assignWindows iteration timestamp = some starts ∧ ExactStarts size size timestamp starts) ↔ 0 ≤ timestamp.tmod size := by
  have assigned : op.assignWindows iteration timestamp = some [truncated size timestamp] := by
    rw [WindowAggregateOperator.assignWindows, tumbles]
    exact if_neg positive.ne'
  rw [assigned]
  constructor
  · rintro ⟨_, ⟨⟩, -, exact⟩
    rw [← truncated_le_iff]
    exact ((exact _).mp mem_cons_self).2.1
  · intro below
    refine ⟨_, rfl, nodup_singleton _, fun w => ?_⟩
    rw [mem_singleton]
    constructor
    · rintro rfl
      exact ⟨dvd_truncated size timestamp, (eq_truncated_iff positive below (dvd_truncated size timestamp)).mp rfl⟩
    · rintro ⟨isMultiple, within⟩
      exact (eq_truncated_iff positive below isMultiple).mpr within

theorem assign_hop (positive : 0 < slide) (hops : op.windowType = .hop size slide) :
    op.assignWindows iteration timestamp =
      some ((multiples slide (truncated slide (timestamp - size + slide)) timestamp).filter fun w => timestamp < w + size) := by
  rw [WindowAggregateOperator.assignWindows, hops]
  dsimp only
  rw [if_neg positive.ne', if_neg fun both => both.1.not_gt positive]

theorem assign_hop_iff (positive : 0 < slide) (hops : op.windowType = .hop size slide) :
    (∃ starts, op.assignWindows iteration timestamp = some starts ∧ ExactStarts size slide timestamp starts) ↔
      0 ≤ (timestamp - size + slide).tmod slide ∨ timestamp < truncated slide (timestamp - size + slide) - slide := by
  rw [assign_hop positive hops, ← truncated_shift_covers_iff positive]
  have start := dvd_truncated slide (timestamp - size + slide)
  constructor
  · rintro ⟨_, ⟨⟩, -, exact⟩ w isMultiple low high
    have made := (exact w).mpr ⟨isMultiple, low, high⟩
    exact ((mem_multiples positive start).mp (mem_of_mem_filter made)).1
  · intro covers
    refine ⟨_, rfl, (nodup_multiples positive).filter _, fun w => ?_⟩
    rw [mem_filter, mem_multiples positive start, decide_eq_true_eq]
    constructor
    · rintro ⟨⟨-, low, isMultiple⟩, high⟩
      exact ⟨isMultiple, low, high⟩
    · rintro ⟨isMultiple, low, high⟩
      exact ⟨⟨covers w isMultiple low high, low, isMultiple⟩, high⟩

/-! ## All three -/

/-- No window of a message is before the first that is made: the batch loop starts early enough for
the least timestamp, and no division rounds up. -/
structure RoundedDown (size slide : Int) (messages : List MessageRow) : Prop where
  batch : messages = [] ∨ size ≤ slide + (minTimestamp messages).tmod slide
  tumble : ∀ m ∈ messages, 0 ≤ m.timestamp.tmod size
  hop : ∀ m ∈ messages, 0 ≤ (m.timestamp - size + slide).tmod slide ∨
    m.timestamp < truncated slide (m.timestamp - size + slide) - slide

/-- **Hop windows, tumble windows and the windows that the operator assigns are exact just when the
first window is rounded down in each.** -/
theorem windows_exact_iff (display : Json → String) (groupBy : List String) (messages : List MessageRow) {size slide : Int}
    (sizePositive : 0 < size) (slidePositive : 0 < slide) :
    WindowsExact display size slide groupBy messages ↔ RoundedDown size slide messages := by
  constructor
  · rintro ⟨hop, tumble, assignHop, -⟩
    refine ⟨(hop_exact_iff slidePositive).mp hop, (tumble_exact_iff sizePositive).mp tumble, fun m inside => ?_⟩
    exact (assign_hop_iff slidePositive rfl).mp (assignHop (.new (.hop size slide) .count) (.listed Int) rfl m inside)
  · rintro ⟨batch, tumble, hop⟩
    refine ⟨(hop_exact_iff slidePositive).mpr batch, (tumble_exact_iff sizePositive).mpr tumble, ?_, ?_⟩
    · exact fun op iteration hops m inside => (assign_hop_iff slidePositive hops).mpr (hop m inside)
    · exact fun op iteration tumbles m inside => (assign_tumble_iff sizePositive tumbles).mpr (tumble m inside)

namespace WindowExample

/-- A message at a time. -/
def at_ (timestamp : Int) : MessageRow := ⟨"t", 0, 0, none, ⟨"", none⟩, timestamp⟩

def plain (_ : Json) : String := ""

end WindowExample

open WindowExample

/-- Windows of 10 every 10 have the message at 25. -/
theorem windows_exact_of_one : WindowsExact plain 10 10 [] [at_ 25] :=
  (windows_exact_iff plain [] [at_ 25] (by decide) (by decide)).mpr
    ⟨.inr (by decide), by decide, by decide⟩

/-- With windows of 10 every 5 the message at 5 is in `[0, 10)`, and the batch grouping has only `[5, 15)`. -/
theorem first_window_missed : ¬ WindowsExact plain 10 5 [] [at_ 5] := by
  intro exact
  obtain empty | early := (hop_exact_iff (by decide)).mp exact.hop
  · cases empty
  · exact absurd early (by decide)

end StreamHouse.Sql
