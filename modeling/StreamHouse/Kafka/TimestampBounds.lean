import StreamHouse.Kafka.ListOffsets
import StreamHouse.Storage.PartitionWriter

/-!
# The time bounds of a segment

The `min_timestamp` and `max_timestamp` that `roll_segment` records are the timestamps of the first and the
last record as `SegmentWriter` keeps them. They bound the others when producers send in order of
time, and `bounds_iff` says that they do not otherwise: neither is compared with a record in between.
-/

namespace StreamHouse.Kafka
open Lib Storage Storage.SegmentWriter List Option Storage.Example

/-- `SegmentWriter::min_timestamp`. -/
def minTimestampOf (w : SegmentWriter) : Option Nat := w.firstTimestamp

/-- `min_timestamp` as `roll_segment` records it; `now` is `now_ms() as u64`. -/
def recordedMin (now : Nat) (w : SegmentWriter) : Int := asI64 ((minTimestampOf w).getD now)

/-- `max_timestamp` as `roll_segment` records it. -/
def recordedMax (now : Nat) (w : SegmentWriter) : Int := asI64 ((maxTimestampOf w).getD now)

/-- The timestamps of records. -/
def timestamps (records : List Record) : Set Int := {t | ∃ r ∈ records, (r.timestamp : Int) = t}

/-- The first record is the oldest and the last one the youngest, and both are `i64`. If the count of the
records wraps to 0, the clock has to read the youngest. -/
structure Bounding (now : Nat) (records : List Record) : Prop where
  first : ∀ f ∈ records.head?, f.timestamp < 2 ^ 63 ∧ ∀ r ∈ records, f.timestamp ≤ r.timestamp
  last : records.length % 2 ^ 32 ≠ 0 → ∀ l ∈ records.getLast?, l.timestamp < 2 ^ 63 ∧ ∀ r ∈ records, r.timestamp ≤ l.timestamp
  wrapped : records.length % 2 ^ 32 = 0 → IsGreatest (timestamps records) (asI64 now)

section

variable {pk : Packages} {blockSizeTarget : Nat} {w w' : SegmentWriter} {r : Record}

/-- What of a writer the bounds are from. -/
def Kept (w w' : SegmentWriter) : Prop :=
  w'.baseOffset = w.baseOffset ∧ w'.firstTimestamp = w.firstTimestamp ∧ w'.recordCount = w.recordCount

theorem flushBlock_kept {flushed : SegmentWriter} (flushes : w.flushBlock pk = .ok flushed) : Kept w flushed := by
  unfold flushBlock at flushes
  split at flushes
  · cases flushes
    exact ⟨rfl, rfl, rfl⟩
  · cases kind : w.compression with
    | none =>
      rw [kind] at flushes
      cases flushes
      exact ⟨rfl, rfl, rfl⟩
    | lz4 =>
      rw [kind] at flushes
      cases flushes
      exact ⟨rfl, rfl, rfl⟩
    | zstd =>
      rw [kind] at flushes
      cases flushes

theorem openBlock_kept (w : SegmentWriter) (r : Record) : Kept w (w.openBlock r) := by
  unfold openBlock
  split <;> exact ⟨rfl, rfl, rfl⟩

/-- **One record**: the first keeps its timestamp, the last leaves its own. -/
theorem append_timestamps (appended : w.append pk blockSizeTarget r = .ok w') :
    w'.baseOffset = (w.begin r).baseOffset ∧ w'.firstTimestamp = (w.begin r).firstTimestamp ∧ w'.lastTimestamp = r.timestamp ∧
      w'.recordCount = (w.recordCount + 1) % 2 ^ 32 := by
  obtain ⟨flushed, kept, rest⟩ : ∃ flushed : SegmentWriter, Kept (w.begin r) flushed ∧ w' = push (flushed.openBlock r) r := by
    unfold append at appended
    dsimp only at appended
    split at appended
    · obtain ⟨flushed, flushes, rest⟩ := bind_ok appended
      exact ⟨flushed, flushBlock_kept flushes, (Except.ok.inj rest).symm⟩
    · exact ⟨_, ⟨rfl, rfl, rfl⟩, (Except.ok.inj appended).symm⟩
  have opened := openBlock_kept flushed r
  have counted : (w.begin r).recordCount = w.recordCount := by
    unfold begin
    split <;> rfl
  subst rest
  refine ⟨opened.1.trans kept.1, opened.2.1.trans kept.2.1, rfl, ?_⟩
  change ((flushed.openBlock r).recordCount + 1) % 2 ^ 32 = _
  rw [opened.2.2, kept.2.2, counted]

/-- What a writer has kept of its records. -/
structure Tracks (records : List Record) (w : SegmentWriter) : Prop where
  base : w.baseOffset = records.head?.map Record.offset
  first : w.firstTimestamp = records.head?.map Record.timestamp
  last : ∀ l ∈ records.getLast?, w.lastTimestamp = l.timestamp
  count : w.recordCount = records.length % 2 ^ 32

theorem Tracks.append {records : List Record} (tracks : Tracks records w) (appended : w.append pk blockSizeTarget r = .ok w') :
    Tracks (records ++ [r]) w' := by
  obtain ⟨base, first, last, count⟩ := append_timestamps appended
  have begun : (w.begin r).baseOffset = (records ++ [r]).head?.map Record.offset ∧
      (w.begin r).firstTimestamp = (records ++ [r]).head?.map Record.timestamp := by
    have isBase := tracks.base
    have isFirst := tracks.first
    cases records with
    | nil =>
      rw [head?_nil, map_none] at isBase
      unfold begin
      rw [isBase]
      exact ⟨rfl, rfl⟩
    | cons f rest =>
      rw [head?_cons, map_some] at isBase
      unfold begin
      rw [isBase]
      exact ⟨isBase, isFirst⟩
  refine ⟨base.trans begun.1, first.trans begun.2, ?_, ?_⟩
  · intro l isLast
    rw [getLast?_concat] at isLast
    rw [last, some.inj isLast]
  · rw [count, tracks.count, length_append, length_singleton, Nat.mod_add_mod]

theorem Tracks.appendAll {records rs : List Record} (tracks : Tracks records w)
    (appended : Storage.appendAll pk blockSizeTarget w rs = .ok w') : Tracks (records ++ rs) w' := by
  induction rs generalizing w records with
  | nil =>
    cases appended
    rwa [append_nil]
  | cons r rs ih =>
    obtain ⟨next, first, rest⟩ := bind_ok appended
    have whole := ih (tracks.append first) rest
    rwa [append_assoc] at whole

/-- **A run of the writer** keeps the first timestamp and the last one. -/
theorem tracks_new {compression : Compression} {records : List Record}
    (written : appendAll pk blockSizeTarget (.new compression) records = .ok w) : Tracks records w := by
  have start : Tracks [] (SegmentWriter.new compression) := ⟨rfl, rfl, fun _ none => absurd none (not_mem_none _), rfl⟩
  exact start.appendAll written

end

/-! ## Bounds -/

section

variable {records : List Record} {r : Record}

/-- A timestamp is an `i64` just if it is still itself as one. -/
theorem asI64_mem_iff (words : ∀ r ∈ records, r.timestamp < 2 ^ 64) (inside : r ∈ records) :
    asI64 r.timestamp ∈ timestamps records ↔ r.timestamp < 2 ^ 63 := by
  constructor
  · rintro ⟨q, -, same⟩
    have word := words r inside
    by_contra large
    have negative : asI64 r.timestamp < 0 := by
      rw [asI64, BitVec.toInt_ofNat', Int.bmod_def]
      omega
    omega
  · intro small
    exact ⟨r, inside, (PartitionLog.asI64_of_lt small).symm⟩

theorem isLeast_iff (words : ∀ r ∈ records, r.timestamp < 2 ^ 64) (inside : r ∈ records) :
    IsLeast (timestamps records) (asI64 r.timestamp) ↔ r.timestamp < 2 ^ 63 ∧ ∀ q ∈ records, r.timestamp ≤ q.timestamp := by
  rw [IsLeast, asI64_mem_iff words inside]
  apply and_congr_right
  intro small
  rw [PartitionLog.asI64_of_lt small]
  constructor
  · intro least q there
    exact Int.ofNat_le.mp (least ⟨q, there, rfl⟩)
  · rintro least _ ⟨q, there, rfl⟩
    exact Int.ofNat_le.mpr (least q there)

theorem isGreatest_iff (words : ∀ r ∈ records, r.timestamp < 2 ^ 64) (inside : r ∈ records) :
    IsGreatest (timestamps records) (asI64 r.timestamp) ↔ r.timestamp < 2 ^ 63 ∧ ∀ q ∈ records, q.timestamp ≤ r.timestamp := by
  rw [IsGreatest, asI64_mem_iff words inside]
  apply and_congr_right
  intro small
  rw [PartitionLog.asI64_of_lt small]
  constructor
  · intro greatest q there
    exact Int.ofNat_le.mp (greatest ⟨q, there, rfl⟩)
  · rintro greatest _ ⟨q, there, rfl⟩
    exact Int.ofNat_le.mpr (greatest q there)

variable {w : SegmentWriter} {now : Nat}

theorem recordedMin_eq (tracks : Tracks records w) {f : Record} (isFirst : records.head? = some f) :
    recordedMin now w = asI64 f.timestamp := by
  rw [recordedMin, minTimestampOf, tracks.first, isFirst, map_some, getD_some]

theorem recordedMax_eq (tracks : Tracks records w) {l : Record} (isLast : records.getLast? = some l) :
    recordedMax now w = if records.length % 2 ^ 32 = 0 then asI64 now else asI64 l.timestamp := by
  rw [recordedMax, maxTimestampOf, tracks.count, tracks.last l isLast]
  split
  · next counted => rw [if_neg (by omega), getD_some]
  · next wraps => rw [if_pos (by omega), getD_none]

end

/-- **The recorded bounds are bounds exactly if** the first record is the oldest and the last the youngest. -/
theorem bounds_iff {pk : Packages} {compression : Compression} {blockSizeTarget : Nat} {records : List Record} {w : SegmentWriter}
    (written : appendAll pk blockSizeTarget (.new compression) records = .ok w) (nonempty : records ≠ [])
    (words : ∀ r ∈ records, r.timestamp < 2 ^ 64) (now now' : Nat) :
    IsLeast (timestamps records) (recordedMin now w) ∧ IsGreatest (timestamps records) (recordedMax now' w) ↔ Bounding now' records := by
  have tracks := tracks_new written
  obtain ⟨f, isFirst⟩ : ∃ f, records.head? = some f := ⟨_, head?_eq_some_head nonempty⟩
  obtain ⟨l, isLast⟩ : ∃ l, records.getLast? = some l := ⟨_, getLast?_eq_some_getLast nonempty⟩
  have least := isLeast_iff words (mem_of_head? isFirst)
  have greatest := isGreatest_iff words (mem_of_getLast? isLast)
  rw [recordedMin_eq tracks isFirst, recordedMax_eq tracks isLast, least]
  constructor
  · rintro ⟨first, last⟩
    refine ⟨?_, ?_, ?_⟩
    · intro _ same
      obtain rfl := some.inj (isFirst.symm.trans same)
      exact first
    · intro counted _ same
      obtain rfl := some.inj (isLast.symm.trans same)
      rw [if_neg counted] at last
      exact greatest.mp last
    · intro wraps
      rwa [if_pos wraps] at last
  · rintro ⟨first, last, wrapped⟩
    refine ⟨first f isFirst, ?_⟩
    split
    · next wraps => exact wrapped wraps
    · next counted => exact greatest.mpr (last counted l isLast)

namespace Example

/-- Two records, a second apart. -/
def inOrder : List Record := [⟨0, 1000, none, []⟩, ⟨1, 2000, none, []⟩]

/-- The same, with the later one first. -/
def lateFirst : List Record := [⟨0, 2000, none, []⟩, ⟨1, 1000, none, []⟩]

end Example

open Example

/-- In order they are. -/
theorem bounds_iff_in_order : ∃ w, appendAll packages 1048576 (.new .lz4) inOrder = .ok w ∧
    IsLeast (timestamps inOrder) (recordedMin 0 w) ∧ IsGreatest (timestamps inOrder) (recordedMax 0 w) := by
  obtain ⟨w, _, _, written, -⟩ := @appendAll_new inOrder packages .lz4 (by decide) 1048576 (by decide)
  refine ⟨w, written, (bounds_iff written (by decide) (by decide) 0 0).mpr ⟨?_, ?_, ?_⟩⟩
  · decide
  · decide
  · intro wraps
    exact absurd wraps (by decide)

/-- The recorded minimum is later than the second record. -/
theorem bounds_fail : ¬ ∀ w, appendAll packages 1048576 (.new .lz4) lateFirst = .ok w →
    IsLeast (timestamps lateFirst) (recordedMin 0 w) ∧ IsGreatest (timestamps lateFirst) (recordedMax 0 w) := by
  intro bounds
  obtain ⟨w, _, _, written, -⟩ := @appendAll_new lateFirst packages .lz4 (by decide) 1048576 (by decide)
  have least := (bounds w written).1
  rw [recordedMin_eq (tracks_new written) (f := ⟨0, 2000, none, []⟩) rfl] at least
  have words : ∀ r ∈ lateFirst, r.timestamp < 2 ^ 64 := by decide
  have first := ((isLeast_iff words (mem_of_head? rfl)).mp least).2 ⟨1, 1000, none, []⟩ (by decide)
  exact absurd first (by decide)

end StreamHouse.Kafka
