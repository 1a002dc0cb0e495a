import StreamHouse.Lib.Predecessors
import StreamHouse.Storage.PartitionReader

/-!
# The segment index

`SegmentIndex` of `segment_index.rs`: a map from base offsets to segments that is
filled from the metadata store, cut to its last entries, and asked for the entry
before an offset. It looks at one segment only, so it finds a segment that has an
offset exactly if that one does (`agreesWithScan_iff`). Base and end offsets come from
`BIGINT` columns.
-/

namespace StreamHouse.Storage
open Metadata Lib List OrderedMap

structure SegmentIndexConfig where
  refreshInterval : Nat
  maxSegments : Nat

/-- `SegmentIndex`, its instants in milliseconds. -/
structure SegmentIndex where
  config : SegmentIndexConfig
  index : List (Nat × SegmentInfo)
  lastRefresh : Option Nat

namespace SegmentIndex

/-- `new`. -/
def new (config : SegmentIndexConfig) : SegmentIndex := ⟨config, [], none⟩

/-- `SegmentIndexConfig::default`. -/
def default : SegmentIndexConfig := ⟨30000, Storage.maxSegments⟩

/-- `lookup_in_index`. -/
def lookupInIndex (offset : Nat) (x : SegmentIndex) : Option SegmentInfo :=
  match lastUpTo x.index offset with
  | none => none
  | some (_, segment) => if offset ≥ segment.baseOffset ∧ offset ≤ segment.endOffset then some segment else none

/-- `should_refresh`. -/
def shouldRefresh (now : Nat) (x : SegmentIndex) : Bool :=
  match x.lastRefresh with
  | none => true
  | some instant => decide (now - instant ≥ x.config.refreshInterval)

/-- The new index of `refresh`, before the limit. -/
def inserted (segments : List SegmentInfo) : List (Nat × SegmentInfo) :=
  (segments.map fun s => (s.baseOffset, s)).foldl (fun m entry => insert entry.1 entry.2 m) []

/-- `refresh`, once `get_segments` has answered. -/
def refreshed (now : Nat) (segments : List SegmentInfo) (x : SegmentIndex) : SegmentIndex :=
  let newIndex := inserted segments
  let newIndex :=
    if newIndex.length > x.config.maxSegments then newIndex.drop (newIndex.length - x.config.maxSegments) else newIndex
  { x with index := newIndex, lastRefresh := some now }

/-- `refresh`. -/
def refresh (getSegments : Except MetadataError (List SegmentInfo)) (now : Nat) (x : SegmentIndex) :
    Except MetadataError SegmentIndex :=
  getSegments.map fun segments => x.refreshed now segments

/-- The first step of `find_segment_for_offset`. -/
def refreshIfDue (getSegments : Except MetadataError (List SegmentInfo)) (now : Nat) (x : SegmentIndex) :
    Except MetadataError SegmentIndex :=
  if x.shouldRefresh now then x.refresh getSegments now else .ok x

/-- The rest of it: a miss refreshes the index and looks again. -/
def lookupOrRefresh (getSegments : Except MetadataError (List SegmentInfo)) (now offset : Nat) (x : SegmentIndex) :
    Except MetadataError (Option SegmentInfo × SegmentIndex) :=
  match x.lookupInIndex offset with
  | some segment => .ok (some segment, x)
  | none => do
    let x ← x.refresh getSegments now
    .ok (x.lookupInIndex offset, x)

/-- `find_segment_for_offset`. -/
def findSegmentForOffset (getSegments : Except MetadataError (List SegmentInfo)) (now offset : Nat) (x : SegmentIndex) :
    Except MetadataError (Option SegmentInfo × SegmentIndex) := do
  let x ← x.refreshIfDue getSegments now
  x.lookupOrRefresh getSegments now offset

end SegmentIndex

open SegmentIndex

/-- The segment's range has the offset. -/
def Covers (offset : Nat) (s : SegmentInfo) : Prop := s.baseOffset ≤ offset ∧ offset ≤ s.endOffset

instance (offset : Nat) (s : SegmentInfo) : Decidable (Covers offset s) := inferInstanceAs (Decidable (_ ∧ _))

/-- Of the registered segments the one the index looks at for an offset: none begins between
it and the offset, it is the last listed with its base offset, and fewer than `limit` base
offsets are above its own. -/
structure Foremost (limit : Nat) (segments : List SegmentInfo) (offset : Nat) (s : SegmentInfo) : Prop where
  begins : s.baseOffset ≤ offset
  greatest : ∀ t ∈ segments, t.baseOffset ≤ offset → t.baseOffset ≤ s.baseOffset
  last : (segments.filter fun t => t.baseOffset = s.baseOffset).getLast? = some s
  recent : ((segments.map SegmentInfo.baseOffset).dedup.filter fun base => s.baseOffset < base).length < limit

/-- After a refresh the index finds a segment with the offset iff one is registered. -/
def SegmentIndex.Agrees (x : SegmentIndex) (refreshAt : Nat) (segments : List SegmentInfo) (now offset : Nat) : Prop :=
  (∃ s y, (x.refreshed refreshAt segments).findSegmentForOffset (.ok segments) now offset = .ok (some s, y) ∧ Covers offset s) ↔
    ∃ s ∈ segments, Covers offset s

/-! ## The map of the index -/

namespace SegmentIndex

theorem inserted_ascending (segments : List SegmentInfo) : Ascending (inserted segments) :=
  (filled (fun _ entry => entry.2) _).1

variable {segments : List SegmentInfo}

/-- Each base offset has the last segment listed with it. -/
theorem mem_inserted_iff {base : Nat} {s : SegmentInfo} :
    (base, s) ∈ inserted segments ↔ (segments.filter fun t => t.baseOffset = base).getLast? = some s := by
  have stored : get (inserted segments) base = (segments.filter fun t => t.baseOffset = base).getLast? := by
    rw [inserted, get_inserts, filter_map, getLast?_map, Option.map_map]
    show Option.map (fun s => s) _ = _
    exact Option.map_id'
  rw [← stored]
  constructor
  · intro inside
    exact (inserted_ascending segments).get_of_mem inside
  · exact mem_of_get

theorem of_mem_inserted {entry : Nat × SegmentInfo} (inside : entry ∈ inserted segments) :
    entry.2 ∈ segments ∧ entry.2.baseOffset = entry.1 := by
  have last := mem_filter.mp (mem_of_getLast? (mem_inserted_iff.mp inside))
  exact ⟨last.1, of_decide_eq_true last.2⟩

/-- A registered base offset is a key of the map. -/
theorem exists_mem_inserted {t : SegmentInfo} (registered : t ∈ segments) :
    ∃ entry ∈ inserted segments, entry.1 = t.baseOffset := by
  have some_ : (segments.filter fun s => s.baseOffset = t.baseOffset) ≠ [] :=
    ne_nil_of_mem (mem_filter.mpr ⟨registered, decide_eq_true rfl⟩)
  exact ⟨_, mem_inserted_iff.mpr (getLast?_eq_some_getLast some_), rfl⟩

theorem refreshed_index (x : SegmentIndex) (now : Nat) (segments : List SegmentInfo) :
    (x.refreshed now segments).index = newest x.config.maxSegments (inserted segments) := by
  simp only [refreshed, newest]
  split
  · rfl
  · next few =>
    have nothing : (inserted segments).length - x.config.maxSegments = 0 := by omega
    rw [nothing, drop_zero]

/-- **The entry the index looks at** is the foremost segment. -/
theorem lastUpTo_newest_iff {limit offset base : Nat} {s : SegmentInfo} :
    lastUpTo (newest limit (inserted segments)) offset = some (base, s) ↔
      s.baseOffset = base ∧ Foremost limit segments offset s := by
  have above : ((inserted segments).filter fun other => base < other.1).length =
      ((segments.map SegmentInfo.baseOffset).dedup.filter fun other => base < other).length := by
    rw [inserted, length_above_inserts, map_map]
    rfl
  rw [(inserted_ascending segments).lastUpTo_newest_iff, (inserted_ascending segments).lastUpTo_eq_some_iff, above]
  constructor
  · rintro ⟨⟨inside, upTo, greatest⟩, few⟩
    have named : s.baseOffset = base := (of_mem_inserted inside).2
    subst named
    refine ⟨rfl, upTo, ?_, mem_inserted_iff.mp inside, few⟩
    intro t registered small
    obtain ⟨other, listed, same⟩ := exists_mem_inserted registered
    have bound : other.1 ≤ s.baseOffset := greatest other listed (by omega)
    omega
  · rintro ⟨rfl, foremost⟩
    refine ⟨⟨mem_inserted_iff.mpr foremost.last, foremost.begins, ?_⟩, foremost.recent⟩
    intro other listed small
    obtain ⟨registered, same⟩ := of_mem_inserted listed
    have bound := foremost.greatest other.2 registered (by omega)
    dsimp only
    omega

/-- A lookup in a refreshed index. -/
theorem lookupInIndex_refreshed_iff {x : SegmentIndex} {now offset : Nat} {s : SegmentInfo} :
    (x.refreshed now segments).lookupInIndex offset = some s ↔
      Foremost x.config.maxSegments segments offset s ∧ offset ≤ s.endOffset := by
  rw [lookupInIndex, refreshed_index]
  constructor
  · intro found
    split at found
    · cases found
    · next base segment looked =>
      split at found
      · next has =>
        obtain rfl := Option.some.inj found
        exact ⟨(lastUpTo_newest_iff.mp looked).2, has.2⟩
      · cases found
  · rintro ⟨foremost, reaches⟩
    rw [lastUpTo_newest_iff.mpr ⟨rfl, foremost⟩]
    exact if_pos ⟨foremost.begins, reaches⟩

/-- With the store as it was at the last refresh, refreshing again changes no answer. -/
theorem find_refreshed (x : SegmentIndex) (refreshAt now offset : Nat) (segments : List SegmentInfo) :
    ∃ y, (x.refreshed refreshAt segments).findSegmentForOffset (.ok segments) now offset =
      .ok ((x.refreshed refreshAt segments).lookupInIndex offset, y) := by
  have same (y : SegmentIndex) (config : y.config = x.config) :
      (y.refreshed now segments).lookupInIndex offset = (x.refreshed refreshAt segments).lookupInIndex offset := by
    rw [lookupInIndex, lookupInIndex, refreshed_index, refreshed_index, config]
  have first : ∃ y : SegmentIndex, (x.refreshed refreshAt segments).refreshIfDue (.ok segments) now = .ok y ∧
      y.config = x.config ∧ y.lookupInIndex offset = (x.refreshed refreshAt segments).lookupInIndex offset := by
    unfold refreshIfDue
    split
    · exact ⟨_, rfl, rfl, same _ rfl⟩
    · exact ⟨_, rfl, rfl, rfl⟩
  obtain ⟨y, due, config, looked⟩ := first
  have begun : (x.refreshed refreshAt segments).findSegmentForOffset (.ok segments) now offset =
      y.lookupOrRefresh (.ok segments) now offset := by
    rw [findSegmentForOffset, due]
    exact rfl
  rw [begun, lookupOrRefresh]
  cases found : y.lookupInIndex offset with
  | some segment => exact ⟨y, by rw [← looked, found]⟩
  | none =>
    refine ⟨y.refreshed now segments, ?_⟩
    show Except.ok ((y.refreshed now segments).lookupInIndex offset, _) = _
    rw [same y config]

/-- **The index and the store agree on an offset exactly if no registered segment has it, or
the one segment the index looks at reaches it.** -/
theorem agreesWithScan_iff (x : SegmentIndex) (refreshAt : Nat) (segments : List SegmentInfo) (now offset : Nat) :
    x.Agrees refreshAt segments now offset ↔
      ((∃ s ∈ segments, Covers offset s) → ∃ s, Foremost x.config.maxSegments segments offset s ∧ offset ≤ s.endOffset) := by
  obtain ⟨y, answer⟩ := x.find_refreshed refreshAt now offset segments
  have finds : (∃ s y, (x.refreshed refreshAt segments).findSegmentForOffset (.ok segments) now offset = .ok (some s, y) ∧
      Covers offset s) ↔ ∃ s, Foremost x.config.maxSegments segments offset s ∧ offset ≤ s.endOffset := by
    rw [answer]
    constructor
    · rintro ⟨s, z, found, -⟩
      exact ⟨s, lookupInIndex_refreshed_iff.mp (Prod.mk.inj (Except.ok.inj found)).1⟩
    · rintro ⟨s, foremost, reaches⟩
      refine ⟨s, y, ?_, foremost.begins, reaches⟩
      rw [lookupInIndex_refreshed_iff.mpr ⟨foremost, reaches⟩]
  rw [Agrees, finds]
  constructor
  · exact fun agrees => agrees.mpr
  · intro reaches
    refine ⟨?_, reaches⟩
    rintro ⟨s, foremost, most⟩
    exact ⟨s, (mem_filter.mp (mem_of_getLast? foremost.last)).1, foremost.begins, most⟩

end SegmentIndex

namespace Example

def registered (baseOffset endOffset : Nat) : SegmentInfo :=
  ⟨.segment "orders" 0 baseOffset, "orders", 0, baseOffset, endOffset, endOffset + 1 - baseOffset, 90, "bucket",
    .segment .data "orders" 0 baseOffset, 0, 0, 0⟩

end Example

open Example

/-- A short segment inside a long one: behind its end the long one is not seen. -/
theorem agrees_fails :
    ¬ (new default).Agrees 0 [registered 0 100, registered 50 60] 0 80 := by
  intro agrees
  obtain ⟨s, y, found, -⟩ := agrees.mpr ⟨registered 0 100, mem_cons_self, by decide⟩
  have nothing : ((new default).refreshed 0
      [registered 0 100, registered 50 60]).lookupInIndex 80 = none := by decide
  obtain ⟨z, answer⟩ := (new default).find_refreshed 0 0 80
    [registered 0 100, registered 50 60]
  rw [answer, nothing] at found
  cases found

end StreamHouse.Storage
