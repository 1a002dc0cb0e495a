import StreamHouse.Lib.Bisect
import StreamHouse.Storage.SegmentRoundTrip

/-!
# Seeking in a segment

`read_from_offset` starts at the block that a binary search of the index picks. The entry it picks starts
at or before the offset, so with increasing offsets no block before it holds a record to be returned.
-/

namespace StreamHouse.Storage
open Lib Varint SegmentWriter SegmentReader List Option Example

/-! ## The search -/

/-- The test of the binary search at one position. -/
def startsBy (index : List IndexEntry) (offset i : Nat) : Bool := decide ((index[i]?.map IndexEntry.offset).getD 0 ≤ offset)

/-- The search stays inside the index. -/
theorem searchBlock_eq {index : List IndexEntry} {offset left right : Nat} (inside : right ≤ index.length) :
    SegmentReader.searchBlock index offset left right = .ok (bisect (startsBy index offset) left right) := by
  fun_induction bisect (startsBy index offset) left right with
  | case1 left right open_ passes ih =>
    have here : (left + right) / 2 < index.length := by omega
    rw [SegmentReader.searchBlock, if_pos open_, getElem?_eq_getElem here]
    simp only [startsBy, getElem?_eq_getElem here, map_some, getD_some, decide_eq_true_eq] at passes
    exact (if_pos passes).trans (ih inside)
  | case2 left right open_ fails ih =>
    have here : (left + right) / 2 < index.length := by omega
    rw [SegmentReader.searchBlock, if_pos open_, getElem?_eq_getElem here]
    simp only [startsBy, getElem?_eq_getElem here, map_some, getD_some, decide_eq_true_eq] at fails
    exact (if_neg fails).trans (ih (by omega))
  | case3 left right closed => rw [SegmentReader.searchBlock, if_neg closed]

/-- **The block that is found** is one of the index, unless that is empty, and starts at or before the offset,
unless it is the first. -/
theorem findBlockForOffset_ok (s : SegmentReader) (offset : Nat) :
    ∃ k, s.findBlockForOffset offset = .ok k ∧ k ≤ s.index.length ∧ (s.index ≠ [] → k < s.index.length) ∧
      (0 < k → ∃ entry, s.index[k]? = some entry ∧ entry.offset ≤ offset) := by
  by_cases empty : s.index = []
  · exact ⟨0, if_pos empty, Nat.zero_le _, fun occurs => absurd empty occurs, fun positive => absurd positive (Nat.lt_irrefl 0)⟩
  have some_ := length_pos_iff.mpr empty
  have upper := @bisect_le (startsBy s.index offset) _ _ (Nat.zero_le s.index.length)
  have found : 0 < bisect (startsBy s.index offset) 0 s.index.length →
      startsBy s.index offset (bisect (startsBy s.index offset) 0 s.index.length - 1) = true :=
    below_bisect fun impossible => absurd impossible (Nat.lt_irrefl 0)
  refine ⟨bisect (startsBy s.index offset) 0 s.index.length - 1, ?_, by omega, fun _ => by omega, ?_⟩
  · rw [SegmentReader.findBlockForOffset, if_neg empty, searchBlock_eq (Nat.le_refl _)]
    apply congrArg Except.ok
    dsimp only
    split
    · rfl
    · omega
  · intro positive
    have here : bisect (startsBy s.index offset) 0 s.index.length - 1 < s.index.length := by omega
    have passes := found (by omega)
    simp only [startsBy, getElem?_eq_getElem here, map_some, getD_some, decide_eq_true_eq] at passes
    exact ⟨_, getElem?_eq_getElem here, passes⟩

/-! ## The blocks read -/

/-- Records are filtered block by block. -/
theorem filter_blocks {ε : Type} (read : Nat → Except ε (List Record)) (keep : Record → Bool) (is : List Nat)
    (records : List Record) :
    (is.foldlM (fun records i => (read i).map fun block => records ++ block) records).map (filter keep) =
      is.foldlM (fun records i => (read i).map fun block => records ++ block.filter keep) (records.filter keep) := by
  induction is generalizing records with
  | nil => rfl
  | cons i is ih =>
    rw [foldlM_cons, foldlM_cons]
    cases piece : read i with
    | error e => rfl
    | ok block =>
      have rest := ih (records ++ block)
      rw [filter_append] at rest
      exact rest

/-- **Where the blocks before the one found hold nothing to return**, seeking is filtering. -/
theorem readFromOffset_eq {pk : Packages} {s : SegmentReader} {offset k : Nat} {before : List Record}
    (found : s.findBlockForOffset offset = .ok k) (inside : k ≤ s.index.length)
    (earlier : (List.range k).foldlM (fun records i => (s.readBlock pk i).map fun block => records ++ block) [] = .ok before)
    (below : ∀ r ∈ before, r.offset < offset) :
    s.readFromOffset pk offset = (s.readAll pk).map (filter fun r => offset ≤ r.offset) := by
  have nothing : before.filter (fun r => decide (offset ≤ r.offset)) = [] := by
    apply filter_eq_nil_iff.mpr
    intro r member
    have := below r member
    simpa using this
  have parts : List.range s.index.length = List.range k ++ range' k (s.index.length - k) := by
    rw [range_eq_range', range_eq_range']
    have joined := @range'_append_1 0 k (s.index.length - k)
    rw [Nat.zero_add, Nat.add_sub_cancel' inside] at joined
    exact joined.symm
  rw [SegmentReader.readFromOffset, found, ok_bind, readAll, parts, foldlM_append, earlier, ok_bind, filter_blocks, nothing]

section Offsets

variable {pk : Packages} {compression : Compression}

/-- Records of an earlier group come before the first one of a later group. -/
theorem offset_lt_entry {groups : List (List Record)} (increasing : groups.flatten.Pairwise fun a b => a.offset < b.offset)
    (nonempty : ∀ group ∈ groups, group ≠ []) {position k : Nat} {entry : IndexEntry}
    (found : (entries pk compression position groups)[k]? = some entry) :
    ∀ r ∈ (groups.take k).flatten, r.offset < entry.offset := by
  rw [entries_getElem?] at found
  obtain ⟨group, here, rfl⟩ := map_eq_some_iff.mp found
  obtain ⟨inside, rfl⟩ := List.getElem?_eq_some_iff.mp here
  obtain ⟨first, rest, split⟩ := exists_cons_of_ne_nil (nonempty _ (getElem_mem inside))
  intro r member
  have parts : groups.flatten = (groups.take k).flatten ++ (groups[k] ++ (groups.drop (k + 1)).flatten) := by
    rw [← flatten_cons, ← flatten_append, getElem_cons_drop, take_append_drop]
  rw [parts] at increasing
  have ordered := (List.pairwise_append.mp increasing).2.2 r member first (by simp [split])
  simpa [split] using ordered

/-- A reader that knows only the first entries of the index still finds each block but the last of them. -/
theorem readBlock_take {s : SegmentReader} {m i : Nat} (below : i + 1 < m) :
    { s with index := s.index.take m }.readBlock pk i = s.readBlock pk i := by
  have here : (s.index.take m)[i]? = s.index[i]? := getElem?_take_of_lt (by omega)
  have next : (s.index.take m)[i + 1]? = s.index[i + 1]? := getElem?_take_of_lt below
  simp only [readBlock, blockEnd, here, next]

/-- **Seeking is filtering** for a reader that knows the first `m` blocks of a file. -/
theorem Reads.readFromOffset {groups : List (List Record)} {s : SegmentReader} (reads : Reads pk compression groups s)
    (undoes : ∀ block, pk.decompressSizePrepended (pk.compressPrependSize block) = .ok block)
    (supported : compression ≠ .zstd) (increasing : groups.flatten.Pairwise fun a b => a.offset < b.offset)
    (nonempty : ∀ group ∈ groups, group ≠ []) (fits : ∀ r ∈ groups.flatten, r.Fits) (m offset : Nat) :
    { s with index := s.index.take m }.readFromOffset pk offset =
      ({ s with index := s.index.take m }.readAll pk).map (filter fun r => offset ≤ r.offset) := by
  obtain ⟨k, found, most, inside, starts⟩ := findBlockForOffset_ok { s with index := s.index.take m } offset
  have length : s.index.length = groups.length := by rw [reads.index, entries_length]
  have counted : k ≤ m ∧ k ≤ groups.length ∧ (0 < k → k < m) := by
    dsimp only at most inside
    rw [length_take, length] at most
    refine ⟨by omega, by omega, fun positive => ?_⟩
    have below := inside (ne_nil_of_length_pos (by rw [length_take, length]; omega))
    rw [length_take] at below
    omega
  -- the blocks before the one found are not the last, so they are read whole
  have earlier := @readBlocks_ok pk groups { s with index := s.index.take m } k counted.2.1 fun i within below => by
    rw [readBlock_take (by omega)]
    exact reads.readBlock undoes supported within (nonempty _ (getElem_mem _)) fun r here =>
      fits r (mem_flatten_of_mem (getElem_mem _) here)
  refine readFromOffset_eq found most earlier ?_
  intro r member
  obtain ⟨x, here, rfl⟩ := mem_map.mp member
  by_cases first : k = 0
  · subst first
    cases here
  · obtain ⟨entry, picked, start⟩ := starts (by omega)
    have whole : s.index[k]? = some entry := by
      rw [← picked]
      exact (getElem?_take_of_lt (by omega)).symm
    rw [reads.index] at whole
    exact Nat.lt_of_lt_of_le (offset_lt_entry increasing nonempty whole x here) start

end Offsets

/-! ## What the writer produces -/

theorem begin_compression (w : SegmentWriter) (r : Record) : (w.begin r).compression = w.compression := by
  unfold begin
  split <;> rfl

theorem openBlock_compression (w : SegmentWriter) (r : Record) : (w.openBlock r).compression = w.compression := by
  unfold openBlock
  split <;> rfl

theorem flushBlock_compression {pk : Packages} {w flushed : SegmentWriter} (flushes : w.flushBlock pk = .ok flushed) :
    flushed.compression = w.compression := by
  unfold flushBlock at flushes
  split at flushes
  · cases flushes
    rfl
  · cases kind : w.compression with
    | none =>
      simp only [kind] at flushes
      cases flushes
      rfl
    | lz4 =>
      simp only [kind] at flushes
      cases flushes
      rfl
    | zstd =>
      simp only [kind] at flushes
      cases flushes

/-- After an `append` the current block is not empty. -/
theorem append_kept {pk : Packages} {blockSizeTarget : Nat} {w w' : SegmentWriter} {r : Record}
    (appended : w.append pk blockSizeTarget r = .ok w') : w'.compression = w.compression ∧ w'.currentBlock ≠ [] := by
  obtain ⟨flushed, kind, rest⟩ : ∃ flushed : SegmentWriter,
      flushed.compression = w.compression ∧ w' = push (flushed.openBlock r) r := by
    rw [← begin_compression w r]
    unfold append at appended
    dsimp only at appended
    split at appended
    · obtain ⟨flushed, flushes, rest⟩ := bind_ok appended
      exact ⟨flushed, flushBlock_compression flushes, (Except.ok.inj rest).symm⟩
    · exact ⟨_, rfl, (Except.ok.inj appended).symm⟩
  subst rest
  refine ⟨(openBlock_compression flushed r).trans kind, ?_⟩
  intro empty
  exact recordBytes_ne_nil _ _ _ (append_eq_nil_iff.mp empty).2

theorem appendAll_kept {pk : Packages} {blockSizeTarget : Nat} {w w' : SegmentWriter} {rs : List Record}
    (appended : appendAll pk blockSizeTarget w rs = .ok w') :
    w'.compression = w.compression ∧ (rs ≠ [] → w'.currentBlock ≠ []) := by
  induction rs generalizing w with
  | nil =>
    rw [← Except.ok.inj appended]
    exact ⟨rfl, fun occurs => absurd rfl occurs⟩
  | cons r rs ih =>
    obtain ⟨next, first, rest⟩ := bind_ok appended
    obtain ⟨kind, occurs⟩ := append_kept first
    obtain ⟨kinds, later⟩ := ih rest
    refine ⟨kinds.trans kind, fun _ => ?_⟩
    cases rs with
    | nil =>
      rw [← Except.ok.inj rest]
      exact occurs
    | cons _ _ => exact later (by simp)

/-- A segment holds records, and `zstd` is never written. -/
theorem finish_produced {pk : Packages} {compression : Compression} {blockSizeTarget : Nat} {rs : List Record}
    {w : SegmentWriter} {bytes : Bytes} (appended : appendAll pk blockSizeTarget (.new compression) rs = .ok w)
    (finished : w.finish pk = .ok bytes) : rs ≠ [] ∧ compression ≠ .zstd := by
  obtain ⟨kind, occurs⟩ := appendAll_kept appended
  obtain ⟨flushed, flushes, rest⟩ := bind_ok finished
  have some_ : rs ≠ [] := by
    rintro rfl
    cases appended
    cases flushes
    cases rest
  refine ⟨some_, ?_⟩
  rintro rfl
  rw [flushBlock, if_neg (occurs some_), kind] at flushes
  cases flushes

/-- **Seeking is filtering**, at every offset and for every layout of the blocks. -/
theorem seek_filters_readAll {pk : Packages} (undoes : ∀ block, pk.decompressSizePrepended (pk.compressPrependSize block) = .ok block)
    {compression : Compression} {blockSizeTarget : Nat} {rs : List Record} {w : SegmentWriter} {bytes : Bytes}
    (increasing : rs.Pairwise fun a b => a.offset < b.offset) (fits : ∀ r ∈ rs, r.Fits)
    (appended : appendAll pk blockSizeTarget (.new compression) rs = .ok w) (finished : w.finish pk = .ok bytes)
    (size : bytes.length < 2 ^ 64) :
    ∃ s, SegmentReader.new pk bytes = .ok s ∧
      ∀ offset, s.readFromOffset pk offset = (s.readAll pk).map (filter fun r => offset ≤ r.offset) := by
  obtain ⟨nonempty, supported⟩ := finish_produced appended finished
  obtain ⟨w', done, current, appended', built, whole⟩ := @appendAll_new _ pk _ supported blockSizeTarget nonempty
  cases appended.symm.trans appended'
  obtain ⟨flushed, flushes, blocks⟩ := built.finished supported
  have groups : (done ++ [current]).flatten = rs := by simpa using whole
  rw [← groups] at increasing fits
  have written := finish_file flushes (blocks.base.trans (by rw [groups, head?_eq_some_head nonempty]; rfl))
    (blocks.last.trans (by rw [groups, getLast?_eq_some_getLast nonempty]; rfl))
  cases finished.symm.trans written
  have positions : headerSize + flushed.blocks.flatten.length < 2 ^ 64 := by
    simp only [file, body, length_append, writeHeader_length] at size
    omega
  have opened := @new_file flushed pk (rs.head nonempty).offset (rs.getLast nonempty).offset
    (by rw [blocks.index]; exact entries_fits fits headerSize) positions
  have reads := blocks.reads (rs.head nonempty).offset (rs.getLast nonempty).offset positions
  exact ⟨_, opened, reads.readFromOffset undoes supported increasing built.groups fits _⟩

/-- Two blocks of one record each, between which the offset lies. -/
theorem seek_between_blocks : ∃ w bytes s, appendAll packages 1 (.new .lz4) twoRecords = .ok w ∧
    w.finish packages = .ok bytes ∧ SegmentReader.new packages bytes = .ok s ∧
      s.readFromOffset packages 6 = (s.readAll packages).map (filter fun r => 6 ≤ r.offset) := by
  obtain ⟨w, bytes, appended, finished, length⟩ := twoRecords_bytes
  obtain ⟨s, opened, filters⟩ := seek_filters_readAll readLiterals_literals (by decide) twoRecords_fits
    appended finished (by omega)
  exact ⟨w, bytes, s, appended, finished, opened, filters 6⟩

end StreamHouse.Storage
