import StreamHouse.Lib.Totality
import StreamHouse.Storage.SegmentSeek

/-!
# Segments of any bytes

The checksum covers everything before the footer, but the position of the index stands in the footer, and
neither it nor the positions in the index are compared with the length of the file. `total_iff`: the reader
returns, for every call, exactly if they fit.
-/

namespace StreamHouse.Storage
open Lib SegmentReader List Compression

/-- Opening the file and every read on the reader return a value or an error. -/
def ReadsTotally (pk : Packages) (data : Bytes) : Prop :=
  Total (new pk data) ∧ ∀ s, new pk data = .ok s →
    Total (s.readAll pk) ∧ (∀ offset, Total (s.readFromOffset pk offset)) ∧ ∀ i, Total (s.readBlock pk i)

/-- The magic, the version and a compression that is known. -/
def HeaderAccepted (data : Bytes) : Prop :=
  data.take 4 = segmentMagic ∧ numberAt data 4 2 = segmentVersion ∧ numberAt data 6 2 ≤ 2

/-- The checksum of what is before the footer, and the magic. -/
def FooterAccepted (pk : Packages) (data : Bytes) : Prop :=
  numberAt data (data.length - 24) 4 = (pk.crc32 (data.take (data.length - footerSize))).toNat ∧
    (data.drop (data.length - 20)).take 4 = segmentMagic

/-- The position of the index. -/
def indexStart (data : Bytes) : Nat := numberAt data (data.length - footerSize) 8

/-- The number of its entries. -/
def entryCount (data : Bytes) : Nat := numberAt data (indexStart data) 4

/-- The file positions in its entries. -/
def filePositions (data : Bytes) : List Nat :=
  (List.range (entryCount data)).map fun i => numberAt data (indexStart data + 4 + 24 * i + 8) 8

/-- The index is in the file, and the blocks follow each other up to it. -/
def IndexInside (data : Bytes) : Prop :=
  indexStart data + 4 + 24 * entryCount data ≤ data.length ∧ (filePositions data ++ [indexStart data]).Pairwise (· ≤ ·)

/-! ## Header and footer -/

theorem readHeader_eq {data : Bytes} (enough : headerSize ≤ data.length) :
    readHeader data =
      if data.take 4 ≠ segmentMagic then .error (.error .invalidMagic)
      else if numberAt data 4 2 ≠ segmentVersion then .error (.error (.unsupportedVersion (numberAt data 4 2)))
      else (Outcome.of (tryFrom (numberAt data 6 2))).map fun compression =>
        ⟨numberAt data 4 2, compression, numberAt data 8 8, numberAt data 16 8, numberAt data 24 4, numberAt data 28 4⟩ := by
  have size : (data.take headerSize).length = 64 := by
    rw [length_take, Nat.min_eq_left enough]
    rfl
  have start : copyToSlice 4 (data.take headerSize) =
      (.ok (data.take 4, (data.take headerSize).drop 4) : Outcome CoreError _) := by
    have front := @copyToSlice_at CoreError (data.take headerSize) 0 4 (by omega)
    rw [drop_zero, take_take] at front
    exact front
  have number : ∀ position width, position + width ≤ 64 →
      getBE width ((data.take headerSize).drop position) =
        (.ok (numberAt data position width, (data.take headerSize).drop (position + width)) : Outcome CoreError _) := by
    intro position width inside
    rw [getBE_at (by omega), numberAt_take (show position + width ≤ headerSize from inside)]
  unfold readHeader
  rw [slice_inside (Nat.zero_le _) enough, ok_bind, drop_zero, Nat.sub_zero, start, ok_bind]
  dsimp only
  split
  · rfl
  · rw [number 4 2 (by omega), ok_bind]
    dsimp only
    split
    · rfl
    · rw [number 6 2 (by omega), ok_bind]
      dsimp only
      cases tryFrom (numberAt data 6 2) with
      | error e => rfl
      | ok compression =>
        rw [Outcome.of_ok, ok_bind, number 8 8 (by omega), ok_bind, number 16 8 (by omega), ok_bind, number 24 4 (by omega),
          ok_bind, number 28 4 (by omega), ok_bind]
        rfl

theorem readFooter_eq (pk : Packages) {data : Bytes} (enough : footerSize ≤ data.length) :
    readFooter pk data (data.length - footerSize) =
      if numberAt data (data.length - 24) 4 ≠ (pk.crc32 (data.take (data.length - footerSize))).toNat then
        .error (.error .crcMismatch)
      else if (data.drop (data.length - 20)).take 4 ≠ segmentMagic then .error (.error .invalidMagic)
      else .ok (indexStart data) := by
  have size : footerSize = 32 := rfl
  have afterPosition : data.length - footerSize + 8 = data.length - 24 := by omega
  have afterCrc : data.length - 24 + 4 = data.length - 20 := by omega
  unfold readFooter
  rw [slice_behind (Nat.sub_le _ _), ok_bind, getBE_at (by omega), ok_bind]
  dsimp only
  rw [afterPosition, getBE_at (by omega), ok_bind]
  dsimp only
  rw [afterCrc, slice_inside (Nat.zero_le _) (Nat.sub_le _ _), ok_bind, drop_zero, Nat.sub_zero]
  split
  · rfl
  · rw [copyToSlice_at (by omega), ok_bind]
    rfl

theorem tryFrom_ok {value : Nat} : (∃ compression, tryFrom value = .ok compression) ↔ value ≤ 2 := by
  unfold tryFrom
  split
  · simp
  · simp
  · simp
  · next none_ lz4 zstd =>
    have large : ¬ value ≤ 2 := by
      intro small
      have which : value = 0 ∨ value = 1 ∨ value = 2 := by omega
      rcases which with zero | one | two
      · exact none_ zero
      · exact lz4 one
      · exact zstd two
    simp [large]

/-! ## The index -/

/-- The entry at a position. -/
def entryAt (data : Bytes) (position : Nat) : IndexEntry :=
  ⟨numberAt data position 8, numberAt data (position + 8) 8, numberAt data (position + 16) 8⟩

theorem readEntries_inside {data : Bytes} {position count : Nat} (inside : position + 24 * count ≤ data.length) :
    readEntries count (data.drop position) = .ok ((List.range count).map fun i => entryAt data (position + 24 * i)) := by
  induction count generalizing position with
  | zero => rfl
  | succ count ih =>
    have rest := @ih (position + 24) (by omega)
    have shifted : (List.range (count + 1)).map (fun i => entryAt data (position + 24 * i)) =
        entryAt data position :: (List.range count).map fun i => entryAt data (position + 24 + 24 * i) := by
      rw [range_succ_eq_map, map_cons, map_map]
      apply congrArg (cons (entryAt data position))
      apply map_congr_left
      intro i _
      apply congrArg (entryAt data)
      show position + 24 * (i + 1) = position + 24 + 24 * i
      omega
    rw [readEntries, getBE_at (by omega), ok_bind]
    dsimp only
    rw [getBE_at (by omega), ok_bind]
    dsimp only
    rw [getBE_at (by omega), ok_bind]
    dsimp only
    rw [Nat.add_assoc, Nat.add_assoc, rest, ok_bind, shifted]
    rfl

theorem total_readEntries {data : Bytes} {position count : Nat} (start : position ≤ data.length) :
    Total (readEntries count (data.drop position)) ↔ position + 24 * count ≤ data.length := by
  induction count generalizing position with
  | zero => simp [readEntries, start]
  | succ count ih =>
    simp only [readEntries, total_getBE_bind, drop_drop, length_drop]
    by_cases room : position + 24 ≤ data.length
    · have rest := @ih (position + 8 + 8 + 8) (by omega)
      rw [total_bind, rest]
      simp only [total_ok, implies_true, and_true]
      omega
    · constructor
      · intro total
        omega
      · intro inside
        omega

/-- **The index is read** exactly if it is in the file. -/
theorem total_readIndex {data : Bytes} :
    Total (readIndex data (indexStart data)) ↔ indexStart data + 4 + 24 * entryCount data ≤ data.length := by
  by_cases inside : indexStart data ≤ data.length
  · rw [readIndex, slice_behind inside, ok_bind, total_getBE_bind, length_drop, drop_drop]
    by_cases room : indexStart data + 4 ≤ data.length
    · have entries := @total_readEntries data (indexStart data + 4) (entryCount data) room
      have enough : 4 ≤ data.length - indexStart data := by omega
      simp only [enough, true_and]
      exact entries
    · constructor
      · intro total
        omega
      · intro enough
        omega
  · constructor
    · intro total
      rw [readIndex, total_bind, total_slice] at total
      omega
    · intro enough
      omega

theorem readIndex_inside {data : Bytes} (inside : indexStart data + 4 + 24 * entryCount data ≤ data.length) :
    readIndex data (indexStart data) =
      .ok ((List.range (entryCount data)).map fun i => entryAt data (indexStart data + 4 + 24 * i)) := by
  rw [readIndex, slice_behind (by omega), ok_bind, getBE_at (by omega), ok_bind]
  exact readEntries_inside inside

/-! ## The blocks -/

variable {pk : Packages} {s : SegmentReader}

/-- A block is read exactly if it ends behind its start and inside the file. -/
theorem total_readBlock {i : Nat} (inside : i < s.index.length) :
    Total (s.readBlock pk i) ↔ s.index[i].filePosition ≤ s.blockEnd i ∧ s.blockEnd i ≤ s.data.length := by
  rw [readBlock, getElem?_eq_getElem inside]
  dsimp only
  rw [total_bind, total_slice]
  constructor
  · intro total
    exact total.1
  · intro ordered
    refine ⟨ordered, fun block _ => ?_⟩
    rw [total_bind]
    exact ⟨total_of _, fun _ _ => total_of _⟩

theorem total_readBlock_outside {i : Nat} (outside : s.index.length ≤ i) : Total (s.readBlock pk i) := by
  rw [readBlock, getElem?_eq_none outside]
  exact total_error _

/-- Where the blocks start, and behind them the index. -/
def boundaries (s : SegmentReader) : List Nat := s.index.map IndexEntry.filePosition ++ [s.indexPosition]

theorem boundaries_length (s : SegmentReader) : (boundaries s).length = s.index.length + 1 := by simp [boundaries]

theorem boundary_start {i : Nat} (inside : i < s.index.length) : (boundaries s)[i]? = some s.index[i].filePosition := by
  rw [boundaries, getElem?_append_left (by simpa using inside), getElem?_map, getElem?_eq_getElem inside,
    Option.map_some]

theorem boundary_end {i : Nat} (inside : i < s.index.length) : (boundaries s)[i + 1]? = some (s.blockEnd i) := by
  unfold blockEnd
  by_cases last : i + 1 < s.index.length
  · rw [boundary_start last, getElem?_eq_getElem last]
  · have here : i + 1 - s.index.length = 0 := by omega
    rw [@getElem?_eq_none _ s.index (i + 1) (by omega), boundaries,
      getElem?_append_right (by rw [length_map]; omega), length_map, here]
    rfl

/-- **All blocks are read** exactly if they follow each other up to the index. -/
theorem total_readBlocks (index : s.indexPosition ≤ s.data.length) :
    (∀ i, Total (s.readBlock pk i)) ↔ (boundaries s).Pairwise (· ≤ ·) := by
  have size := boundaries_length s
  constructor
  · intro total
    apply List.IsChain.pairwise
    apply isChain_iff_getElem.mpr
    intro i more
    have inside : i < s.index.length := by omega
    obtain ⟨_, start⟩ := List.getElem?_eq_some_iff.mp (boundary_start inside)
    obtain ⟨_, end_⟩ := List.getElem?_eq_some_iff.mp (boundary_end inside)
    rw [start, end_]
    exact ((total_readBlock inside).mp (total i)).1
  · intro ordered i
    have le := pairwise_iff_getElem.mp ordered
    by_cases inside : i < s.index.length
    · have lastBoundary : (boundaries s)[s.index.length]? = some s.indexPosition := by
        rw [boundaries, getElem?_append_right (by rw [length_map]), length_map, Nat.sub_self]
        rfl
      obtain ⟨_, start⟩ := List.getElem?_eq_some_iff.mp (boundary_start inside)
      obtain ⟨_, end_⟩ := List.getElem?_eq_some_iff.mp (boundary_end inside)
      obtain ⟨_, last⟩ := List.getElem?_eq_some_iff.mp lastBoundary
      rw [total_readBlock inside, ← start, ← end_]
      refine ⟨le i (i + 1) (by omega) (by omega) (Nat.lt_succ_self i), ?_⟩
      apply Nat.le_trans _ index
      rw [← last]
      by_cases more : i + 1 < s.index.length
      · exact le (i + 1) s.index.length (by omega) (by omega) more
      · have same : i + 1 = s.index.length := by omega
        simp only [same, Nat.le_refl]
    · exact total_readBlock_outside (by omega)

/-- The other reads go through the blocks. -/
theorem total_reads (blocks : ∀ i, Total (s.readBlock pk i)) :
    Total (s.readAll pk) ∧ ∀ offset, Total (s.readFromOffset pk offset) := by
  refine ⟨total_foldlM (fun _ i _ => total_map.mpr (blocks i)) _, fun offset => ?_⟩
  obtain ⟨k, found, -⟩ := findBlockForOffset_ok s offset
  rw [SegmentReader.readFromOffset, found, ok_bind]
  exact total_foldlM (fun _ i _ => total_map.mpr (blocks i)) _

/-! ## The whole file -/

theorem readHeader_refused {data : Bytes} (enough : headerSize ≤ data.length) (refused : ¬ HeaderAccepted data) :
    ∃ e, readHeader data = .error (.error e) := by
  rw [readHeader_eq enough]
  split
  · exact ⟨_, rfl⟩
  · next magic =>
    split
    · exact ⟨_, rfl⟩
    · next version =>
      cases kind : tryFrom (numberAt data 6 2) with
      | error e => exact ⟨e, rfl⟩
      | ok compression =>
        exact absurd ⟨Decidable.not_not.mp magic, Decidable.not_not.mp version, tryFrom_ok.mp ⟨compression, kind⟩⟩ refused

theorem readHeader_accepted {data : Bytes} (enough : headerSize ≤ data.length) (accepted : HeaderAccepted data) :
    ∃ header, readHeader data = .ok header := by
  obtain ⟨magic, version, known⟩ := accepted
  obtain ⟨compression, kind⟩ := tryFrom_ok.mpr known
  rw [readHeader_eq enough, if_neg (not_not_intro magic), if_neg (not_not_intro version), kind]
  exact ⟨_, rfl⟩

theorem readFooter_refused {data : Bytes} (enough : footerSize ≤ data.length) (refused : ¬ FooterAccepted pk data) :
    ∃ e, readFooter pk data (data.length - footerSize) = .error (.error e) := by
  rw [readFooter_eq pk enough]
  split
  · exact ⟨_, rfl⟩
  · next crc =>
    split
    · exact ⟨_, rfl⟩
    · next magic => exact absurd ⟨Decidable.not_not.mp crc, Decidable.not_not.mp magic⟩ refused

/-- A file too short, or with a header or a footer that is refused, is not read further. -/
theorem new_refused {data : Bytes}
    (refused : ¬ (headerSize + footerSize ≤ data.length ∧ HeaderAccepted data ∧ FooterAccepted pk data)) :
    ∃ e, new pk data = .error (.error e) := by
  by_cases enough : headerSize + footerSize ≤ data.length
  · rw [new, if_neg (Nat.not_lt.mpr enough)]
    by_cases header : HeaderAccepted data
    · obtain ⟨parsed, read⟩ := readHeader_accepted (by omega) header
      obtain ⟨e, failed⟩ := @readFooter_refused pk data (by omega) fun footer => refused ⟨enough, header, footer⟩
      rw [read, ok_bind, failed]
      exact ⟨e, rfl⟩
    · obtain ⟨e, failed⟩ := readHeader_refused (by omega) header
      rw [failed]
      exact ⟨e, rfl⟩
  · rw [new, if_pos (by omega)]
    exact ⟨_, rfl⟩

theorem new_accepted {data : Bytes} (enough : headerSize + footerSize ≤ data.length)
    (header : HeaderAccepted data) (footer : FooterAccepted pk data) :
    ∃ h : SegmentHeader, new pk data =
      (readIndex data (indexStart data)).map fun index => ⟨data, h, index, indexStart data⟩ := by
  obtain ⟨parsed, read⟩ := readHeader_accepted (by omega) header
  refine ⟨parsed, ?_⟩
  rw [new, if_neg (Nat.not_lt.mpr enough), read, ok_bind, readFooter_eq pk (by omega),
    if_neg (not_not_intro footer.1), if_neg (not_not_intro footer.2), ok_bind]
  cases readIndex data (indexStart data) with
  | error fault => rfl
  | ok index => rfl

/-- **Reading is total** exactly for the files that are refused at their header or footer and for those whose
index is inside the file with the blocks one after the other before it. -/
theorem readsTotally_iff (pk : Packages) (data : Bytes) :
    ReadsTotally pk data ↔
      (headerSize + footerSize ≤ data.length → HeaderAccepted data → FooterAccepted pk data → IndexInside data) := by
  by_cases accepted : headerSize + footerSize ≤ data.length ∧ HeaderAccepted data ∧ FooterAccepted pk data
  · obtain ⟨enough, header, footer⟩ := accepted
    obtain ⟨h, opened⟩ := @new_accepted pk data enough header footer
    simp only [enough, header, footer, true_imp_iff, ReadsTotally, opened, total_map, total_readIndex, IndexInside]
    apply and_congr_right
    intro inside
    have index := readIndex_inside inside
    have positions : boundaries ⟨data, h, (List.range (entryCount data)).map fun i =>
        entryAt data (indexStart data + 4 + 24 * i), indexStart data⟩ = filePositions data ++ [indexStart data] := by
      rw [boundaries, filePositions, map_map]
      rfl
    rw [← positions, ← @total_readBlocks pk _ (show indexStart data ≤ data.length by omega)]
    constructor
    · intro reads
      exact (reads _ (by rw [index]; rfl)).2.2
    · intro blocks s same
      rw [index] at same
      obtain rfl := Except.ok.inj same
      exact ⟨(total_reads blocks).1, (total_reads blocks).2, blocks⟩
  · obtain ⟨e, refused⟩ := new_refused accepted
    constructor
    · intro _ enough header footer
      exact absurd ⟨enough, header, footer⟩ accepted
    · intro _
      rw [ReadsTotally, refused]
      refine ⟨total_error e, fun s opened => ?_⟩
      cases opened

namespace Example

/-- The header of an empty segment. -/
def bareHeader : Bytes := (SegmentWriter.new .none).writeHeader 0 0

/-- A file of a header and a footer that puts the index four bytes behind the end. -/
def strayIndex : Bytes := bareHeader ++ SegmentWriter.writeFooter packages bareHeader 100

theorem bareHeader_length : bareHeader.length = 64 := writeHeader_length _ _ _

theorem strayIndex_length : strayIndex.length = 96 := by
  rw [strayIndex, length_append, bareHeader_length, writeFooter_length]
  rfl

end Example

open Example

theorem strayIndex_panics : ¬ ReadsTotally packages strayIndex := by
  intro reads
  have large : ¬ strayIndex.length < headerSize + footerSize := by
    rw [strayIndex_length]
    decide
  have start : strayIndex.length - footerSize = bareHeader.length := by
    rw [strayIndex_length, bareHeader_length]
    rfl
  have footer : readFooter packages strayIndex bareHeader.length = .ok 100 :=
    readFooter_writeFooter packages bareHeader 100
  have total := reads.1
  rw [new, if_neg large, start, footer, total_bind] at total
  have index := total.2 _ (readHeader_writeHeader (SegmentWriter.new .none) 0 0 _)
  rw [ok_bind, total_bind, readIndex, total_bind, total_slice, strayIndex_length] at index
  omega

end StreamHouse.Storage
