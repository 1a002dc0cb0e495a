import StreamHouse.Storage.SegmentFormat

/-!
# A finished segment reads back

The writer's state is a list of finished groups of records and a current one
(`Built`); every group becomes one block. A block decodes to its group whatever was
written around it, since its deltas start afresh and its index entry says where they
start from. An empty key comes back as none, so what is read is `Record.stored` of
what was written.
-/

namespace StreamHouse.Storage
open Lib Varint SegmentWriter SegmentReader List

/-! ## Blocks -/

/-- The records of a block after the record `last`, which had this timestamp. -/
def encodeFrom (last : Option Nat) (timestamp : Nat) : List Record → Bytes
  | [] => []
  | r :: rs =>
    recordBytes (offsetDelta last r.offset) (wrappingSub r.timestamp timestamp) r ++ encodeFrom (some r.offset) r.timestamp rs

/-- A group of records as the bytes of one block. -/
def blockBytes : List Record → Bytes
  | [] => []
  | r :: rs => encodeFrom none r.timestamp (r :: rs)

theorem wrappingAdd_wrappingSub {a b : Nat} (fits : a < 2 ^ 64) : wrappingAdd b (wrappingSub a b) = a := by
  unfold wrappingAdd wrappingSub
  rw [BitVec.add_comm, BitVec.sub_add_cancel, BitVec.toNat_ofNat, Nat.mod_eq_of_lt fits]

theorem wrappingAdd_zero {a : Nat} (fits : a < 2 ^ 64) : wrappingAdd a 0 = a := by
  show (BitVec.ofNat 64 a + 0#64).toNat = a
  rw [BitVec.add_zero, BitVec.toNat_ofNat, Nat.mod_eq_of_lt fits]

theorem readChunk_append {chunk : Bytes} (what : String) (fits : chunk.length < 2 ^ 64) (rest : Bytes) :
    readChunk what (encodeVarintU64 chunk.length ++ (chunk ++ rest)) = .ok (chunk, rest) := by
  simp [readChunk, decodeVarintU64_encode fits, ok_bind]

theorem recordBytes_ne_nil (offsetDelta timestampDelta : BitVec 64) (r : Record) :
    recordBytes offsetDelta timestampDelta r ≠ [] := by
  simp [recordBytes, encodeVarint, encodeVarintU64_ne_nil]

/-- One record. -/
theorem decodeRecord_recordBytes {r : Record} (fits : r.Fits) {offset timestamp : Nat} {offsetDelta timestampDelta : BitVec 64}
    (offsets : wrappingAdd offset offsetDelta = r.offset) (timestamps : wrappingAdd timestamp timestampDelta = r.timestamp)
    (rest : Bytes) :
    decodeRecord offset timestamp (recordBytes offsetDelta timestampDelta r ++ rest) = .ok (r.stored, rest) := by
  obtain ⟨o, t, key, value⟩ := r
  have keyFits : (key.getD []).length < 2 ^ 64 := by
    cases key with
    | none => simp
    | some k => exact fits.key k rfl
  have stored : (if (key.getD []).length > 0 then some (key.getD []) else none) =
      key.filter fun k => !k.isEmpty := by
    cases key with
    | none => rfl
    | some k =>
      cases k with
      | nil => rfl
      | cons b bs => rfl
  simp only [decodeRecord, recordBytes, append_assoc, decodeVarint_encode, readChunk_append _ keyFits,
    readChunk_append _ fits.value, ok_bind, offsets, timestamps, stored, Record.stored]

variable {rs : List Record} {done : List (List Record)} {current : List Record} {w : SegmentWriter}

theorem encodeFrom_eq_nil {last : Option Nat} {timestamp : Nat} : encodeFrom last timestamp rs = [] ↔ rs = [] := by
  cases rs with
  | nil => simp [encodeFrom]
  | cons r rs => simp [encodeFrom, recordBytes_ne_nil]

/-- One turn of the loop on encoded records. -/
theorem decodeBlock_cons {r : Record} (fits : r.Fits) {offset timestamp : Nat} {last : Option Nat}
    (offsets : wrappingAdd offset (offsetDelta last r.offset) = r.offset) :
    decodeBlock offset timestamp (encodeFrom last timestamp (r :: rs)) =
      (decodeBlock r.offset r.timestamp (encodeFrom (some r.offset) r.timestamp rs)).map fun records =>
        r.stored :: records := by
  have turn := decodeRecord_recordBytes fits offsets (wrappingAdd_wrappingSub fits.timestamp (b := timestamp))
    (encodeFrom (some r.offset) r.timestamp rs)
  rw [decodeBlock, if_neg (by simp [encodeFrom_eq_nil])]
  split
  · next e failed =>
    rw [encodeFrom, turn] at failed
    cases failed
  · next record rest decoded =>
    rw [encodeFrom, turn] at decoded
    obtain ⟨rfl, rfl⟩ := Prod.mk.inj (Except.ok.inj decoded)
    rfl

theorem decodeBlock_encodeFrom (fits : ∀ r ∈ rs, r.Fits) (offset timestamp : Nat) :
    decodeBlock offset timestamp (encodeFrom (some offset) timestamp rs) = .ok (rs.map Record.stored) := by
  induction rs generalizing offset timestamp with
  | nil => simp [encodeFrom, decodeBlock]
  | cons r rs ih =>
    have first := fits r mem_cons_self
    have offsets : wrappingAdd offset (offsetDelta (some offset) r.offset) = r.offset := wrappingAdd_wrappingSub first.offset
    have later := ih (fun x member => fits x (mem_cons_of_mem _ member)) r.offset r.timestamp
    rw [decodeBlock_cons first offsets, later]
    rfl

/-- **A block decodes to its group**, from the first record's offset and timestamp. -/
theorem decodeBlock_blockBytes {r : Record} (fits : ∀ x ∈ r :: rs, x.Fits) :
    decodeBlock r.offset r.timestamp (blockBytes (r :: rs)) = .ok ((r :: rs).map Record.stored) := by
  have first := fits r mem_cons_self
  have offsets : wrappingAdd r.offset (offsetDelta none r.offset) = r.offset := wrappingAdd_zero first.offset
  have later := decodeBlock_encodeFrom (fun x member => fits x (mem_cons_of_mem _ member)) r.offset r.timestamp
  rw [blockBytes, decodeBlock_cons first offsets, later]
  rfl

/-! ## The writer -/

section Writer

variable (pk : Packages) (compression : Compression)

/-- A block as it stands in the file. -/
def pack (block : Bytes) : Bytes :=
  match compression with
  | .lz4 => pk.compressPrependSize block
  | _ => block

/-- The packed blocks of the groups. -/
def packed (groups : List (List Record)) : List Bytes := groups.map fun group => pack pk compression (blockBytes group)

/-- The index of groups whose first block stands at `position`. -/
def entries (position : Nat) : List (List Record) → List IndexEntry
  | [] => []
  | group :: groups =>
    ⟨(group.head?.map Record.offset).getD 0, position % 2 ^ 64, (group.head?.map Record.timestamp).getD 0⟩ ::
      entries (position + (pack pk compression (blockBytes group)).length) groups

/-- The writer has finished the blocks of `done` and is at `current`. -/
structure Built (done : List (List Record)) (current : List Record) (w : SegmentWriter) : Prop where
  kind : w.compression = compression
  blocks : w.blocks = packed pk compression done
  currentBlock : w.currentBlock = blockBytes current
  index : w.index = entries pk compression headerSize (done ++ [current])
  groups : ∀ group ∈ done ++ [current], group ≠ []
  base : w.baseOffset = (done.flatten ++ current).head?.map Record.offset
  last : ∃ r, current.getLast? = some r ∧ w.lastOffset = some r.offset ∧ w.lastTimestamp = r.timestamp
  count : w.recordCount = (done.flatten ++ current).length % 2 ^ 32

theorem entries_append (position : Nat) (groups : List (List Record)) (group : List Record) :
    entries pk compression position (groups ++ [group]) =
      entries pk compression position groups ++
        [⟨(group.head?.map Record.offset).getD 0, (position + ((packed pk compression groups).map List.length).sum) % 2 ^ 64,
          (group.head?.map Record.timestamp).getD 0⟩] := by
  induction groups generalizing position with
  | nil => simp [entries, packed]
  | cons x groups ih => simp [entries, packed, ih, Nat.add_assoc]

theorem entries_length (position : Nat) (groups : List (List Record)) :
    (entries pk compression position groups).length = groups.length := by
  induction groups generalizing position with
  | nil => rfl
  | cons group groups ih => simp [entries, ih]

end Writer

/-- A record more at the end of a block. -/
theorem encodeFrom_append (last : Option Nat) (timestamp : Nat) {x : Record} (end_ : rs.getLast? = some x) (r : Record) :
    encodeFrom last timestamp (rs ++ [r]) =
      encodeFrom last timestamp rs ++ recordBytes (offsetDelta (some x.offset) r.offset) (wrappingSub r.timestamp x.timestamp) r := by
  induction rs generalizing last timestamp with
  | nil => cases end_
  | cons a rs ih =>
    cases rs with
    | nil =>
      obtain rfl : a = x := by simpa using end_
      simp [encodeFrom]
    | cons b rs =>
      have later : (b :: rs).getLast? = some x := by simpa using end_
      rw [cons_append, encodeFrom, ih (some a.offset) a.timestamp later, ← append_assoc]
      rfl

theorem blockBytes_append {x : Record} (end_ : rs.getLast? = some x) (r : Record) : blockBytes (rs ++ [r]) =
      blockBytes rs ++ recordBytes (offsetDelta (some x.offset) r.offset) (wrappingSub r.timestamp x.timestamp) r := by
  cases rs with
  | nil => cases end_
  | cons a rs => exact encodeFrom_append none a.timestamp end_ r

theorem blockBytes_eq_nil : blockBytes rs = [] ↔ rs = [] := by
  cases rs with
  | nil => simp [blockBytes]
  | cons r rs => simp [blockBytes, encodeFrom_eq_nil]

section Append

variable {pk : Packages} {compression : Compression}

/-- The current block is finished. -/
theorem Built.flush (built : Built pk compression done current w) (supported : compression ≠ .zstd) :
    w.flushBlock pk = .ok { w with blocks := packed pk compression (done ++ [current]), currentBlock := [] } := by
  have occurs : blockBytes current ≠ [] := by
    rw [ne_eq, blockBytes_eq_nil]
    exact built.groups current (by simp)
  unfold flushBlock
  rw [built.currentBlock, if_neg occurs, built.kind, built.blocks]
  cases compression with
  | none => simp [packed, pack]
  | lz4 => simp [packed, pack]
  | zstd => exact absurd rfl supported

/-- The last part of `append`, with the block chosen. -/
def push (w : SegmentWriter) (r : Record) : SegmentWriter :=
  { w.encodeRecord r with lastOffset := some r.offset, recordCount := (w.recordCount + 1) % 2 ^ 32 }

/-- The first record: there is nothing to flush, and the block has its index entry. -/
theorem append_first (blockSizeTarget : Nat) (r : Record) :
    ∃ w, (new compression).append pk blockSizeTarget r = .ok w ∧ Built pk compression [] [r] w := by
  refine ⟨push ((SegmentWriter.new compression).begin r) r, ?_, ?_⟩
  · simp [append, SegmentWriter.new, begin, flushBlock, openBlock, push, ok_bind, encodeRecord]
  · refine ⟨rfl, rfl, ?_, rfl, by simp, rfl, ⟨r, rfl, rfl, rfl⟩, rfl⟩
    simp [push, encodeRecord, begin, SegmentWriter.new, blockBytes, encodeFrom]

/-- A record that stays in the current block. -/
theorem append_same {blockSizeTarget : Nat}
    (built : Built pk compression done current w) (room : ¬ w.currentBlock.length ≥ blockSizeTarget) (r : Record) :
    w.append pk blockSizeTarget r = .ok (push w r) ∧ Built pk compression done (current ++ [r]) (push w r) := by
  have occurs : w.currentBlock ≠ [] := by
    rw [built.currentBlock, ne_eq, blockBytes_eq_nil]
    exact built.groups current (by simp)
  obtain ⟨x, end_, lastOffset, lastTimestamp⟩ := built.last
  have bare : current ≠ [] := built.groups current (by simp)
  obtain ⟨first, head⟩ : ∃ first, (done.flatten ++ current).head? = some first :=
    ⟨_, head?_eq_some_head (by simp [bare])⟩
  have began : w.begin r = w := by simp [begin, built.base, head]
  have opened : w.openBlock r = w := by simp [openBlock, occurs]
  have same : (current ++ [r]).head? = current.head? := by
    rw [head?_append]
    cases current with
    | nil => exact absurd rfl bare
    | cons a rest => rfl
  constructor
  · unfold append
    simp only [began, room, if_false, ok_bind, opened]
    rfl
  · refine ⟨built.kind, built.blocks, ?_, ?_, ?_, ?_, ⟨r, by simp, rfl, rfl⟩, ?_⟩
    · show w.currentBlock ++ recordBytes (offsetDelta w.lastOffset r.offset) (wrappingSub r.timestamp w.lastTimestamp) r = _
      rw [blockBytes_append end_, built.currentBlock, lastOffset, lastTimestamp]
    · show w.index = _
      rw [built.index, entries_append, entries_append, same]
    · intro group member
      obtain old | new := mem_append.mp member
      · exact built.groups group (mem_append_left _ old)
      · simp [mem_singleton.mp new]
    · show w.baseOffset = _
      rw [built.base, head, ← append_assoc, head?_append, head]
      rfl
    · have longer : (done.flatten ++ (current ++ [r])).length = (done.flatten ++ current).length + 1 := by
        simp [Nat.add_assoc]
      show (w.recordCount + 1) % 2 ^ 32 = _
      rw [built.count, longer, Nat.mod_add_mod]

/-- A record that starts a new block. -/
theorem append_next {blockSizeTarget : Nat} (built : Built pk compression done current w) (supported : compression ≠ .zstd)
    (full : w.currentBlock.length ≥ blockSizeTarget) (r : Record) :
    ∃ w', w.append pk blockSizeTarget r = .ok w' ∧ Built pk compression (done ++ [current]) [r] w' := by
  obtain ⟨first, head⟩ : ∃ first, (done.flatten ++ current).head? = some first :=
    ⟨_, head?_eq_some_head (by simp [built.groups current])⟩
  have based : w.baseOffset = some first.offset := by rw [built.base, head]; rfl
  have began : w.begin r = w := by simp [begin, based]
  have flushed := built.flush supported
  have behind : w.index.length < (packed pk compression (done ++ [current])).length + 1 := by
    rw [built.index, entries_length, packed, length_map]
    omega
  -- the flush leaves an empty block without an index entry, which `openBlock` makes
  let fresh : SegmentWriter :=
    { w with
      blocks := packed pk compression (done ++ [current])
      currentBlock := []
      index := w.index ++ [⟨r.offset, (headerSize + ((packed pk compression (done ++ [current])).map List.length).sum) % 2 ^ 64,
        r.timestamp⟩]
      lastOffset := none
      lastTimestamp := r.timestamp }
  have opened : ({ w with blocks := packed pk compression (done ++ [current]), currentBlock := [] } :
      SegmentWriter).openBlock r = fresh := by
    unfold openBlock
    exact if_pos ⟨rfl, by simp [based], behind⟩
  refine ⟨push fresh r, ?_, ?_⟩
  · unfold append
    simp only [began, full, if_true, flushed, ok_bind, opened]
    rfl
  · refine ⟨built.kind, rfl, ?_, ?_, ?_, ?_, ⟨r, rfl, rfl, rfl⟩, ?_⟩
    · simp [push, encodeRecord, fresh, blockBytes, encodeFrom]
    · show w.index ++ _ = _
      rw [built.index, entries_append pk compression headerSize (done ++ [current]) [r]]
      rfl
    · intro group member
      obtain old | new := mem_append.mp member
      · exact built.groups group old
      · simp [mem_singleton.mp new]
    · show w.baseOffset = _
      rw [based, flatten_append, flatten_singleton, head?_append, head]
      rfl
    · show (w.recordCount + 1) % 2 ^ 32 = _
      rw [built.count, flatten_append, flatten_singleton, Nat.mod_add_mod, length_append, length_append]
      simp

/-- **A step of the writer**: one record more, in the current block or in a new one. -/
theorem Built.append (built : Built pk compression done current w) (supported : compression ≠ .zstd) (blockSizeTarget : Nat) (r : Record) :
    ∃ w' done' current', w.append pk blockSizeTarget r = .ok w' ∧ Built pk compression done' current' w' ∧
      done'.flatten ++ current' = done.flatten ++ current ++ [r] := by
  by_cases full : w.currentBlock.length ≥ blockSizeTarget
  · obtain ⟨w', appended, next⟩ := append_next built supported full r
    exact ⟨w', done ++ [current], [r], appended, next, by simp⟩
  · obtain ⟨appended, next⟩ := append_same built full r
    exact ⟨push w r, done, current ++ [r], appended, next, by simp⟩

/-- Appending records one after another. -/
def appendAll (pk : Packages) (blockSizeTarget : Nat) (w : SegmentWriter) (rs : List Record) : Except CoreError SegmentWriter :=
  rs.foldlM (append pk blockSizeTarget) w

theorem Built.appendAll (built : Built pk compression done current w) (supported : compression ≠ .zstd) (blockSizeTarget : Nat)
    (rs : List Record) :
    ∃ w' done' current', Storage.appendAll pk blockSizeTarget w rs = .ok w' ∧ Built pk compression done' current' w' ∧
      done'.flatten ++ current' = done.flatten ++ current ++ rs := by
  induction rs generalizing w done current with
  | nil => exact ⟨w, done, current, rfl, built, by simp⟩
  | cons r rs ih =>
    obtain ⟨w1, done1, current1, appended, built1, whole1⟩ := built.append supported blockSizeTarget r
    obtain ⟨w2, done2, current2, rest, built2, whole2⟩ := ih built1
    refine ⟨w2, done2, current2, ?_, built2, ?_⟩
    · rw [Storage.appendAll, foldlM_cons, appended]
      exact rest
    · rw [whole2, whole1]
      simp

/-- **A run of the writer**: every record is in one of the groups. -/
theorem appendAll_new (supported : compression ≠ .zstd) (blockSizeTarget : Nat) (nonempty : rs ≠ []) :
    ∃ w done current, appendAll pk blockSizeTarget (.new compression) rs = .ok w ∧ Built pk compression done current w ∧
      done.flatten ++ current = rs := by
  cases rs with
  | nil => exact absurd rfl nonempty
  | cons r rs =>
    obtain ⟨w1, appended, built1⟩ : ∃ w, (new compression).append pk blockSizeTarget r = .ok w ∧
      Built pk compression [] [r] w := append_first blockSizeTarget r
    obtain ⟨w, done, current, rest, built, whole⟩ := built1.appendAll supported blockSizeTarget rs
    refine ⟨w, done, current, ?_, built, by simpa using whole⟩
    rw [appendAll, foldlM_cons, appended]
    exact rest

end Append

/-! ## The reader -/

theorem writeHeader_length (w : SegmentWriter) (baseOffset endOffset : Nat) :
    (w.writeHeader baseOffset endOffset).length = headerSize := by
  simp [writeHeader, segmentMagic, headerSize]

theorem writeFooter_length (pk : Packages) (buf : Bytes) (indexStart : Nat) :
    (writeFooter pk buf indexStart).length = footerSize := by
  simp [writeFooter, segmentMagic, footerSize]

theorem tryFrom_toU16 (compression : Compression) : Compression.tryFrom (compression.toU16 % 2 ^ 16) = .ok compression := by
  cases compression <;> rfl

theorem readHeader_writeHeader (w : SegmentWriter) (baseOffset endOffset : Nat) (rest : Bytes) :
    readHeader (w.writeHeader baseOffset endOffset ++ rest) =
      .ok ⟨segmentVersion, w.compression, baseOffset % 2 ^ 64, endOffset % 2 ^ 64, w.recordCount % 2 ^ 32,
        w.blocks.length % 2 ^ 32⟩ := by
  have version : segmentVersion % 2 ^ 16 = segmentVersion := rfl
  rw [readHeader, slice_front rest (writeHeader_length w baseOffset endOffset)]
  simp only [writeHeader, ok_bind, copyToSlice_append _ (show segmentMagic.length = 4 from rfl), getU16_putU16,
    getU32_putU32, getU64_putU64, tryFrom_toU16, version, ne_eq, not_true_eq_false, if_false, Outcome.of_ok]

theorem readFooter_writeFooter (pk : Packages) (body : Bytes) (indexStart : Nat) :
    readFooter pk (body ++ writeFooter pk body indexStart) body.length = .ok (indexStart % 2 ^ 64) := by
  have crc : (pk.crc32 body).toNat % 2 ^ 32 = (pk.crc32 body).toNat := Nat.mod_eq_of_lt (pk.crc32 body).toNat_lt
  unfold readFooter
  rw [slice_back (writeFooter pk body indexStart) (show body.length = body.length from rfl),
    slice_front (writeFooter pk body indexStart) (show body.length = body.length from rfl)]
  simp only [writeFooter, ok_bind, copyToSlice_append _ (show segmentMagic.length = 4 from rfl), getU32_putU32,
    getU64_putU64, crc, ne_eq, not_true_eq_false, if_false]

/-- An index entry whose fields fit. -/
structure IndexEntry.Fits (e : IndexEntry) : Prop where
  offset : e.offset < 2 ^ 64
  filePosition : e.filePosition < 2 ^ 64
  timestamp : e.timestamp < 2 ^ 64

theorem readEntries_entryBytes {es : List IndexEntry} (fits : ∀ e ∈ es, e.Fits) (rest : Bytes) :
    readEntries es.length (es.flatMap entryBytes ++ rest) = .ok es := by
  induction es with
  | nil => rfl
  | cons e es ih =>
    have first := fits e mem_cons_self
    have offset : e.offset % 2 ^ 64 = e.offset := Nat.mod_eq_of_lt first.offset
    have filePosition : e.filePosition % 2 ^ 64 = e.filePosition := Nat.mod_eq_of_lt first.filePosition
    have timestamp : e.timestamp % 2 ^ 64 = e.timestamp := Nat.mod_eq_of_lt first.timestamp
    simp only [length_cons, readEntries, flatMap_cons, entryBytes, append_assoc, ok_bind, getU64_putU64,
      offset, filePosition, timestamp]
    rw [ih (fun x member => fits x (mem_cons_of_mem _ member)), ok_bind]

/-- The count of the entries is a four-byte field. -/
theorem readIndex_writeIndex (fits : ∀ e ∈ w.index, e.Fits) (before after : Bytes) :
    readIndex (before ++ (w.writeIndex ++ after)) before.length = .ok (w.index.take (w.index.length % 2 ^ 32)) := by
  have counted : (w.index.take (w.index.length % 2 ^ 32)).length = w.index.length % 2 ^ 32 := by
    rw [length_take, Nat.min_eq_left (Nat.mod_le _ _)]
  have parts : w.index.flatMap entryBytes = (w.index.take (w.index.length % 2 ^ 32)).flatMap entryBytes ++
      (w.index.drop (w.index.length % 2 ^ 32)).flatMap entryBytes := by
    rw [← flatMap_append, take_append_drop]
  have inside : ∀ e ∈ w.index.take (w.index.length % 2 ^ 32), e.Fits := fun e member => fits e (mem_of_mem_take member)
  have front := readEntries_entryBytes inside ((w.index.drop (w.index.length % 2 ^ 32)).flatMap entryBytes ++ after)
  rw [counted] at front
  unfold readIndex
  rw [slice_back (w.writeIndex ++ after) (show before.length = before.length from rfl)]
  simp only [writeIndex, ok_bind, append_assoc, getU32_putU32, parts]
  exact front

section Blocks

variable {pk : Packages} {compression : Compression}

theorem entries_getElem? (position : Nat) (groups : List (List Record)) (i : Nat) :
    (entries pk compression position groups)[i]? = groups[i]?.map fun group =>
      ⟨(group.head?.map Record.offset).getD 0, (position + ((packed pk compression groups).take i).flatten.length) % 2 ^ 64,
        (group.head?.map Record.timestamp).getD 0⟩ := by
  induction groups generalizing position i with
  | nil => simp [entries]
  | cons group groups ih =>
    cases i with
    | zero => simp [entries]
    | succ i => simp [entries, ih, packed, Nat.add_assoc]

/-- A reader on the file of these groups. -/
structure Reads (pk : Packages) (compression : Compression) (groups : List (List Record)) (s : SegmentReader) : Prop where
  kind : s.header.compression = compression
  data : ∃ header rest, s.data = header ++ ((packed pk compression groups).flatten ++ rest) ∧ header.length = headerSize
  index : s.index = entries pk compression headerSize groups
  indexPosition : s.indexPosition = headerSize + (packed pk compression groups).flatten.length
  size : headerSize + (packed pk compression groups).flatten.length < 2 ^ 64

/-- The lengths of the first `i` blocks. -/
theorem take_flatten_le (blocks : List Bytes) (i : Nat) : (blocks.take i).flatten.length ≤ blocks.flatten.length := by
  have parts : blocks.flatten.length = (blocks.take i).flatten.length + (blocks.drop i).flatten.length := by
    rw [← length_append, ← flatten_append, take_append_drop]
  omega

variable {groups : List (List Record)}

/-- Where a block ends: at the next one, or at the index. -/
theorem Reads.blockEnd {s : SegmentReader} (reads : Reads pk compression groups s) {i : Nat} (inside : i < groups.length) :
    s.blockEnd i = headerSize + ((packed pk compression groups).take (i + 1)).flatten.length := by
  have size := reads.size
  have below := take_flatten_le (packed pk compression groups) (i + 1)
  rw [SegmentReader.blockEnd, reads.index, entries_getElem?]
  by_cases more : i + 1 < groups.length
  · rw [getElem?_eq_getElem more]
    exact Nat.mod_eq_of_lt (by omega)
  · have all : (packed pk compression groups).length ≤ i + 1 := by
      rw [packed, length_map]
      omega
    rw [getElem?_eq_none (by omega), take_of_length_le all]
    exact reads.indexPosition

theorem decompressBlock_pack (undoes : ∀ block, pk.decompressSizePrepended (pk.compressPrependSize block) = .ok block)
    (supported : compression ≠ .zstd) (block : Bytes) :
    decompressBlock pk compression (pack pk compression block) = .ok block := by
  cases compression with
  | none => rfl
  | lz4 => simp [decompressBlock, pack, undoes, Except.mapError]
  | zstd => exact absurd rfl supported

/-- **A block is read as its group.** -/
theorem Reads.readBlock {s : SegmentReader} (reads : Reads pk compression groups s)
    (undoes : ∀ block, pk.decompressSizePrepended (pk.compressPrependSize block) = .ok block)
    (supported : compression ≠ .zstd) {i : Nat} (inside : i < groups.length) (nonempty : groups[i] ≠ [])
    (fits : ∀ r ∈ groups[i], r.Fits) : s.readBlock pk i = .ok (groups[i].map Record.stored) := by
  obtain ⟨header, rest, data, front⟩ := reads.data
  have size := reads.size
  have below := take_flatten_le (packed pk compression groups) i
  have here : i < (packed pk compression groups).length := by simpa [packed] using inside
  obtain ⟨r, rs, group⟩ := exists_cons_of_ne_nil nonempty
  have block : (packed pk compression groups)[i] = pack pk compression (blockBytes groups[i]) := by simp [packed]
  -- the file around the block
  have split : s.data = (header ++ ((packed pk compression groups).take i).flatten) ++
      ((packed pk compression groups)[i] ++ (((packed pk compression groups).drop (i + 1)).flatten ++ rest)) := by
    have parts : (packed pk compression groups).flatten = ((packed pk compression groups).take i).flatten ++
        ((packed pk compression groups)[i] ++ ((packed pk compression groups).drop (i + 1)).flatten) := by
      rw [← flatten_cons, ← flatten_append, getElem_cons_drop, take_append_drop]
    rw [data, parts]
    simp only [append_assoc]
  have start : (header ++ ((packed pk compression groups).take i).flatten).length =
      headerSize + ((packed pk compression groups).take i).flatten.length := by
    rw [length_append, front]
  have stop : headerSize + ((packed pk compression groups).take i).flatten.length + (packed pk compression groups)[i].length =
      headerSize + ((packed pk compression groups).take (i + 1)).flatten.length := by
    rw [take_succ_eq_append_getElem here, flatten_append, length_append, flatten_singleton,
      Nat.add_assoc]
  have entry : s.index[i]? = some ⟨r.offset, headerSize + ((packed pk compression groups).take i).flatten.length,
      r.timestamp⟩ := by
    rw [reads.index, entries_getElem?, getElem?_eq_getElem inside, group]
    simp only [Option.map_some, head?_cons, Option.getD_some, Nat.mod_eq_of_lt (show headerSize +
      ((packed pk compression groups).take i).flatten.length < 2 ^ 64 by omega)]
  rw [group] at fits
  rw [SegmentReader.readBlock, entry]
  simp only [reads.blockEnd inside]
  rw [split, slice_append start stop, ok_bind, block, reads.kind, decompressBlock_pack undoes supported, Outcome.of_ok, ok_bind,
    group, decodeBlock_blockBytes fits, Outcome.of_ok]

/-- The first blocks, each read as its group. -/
theorem readBlocks_ok {s : SegmentReader} {n : Nat} (within : n ≤ groups.length)
    (blocks : ∀ i (inside : i < groups.length), i < n → s.readBlock pk i = .ok (groups[i].map Record.stored)) :
    (List.range n).foldlM (fun records i => (s.readBlock pk i).map fun block => records ++ block) [] =
      .ok ((groups.take n).flatten.map Record.stored) := by
  induction n with
  | zero => rfl
  | succ n ih =>
    have earlier := ih (by omega) fun i inside below => blocks i inside (by omega)
    rw [range_succ, foldlM_append, earlier, ok_bind, foldlM_cons, blocks n (by omega) (by omega),
      take_succ_eq_append_getElem (show n < groups.length by omega), flatten_append, flatten_singleton,
      map_append]
    rfl

/-- **All blocks, in order.** -/
theorem Reads.readAll {s : SegmentReader} (reads : Reads pk compression groups s)
    (undoes : ∀ block, pk.decompressSizePrepended (pk.compressPrependSize block) = .ok block)
    (supported : compression ≠ .zstd) (nonempty : ∀ group ∈ groups, group ≠ []) (fits : ∀ r ∈ groups.flatten, r.Fits) :
    s.readAll pk = .ok (groups.flatten.map Record.stored) := by
  have length : s.index.length = groups.length := by rw [reads.index, entries_length]
  have whole := @readBlocks_ok pk groups s _ (Nat.le_refl groups.length) fun i inside _ =>
    reads.readBlock undoes supported inside (nonempty _ (getElem_mem _)) fun r here =>
      fits r (mem_flatten_of_mem (getElem_mem _) here)
  rw [take_length] at whole
  rw [SegmentReader.readAll, length]
  exact whole

end Blocks

/-! ## The whole file -/

section File

variable {pk : Packages} {compression : Compression}

/-- The writer with all blocks finished. -/
structure Finished (pk : Packages) (compression : Compression) (groups : List (List Record)) (w : SegmentWriter) : Prop where
  kind : w.compression = compression
  blocks : w.blocks = packed pk compression groups
  index : w.index = entries pk compression headerSize groups
  base : w.baseOffset = groups.flatten.head?.map Record.offset
  last : w.lastOffset = groups.flatten.getLast?.map Record.offset
  count : w.recordCount = groups.flatten.length % 2 ^ 32

theorem Built.finished (built : Built pk compression done current w) (supported : compression ≠ .zstd) :
    ∃ flushed, w.flushBlock pk = .ok flushed ∧ Finished pk compression (done ++ [current]) flushed := by
  obtain ⟨r, end_, lastOffset, -⟩ := built.last
  refine ⟨_, built.flush supported, built.kind, rfl, built.index, ?_, ?_, ?_⟩
  · rw [flatten_append, flatten_singleton]
    exact built.base
  · rw [flatten_append, flatten_singleton, getLast?_append, end_]
    exact lastOffset
  · rw [flatten_append, flatten_singleton]
    exact built.count

/-- What `finish` writes before the footer. -/
def body (w : SegmentWriter) (baseOffset endOffset : Nat) : Bytes :=
  w.writeHeader baseOffset endOffset ++ w.blocks.flatten ++ w.writeIndex

/-- The file. -/
def file (pk : Packages) (w : SegmentWriter) (baseOffset endOffset : Nat) : Bytes :=
  body w baseOffset endOffset ++ writeFooter pk (body w baseOffset endOffset) (headerSize + w.blocks.flatten.length)

/-- The reader on the file. -/
def fileReader (pk : Packages) (w : SegmentWriter) (baseOffset endOffset : Nat) : SegmentReader :=
  ⟨file pk w baseOffset endOffset,
    ⟨segmentVersion, w.compression, baseOffset % 2 ^ 64, endOffset % 2 ^ 64, w.recordCount % 2 ^ 32, w.blocks.length % 2 ^ 32⟩,
    w.index, headerSize + w.blocks.flatten.length⟩

theorem finish_file {flushed : SegmentWriter} {baseOffset endOffset : Nat} (flushes : w.flushBlock pk = .ok flushed)
    (base : flushed.baseOffset = some baseOffset) (last : flushed.lastOffset = some endOffset) :
    w.finish pk = .ok (file pk flushed baseOffset endOffset) := by
  have start : (flushed.writeHeader baseOffset endOffset ++ flushed.blocks.flatten).length =
      headerSize + flushed.blocks.flatten.length := by
    rw [length_append, writeHeader_length]
  rw [finish, flushes]
  simp only [ok_bind, base, last, start]
  rfl

/-- The reader opens the file, with the entries that were counted. -/
theorem new_file {baseOffset endOffset : Nat} (fits : ∀ e ∈ w.index, e.Fits)
    (size : headerSize + w.blocks.flatten.length < 2 ^ 64) :
    SegmentReader.new pk (file pk w baseOffset endOffset) =
      .ok { fileReader pk w baseOffset endOffset with index := w.index.take (w.index.length % 2 ^ 32) } := by
  unfold fileReader file
  generalize footer_ : writeFooter pk (body w baseOffset endOffset) (headerSize + w.blocks.flatten.length) = footer
  have footerLength : footer.length = footerSize := by
    rw [← footer_]
    exact writeFooter_length _ _ _
  have start : (body w baseOffset endOffset ++ footer).length - footerSize = (body w baseOffset endOffset).length := by
    rw [length_append, footerLength]
    omega
  have large : ¬ (body w baseOffset endOffset ++ footer).length < headerSize + footerSize := by
    simp only [length_append, footerLength, body, writeHeader_length]
    omega
  have header : readHeader (body w baseOffset endOffset ++ footer) = .ok ⟨segmentVersion, w.compression,
      baseOffset % 2 ^ 64, endOffset % 2 ^ 64, w.recordCount % 2 ^ 32, w.blocks.length % 2 ^ 32⟩ := by
    rw [body, append_assoc, append_assoc]
    exact readHeader_writeHeader w baseOffset endOffset _
  have position : readFooter pk (body w baseOffset endOffset ++ footer) (body w baseOffset endOffset).length =
      .ok (headerSize + w.blocks.flatten.length) := by
    rw [← footer_, readFooter_writeFooter, Nat.mod_eq_of_lt size]
  have before : (w.writeHeader baseOffset endOffset ++ w.blocks.flatten).length = headerSize + w.blocks.flatten.length := by
    rw [length_append, writeHeader_length]
  have index : readIndex (body w baseOffset endOffset ++ footer) (headerSize + w.blocks.flatten.length) =
      .ok (w.index.take (w.index.length % 2 ^ 32)) := by
    rw [body, append_assoc, ← before]
    exact readIndex_writeIndex fits _ footer
  rw [SegmentReader.new, if_neg large, start, header, ok_bind, position, ok_bind, index, ok_bind]

theorem Finished.reads {groups : List (List Record)} (finished : Finished pk compression groups w)
    (baseOffset endOffset : Nat) (size : headerSize + w.blocks.flatten.length < 2 ^ 64) :
    Reads pk compression groups (fileReader pk w baseOffset endOffset) := by
  refine ⟨finished.kind, ⟨w.writeHeader baseOffset endOffset, w.writeIndex ++
    writeFooter pk (body w baseOffset endOffset) (headerSize + w.blocks.flatten.length), ?_, writeHeader_length _ _ _⟩,
    finished.index, ?_, ?_⟩
  · show body w baseOffset endOffset ++ _ = _
    rw [← finished.blocks]
    simp only [body, append_assoc]
  · rw [← finished.blocks]
    rfl
  · rw [← finished.blocks]
    exact size

theorem entries_fits {groups : List (List Record)} (fits : ∀ r ∈ groups.flatten, r.Fits) (position : Nat) :
    ∀ e ∈ entries pk compression position groups, e.Fits := by
  induction groups generalizing position with
  | nil => simp [entries]
  | cons group groups ih =>
    intro e member
    obtain rfl | later := mem_cons.mp member
    · refine ⟨?_, Nat.mod_lt _ (by decide), ?_⟩
      · cases group with
        | nil => simp
        | cons r rs => exact (fits r (by simp)).offset
      · cases group with
        | nil => simp
        | cons r rs => exact (fits r (by simp)).timestamp
    · exact ih (fun r here => fits r (by simp [here])) _ e later

/-- Groups are no more than their records. -/
theorem length_le_flatten {groups : List (List Record)} (nonempty : ∀ group ∈ groups, group ≠ []) :
    groups.length ≤ groups.flatten.length := by
  induction groups with
  | nil => simp
  | cons group groups ih =>
    have first := length_pos_iff.mpr (nonempty group mem_cons_self)
    have rest := ih (fun x member => nonempty x (mem_cons_of_mem _ member))
    simp only [length_cons, flatten_cons, length_append]
    omega

/-- **A finished segment reads back** as what the format stores of its records. -/
theorem finished_reads (undoes : ∀ block, pk.decompressSizePrepended (pk.compressPrependSize block) = .ok block)
    (supported : compression ≠ .zstd) (blockSizeTarget : Nat) (nonempty : rs ≠ []) (fits : ∀ r ∈ rs, r.Fits)
    (few : rs.length < 2 ^ 32)
    (size : ∀ w bytes, appendAll pk blockSizeTarget (.new compression) rs = .ok w → w.finish pk = .ok bytes →
      bytes.length < 2 ^ 64) :
    ∃ w flushed bytes reader, appendAll pk blockSizeTarget (.new compression) rs = .ok w ∧ w.flushBlock pk = .ok flushed ∧
      w.finish pk = .ok bytes ∧ new pk bytes = .ok reader ∧ reader.readAll pk = .ok (rs.map Record.stored) ∧
      reader.header = ⟨segmentVersion, compression, (rs.head nonempty).offset, (rs.getLast nonempty).offset, rs.length,
        flushed.blocks.length⟩ := by
  obtain ⟨w, done, current, appended, built, whole⟩ : ∃ w done current,
      appendAll pk blockSizeTarget (.new compression) rs = .ok w ∧ Built pk compression done current w ∧
        done.flatten ++ current = rs := appendAll_new supported blockSizeTarget nonempty
  obtain ⟨flushed, flushes, finished⟩ := built.finished supported
  have groups : (done ++ [current]).flatten = rs := by simpa using whole
  have members : ∀ r ∈ (done ++ [current]).flatten, r.Fits := by rw [groups]; exact fits
  have base : flushed.baseOffset = some (rs.head nonempty).offset := by
    rw [finished.base, groups, head?_eq_some_head nonempty]
    rfl
  have last : flushed.lastOffset = some (rs.getLast nonempty).offset := by
    rw [finished.last, groups, getLast?_eq_some_getLast nonempty]
    rfl
  have written := finish_file flushes base last
  -- the file is longer than its blocks, so positions in it do not wrap around
  have positions : headerSize + flushed.blocks.flatten.length < 2 ^ 64 := by
    have total := size w _ appended written
    simp only [file, body, length_append, writeHeader_length] at total
    omega
  have blocks : (done ++ [current]).length < 2 ^ 32 := by
    have most := length_le_flatten built.groups
    rw [groups] at most
    omega
  have opened : new pk (file pk flushed (rs.head nonempty).offset (rs.getLast nonempty).offset) =
      .ok (fileReader pk flushed (rs.head nonempty).offset (rs.getLast nonempty).offset) := by
    have counted : flushed.index.take (flushed.index.length % 2 ^ 32) = flushed.index := by
      rw [finished.index, entries_length, Nat.mod_eq_of_lt blocks]
      exact take_of_length_le (Nat.le_of_eq (entries_length _ _ _ _))
    rw [new_file (by rw [finished.index]; exact entries_fits members headerSize) positions, counted]
    rfl
  have all := (finished.reads (rs.head nonempty).offset (rs.getLast nonempty).offset positions).readAll undoes supported built.groups members
  rw [groups] at all
  refine ⟨w, flushed, _, _, appended, flushes, written, opened, all, ?_⟩
  have packedLength : flushed.blocks.length % 2 ^ 32 = flushed.blocks.length := by
    rw [finished.blocks, packed, length_map, Nat.mod_eq_of_lt blocks]
  have count : flushed.recordCount % 2 ^ 32 = rs.length := by
    rw [finished.count, groups, Nat.mod_mod, Nat.mod_eq_of_lt few]
  simp only [fileReader, finished.kind, count, packedLength, Nat.mod_eq_of_lt (fits _ (head_mem nonempty)).offset,
    Nat.mod_eq_of_lt (fits _ (getLast_mem nonempty)).offset]

/-- **Round trip**: with keys that are absent or not empty the records come back as they were. -/
theorem roundTrip (undoes : ∀ block, pk.decompressSizePrepended (pk.compressPrependSize block) = .ok block)
    (supported : compression ≠ .zstd) (blockSizeTarget : Nat) {rs : List Record} (nonempty : rs ≠ []) (fits : ∀ r ∈ rs, r.Fits)
    (keys : ∀ r ∈ rs, r.key ≠ some []) (few : rs.length < 2 ^ 32)
    (size : ∀ w bytes, appendAll pk blockSizeTarget (.new compression) rs = .ok w → w.finish pk = .ok bytes →
      bytes.length < 2 ^ 64) :
    ∃ w flushed bytes reader, appendAll pk blockSizeTarget (.new compression) rs = .ok w ∧ w.flushBlock pk = .ok flushed ∧
      w.finish pk = .ok bytes ∧ new pk bytes = .ok reader ∧ reader.readAll pk = .ok rs ∧
      reader.header = ⟨segmentVersion, compression, (rs.head nonempty).offset, (rs.getLast nonempty).offset, rs.length,
        flushed.blocks.length⟩ := by
  obtain ⟨w, flushed, bytes, reader, appended, flushes, written, opened, all, header⟩ :=
    finished_reads undoes supported blockSizeTarget nonempty fits few size
  have same : rs.map Record.stored = rs := by
    refine (map_congr_left ?_).trans (map_id _)
    intro r member
    exact Record.stored_of_key (keys r member)
  rw [same] at all
  exact ⟨w, flushed, bytes, reader, appended, flushes, written, opened, all, header⟩

end File

/-- The count is a four-byte field. -/
theorem recordCount_lt {pk : Packages} {data : Bytes} {s : SegmentReader} (opened : new pk data = .ok s) :
    s.header.recordCount < 2 ^ 32 := by
  unfold SegmentReader.new at opened
  split at opened
  · cases opened
  · obtain ⟨header, read, opened⟩ := bind_ok opened
    obtain ⟨position, -, opened⟩ := bind_ok opened
    obtain ⟨index, -, opened⟩ := bind_ok opened
    have same : header = s.header := by rw [← Except.ok.inj opened]
    rw [← same]
    obtain ⟨c0, -, read⟩ := bind_ok read
    obtain ⟨⟨magic, c1⟩, -, read⟩ := bind_ok read
    dsimp only at read
    split at read
    · cases read
    · obtain ⟨⟨version, c2⟩, -, read⟩ := bind_ok read
      dsimp only at read
      split at read
      · cases read
      · obtain ⟨⟨value, c3⟩, -, read⟩ := bind_ok read
        obtain ⟨compression, -, read⟩ := bind_ok read
        obtain ⟨⟨baseOffset, c4⟩, -, read⟩ := bind_ok read
        obtain ⟨⟨endOffset, c5⟩, -, read⟩ := bind_ok read
        obtain ⟨⟨recordCount, c6⟩, count, read⟩ := bind_ok read
        obtain ⟨⟨blockCount, c7⟩, -, read⟩ := bind_ok read
        rw [← Except.ok.inj read]
        exact getBE_lt count

/-- As many records as a `u32` has values, without keys. -/
def Example.tooMany : List Record := (List.range (2 ^ 32)).map fun i => ⟨i, 0, none, []⟩

theorem roundTrip_fails : Example.tooMany ≠ [] ∧ Example.tooMany.Pairwise (fun a b => a.offset < b.offset) ∧
    (∀ r ∈ Example.tooMany, r.Fits ∧ r.key = none) ∧
    ∀ pk blockSizeTarget compression, ¬ ∃ w bytes reader,
      appendAll pk blockSizeTarget (.new compression) Example.tooMany = .ok w ∧ w.finish pk = .ok bytes ∧
        new pk bytes = .ok reader ∧ reader.header.recordCount = Example.tooMany.length := by
  have length : Example.tooMany.length = 2 ^ 32 := by rw [Example.tooMany, length_map, length_range]
  refine ⟨?_, ?_, ?_, ?_⟩
  · apply ne_nil_of_length_pos
    rw [length]
    exact Nat.two_pow_pos 32
  · exact pairwise_map.mpr pairwise_lt_range
  · intro r member
    obtain ⟨i, small, rfl⟩ := mem_map.mp member
    have below := mem_range.mp small
    refine ⟨⟨?_, Nat.two_pow_pos 64, by simp, Nat.two_pow_pos 64⟩, rfl⟩
    show i < 2 ^ 64
    omega
  · rintro pk blockSizeTarget compression ⟨w, bytes, reader, -, -, opened, count⟩
    have := recordCount_lt opened
    omega

namespace Example

/-- One bit of the CRC-32 that `crc32fast` computes. -/
def crcBit (crc : UInt32) : UInt32 := if crc &&& 1 = 1 then (crc >>> 1) ^^^ 0xEDB88320 else crc >>> 1

def crc32 (bytes : Bytes) : UInt32 :=
  ~~~ bytes.foldl (fun crc byte => (List.range 8).foldl (fun crc _ => crcBit crc) (crc ^^^ byte.toUInt32)) 0xFFFFFFFF

/-- LZ4's length bytes after a nibble of 15. -/
def lengthBytes (n : Nat) : Bytes := if n < 255 then [UInt8.ofNat n] else 255 :: lengthBytes (n - 255)
termination_by n

def readLength : Bytes → Option (Nat × Bytes)
  | [] => none
  | b :: rest => if b = 255 then (readLength rest).map fun (n, rest) => (255 + n, rest) else some (b.toNat, rest)

theorem readLength_lengthBytes (n : Nat) (rest : Bytes) : readLength (lengthBytes n ++ rest) = some (n, rest) := by
  induction n using Nat.strongRecOn with
  | ind n ih =>
    rw [lengthBytes]
    split
    · next small =>
      have byte : (UInt8.ofNat n).toNat = n := by
        simp only [UInt8.toNat_ofNat']
        omega
      have other : UInt8.ofNat n ≠ 255 := by
        intro same
        have := congrArg UInt8.toNat same
        rw [byte] at this
        simp at this
        omega
      simp [readLength, other, byte]
    · next large =>
      simp only [cons_append, readLength, if_true, ih (n - 255) (by omega), Option.map_some, Option.some.injEq,
        Prod.mk.injEq, and_true]
      omega

/-- An LZ4 block of literals only, as `lz4_flex` makes it of fewer than 13 bytes, after its size. -/
def literals (block : Bytes) : Bytes :=
  (putBE 4 block.length).reverse ++
    (if block.length < 15 then UInt8.ofNat (16 * block.length) :: block
    else 240 :: (lengthBytes (block.length - 15) ++ block))

/-- The decoder for such blocks. -/
def readLiterals (data : Bytes) : Except String Bytes :=
  match data.drop 4 with
  | [] => .error "ExpectedAnotherByte"
  | token :: rest =>
    if token.toNat / 16 < 15 then .ok (rest.take (token.toNat / 16))
    else
      match readLength rest with
      | none => .error "ExpectedAnotherByte"
      | some (n, rest) => .ok (rest.take (15 + n))

theorem readLiterals_literals (block : Bytes) : readLiterals (literals block) = .ok block := by
  have size : ((putBE 4 block.length).reverse).length = 4 := by simp
  unfold readLiterals literals
  rw [drop_left' size]
  split
  · next nothing => split at nothing <;> cases nothing
  · next token rest found =>
    split at found
    · next short =>
      obtain ⟨rfl, rfl⟩ := cons.inj found
      have nibble : (UInt8.ofNat (16 * block.length)).toNat / 16 = block.length := by
        simp only [UInt8.toNat_ofNat']
        omega
      rw [nibble, if_pos short, take_length]
    · next long =>
      obtain ⟨rfl, rfl⟩ := cons.inj found
      rw [if_neg (by decide), readLength_lengthBytes]
      simp only
      rw [take_of_length_le (by omega)]

def packages : Packages := ⟨literals, readLiterals, crc32⟩

def twoRecords : List Record := [⟨5, 100, some [107], [1]⟩, ⟨7, 90, none, [2, 3]⟩]

theorem twoRecords_fits : ∀ r ∈ twoRecords, r.Fits := by
  intro r member
  simp only [twoRecords, mem_cons, not_mem_nil, or_false] at member
  obtain rfl | rfl := member
  · exact ⟨by decide, by decide, by simp, by decide⟩
  · exact ⟨by decide, by decide, by simp, by decide⟩

theorem twoRecords_bytes : ∃ w bytes, appendAll packages 1 (.new .lz4) twoRecords = .ok w ∧
    w.finish packages = .ok bytes ∧ bytes.length = 170 := by
  have length : ((appendAll packages 1 (.new .lz4) twoRecords).bind fun w =>
      w.finish packages).map List.length = .ok 170 := by
    decide +kernel
  cases appended : appendAll packages 1 (.new .lz4) twoRecords with
  | error e =>
    rw [appended] at length
    cases length
  | ok w =>
    rw [appended] at length
    cases finished : w.finish packages with
    | error e =>
      simp only [Except.bind, finished] at length
      cases length
    | ok bytes =>
      simp only [Except.bind, finished, Except.map, Except.ok.injEq] at length
      exact ⟨w, bytes, rfl, finished, length⟩

end Example

open Example

/-- Two blocks of one record each. -/
theorem roundTrip_two_blocks : ∃ w flushed bytes reader,
    appendAll packages 1 (.new .lz4) twoRecords = .ok w ∧ w.flushBlock packages = .ok flushed ∧
      w.finish packages = .ok bytes ∧ new packages bytes = .ok reader ∧
      reader.readAll packages = .ok twoRecords ∧
      reader.header = ⟨1, .lz4, 5, 7, 2, flushed.blocks.length⟩ := by
  refine roundTrip readLiterals_literals (by decide) 1 (by decide) twoRecords_fits (by decide) (by decide) ?_
  intro w bytes appended finished
  obtain ⟨w', bytes', appended', finished', length⟩ := twoRecords_bytes
  cases appended.symm.trans appended'
  cases finished.symm.trans finished'
  omega

end StreamHouse.Storage
