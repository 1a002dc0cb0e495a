import StreamHouse.Core.Varint
import StreamHouse.Lib.Bytes

/-!
# The segment format

`SegmentWriter` and `SegmentReader` of `streamhouse-storage/src/segment`: a header, the
compressed blocks, an index with one entry for each block, and a footer. Within a block
offsets and timestamps are deltas to the record before. What the `lz4_flex` and
`crc32fast` packages compute is a parameter, and so is the block size the writer aims
at. Counters wrap at their width, as they do in a release build.
-/

namespace StreamHouse.Storage
open Lib Varint

inductive Compression where
  | none
  | lz4
  | zstd
deriving DecidableEq

/-- `compression as u16`. -/
def Compression.toU16 : Compression → Nat
  | .none => 0
  | .lz4 => 1
  | .zstd => 2

/-- `Compression::try_from`. -/
def Compression.tryFrom : Nat → Except CoreError Compression
  | 0 => .ok .none
  | 1 => .ok .lz4
  | 2 => .ok .zstd
  | value => .error (.invalidCompression value)

/-- What the code takes from other packages. -/
structure Packages where
  compressPrependSize : Bytes → Bytes
  decompressSizePrepended : Bytes → Except String Bytes
  crc32 : Bytes → UInt32

/-- "STRM". -/
def segmentMagic : Bytes := [0x53, 0x54, 0x52, 0x4D]

def segmentVersion : Nat := 1

def headerSize : Nat := 64

def footerSize : Nat := 32

structure IndexEntry where
  offset : Nat
  filePosition : Nat
  timestamp : Nat

/-! ## Writing -/

structure SegmentWriter where
  compression : Compression
  currentBlock : Bytes
  blocks : List Bytes
  index : List IndexEntry
  baseOffset : Option Nat
  lastOffset : Option Nat
  recordCount : Nat
  lastTimestamp : Nat
  firstTimestamp : Option Nat

/-- `a.wrapping_sub(b) as i64`. -/
def wrappingSub (a b : Nat) : BitVec 64 := BitVec.ofNat 64 a - BitVec.ofNat 64 b

/-- `a.wrapping_add(delta as u64)`. -/
def wrappingAdd (a : Nat) (delta : BitVec 64) : Nat := (BitVec.ofNat 64 a + delta).toNat

namespace SegmentWriter

def new (compression : Compression) : SegmentWriter := ⟨compression, [], [], [], none, none, 0, 0, none⟩

/-- The bytes of one record: deltas, key length, key, value length, value. No key is
written as an empty one. -/
def recordBytes (offsetDelta timestampDelta : BitVec 64) (record : Record) : Bytes :=
  encodeVarint offsetDelta ++ (encodeVarint timestampDelta ++
    (encodeVarintU64 (record.key.getD []).length ++ (record.key.getD [] ++
      (encodeVarintU64 record.value.length ++ record.value))))

/-- The first record of a block has delta 0. -/
def offsetDelta (lastOffset : Option Nat) (offset : Nat) : BitVec 64 :=
  match lastOffset with
  | some last => wrappingSub offset last
  | none => 0

/-- `encode_record`. -/
def encodeRecord (w : SegmentWriter) (record : Record) : SegmentWriter :=
  { w with
    lastTimestamp := record.timestamp
    currentBlock := w.currentBlock ++
      recordBytes (offsetDelta w.lastOffset record.offset) (wrappingSub record.timestamp w.lastTimestamp) record }

/-- `flush_block`. -/
def flushBlock (pk : Packages) (w : SegmentWriter) : Except CoreError SegmentWriter :=
  if w.currentBlock = [] then .ok w
  else
    match w.compression with
    | .none => .ok { w with blocks := w.blocks ++ [w.currentBlock], currentBlock := [] }
    | .lz4 => .ok { w with blocks := w.blocks ++ [pk.compressPrependSize w.currentBlock], currentBlock := [] }
    | .zstd => .error (.unsupported "Zstd compression not yet implemented")

/-- The first part of `append`: what the first record of a segment sets. -/
def begin (w : SegmentWriter) (record : Record) : SegmentWriter :=
  match w.baseOffset with
  | some _ => w
  | none =>
    { w with
      baseOffset := some record.offset
      firstTimestamp := some record.timestamp
      lastTimestamp := record.timestamp
      index := w.index ++ [⟨record.offset, headerSize, record.timestamp⟩] }

/-- The third part of `append`: a new block gets its index entry and starts its deltas afresh. -/
def openBlock (w : SegmentWriter) (record : Record) : SegmentWriter :=
  if w.currentBlock = [] ∧ w.baseOffset.isSome ∧ w.index.length < w.blocks.length + 1 then
    let filePosition := (headerSize + (w.blocks.map List.length).sum) % 2 ^ 64
    { w with
      index := w.index ++ [⟨record.offset, filePosition, record.timestamp⟩]
      lastOffset := none
      lastTimestamp := record.timestamp }
  else w

/-- `append`. -/
def append (pk : Packages) (blockSizeTarget : Nat) (w : SegmentWriter) (record : Record) : Except CoreError SegmentWriter := do
  let w := w.begin record
  let w ← if w.currentBlock.length ≥ blockSizeTarget then w.flushBlock pk else .ok w
  let w := (w.openBlock record).encodeRecord record
  .ok { w with lastOffset := some record.offset, recordCount := (w.recordCount + 1) % 2 ^ 32 }

def writeHeader (w : SegmentWriter) (baseOffset endOffset : Nat) : Bytes :=
  segmentMagic ++ (putBE 2 segmentVersion ++ (putBE 2 w.compression.toU16 ++ (putBE 8 baseOffset ++ (putBE 8 endOffset ++
    (putBE 4 w.recordCount ++ (putBE 4 w.blocks.length ++ List.replicate 32 0))))))

def entryBytes (entry : IndexEntry) : Bytes :=
  putBE 8 entry.offset ++ (putBE 8 entry.filePosition ++ putBE 8 entry.timestamp)

def writeIndex (w : SegmentWriter) : Bytes := putBE 4 w.index.length ++ w.index.flatMap entryBytes

/-- `write_footer`, for everything written before it. -/
def writeFooter (pk : Packages) (buf : Bytes) (indexStart : Nat) : Bytes :=
  putBE 8 indexStart ++ (putBE 4 (pk.crc32 buf).toNat ++ (segmentMagic ++ List.replicate 16 0))

/-- `finish`. -/
def finish (pk : Packages) (w : SegmentWriter) : Except CoreError Bytes := do
  let w ← w.flushBlock pk
  match w.baseOffset, w.lastOffset with
  | some baseOffset, some endOffset =>
    let output := w.writeHeader baseOffset endOffset ++ w.blocks.flatten
    let indexStart := output.length
    let output := output ++ w.writeIndex
    .ok (output ++ writeFooter pk output indexStart)
  | _, _ => .error (.invalidSegment "No records written")

end SegmentWriter

/-! ## Reading -/

structure SegmentHeader where
  version : Nat
  compression : Compression
  baseOffset : Nat
  endOffset : Nat
  recordCount : Nat
  blockCount : Nat
deriving DecidableEq

structure SegmentReader where
  data : Bytes
  header : SegmentHeader
  index : List IndexEntry
  indexPosition : Nat

namespace SegmentReader

/-- `read_header`. -/
def readHeader (data : Bytes) : Outcome CoreError SegmentHeader := do
  let cursor ← slice data 0 headerSize
  let (magic, cursor) ← copyToSlice 4 cursor
  if magic ≠ segmentMagic then .error (.error .invalidMagic)
  else
    let (version, cursor) ← getBE 2 cursor
    if version ≠ segmentVersion then .error (.error (.unsupportedVersion version))
    else
      let (compressionValue, cursor) ← getBE 2 cursor
      let compression ← Outcome.of (Compression.tryFrom compressionValue)
      let (baseOffset, cursor) ← getBE 8 cursor
      let (endOffset, cursor) ← getBE 8 cursor
      let (recordCount, cursor) ← getBE 4 cursor
      let (blockCount, _) ← getBE 4 cursor
      .ok ⟨version, compression, baseOffset, endOffset, recordCount, blockCount⟩

/-- `read_footer`. -/
def readFooter (pk : Packages) (data : Bytes) (footerStart : Nat) : Outcome CoreError Nat := do
  let cursor ← slice data footerStart data.length
  let (indexPosition, cursor) ← getBE 8 cursor
  let (storedCrc, cursor) ← getBE 4 cursor
  let before ← slice data 0 footerStart
  if storedCrc ≠ (pk.crc32 before).toNat then .error (.error .crcMismatch)
  else
    let (magic, _) ← copyToSlice 4 cursor
    if magic ≠ segmentMagic then .error (.error .invalidMagic) else .ok indexPosition

/-- The loop of `read_index`. -/
def readEntries : (count : Nat) → Bytes → Outcome CoreError (List IndexEntry)
  | 0, _ => .ok []
  | count + 1, cursor => do
    let (offset, cursor) ← getBE 8 cursor
    let (filePosition, cursor) ← getBE 8 cursor
    let (timestamp, cursor) ← getBE 8 cursor
    let entries ← readEntries count cursor
    .ok (⟨offset, filePosition, timestamp⟩ :: entries)

/-- `read_index`. -/
def readIndex (data : Bytes) (indexStart : Nat) : Outcome CoreError (List IndexEntry) := do
  let cursor ← slice data indexStart data.length
  let (entryCount, cursor) ← getBE 4 cursor
  readEntries entryCount cursor

def new (pk : Packages) (data : Bytes) : Outcome CoreError SegmentReader :=
  if data.length < headerSize + footerSize then .error (.error (.invalidSegment "Segment too small"))
  else do
    let header ← readHeader data
    let indexPosition ← readFooter pk data (data.length - footerSize)
    let index ← readIndex data indexPosition
    .ok ⟨data, header, index, indexPosition⟩

/-- A length and that many bytes; `what` is the word in the error. -/
def readChunk (what : String) (cursor : Bytes) : Except CoreError (Bytes × Bytes) := do
  let (length, cursor) ← decodeVarintU64 cursor
  if cursor.length < length then .error (.invalidSegment ("Unexpected end of block reading " ++ what))
  else .ok (cursor.take length, cursor.drop length)

/-- One turn of `decode_block`'s loop. An empty key is read as none. -/
def decodeRecord (currentOffset currentTimestamp : Nat) (cursor : Bytes) : Except CoreError (Record × Bytes) := do
  let (offsetDelta, cursor) ← decodeVarint cursor
  let (timestampDelta, cursor) ← decodeVarint cursor
  let (key, cursor) ← readChunk "key" cursor
  let (value, cursor) ← readChunk "value" cursor
  .ok (⟨wrappingAdd currentOffset offsetDelta, wrappingAdd currentTimestamp timestampDelta,
    if key.length > 0 then some key else none, value⟩, cursor)

theorem readChunk_shrinks {what : String} {cursor chunk rest : Bytes} (done : readChunk what cursor = .ok (chunk, rest)) :
    rest.length < cursor.length := by
  obtain ⟨⟨length, tail⟩, decoded, rest_⟩ := bind_ok done
  have := decodeLoop_shrinks decoded
  dsimp only at rest_
  split at rest_
  · cases rest_
  · obtain ⟨-, rfl⟩ := Prod.mk.inj (Except.ok.inj rest_)
    rw [List.length_drop]
    omega

theorem decodeRecord_shrinks {currentOffset currentTimestamp : Nat} {cursor rest : Bytes} {r : Record}
    (done : decodeRecord currentOffset currentTimestamp cursor = .ok (r, rest)) : rest.length < cursor.length := by
  obtain ⟨⟨offsetDelta, c1⟩, first, done⟩ := bind_ok done
  obtain ⟨⟨timestampDelta, c2⟩, second, done⟩ := bind_ok done
  obtain ⟨⟨key, c3⟩, third, done⟩ := bind_ok done
  obtain ⟨⟨value, c4⟩, fourth, done⟩ := bind_ok done
  obtain ⟨-, rfl⟩ := Prod.mk.inj (Except.ok.inj done)
  have := decodeVarint_shrinks first
  have := decodeVarint_shrinks second
  have := readChunk_shrinks third
  have := readChunk_shrinks fourth
  omega

/-- `decode_block`. -/
def decodeBlock (currentOffset currentTimestamp : Nat) (cursor : Bytes) : Except CoreError (List Record) :=
  if cursor = [] then .ok []
  else
    match _decoded : decodeRecord currentOffset currentTimestamp cursor with
    | .error e => .error e
    | .ok (record, rest) => (decodeBlock record.offset record.timestamp rest).map fun records => record :: records
termination_by cursor.length
decreasing_by exact decodeRecord_shrinks _decoded

/-- `decompress_block`. -/
def decompressBlock (pk : Packages) (compression : Compression) (blockData : Bytes) : Except CoreError Bytes :=
  match compression with
  | .none => .ok blockData
  | .lz4 => (pk.decompressSizePrepended blockData).mapError CoreError.decompression
  | .zstd => .error (.unsupported "Zstd compression not yet implemented")

/-- Where a block ends: at the next one, or at the index. -/
def blockEnd (s : SegmentReader) (blockIndex : Nat) : Nat :=
  match s.index[blockIndex + 1]? with
  | some next => next.filePosition
  | none => s.indexPosition

/-- `read_block`. -/
def readBlock (pk : Packages) (s : SegmentReader) (blockIndex : Nat) : Outcome CoreError (List Record) :=
  match s.index[blockIndex]? with
  | none => .error (.error (.invalidSegment s!"Block index {blockIndex} out of range"))
  | some entry => do
    let blockData ← slice s.data entry.filePosition (s.blockEnd blockIndex)
    let decompressed ← Outcome.of (decompressBlock pk s.header.compression blockData)
    Outcome.of (decodeBlock entry.offset entry.timestamp decompressed)

/-- `read_all`. -/
def readAll (pk : Packages) (s : SegmentReader) : Outcome CoreError (List Record) :=
  (List.range s.index.length).foldlM (fun records i => (s.readBlock pk i).map fun block => records ++ block) []

/-- The binary search of `find_block_for_offset`; a position that is not in the index panics. -/
def searchBlock (index : List IndexEntry) (offset left right : Nat) : Outcome CoreError Nat :=
  if left < right then
    match index[(left + right) / 2]? with
    | none => .error .panicked
    | some entry =>
      if entry.offset ≤ offset then searchBlock index offset ((left + right) / 2 + 1) right
      else searchBlock index offset left ((left + right) / 2)
  else .ok left
termination_by right - left

/-- `find_block_for_offset`: one block before the first one that starts behind the offset. -/
def findBlockForOffset (s : SegmentReader) (offset : Nat) : Outcome CoreError Nat :=
  if s.index = [] then .ok 0
  else (searchBlock s.index offset 0 s.index.length).map fun left => if left > 0 then left - 1 else 0

/-- `read_from_offset`. -/
def readFromOffset (pk : Packages) (s : SegmentReader) (startOffset : Nat) : Outcome CoreError (List Record) := do
  let blockIndex ← s.findBlockForOffset startOffset
  (List.range' blockIndex (s.index.length - blockIndex)).foldlM (fun records i =>
    (s.readBlock pk i).map fun block => records ++ block.filter fun r => startOffset ≤ r.offset) []

end SegmentReader

end StreamHouse.Storage
