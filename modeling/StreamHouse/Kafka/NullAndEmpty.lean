import StreamHouse.Kafka.FetchBatch
import StreamHouse.Storage.WalFormat

/-!
# Null and empty

A record on its way from a produce batch to a fetch batch: `parse_record_batch`, the
WAL if the partition was recovered from it, a segment, `build_record_batch_from_records`.
The produce handler and the stored record have no null value, so a value that was null
comes back empty.
-/

namespace StreamHouse.Kafka
open Lib Varint Storage List PartitionWriter Storage.Example

/-! ## What a client sends -/

structure SentRecord where
  timestampDelta : BitVec 64
  key : Option Bytes
  value : Option Bytes

open SentRecord

/-- The header fields that are the client's choice; `attributes` names the compression. -/
structure SentHeader where
  attributes : Nat
  baseTimestamp : Nat
  maxTimestamp : Nat
  producerId : Nat
  producerEpoch : Nat
  baseSequence : Nat

/-- The records of a batch, their offset deltas counted from `index`. -/
def sentRecords : (index : Nat) → List SentRecord → Bytes
  | _, [] => []
  | index, s :: sent => formatRecord (BitVec.ofNat 64 index) s.timestampDelta s.key s.value ++ sentRecords (index + 1) sent

def sentBody (pack : Bytes → Bytes) (header : SentHeader) (sent : List SentRecord) : Bytes :=
  putBE 2 header.attributes ++ (putBE 4 (sent.length - 1) ++ (putBE 8 header.baseTimestamp ++ (putBE 8 header.maxTimestamp ++
    (putBE 8 header.producerId ++ (putBE 2 header.producerEpoch ++ (putBE 4 header.baseSequence ++ (putBE 4 sent.length ++
      pack (sentRecords 0 sent))))))))

/-- A produce batch by the rules of the format. -/
def sentBatch (crc32c : Bytes → UInt32) (pack : Bytes → Bytes) (header : SentHeader) (sent : List SentRecord) : Bytes :=
  let body := sentBody pack header sent
  putBE 8 0 ++ (putBE 4 (9 + body.length) ++ (putBE 4 0 ++ (putBE 1 2 ++ (putBE 4 (crc32c body).toNat ++ body))))

/-- The handler's decompression undoes the client's compression. -/
def Unpacks (decompress : CompressionType → Bytes → Except KafkaError Bytes) (attributes : Nat) (pack : Bytes → Bytes) : Prop :=
  ∀ bytes, if CompressionType.fromAttributes attributes = .none then pack bytes = bytes
    else decompress (CompressionType.fromAttributes attributes) (pack bytes) = .ok bytes

/-! ## From produce to fetch -/

/-- What the pipeline is run with: the packages, the segment writer's settings, the clock
of the handler, the partition's next offset, and whether the records were recovered
from the WAL before they were written to a segment. -/
structure Pipeline where
  packages : Packages
  crc32c : Bytes → UInt32
  decompress : CompressionType → Bytes → Except KafkaError Bytes
  blockSizeTarget : Nat
  compression : Compression
  now : Nat
  nextOffset : Nat
  recovered : Bool

open Pipeline

namespace Pipeline

variable (p : Pipeline)

/-- `process_records`: one timestamp for the batch, and no headers. -/
def accept (data : Bytes) : Option (List WALRecord) :=
  (parseRecordBatch p.decompress data).toOption.map fun batch => batch.records.map fun r => ⟨r.key, r.value, p.now⟩

/-- `serialize_record` and `read_wal_file`, if the partition was recovered. -/
def log (records : List WALRecord) : Option (List WALRecord) :=
  if p.recovered = true then (readWalFile p.packages.crc32 (serializeAll p.packages.crc32 records)).toOption else some records

/-- The records as they get their offsets. -/
def toRecords (records : List WALRecord) : List Record :=
  assign p.nextOffset (records.map fun r => (r.key, r.value, r.timestamp))

/-- `SegmentWriter` and `SegmentReader`. -/
def segment (records : List Record) : Option (List Record) := do
  let w ← (appendAll p.packages p.blockSizeTarget (.new p.compression) records).toOption
  let bytes ← (w.finish p.packages).toOption
  let reader ← (SegmentReader.new p.packages bytes).toOption
  (reader.readAll p.packages).toOption

/-- Keys and values of a fetch batch, by the rules of the format. -/
def fetch : List Record → Option (List (Option Bytes × Option Bytes))
  | [] => some []
  | first :: records =>
    (readBatch p.crc32c (fetchBatch p.crc32c (first :: records))).toOption.map fun batch =>
      batch.records.map fun r => (r.key, r.value)

/-- A produce batch is sent and stored, and a run of its records is fetched. -/
def endToEnd (data : Bytes) (skip limit : Nat) : Option (List (Option Bytes × Option Bytes)) := do
  let accepted ← p.accept data
  let logged ← p.log accepted
  let stored ← p.segment (p.toRecords logged)
  p.fetch ((stored.drop skip).take limit)

end Pipeline

/-- What comes back is what was sent, null and empty included. -/
def KeptApart (p : Pipeline) (pack : Bytes → Bytes) (header : SentHeader) (sent : List SentRecord) : Prop :=
  ∀ skip limit, p.endToEnd (sentBatch p.crc32c pack header sent) skip limit =
    some (((sent.drop skip).take limit).map fun s => (s.key, s.value))

/-! ## Sizes -/

/-- The bytes of key and value. -/
def SentRecord.payload (s : SentRecord) : Nat := (s.key.map List.length).getD 0 + (s.value.map List.length).getD 0

theorem encodeVarint_length_pos (value : BitVec 64) : 1 ≤ (encodeVarint value).length := by
  rw [encodeVarint_length, varintSize]
  omega

theorem nullableBytes_payload (bytes : Option Bytes) : 1 + (bytes.map List.length).getD 0 ≤ (nullableBytes bytes).length := by
  cases bytes with
  | none => exact encodeVarint_length_pos (-1)
  | some k =>
    have here := encodeVarint_length_pos (BitVec.ofNat 64 k.length)
    simp only [nullableBytes, lengthPrefixed, length_append, Option.map_some, Option.getD_some]
    omega

/-- Every record takes seven bytes besides key and value, at least. -/
theorem payload_le (index : Nat) (sent : List SentRecord) :
    7 * sent.length + (sent.map payload).sum ≤ (sentRecords index sent).length := by
  induction sent generalizing index with
  | nil => exact Nat.le_refl 0
  | cons s sent ih =>
    have later := ih (index + 1)
    have key := nullableBytes_payload s.key
    have value := nullableBytes_payload s.value
    have timestamp := encodeVarint_length_pos s.timestampDelta
    have offset := encodeVarint_length_pos (BitVec.ofNat 64 index)
    have headers := encodeVarint_length_pos 0
    rw [sentRecords, map_cons, List.sum_cons, length_cons, length_append, formatRecord, lengthPrefixed]
    have length := encodeVarint_length_pos (BitVec.ofNat 64 (putBE 1 0 ++ (encodeVarint s.timestampDelta ++ (encodeVarint (BitVec.ofNat 64 index) ++
      (nullableBytes s.key ++ (nullableBytes s.value ++ encodeVarint 0))))).length)
    rw [length_append]
    simp only [length_append, putBE_length] at length ⊢
    rw [payload]
    omega

/-! ## Step by step -/

/-- A record as the handler gets it. -/
def SentRecord.received (s : SentRecord) : ParsedRecord := ⟨s.key, s.value.getD [], []⟩

/-- Record data within the frame limit: every length on the way fits its field. -/
structure Framed (sent : List SentRecord) : Prop where
  nonempty : sent ≠ []
  size : (sentRecords 0 sent).length ≤ KafkaCodec.MAX_FRAME_SIZE

theorem Framed.total {sent : List SentRecord} (framed : Framed sent) :
    7 * sent.length + (sent.map payload).sum ≤ KafkaCodec.MAX_FRAME_SIZE :=
  Nat.le_trans (payload_le 0 sent) framed.size

theorem Framed.payload_le {sent : List SentRecord} (framed : Framed sent) {s : SentRecord} (inside : s ∈ sent) :
    s.payload ≤ KafkaCodec.MAX_FRAME_SIZE := by
  have total := framed.total
  have part : s.payload ≤ (sent.map payload).sum := le_sum_of_mem (mem_map_of_mem inside)
  omega

theorem Framed.short {sent : List SentRecord} (framed : Framed sent) {s : SentRecord} (inside : s ∈ sent) :
    (∀ k, s.key = some k → k.length < 2 ^ 62) ∧ ∀ v, s.value = some v → v.length < 2 ^ 62 := by
  have small := framed.payload_le inside
  rw [payload, KafkaCodec.MAX_FRAME_SIZE] at small
  constructor
  · intro k key
    rw [key, Option.map_some, Option.getD_some] at small
    omega
  · intro v value
    rw [value, Option.map_some, Option.getD_some] at small
    omega

theorem parseRecords_sentRecords {index : Nat} {sent : List SentRecord}
    (short : ∀ s ∈ sent, (∀ k, s.key = some k → k.length < 2 ^ 62) ∧ ∀ v, s.value = some v → v.length < 2 ^ 62) :
    parseRecords sent.length (sentRecords index sent) = .ok (sent.map SentRecord.received) := by
  induction sent generalizing index with
  | nil => rfl
  | cons s sent ih =>
    obtain ⟨key, value⟩ := short s mem_cons_self
    have later := @ih (index + 1) fun t inside => short t (mem_cons_of_mem s inside)
    rw [sentRecords, length_cons, parseRecords, parseRecord_formatRecord key value, ok_bind]
    dsimp only
    rw [later]
    rfl

/-- The produce handler gets the records of the batch. -/
theorem parseRecordBatch_sentBatch {crc32c : Bytes → UInt32} {decompress : CompressionType → Bytes → Except KafkaError Bytes}
    {pack : Bytes → Bytes} {header : SentHeader} {sent : List SentRecord} (framed : Framed sent)
    (word : header.attributes < 2 ^ 16) (unpacks : Unpacks decompress header.attributes pack) :
    ∃ batch, parseRecordBatch decompress (sentBatch crc32c pack header sent) = .ok batch ∧
      batch.records = sent.map SentRecord.received := by
  have total := framed.total
  rw [KafkaCodec.MAX_FRAME_SIZE] at total
  have long : ¬ (sentBatch crc32c pack header sent).length < 61 := by
    simp only [sentBatch, sentBody, length_append, putBE_length]
    omega
  have version : ¬ 2 % 2 ^ 8 ≠ 2 := not_not.mpr rfl
  have count : sent.length % 2 ^ 32 = sent.length := Nat.mod_eq_of_lt (by omega)
  have attributes : header.attributes % 2 ^ 16 = header.attributes := Nat.mod_eq_of_lt word
  have positive : ¬ 2 ^ 31 ≤ sent.length := by omega
  have parsed := @parseRecords_sentRecords 0 sent fun s inside => framed.short inside
  refine ⟨⟨BitVec.ofNat 64 (header.producerId % 2 ^ 64), BitVec.ofNat 16 (header.producerEpoch % 2 ^ 16),
    BitVec.ofNat 32 (header.baseSequence % 2 ^ 32), sent.map SentRecord.received⟩, ?_, rfl⟩
  rw [parseRecordBatch, if_neg long, sentBatch]
  simp only [getU64_putU64, getU32_putU32, getU16_putU16, getU8_putU8, ok_bind, sentBody, count, attributes]
  rw [if_neg version]
  have data := unpacks (sentRecords 0 sent)
  split at data
  · next plain =>
    rw [if_neg (not_not.mpr plain), if_neg positive, data, parsed]
    rfl
  · next packed =>
    rw [if_pos packed, data, Outcome.of_ok, ok_bind, if_neg positive, parsed]
    rfl

theorem assign_fields (base : Nat) (records : List (Option Bytes × Bytes × Nat)) :
    (assign base records).map (fun r => (r.key, r.value, r.timestamp)) = records := by
  induction records generalizing base with
  | nil => rfl
  | cons record records ih => rw [assign, map_cons, ih]

/-! ### The fetch batch is small enough -/

/-- The bytes of key and value. -/
def storedPayload (r : Record) : Nat := (r.key.map List.length).getD 0 + r.value.length

theorem varintSize_le (value : BitVec 64) : varintSize value ≤ 10 := by
  have bits : (zigZag value).toNat.log2 < 64 := by
    by_cases zero : (zigZag value).toNat = 0
    · rw [zero]
      decide
    · exact (Nat.log2_lt zero).mpr (zigZag value).isLt
  rw [varintSize]
  omega

theorem recordSize_le (baseOffset : Nat) (baseTimestamp : BitVec 64) (r : Record) :
    recordSize baseOffset baseTimestamp r ≤ 52 + storedPayload r := by
  have key : keySize r.key ≤ 10 + (r.key.map List.length).getD 0 := by
    cases r.key with
    | none => decide
    | some k =>
      have size := varintSize_le (BitVec.ofNat 64 k.length)
      rw [keySize, prefixedSize, Option.map_some, Option.getD_some]
      omega
  have prefixed : ∀ n, prefixedSize n ≤ 10 + n := by
    intro n
    have size := varintSize_le (BitVec.ofNat 64 n)
    rw [prefixedSize]
    omega
  have timestamp := varintSize_le (timestampDelta baseTimestamp r)
  have offset := varintSize_le ((offsetDelta baseOffset r).signExtend 64)
  have value := prefixed r.value.length
  have whole := prefixed (1 + varintSize (timestampDelta baseTimestamp r) +
    varintSize ((offsetDelta baseOffset r).signExtend 64) + keySize r.key + prefixedSize r.value.length + 1)
  rw [recordSize, storedPayload]
  omega

theorem sum_recordSize_le (baseOffset : Nat) (baseTimestamp : BitVec 64) (records : List Record) :
    (records.map (recordSize baseOffset baseTimestamp)).sum ≤ 52 * records.length + (records.map storedPayload).sum := by
  induction records with
  | nil => exact Nat.le_refl 0
  | cons r records ih =>
    have here := recordSize_le baseOffset baseTimestamp r
    rw [map_cons, List.sum_cons, map_cons, List.sum_cons, length_cons]
    omega

theorem batchSize_le (records : List Record) :
    batchSize records ≤ 49 + 52 * records.length + (records.map storedPayload).sum := by
  cases records with
  | nil => exact Nat.zero_le _
  | cons first records =>
    have sizes := sum_recordSize_le first.offset (BitVec.ofNat 64 first.timestamp) (first :: records)
    rw [batchSize]
    omega

/-- A run of the records is not larger than all of them. -/
theorem batchSize_run_le (records : List Record) (skip limit : Nat) :
    batchSize ((records.drop skip).take limit) ≤ 49 + 52 * records.length + (records.map storedPayload).sum := by
  have size := batchSize_le ((records.drop skip).take limit)
  have split : records = records.take skip ++ ((records.drop skip).take limit ++ (records.drop skip).drop limit) := by
    rw [take_append_drop, take_append_drop]
  have lengths := congrArg List.length split
  have sums := congrArg (fun l => (List.map storedPayload l).sum) split
  simp only [map_append, List.sum_append, length_append] at lengths sums
  omega

/-- Keys and values of a run that is fetched. -/
theorem Pipeline.fetch_eq (p : Pipeline) {records : List Record} (size : batchSize records < 2 ^ 31) :
    p.fetch records = some (records.map fun r => (r.key, some r.value)) := by
  cases records with
  | nil => rfl
  | cons first records =>
    rw [fetch, readBatch_fetchBatch size]
    show some _ = some _
    dsimp only
    rw [map_map]
    rfl

section

variable {p : Pipeline} {pack : Bytes → Bytes} {header : SentHeader} {sent : List SentRecord}

/-- The records as the handler passes them on. -/
def appended (now : Nat) (sent : List SentRecord) : List WALRecord :=
  sent.map fun s => ⟨s.key, s.value.getD [], now⟩

theorem mem_appended {now : Nat} {r : WALRecord} (inside : r ∈ appended now sent) :
    ∃ s ∈ sent, r.key = s.key ∧ r.value = s.value.getD [] ∧ r.timestamp = now ∧
      (r.key.map List.length).getD 0 + r.value.length = s.payload := by
  obtain ⟨s, sentHere, rfl⟩ := mem_map.mp inside
  refine ⟨s, sentHere, rfl, rfl, rfl, ?_⟩
  rw [payload]
  cases s.value <;> rfl

theorem accept_eq (framed : Framed sent) (word : header.attributes < 2 ^ 16)
    (unpacks : Unpacks p.decompress header.attributes pack) :
    p.accept (sentBatch p.crc32c pack header sent) = some (appended p.now sent) := by
  obtain ⟨batch, parsed, records⟩ := @parseRecordBatch_sentBatch p.crc32c _ _ _ _ framed word unpacks
  rw [accept, parsed]
  show some _ = some _
  dsimp only
  rw [records, map_map]
  rfl

theorem log_eq (framed : Framed sent) (clock : p.now < 2 ^ 64) (keyed : ∀ s ∈ sent, s.key ≠ some []) :
    p.log (appended p.now sent) = some (appended p.now sent) := by
  rw [log]
  split
  · have fits : ∀ r ∈ appended p.now sent, r.Fits := by
      intro r inside
      obtain ⟨s, sentHere, -, -, time, size⟩ := mem_appended inside
      have small := framed.payload_le sentHere
      rw [KafkaCodec.MAX_FRAME_SIZE] at small
      exact ⟨by omega, by omega, by omega, by omega⟩
    have keys : ∀ r ∈ appended p.now sent, r.key ≠ some [] := by
      intro r inside
      obtain ⟨s, sentHere, key, -⟩ := mem_appended inside
      rw [key]
      exact keyed s sentHere
    have read := @readWalFile_serializeAll p.packages.crc32 _ fits keys []
    have ended : readWalFile p.packages.crc32 [] = .ok [] := readWalFile_short (by decide)
    rw [append_nil, ended] at read
    rw [read]
    show some _ = some _
    dsimp only
    rw [append_nil]
  · rfl

theorem toRecords_fields (records : List WALRecord) :
    (p.toRecords records).map (fun r => (⟨r.key, r.value, r.timestamp⟩ : WALRecord)) = records := by
  have fields := congrArg (List.map fun t : Option Bytes × Bytes × Nat => (⟨t.1, t.2.1, t.2.2⟩ : WALRecord))
    (assign_fields p.nextOffset (records.map fun r => (r.key, r.value, r.timestamp)))
  rw [map_map, map_map] at fields
  exact fields.trans (map_id records)

theorem mem_toRecords {records : List WALRecord} {r : Record} (inside : r ∈ p.toRecords records) :
    (⟨r.key, r.value, r.timestamp⟩ : WALRecord) ∈ records ∧ r.offset < p.nextOffset + records.length := by
  constructor
  · have listed := @mem_map_of_mem _ _ _ _ (fun r => (⟨r.key, r.value, r.timestamp⟩ : WALRecord)) inside
    rw [toRecords_fields] at listed
    exact listed
  · have bound := (assign_bounds inside).2
    rw [length_map] at bound
    exact bound

theorem toRecords_length (records : List WALRecord) : (p.toRecords records).length = records.length := by
  rw [toRecords, assign_length, length_map]

theorem segment_eq (framed : Framed sent) (clock : p.now < 2 ^ 64) (room : p.nextOffset + sent.length ≤ 2 ^ 64)
    (keyed : ∀ s ∈ sent, s.key ≠ some []) (supported : p.compression ≠ .zstd)
    (undoes : ∀ block, p.packages.decompressSizePrepended (p.packages.compressPrependSize block) = .ok block)
    (size : ∀ w bytes, appendAll p.packages p.blockSizeTarget (.new p.compression) (p.toRecords (appended p.now sent)) = .ok w →
      w.finish p.packages = .ok bytes → bytes.length < 2 ^ 64) :
    p.segment (p.toRecords (appended p.now sent)) = some (p.toRecords (appended p.now sent)) := by
  have total := framed.total
  rw [KafkaCodec.MAX_FRAME_SIZE] at total
  have length : (p.toRecords (appended p.now sent)).length = sent.length := by
    rw [toRecords_length, appended, length_map]
  have nonempty : p.toRecords (appended p.now sent) ≠ [] := by
    apply ne_nil_of_length_pos
    rw [length]
    exact length_pos_iff.mpr framed.nonempty
  have fits : ∀ r ∈ p.toRecords (appended p.now sent), r.Fits := by
    intro r inside
    obtain ⟨logged, offset⟩ := mem_toRecords inside
    obtain ⟨s, sentHere, -, -, time, payload⟩ := mem_appended logged
    have small := framed.payload_le sentHere
    rw [appended, length_map] at offset
    rw [KafkaCodec.MAX_FRAME_SIZE] at small
    dsimp only at time payload
    refine ⟨by omega, by omega, fun k key => ?_, by omega⟩
    rw [key, Option.map_some, Option.getD_some] at payload
    omega
  have stored : (p.toRecords (appended p.now sent)).map Record.stored = p.toRecords (appended p.now sent) := by
    refine (map_congr_left fun r inside => ?_).trans (map_id _)
    obtain ⟨s, sentHere, key, -⟩ := mem_appended (mem_toRecords inside).1
    apply Record.stored_of_key
    intro empty
    exact keyed s sentHere (key.symm.trans empty)
  obtain ⟨w, flushed, bytes, reader, written, -, finished, opened, all, -⟩ :=
    finished_reads undoes supported p.blockSizeTarget nonempty fits (by omega) size
  rw [Pipeline.segment, written]
  show ((w.finish p.packages).toOption.bind fun bytes => (SegmentReader.new p.packages bytes).toOption.bind fun reader =>
    (reader.readAll p.packages).toOption) = _
  rw [finished]
  show ((SegmentReader.new p.packages bytes).toOption.bind fun reader => (reader.readAll p.packages).toOption) = _
  rw [opened]
  show (reader.readAll p.packages).toOption = _
  rw [all, stored]
  rfl

theorem toRecords_payload :
    (p.toRecords (appended p.now sent)).map storedPayload = sent.map payload := by
  have fields := congrArg (List.map fun r : WALRecord => (r.key.map List.length).getD 0 + r.value.length)
    (@toRecords_fields p (appended p.now sent))
  rw [map_map, appended, map_map] at fields
  refine fields.trans (map_congr_left fun s _ => ?_)
  rw [Function.comp_apply, payload]
  cases s.value <;> rfl

theorem toRecords_keyValue :
    (p.toRecords (appended p.now sent)).map (fun r => (r.key, some r.value)) = sent.map fun s => (s.key, some (s.value.getD [])) := by
  have fields := congrArg (List.map fun r : WALRecord => (r.key, some r.value)) (@toRecords_fields p (appended p.now sent))
  rw [map_map, appended, map_map] at fields
  exact fields

/-- What a run of the pipeline relies on: a produce batch within the frame limit, a client
whose compression is undone, `u64` clock and offsets, a compression the segment writer
supports and undoes, and a segment whose positions are `u64`. -/
structure Admissible (p : Pipeline) (pack : Bytes → Bytes) (header : SentHeader) (sent : List SentRecord) : Prop where
  framed : Framed sent
  attributes : header.attributes < 2 ^ 16
  unpacks : Unpacks p.decompress header.attributes pack
  clock : p.now < 2 ^ 64
  offsets : p.nextOffset + sent.length ≤ 2 ^ 64
  supported : p.compression ≠ .zstd
  undoes : ∀ block, p.packages.decompressSizePrepended (p.packages.compressPrependSize block) = .ok block
  segment : ∀ w bytes, appendAll p.packages p.blockSizeTarget (.new p.compression) (p.toRecords (appended p.now sent)) = .ok w →
    w.finish p.packages = .ok bytes → bytes.length < 2 ^ 64

/-- The pipeline, for records without an empty key. -/
theorem endToEnd_eq (admissible : Admissible p pack header sent) (keyed : ∀ s ∈ sent, s.key ≠ some []) (skip limit : Nat) :
    p.endToEnd (sentBatch p.crc32c pack header sent) skip limit =
      some (((sent.drop skip).take limit).map fun s => (s.key, some (s.value.getD []))) := by
  obtain ⟨framed, word, unpacks, clock, room, supported, undoes, size⟩ := admissible
  have total := framed.total
  rw [KafkaCodec.MAX_FRAME_SIZE] at total
  have run := batchSize_run_le (p.toRecords (appended p.now sent)) skip limit
  rw [toRecords_payload, toRecords_length, appended, length_map, ← appended] at run
  rw [endToEnd, accept_eq framed word unpacks]
  show ((p.log (appended p.now sent)).bind fun logged => (p.segment (p.toRecords logged)).bind fun stored =>
    p.fetch ((stored.drop skip).take limit)) = _
  rw [log_eq framed clock keyed]
  show ((p.segment (p.toRecords (appended p.now sent))).bind fun stored => p.fetch ((stored.drop skip).take limit)) = _
  rw [segment_eq framed clock room keyed supported undoes size]
  show p.fetch (((p.toRecords (appended p.now sent)).drop skip).take limit) = _
  rw [p.fetch_eq (by omega), map_take, map_drop, toRecords_keyValue, ← map_drop, ← map_take]

/-- A null value comes back empty. -/
theorem value_of_keptApart (admissible : Admissible p pack header sent) (keyed : ∀ s ∈ sent, s.key ≠ some [])
    (kept : KeptApart p pack header sent) {s : SentRecord} (inside : s ∈ sent) : s.value ≠ none := by
  have whole := kept 0 sent.length
  rw [endToEnd_eq admissible keyed, drop_zero, take_length] at whole
  have here := map_inj_left.mp (Option.some.inj whole) s inside
  intro null
  rw [null] at here
  cases (Prod.mk.inj here).2

end

/-- **From produce to fetch**, without empty keys: keys come back as they were sent, null
or not, values with their contents, and a null value as an empty one. So null and empty
are kept apart in a batch exactly if it has no null value. -/
theorem null_and_empty_values (p : Pipeline) (pack : Bytes → Bytes) (header : SentHeader) (sent : List SentRecord)
    (admissible : Admissible p pack header sent) (keyed : ∀ s ∈ sent, s.key ≠ some []) :
    (∀ skip limit, ∃ fetched, p.endToEnd (sentBatch p.crc32c pack header sent) skip limit = some fetched ∧
      fetched.map Prod.fst = ((sent.drop skip).take limit).map key ∧
      fetched.map Prod.snd = ((sent.drop skip).take limit).map fun s => some (s.value.getD [])) ∧
      (KeptApart p pack header sent ↔ ∀ s ∈ sent, s.value ≠ none) := by
  constructor
  · intro skip limit
    refine ⟨_, endToEnd_eq admissible keyed skip limit, ?_, ?_⟩
    · rw [map_map]
      rfl
    · rw [map_map]
      rfl
  · constructor
    · intro kept s inside
      exact value_of_keptApart admissible keyed kept inside
    · intro present skip limit
      rw [endToEnd_eq admissible keyed]
      congr 1
      apply map_congr_left
      intro s inside
      obtain ⟨v, value⟩ := Option.ne_none_iff_exists'.mp (present s (mem_of_mem_drop (mem_of_mem_take inside)))
      rw [value]
      rfl

namespace Example

/-- Recovered from the WAL, LZ4 blocks of literals, a block for each record. -/
def pipeline : Pipeline where
  packages := packages
  crc32c := crc32
  decompress _ data := .ok data
  blockSizeTarget := 1
  compression := .lz4
  now := 1700000000000
  nextOffset := 5
  recovered := true

def plainHeader : SentHeader := ⟨0, 1700000000000, 1700000000003, 2 ^ 64 - 1, 2 ^ 16 - 1, 2 ^ 32 - 1⟩

/-- No key and a value, and a key with an empty value. -/
def twoSent : List SentRecord := [⟨0, none, some [7]⟩, ⟨3, some [107], some []⟩]

/-- A tombstone as Kafka has it. -/
def tombstone : List SentRecord := [⟨0, some [107], none⟩]

theorem admissible_of {sent : List SentRecord} (nonempty : sent ≠ []) (few : sent.length ≤ 2)
    (size : (sentRecords 0 sent).length ≤ KafkaCodec.MAX_FRAME_SIZE)
    (segment : ((appendAll pipeline.packages 1 (.new .lz4) (pipeline.toRecords (appended pipeline.now sent))).bind fun w =>
      w.finish pipeline.packages).toOption.any (fun bytes => bytes.length < 2 ^ 64) = true) :
    Admissible pipeline id plainHeader sent where
  framed := ⟨nonempty, size⟩
  attributes := by decide
  unpacks := fun bytes => by
    rw [if_pos (by decide)]
    rfl
  clock := by decide
  offsets := by
    show 5 + sent.length ≤ 2 ^ 64
    omega
  supported := by decide
  undoes := readLiterals_literals
  segment := by
    intro w bytes written finished
    have small := segment
    have here : appendAll pipeline.packages 1 (.new .lz4) (pipeline.toRecords (appended pipeline.now sent)) = .ok w := written
    rw [here] at small
    simp only [Except.bind, finished, Except.toOption, Option.any_some, decide_eq_true_eq] at small
    exact small

theorem twoSent_admissible : Admissible pipeline id plainHeader twoSent :=
  admissible_of (by decide) (by decide) (by decide +kernel) (by decide +kernel)

theorem tombstone_admissible : Admissible pipeline id plainHeader tombstone :=
  admissible_of (by decide) (by decide) (by decide +kernel) (by decide +kernel)

end Example

open Example

theorem null_and_empty_values_two : KeptApart pipeline id plainHeader twoSent :=
  (null_and_empty_values pipeline id plainHeader twoSent twoSent_admissible (by decide)).2.mpr
    (by decide)

/-- A null value is not kept apart from an empty one. -/
theorem null_value_fails :
    ¬ ∀ (p : Pipeline) (pack : Bytes → Bytes) (header : SentHeader) (sent : List SentRecord),
      Admissible p pack header sent → KeptApart p pack header sent := by
  intro always
  have kept := always pipeline id plainHeader tombstone tombstone_admissible
  exact value_of_keptApart tombstone_admissible (by decide) kept mem_cons_self rfl

end StreamHouse.Kafka
