import Mathlib.Algebra.GroupWithZero.Nat
import Mathlib.Algebra.Order.BigOperators.Group.List
import Mathlib.Algebra.Order.Group.Nat
import StreamHouse.Kafka.RecordBatch

/-!
# What a fetch batch says

The rules of the record batch format, version 2, as a reader of their own: a batch is as
long as it says, its checksum is right, varints of 32 bits stay in their range, every
record fills its length and the records fill the batch. Offsets and timestamps are `i64`.
A batch is faithful if this reader and the produce handler find the stored records in it.
-/

namespace StreamHouse.Kafka
open Lib Varint List

/-! ## The rules -/

inductive Malformed where
  | length
  | magic
  | checksum
  | compressed
  | varint
  | count
  | trailing

structure RecordV2 where
  timestampDelta : Int
  offsetDelta : Int
  key : Option Bytes
  value : Option Bytes

structure BatchV2 where
  baseOffset : BitVec 64
  lastOffsetDelta : Int
  baseTimestamp : BitVec 64
  records : List RecordV2

open BatchV2

namespace BatchV2

/-- Base offset plus delta, in an `i64`. -/
def offset (batch : BatchV2) (record : RecordV2) : Int := (batch.baseOffset + BitVec.ofInt 64 record.offsetDelta).toInt

def lastOffset (batch : BatchV2) : Int := (batch.baseOffset + BitVec.ofInt 64 batch.lastOffsetDelta).toInt

def timestamp (batch : BatchV2) (record : RecordV2) : Int :=
  (batch.baseTimestamp + BitVec.ofInt 64 record.timestampDelta).toInt

end BatchV2

def check (p : Prop) [Decidable p] (otherwise : Malformed) : Outcome Malformed Unit :=
  if p then .ok () else .error (.error otherwise)

/-- A varint of 64 bits. -/
def readVarlong (buf : Bytes) : Outcome Malformed (Int × Bytes) :=
  match decodeVarint buf with
  | .ok (value, buf) => .ok (value.toInt, buf)
  | .error _ => .error (.error .varint)

/-- A varint of 32 bits. -/
def readVarint (buf : Bytes) : Outcome Malformed (Int × Bytes) := do
  let (value, buf) ← readVarlong buf
  check (-2 ^ 31 ≤ value ∧ value < 2 ^ 31) .varint
  .ok (value, buf)

/-- Bytes with their length in front; the length -1 is null. -/
def readNullable (buf : Bytes) : Outcome Malformed (Option Bytes × Bytes) := do
  let (length, buf) ← readVarint buf
  if length = -1 then .ok (none, buf)
  else
    check (0 ≤ length) .length
    let (bytes, buf) ← copyToSlice length.toNat buf
    .ok (some bytes, buf)

/-- The headers of a record: a key that is not null, and a value. -/
def readHeaders : (count : Nat) → Bytes → Outcome Malformed Bytes
  | 0, buf => .ok buf
  | count + 1, buf => do
    let (key, buf) ← readNullable buf
    check (key.isSome = true) .length
    let (_, buf) ← readNullable buf
    readHeaders count buf

/-- A record without its length. -/
def readContent (buf : Bytes) : Outcome Malformed RecordV2 := do
  let (_, buf) ← getBE 1 buf
  let (timestampDelta, buf) ← readVarlong buf
  let (offsetDelta, buf) ← readVarint buf
  let (key, buf) ← readNullable buf
  let (value, buf) ← readNullable buf
  let (headerCount, buf) ← readVarint buf
  check (0 ≤ headerCount) .count
  let buf ← readHeaders headerCount.toNat buf
  check (buf = []) .trailing
  .ok ⟨timestampDelta, offsetDelta, key, value⟩

def readRecord (buf : Bytes) : Outcome Malformed (RecordV2 × Bytes) := do
  let (length, buf) ← readVarint buf
  check (0 ≤ length) .length
  let (content, buf) ← copyToSlice length.toNat buf
  let record ← readContent content
  .ok (record, buf)

def readRecords : (count : Nat) → Bytes → Outcome Malformed (List RecordV2 × Bytes)
  | 0, buf => .ok ([], buf)
  | count + 1, buf => do
    let (record, buf) ← readRecord buf
    let (records, buf) ← readRecords count buf
    .ok (record :: records, buf)

/-- What the length and the checksum cover, from the attributes on. -/
def readBody (baseOffset : Nat) (buf : Bytes) : Outcome Malformed BatchV2 := do
  let (attributes, buf) ← getBE 2 buf
  check (CompressionType.fromAttributes attributes = .none) .compressed
  let (lastOffsetDelta, buf) ← getBE 4 buf
  let (baseTimestamp, buf) ← getBE 8 buf
  let (_, buf) ← getBE 8 buf
  let (_, buf) ← getBE 8 buf
  let (_, buf) ← getBE 2 buf
  let (_, buf) ← getBE 4 buf
  let (recordCount, buf) ← getBE 4 buf
  check (recordCount < 2 ^ 31) .count
  let (records, buf) ← readRecords recordCount buf
  check (buf = []) .trailing
  .ok ⟨BitVec.ofNat 64 baseOffset, (BitVec.ofNat 32 lastOffsetDelta).toInt, BitVec.ofNat 64 baseTimestamp, records⟩

/-- An uncompressed batch, and nothing behind it. -/
def readBatch (crc32c : Bytes → UInt32) (data : Bytes) : Outcome Malformed BatchV2 := do
  let (baseOffset, buf) ← getBE 8 data
  let (batchLength, buf) ← getBE 4 buf
  check ((BitVec.ofNat 32 batchLength).toInt = buf.length) .length
  let (_, buf) ← getBE 4 buf
  let (magic, buf) ← getBE 1 buf
  check (magic = 2) .magic
  let (crc, buf) ← getBE 4 buf
  check (crc = (crc32c buf).toNat) .checksum
  readBody baseOffset buf

/-! ## Faithful batches -/

/-- The two readings of a batch are the stored records. -/
structure Agrees (batch : BatchV2) (handled : RecordBatchMeta) (records : List Record) : Prop where
  offsets : batch.records.map batch.offset = records.map fun r => (r.offset : Int)
  lastOffset : ∀ last, records.getLast? = some last → batch.lastOffset = last.offset
  timestamps : batch.records.map batch.timestamp = records.map fun r => (r.timestamp : Int)
  keys : batch.records.map RecordV2.key = records.map Record.key
  values : batch.records.map RecordV2.value = records.map fun r => some r.value
  handled : handled.records.map (fun r => (r.key, r.value)) = records.map fun r => (r.key, r.value)

/-- The batch that a fetch makes of the records is well formed, is accepted by the
produce handler, and says what the records are. -/
def Faithful (crc32c : Bytes → UInt32) (decompress : CompressionType → Bytes → Except KafkaError Bytes)
    (records : List Record) : Prop :=
  ∃ batch handled, readBatch crc32c (fetchBatch crc32c records) = .ok batch ∧
    parseRecordBatch decompress (fetchBatch crc32c records) = .ok handled ∧ Agrees batch handled records

/-! ## Sizes -/

/-- The bytes of a varint: seven bits each. -/
def varintSize (value : BitVec 64) : Nat := (zigZag value).toNat.log2 / 7 + 1

def prefixedSize (length : Nat) : Nat := varintSize (BitVec.ofNat 64 length) + length

def keySize : Option Bytes → Nat
  | some k => prefixedSize k.length
  | none => 1

/-- The bytes a record takes in a batch of this base. -/
def recordSize (baseOffset : Nat) (baseTimestamp : BitVec 64) (r : Record) : Nat :=
  prefixedSize (1 + varintSize (timestampDelta baseTimestamp r) + varintSize ((offsetDelta baseOffset r).signExtend 64) +
    keySize r.key + prefixedSize r.value.length + 1)

/-- The bytes of a batch behind its length. -/
def batchSize : List Record → Nat
  | [] => 0
  | first :: records =>
    49 + ((first :: records).map (recordSize first.offset (BitVec.ofNat 64 first.timestamp))).sum

/-- The batch format can say what the records are: no gap between the offsets, offsets
and timestamps that an `i64` holds, a size that an `i32` holds. -/
structure Encodable (records : List Record) : Prop where
  contiguous : records.IsChain fun r next => next.offset = r.offset + 1
  offsets : ∀ r ∈ records, r.offset < 2 ^ 63
  timestamps : ∀ r ∈ records, r.timestamp < 2 ^ 63
  size : batchSize records < 2 ^ 31

variable {records : List Record}

theorem log2_step {n : Nat} (large : 128 ≤ n) : n.log2 = (n / 128).log2 + 7 := by
  obtain ⟨least, most⟩ := (Nat.log2_eq_iff (show n / 128 ≠ 0 by omega)).mp rfl
  apply (Nat.log2_eq_iff (show n ≠ 0 by omega)).mpr
  have shifted : ∀ k, 2 ^ (k + 7) = 128 * 2 ^ k := fun k => by rw [Nat.pow_add, Nat.mul_comm]
  constructor
  · rw [shifted]
    omega
  · rw [Nat.add_right_comm, shifted]
    omega

theorem encodeVarintU64_length (n : Nat) : (encodeVarintU64 n).length = n.log2 / 7 + 1 := by
  induction n using Nat.strongRecOn with
  | ind n ih =>
    by_cases small : n < 128
    · have low : n.log2 < 7 := by
        by_cases zero : n = 0
        · rw [zero]
          decide
        · exact (Nat.log2_lt zero).mpr small
      rw [encodeVarintU64_small small, Nat.div_eq_of_lt low]
      rfl
    · have large : 128 ≤ n := by omega
      rw [encodeVarintU64_large large, length_cons, ih (n / 128) (by omega), log2_step large]
      omega

theorem encodeVarint_length (value : BitVec 64) : (encodeVarint value).length = varintSize value :=
  encodeVarintU64_length _

theorem lengthPrefixed_length (bytes : Bytes) : (lengthPrefixed bytes).length = prefixedSize bytes.length := by
  rw [lengthPrefixed, length_append, encodeVarint_length, prefixedSize]

theorem nullableBytes_length (key : Option Bytes) : (nullableBytes key).length = keySize key := by
  cases key with
  | none =>
    rw [nullableBytes, encodeVarint_length]
    decide
  | some k => exact lengthPrefixed_length k

theorem encodeRecord_length (baseOffset : Nat) (baseTimestamp : BitVec 64) (r : Record) :
    (encodeRecord baseOffset baseTimestamp r).length = recordSize baseOffset baseTimestamp r := by
  have noHeaders : varintSize 0 = 1 := by decide
  rw [encodeRecord, encodeRecordWithDeltas, lengthPrefixed_length, recordContent]
  simp only [length_append, putBE_length, encodeVarint_length, nullableBytes_length, lengthPrefixed_length, noHeaders]
  rw [recordSize]
  congr 1
  omega

theorem batchSize_eq (first : Record) (records : List Record) :
    batchSize (first :: records) = 9 + (batchBody first.offset (BitVec.ofNat 64 first.timestamp) (first :: records)).length := by
  rw [batchBody_length, length_flatten, map_map]
  have sizes : List.length ∘ encodeRecord first.offset (BitVec.ofNat 64 first.timestamp) =
      recordSize first.offset (BitVec.ofNat 64 first.timestamp) := funext fun r => encodeRecord_length _ _ r
  rw [sizes, batchSize]
  omega

/-! ## Reading by the rules -/

@[simp] theorem check_of {p : Prop} [Decidable p] {otherwise : Malformed} (holds : p) : check p otherwise = .ok () :=
  if_pos holds

theorem of_check {p : Prop} [Decidable p] {otherwise : Malformed} (passed : check p otherwise = .ok ()) : p := by
  by_contra fails
  rw [check, if_neg fails] at passed
  cases passed

theorem readVarlong_encode (value : BitVec 64) (rest : Bytes) :
    readVarlong (encodeVarint value ++ rest) = .ok (value.toInt, rest) := by
  rw [readVarlong, decodeVarint_encode]

theorem readVarint_encode {value : BitVec 64} (least : -2 ^ 31 ≤ value.toInt) (most : value.toInt < 2 ^ 31) (rest : Bytes) :
    readVarint (encodeVarint value ++ rest) = .ok (value.toInt, rest) := by
  rw [readVarint, readVarlong_encode, ok_bind]
  dsimp only
  rw [check_of ⟨least, most⟩, ok_bind]

theorem toInt_of_short {n : Nat} (short : n < 2 ^ 31) : (BitVec.ofNat 64 n).toInt = n := by
  rw [BitVec.toInt_ofNat', Int.bmod_eq_of_le] <;> omega

theorem readVarint_length {n : Nat} (short : n < 2 ^ 31) (rest : Bytes) :
    readVarint (encodeVarint (BitVec.ofNat 64 n) ++ rest) = .ok ((n : Int), rest) := by
  have same := toInt_of_short short
  rw [readVarint_encode (by omega) (by omega), same]

theorem readNullable_lengthPrefixed {bytes : Bytes} (short : bytes.length < 2 ^ 31) (rest : Bytes) :
    readNullable (lengthPrefixed bytes ++ rest) = .ok (some bytes, rest) := by
  have present : ¬ (bytes.length : Int) = -1 := by omega
  have positive : 0 ≤ (bytes.length : Int) := by omega
  rw [readNullable, lengthPrefixed, append_assoc, readVarint_length short, ok_bind]
  dsimp only
  rw [if_neg present, check_of positive, ok_bind, copyToSlice_append rest (Int.toNat_natCast _).symm, ok_bind]

theorem readNullable_nullableBytes {key : Option Bytes} (short : ∀ k, key = some k → k.length < 2 ^ 31) (rest : Bytes) :
    readNullable (nullableBytes key ++ rest) = .ok (key, rest) := by
  cases key with
  | none =>
    rw [nullableBytes, readNullable, readVarint_encode (by decide) (by decide)]
    rfl
  | some k => exact readNullable_lengthPrefixed (short k rfl) rest

/-- What the rules make of a stored record. -/
def asV2 (baseOffset : Nat) (baseTimestamp : BitVec 64) (r : Record) : RecordV2 :=
  ⟨(timestampDelta baseTimestamp r).toInt, (offsetDelta baseOffset r).toInt, r.key, some r.value⟩

theorem readContent_encode {offsetDelta : BitVec 32} {timestampDelta : BitVec 64} {key : Option Bytes} {value : Bytes}
    (keyFits : ∀ k, key = some k → k.length < 2 ^ 31) (valueFits : value.length < 2 ^ 31) :
    readContent (recordContent offsetDelta timestampDelta key value) =
      .ok ⟨timestampDelta.toInt, offsetDelta.toInt, key, some value⟩ := by
  have wide : (offsetDelta.signExtend 64).toInt = offsetDelta.toInt := BitVec.toInt_signExtend_of_le (by decide)
  have least := BitVec.le_toInt offsetDelta
  have most := @BitVec.toInt_lt 32 offsetDelta
  have noHeaders : readVarint (encodeVarint 0) = .ok ((0 : Int), []) := by
    have read := @readVarint_length 0 (by decide) []
    rw [append_nil] at read
    exact read
  rw [readContent, recordContent, getU8_putU8, ok_bind]
  dsimp only
  rw [readVarlong_encode, ok_bind]
  dsimp only
  rw [readVarint_encode (by omega) (by omega), ok_bind, wide]
  dsimp only
  rw [readNullable_nullableBytes keyFits, ok_bind]
  dsimp only
  rw [readNullable_lengthPrefixed valueFits, ok_bind]
  dsimp only
  rw [noHeaders]
  rfl

variable {baseOffset : Nat} {baseTimestamp : BitVec 64} {others : List RecordV2}

theorem readRecord_encode {r : Record} (short : recordSize baseOffset baseTimestamp r < 2 ^ 31) (rest : Bytes) :
    readRecord (encodeRecord baseOffset baseTimestamp r ++ rest) = .ok (asV2 baseOffset baseTimestamp r, rest) := by
  have content := encodeRecord_length baseOffset baseTimestamp r
  rw [encodeRecord, encodeRecordWithDeltas, lengthPrefixed, length_append] at content
  have inner : (recordContent (offsetDelta baseOffset r) (timestampDelta baseTimestamp r) r.key r.value).length < 2 ^ 31 := by
    omega
  have parts := inner
  simp only [recordContent, length_append, lengthPrefixed] at parts
  have keyFits : ∀ k, r.key = some k → k.length < 2 ^ 31 := by
    intro k key
    simp only [key, nullableBytes, lengthPrefixed, length_append] at parts
    omega
  have positive : 0 ≤ ((recordContent (offsetDelta baseOffset r) (timestampDelta baseTimestamp r) r.key r.value).length : Int) := by
    omega
  rw [encodeRecord, encodeRecordWithDeltas, lengthPrefixed, append_assoc, readRecord, readVarint_length inner, ok_bind]
  dsimp only
  rw [check_of positive, ok_bind, copyToSlice_append rest (Int.toNat_natCast _).symm, ok_bind]
  dsimp only
  rw [readContent_encode keyFits (by omega)]
  rfl

theorem readRecords_encode (short : ∀ r ∈ records, recordSize baseOffset baseTimestamp r < 2 ^ 31) :
    readRecords records.length (records.map (encodeRecord baseOffset baseTimestamp)).flatten =
      .ok (records.map (asV2 baseOffset baseTimestamp), []) := by
  induction records with
  | nil => rfl
  | cons record records ih =>
    have later := ih fun r inside => short r (mem_cons_of_mem record inside)
    rw [map_cons, flatten_cons, length_cons, readRecords, readRecord_encode (short record mem_cons_self),
      ok_bind]
    dsimp only
    rw [later]
    rfl

/-- The records of a batch are no longer together than the batch, and none is empty. -/
theorem recordSize_sum (baseOffset : Nat) (baseTimestamp : BitVec 64) (records : List Record) :
    records.length ≤ (records.map (recordSize baseOffset baseTimestamp)).sum ∧
      ∀ r ∈ records, recordSize baseOffset baseTimestamp r ≤ (records.map (recordSize baseOffset baseTimestamp)).sum := by
  constructor
  · have counted := length_le_sum_of_one_le (records.map (recordSize baseOffset baseTimestamp)) ?_
    · rwa [length_map] at counted
    · intro size inside
      obtain ⟨r, -, rfl⟩ := mem_map.mp inside
      rw [recordSize, prefixedSize, varintSize]
      omega
  · intro r inside
    exact le_sum_of_mem (mem_map_of_mem inside)

theorem ofNat_mod (n : Nat) : BitVec.ofNat 64 (n % 2 ^ 64) = BitVec.ofNat 64 n := by
  apply BitVec.eq_of_toNat_eq
  rw [BitVec.toNat_ofNat, BitVec.toNat_ofNat, Nat.mod_mod]

/-- The header in front of the records, and the checks it passes. -/
theorem readBatch_header {crc32c : Bytes → UInt32} {first : Record} :
    readBatch crc32c (fetchBatch crc32c (first :: records)) = (do
      check ((BitVec.ofNat 32 (batchSize (first :: records) % 2 ^ 32)).toInt = batchSize (first :: records)) .length
      readBody (first.offset % 2 ^ 64) (batchBody first.offset (BitVec.ofNat 64 first.timestamp) (first :: records))) := by
  have version : 2 % 2 ^ 8 = 2 := rfl
  have size := batchSize_eq first records
  have checksum : ∀ body : Bytes, (crc32c body).toNat % 2 ^ 32 = (crc32c body).toNat := fun body =>
    Nat.mod_eq_of_lt (crc32c body).toNat_lt
  have behind : (putBE 4 0 ++ (putBE 1 2 ++ (putBE 4 (crc32c (batchBody first.offset (BitVec.ofNat 64 first.timestamp)
      (first :: records))).toNat ++ batchBody first.offset (BitVec.ofNat 64 first.timestamp) (first :: records)))).length =
      batchSize (first :: records) := by
    simp only [length_append, putBE_length]
    omega
  rw [readBatch, fetchBatch, buildRecordBatchFromRecords, if_neg (cons_ne_nil _ _)]
  simp only [getU64_putU64, getU32_putU32, getU8_putU8, ok_bind, version, checksum, check_of, behind, ← size]

/-- **A batch of a size that fits is read by the rules**, with the deltas that were written. -/
theorem readBatch_fetchBatch {crc32c : Bytes → UInt32} {first : Record}
    (size : batchSize (first :: records) < 2 ^ 31) :
    readBatch crc32c (fetchBatch crc32c (first :: records)) =
      .ok ⟨BitVec.ofNat 64 first.offset, records.length, BitVec.ofNat 64 first.timestamp,
        (first :: records).map (asV2 first.offset (BitVec.ofNat 64 first.timestamp))⟩ := by
  obtain ⟨counted, parts⟩ := recordSize_sum first.offset (BitVec.ofNat 64 first.timestamp) (first :: records)
  have total : batchSize (first :: records) =
      49 + ((first :: records).map (recordSize first.offset (BitVec.ofNat 64 first.timestamp))).sum := rfl
  have short : ∀ r ∈ first :: records, recordSize first.offset (BitVec.ofNat 64 first.timestamp) r < 2 ^ 31 := by
    intro r inside
    have part := parts r inside
    omega
  have length : (BitVec.ofNat 32 (batchSize (first :: records) % 2 ^ 32)).toInt = batchSize (first :: records) := by
    rw [BitVec.toInt_ofNat', Int.bmod_eq_of_le] <;> omega
  have count : (first :: records).length % 2 ^ 32 = (first :: records).length := Nat.mod_eq_of_lt (by omega)
  have delta : (BitVec.ofNat 32 (((first :: records).length - 1) % 2 ^ 32)).toInt = records.length := by
    rw [length_cons] at counted ⊢
    rw [BitVec.toInt_ofNat', Int.bmod_eq_of_le] <;> omega
  rw [readBatch_header, check_of length, ok_bind, readBody, batchBody]
  simp only [getU64_putU64, getU32_putU32, getU16_putU16, ok_bind, count]
  have plain : CompressionType.fromAttributes (0 % 2 ^ 16) = .none := rfl
  rw [check_of plain, ok_bind, check_of (by omega), ok_bind, readRecords_encode short, ok_bind]
  dsimp only
  rw [check_of rfl, ok_bind, delta, ofNat_mod, ofNat_mod, BitVec.ofNat_toNat, BitVec.setWidth_eq]

/-- A batch that passes the check of its length has a size that fits. -/
theorem size_of_readBatch {crc32c : Bytes → UInt32} {first : Record} {batch : BatchV2}
    (read : readBatch crc32c (fetchBatch crc32c (first :: records)) = .ok batch) : batchSize (first :: records) < 2 ^ 31 := by
  rw [readBatch_header] at read
  obtain ⟨_, passed, _⟩ := bind_ok read
  have same := of_check passed
  have most := @BitVec.toInt_lt 32 (BitVec.ofNat 32 (batchSize (first :: records) % 2 ^ 32))
  omega

/-! ## Offsets and timestamps -/

/-- A word read as an `i64` is the number only below the sign bit. -/
theorem toInt_ofNat_eq_iff {n m : Nat} (word : n < 2 ^ 64) : (BitVec.ofNat 64 n).toInt = m ↔ n < 2 ^ 63 ∧ n = m := by
  have bits : (BitVec.ofNat 64 n).toNat = n := by rw [BitVec.toNat_ofNat, Nat.mod_eq_of_lt word]
  rw [BitVec.toInt_eq_toNat_cond, bits]
  split <;> omega

theorem offset_asV2 {first r : Record} {delta : Int} {timestamp : BitVec 64} (word : r.offset < 2 ^ 64) (after : first.offset ≤ r.offset) (near : r.offset < first.offset + 2 ^ 31) :
    offset ⟨BitVec.ofNat 64 first.offset, delta, timestamp, others⟩ (asV2 first.offset timestamp r) =
      (BitVec.ofNat 64 r.offset).toInt := by
  have wide : (offsetDelta first.offset r).signExtend 64 = BitVec.ofNat 64 r.offset - BitVec.ofNat 64 first.offset := by
    have bits : (BitVec.ofNat 64 r.offset - BitVec.ofNat 64 first.offset).toNat = r.offset - first.offset := by
      rw [BitVec.toNat_sub, BitVec.toNat_ofNat, BitVec.toNat_ofNat]
      omega
    have low : (offsetDelta first.offset r).toNat = r.offset - first.offset := by
      rw [offsetDelta, BitVec.toNat_setWidth, bits]
      omega
    have positive : (offsetDelta first.offset r).msb = false := by
      rw [BitVec.msb_eq_false_iff_two_mul_lt, low]
      omega
    rw [BitVec.signExtend_eq_setWidth_of_msb_false positive]
    apply BitVec.eq_of_toNat_eq
    rw [BitVec.toNat_setWidth, low, bits]
    omega
  rw [offset, asV2]
  dsimp only
  rw [← BitVec.signExtend, wide, BitVec.add_comm, BitVec.sub_add_cancel]

theorem timestamp_asV2 {offset : BitVec 64} {delta : Int} (r : Record) :
    timestamp ⟨offset, delta, baseTimestamp, others⟩ (asV2 baseOffset baseTimestamp r) =
      (BitVec.ofNat 64 r.timestamp).toInt := by
  rw [timestamp, asV2]
  dsimp only
  rw [BitVec.ofInt_toInt, timestampDelta, BitVec.add_comm, BitVec.sub_add_cancel]

theorem lastOffset_eq {offset : Nat} {timestamp : BitVec 64} {count : Nat} :
    lastOffset ⟨BitVec.ofNat 64 offset, count, timestamp, others⟩ = (BitVec.ofNat 64 (offset + count)).toInt := by
  rw [lastOffset]
  dsimp only
  rw [BitVec.ofInt_natCast, ← BitVec.ofNat_add]

/-- Increasing offsets end at the count at least, and there only without a gap. -/
theorem contiguous_of_last {first last : Record}
    (increasing : (first :: records).Pairwise fun r s => r.offset < s.offset)
    (ends : (first :: records).getLast? = some last) :
    first.offset + records.length ≤ last.offset ∧ (last.offset = first.offset + records.length →
      (first :: records).IsChain fun r next => next.offset = r.offset + 1) := by
  induction records generalizing first with
  | nil =>
    obtain rfl := Option.some.inj ends
    exact ⟨Nat.le_refl _, fun _ => List.IsChain.singleton first⟩
  | cons second records ih =>
    obtain ⟨above, later⟩ := pairwise_cons.mp increasing
    have step := above second mem_cons_self
    rw [getLast?_cons_cons] at ends
    obtain ⟨least, chained⟩ := ih later ends
    rw [length_cons]
    refine ⟨by omega, fun exactly => ?_⟩
    exact List.IsChain.cons_cons (by omega) (chained (by omega))

theorem between_ends {first last r : Record}
    (increasing : (first :: records).Pairwise fun r s => r.offset < s.offset)
    (ends : (first :: records).getLast? = some last) (inside : r ∈ first :: records) :
    first.offset ≤ r.offset ∧ r.offset ≤ last.offset := by
  constructor
  · obtain rfl | later := mem_cons.mp inside
    · exact Nat.le_refl _
    · exact Nat.le_of_lt ((pairwise_cons.mp increasing).1 r later)
  · obtain ⟨front, whole⟩ := getLast?_eq_some_iff.mp ends
    rw [whole] at increasing inside
    obtain before | same := mem_append.mp inside
    · exact Nat.le_of_lt ((List.pairwise_append.mp increasing).2.2 r before last mem_cons_self)
    · rw [mem_singleton.mp same]

theorem last_of_contiguous {first last : Record}
    (contiguous : (first :: records).IsChain fun r next => next.offset = r.offset + 1)
    (ends : (first :: records).getLast? = some last) : last.offset = first.offset + records.length := by
  induction records generalizing first with
  | nil =>
    obtain rfl := Option.some.inj ends
    rfl
  | cons second records ih =>
    obtain ⟨step, later⟩ := isChain_cons_cons.mp contiguous
    rw [getLast?_cons_cons] at ends
    rw [ih later ends, length_cons]
    omega

section

variable {crc32c : Bytes → UInt32} {decompress : CompressionType → Bytes → Except KafkaError Bytes} {first : Record}
 

/-- The batch as the rules read it. -/
def writtenBatch (first : Record) (records : List Record) : BatchV2 :=
  ⟨BitVec.ofNat 64 first.offset, records.length, BitVec.ofNat 64 first.timestamp,
    (first :: records).map (asV2 first.offset (BitVec.ofNat 64 first.timestamp))⟩

theorem parseRecordBatch_fetchBatch (size : batchSize (first :: records) < 2 ^ 31) :
    parseRecordBatch decompress (fetchBatch crc32c (first :: records)) = .ok ⟨-1, -1, -1, (first :: records).map asParsed⟩ := by
  obtain ⟨counted, parts⟩ := recordSize_sum first.offset (BitVec.ofNat 64 first.timestamp) (first :: records)
  have total : batchSize (first :: records) =
      49 + ((first :: records).map (recordSize first.offset (BitVec.ofNat 64 first.timestamp))).sum := rfl
  apply parseRecordBatch_build (cons_ne_nil _ _) (by omega)
  intro r inside
  have part := parts r inside
  have room : keySize r.key + r.value.length ≤ recordSize first.offset (BitVec.ofNat 64 first.timestamp) r := by
    rw [recordSize, prefixedSize, prefixedSize]
    omega
  constructor
  · intro k key
    rw [key, keySize, prefixedSize] at room
    omega
  · omega

theorem exists_last (first : Record) (records : List Record) : ∃ last, (first :: records).getLast? = some last :=
  ⟨_, getLast?_eq_some_getLast (cons_ne_nil _ _)⟩

/-- An agreeing batch leaves no gap, and its numbers are below the sign bit. -/
theorem Agrees.encodable {handled : RecordBatchMeta} (fits : ∀ r ∈ first :: records, r.Fits)
    (increasing : (first :: records).Pairwise fun r s => r.offset < s.offset) (size : batchSize (first :: records) < 2 ^ 31)
    (agrees : Agrees (writtenBatch first records) handled (first :: records)) : Encodable (first :: records) := by
  obtain ⟨last, ends⟩ := exists_last first records
  have lastInside : last ∈ first :: records := mem_of_getLast? ends
  obtain ⟨least, chained⟩ := contiguous_of_last increasing ends
  have lastWord := (fits last lastInside).offset
  have lastStated := agrees.lastOffset last ends
  rw [writtenBatch, lastOffset_eq, toInt_ofNat_eq_iff (by omega)] at lastStated
  refine ⟨chained lastStated.2.symm, fun r inside => ?_, fun r inside => ?_, size⟩
  · have most := (between_ends increasing ends inside).2
    omega
  · have stamps := agrees.timestamps
    simp only [writtenBatch, map_map] at stamps
    have here := map_inj_left.mp stamps r inside
    rw [Function.comp_apply, timestamp_asV2] at here
    exact ((toInt_ofNat_eq_iff (fits r inside).timestamp).mp here).1

theorem Encodable.agrees (fits : ∀ r ∈ first :: records, r.Fits)
    (increasing : (first :: records).Pairwise fun r s => r.offset < s.offset) (encodable : Encodable (first :: records)) :
    Agrees (writtenBatch first records) ⟨-1, -1, -1, (first :: records).map asParsed⟩ (first :: records) where
  offsets := by
    obtain ⟨last, ends⟩ := exists_last first records
    have exactly := last_of_contiguous encodable.contiguous ends
    have counted := (recordSize_sum first.offset (BitVec.ofNat 64 first.timestamp) (first :: records)).1
    have size := encodable.size
    rw [batchSize] at size
    rw [length_cons] at counted
    rw [writtenBatch, map_map]
    apply map_congr_left
    intro r inside
    obtain ⟨least, most⟩ := between_ends increasing ends inside
    rw [Function.comp_apply, offset_asV2 (fits r inside).offset least (by omega), toInt_ofNat_eq_iff (fits r inside).offset]
    exact ⟨encodable.offsets r inside, rfl⟩
  lastOffset := by
    intro last ends
    have exactly := last_of_contiguous encodable.contiguous ends
    have low := encodable.offsets last (mem_of_getLast? ends)
    rw [writtenBatch, lastOffset_eq, toInt_ofNat_eq_iff (by omega)]
    omega
  timestamps := by
    rw [writtenBatch, map_map]
    apply map_congr_left
    intro r inside
    rw [Function.comp_apply, timestamp_asV2, toInt_ofNat_eq_iff (fits r inside).timestamp]
    exact ⟨encodable.timestamps r inside, rfl⟩
  keys := by
    rw [writtenBatch, map_map]
    rfl
  values := by
    rw [writtenBatch, map_map]
    rfl
  handled := by
    rw [map_map]
    rfl

/-- **When a fetch batch is faithful**: `last_offset_delta` is computed from the number of
records, so a gap is enough to make it wrong. -/
theorem fetch_batch_faithful_iff (crc32c : Bytes → UInt32)
    (decompress : CompressionType → Bytes → Except KafkaError Bytes) (records : List Record) (nonempty : records ≠ [])
    (fits : ∀ r ∈ records, r.Fits) (increasing : records.Pairwise fun r s => r.offset < s.offset) :
    Faithful crc32c decompress records ↔ Encodable records := by
  obtain ⟨first, records, rfl⟩ := exists_cons_of_ne_nil nonempty
  constructor
  · rintro ⟨batch, handled, read, parsed, agrees⟩
    have size := size_of_readBatch read
    rw [readBatch_fetchBatch size] at read
    rw [← Except.ok.inj read] at agrees
    exact Agrees.encodable fits increasing size agrees
  · intro encodable
    exact ⟨_, _, readBatch_fetchBatch encodable.size, parseRecordBatch_fetchBatch encodable.size,
      encodable.agrees fits increasing⟩

end

/-- Two consecutive records, the second older than the first and without a key. -/
theorem fetch_batch_faithful_two :
    Faithful (fun _ => 0) (fun _ data => .ok data) [⟨5, 900, some [1], [7]⟩, ⟨6, 300, none, []⟩] := by
  apply (fetch_batch_faithful_iff _ _ _ (cons_ne_nil _ _) ?_ (by decide)).mpr
  · exact ⟨by decide, by decide, by decide, by decide⟩
  · intro r inside
    obtain rfl | rfl : r = ⟨5, 900, some [1], [7]⟩ ∨ r = ⟨6, 300, none, []⟩ := by simpa using inside
    · exact ⟨by decide, by decide, by simp, by decide⟩
    · exact ⟨by decide, by decide, by simp, by decide⟩

/-- Compaction has left a gap: the batch of offsets 5 and 7 ends at 6. -/
theorem fetch_batch_gap :
    ¬ ∀ (crc32c : Bytes → UInt32) (decompress : CompressionType → Bytes → Except KafkaError Bytes) (records : List Record),
      records ≠ [] → (∀ r ∈ records, r.Fits) → (records.Pairwise fun r s => r.offset < s.offset) →
        Faithful crc32c decompress records := by
  intro always
  have faithful := always (fun _ => 0) (fun _ data => .ok data) [⟨5, 900, none, [7]⟩, ⟨7, 901, none, [8]⟩] (cons_ne_nil _ _) ?_
    (by decide)
  · obtain ⟨batch, handled, read, -, agrees⟩ := faithful
    rw [readBatch_fetchBatch (by decide)] at read
    have stated := agrees.lastOffset ⟨7, 901, none, [8]⟩ rfl
    rw [← Except.ok.inj read] at stated
    revert stated
    decide
  · intro r inside
    obtain rfl | rfl : r = ⟨5, 900, none, [7]⟩ ∨ r = ⟨7, 901, none, [8]⟩ := by simpa using inside
    · exact ⟨by decide, by decide, by simp, by decide⟩
    · exact ⟨by decide, by decide, by simp, by decide⟩

end StreamHouse.Kafka
