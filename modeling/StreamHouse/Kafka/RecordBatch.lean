import StreamHouse.Core.Varint
import StreamHouse.Kafka.Codec

/-!
# Record batches

The batch that `fetch.rs` writes and the one that `produce.rs` reads. A batch is a header
of 61 bytes and its records; a record is a varint length and fields of varint length. An
`i64` is a `BitVec 64`, and so are the offsets and timestamps of a stored record once
they are cast. What the `crc32c` package and the decompressors compute is a parameter.
Reading past the end of the buffer panics.
-/

namespace StreamHouse.Kafka
open Lib Varint List

/-! ## Writing -/

/-- A length and the bytes, as key and value are written. -/
def lengthPrefixed (bytes : Bytes) : Bytes := encodeVarint (BitVec.ofNat 64 bytes.length) ++ bytes

def nullableBytes : Option Bytes → Bytes
  | some bytes => lengthPrefixed bytes
  | none => encodeVarint (-1)

/-- The `record` of `encode_record_with_deltas`: attributes, deltas, key, value, no headers. -/
def recordContent (offsetDelta : BitVec 32) (timestampDelta : BitVec 64) (key : Option Bytes) (value : Bytes) : Bytes :=
  putBE 1 0 ++ (encodeVarint timestampDelta ++ (encodeVarint (offsetDelta.signExtend 64) ++
    (nullableBytes key ++ (lengthPrefixed value ++ encodeVarint 0))))

/-- `encode_record_with_deltas`. Its `encode_varint` writes the bytes of the one in `streamhouse-core`. -/
def encodeRecordWithDeltas (offsetDelta : BitVec 32) (timestampDelta : BitVec 64) (key : Option Bytes) (value : Bytes) :
    Bytes :=
  lengthPrefixed (recordContent offsetDelta timestampDelta key value)

/-- `(record.offset - base_offset) as i32`. -/
def offsetDelta (baseOffset : Nat) (record : Record) : BitVec 32 :=
  (BitVec.ofNat 64 record.offset - BitVec.ofNat 64 baseOffset).setWidth 32

/-- `(record.timestamp as i64) - base_timestamp`. -/
def timestampDelta (baseTimestamp : BitVec 64) (record : Record) : BitVec 64 :=
  BitVec.ofNat 64 record.timestamp - baseTimestamp

def encodeRecord (baseOffset : Nat) (baseTimestamp : BitVec 64) (record : Record) : Bytes :=
  encodeRecordWithDeltas (offsetDelta baseOffset record) (timestampDelta baseTimestamp record) record.key record.value

/-- The greatest timestamp of a batch, as signed integers. -/
def maxTimestamp (baseTimestamp : BitVec 64) : List Record → BitVec 64
  | [] => baseTimestamp
  | record :: records =>
    records.foldl (fun most r => if most.toInt ≤ (BitVec.ofNat 64 r.timestamp).toInt then BitVec.ofNat 64 r.timestamp else most)
      (BitVec.ofNat 64 record.timestamp)

/-- What the checksum is taken over: attributes, last offset delta, first and greatest
timestamp, producer id, producer epoch, base sequence, record count, the records. -/
def batchBody (baseOffset : Nat) (baseTimestamp : BitVec 64) (records : List Record) : Bytes :=
  putBE 2 0 ++ (putBE 4 (records.length - 1) ++ (putBE 8 baseTimestamp.toNat ++
    (putBE 8 (maxTimestamp baseTimestamp records).toNat ++ (putBE 8 (-1 : BitVec 64).toNat ++ (putBE 2 (-1 : BitVec 16).toNat ++
      (putBE 4 (-1 : BitVec 32).toNat ++ (putBE 4 records.length ++
        (records.map (encodeRecord baseOffset baseTimestamp)).flatten)))))))

/-- `build_record_batch_from_records`. The length, patched in at the end, leaves out
itself and the base offset. -/
def buildRecordBatchFromRecords (crc32c : Bytes → UInt32) (baseOffset : Nat) (baseTimestamp : BitVec 64)
    (records : List Record) : Bytes :=
  if records = [] then []
  else
    let body := batchBody baseOffset baseTimestamp records
    putBE 8 baseOffset ++ (putBE 4 (9 + body.length) ++ (putBE 4 0 ++ (putBE 1 2 ++ (putBE 4 (crc32c body).toNat ++ body))))

/-- The end of `read_records`: the first record gives the base offset and timestamp. -/
def fetchBatch (crc32c : Bytes → UInt32) : List Record → Bytes
  | [] => []
  | first :: records =>
    buildRecordBatchFromRecords crc32c first.offset (BitVec.ofNat 64 first.timestamp) (first :: records)

/-! ## Reading -/

inductive CompressionType where
  | none
  | gzip
  | snappy
  | lz4
  | zstd
deriving DecidableEq

/-- `CompressionType::from_attributes`. -/
def CompressionType.fromAttributes (attributes : Nat) : CompressionType :=
  match attributes &&& 0x07 with
  | 0 => .none
  | 1 => .gzip
  | 2 => .snappy
  | 3 => .lz4
  | 4 => .zstd
  | _ => .none

structure ParsedRecord where
  key : Option Bytes
  value : Bytes
  headers : List (Bytes × Bytes)

structure RecordBatchMeta where
  producerId : BitVec 64
  producerEpoch : BitVec 16
  baseSequence : BitVec 32
  records : List ParsedRecord

def bufferTooShort : KafkaError := .protocol "Buffer too short for varint"

def varintTooLong : KafkaError := .protocol "Varint too long"

/-- The loop of `parse_varint`, over the bits of `result`. -/
def parseVarintLoop (result shift : Nat) : Bytes → Except KafkaError (Nat × Bytes)
  | [] => .error bufferTooShort
  | byte :: rest =>
    let result := result ||| ((byte.toNat &&& 0x7F) <<< shift) % 2 ^ 64
    if byte.toNat &&& 0x80 = 0 then .ok (result, rest)
    else if shift + 7 ≥ 64 then .error varintTooLong
    else parseVarintLoop result (shift + 7) rest

/-- `(result >> 1) ^ -(result & 1)`: the shift of an `i64` extends the sign. -/
def zigZagDecode (result : BitVec 64) : BitVec 64 := result.sshiftRight 1 ^^^ -(result &&& 1)

/-- `parse_varint`. -/
def parseVarint (buf : Bytes) : Outcome KafkaError (BitVec 64 × Bytes) :=
  Outcome.of ((parseVarintLoop 0 0 buf).map fun (result, rest) => (zigZagDecode (BitVec.ofNat 64 result), rest))

/-- Where `String::from_utf8` stops: the length of the valid part, and how many bytes are
wrong there if the string does not just end. -/
def utf8Error (validUpTo : Nat) : Bytes → Option (Nat × Option Nat)
  | [] => none
  | a :: rest =>
    let tail (b : UInt8) := 0x80 ≤ b ∧ b ≤ 0xBF
    let second (b : UInt8) :=
      if a = 0xE0 then 0xA0 ≤ b ∧ b ≤ 0xBF
      else if a = 0xED then 0x80 ≤ b ∧ b ≤ 0x9F
      else if a = 0xF0 then 0x90 ≤ b ∧ b ≤ 0xBF
      else if a = 0xF4 then 0x80 ≤ b ∧ b ≤ 0x8F
      else tail b
    if a ≤ 0x7F then utf8Error (validUpTo + 1) rest
    else if a < 0xC2 ∨ 0xF4 < a then some (validUpTo, some 1)
    else
      match rest with
      | [] => some (validUpTo, none)
      | b :: rest =>
        if ¬ second b then some (validUpTo, some 1)
        else if a ≤ 0xDF then utf8Error (validUpTo + 2) rest
        else
          match rest with
          | [] => some (validUpTo, none)
          | c :: rest =>
            if ¬ tail c then some (validUpTo, some 2)
            else if a ≤ 0xEF then utf8Error (validUpTo + 3) rest
            else
              match rest with
              | [] => some (validUpTo, none)
              | d :: rest => if ¬ tail d then some (validUpTo, some 3) else utf8Error (validUpTo + 4) rest

/-- `format!("Invalid header key: {}", e)`. -/
def invalidHeaderKey (validUpTo : Nat) (errorLen : Option Nat) : KafkaError :=
  .protocol <| "Invalid header key: " ++
    match errorLen with
    | some n => "invalid utf-8 sequence of " ++ toString n ++ " bytes from index " ++ toString validUpTo
    | none => "incomplete utf-8 byte sequence from index " ++ toString validUpTo

def fromUtf8 (bytes : Bytes) : Outcome KafkaError Bytes :=
  match utf8Error 0 bytes with
  | none => .ok bytes
  | some (validUpTo, errorLen) => .error (.error (invalidHeaderKey validUpTo errorLen))

/-- `buf.split_to(length as usize)`. -/
def splitTo (length : BitVec 64) (buf : Bytes) : Outcome KafkaError (Bytes × Bytes) := copyToSlice length.toNat buf

/-- The headers of a record, `count` of them. -/
def parseHeaders : (count : Nat) → Bytes → Outcome KafkaError (List (Bytes × Bytes) × Bytes)
  | 0, buf => .ok ([], buf)
  | count + 1, buf => do
    let (keyLen, buf) ← parseVarint buf
    let (key, buf) ← splitTo keyLen buf
    let key ← fromUtf8 key
    let (valueLen, buf) ← parseVarint buf
    let (value, buf) ← if 0 ≤ valueLen.toInt then splitTo valueLen buf else .ok ([], buf)
    let (headers, buf) ← parseHeaders count buf
    .ok ((key, value) :: headers, buf)

/-- The key of `parse_record`: a negative length is no key. -/
def parseKey (buf : Bytes) : Outcome KafkaError (Option Bytes × Bytes) := do
  let (keyLength, buf) ← parseVarint buf
  if 0 ≤ keyLength.toInt then (splitTo keyLength buf).map fun (key, buf) => (some key, buf) else .ok (none, buf)

/-- The value of `parse_record`: a negative length is an empty value. -/
def parseValue (buf : Bytes) : Outcome KafkaError (Bytes × Bytes) := do
  let (valueLength, buf) ← parseVarint buf
  if 0 ≤ valueLength.toInt then splitTo valueLength buf else .ok ([], buf)

/-- `parse_record`. -/
def parseRecord (buf : Bytes) : Outcome KafkaError (ParsedRecord × Bytes) := do
  let (_, buf) ← parseVarint buf
  let (_, buf) ← getBE 1 buf
  let (_, buf) ← parseVarint buf
  let (_, buf) ← parseVarint buf
  let (key, buf) ← parseKey buf
  let (value, buf) ← parseValue buf
  let (headerCount, buf) ← parseVarint buf
  let (headers, buf) ← parseHeaders headerCount.toInt.toNat buf
  .ok (⟨key, value, headers⟩, buf)

/-- The loop of `parse_record_batch`. -/
def parseRecords : (count : Nat) → Bytes → Outcome KafkaError (List ParsedRecord)
  | 0, _ => .ok []
  | count + 1, buf => do
    let (record, buf) ← parseRecord buf
    let records ← parseRecords count buf
    .ok (record :: records)

/-- The text of an `i8`. -/
def unsupportedMagic (magic : Nat) : KafkaError :=
  .protocol ("Unsupported magic byte: " ++ toString (BitVec.ofNat 8 magic).toInt)

/-- `parse_record_batch`. `Vec::with_capacity` panics on the `usize` of a negative count. -/
def parseRecordBatch (decompress : CompressionType → Bytes → Except KafkaError Bytes) (data : Bytes) :
    Outcome KafkaError RecordBatchMeta :=
  if data.length < 61 then .error (.error (.protocol "RecordBatch too short"))
  else do
    let (_, buf) ← getBE 8 data
    let (_, buf) ← getBE 4 buf
    let (_, buf) ← getBE 4 buf
    let (magic, buf) ← getBE 1 buf
    if magic ≠ 2 then .error (.error (unsupportedMagic magic))
    else
      let (_, buf) ← getBE 4 buf
      let (attributes, buf) ← getBE 2 buf
      let (_, buf) ← getBE 4 buf
      let (_, buf) ← getBE 8 buf
      let (_, buf) ← getBE 8 buf
      let (producerId, buf) ← getBE 8 buf
      let (producerEpoch, buf) ← getBE 2 buf
      let (baseSequence, buf) ← getBE 4 buf
      let (recordCount, buf) ← getBE 4 buf
      let compression := CompressionType.fromAttributes attributes
      let recordData ← if compression ≠ .none then Outcome.of (decompress compression buf) else .ok buf
      if 2 ^ 31 ≤ recordCount then .error .panicked
      else
        let records ← parseRecords recordCount recordData
        .ok ⟨BitVec.ofNat 64 producerId, BitVec.ofNat 16 producerEpoch, BitVec.ofNat 32 baseSequence, records⟩

/-! ## What is written is read back -/

/-- The two loops differ in their error texts alone. -/
theorem parseVarintLoop_of_decodeLoop {result shift : Nat} {buf : Bytes} {found : Nat × Bytes}
    (read : decodeLoop result shift buf = .ok found) : parseVarintLoop result shift buf = .ok found := by
  induction buf generalizing result shift with
  | nil => cases read
  | cons byte buf ih =>
    rw [decodeLoop] at read
    rw [parseVarintLoop]
    split at read
    · next last =>
      rw [if_pos last, Except.ok.inj read]
    · next more =>
      rw [if_neg more]
      split at read
      · cases read
      · next room =>
        rw [if_neg room]
        exact ih read

theorem parseVarint_encode (value : BitVec 64) (rest : Bytes) :
    parseVarint (encodeVarint value ++ rest) = .ok (zigZagDecode (zigZag value), rest) := by
  have read := parseVarintLoop_of_decodeLoop (decodeVarintU64_encode (zigZag value).isLt rest)
  rw [← encodeVarint] at read
  rw [parseVarint, read]
  simp [Except.map]

/-- The decoder is the inverse of the zig-zag map as long as the sign bit is not in use. -/
theorem zigZagDecode_of_msb {unsigned : BitVec 64} (top : unsigned.msb = false) :
    zigZagDecode unsigned = unZigZag unsigned := by
  unfold zigZagDecode unZigZag
  dsimp only
  rw [BitVec.sshiftRight_eq_of_msb_false top]
  split
  · next odd =>
    have one : unsigned &&& 1 = 1 := by
      change unsigned &&& 1#64 ≠ 0#64 at odd
      show unsigned &&& 1#64 = 1#64
      rw [BitVec.and_one_eq_setWidth_ofBool_getLsbD] at odd ⊢
      cases bit : unsigned.getLsbD 0 with
      | false =>
        rw [bit] at odd
        exact absurd rfl odd
      | true => rfl
    rw [one]
    exact BitVec.xor_allOnes
  · next even =>
    rw [not_not.mp even]
    exact BitVec.xor_zero

theorem zigZagDecode_length {n : Nat} (short : n < 2 ^ 62) :
    zigZagDecode (zigZag (BitVec.ofNat 64 n)) = BitVec.ofNat 64 n := by
  have top : (zigZag (BitVec.ofNat 64 n)).msb = false := by
    have low : ∀ i, 62 ≤ i → (BitVec.ofNat 64 n).getLsbD i = false := by
      intro i high
      rw [BitVec.getLsbD_ofNat, Nat.testBit_lt_two_pow (Nat.lt_of_lt_of_le short (Nat.pow_le_pow_right (by decide) high))]
      exact Bool.and_false _
    rw [BitVec.msb_eq_getLsbD_last, zigZag_getLsbD _ (by decide), BitVec.msb_eq_getLsbD_last, low 63 (by decide),
      low (64 - 1 - 1) (by decide)]
    rfl
  rw [zigZagDecode_of_msb top, unZigZag_zigZag]

theorem splitTo_append {bytes : Bytes} (short : bytes.length < 2 ^ 62) (rest : Bytes) :
    splitTo (BitVec.ofNat 64 bytes.length) (bytes ++ rest) = .ok (bytes, rest) := by
  apply copyToSlice_append
  rw [BitVec.toNat_ofNat, Nat.mod_eq_of_lt (by omega)]

theorem length_nonneg {n : Nat} (short : n < 2 ^ 62) : 0 ≤ (BitVec.ofNat 64 n).toInt := by
  rw [BitVec.toInt_ofNat', Int.bmod_eq_of_le] <;> omega

theorem parseKey_nullableBytes {key : Option Bytes} (short : ∀ k, key = some k → k.length < 2 ^ 62) (rest : Bytes) :
    parseKey (nullableBytes key ++ rest) = .ok (key, rest) := by
  unfold parseKey
  cases key with
  | none =>
    rw [nullableBytes, parseVarint_encode]
    rfl
  | some k =>
    have fits := short k rfl
    rw [nullableBytes, lengthPrefixed, append_assoc, parseVarint_encode, zigZagDecode_length fits, ok_bind]
    dsimp only
    rw [if_pos (length_nonneg fits), splitTo_append fits]
    rfl

theorem parseValue_lengthPrefixed {value : Bytes} (short : value.length < 2 ^ 62) (rest : Bytes) :
    parseValue (lengthPrefixed value ++ rest) = .ok (value, rest) := by
  rw [parseValue, lengthPrefixed, append_assoc, parseVarint_encode, zigZagDecode_length short, ok_bind]
  dsimp only
  rw [if_pos (length_nonneg short), splitTo_append short]

/-- The produce handler has no null value: it gets an empty one. -/
theorem parseValue_nullableBytes {value : Option Bytes} (short : ∀ v, value = some v → v.length < 2 ^ 62) (rest : Bytes) :
    parseValue (nullableBytes value ++ rest) = .ok (value.getD [], rest) := by
  cases value with
  | none =>
    rw [nullableBytes, parseValue, parseVarint_encode]
    rfl
  | some v => exact parseValue_lengthPrefixed (short v rfl) rest

/-- A record as the format has it, without headers: key and value may both be null. -/
def formatRecord (offsetDelta timestampDelta : BitVec 64) (key value : Option Bytes) : Bytes :=
  lengthPrefixed (putBE 1 0 ++ (encodeVarint timestampDelta ++ (encodeVarint offsetDelta ++
    (nullableBytes key ++ (nullableBytes value ++ encodeVarint 0)))))

/-- A record is read back with its key and value, whatever its deltas. -/
theorem parseRecord_formatRecord {offsetDelta timestampDelta : BitVec 64} {key value : Option Bytes}
    (keyFits : ∀ k, key = some k → k.length < 2 ^ 62) (valueFits : ∀ v, value = some v → v.length < 2 ^ 62) (rest : Bytes) :
    parseRecord (formatRecord offsetDelta timestampDelta key value ++ rest) = .ok (⟨key, value.getD [], []⟩, rest) := by
  simp only [parseRecord, formatRecord, lengthPrefixed, append_assoc, parseVarint_encode, getU8_putU8, ok_bind]
  rw [parseKey_nullableBytes keyFits, ok_bind]
  dsimp only
  rw [parseValue_nullableBytes valueFits, ok_bind]
  dsimp only
  rw [parseVarint_encode, ok_bind]
  rfl

theorem parseRecord_encode {offsetDelta : BitVec 32} {timestampDelta : BitVec 64} {key : Option Bytes} {value : Bytes}
    (keyFits : ∀ k, key = some k → k.length < 2 ^ 62) (valueFits : value.length < 2 ^ 62) (rest : Bytes) :
    parseRecord (encodeRecordWithDeltas offsetDelta timestampDelta key value ++ rest) = .ok (⟨key, value, []⟩, rest) := by
  have same : encodeRecordWithDeltas offsetDelta timestampDelta key value =
      formatRecord (offsetDelta.signExtend 64) timestampDelta key (some value) := rfl
  rw [same, parseRecord_formatRecord keyFits (fun v present => Option.some.inj present ▸ valueFits)]
  rfl

/-- Key and value short enough for every length on the way. -/
structure Short (record : Record) : Prop where
  key : ∀ k, record.key = some k → k.length < 2 ^ 62
  value : record.value.length < 2 ^ 62

/-- A stored record as the produce handler gets it. -/
def asParsed (record : Record) : ParsedRecord := ⟨record.key, record.value, []⟩

variable {baseOffset : Nat} {baseTimestamp : BitVec 64} {records : List Record}

theorem parseRecords_encode (short : ∀ r ∈ records, Short r) :
    parseRecords records.length (records.map (encodeRecord baseOffset baseTimestamp)).flatten = .ok (records.map asParsed) := by
  induction records with
  | nil => rfl
  | cons record records ih =>
    have here := short record mem_cons_self
    have later := ih fun r inside => short r (mem_cons_of_mem record inside)
    rw [map_cons, flatten_cons, length_cons, parseRecords, encodeRecord,
      parseRecord_encode here.key here.value, ok_bind]
    dsimp only
    rw [later]
    rfl

theorem buildRecordBatch_length {crc32c : Bytes → UInt32} (nonempty : records ≠ []) :
    (buildRecordBatchFromRecords crc32c baseOffset baseTimestamp records).length =
      21 + (batchBody baseOffset baseTimestamp records).length := by
  rw [buildRecordBatchFromRecords, if_neg nonempty]
  simp only [length_append, putBE_length]
  omega

theorem batchBody_length (baseOffset : Nat) (baseTimestamp : BitVec 64) (records : List Record) :
    (batchBody baseOffset baseTimestamp records).length =
      40 + (records.map (encodeRecord baseOffset baseTimestamp)).flatten.length := by
  simp only [batchBody, length_append, putBE_length]
  omega

/-- `parse_record_batch` accepts what `build_record_batch_from_records` writes. -/
theorem parseRecordBatch_build {crc32c : Bytes → UInt32} {decompress : CompressionType → Bytes → Except KafkaError Bytes}
    (nonempty : records ≠ [])
    (count : records.length < 2 ^ 31) (short : ∀ r ∈ records, Short r) :
    parseRecordBatch decompress (buildRecordBatchFromRecords crc32c baseOffset baseTimestamp records) =
      .ok ⟨-1, -1, -1, records.map asParsed⟩ := by
  have long : ¬ (buildRecordBatchFromRecords crc32c baseOffset baseTimestamp records).length < 61 := by
    rw [buildRecordBatch_length nonempty, batchBody_length]
    omega
  rw [parseRecordBatch, if_neg long, buildRecordBatchFromRecords, if_neg nonempty]
  simp only [getU64_putU64, getU32_putU32, getU16_putU16, getU8_putU8, ok_bind, batchBody]
  have version : ¬ 2 % 2 ^ 8 ≠ 2 := not_not.mpr rfl
  have plain : ¬ CompressionType.fromAttributes (0 % 2 ^ 16) ≠ CompressionType.none := not_not.mpr rfl
  have whole : records.length % 2 ^ 32 = records.length := Nat.mod_eq_of_lt (by omega)
  have positive : ¬ 2 ^ 31 ≤ records.length := by omega
  rw [if_neg version, if_neg plain, whole, if_neg positive, parseRecords_encode short]
  rfl

end StreamHouse.Kafka
