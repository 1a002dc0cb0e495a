import StreamHouse.Kafka.RecordBatch
import StreamHouse.Lib.Totality

/-!
# Record batches of any bytes

`parse_record_batch` compares the length of its input once, with that of the header.
Behind it an attribute byte is read and keys, values and headers are split off by the
lengths in front of them, whatever the buffer holds; and as many records are reserved
as the header announces. `parsesSafely_iff` says which batches are parsed without harm.
-/

namespace StreamHouse.Kafka
open Lib CompressionType

/-! ## What a batch must hold -/

/-- A length that is not negative is within what follows it. -/
def LengthInside (buf : Bytes) : Prop :=
  ∀ length rest, parseVarint buf = .ok (length, rest) → 0 ≤ length.toInt → length.toNat ≤ rest.length

/-- The length of a header's key is within what follows it; as a `usize` a negative one is not. -/
def KeyLengthInside (buf : Bytes) : Prop :=
  ∀ length rest, parseVarint buf = .ok (length, rest) → length.toNat ≤ rest.length

/-- The key of a header. -/
def parseHeaderKey (buf : Bytes) : Outcome KafkaError (Bytes × Bytes) := do
  let (keyLen, buf) ← parseVarint buf
  let (key, buf) ← splitTo keyLen buf
  let key ← fromUtf8 key
  .ok (key, buf)

/-- The headers of a record, as far as the parser comes. -/
def HeadersInside : (count : Nat) → Bytes → Prop
  | 0, _ => True
  | count + 1, buf => KeyLengthInside buf ∧ ∀ key afterKey, parseHeaderKey buf = .ok (key, afterKey) →
      LengthInside afterKey ∧ ∀ value rest, parseValue afterKey = .ok (value, rest) → HeadersInside count rest

/-- The parser behind the two deltas. -/
def toKey (buf : Bytes) : Outcome KafkaError Bytes := do
  let (_, buf) ← parseVarint buf
  let (_, buf) ← getBE 1 buf
  let (_, buf) ← parseVarint buf
  let (_, buf) ← parseVarint buf
  .ok buf

/-- The parser behind the key. -/
def toValue (buf : Bytes) : Outcome KafkaError Bytes := do
  let buf ← toKey buf
  let (_, buf) ← parseKey buf
  .ok buf

/-- The parser behind the count of the headers. -/
def toHeaders (buf : Bytes) : Outcome KafkaError (BitVec 64 × Bytes) := do
  let buf ← toValue buf
  let (_, buf) ← parseValue buf
  parseVarint buf

/-- Behind its length a record has its attributes, and each length in it that the parser
comes to is covered. -/
structure RecordInside (buf : Bytes) : Prop where
  attributes : ∀ length rest, parseVarint buf = .ok (length, rest) → rest ≠ []
  key : ∀ rest, toKey buf = .ok rest → LengthInside rest
  value : ∀ rest, toValue buf = .ok rest → LengthInside rest
  headers : ∀ count rest, toHeaders buf = .ok (count, rest) → HeadersInside count.toInt.toNat rest

/-- The records, as far as the parser comes. -/
def RecordsInside : (count : Nat) → Bytes → Prop
  | 0, _ => True
  | count + 1, buf => RecordInside buf ∧ ∀ record rest, parseRecord buf = .ok (record, rest) → RecordsInside count rest

/-- A record has a length, attributes, two deltas, the lengths of key and value, and the count of its headers. -/
def minRecordBytes : Nat := 7

section

variable (decompress : CompressionType → Bytes → Except KafkaError Bytes) (data : Bytes)

/-- `record_count`, read as unsigned. -/
def recordCount : Nat := numberAt data 57 4

/-- `record_data`: what is behind the header, decompressed if the attributes say so. -/
def recordData : Except KafkaError Bytes :=
  let compression := fromAttributes (numberAt data 21 2)
  if compression ≠ .none then decompress compression (data.drop 61) else .ok (data.drop 61)

/-- The batch comes to its records: a header with magic 2, and data that can be decompressed. -/
def ComesToRecords (records : Bytes) : Prop :=
  61 ≤ data.length ∧ numberAt data 16 1 = 2 ∧ recordData decompress data = .ok records

/-- The batch is parsed to an end, and the records it reserves would fit into the bytes there are. -/
structure ParsesSafely : Prop where
  total : Total (parseRecordBatch decompress data)
  reserves : ∀ records, ComesToRecords decompress data records → i32AsUsize (recordCount data) * minRecordBytes ≤ records.length

end

/-! ## One record -/

@[simp] theorem total_parseVarint (buf : Bytes) : Total (parseVarint buf) := total_of _

@[simp] theorem total_fromUtf8 (bytes : Bytes) : Total (fromUtf8 bytes) := by
  unfold fromUtf8
  split
  · exact total_ok bytes
  · exact total_error _

variable {buf : Bytes}

theorem total_splitTo {length : BitVec 64} : Total (splitTo length buf) ↔ length.toNat ≤ buf.length := by
  unfold splitTo copyToSlice
  split
  · next enough => exact iff_of_true (total_ok _) enough
  · next few => exact iff_of_false not_total_panicked few

theorem total_splitTo_if {length : BitVec 64} :
    Total (if 0 ≤ length.toInt then splitTo length buf else .ok ([], buf)) ↔ (0 ≤ length.toInt → length.toNat ≤ buf.length) := by
  split
  · next positive => rw [total_splitTo, forall_prop_of_true positive]
  · next negative => exact iff_of_true (total_ok _) fun positive => absurd positive negative

theorem total_parseKey : Total (parseKey buf) ↔ LengthInside buf := by
  simp only [parseKey, total_bind, total_parseVarint, true_and, Prod.forall, LengthInside]
  refine forall_congr' fun length => forall_congr' fun rest => forall_congr' fun _ => ?_
  split
  · next positive => rw [total_map, total_splitTo, forall_prop_of_true positive]
  · next negative => exact iff_of_true (total_ok _) fun positive => absurd positive negative

theorem total_parseValue : Total (parseValue buf) ↔ LengthInside buf := by
  simp only [parseValue, total_bind, total_parseVarint, true_and, Prod.forall, total_splitTo_if]
  exact Iff.rfl

theorem total_parseHeaderKey : Total (parseHeaderKey buf) ↔ KeyLengthInside buf := by
  simp only [parseHeaderKey, total_bind, total_parseVarint, true_and, Prod.forall, total_splitTo, total_fromUtf8, total_ok,
    implies_true, and_true]
  exact Iff.rfl

/-- A header is a key and a value. -/
theorem parseHeaders_succ (count : Nat) (buf : Bytes) :
    parseHeaders (count + 1) buf = (do
      let (key, buf) ← parseHeaderKey buf
      let (value, buf) ← parseValue buf
      let (headers, buf) ← parseHeaders count buf
      .ok ((key, value) :: headers, buf)) := by
  rw [parseHeaders, parseHeaderKey]
  cases parseVarint buf with
  | error fault => rfl
  | ok read =>
    cases keyRead : splitTo read.1 read.2 with
    | error fault =>
      simp only [ok_bind, keyRead]
      rfl
    | ok split =>
      cases text : fromUtf8 split.1 with
      | error fault =>
        simp only [ok_bind, keyRead, text]
        rfl
      | ok key =>
        simp only [ok_bind, keyRead, text, parseValue, bind_assoc]
        cases parseVarint split.2 with
        | error fault => rfl
        | ok valueRead =>
          simp only [ok_bind]
          split <;> rfl

theorem total_parseHeaders {count : Nat} : Total (parseHeaders count buf) ↔ HeadersInside count buf := by
  induction count generalizing buf with
  | zero => exact iff_of_true (total_ok _) trivial
  | succ count ih =>
    rw [parseHeaders_succ]
    simp only [total_bind, total_parseHeaderKey, total_parseValue, Prod.forall, ih, total_ok, implies_true, and_true, HeadersInside]

theorem parseRecord_eq (buf : Bytes) :
    parseRecord buf = (do
      let buf ← toKey buf
      let (key, buf) ← parseKey buf
      let (value, buf) ← parseValue buf
      let (headerCount, buf) ← parseVarint buf
      let (headers, buf) ← parseHeaders headerCount.toInt.toNat buf
      .ok (⟨key, value, headers⟩, buf)) := by
  simp only [parseRecord, toKey, bind_assoc, ok_bind]

theorem total_toKey : Total (toKey buf) ↔ ∀ length rest, parseVarint buf = .ok (length, rest) → rest ≠ [] := by
  simp only [toKey, total_bind, total_parseVarint, true_and, Prod.forall, total_ok, implies_true, and_true, total_getBE,
    ← List.length_pos_iff]
  exact Iff.rfl

/-- **A record is parsed to an end** exactly if its attributes are there and its lengths are covered. -/
theorem total_parseRecord : Total (parseRecord buf) ↔ RecordInside buf := by
  rw [parseRecord_eq]
  simp only [total_bind, total_toKey, total_parseKey, total_parseValue, total_parseVarint, total_parseHeaders, total_ok,
    Prod.forall, true_and, implies_true, and_true]
  constructor
  · rintro ⟨attributes, behind⟩
    refine ⟨attributes, fun rest read => (behind rest read).1, ?_, ?_⟩
    · intro rest read
      obtain ⟨atKey, isKey, read⟩ := bind_ok read
      obtain ⟨⟨key, atValue⟩, isValue, read⟩ := bind_ok read
      obtain rfl := Except.ok.inj read
      exact ((behind atKey isKey).2 key atValue isValue).1
    · intro count rest read
      obtain ⟨atValue, isValue, read⟩ := bind_ok read
      obtain ⟨atKey, isKey, isValue⟩ := bind_ok isValue
      obtain ⟨⟨key, buf⟩, keyRead, isValue⟩ := bind_ok isValue
      obtain rfl := Except.ok.inj isValue
      obtain ⟨⟨value, buf'⟩, valueRead, counted⟩ := bind_ok read
      exact ((behind atKey isKey).2 key buf keyRead).2 value buf' valueRead count rest counted
  · intro inside
    refine ⟨inside.attributes, fun atKey isKey => ⟨inside.key atKey isKey, fun key atValue keyRead => ?_⟩⟩
    have isValue : toValue buf = .ok atValue := by simp only [toValue, isKey, ok_bind, keyRead]
    refine ⟨inside.value atValue isValue, fun value atCount valueRead count rest counted => ?_⟩
    apply inside.headers count rest
    simp only [toHeaders, isValue, ok_bind, valueRead, counted]

theorem total_parseRecords {count : Nat} : Total (parseRecords count buf) ↔ RecordsInside count buf := by
  induction count generalizing buf with
  | zero => exact iff_of_true (total_ok _) trivial
  | succ count ih =>
    simp only [parseRecords, total_bind, total_parseRecord, Prod.forall, ih, total_ok, implies_true, and_true, RecordsInside]

/-! ## The batch -/

/-- The loop over the records and what precedes it. -/
theorem total_records {count : Nat} {batch : List ParsedRecord → RecordBatchMeta} :
    Total (if 2 ^ 31 ≤ count then .error .panicked else parseRecords count buf >>= fun records => .ok (batch records)) ↔
      count < 2 ^ 31 ∧ RecordsInside count buf := by
  split
  · next negative => exact iff_of_false not_total_panicked fun inside => by omega
  · next counted =>
    rw [total_bind, total_parseRecords]
    simp only [total_ok, implies_true, and_true]
    exact (and_iff_right (by omega)).symm

/-- The header is read where it stands. -/
theorem total_parseRecordBatch {decompress : CompressionType → Bytes → Except KafkaError Bytes} {data : Bytes} :
    Total (parseRecordBatch decompress data) ↔ ∀ records, ComesToRecords decompress data records →
      recordCount data < 2 ^ 31 ∧ RecordsInside (recordCount data) records := by
  unfold parseRecordBatch ComesToRecords
  split
  · next short => exact iff_of_true (total_error _) fun records comes => absurd comes.1 (by omega)
  · next long =>
    have enough : 61 ≤ data.length := by omega
    have at8 (position width : Nat) (inside : position + width ≤ 61) :
        getBE width (data.drop position) = (.ok (numberAt data position width, data.drop (position + width)) : Outcome KafkaError _) :=
      getBE_at (by omega)
    have first := at8 0 8 (by decide)
    rw [List.drop_zero] at first
    simp only [first, ok_bind, at8 (0 + 8) 4 (by decide), at8 (0 + 8 + 4) 4 (by decide), at8 (0 + 8 + 4 + 4) 1 (by decide)]
    by_cases magic : numberAt data 16 1 = 2
    · rw [if_neg (not_not_intro magic)]
      simp only [at8 (0 + 8 + 4 + 4 + 1) 4 (by decide), at8 (0 + 8 + 4 + 4 + 1 + 4) 2 (by decide),
        at8 (0 + 8 + 4 + 4 + 1 + 4 + 2) 4 (by decide), at8 (0 + 8 + 4 + 4 + 1 + 4 + 2 + 4) 8 (by decide),
        at8 (0 + 8 + 4 + 4 + 1 + 4 + 2 + 4 + 8) 8 (by decide), at8 (0 + 8 + 4 + 4 + 1 + 4 + 2 + 4 + 8 + 8) 8 (by decide),
        at8 (0 + 8 + 4 + 4 + 1 + 4 + 2 + 4 + 8 + 8 + 8) 2 (by decide),
        at8 (0 + 8 + 4 + 4 + 1 + 4 + 2 + 4 + 8 + 8 + 8 + 2) 4 (by decide),
        at8 (0 + 8 + 4 + 4 + 1 + 4 + 2 + 4 + 8 + 8 + 8 + 2 + 4) 4 (by decide), ok_bind]
      have begins : ∀ records, (61 ≤ data.length ∧ numberAt data 16 1 = 2 ∧ recordData decompress data = .ok records) ↔
          recordData decompress data = .ok records := fun records => by simp [enough, magic]
      simp only [begins]
      unfold recordData
      by_cases compressed : fromAttributes (numberAt data 21 2) ≠ .none
      · rw [if_pos compressed]
        simp only [if_pos compressed, total_bind, Lib.total_of, true_and, total_records, of_eq_ok]
        exact Iff.rfl
      · rw [if_neg compressed]
        simp only [if_neg compressed, total_records, Except.ok.injEq, forall_eq']
        exact Iff.rfl
    · rw [if_pos magic]
      exact iff_of_true (total_error _) fun records comes => absurd comes.2.1 magic

theorem i32AsUsize_of_lt {bits : Nat} (positive : bits < 2 ^ 31) : i32AsUsize bits = bits := if_pos positive

/-- **A batch is parsed safely exactly if what its header announces is there**: where the parser comes to the
records, their count is not negative and no more than their bytes allow, each record the loop
comes to has its attributes, and every length in it is covered by the bytes behind it. -/
theorem parsesSafely_iff (decompress : CompressionType → Bytes → Except KafkaError Bytes) (data : Bytes) :
    ParsesSafely decompress data ↔ ∀ records, ComesToRecords decompress data records →
      recordCount data < 2 ^ 31 ∧ recordCount data * minRecordBytes ≤ records.length ∧ RecordsInside (recordCount data) records := by
  constructor
  · intro safe records comes
    obtain ⟨positive, inside⟩ := total_parseRecordBatch.mp safe.total records comes
    have reserved := safe.reserves records comes
    rw [i32AsUsize_of_lt positive] at reserved
    exact ⟨positive, reserved, inside⟩
  · intro announced
    refine ⟨total_parseRecordBatch.mpr fun records comes => ?_, fun records comes => ?_⟩
    · obtain ⟨positive, -, inside⟩ := announced records comes
      exact ⟨positive, inside⟩
    · obtain ⟨positive, few, -⟩ := announced records comes
      rw [i32AsUsize_of_lt positive]
      exact few

namespace Example

/-- A header with magic 2 that announces one record, and the length of that record. -/
def bareRecord : Bytes := List.replicate 16 0 ++ [2] ++ List.replicate 43 0 ++ [1, 0]

def noDecompressor : CompressionType → Bytes → Except KafkaError Bytes := fun _ _ => .error (.protocol "Unsupported compression")

end Example

open Example

/-- Behind its length the record has no attributes. -/
theorem bareRecord_panics : ¬ ParsesSafely noDecompressor bareRecord := by
  intro safe
  have plain : fromAttributes (numberAt bareRecord 21 2) = .none := by decide
  have behind : bareRecord.drop 61 = [0] := by decide
  have comes : ComesToRecords noDecompressor bareRecord [0] := by
    refine ⟨by decide, by decide, ?_⟩
    simp only [recordData, plain, behind]
    rfl
  have one : recordCount bareRecord = 1 := by decide
  have inside := (total_parseRecordBatch.mp safe.total [0] comes).2
  rw [one] at inside
  exact inside.1.attributes 0 [] rfl rfl

end StreamHouse.Kafka
