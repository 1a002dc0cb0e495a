import StreamHouse.Storage.PartitionWriter
import StreamHouse.Storage.SegmentRoundTrip

/-!
# The bytes of the WAL

`serialize_record` and `read_wal_file` of `wal.rs`. An entry is its size, a checksum
and the record; the reader goes from size to size, skips an entry whose checksum is
wrong and stops where the file ends inside an entry. What the `crc32fast` package
computes is a parameter.
-/

namespace StreamHouse.Storage
open Lib List

/-- The sizes of an entry as `serialize_record` computes them, in `u32`. -/
def WALRecord.keySize (r : WALRecord) : Nat := (r.key.map List.length).getD 0 % 2 ^ 32

def WALRecord.valueSize (r : WALRecord) : Nat := r.value.length % 2 ^ 32

def WALRecord.recordSize (r : WALRecord) : Nat := (4 + 8 + 4 + r.keySize + 4 + r.valueSize) % 2 ^ 32

/-- What the checksum is taken over: timestamp, key size, key, value size, value. -/
def WALRecord.body (r : WALRecord) : Bytes :=
  putLE 8 r.timestamp ++ (putLE 4 r.keySize ++ (r.key.getD [] ++ (putLE 4 r.valueSize ++ r.value)))

/-- The key of an entry in `read_wal_file`: a size of zero is no key. -/
def readKey (keySize : Nat) (cursor : Bytes) : Outcome Empty (Option Bytes × Bytes) :=
  if keySize > 0 then (copyToSlice keySize cursor).map fun (k, cursor) => (some k, cursor) else .ok (none, cursor)

section

variable (crc32 : Bytes → UInt32)

/-- `serialize_record`. -/
def serializeRecord (r : WALRecord) : Bytes :=
  putLE 4 r.recordSize ++ (putLE 4 (crc32 r.body).toNat ++ r.body)

/-- The parse of one `record_buf` in `read_wal_file`: no record if the checksum is wrong.
Indexing past the end of the buffer panics. -/
def parseRecord (recordBuf : Bytes) : Outcome Empty (Option WALRecord) := do
  let (storedCrc, cursor) ← getLE 4 recordBuf
  if storedCrc ≠ (crc32 cursor).toNat then .ok none
  else
    let (timestamp, cursor) ← getLE 8 cursor
    let (keySize, cursor) ← getLE 4 cursor
    let (key, cursor) ← readKey keySize cursor
    let (valueSize, cursor) ← getLE 4 cursor
    let (value, _) ← copyToSlice valueSize cursor
    .ok (some ⟨key, value, timestamp⟩)

/-- `read_wal_file` on a file with these bytes: the two `break`s are the ends of file. -/
def readWalFile (file : Bytes) : Outcome Empty (List WALRecord) :=
  if file.length < 4 then .ok []
  else
    let recordSize := valueLE (file.take 4)
    if (file.drop 4).length < recordSize then .ok []
    else do
      let record ← parseRecord crc32 ((file.drop 4).take recordSize)
      let records ← readWalFile ((file.drop 4).drop recordSize)
      .ok (record.toList ++ records)
termination_by file.length
decreasing_by simp only [length_drop]; omega

/-- A file of complete entries. -/
def serializeAll (records : List WALRecord) : Bytes :=
  (records.map (serializeRecord crc32)).flatten

end

/-- The ranges of the Rust types, and sizes that fit the `u32` they are stored in. -/
structure WALRecord.Fits (r : WALRecord) : Prop where
  timestamp : r.timestamp < 2 ^ 64
  keySize : (r.key.map List.length).getD 0 < 2 ^ 32
  valueSize : r.value.length < 2 ^ 32
  recordSize : 20 + (r.key.map List.length).getD 0 + r.value.length < 2 ^ 32

namespace WALRecord

variable {r : WALRecord}

theorem Fits.keySize_eq (fits : r.Fits) : r.keySize = (r.key.map List.length).getD 0 := Nat.mod_eq_of_lt fits.keySize

theorem Fits.valueSize_eq (fits : r.Fits) : r.valueSize = r.value.length := Nat.mod_eq_of_lt fits.valueSize

theorem Fits.recordSize_eq (fits : r.Fits) : r.recordSize = 20 + (r.key.map List.length).getD 0 + r.value.length := by
  have bound := fits.recordSize
  rw [WALRecord.recordSize, fits.keySize_eq, fits.valueSize_eq]
  omega

theorem Fits.recordSize_lt (fits : r.Fits) : r.recordSize < 256 ^ 4 := by
  rw [fits.recordSize_eq]
  exact fits.recordSize

theorem key_length : (r.key.getD []).length = (r.key.map List.length).getD 0 := by
  cases r.key <;> rfl

/-- With the checksum in front, the body is as long as the size says. -/
theorem Fits.body_length (fits : r.Fits) : 4 + r.body.length = r.recordSize := by
  rw [fits.recordSize_eq]
  simp only [body, length_append, putLE_length, key_length]
  omega

end WALRecord

section

variable {crc32 : Bytes → UInt32}

/-- A key is read back, if it can be told from an absent one. -/
theorem readKey_append {r : WALRecord} (keyed : r.key ≠ some []) (rest : Bytes) :
    readKey ((r.key.map List.length).getD 0) (r.key.getD [] ++ rest) = .ok (r.key, rest) := by
  unfold readKey
  cases key : r.key with
  | none => rfl
  | some k =>
    have present : 0 < k.length := length_pos_iff.2 fun empty => keyed (by rw [key, empty])
    have split : copyToSlice k.length (k ++ rest) = (.ok (k, rest) : Outcome Empty _) := copyToSlice_append rest rfl
    rw [Option.map_some, Option.getD_some, Option.getD_some, if_pos present, split]
    rfl

theorem crc_lt (bytes : Bytes) : (crc32 bytes).toNat < 256 ^ 4 := (crc32 bytes).toNat_lt

/-- An entry is parsed back. -/
theorem parseRecord_body {r : WALRecord} (fits : r.Fits) (keyed : r.key ≠ some []) :
    parseRecord crc32 (putLE 4 (crc32 r.body).toNat ++ r.body) = .ok (some r) := by
  have valued : getLE 4 (putLE 4 r.value.length ++ r.value) = (.ok (r.value.length, r.value) : Outcome Empty _) :=
    getLE_putLE fits.valueSize r.value
  have whole : copyToSlice r.value.length r.value = (.ok (r.value, []) : Outcome Empty _) := by
    have split : copyToSlice r.value.length (r.value ++ []) = (.ok (r.value, []) : Outcome Empty _) := copyToSlice_append [] rfl
    rwa [append_nil] at split
  unfold parseRecord
  rw [getLE_putLE (crc_lt _), ok_bind]
  simp only [ne_eq, not_true_eq_false, if_false]
  unfold WALRecord.body
  rw [fits.keySize_eq, fits.valueSize_eq, getLE_putLE fits.timestamp, ok_bind]
  simp only
  rw [getLE_putLE fits.keySize, ok_bind]
  simp only
  rw [readKey_append keyed, ok_bind]
  simp only [valued, ok_bind, whole]

theorem readWalFile_short {file : Bytes} (short : file.length < 4) : readWalFile crc32 file = .ok [] := by
  rw [readWalFile, if_pos short]

/-- An entry in front, whatever it holds and whatever follows. -/
theorem readWalFile_entry {size : Nat} {entry rest : Bytes} (fits : size < 256 ^ 4) (length : entry.length = size) :
    readWalFile crc32 (putLE 4 size ++ (entry ++ rest)) = (do
      let record ← parseRecord crc32 entry
      let records ← readWalFile crc32 rest
      .ok (record.toList ++ records)) := by
  have enough : ¬ (putLE 4 size ++ (entry ++ rest)).length < 4 := by simp
  have front : (putLE 4 size ++ (entry ++ rest)).take 4 = putLE 4 size := take_left' (putLE_length _ _)
  have back : (putLE 4 size ++ (entry ++ rest)).drop 4 = entry ++ rest := drop_left' (putLE_length _ _)
  have complete : ¬ (entry ++ rest).length < size := by
    rw [length_append]
    omega
  rw [readWalFile, if_neg enough]
  simp only [front, back, valueLE_putLE fits, complete, if_false]
  rw [take_left' length, drop_left' length]

/-- An entry whose end is missing ends the file. -/
theorem readWalFile_incomplete {size : Nat} {entry : Bytes} (fits : size < 256 ^ 4) (missing : entry.length < size) :
    readWalFile crc32 (putLE 4 size ++ entry) = .ok [] := by
  have enough : ¬ (putLE 4 size ++ entry).length < 4 := by simp
  have front : (putLE 4 size ++ entry).take 4 = putLE 4 size := take_left' (putLE_length _ _)
  have back : (putLE 4 size ++ entry).drop 4 = entry := drop_left' (putLE_length _ _)
  rw [readWalFile, if_neg enough]
  simp only [front, back, valueLE_putLE fits, missing, if_true]

/-- Complete entries in front are read, and then the rest as if it stood alone. -/
theorem readWalFile_serializeAll {records : List WALRecord} (fits : ∀ r ∈ records, r.Fits) (keyed : ∀ r ∈ records, r.key ≠ some [])
    (rest : Bytes) :
    readWalFile crc32 (serializeAll crc32 records ++ rest) = (readWalFile crc32 rest).map (records ++ ·) := by
  induction records with
  | nil =>
    show readWalFile crc32 rest = _
    cases readWalFile crc32 rest <;> rfl
  | cons r records ih =>
    obtain ⟨first, others⟩ := forall_mem_cons.1 fits
    obtain ⟨firstKeyed, othersKeyed⟩ := forall_mem_cons.1 keyed
    have length : (putLE 4 (crc32 r.body).toNat ++ r.body).length = r.recordSize := by
      rw [length_append, putLE_length]
      exact first.body_length
    have split : serializeAll crc32 (r :: records) ++ rest =
        putLE 4 r.recordSize ++ ((putLE 4 (crc32 r.body).toNat ++ r.body) ++ (serializeAll crc32 records ++ rest)) := by
      simp [serializeAll, serializeRecord]
    rw [split, readWalFile_entry first.recordSize_lt length, parseRecord_body first firstKeyed, ok_bind, ih others othersKeyed]
    cases readWalFile crc32 rest <;> rfl

/-- The cut of an entry, in its size or behind it. -/
theorem torn_cases {r : WALRecord} (fits : r.Fits) {torn : Bytes} (cut : torn <+: serializeRecord crc32 r)
    (strict : torn ≠ serializeRecord crc32 r) :
    torn.length < 4 ∨ ∃ front, torn = putLE 4 r.recordSize ++ front ∧ front <+: putLE 4 (crc32 r.body).toNat ++ r.body ∧
      front.length < r.recordSize := by
  by_cases short : torn.length < 4
  · exact .inl short
  · right
    obtain ⟨front, rfl⟩ : putLE 4 r.recordSize <+: torn := by
      apply prefix_of_prefix_length_le (prefix_append _ _) cut
      rw [putLE_length]
      omega
    have inside : front <+: putLE 4 (crc32 r.body).toNat ++ r.body := (prefix_append_right_inj _).1 cut
    have proper : front.length ≠ (putLE 4 (crc32 r.body).toNat ++ r.body).length := by
      intro same
      apply strict
      rw [inside.eq_of_length same, serializeRecord]
    have bound := inside.length_le
    have size := fits.body_length
    rw [length_append, putLE_length] at proper bound
    exact ⟨front, rfl, inside, by omega⟩

/-- A strict prefix of an entry holds no record. -/
theorem readWalFile_torn {r : WALRecord} (fits : r.Fits) {torn : Bytes} (cut : torn <+: serializeRecord crc32 r)
    (strict : torn ≠ serializeRecord crc32 r) : readWalFile crc32 torn = .ok [] := by
  obtain short | ⟨front, rfl, -, missing⟩ := torn_cases fits cut strict
  · exact readWalFile_short short
  · exact readWalFile_incomplete fits.recordSize_lt missing

end

/-- The file of a list of records is read back as that list, and so is the file
with a strict prefix of one more entry behind it. -/
theorem walFile_roundTrip (crc32 : Bytes → UInt32) (records : List WALRecord) (fits : ∀ r ∈ records, r.Fits)
    (keyed : ∀ r ∈ records, r.key ≠ some []) :
    readWalFile crc32 (serializeAll crc32 records) = .ok records ∧
      ∀ next : WALRecord, next.Fits → ∀ torn, torn <+: serializeRecord crc32 next → torn ≠ serializeRecord crc32 next →
        readWalFile crc32 (serializeAll crc32 records ++ torn) = .ok records := by
  constructor
  · have read : readWalFile crc32 (serializeAll crc32 records ++ []) = _ := readWalFile_serializeAll fits keyed []
    have empty : readWalFile crc32 [] = .ok [] := readWalFile_short (by decide)
    rw [append_nil, empty] at read
    simpa [Except.map] using read
  · intro next nextFits torn cut strict
    rw [readWalFile_serializeAll fits keyed, readWalFile_torn nextFits cut strict]
    simp [Except.map]

namespace Example

def walRecords : List WALRecord := [⟨some [107], [1, 2], 100⟩, ⟨none, [], 90⟩]

theorem walRecords_fits : ∀ r ∈ walRecords, r.Fits := by
  intro r member
  simp only [walRecords, mem_cons, not_mem_nil, or_false] at member
  obtain rfl | rfl := member
  · exact ⟨by decide, by decide, by decide, by decide⟩
  · exact ⟨by decide, by decide, by decide, by decide⟩

def nextRecord : WALRecord := ⟨none, [7], 110⟩

theorem nextRecord_fits : nextRecord.Fits := ⟨by decide, by decide, by decide, by decide⟩

/-- Cut in the middle of the timestamp. -/
def tornEntry : Bytes := (serializeRecord crc32 nextRecord).take 11

end Example

open Example

theorem walFile_roundTrip_two_records :
    readWalFile crc32 (serializeAll crc32 walRecords) = .ok walRecords ∧
      readWalFile crc32 (serializeAll crc32 walRecords ++ tornEntry) = .ok walRecords := by
  obtain ⟨whole, torn⟩ := walFile_roundTrip crc32 walRecords walRecords_fits (by decide)
  refine ⟨whole, torn nextRecord nextRecord_fits _ (List.take_prefix _ _) ?_⟩
  decide +kernel

end StreamHouse.Storage
