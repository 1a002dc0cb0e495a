import StreamHouse.Lib.Totality
import StreamHouse.Storage.TornTail

/-!
# WAL files of any bytes

The reader finds the end of an entry by its size and a damaged entry by its checksum. Neither is enough to
parse it: an entry shorter than its checksum is indexed before that is compared, and behind a matching checksum
the sizes in the entry are trusted. `readsWalTotally_iff` says which files are read to their end.
-/

namespace StreamHouse.Storage
open Lib List

/-- The buffers that the reader cuts from a file by the sizes in it. -/
def walBuffers (file : Bytes) : List Bytes :=
  if file.length < 4 then []
  else
    if (file.drop 4).length < valueLE (file.take 4) then []
    else (file.drop 4).take (valueLE (file.take 4)) :: walBuffers ((file.drop 4).drop (valueLE (file.take 4)))
termination_by file.length
decreasing_by simp only [length_drop]; omega

section

variable (crc32 : Bytes → UInt32)

/-- The checksum in a buffer is that of the rest. -/
def ChecksumMatches (buffer : Bytes) : Prop := valueLE (buffer.take 4) = (crc32 (buffer.drop 4)).toNat

/-- Behind the checksum: timestamp, key size, key, value size and value fit in. -/
def SizesInside (body : Bytes) : Prop :=
  let keySize := valueLE ((body.drop 8).take 4)
  let valueSize := valueLE ((body.drop (12 + keySize)).take 4)
  16 + keySize + valueSize ≤ body.length

/-- A buffer that is parsed without a panic. -/
def BufferInside (buffer : Bytes) : Prop := 4 ≤ buffer.length ∧ (ChecksumMatches crc32 buffer → SizesInside (buffer.drop 4))

/-- The file is read to its end, and what comes of it are the records of buffers with the right checksum. -/
def ReadsWalTotally (file : Bytes) : Prop :=
  Total (readWalFile crc32 file) ∧ ∀ records, readWalFile crc32 file = .ok records →
    ∀ r ∈ records, ∃ buffer ∈ walBuffers file, ChecksumMatches crc32 buffer ∧ parseRecord crc32 buffer = .ok (some r)

end

variable {crc32 : Bytes → UInt32}

/-! ## One buffer -/

theorem total_readKey_bind {α : Type} {keySize : Nat} {cursor : Bytes} {f : Option Bytes × Bytes → Outcome Empty α} :
    Total (readKey keySize cursor >>= f) ↔
      keySize ≤ cursor.length ∧ Total (f (if keySize > 0 then some (cursor.take keySize) else none, cursor.drop keySize)) := by
  unfold readKey
  split
  · by_cases enough : keySize ≤ cursor.length
    · rw [copyToSlice, if_pos enough]
      simp [Except.map, enough]
    · rw [copyToSlice, if_neg enough, total_bind]
      simp [Except.map, enough]
  · next none_ =>
    have zero : keySize = 0 := by omega
    simp [zero]

/-- **A buffer is parsed** exactly if it is long enough for its checksum and, where that matches, for its sizes. -/
theorem total_parseRecord {buffer : Bytes} : Total (parseRecord crc32 buffer) ↔ BufferInside crc32 buffer := by
  unfold parseRecord BufferInside
  rw [total_getLE_bind]
  apply and_congr_right
  intro enough
  dsimp only
  by_cases matches_ : ChecksumMatches crc32 buffer
  · have same : valueLE (buffer.take 4) = (crc32 (buffer.drop 4)).toNat := matches_
    rw [if_neg (not_not_intro same)]
    simp only [matches_, true_imp_iff, SizesInside, total_getLE_bind, total_readKey_bind, total_copyToSlice_bind, total_ok, and_true,
      drop_drop, length_drop]
    generalize valueLE ((buffer.drop (4 + 8)).take 4) = keySize
    have valueAt : 4 + (12 + keySize) = 4 + 8 + 4 + keySize := by omega
    rw [valueAt]
    omega
  · have differs : valueLE (buffer.take 4) ≠ (crc32 (buffer.drop 4)).toNat := matches_
    rw [if_pos differs]
    simp [matches_]

/-- Records come of matching checksums only. -/
theorem checksum_of_parsed {buffer : Bytes} {r : WALRecord} (parsed : parseRecord crc32 buffer = .ok (some r)) :
    ChecksumMatches crc32 buffer := by
  unfold parseRecord at parsed
  obtain ⟨⟨storedCrc, cursor⟩, read, parsed⟩ := bind_ok parsed
  obtain ⟨-, rfl, rfl⟩ := getLE_ok read
  dsimp only at parsed
  split at parsed
  · cases parsed
  · next same =>
    unfold ChecksumMatches
    exact Decidable.not_not.mp same

/-! ## The file -/

/-- **A file is read to its end** exactly if all its buffers are parsed. -/
theorem total_readWalFile {file : Bytes} :
    Total (readWalFile crc32 file) ↔ ∀ buffer ∈ walBuffers file, BufferInside crc32 buffer := by
  fun_induction walBuffers file with
  | case1 file short =>
    rw [readWalFile_short short]
    simp
  | case2 file enough missing =>
    rw [readWalFile, if_neg enough, if_pos missing]
    simp
  | case3 file enough complete ih =>
    rw [readWalFile, if_neg enough, if_neg complete, total_bind, total_parseRecord, forall_mem_cons]
    apply and_congr_right
    intro inside
    obtain ⟨record, parsed⟩ : ∃ record, parseRecord crc32 ((file.drop 4).take (valueLE (file.take 4))) = .ok record := by
      have total := total_parseRecord.mpr inside
      cases outcome : parseRecord crc32 ((file.drop 4).take (valueLE (file.take 4))) with
      | ok record => exact ⟨record, rfl⟩
      | error fault =>
        cases fault with
        | error impossible => exact impossible.elim
        | panicked => exact absurd outcome total
    simp only [parsed, Except.ok.injEq, forall_eq', total_bind, total_ok, implies_true, and_true, ih]

theorem buffer_of_record {file : Bytes} {records : List WALRecord} (read : readWalFile crc32 file = .ok records) :
    ∀ r ∈ records, ∃ buffer ∈ walBuffers file, parseRecord crc32 buffer = .ok (some r) := by
  fun_induction walBuffers file generalizing records with
  | case1 file short =>
    rw [readWalFile_short short] at read
    cases read
    simp
  | case2 file enough missing =>
    rw [readWalFile, if_neg enough, if_pos missing] at read
    cases read
    simp
  | case3 file enough complete ih =>
    rw [readWalFile, if_neg enough, if_neg complete] at read
    obtain ⟨record, parsed, read⟩ := bind_ok read
    obtain ⟨later, rest, read⟩ := bind_ok read
    obtain rfl := Except.ok.inj read
    intro r member
    rcases mem_append.mp member with here | behind
    · rw [Option.mem_toList] at here
      rw [Option.mem_def.mp here] at parsed
      exact ⟨_, mem_cons_self, parsed⟩
    · obtain ⟨buffer, cut, from_⟩ := ih rest r behind
      exact ⟨buffer, mem_cons_of_mem _ cut, from_⟩

/-- **Reading is total** exactly for the files whose buffers hold their checksum and, where it matches, what
their sizes say. -/
theorem readsWalTotally_iff (crc32 : Bytes → UInt32) (file : Bytes) :
    ReadsWalTotally crc32 file ↔ ∀ buffer ∈ walBuffers file, BufferInside crc32 buffer := by
  rw [ReadsWalTotally, total_readWalFile, and_iff_left_iff_imp]
  intro _ records read r member
  obtain ⟨buffer, cut, parsed⟩ := buffer_of_record read r member
  exact ⟨buffer, cut, checksum_of_parsed parsed, parsed⟩

/-- Four zero bytes are the size of an entry without a checksum. -/
theorem zeroSize_panics : ¬ ReadsWalTotally Example.crc32 [0, 0, 0, 0] := by
  intro reads
  have panics : readWalFile Example.crc32 [0, 0, 0, 0] = .error .panicked := by decide +kernel
  exact reads.1 panics

end StreamHouse.Storage
