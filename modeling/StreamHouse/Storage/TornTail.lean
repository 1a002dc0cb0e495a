import StreamHouse.Storage.WalFormat
import StreamHouse.Storage.WalWriter

/-!
# A WAL reopened behind a torn entry

`WAL::open` appends to the file as the crash left it. The reader finds entries by
their sizes only, so the bytes of a torn entry are read together with the entries
appended behind them. `survives_iff`: what is appended later is recovered, whatever
it is, exactly if the crash left no such bytes.
-/

namespace StreamHouse.Storage
open Lib List Option Example WalCmd WALRecord Turn

/-- The settings of `WALConfig` that `WAL::open` hands to the writer task. -/
structure WALConfig where
  batchEnabled : Bool
  batchMaxRecords : Nat
  batchMaxBytes : Nat
  /-- `sync_policy` is not `SyncPolicy::Never`. -/
  syncOnFlush : Bool

/-- `WAL::open` on a file with these bytes: the writer task goes on behind them. -/
def openWal (config : WALConfig) (file : Bytes) : WalWriter where
  file := file
  batch := []
  batchCount := 0
  currentSize := file.length
  batchMaxRecords := if config.batchEnabled then config.batchMaxRecords else 1
  batchMaxBytes := if config.batchEnabled then config.batchMaxBytes else 0
  syncOnFlush := config.syncOnFlush

/-- `WAL::recover`: the pending batch is flushed, then the file is read. -/
def recover (crc32 : Bytes → UInt32) (w : WalWriter) : Outcome Empty (List WALRecord) :=
  readWalFile crc32 (w.doFlush .ok).2.file

/-- Whatever is appended after `WAL::open`, however the writer task batches it, a later
recovery returns the records written before the crash and then those. -/
def SurvivesTail (crc32 : Bytes → UInt32) (written : List WALRecord) (torn : Bytes) : Prop :=
  ∀ later : List WALRecord, (∀ r ∈ later, r.Fits) → (∀ r ∈ later, r.key ≠ some []) →
    ∀ (config : WALConfig) (ts : List Turn), (∀ t ∈ ts, ∀ c ∈ t.cmds, c.truncater = none) →
      (ts.flatMap cmds).flatMap data = serializeAll crc32 later →
      recover crc32 ((openWal config (serializeAll crc32 written ++ torn)).turns ts).writer = .ok (written ++ later)

section

variable {crc32 : Bytes → UInt32}

/-- What is recovered: the file as it was opened, and behind it what was appended. -/
theorem recover_turns (config : WALConfig) (file : Bytes) {ts : List Turn}
    (kept : ∀ t ∈ ts, ∀ c ∈ t.cmds, c.truncater = none) :
    recover crc32 ((openWal config file).turns ts).writer =
      readWalFile crc32 (file ++ (ts.flatMap cmds).flatMap data) := by
  have seq := (openWal config file).turns_sequential fun t member => truncatesLast_of_kept (kept t member)
  have all : ∀ c ∈ ts.flatMap cmds, c.truncater = none := by
    intro c member
    obtain ⟨t, turn, cmd⟩ := mem_flatMap.1 member
    exact kept t turn c cmd
  rw [recover, (WalWriter.doFlush_ok _).2.1, seq.contents, foldl_onLog_kept all]
  simp [openWal, WalWriter.contents]

/-- The length of an entry. -/
def WALRecord.entryLength (r : WALRecord) : Nat := 24 + (r.key.map List.length).getD 0 + r.value.length

theorem entry_length {r : WALRecord} (fits : r.Fits) : (serializeRecord crc32 r).length = r.entryLength := by
  have size := fits.body_length
  rw [fits.recordSize_eq] at size
  simp only [serializeRecord, length_append, putLE_length, entryLength]
  omega

/-- What a record parsed from a buffer takes from it. -/
structure Parsed (buf : Bytes) (r : WALRecord) : Prop where
  room : r.entryLength ≤ buf.length + 4
  timestamp : r.timestamp = valueLE ((buf.drop 4).take 8)

theorem getLE_ok {width value : Nat} {cursor rest : Bytes} (read : getLE width cursor = (.ok (value, rest) : Outcome Empty _)) :
    width ≤ cursor.length ∧ value = valueLE (cursor.take width) ∧ rest = cursor.drop width := by
  unfold getLE at read
  split at read
  · next enough =>
    obtain ⟨rfl, rfl⟩ := Prod.mk.inj (Except.ok.inj read)
    exact ⟨enough, rfl, rfl⟩
  · cases read

theorem copyToSlice_ok {n : Nat} {front cursor rest : Bytes} (read : copyToSlice n cursor = (.ok (front, rest) : Outcome Empty _)) :
    n ≤ cursor.length ∧ front = cursor.take n ∧ rest = cursor.drop n := by
  unfold copyToSlice at read
  split at read
  · next enough =>
    obtain ⟨rfl, rfl⟩ := Prod.mk.inj (Except.ok.inj read)
    exact ⟨enough, rfl, rfl⟩
  · cases read

theorem readKey_ok {keySize : Nat} {key : Option Bytes} {cursor rest : Bytes} (read : readKey keySize cursor = .ok (key, rest)) :
    (key.map List.length).getD 0 + rest.length ≤ cursor.length := by
  unfold readKey at read
  split at read
  · cases copied : (copyToSlice keySize cursor : Outcome Empty _) with
    | error fault =>
      rw [copied] at read
      cases read
    | ok parts =>
      obtain ⟨k, tail⟩ := parts
      rw [copied] at read
      obtain ⟨rfl, rfl⟩ := Prod.mk.inj (Except.ok.inj read)
      obtain ⟨room, rfl, rfl⟩ := copyToSlice_ok copied
      simp only [map_some, getD_some, length_take, length_drop]
      omega
  · obtain ⟨rfl, rfl⟩ := Prod.mk.inj (Except.ok.inj read)
    simp

theorem parseRecord_some {buf : Bytes} {r : WALRecord} (parsed : parseRecord crc32 buf = .ok (some r)) : Parsed buf r := by
  unfold parseRecord at parsed
  obtain ⟨⟨storedCrc, afterCrc⟩, crc, parsed⟩ := bind_ok parsed
  obtain ⟨crcRoom, rfl, rfl⟩ := getLE_ok crc
  simp only at parsed
  split at parsed
  · cases parsed
  · obtain ⟨⟨timestamp, afterTime⟩, time, parsed⟩ := bind_ok parsed
    obtain ⟨timeRoom, rfl, rfl⟩ := getLE_ok time
    obtain ⟨⟨keySize, afterSize⟩, size, parsed⟩ := bind_ok parsed
    obtain ⟨sizeRoom, rfl, rfl⟩ := getLE_ok size
    obtain ⟨⟨key, afterKey⟩, keyed, parsed⟩ := bind_ok parsed
    have keyRoom := readKey_ok keyed
    obtain ⟨⟨valueSize, afterValueSize⟩, valued, parsed⟩ := bind_ok parsed
    obtain ⟨valueSizeRoom, rfl, rfl⟩ := getLE_ok valued
    obtain ⟨⟨value, afterValue⟩, read, parsed⟩ := bind_ok parsed
    obtain ⟨valueRoom, rfl, rfl⟩ := copyToSlice_ok read
    obtain rfl := some.inj (Except.ok.inj parsed)
    refine ⟨?_, rfl⟩
    simp only [entryLength, length_drop, length_take] at *
    omega

/-- The records of a file take no more than its bytes. -/
theorem readWalFile_room {file : Bytes} {records : List WALRecord} (read : readWalFile crc32 file = .ok records) :
    (records.map entryLength).sum ≤ file.length := by
  induction size : file.length using Nat.strongRecOn generalizing file records with
  | ind n ih =>
    subst size
    rw [readWalFile] at read
    split at read
    · obtain rfl := Except.ok.inj read
      exact Nat.zero_le _
    · next enough =>
      simp only at read
      split at read
      · obtain rfl := Except.ok.inj read
        exact Nat.zero_le _
      · next complete =>
        obtain ⟨record, parsed, read⟩ := bind_ok read
        obtain ⟨rest, others, read⟩ := bind_ok read
        obtain rfl := Except.ok.inj read
        have smaller := ih _ (by simp only [length_drop]; omega) others rfl
        simp only [length_drop] at smaller complete
        cases record with
        | none =>
          simp only [toList_none, nil_append]
          omega
        | some r =>
          have room := (parseRecord_some parsed).room
          simp only [length_take, length_drop] at room
          simp only [toList_some, singleton_append, map_cons, List.sum_cons]
          omega

/-- Behind a torn size and part of an entry, one more entry is not read as such unless
the parse of the bytes that the torn size announces happens to give it. -/
theorem readWalFile_behind {size : Nat} {front : Bytes} {r : WALRecord} (fits : r.Fits) (small : size < 256 ^ 4)
    (missing : front.length < size)
    (read : readWalFile crc32 (putLE 4 size ++ (front ++ serializeRecord crc32 r)) = .ok [r]) :
    size ≤ (front ++ serializeRecord crc32 r).length ∧
      parseRecord crc32 ((front ++ serializeRecord crc32 r).take size) = .ok (some r) := by
  have length : (serializeRecord crc32 r).length = _ := entry_length fits
  generalize behind : front ++ serializeRecord crc32 r = bytes at read
  have total : bytes.length = front.length + r.entryLength := by rw [← behind, length_append, length]
  by_cases complete : bytes.length < size
  · rw [readWalFile_incomplete small complete] at read
    cases read
  · refine ⟨by omega, ?_⟩
    have taken : (bytes.take size).length = size := length_take_of_le (by omega)
    have split : putLE 4 size ++ bytes = putLE 4 size ++ (bytes.take size ++ bytes.drop size) := by rw [take_append_drop]
    rw [split, readWalFile_entry small taken] at read
    obtain ⟨record, parsed, read⟩ := bind_ok read
    obtain ⟨rest, others, read⟩ := bind_ok read
    have same := Except.ok.inj read
    cases record with
    | none =>
      -- the entry would have to be read from what is left, which is too short for it
      obtain rfl : rest = [r] := same
      have room := readWalFile_room others
      simp only [map_cons, map_nil, List.sum_cons, sum_nil, length_drop] at room
      omega
    | some x =>
      obtain ⟨rfl, -⟩ := cons.inj same
      exact parsed

/-- A record without a key. -/
def zeros (length timestamp : Nat) : WALRecord := ⟨none, replicate length 0, timestamp⟩

theorem zeros_entryLength (length timestamp : Nat) : (zeros length timestamp).entryLength = 24 + length := by
  show 24 + 0 + (replicate length (0 : UInt8)).length = 24 + length
  rw [length_replicate]

theorem zeros_fits {length timestamp : Nat} (time : timestamp < 2 ^ 64) (small : 20 + length < 2 ^ 32) :
    (zeros length timestamp).Fits := by
  have value : (zeros length timestamp).value.length = length := length_replicate
  refine ⟨time, ?_, ?_, ?_⟩
  · show 0 < 2 ^ 32
    omega
  · rw [value]
    omega
  · rw [value]
    exact small

theorem zeros_keyed (length timestamp : Nat) : (zeros length timestamp).key ≠ some [] := by
  intro key
  cases key

/-- Behind a size of which bytes are missing, an entry is taken for a much longer one. -/
theorem readWalFile_cut_size {torn : Bytes} (left : torn ≠ []) (short : torn.length < 4) :
    readWalFile crc32 (torn ++ serializeRecord crc32 (zeros 0 0)) = .ok [] := by
  have length : (serializeRecord crc32 (zeros 0 0)).length = 24 := by
    rw [entry_length (zeros_fits (by decide) (by decide)), zeros_entryLength]
  have first : ∃ tail, serializeRecord crc32 (zeros 0 0) = 20 :: tail := ⟨_, rfl⟩
  obtain ⟨tail, first⟩ := first
  have positive : 0 < torn.length := length_pos_iff.2 left
  have size : 5120 ≤ valueLE ((torn ++ serializeRecord crc32 (zeros 0 0)).take 4) := by
    obtain ⟨more, gap⟩ : ∃ more, 4 - torn.length = more + 1 := ⟨3 - torn.length, by omega⟩
    have scale : 256 ^ 1 ≤ 256 ^ torn.length := Nat.pow_le_pow_right (by decide) positive
    have head : 20 ≤ valueLE (20 :: tail.take more) := by
      rw [valueLE]
      exact Nat.le_add_right _ _
    rw [take_append, take_of_length_le (by omega), valueLE_append, first, gap, take_succ_cons]
    calc
      5120 = 256 ^ 1 * 20 := by decide
      _ ≤ 256 ^ torn.length * valueLE (20 :: tail.take more) := Nat.mul_le_mul scale head
      _ ≤ _ := Nat.le_add_left _ _
  have total : (torn ++ serializeRecord crc32 (zeros 0 0)).length = torn.length + 24 := by rw [length_append, length]
  have incomplete : ((torn ++ serializeRecord crc32 (zeros 0 0)).drop 4).length <
      valueLE ((torn ++ serializeRecord crc32 (zeros 0 0)).take 4) := by
    rw [length_drop, total]
    omega
  rw [readWalFile, if_neg (by omega)]
  simp only [incomplete, if_true]

/-- A torn entry that reaches beyond the timestamp is parsed with its own timestamp. -/
theorem torn_timestamp {r : WALRecord} (fits : r.Fits) {front : Bytes} (inside : front <+: putLE 4 (crc32 r.body).toNat ++ r.body)
    (behind : Bytes) (reaches : 12 ≤ front.length) {size : Nat} (room : 12 ≤ size) :
    valueLE ((((front ++ behind).take size).drop 4).take 8) = r.timestamp := by
  obtain ⟨more, rfl⟩ : putLE 4 (crc32 r.body).toNat ++ putLE 8 r.timestamp <+: front := by
    refine prefix_of_prefix_length_le ?_ inside (by simpa using reaches)
    rw [WALRecord.body, ← append_assoc]
    exact prefix_append _ _
  have field : (((putLE 4 (crc32 r.body).toNat ++ putLE 8 r.timestamp ++ more ++ behind).take size).drop 4).take 8 =
      putLE 8 r.timestamp := by
    rw [drop_take, take_take, Nat.min_eq_left (by omega), append_assoc, append_assoc,
      drop_left' (putLE_length _ _), take_left' (putLE_length _ _)]
  rw [field, valueLE_putLE fits.timestamp]

/-- Whatever the crash left of an entry, some record appended behind it is lost. -/
theorem lost_behind {next : WALRecord} (nextFits : next.Fits) {torn : Bytes} (cut : torn <+: serializeRecord crc32 next)
    (strict : torn ≠ serializeRecord crc32 next) (left : torn ≠ []) :
    ∃ r : WALRecord, r.Fits ∧ r.key ≠ some [] ∧ readWalFile crc32 (torn ++ serializeRecord crc32 r) ≠ .ok [r] := by
  obtain short | ⟨front, rfl, inside, missing⟩ := torn_cases nextFits cut strict
  · refine ⟨zeros 0 0, zeros_fits (by decide) (by decide), zeros_keyed 0 0, ?_⟩
    rw [readWalFile_cut_size left short]
    simp
  · by_cases small : next.recordSize < 2 ^ 31
    · -- a record that does not fit into the bytes the torn size announces
      have fits : (zeros next.recordSize 0).Fits := zeros_fits (by decide) (by omega)
      refine ⟨zeros next.recordSize 0, fits, zeros_keyed _ _, ?_⟩
      intro read
      rw [append_assoc] at read
      obtain ⟨-, parsed⟩ := readWalFile_behind fits nextFits.recordSize_lt missing read
      have room := (parseRecord_some parsed).room
      rw [length_take, zeros_entryLength] at room
      omega
    · -- a short record with another timestamp than the torn one
      obtain ⟨timestamp, time, other⟩ : ∃ timestamp, timestamp < 2 ^ 64 ∧ timestamp ≠ next.timestamp :=
        ⟨if next.timestamp = 0 then 1 else 0, by split <;> omega, by split <;> omega⟩
      have fits : (zeros 0 timestamp).Fits := zeros_fits time (by decide)
      refine ⟨zeros 0 timestamp, fits, zeros_keyed _ _, ?_⟩
      intro read
      rw [append_assoc] at read
      obtain ⟨complete, parsed⟩ := readWalFile_behind fits nextFits.recordSize_lt missing read
      rw [length_append, entry_length fits, zeros_entryLength] at complete
      apply other
      calc
        timestamp = _ := (parseRecord_some parsed).timestamp
        _ = next.timestamp := torn_timestamp nextFits inside _ (by omega) (by omega)

end

/-- For every file a crash can leave, complete entries and then a strict prefix of one
more: everything appended later is recovered exactly if that prefix is empty. -/
theorem survives_iff (crc32 : Bytes → UInt32) {written : List WALRecord} (fits : ∀ r ∈ written, r.Fits)
    (keyed : ∀ r ∈ written, r.key ≠ some []) {next : WALRecord} (nextFits : next.Fits) {torn : Bytes}
    (cut : torn <+: serializeRecord crc32 next) (strict : torn ≠ serializeRecord crc32 next) :
    SurvivesTail crc32 written torn ↔ torn = [] := by
  constructor
  · intro survives
    by_contra left
    obtain ⟨r, laterFits, laterKeyed, lost⟩ := lost_behind nextFits cut strict left
    let ts : List Turn := [.drained (.append (serializeRecord crc32 r) 1) []]
    have kept : ∀ t ∈ ts, ∀ c ∈ t.cmds, c.truncater = none := by simp [ts, cmds, truncater]
    have data : (ts.flatMap cmds).flatMap data = serializeAll crc32 [r] := by
      simp [ts, cmds, data, serializeAll]
    have recovered := survives [r] (by simpa using laterFits) (by simpa using laterKeyed) ⟨false, 0, 0, true⟩ ts kept data
    rw [recover_turns _ _ kept, data, append_assoc, readWalFile_serializeAll fits keyed] at recovered
    have alone : serializeAll crc32 [r] = serializeRecord crc32 r := by simp [serializeAll]
    rw [alone] at recovered
    apply lost
    cases read : readWalFile crc32 (torn ++ serializeRecord crc32 r) with
    | error fault =>
      rw [read] at recovered
      cases recovered
    | ok records =>
      rw [read] at recovered
      rw [append_cancel_left (Except.ok.inj recovered)]
  · rintro rfl later laterFits laterKeyed config ts kept data
    have empty : readWalFile crc32 [] = .ok [] := readWalFile_short (by decide)
    have file : readWalFile crc32 (serializeAll crc32 later ++ []) = _ := readWalFile_serializeAll laterFits laterKeyed []
    rw [empty, append_nil] at file
    rw [recover_turns _ _ kept, data, append_nil, readWalFile_serializeAll fits keyed, file]
    simp [Except.map]

/-- The next record, appended behind its own torn entry, is taken for the missing part of it. -/
theorem survives_fails :
    tornEntry <+: serializeRecord crc32 nextRecord ∧
      tornEntry ≠ serializeRecord crc32 nextRecord ∧
      ¬ SurvivesTail crc32 walRecords tornEntry := by
  refine ⟨List.take_prefix _ _, by decide +kernel, ?_⟩
  intro survives
  have recovered := survives [nextRecord] (by simpa using nextRecord_fits) (by decide)
    ⟨false, 0, 0, true⟩ [.drained (.append (serializeRecord crc32 nextRecord) 1) [.flush 0]] (by decide)
    (by simp [cmds, data, serializeAll])
  revert recovered
  decide +kernel

theorem survives_iff_clean_end : SurvivesTail crc32 walRecords [] :=
  (survives_iff crc32 walRecords_fits (by decide) nextRecord_fits nil_prefix (by decide +kernel)).2 rfl

end StreamHouse.Storage
