import StreamHouse.Storage.ObjectKeys
import StreamHouse.Storage.WalFormat

/-!
# Whose WAL file is it

`WAL::open` puts topic, partition and agent into a file name with hyphens between them, and
`WAL::recover_partition` takes them back by the front of the name. Where a path with a slash in it leads is
the file system's affair: `denotes` stands for it.
-/

namespace StreamHouse.Storage

open List

/-- The arguments of `WAL::open` that name the file. -/
structure WalFile where
  topic : String
  partitionId : Nat
  agentId : Option String

def walSuffix : List Char := ".wal".toList

/-- `format!("{}-{}", topic, partition_id)`. -/
def partitionStem (topic : String) (partitionId : Nat) : List Char := topic.toList ++ '-' :: digits partitionId

/-- The name without its suffix. -/
def WalFile.stem (f : WalFile) : List Char :=
  match f.agentId with
  | some agentId => partitionStem f.topic f.partitionId ++ '-' :: agentId.toList
  | none => partitionStem f.topic f.partitionId

/-- The name that `WAL::open` joins to the directory. -/
def WalFile.filename (f : WalFile) : List Char := f.stem ++ walSuffix

/-- The file was opened for this topic and partition. -/
def WalFile.IsFor (topic : String) (partitionId : Nat) (f : WalFile) : Prop := f.topic = topic ∧ f.partitionId = partitionId

section Recover

variable (topic : String) (partitionId : Nat) (ownAgentId : String)

/-- The names that the loop of `recover_partition` does not `continue` on. -/
def isStale (name : List Char) : Bool :=
  let front := partitionStem topic partitionId
  if !front.isPrefixOf name || !walSuffix.isSuffixOf name then false
  else if name = (WalFile.mk topic partitionId (some ownAgentId)).filename then false
  else
    let afterPrefix := name.drop front.length
    if afterPrefix ≠ walSuffix ∧ ¬ ['-'].isPrefixOf afterPrefix then false else true

variable {ε : Type} (readWalFile : List Char → Except ε (List WALRecord))

/-- `WAL::recover_partition` on the names in the directory: the records, and the files to delete. A file that
cannot be read is passed over. -/
def recoverPartition (names : List (List Char)) : List WALRecord × List (List Char) :=
  names.foldl (fun (allRecords, staleFiles) name =>
    if isStale topic partitionId ownAgentId name then
      match readWalFile name with
      | .ok records => (allRecords ++ records, staleFiles ++ [name])
      | .error _ => (allRecords, staleFiles)
    else (allRecords, staleFiles)) ([], [])

end Recover

/-- A directory of WAL files: what was opened in it, and the names that are listed for it. -/
structure WalDirectory (φ : Type) where
  /-- The file that a name joined to the directory leads to. -/
  denotes : List Char → φ
  /-- Names without a slash are the directory's own. -/
  plain : ∀ a b, '/' ∉ a → '/' ∉ b → denotes a = denotes b → a = b
  written : List WalFile
  names : List (List Char)
  listed : ∀ name, name ∈ names ↔ '/' ∉ name ∧ ∃ f ∈ written, denotes name = denotes f.filename

namespace WalDirectory

variable {φ : Type} (d : WalDirectory φ) (topic : String) (partitionId : Nat) (ownAgentId : String)

/-- The file of this agent, which `PartitionWriter::new` opens and recovers by itself. -/
def ownFile : WalFile := ⟨topic, partitionId, some ownAgentId⟩

/-- The files that `PartitionWriter::new` reads. -/
def filesRead : List φ :=
  (d.names.filter (isStale topic partitionId ownAgentId)).map d.denotes ++ [d.denotes (ownFile topic partitionId ownAgentId).filename]

/-- The files that it deletes when the records are in a segment. -/
def filesDeleted {ε : Type} (readWalFile : List Char → Except ε (List WALRecord)) : List φ :=
  (recoverPartition topic partitionId ownAgentId readWalFile d.names).2.map d.denotes

/-- What is read and deleted was written for this partition and no other, and all of that is read. -/
structure Isolated : Prop where
  only : ∀ file ∈ d.filesRead topic partitionId ownAgentId, ∀ f ∈ d.written, d.denotes f.filename = file →
    f.IsFor topic partitionId
  deleted : ∀ (ε : Type) (readWalFile : List Char → Except ε (List WALRecord)),
    ∀ file ∈ d.filesDeleted topic partitionId ownAgentId readWalFile, ∀ f ∈ d.written, d.denotes f.filename = file →
      f.IsFor topic partitionId
  all : ∀ f ∈ d.written, f.IsFor topic partitionId → d.denotes f.filename ∈ d.filesRead topic partitionId ownAgentId

end WalDirectory

open WalDirectory

/-! ## Names -/

/-- The front of a name that the recovery takes for the partition's. -/
def Claimed (topic : String) (partitionId : Nat) (stem : List Char) : Prop :=
  stem = partitionStem topic partitionId ∨ partitionStem topic partitionId ++ ['-'] <+: stem

section Names

variable {topic : String} {partitionId : Nat} {ownAgentId : String}

theorem hyphen_notMem_walSuffix : '-' ∉ walSuffix := by decide

/-- The suffix has no hyphen, so the hyphen behind the partition is in front of it. -/
theorem claimed_iff_append {stem : List Char} : Claimed topic partitionId stem ↔
    stem ++ walSuffix = partitionStem topic partitionId ++ walSuffix ∨
      partitionStem topic partitionId ++ ['-'] <+: stem ++ walSuffix := by
  apply or_congr
  · exact (append_left_inj walSuffix).symm
  · constructor
    · intro front
      exact front.trans (prefix_append _ _)
    · rintro ⟨rest, same⟩
      rcases append_eq_append_iff.mp same with ⟨between, stem_, -⟩ | ⟨between, front, suffix⟩
      · exact ⟨between, stem_.symm⟩
      · rcases eq_nil_or_concat between with rfl | ⟨inner, last, rfl⟩
        · rw [append_nil] at front
          exact front ▸ prefix_rfl
        · have hyphen : '-' = last := by
            have ends := congrArg getLast? front
            simpa using ends
          exact absurd (by rw [suffix, hyphen]; simp) hyphen_notMem_walSuffix

/-- What is in front of the suffix decides. -/
theorem isStale_iff {name : List Char} : isStale topic partitionId ownAgentId name = true ↔
    name ≠ (ownFile topic partitionId ownAgentId).filename ∧
      ∃ stem, name = stem ++ walSuffix ∧ Claimed topic partitionId stem := by
  have claimed : (∃ stem, name = stem ++ walSuffix ∧ Claimed topic partitionId stem) ↔
      walSuffix <:+ name ∧ (name = partitionStem topic partitionId ++ walSuffix ∨
        partitionStem topic partitionId ++ ['-'] <+: name) := by
    constructor
    · rintro ⟨stem, rfl, own⟩
      exact ⟨suffix_append _ _, claimed_iff_append.mp own⟩
    · rintro ⟨⟨stem, rfl⟩, own⟩
      exact ⟨stem, rfl, claimed_iff_append.mpr own⟩
  have fronts : (partitionStem topic partitionId).isPrefixOf name = true ↔ partitionStem topic partitionId <+: name :=
    isPrefixOf_iff_prefix
  have suffixes : walSuffix.isSuffixOf name = true ↔ walSuffix <:+ name := isSuffixOf_iff_suffix
  rw [claimed]
  by_cases front : partitionStem topic partitionId <+: name
  · obtain ⟨after, rfl⟩ := front
    have hyphens : ['-'].isPrefixOf after = true ↔ ['-'] <+: after := isPrefixOf_iff_prefix
    rw [append_right_inj, prefix_append_right_inj, ← hyphens, ← suffixes]
    unfold isStale
    dsimp only
    rw [fronts.mpr (prefix_append _ _), drop_left,
      show WalFile.mk topic partitionId (some ownAgentId) = ownFile topic partitionId ownAgentId from rfl]
    by_cases own : partitionStem topic partitionId ++ after = (ownFile topic partitionId ownAgentId).filename
    · simp [own]
    · by_cases whole : after = walSuffix
      · simp [whole]
      · simp [own, whole]
  · have other : isStale topic partitionId ownAgentId name = false := by
      unfold isStale
      dsimp only
      rw [Bool.eq_false_iff.mpr fun starts => front (fronts.mp starts)]
      rfl
    rw [other]
    constructor
    · intro impossible
      cases impossible
    · rintro ⟨-, -, rfl | longer⟩
      · exact absurd (prefix_append _ _) front
      · exact absurd ((prefix_append _ _).trans longer) front

theorem claimed_own : Claimed topic partitionId (ownFile topic partitionId ownAgentId).stem :=
  .inr ⟨ownAgentId.toList, by simp [ownFile, WalFile.stem]⟩

theorem claimed_of_isFor {f : WalFile} (same : f.IsFor topic partitionId) : Claimed topic partitionId f.stem := by
  obtain ⟨rfl, rfl⟩ := same
  unfold WalFile.stem
  cases f.agentId with
  | none => exact .inl rfl
  | some agentId => exact .inr ⟨agentId.toList, by simp⟩

/-- **The loop** goes over the names of the partition's files, and keeps those that can be read. -/
theorem recoverPartition_eq {ε : Type} (readWalFile : List Char → Except ε (List WALRecord)) (names : List (List Char)) :
    recoverPartition topic partitionId ownAgentId readWalFile names =
      ((names.filter (isStale topic partitionId ownAgentId)).flatMap fun name => (readWalFile name).toOption.getD [],
        (names.filter (isStale topic partitionId ownAgentId)).filter fun name => (readWalFile name).isOk) := by
  suffices ∀ records stale, names.foldl (fun (allRecords, staleFiles) name =>
      if isStale topic partitionId ownAgentId name then
        match readWalFile name with
        | .ok found => (allRecords ++ found, staleFiles ++ [name])
        | .error _ => (allRecords, staleFiles)
      else (allRecords, staleFiles)) (records, stale) =
      (records ++ (names.filter (isStale topic partitionId ownAgentId)).flatMap fun name => (readWalFile name).toOption.getD [],
        stale ++ (names.filter (isStale topic partitionId ownAgentId)).filter fun name => (readWalFile name).isOk) from
    this [] []
  induction names with
  | nil => simp
  | cons name names ih =>
    intro records stale
    by_cases own : isStale topic partitionId ownAgentId name = true
    · cases read : readWalFile name with
      | ok found => simp [own, read, ih, Except.toOption, Except.isOk, Except.toBool]
      | error e => simp [own, read, ih, Except.toOption, Except.isOk, Except.toBool]
    · simp [own, ih]

end Names

namespace WalDirectory

variable {φ : Type} {d : WalDirectory φ} {topic : String} {partitionId : Nat} {ownAgentId : String}

/-- What is deleted was read. -/
theorem filesDeleted_subset {ε : Type} (readWalFile : List Char → Except ε (List WALRecord)) :
    ∀ file ∈ d.filesDeleted topic partitionId ownAgentId readWalFile, file ∈ d.filesRead topic partitionId ownAgentId := by
  intro file member
  rw [filesDeleted, recoverPartition_eq] at member
  obtain ⟨name, found, rfl⟩ := mem_map.mp member
  exact mem_append_left _ (mem_map_of_mem (mem_of_mem_filter found))

/-- The file is this agent's own, or a name in the directory that the recovery claims leads to it. -/
def Reached (d : WalDirectory φ) (topic : String) (partitionId : Nat) (ownAgentId : String) (f : WalFile) : Prop :=
  d.denotes f.filename = d.denotes (ownFile topic partitionId ownAgentId).filename ∨
    ∃ stem, '/' ∉ stem ∧ Claimed topic partitionId stem ∧ d.denotes (stem ++ walSuffix) = d.denotes f.filename

theorem slash_notMem_filename {stem : List Char} : '/' ∉ stem ++ walSuffix ↔ '/' ∉ stem := by
  have suffix : '/' ∉ walSuffix := by decide
  simp [suffix]

theorem mem_filesRead {f : WalFile} (written : f ∈ d.written) :
    d.denotes f.filename ∈ d.filesRead topic partitionId ownAgentId ↔ d.Reached topic partitionId ownAgentId f := by
  unfold filesRead
  rw [mem_append, mem_singleton, mem_map, or_comm]
  constructor
  · rintro (own | ⟨name, found, same⟩)
    · exact .inl own
    · obtain ⟨listed, stale⟩ := mem_filter.mp found
      obtain ⟨-, stem, rfl, claimed⟩ := isStale_iff.mp stale
      exact .inr ⟨stem, slash_notMem_filename.mp ((d.listed _).mp listed).1, claimed, same⟩
  · rintro (own | ⟨stem, plain, claimed, same⟩)
    · exact .inl own
    · by_cases own : stem ++ walSuffix = (ownFile topic partitionId ownAgentId).filename
      · rw [own] at same
        exact .inl same.symm
      · have listed := (d.listed (stem ++ walSuffix)).mpr ⟨slash_notMem_filename.mpr plain, f, written, same⟩
        exact .inr ⟨_, mem_filter.mpr ⟨listed, isStale_iff.mpr ⟨own, stem, rfl, claimed⟩⟩, same⟩

theorem isolated_iff_reached : d.Isolated topic partitionId ownAgentId ↔
    ∀ f ∈ d.written, f.IsFor topic partitionId ↔ d.Reached topic partitionId ownAgentId f := by
  constructor
  · intro isolated f written
    rw [← mem_filesRead written]
    exact ⟨isolated.all f written, fun read => isolated.only _ read f written rfl⟩
  · intro reached
    have only : ∀ file ∈ d.filesRead topic partitionId ownAgentId, ∀ f ∈ d.written, d.denotes f.filename = file →
        f.IsFor topic partitionId := by
      rintro _ read f written rfl
      exact (reached f written).mpr ((mem_filesRead written).mp read)
    exact ⟨only, fun ε readWalFile file deleted => only file (filesDeleted_subset readWalFile file deleted),
      fun f written same => (mem_filesRead written).mpr ((reached f written).mp same)⟩

/-- Between names without a slash. -/
theorem reached_iff_claimed {f : WalFile} (plain : '/' ∉ f.filename)
    (ownPlain : '/' ∉ (ownFile topic partitionId ownAgentId).filename) :
    d.Reached topic partitionId ownAgentId f ↔ Claimed topic partitionId f.stem := by
  constructor
  · rintro (own | ⟨stem, stemPlain, claimed, same⟩)
    · have name := d.plain _ _ plain ownPlain own
      rw [append_cancel_right name]
      exact claimed_own
    · have name := d.plain _ _ (slash_notMem_filename.mpr stemPlain) plain same
      rw [← append_cancel_right name]
      exact claimed
  · intro claimed
    exact .inr ⟨f.stem, slash_notMem_filename.mp plain, claimed, rfl⟩

/-- **Recovery keeps to its partition** exactly if the names of the others' files, up to the suffix, are not the
partition's own and do not begin with it and a hyphen; where names with a slash are about, if they lead to the
directory's files of the partition just for the partition. -/
theorem isolated_iff (d : WalDirectory φ) (topic : String) (partitionId : Nat) (ownAgentId : String) :
    d.Isolated topic partitionId ownAgentId ↔ ∀ f ∈ d.written,
      ('/' ∉ f.filename → '/' ∉ (ownFile topic partitionId ownAgentId).filename →
        ¬ f.IsFor topic partitionId → ¬ Claimed topic partitionId f.stem) ∧
      ('/' ∈ f.filename ∨ '/' ∈ (ownFile topic partitionId ownAgentId).filename →
        (f.IsFor topic partitionId ↔ d.Reached topic partitionId ownAgentId f)) := by
  rw [isolated_iff_reached]
  refine forall₂_congr fun f _ => ?_
  by_cases plain : '/' ∉ f.filename ∧ '/' ∉ (ownFile topic partitionId ownAgentId).filename
  · obtain ⟨names, own⟩ := plain
    rw [reached_iff_claimed names own]
    constructor
    · intro same
      refine ⟨fun _ _ other claimed => other (same.mpr claimed), ?_⟩
      rintro (slash | slash)
      · exact absurd slash names
      · exact absurd slash own
    · rintro ⟨clear, -⟩
      refine ⟨claimed_of_isFor, fun claimed => ?_⟩
      exact Classical.byContradiction fun other => clear names own other claimed
  · have slashed : '/' ∈ f.filename ∨ '/' ∈ (ownFile topic partitionId ownAgentId).filename := by
      rw [not_and_or, not_not, not_not] at plain
      exact plain
    constructor
    · intro same
      refine ⟨fun names own => ?_, fun _ => same⟩
      exact absurd ⟨names, own⟩ plain
    · rintro ⟨-, same⟩
      exact same slashed

end WalDirectory

namespace Example

/-- Agent `a` has the log of partition 2 of the topic `orders-1`. -/
def ordersFile : WalFile := ⟨"orders-1", 2, some "a"⟩

def walDirectory : WalDirectory (List Char) where
  denotes := id
  plain _ _ _ _ same := same
  written := [ordersFile]
  names := [ordersFile.filename]
  listed name := by
    have plain : '/' ∉ ordersFile.filename := by decide
    constructor
    · intro member
      obtain rfl := mem_singleton.mp member
      exact ⟨plain, ordersFile, mem_singleton_self _, rfl⟩
    · rintro ⟨-, f, written, same⟩
      obtain rfl := mem_singleton.mp written
      exact mem_singleton.mpr same

end Example

/-- Agent `b` reads and deletes it as one of partition 1 of the topic `orders`. -/
theorem orders_not_isolated : ¬ Example.walDirectory.Isolated "orders" 1 "b" := by
  intro isolated
  have read : Example.ordersFile.filename ∈ Example.walDirectory.filesRead "orders" 1 "b" := by decide
  have own := isolated.only _ read Example.ordersFile (mem_singleton_self _) rfl
  exact absurd own.2 (by decide)

end StreamHouse.Storage
