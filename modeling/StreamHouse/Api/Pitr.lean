import Mathlib.Data.String.Basic
import StreamHouse.Core.Json
import StreamHouse.Lib.OrderedMap

/-!
# Point-in-time recovery

`PitrManager`: a log of changes in segments, base backups, the pruning of both, and recovery
from a backup and the changes after it. Every reading of the clock is an argument.
-/

namespace StreamHouse.Api

open Lib OrderedMap

/-! ## Configuration -/

inductive PitrError where
  | config (message : String)
  | wal (message : String)
  | recovery (message : String)
  | invalidTimestamp (message : String)
  | noBackupAvailable (timestamp : Int)

/-- The durations are in nanoseconds. -/
structure PitrConfig where
  baseBackupInterval : Nat
  walRetention : Nat
  walSegmentSize : Nat
  verifyWal : Bool
  backupRetentionCount : Nat

/-- `Default`. -/
def PitrConfig.default : PitrConfig where
  baseBackupInterval := 3600 * 10 ^ 9
  walRetention := 86400 * 7 * 10 ^ 9
  walSegmentSize := 16 * 1024 * 1024
  verifyWal := true
  backupRetentionCount := 24

def PitrConfig.validate (config : PitrConfig) : Except PitrError Unit :=
  if config.baseBackupInterval = 0 then .error (.config "Base backup interval must be greater than zero")
  else if config.walRetention < config.baseBackupInterval then
    .error (.config "WAL retention must be at least as long as backup interval")
  else if config.backupRetentionCount = 0 then .error (.config "Backup retention count must be at least 1")
  else .ok ()

/-! ## Operations -/

inductive WalOperation where
  | topicCreated (topicId topicName : String) (partitions replicationFactor : Nat) (config : Json)
  | topicDeleted (topicId topicName : String)
  | topicConfigUpdated (topicId : String) (oldConfig newConfig : Json)
  | consumerGroupCreated (groupId groupName : String)
  | consumerGroupOffsetCommitted (groupId topic : String) (partition : Nat) (offset : Int)
  | consumerGroupDeleted (groupId : String)
  | aclCreated (resourceType resourceName principal permission : String)
  | aclDeleted (resourceType resourceName principal : String)
  | userCreated (userId username : String)
  | userDeleted (userId : String)
  | schemaRegistered (subject : String) (version schemaId : Nat)
  | custom (operationType : String) (data : Json)
  | checkpoint (backupId : String)

structure WalEntry where
  lsn : Nat
  timestamp : Int
  operation : WalOperation
  prevHash : String
  hash : String

/-- What other packages compute: SHA-256 over an entry's fields and over `genesis`, the length of
an entry's JSON, and a timestamp's text. -/
structure Codec where
  computeHash : Nat → Int → WalOperation → String → String
  genesis : String
  jsonLength : WalEntry → Nat
  display : Int → String

variable (codec : Codec)

namespace WalEntry

def new (lsn : Nat) (operation : WalOperation) (prevHash : String) (timestamp : Int) : WalEntry :=
  ⟨lsn, timestamp, operation, prevHash, codec.computeHash lsn timestamp operation prevHash⟩

def verify (entry : WalEntry) : Bool :=
  entry.hash = codec.computeHash entry.lsn entry.timestamp entry.operation entry.prevHash

end WalEntry

/-- A hash map is a function here. -/
@[ext] structure SystemSnapshot where
  topics : String → Option Json
  consumerGroups : String → Option Json
  acls : List Json
  users : String → Option Json
  schemas : String → Option Json
  lsn : Nat
  timestamp : Int

/-- `Default`: the empty state. -/
def SystemSnapshot.default : SystemSnapshot :=
  ⟨fun _ => none, fun _ => none, [], fun _ => none, fun _ => none, 0, 0⟩

/-- `json!` of an integer, a `u32` or an `i64`. -/
def jsonInt (n : Int) : Json := .number (if n < 0 then .negInt (Fin.ofNat _ (-1 - n).toNat) else .posInt (BitVec.ofInt 64 n))

/-- An update of a map's value under a key, where it has one. -/
def modify (m : String → Option Json) (key : String) (f : Json → Json) : String → Option Json :=
  Function.update m key ((m key).map f)

/-- `topic["config"] = new_config`, on an object. -/
def setConfig (newConfig : Json) : Json → Json
  | .object fields => .object (insert "config" newConfig fields)
  | topic => topic

/-- `group["offsets"][key] = offset`, on objects. -/
def setOffset (key : String) (offset : Int) : Json → Json
  | .object fields =>
    match (Json.find fields "offsets").getD (.object []) with
    | .object offsets => .object (insert "offsets" (.object (insert key (jsonInt offset) offsets)) fields)
    | _ => .object fields
  | group => group

/-- The `retain` of `AclDeleted`: some field is another. -/
def aclStays (resourceType resourceName principal : String) (acl : Json) : Bool :=
  (acl.get "resource_type").bind Json.asStr ≠ some resourceType || (acl.get "resource_name").bind Json.asStr ≠ some resourceName ||
    (acl.get "principal").bind Json.asStr ≠ some principal

def applyOperation (state : SystemSnapshot) : WalOperation → SystemSnapshot
  | .topicCreated topicId topicName partitions replicationFactor config =>
    { state with
      topics := Function.update state.topics topicId (some (.object [("config", config), ("id", .string topicId),
        ("name", .string topicName), ("partitions", jsonInt partitions), ("replication_factor", jsonInt replicationFactor)])) }
  | .topicDeleted topicId _ => { state with topics := Function.update state.topics topicId none }
  | .topicConfigUpdated topicId _ newConfig => { state with topics := modify state.topics topicId (setConfig newConfig) }
  | .consumerGroupCreated groupId groupName =>
    { state with
      consumerGroups := Function.update state.consumerGroups groupId
        (some (.object [("id", .string groupId), ("name", .string groupName), ("offsets", .object [])])) }
  | .consumerGroupOffsetCommitted groupId topic partition offset =>
    { state with consumerGroups := modify state.consumerGroups groupId (setOffset (topic ++ "-" ++ toString partition) offset) }
  | .consumerGroupDeleted groupId => { state with consumerGroups := Function.update state.consumerGroups groupId none }
  | .aclCreated resourceType resourceName principal permission =>
    { state with
      acls := state.acls ++ [.object [("permission", .string permission), ("principal", .string principal),
        ("resource_name", .string resourceName), ("resource_type", .string resourceType)]] }
  | .aclDeleted resourceType resourceName principal =>
    { state with acls := state.acls.filter (aclStays resourceType resourceName principal) }
  | .userCreated userId username =>
    { state with users := Function.update state.users userId (some (.object [("id", .string userId), ("username", .string username)])) }
  | .userDeleted userId => { state with users := Function.update state.users userId none }
  | .schemaRegistered subject version schemaId =>
    { state with
      schemas := Function.update state.schemas (subject ++ "-" ++ toString version)
        (some (.object [("schema_id", jsonInt schemaId), ("subject", .string subject), ("version", jsonInt version)])) }
  | .custom _ _ => state
  | .checkpoint _ => state

/-- `apply_wal_entry`. -/
def applyWalEntry (state : SystemSnapshot) (entry : WalEntry) : SystemSnapshot :=
  { applyOperation state entry.operation with lsn := entry.lsn, timestamp := entry.timestamp }

/-! ## The manager -/

structure WalSegment where
  startLsn : Nat
  endLsn : Nat
  entries : List WalEntry
  closedAt : Option Int

structure BaseBackup where
  id : String
  createdAt : Int
  startLsn : Nat
  endLsn : Nat
deriving DecidableEq

/-- `PitrManager`; `memoryState` is the one snapshot it holds. -/
structure PitrManager where
  config : PitrConfig
  currentLsn : Nat
  activeSegment : WalSegment
  archivedSegments : List (Nat × WalSegment)
  backups : List (Nat × BaseBackup)
  lastHash : String
  memoryState : Option SystemSnapshot

inductive RecoveryTarget where
  | timestamp (timestamp : Int)
  | lsn (lsn : Nat)
  | latest
  | backup (id : String)

structure RecoveryResult where
  snapshot : SystemSnapshot
  baseBackupId : String
  walEntriesReplayed : Nat
  reachedTarget : RecoveryTarget

namespace PitrManager

def new (config : PitrConfig) : Except PitrError PitrManager := do
  config.validate
  .ok ⟨config, 0, ⟨0, 0, [], none⟩, [], [], codec.genesis, none⟩

/-- `rotate_segment`. -/
def rotateSegment (m : PitrManager) (now : Int) : PitrManager :=
  let oldSegment := { m.activeSegment with closedAt := some now }
  { m with
    activeSegment := ⟨oldSegment.endLsn + 1, oldSegment.endLsn, [], none⟩
    archivedSegments :=
      if oldSegment.entries.isEmpty then m.archivedSegments
      else insert oldSegment.startLsn oldSegment m.archivedSegments }

/-- `log_change`. -/
def logChange (m : PitrManager) (operation : WalOperation) (now closed : Int) : Except PitrError Nat × PitrManager :=
  let currentLsn := m.currentLsn + 1
  let entry := WalEntry.new codec currentLsn operation m.lastHash now
  if m.config.verifyWal && !entry.verify codec then (.error (.wal "Entry verification failed"), { m with currentLsn := currentLsn })
  else
    let segment := { m.activeSegment with entries := m.activeSegment.entries ++ [entry], endLsn := currentLsn }
    let m' := { m with currentLsn := currentLsn, lastHash := entry.hash, activeSegment := segment }
    let segmentSize := (segment.entries.map codec.jsonLength).sum
    (.ok currentLsn, if m.config.walSegmentSize ≤ segmentSize then m'.rotateSegment closed else m')

/-- `cleanup_old_backups`. -/
def cleanupOldBackups (retained : Nat) : List (Nat × BaseBackup) → List (Nat × BaseBackup)
  | [] => []
  | oldest :: rest => if retained < rest.length + 1 then cleanupOldBackups retained rest else oldest :: rest

/-- `create_base_backup`. -/
def createBaseBackup (m : PitrManager) (snapshot : SystemSnapshot) (id : String) (created now closed : Int) :
    Except PitrError BaseBackup × PitrManager :=
  let backup : BaseBackup := ⟨id, created, m.currentLsn, m.currentLsn⟩
  match m.logChange codec (.checkpoint id) now closed with
  | (.error e, m') => (.error e, m')
  | (.ok _, m') => (.ok backup, { m' with
      backups := cleanupOldBackups m.config.backupRetentionCount (insert backup.startLsn backup m'.backups)
      memoryState := some snapshot })

/-- `chrono::Duration::from_std`: at most `i64::MAX` milliseconds. -/
def fromStd (duration : Nat) : Option Int := if duration ≤ (2 ^ 63 - 1) * 10 ^ 6 then some duration else none

/-- `cleanup_expired_wal`. -/
def cleanupExpiredWal (m : PitrManager) (now : Int) : Except PitrError Nat × PitrManager :=
  match fromStd m.config.walRetention with
  | none => (.error (.config "Invalid retention duration: Source duration value is out of range for the target type"), m)
  | some retention =>
    let cutoff := now - retention
    let oldestBackupLsn := (m.backups.head?.map Prod.fst).getD 0
    let archived := m.archivedSegments.filter fun segment =>
      match segment.2.closedAt with
      | some closedAt => decide (oldestBackupLsn ≤ segment.2.endLsn) || decide (cutoff < closedAt)
      | none => true
    (.ok (m.archivedSegments.length - archived.length), { m with archivedSegments := archived })

/-! ## Recovery -/

/-- `find_lsn_for_timestamp`: from the end of the log. -/
def findLsnForTimestamp (m : PitrManager) (timestamp : Int) : Except PitrError Nat :=
  match m.activeSegment.entries.reverse.find? fun entry => entry.timestamp ≤ timestamp with
  | some entry => .ok entry.lsn
  | none =>
    match m.archivedSegments.reverse.findSome? fun segment =>
        segment.2.entries.reverse.find? fun entry => entry.timestamp ≤ timestamp with
    | some entry => .ok entry.lsn
    | none => .error (.invalidTimestamp ("No WAL entry found before " ++ codec.display timestamp))

def snapshotInMemory (m : PitrManager) : Except PitrError SystemSnapshot :=
  match m.memoryState with
  | some snapshot => .ok snapshot
  | none => .error (.recovery "Backup snapshot not found in memory")

/-- The latest backup up to an LSN; whichever it is, the snapshot is the one in memory. -/
def backupUpTo (m : PitrManager) (targetLsn : Nat) (asked : Int) : Except PitrError (BaseBackup × SystemSnapshot) :=
  match lastUpTo m.backups targetLsn with
  | some backup => do .ok (backup.2, ← m.snapshotInMemory)
  | none => .error (.noBackupAvailable asked)

/-- `find_base_backup`. -/
def findBaseBackup (m : PitrManager) (target : RecoveryTarget) (now : Int) : Except PitrError (BaseBackup × SystemSnapshot) :=
  match target with
  | .timestamp timestamp => do m.backupUpTo (← m.findLsnForTimestamp codec timestamp) timestamp
  | .lsn lsn => m.backupUpTo lsn now
  | .latest => m.backupUpTo m.currentLsn now
  | .backup id =>
    match m.backups.find? fun backup => backup.2.id = id with
    | some backup => do .ok (backup.2, ← m.snapshotInMemory)
    | none => .error (.recovery ("Backup " ++ id ++ " not found"))

/-- `verify_wal_chain`. -/
def verifyWalChain (entries : List WalEntry) : Except PitrError Unit :=
  match entries.find? fun entry => !entry.verify codec with
  | some entry => .error (.wal ("WAL entry " ++ toString entry.lsn ++ " failed verification"))
  | none => .ok ()

/-- The stored entries of a range of LSNs, in order. -/
def entriesWithin (m : PitrManager) (fromLsn targetLsn : Nat) : Except PitrError (List WalEntry) :=
  let within := fun entry : WalEntry => decide (fromLsn < entry.lsn) && decide (entry.lsn ≤ targetLsn)
  let archived := m.archivedSegments.flatMap fun segment => segment.2.entries.filter within
  let active := m.activeSegment.entries.filter within
  let entries := (archived ++ active).mergeSort fun a b => a.lsn ≤ b.lsn
  do
    verifyWalChain codec entries
    .ok entries

/-- `collect_wal_entries`. -/
def collectWalEntries (m : PitrManager) (fromLsn : Nat) : RecoveryTarget → Except PitrError (List WalEntry)
  | .timestamp timestamp => do m.entriesWithin codec fromLsn (← m.findLsnForTimestamp codec timestamp)
  | .lsn lsn => m.entriesWithin codec fromLsn lsn
  | .latest => m.entriesWithin codec fromLsn m.currentLsn
  | .backup _ => .ok []

def recover (m : PitrManager) (target : RecoveryTarget) (now : Int) : Except PitrError RecoveryResult := do
  let (backup, snapshot) ← m.findBaseBackup codec target now
  let walEntries ← m.collectWalEntries codec backup.startLsn target
  .ok ⟨walEntries.foldl applyWalEntry snapshot, backup.id, walEntries.length, target⟩

end PitrManager

end StreamHouse.Api
