import Mathlib.Algebra.GroupWithZero.Nat
import Mathlib.Data.String.Basic
import StreamHouse.Lib.OrderedMap

/-!
# The audit store

`AuditStore` of `audit_store.rs`: records with a hash over sequence number, entry and the hash of the
record before, kept in memory or in log files that are named by the second they were begun in. Appends
run concurrently; each takes the steps below, one lock or one atomic at a time. The hash function, and
how long the line of a record is, are parameters.
-/

namespace StreamHouse.Api

open Lib

structure StoredAuditRecord (Entry : Type) where
  seq : Nat
  storedAt : Int
  entry : Entry
  prevHash : String
  hash : String

inductive AuditBackend where
  | file
  | memory
deriving DecidableEq

structure AuditStoreConfig where
  backend : AuditBackend
  maxFileSize : Nat
  verifyOnStartup : Bool

structure VerificationResult where
  valid : Bool
  recordsVerified : Nat
  firstInvalid : Option Nat
  error : Option String

/-- What the hash is computed from and how long a line gets. -/
structure AuditFormat (Entry : Type) where
  /-- SHA-256 over number, entry and previous hash. -/
  computeHash : Nat → Entry → String → String
  lineLength : StoredAuditRecord Entry → Nat

namespace AuditFormat

variable {Entry : Type} (format : AuditFormat Entry)

/-- `StoredAuditRecord::new`. -/
def record (seq : Nat) (storedAt : Int) (entry : Entry) (prevHash : String) : StoredAuditRecord Entry :=
  ⟨seq, storedAt, entry, prevHash, format.computeHash seq entry prevHash⟩

/-- `StoredAuditRecord::verify`. -/
def verify (r : StoredAuditRecord Entry) : Bool := r.hash = format.computeHash r.seq r.entry r.prevHash

/-- The loop of `verify_files` and `verify_memory`. -/
def verifyLoop (prevHash : String) (recordsVerified : Nat) : List (StoredAuditRecord Entry) → VerificationResult
  | [] => ⟨true, recordsVerified, none, none⟩
  | r :: rest =>
    if r.prevHash ≠ prevHash then
      ⟨false, recordsVerified, some r.seq,
        some ("Chain broken: expected prev_hash '" ++ prevHash ++ "', got '" ++ r.prevHash ++ "'")⟩
    else if ¬ format.verify r then ⟨false, recordsVerified, some r.seq, some "Record hash mismatch"⟩
    else verifyLoop r.hash (recordsVerified + 1) rest

end AuditFormat

/-! ## Appends in progress -/

/-- Where an append is. `failed` is after an error of the file system, with nothing stored. -/
inductive Appending (Entry : Type) where
  | idle
  /-- `sequence` has been counted up. -/
  | numbered (entry : Entry) (seq : Nat)
  /-- `last_hash` has been read. -/
  | created (r : StoredAuditRecord Entry)
  /-- `last_hash` has been written. -/
  | hashed (r : StoredAuditRecord Entry)
  /-- The current file was found to be full. -/
  | rotating (r : StoredAuditRecord Entry)
  /-- The new file has been set, its size not yet. -/
  | rotated (r : StoredAuditRecord Entry)
  | ready (r : StoredAuditRecord Entry)
  /-- The current file has been read. -/
  | chosen (r : StoredAuditRecord Entry) (file : Nat)
  /-- The file is there. -/
  | opened (r : StoredAuditRecord Entry) (file : Nat)
  /-- The line has been written, and not yet counted. -/
  | written (length : Nat)
  | failed (r : StoredAuditRecord Entry)

/-- The number that an append has taken and not stored. -/
def Appending.seq? {Entry : Type} : Appending Entry → Option Nat
  | .idle | .written _ => none
  | .numbered _ seq => some seq
  | .created r | .hashed r | .rotating r | .rotated r | .ready r | .chosen r _ | .opened r _ | .failed r => some r.seq

/-- The record whose hash has become `last_hash` and that has not been stored. -/
def Appending.record? {Entry : Type} : Appending Entry → Option (StoredAuditRecord Entry)
  | .idle | .written _ | .numbered _ _ | .created _ => none
  | .hashed r | .rotating r | .rotated r | .ready r | .chosen r _ | .opened r _ | .failed r => some r

/-- The directory, and a store on it with its appends. File names are the seconds in them, which they are sorted by. -/
structure AuditState (Entry : Type) where
  files : List (Nat × List (StoredAuditRecord Entry))
  isOpen : Bool
  sequence : Nat
  lastHash : String
  currentFile : Option Nat
  currentSize : Nat
  memoryStore : List (StoredAuditRecord Entry)
  appends : Nat → Appending Entry
  /-- The appends that the store has begun. -/
  started : List Nat

/-- One step of an append, or the store is opened, which ends what a store before it was doing. `now` is the second that
the clock shows. -/
inductive AuditStep (Entry : Type) where
  | number (id : Nat) (entry : Entry)
  | readHash (id : Nat) (storedAt : Int)
  | writeHash (id : Nat)
  | checkSize (id : Nat)
  | rotateFile (id now : Nat)
  | rotateSize (id : Nat)
  | chooseFile (id now : Nat)
  | openFile (id : Nat)
  | writeLine (id : Nat)
  | addSize (id : Nat)
  | push (id : Nat)
  | fail (id : Nat)
  | reopen (now : Nat)

namespace AuditState

variable {Entry : Type} (format : AuditFormat Entry) (config : AuditStoreConfig)

/-- Nothing is stored and no store is open. -/
def initial : AuditState Entry where
  files := []
  isOpen := false
  sequence := 0
  lastHash := ""
  currentFile := none
  currentSize := 0
  memoryStore := []
  appends := fun _ => .idle
  started := []

variable (s : AuditState Entry)

/-- The records in storage order. -/
def stored : List (StoredAuditRecord Entry) :=
  match config.backend with
  | .file => s.files.flatMap Prod.snd
  | .memory => s.memoryStore

/-- `verify_chain`. -/
def verifyChain : VerificationResult := format.verifyLoop "" 0 (s.stored config)

def goOn (id : Nat) (phase : Appending Entry) : AuditState Entry := { s with appends := Function.update s.appends id phase }

/-- `load_file_state`: the last record of a file. -/
def loadFileState (records : List (StoredAuditRecord Entry)) : Nat × String :=
  match records.getLast? with
  | some r => (r.seq, r.hash)
  | none => (0, "")

/-- `init_file_backend`. -/
def initFileBackend (now : Nat) : AuditState Entry :=
  match s.files.getLast? with
  | some latest =>
    { s with
      sequence := (loadFileState latest.2).1
      lastHash := (loadFileState latest.2).2
      currentSize := (latest.2.map format.lineLength).sum
      currentFile := some latest.1 }
  | none => { s with currentFile := some now }

/-- A new store, with nothing in progress. -/
def fresh : AuditState Entry := { initial with files := s.files, isOpen := true }

/-- The new store after its backend has been initialized. -/
def load (now : Nat) : AuditState Entry :=
  match config.backend with
  | .file => s.fresh.initFileBackend format now
  | .memory => s.fresh

/-- `AuditStore::new`: no store is opened if the chain is found to be broken. -/
def reopen (now : Nat) : AuditState Entry :=
  let store := s.load format config now
  if config.verifyOnStartup ∧ ¬ (store.verifyChain format config).valid then { store with isOpen := false } else store

/-- The records of a file. -/
def contents (file : Nat) : List (StoredAuditRecord Entry) := (OrderedMap.get s.files file).getD []

/-- A step of an open store. The file is never unset once the store has been opened; an append that finds it unset
would name it by the clock. -/
def advance : AuditStep Entry → AuditState Entry
  | .number id entry =>
    match s.appends id with
    | .idle => { s with sequence := s.sequence + 1, started := id :: s.started }.goOn id (.numbered entry (s.sequence + 1))
    | _ => s
  | .readHash id storedAt =>
    match s.appends id with
    | .numbered entry seq => s.goOn id (.created (format.record seq storedAt entry s.lastHash))
    | _ => s
  | .writeHash id =>
    match s.appends id with
    | .created r => { s with lastHash := r.hash }.goOn id (.hashed r)
    | _ => s
  | .checkSize id =>
    match config.backend, s.appends id with
    | .file, .hashed r => s.goOn id (if config.maxFileSize ≤ s.currentSize then .rotating r else .ready r)
    | _, _ => s
  | .rotateFile id now =>
    match s.appends id with
    | .rotating r => { s with currentFile := some now }.goOn id (.rotated r)
    | _ => s
  | .rotateSize id =>
    match s.appends id with
    | .rotated r => { s with currentSize := 0 }.goOn id (.ready r)
    | _ => s
  | .chooseFile id now =>
    match s.appends id with
    | .ready r => { s with currentFile := some (s.currentFile.getD now) }.goOn id (.chosen r (s.currentFile.getD now))
    | _ => s
  | .openFile id =>
    match s.appends id with
    | .chosen r file => { s with files := OrderedMap.insert file (s.contents file) s.files }.goOn id (.opened r file)
    | _ => s
  | .writeLine id =>
    match config.backend, s.appends id with
    | .file, .opened r file =>
      { s with files := OrderedMap.insert file (s.contents file ++ [r]) s.files }.goOn id (.written (format.lineLength r))
    | _, _ => s
  | .addSize id =>
    match s.appends id with
    | .written length => { s with currentSize := s.currentSize + length }.goOn id .idle
    | _ => s
  | .push id =>
    match config.backend, s.appends id with
    | .memory, .hashed r => { s with memoryStore := s.memoryStore ++ [r] }.goOn id .idle
    | _, _ => s
  | .fail id =>
    match s.appends id with
    | .chosen r _ => s.goOn id (.failed r)
    | .opened r _ => s.goOn id (.failed r)
    | .written _ => s.goOn id .idle
    | _ => s
  | .reopen _ => s

def step (a : AuditStep Entry) : AuditState Entry :=
  match a with
  | .reopen now => s.reopen format config now
  | a => if s.isOpen then s.advance format config a else s

end AuditState

end StreamHouse.Api
