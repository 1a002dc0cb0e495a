import StreamHouse.Core.I64
import StreamHouse.Kafka.RecordBatch
import StreamHouse.Lib.HashMaps
import StreamHouse.Lib.PrefixScan

/-!
# State stores

The store of the stream processor in RocksDB, an ordered map of bytes, and the one in memory. The name of a
namespace and a null byte come before each key in RocksDB; an entry there may have the time at which it expires.
-/

namespace StreamHouse.Sql.State

open Lib Lib.OrderedMap Lib.HashMaps

/-! ## Bytes -/

instance byteOrder : LinearOrder UInt8 where
  le_refl := UInt8.le_refl
  le_trans := fun _ _ _ => UInt8.le_trans
  le_antisymm := fun _ _ => UInt8.le_antisymm
  le_total := UInt8.le_total
  lt_iff_le_not_ge := by
    intro a b
    rw [UInt8.lt_iff_toNat_lt, UInt8.le_iff_toNat_le, UInt8.le_iff_toNat_le]
    omega
  toDecidableLE := fun a b => inferInstanceAs (Decidable (a ≤ b))
  toDecidableEq := inferInstance
  toDecidableLT := fun a b => inferInstanceAs (Decidable (a < b))

def asBytes (s : String) : List UInt8 := s.toList.flatMap String.utf8EncodeChar

/-- `std::str::from_utf8`. -/
def fromUtf8 (bytes : List UInt8) : Option String := String.fromUTF8? bytes.toByteArray

/-- The chunks of `from_utf8_lossy`: what is no text is a replacement character. -/
def lossyChunks : (fuel : Nat) → List UInt8 → String
  | 0, _ => ""
  | fuel + 1, bytes =>
    match Kafka.utf8Error 0 bytes with
    | none => (fromUtf8 bytes).getD ""
    | some (validUpTo, errorLen) =>
      (fromUtf8 (bytes.take validUpTo)).getD "" ++ String.singleton (Char.ofNat 0xFFFD) ++
        match errorLen with
        | none => ""
        | some n => lossyChunks fuel (bytes.drop (validUpTo + n))

def fromUtf8Lossy (bytes : List UInt8) : String := (fromUtf8 bytes).getD (lossyChunks bytes.length bytes)

/-! ## The store in RocksDB -/

/-- An entry without a time lives forever. -/
structure TtlEntry where
  value : List UInt8
  expiresAtMs : Option Int

namespace TtlEntry

def new (now : Int) (value : List UInt8) (ttlMs : Option Int) : TtlEntry := ⟨value, ttlMs.map fun ttl => I64.wrap (now + ttl)⟩

def isExpired (now : Int) (entry : TtlEntry) : Bool :=
  match entry.expiresAtMs with
  | some exp => decide (exp < now)
  | none => false

end TtlEntry

def makePrefixedKey (ns : String) (key : List UInt8) : List UInt8 := asBytes ns ++ 0 :: key

/-- An entry of a snapshot. -/
structure StateEntry where
  ns : String
  key : List UInt8
  value : List UInt8

/-- The entries that the database has, by their keys. -/
structure RocksDbStateStore where
  db : List (List UInt8 × TtlEntry)
  ascending : Ascending db

namespace RocksDbStateStore

def opened : RocksDbStateStore := ⟨[], .nil⟩

def putRaw (store : RocksDbStateStore) (key : List UInt8) (entry : TtlEntry) : RocksDbStateStore :=
  ⟨insert key entry store.db, store.ascending.insert key entry⟩

def deleteRaw (store : RocksDbStateStore) (key : List UInt8) : RocksDbStateStore :=
  ⟨erase key store.db, store.ascending.erase key⟩

def putWithTtl (store : RocksDbStateStore) (now : Int) (ns : String) (key value : List UInt8) (ttlMs : Option Int) : RocksDbStateStore :=
  store.putRaw (makePrefixedKey ns key) (.new now value ttlMs)

def get (store : RocksDbStateStore) (now : Int) (ns : String) (key : List UInt8) : Option (List UInt8) :=
  match OrderedMap.get store.db (makePrefixedKey ns key) with
  | some entry => if entry.isExpired now then none else some entry.value
  | none => none

def put (store : RocksDbStateStore) (now : Int) (ns : String) (key value : List UInt8) : RocksDbStateStore :=
  store.putWithTtl now ns key value none

def delete (store : RocksDbStateStore) (ns : String) (key : List UInt8) : RocksDbStateStore := store.deleteRaw (makePrefixedKey ns key)

def scanPrefix (store : RocksDbStateStore) (now : Int) (ns : String) (keyStart : List UInt8) : List (List UInt8 × List UInt8) :=
  let nsPrefix := makePrefixedKey ns []
  (scan store.db (makePrefixedKey ns keyStart)).filterMap fun (rawKey, entry) =>
    if entry.isExpired now then none else some (rawKey.drop nsPrefix.length, entry.value)

/-- The namespace and the key of an entry, cut at the first null byte. -/
def stateEntry (now : Int) : List UInt8 × TtlEntry → Option StateEntry
  | (rawKey, entry) =>
    if 0 ∈ rawKey then
      if entry.isExpired now then none
      else some ⟨fromUtf8Lossy (rawKey.takeWhile (· ≠ 0)), (rawKey.dropWhile (· ≠ 0)).drop 1, entry.value⟩
    else none

/-- The snapshot of a checkpoint. -/
def checkpoint (store : RocksDbStateStore) (now : Int) : List StateEntry := store.db.filterMap (stateEntry now)

def restore (store : RocksDbStateStore) (now : Int) (entries : List StateEntry) : RocksDbStateStore :=
  let keysToDelete := store.db.map Prod.fst
  let cleared := keysToDelete.foldl deleteRaw store
  entries.foldl (fun store entry => store.putRaw (makePrefixedKey entry.ns entry.key) (.new now entry.value none)) cleared

end RocksDbStateStore

/-! ## The store in memory -/

structure InMemoryStateStore (V : Type) where
  data : AList fun _ : String => AList fun _ : List UInt8 => V

namespace InMemoryStateStore

variable {V : Type}

def new : InMemoryStateStore V := ⟨∅⟩

def get (store : InMemoryStateStore V) (ns : String) (key : List UInt8) : Option V :=
  (store.data.lookup ns).bind fun entries => entries.lookup key

def put (store : InMemoryStateStore V) (ns : String) (key : List UInt8) (value : V) : InMemoryStateStore V :=
  ⟨store.data.insert ns (((store.data.lookup ns).getD ∅).insert key value)⟩

def delete (store : InMemoryStateStore V) (ns : String) (key : List UInt8) : InMemoryStateStore V :=
  match store.data.lookup ns with
  | some entries => ⟨store.data.insert ns (entries.erase key)⟩
  | none => store

def scanPrefix (store : InMemoryStateStore V) (ns : String) (keyStart : List UInt8) : List (List UInt8 × V) :=
  match store.data.lookup ns with
  | some entries => (entries.entries.filter fun e => keyStart.isPrefixOf e.1).map fun e => (e.1, e.2)
  | none => []

/-- The snapshot of a checkpoint. -/
def checkpoint (store : InMemoryStateStore V) : AList fun _ : String => AList fun _ : List UInt8 => V := store.data

def restore (_ : InMemoryStateStore V) (snapshot : AList fun _ : String => AList fun _ : List UInt8 => V) : InMemoryStateStore V :=
  ⟨snapshot⟩

/-- The store without the entries that have expired. -/
def expiredRemoved (store : InMemoryStateStore TtlEntry) (now : Int) : InMemoryStateStore TtlEntry :=
  ⟨mapValues (fun _ => filterValues fun entry => !entry.isExpired now) store.data⟩

end InMemoryStateStore

end StreamHouse.Sql.State
