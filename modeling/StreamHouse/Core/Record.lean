import Mathlib.Algebra.Group.Int.Defs
import Mathlib.Algebra.Group.Nat.Defs
import Mathlib.Data.List.Basic

/-!
# Records and segment descriptions

`streamhouse-core`'s `Record` and `SegmentInfo`. Offsets and timestamps are
`u64` in the source and `Nat` here: only the segment format depends on their
width, and it states the range it needs (`Record.Fits`). Segment ids and object
keys are the format strings of the source kept apart by their fields.
-/

namespace StreamHouse

abbrev Bytes := List UInt8

/-- `streamhouse_core::record::Record`. -/
structure Record where
  offset : Nat
  timestamp : Nat
  key : Option Bytes
  value : Bytes
deriving DecidableEq

/-- `Record::estimated_size`. -/
def Record.estimatedSize (r : Record) : Nat :=
  8 + 8 + (r.key.map List.length).getD 0 + r.value.length

/-- The ranges of the Rust types: `u64` offset and timestamp, lengths that are a `usize`. -/
structure Record.Fits (r : Record) : Prop where
  offset : r.offset < 2 ^ 64
  timestamp : r.timestamp < 2 ^ 64
  key : ∀ k, r.key = some k → k.length < 2 ^ 64
  value : r.value.length < 2 ^ 64

/-- What a segment gives back for a record: the format writes a key length only,
so an empty key is read as no key. -/
def Record.stored (r : Record) : Record :=
  { r with key := r.key.filter (fun k => !k.isEmpty) }

theorem Record.stored_of_key {r : Record} (key : r.key ≠ some []) : r.stored = r := by
  obtain ⟨offset, timestamp, k, value⟩ := r
  cases k with
  | none => rfl
  | some bytes =>
    cases bytes with
    | nil => exact absurd rfl key
    | cons b bs => rfl

/-- `WriterPool::get_writer`'s `s3_data_prefix`: `data` without an organization,
else `org-{id}/data`. -/
inductive DataPrefix where
  | data
  | org (id : String)
deriving DecidableEq

def DataPrefix.ofOrg (orgId : String) : DataPrefix :=
  if orgId = "" then .data else .org orgId

/-- The object keys the repository writes segments under:
`{prefix}/{topic}/{partition}/{base:020}.seg` and
`{prefix}/{topic}/{partition}/seg_{base}_compacted.bin`. -/
inductive S3Key where
  | segment (dataPrefix : DataPrefix) (topic : String) (partitionId baseOffset : Nat)
  | compacted (dataPrefix : DataPrefix) (topic : String) (partitionId baseOffset : Nat)
deriving DecidableEq

/-- Segment ids, the primary key of the `segments` table: `{topic}-{partition}-{base}`
and the same with a `-compacted` suffix. No organization is part of them. -/
inductive SegmentId where
  | segment (topic : String) (partitionId baseOffset : Nat)
  | compacted (topic : String) (partitionId baseOffset : Nat)
deriving DecidableEq

/-- `streamhouse_core::segment::SegmentInfo`. -/
structure SegmentInfo where
  id : SegmentId
  topic : String
  partitionId : Nat
  baseOffset : Nat
  endOffset : Nat
  recordCount : Nat
  sizeBytes : Nat
  s3Bucket : String
  s3Key : S3Key
  createdAt : Int
  minTimestamp : Int
  maxTimestamp : Int
deriving DecidableEq

end StreamHouse
