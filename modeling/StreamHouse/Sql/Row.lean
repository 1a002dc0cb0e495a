import StreamHouse.Core.Number
import Mathlib.Data.String.Basic

/-!
# Rows and filters

A message as a query sees it, and the filters that a WHERE clause is compiled to.
-/

namespace StreamHouse.Sql

/-- A text of a message with the JSON that `serde_json::from_str` reads from it. -/
structure Text where
  chars : String
  json : Option Json

structure MessageRow where
  topic : String
  partition : BitVec 32
  offset : BitVec 64
  key : Option Text
  value : Text
  timestamp : Int

inductive Filter where
  | keyEquals (key : String)
  | partitionEquals (partition : BitVec 32)
  | offsetGte (offset : BitVec 64)
  | offsetLt (offset : BitVec 64)
  | offsetEquals (offset : BitVec 64)
  | timestampGte (ts : Int)
  | timestampLt (ts : Int)
  | jsonEquals (path : String) (value : Json)
  | jsonGt (path : String) (value : Json)
  | jsonLt (path : String) (value : Json)

/-- `str::parse::<usize>` of one part of a path. -/
def parseUsize (part : String) : Option Nat :=
  let digits : List Char := match part.toList with
    | '+' :: digits => digits
    | digits => digits
  let n : Nat := digits.foldl (fun n c => 10 * n + (c.toNat - '0'.toNat)) 0
  if digits ≠ [] ∧ digits.all Char.isDigit ∧ n < 2 ^ 64 then some n else none

/-- One step of a path into a value. -/
def extractPart (current : Json) (part : String) : Json :=
  match current with
  | .object fields => (Json.find fields part).getD .null
  | .array items =>
    match parseUsize part with
    | some i => items.getD i .null
    | none => .null
  | _ => .null

/-- The parts of a path that are stepped through: `$.a.b` has the parts `a` and `b`. -/
def pathParts (path : String) : List String :=
  let trimmed := (path.toList.dropWhile (· = '$')).dropWhile (· = '.')
  ((trimmed.splitOn '.').map String.ofList).filter (· ≠ "")

def extractJsonPath (json : Json) (path : String) : Json := (pathParts path).foldl extractPart json

def compareJsonValues : Json → Json → Ordering
  | .number a, .number b => cmp a.asF64.value b.asF64.value
  | .string a, .string b => cmp a b
  | _, _ => .eq

namespace MessageRow

/-- A test of what a path leads to in the value; no value is no match. -/
def testJson (row : MessageRow) (path : String) (test : Json → Bool) : Bool :=
  match row.value.json with
  | some json => test (extractJsonPath json path)
  | none => false

def matchesFilter (row : MessageRow) : Filter → Bool
  | .keyEquals key => (row.key.map fun k => decide (k.chars = key)).getD false
  | .partitionEquals p => row.partition = p
  | .offsetGte o => o ≤ row.offset
  | .offsetLt o => row.offset < o
  | .offsetEquals o => row.offset = o
  | .timestampGte ts => ts ≤ row.timestamp
  | .timestampLt ts => row.timestamp < ts
  | .jsonEquals path value => row.testJson path fun extracted => extracted.same value
  | .jsonGt path value => row.testJson path fun extracted => compareJsonValues extracted value = .gt
  | .jsonLt path value => row.testJson path fun extracted => compareJsonValues extracted value = .lt

def matchesFilters (row : MessageRow) (filters : List Filter) : Bool := filters.all row.matchesFilter

end MessageRow

/-- A value that has `json` at the end of the parts of a path. -/
def nest (parts : List String) (json : Json) : Json := parts.foldr (fun part inner => .object [(part, inner)]) json

theorem extract_nest (path : String) (json : Json) : extractJsonPath (nest (pathParts path) json) path = json := by
  unfold extractJsonPath
  induction pathParts path with
  | nil => rfl
  | cons part parts ih =>
    have step : extractPart (nest (part :: parts) json) part = nest parts json := by
      rw [nest, List.foldr_cons, extractPart, Json.find_cons, if_pos rfl]
      rfl
    rw [List.foldl_cons, step, ih]

end StreamHouse.Sql
