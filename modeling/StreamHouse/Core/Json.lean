import Mathlib.Data.List.Basic
import Mathlib.Algebra.Group.Int.Defs
import Mathlib.Algebra.GroupWithZero.Nat

/-!
# JSON values

`serde_json::Value`. An object is the list of its fields in the order of its map; the maps
that serde_json reads have every key once.
-/

namespace StreamHouse

/-- A finite `f64`: its sign, and a significand times a power of two. -/
structure F64 where
  negative : Bool
  significand : Nat
  exponent : Int
  fits : significand < 2 ^ 53 ∧ -1074 ≤ exponent ∧ exponent ≤ 971

namespace F64

/-- The value in units of `2 ^ base`, for a `base` that is at most the exponent. -/
def units (f : F64) (base : Int) : Int :=
  let magnitude : Int := f.significand * 2 ^ (f.exponent - base).toNat
  if f.negative then -magnitude else magnitude

/-- `==` of `f64`: the two zeros are equal. -/
def same (f g : F64) : Bool :=
  let base := min f.exponent g.exponent
  f.units base = g.units base

@[simp] theorem same_self (f : F64) : f.same f = true := decide_eq_true rfl

theorem same_comm (f g : F64) : f.same g = g.same f := by
  unfold same
  rw [Int.min_comm]
  exact decide_eq_decide.mpr eq_comm

/-- The value has no fractional part. -/
def isIntegral (f : F64) : Bool := decide (0 ≤ f.exponent) || decide (f.significand % 2 ^ (-f.exponent).toNat = 0)

end F64

instance neZero_magnitudes : NeZero (2 ^ 63 : Nat) := ⟨by decide⟩

/-- `serde_json::Number`: a `u64`, the `i64` that is `n` below -1, or a finite `f64`. -/
inductive JsonNumber where
  | posInt (n : BitVec 64)
  | negInt (n : Fin (2 ^ 63))
  | float (f : F64)

namespace JsonNumber

/-- `PartialEq` of `Number`. -/
def same : JsonNumber → JsonNumber → Bool
  | .posInt m, .posInt n => m = n
  | .negInt m, .negInt n => m = n
  | .float f, .float g => f.same g
  | _, _ => false

@[simp] theorem same_self (n : JsonNumber) : n.same n = true := by
  cases n <;> simp [same]

theorem same_comm (m n : JsonNumber) : m.same n = n.same m := by
  cases m <;> cases n <;> simp only [same, eq_comm, F64.same_comm]

def isIntegral : JsonNumber → Bool
  | .posInt _ => true
  | .negInt _ => true
  | .float f => f.isIntegral

end JsonNumber

inductive Json where
  | null
  | bool (b : Bool)
  | number (n : JsonNumber)
  | string (s : String)
  | array (items : List Json)
  | object (fields : List (String × Json))

namespace Json

/-- `Map::get`. -/
def find (fields : List (String × Json)) (key : String) : Option Json :=
  (fields.find? fun field => field.1 = key).map Prod.snd

/-- `Value::get` of a key. -/
def get (key : String) : Json → Option Json
  | .object fields => find fields key
  | _ => none

/-- `Value::as_array`. -/
def asArray : Json → Option (List Json)
  | .array items => some items
  | _ => none

/-- `Value::as_object`. -/
def asObject : Json → Option (List (String × Json))
  | .object fields => some fields
  | _ => none

/-- `Value::as_str`. -/
def asStr : Json → Option String
  | .string s => some s
  | _ => none

mutual

/-- `PartialEq` of `Value`. -/
def same : Json → Json → Bool
  | .null, .null => true
  | .bool a, .bool b => a = b
  | .number m, .number n => m.same n
  | .string s, .string t => s = t
  | .array items, .array others => sameItems items others
  | .object fields, .object others => sameFields fields others
  | _, _ => false

def sameItems : List Json → List Json → Bool
  | [], [] => true
  | item :: items, other :: others => item.same other && sameItems items others
  | _, _ => false

def sameFields : List (String × Json) → List (String × Json) → Bool
  | [], [] => true
  | (key, value) :: fields, (key', value') :: others => decide (key = key') && value.same value' && sameFields fields others
  | _, _ => false

end

mutual

theorem same_comm : (j k : Json) → j.same k = k.same j
  | .null, k => by cases k <;> rfl
  | .bool a, k => by cases k <;> simp only [same, eq_comm]
  | .number m, k => by cases k <;> simp only [same, m.same_comm]
  | .string s, k => by cases k <;> simp only [same, eq_comm]
  | .array items, k => by cases k <;> simp only [same, sameItems_comm items]
  | .object fields, k => by cases k <;> simp only [same, sameFields_comm fields]

theorem sameItems_comm : (items others : List Json) → sameItems items others = sameItems others items
  | [], others => by cases others <;> rfl
  | item :: items, others => by
    cases others with
    | nil => rfl
    | cons other others => rw [sameItems, sameItems, same_comm item, sameItems_comm items]

theorem sameFields_comm : (fields others : List (String × Json)) → sameFields fields others = sameFields others fields
  | [], others => by cases others <;> rfl
  | (key, value) :: fields, others => by
    cases others with
    | nil => rfl
    | cons other others =>
      rw [sameFields, sameFields, same_comm value, sameFields_comm fields]
      simp only [eq_comm]

end

@[simp] theorem null_same (j : Json) : Json.null.same j = true ↔ j = .null := by
  cases j <;> simp [same]

theorem mem_of_find {fields : List (String × Json)} {key : String} {value : Json} (found : find fields key = some value) :
    (key, value) ∈ fields := by
  obtain ⟨field, isField, rfl⟩ := Option.map_eq_some_iff.mp found
  have named := List.find?_some isField
  rw [← of_decide_eq_true named]
  exact List.mem_of_find?_eq_some isField

theorem find_eq_none {fields : List (String × Json)} {key : String} : find fields key = none ↔ key ∉ fields.map Prod.fst := by
  rw [find, Option.map_eq_none_iff, List.find?_eq_none]
  simp only [decide_eq_true_eq, List.mem_map, Prod.exists, exists_and_right, exists_eq_right, not_exists, Prod.forall]
  constructor
  · intro none value inside
    exact none key value inside rfl
  · rintro absent name value inside rfl
    exact absent value inside

theorem find_cons (field : String × Json) (fields : List (String × Json)) (key : String) :
    find (field :: fields) key = if field.1 = key then some field.2 else find fields key := by
  rw [find, List.find?_cons]
  by_cases named : field.1 = key
  · rw [decide_eq_true named, if_pos named]
    rfl
  · rw [decide_eq_false named, if_neg named]
    rfl

end Json

end StreamHouse
