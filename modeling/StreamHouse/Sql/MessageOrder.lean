import StreamHouse.Sql.Execute

/-!
# ORDER BY

The comparison that messages are sorted by: a column of the message, or a field of its value, of
which two numbers are compared as `f64` and anything else as text. A column is an order on all
messages; a field of which some values are numbers and some are not need not be one.
-/

namespace StreamHouse.Sql

open Lib

/-! ## Numbers in texts -/

/-- What `str::parse::<f64>` gives. -/
inductive ParsedF64 where
  | finite (f : F64)
  | infinite (negative : Bool)
  | nan

/-- Digits, and what is behind them. -/
def takeDigits (text : List Char) : List Char × List Char := (text.takeWhile Char.isDigit, text.dropWhile Char.isDigit)

/-- The number that digits are for. -/
def digitsValue (digits : List Char) : Nat := digits.foldl (fun n c => 10 * n + (c.toNat - '0'.toNat)) 0

def takeSign : List Char → Bool × List Char
  | '-' :: rest => (true, rest)
  | '+' :: rest => (false, rest)
  | rest => (false, rest)

/-- The exponent, which ends the text. -/
def parseExponent : List Char → Option Int
  | [] => some 0
  | e :: rest =>
    let (negative, digits) := takeSign rest
    if (e = 'e' ∨ e = 'E') ∧ digits ≠ [] ∧ digits.all Char.isDigit then
      some (if negative then -digitsValue digits else digitsValue digits)
    else none

/-- A number without its sign. -/
def parseDecimal (text : List Char) : Option ℚ :=
  let (whole, rest) := takeDigits text
  let (fraction, rest) : List Char × List Char := match rest with
    | '.' :: rest => takeDigits rest
    | rest => ([], rest)
  if whole = [] ∧ fraction = [] then none
  else (parseExponent rest).map fun exponent : Int => (digitsValue (whole ++ fraction) : ℚ) * 10 ^ (exponent - (fraction.length : Int))

/-- `str::parse::<f64>`. -/
def parseF64Text (text : String) : Option ParsedF64 :=
  let (negative, rest) := takeSign text.toList
  let word := rest.map Char.toLower
  if word = "inf".toList ∨ word = "infinity".toList then some (.infinite negative)
  else if word = "nan".toList then some .nan
  else (parseDecimal rest).map fun x =>
    match F64.ofRational x with
    | some f => .finite (if negative then f.neg else f)
    | none => .infinite negative

/-- `partial_cmp`. -/
def ParsedF64.partialCmp : ParsedF64 → ParsedF64 → Option Ordering
  | .nan, _ => none
  | _, .nan => none
  | .finite f, .finite g => some (cmp f.value g.value)
  | .finite _, .infinite negative => some (if negative then .gt else .lt)
  | .infinite negative, .finite _ => some (if negative then .lt else .gt)
  | .infinite negative, .infinite negative' => some (compare negative' negative)

/-! ## The comparison -/

variable (display : Json → String) (toLowercase : String → String)

/-- `extract_json_field`; the text of a number or a truth value is that of the JSON value. -/
def extractJsonField (value : Text) (field : String) : String :=
  match value.json with
  | some (.object fields) =>
    match Json.find fields field with
    | some (.string s) => s
    | some v => display v
    | none => ""
  | _ => ""

def compareFields (va vb : String) : Ordering :=
  match parseF64Text va, parseF64Text vb with
  | some fa, some fb => (fa.partialCmp fb).getD .eq
  | _, _ => compare va vb

/-- The match on the column. -/
def compareColumn (col : String) (a b : MessageRow) : Ordering :=
  match col with
  | "offset" => compare a.offset.toNat b.offset.toNat
  | "timestamp" => compare a.timestamp b.timestamp
  | "partition" => compare a.partition.toNat b.partition.toNat
  | "key" => compare (a.key.map Text.chars) (b.key.map Text.chars)
  | "value" => compare a.value.chars b.value.chars
  | "topic" => compare a.topic b.topic
  | other => compareFields (extractJsonField display a.value other) (extractJsonField display b.value other)

/-- The argument of `sort_by`. -/
def compareMessages (orderBy : OrderBy) (a b : MessageRow) : Ordering :=
  let cmp := compareColumn display (toLowercase orderBy.column) a b
  if orderBy.descending then cmp.swap else cmp

/-- A comparison that orders the messages of a list: `sort_by` asks for no less. -/
structure Orders (cmp : MessageRow → MessageRow → Ordering) (messages : List MessageRow) : Prop where
  swap : ∀ a ∈ messages, ∀ b ∈ messages, cmp a b = (cmp b a).swap
  trans : ∀ a ∈ messages, ∀ b ∈ messages, ∀ c ∈ messages, (cmp a b).isLE = true → (cmp b c).isLE = true → (cmp a c).isLE = true

/-- What `sort_by` gives where the comparison is an order: sorted, and what is equal stays in turn. -/
def stableSort (orderBy : OrderBy) (messages : List MessageRow) : List MessageRow :=
  messages.mergeSort fun a b => (compareMessages display toLowercase orderBy a b).isLE

theorem stableSort_perm (orderBy : OrderBy) (messages : List MessageRow) :
    (stableSort display toLowercase orderBy messages).Perm messages := List.mergeSort_perm _ _

/-- What an order sorts is in order. -/
theorem stableSort_pairwise {orderBy : OrderBy} {messages : List MessageRow}
    (orders : Orders (compareMessages display toLowercase orderBy) messages) :
    (stableSort display toLowercase orderBy messages).Pairwise fun a b => (compareMessages display toLowercase orderBy a b).isLE = true := by
  -- the comparison is an order on the messages only, so it is those that are sorted
  let le (a b : { a // a ∈ messages }) : Bool := (compareMessages display toLowercase orderBy a.val b.val).isLE
  have trans : ∀ a b c, le a b = true → le b c = true → le a c = true :=
    fun a b c => orders.trans a.val a.property b.val b.property c.val c.property
  have total : ∀ a b, (le a b || le b a) = true := by
    intro a b
    change ((compareMessages display toLowercase orderBy a.val b.val).isLE || (compareMessages display toLowercase orderBy b.val a.val).isLE) = true
    rw [orders.swap a.val a.property b.val b.property]
    cases compareMessages display toLowercase orderBy b.val a.val <;> rfl
  have sorted := List.pairwise_mergeSort trans total messages.attach
  have values : (messages.attach.mergeSort le).map Subtype.val = stableSort display toLowercase orderBy messages := by
    rw [List.map_mergeSort (s := fun a b => (compareMessages display toLowercase orderBy a b).isLE) fun _ _ _ _ => rfl, List.attach_map_subtype_val]
    rfl
  rw [← values]
  exact List.pairwise_map.mpr sorted

end StreamHouse.Sql
