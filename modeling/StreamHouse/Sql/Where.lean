import StreamHouse.Sql.Row

/-!
# The WHERE clause

`parse_where_clause` turns a tree of conjunctions and comparisons into a list of filters.
-/

namespace StreamHouse.Sql

/-- The text of a number: digits alone, or digits with a point or an exponent. A sign is not
part of it. -/
inductive NumberText where
  | digits (n : Nat)
  | decimal (significand : Nat) (exponent : Int)

namespace NumberText

/-- The number that the text writes. -/
def written : NumberText → ℚ
  | .digits n => n
  | .decimal significand exponent => significand * 10 ^ exponent

/-- `parse::<i64>`. -/
def parseI64 : NumberText → Option Nat
  | .digits n => if n < 2 ^ 63 then some n else none
  | .decimal _ _ => none

/-- `parse::<f64>`, where none is infinity. -/
def parseF64 (text : NumberText) : Option F64 :=
  if finite : text.written < F64.overflow then some (F64.ofRat text.written finite) else none

end NumberText

inductive SqlValue where
  | number (n : NumberText)
  | singleQuotedString (s : String)
  | doubleQuotedString (s : String)
  | boolean (b : Bool)
  | null

inductive FunctionArg where
  | identifier (name : String)
  | singleQuotedString (s : String)
  | other

/-- A side of a comparison: a column, a call of `json_extract`, or a literal. -/
inductive Operand where
  | identifier (name : String)
  | jsonExtract (args : List FunctionArg)
  | value (v : SqlValue)
  | minus (n : NumberText)

inductive BinaryOperator where
  | eq
  | gt
  | gtEq
  | lt
  | ltEq
deriving DecidableEq

structure Comparison where
  left : Operand
  op : BinaryOperator
  right : Operand

/-- An expression of another kind stands with the rows it is true of. -/
inductive Expr where
  | comparison (c : Comparison)
  | and (left right : Expr)
  | nested (inner : Expr)
  | unsupported (holds : MessageRow → Prop)

inductive SqlError where
  | parseError
  | unsupportedOperation

/-- `to_lowercase`, as far as the names of the columns can tell: outside ASCII only the Kelvin
sign becomes one of their letters. -/
def lowercase (name : String) : String :=
  String.ofList (name.toList.map fun c => if c = Char.ofNat 0x212A then 'k' else c.toLower)

def extractStringValue : Operand → Option String
  | .value (.singleQuotedString s) => some s
  | .value (.doubleQuotedString s) => some s
  | _ => none

def extractLiteralInt : Operand → Option Nat
  | .value (.number n) => n.parseI64
  | _ => none

/-- `json!(f)` of a number beyond the `f64`s is null. -/
def exprToJsonValue : Operand → Except SqlError Json
  | .value (.number n) =>
    match n.parseI64 with
    | some i => .ok (.number (.posInt (BitVec.ofNat 64 i)))
    | none =>
      match n.parseF64 with
      | some f => .ok (.number (.float f))
      | none => .ok .null
  | .value (.singleQuotedString s) => .ok (.string s)
  | .value (.boolean b) => .ok (.bool b)
  | .value .null => .ok .null
  | _ => .error .parseError

/-- The path and the column of a call of `json_extract`. -/
def parseJsonExtractArgs : List FunctionArg → Option (String × String)
  | [.identifier column, .singleQuotedString path] => some (path, column)
  | _ => none

def parseEqualityFilter (left right : Operand) : Except SqlError (Option Filter) :=
  match left with
  | .identifier name =>
    let column := lowercase name
    if column = "key" then .ok ((extractStringValue right).map .keyEquals)
    else if column = "partition" then .ok ((extractLiteralInt right).map fun n => .partitionEquals (BitVec.ofNat 32 n))
    else if column = "offset" then .ok ((extractLiteralInt right).map fun n => .offsetEquals (BitVec.ofNat 64 n))
    else .ok none
  | .jsonExtract args =>
    match parseJsonExtractArgs args with
    | some (path, _) => (exprToJsonValue right).map fun value => some (.jsonEquals path value)
    | none => .ok none
  | _ => .ok none

-- `DateTime::parse_from_rfc3339`, in nanoseconds from the epoch
variable (parseFromRfc3339 : String → Option Int)

/-- `timestamp_millis` rounds down. -/
def extractTimestampValue (right : Operand) : Option Int :=
  (extractStringValue right).bind fun s => (parseFromRfc3339 s).map fun ns => ns / 10 ^ 6

def parseComparisonFilter (left right : Operand) (isGreater isEqual : Bool) : Except SqlError (Option Filter) :=
  match left with
  | .identifier name =>
    let column := lowercase name
    if column = "offset" then
      .ok ((extractLiteralInt right).map fun n =>
        if isGreater then
          if isEqual then .offsetGte (BitVec.ofNat 64 n) else .offsetGte (BitVec.ofNat 64 (n + 1))
        else if isEqual then .offsetLt (BitVec.ofNat 64 (n + 1))
        else .offsetLt (BitVec.ofNat 64 n))
    else if column = "timestamp" then
      .ok ((extractTimestampValue parseFromRfc3339 right).map fun ts => if isGreater then .timestampGte ts else .timestampLt ts)
    else .ok none
  | .jsonExtract args =>
    match parseJsonExtractArgs args with
    | some (path, _) =>
      (exprToJsonValue right).map fun value => some (if isGreater then .jsonGt path value else .jsonLt path value)
    | none => .ok none
  | _ => .ok none

/-- The filter of one comparison. -/
def parseComparison (c : Comparison) : Except SqlError (Option Filter) :=
  match c.op with
  | .eq => parseEqualityFilter c.left c.right
  | .gt => parseComparisonFilter parseFromRfc3339 c.left c.right true false
  | .gtEq => parseComparisonFilter parseFromRfc3339 c.left c.right true true
  | .lt => parseComparisonFilter parseFromRfc3339 c.left c.right false false
  | .ltEq => parseComparisonFilter parseFromRfc3339 c.left c.right false true

def collectFilters : Expr → List Filter → Except SqlError (List Filter)
  | .comparison c, filters => (parseComparison parseFromRfc3339 c).map fun filter => filters ++ filter.toList
  | .and left right, filters => (collectFilters left filters).bind (collectFilters right)
  | .nested inner, filters => collectFilters inner filters
  | .unsupported _, _ => .error .unsupportedOperation

def parseWhereClause (expr : Expr) : Except SqlError (List Filter) := collectFilters parseFromRfc3339 expr []

end StreamHouse.Sql
