import StreamHouse.Sql.Where

/-!
# What a WHERE clause means

An expression is true of a row by the values of its columns, and the filters it is compiled to
should match the same rows. `Comparison.Exact` says for which comparisons they do.
-/

namespace StreamHouse.Sql

/-- A value that is compared. -/
inductive Datum where
  | null
  | bool (b : Bool)
  | number (q : ℚ)
  | text (s : String)
  | instant (ns : Int)

/-- The value of a literal: a 64-bit integer is itself, another number is the `f64` nearest to
it, and one beyond the `f64`s is the number written. -/
def NumberText.value (n : NumberText) : ℚ :=
  match n with
  | .digits i => if i < 2 ^ 64 then i else (n.parseF64.map F64.value).getD n.written
  | .decimal _ _ => (n.parseF64.map F64.value).getD n.written

/-- Objects and arrays are not compared. -/
def jsonDatum : Json → Option Datum
  | .null => some .null
  | .bool b => some (.bool b)
  | .number n => some (.number n.value)
  | .string s => some (.text s)
  | _ => none

def SqlValue.datum : SqlValue → Datum
  | .number n => .number n.value
  | .singleQuotedString s => .text s
  | .doubleQuotedString s => .text s
  | .boolean b => .bool b
  | .null => .null

/-- The columns that hold a text. -/
def MessageRow.textOf (row : MessageRow) (column : String) : Option Text :=
  if column = "key" then row.key else if column = "value" then some row.value else none

def MessageRow.column (row : MessageRow) (column : String) : Option Datum :=
  if column = "partition" then some (.number row.partition.toNat)
  else if column = "offset" then some (.number row.offset.toNat)
  else if column = "timestamp" then some (.instant (row.timestamp * 10 ^ 6))
  else (row.textOf column).map fun text => .text text.chars

/-- The value of an operand in a row. -/
def Operand.datum (row : MessageRow) : Operand → Option Datum
  | .identifier name => row.column (lowercase name)
  | .jsonExtract args =>
    (parseJsonExtractArgs args).bind fun (path, column) =>
      ((row.textOf (lowercase column)).bind Text.json).bind fun json => jsonDatum (extractJsonPath json path)
  | .value v => some v.datum
  | .minus n => some (.number (-n.value))

section Meaning

variable (parseFromRfc3339 : String → Option Int)

/-- Numbers, texts and instants are ordered, and a text that names an instant is compared with
an instant. -/
def Datum.Less : Datum → Datum → Prop
  | .number p, .number q => p < q
  | .text s, .text t => s < t
  | .instant a, .instant b => a < b
  | .instant a, .text t => ∃ b, parseFromRfc3339 t = some b ∧ a < b
  | .text s, .instant b => ∃ a, parseFromRfc3339 s = some a ∧ a < b
  | _, _ => False

def Datum.Equal : Datum → Datum → Prop
  | .null, .null => True
  | .bool a, .bool b => a = b
  | .number p, .number q => p = q
  | .text s, .text t => s = t
  | .instant a, .instant b => a = b
  | .instant a, .text t => parseFromRfc3339 t = some a
  | .text s, .instant b => parseFromRfc3339 s = some b
  | _, _ => False

def BinaryOperator.Relates (op : BinaryOperator) (a b : Datum) : Prop :=
  match op with
  | .eq => a.Equal parseFromRfc3339 b
  | .gt => b.Less parseFromRfc3339 a
  | .gtEq => b.Less parseFromRfc3339 a ∨ a.Equal parseFromRfc3339 b
  | .lt => a.Less parseFromRfc3339 b
  | .ltEq => a.Less parseFromRfc3339 b ∨ a.Equal parseFromRfc3339 b

/-- A comparison with an operand that has no value is not true. -/
def Comparison.Holds (c : Comparison) (row : MessageRow) : Prop :=
  ∃ a b, c.left.datum row = some a ∧ c.right.datum row = some b ∧ c.op.Relates parseFromRfc3339 a b

def Expr.Holds : Expr → MessageRow → Prop
  | .comparison c, row => c.Holds parseFromRfc3339 row
  | .and left right, row => left.Holds row ∧ right.Holds row
  | .nested inner, row => inner.Holds row
  | .unsupported holds, row => holds row

/-- The filters of an expression, if it has any, match the rows it is true of. -/
def Expr.Compiled (expr : Expr) : Prop :=
  ∀ filters, parseWhereClause parseFromRfc3339 expr = .ok filters →
    ∀ row, row.matchesFilters filters = true ↔ expr.Holds parseFromRfc3339 row

end Meaning

/-- The expression and all that are inside it. -/
def Expr.parts : Expr → List Expr
  | .and left right => .and left right :: (left.parts ++ right.parts)
  | .nested inner => .nested inner :: inner.parts
  | expr => [expr]

def Expr.comparisons : Expr → List Comparison
  | .comparison c => [c]
  | .and left right => left.comparisons ++ right.comparisons
  | .nested inner => inner.comparisons
  | .unsupported _ => []

end StreamHouse.Sql
