import StreamHouse.Sql.WhereMeaning

/-!
# Compilation of the WHERE clause

A comparison that is not read is dropped, and then the filters let rows through that the
expression excludes. One that is read keeps its meaning when the filter has the same
strictness, the literal is not cut to fewer bits, and no other number has the literal's value.
-/

namespace StreamHouse.Sql

open Json List Option BinaryOperator MessageRow Operand

/-! ## The filters of one comparison -/

/-- The JSON number that a literal is compiled to; null stands for one beyond the `f64`s. -/
def NumberText.literal (n : NumberText) : Option JsonNumber :=
  match n.parseI64 with
  | some i => some (.posInt (BitVec.ofNat 64 i))
  | none => n.parseF64.map .float

/-- The test of a comparison on the value that a path leads to. -/
def BinaryOperator.passes (op : BinaryOperator) (literal extracted : Json) : Bool :=
  match op with
  | .eq => extracted.same literal
  | .gt => compareJsonValues extracted literal = .gt
  | .gtEq => compareJsonValues extracted literal = .gt
  | .lt => compareJsonValues extracted literal = .lt
  | .ltEq => compareJsonValues extracted literal = .lt

def BinaryOperator.jsonFilter (op : BinaryOperator) (path : String) (literal : Json) : Filter :=
  match op with
  | .eq => .jsonEquals path literal
  | .gt => .jsonGt path literal
  | .gtEq => .jsonGt path literal
  | .lt => .jsonLt path literal
  | .ltEq => .jsonLt path literal

theorem matchesFilter_jsonFilter (op : BinaryOperator) (path : String) (literal : Json) (row : MessageRow) :
    row.matchesFilter (op.jsonFilter path literal) = row.testJson path (op.passes literal) := by
  cases op <;> rfl

theorem exprToJsonValue_number (n : NumberText) :
    exprToJsonValue (.value (.number n)) = .ok (n.literal.elim .null .number) := by
  simp only [exprToJsonValue, NumberText.literal]
  cases n.parseI64 with
  | some i => rfl
  | none =>
    cases n.parseF64 with
    | some f => rfl
    | none => rfl

/-! ## The values of literals -/

namespace NumberText

theorem written_nonneg (n : NumberText) : 0 ≤ n.written := by
  cases n with
  | digits i => exact Nat.cast_nonneg i
  | decimal significand exponent => exact mul_nonneg (Nat.cast_nonneg _) (zpow_nonneg (by norm_num) _)

variable {n : NumberText}

theorem parseF64_value {f : F64} (parsed : n.parseF64 = some f) : f.value = F64.round n.written := by
  unfold parseF64 at parsed
  split at parsed
  · rename_i finite
    rw [← some.inj parsed, F64.ofRat_value n.written_nonneg]
  · cases parsed

theorem overflow_le_written (infinite : n.parseF64 = none) : F64.overflow ≤ n.written := by
  unfold parseF64 at infinite
  split at infinite
  · cases infinite
  · rename_i large
    exact not_lt.mp large

/-- Where a literal is not a 64-bit integer, its value is the `f64` it is parsed to. -/
theorem value_cases (n : NumberText) :
    (∃ i, n = .digits i ∧ i < 2 ^ 64 ∧ n.value = i) ∨ n.value = (n.parseF64.map F64.value).getD n.written := by
  cases n with
  | digits i =>
    by_cases small : i < 2 ^ 64
    · exact .inl ⟨i, rfl, small, if_pos small⟩
    · exact .inr (if_neg small)
  | decimal significand exponent => exact .inr rfl

/-- An integer is compiled as one below 2^63 only. -/
theorem literal_cases (n : NumberText) :
    (∃ i, n = .digits i ∧ i < 2 ^ 63 ∧ n.literal = some (.posInt (BitVec.ofNat 64 i))) ∨ n.literal = n.parseF64.map .float := by
  unfold literal
  cases n with
  | digits i =>
    by_cases small : i < 2 ^ 63
    · exact .inl ⟨i, rfl, small, by rw [parseI64, if_pos small]⟩
    · exact .inr (by rw [parseI64, if_neg small])
  | decimal significand exponent => exact .inr rfl

theorem value_posInt {i : Nat} (small : i < 2 ^ 64) : (JsonNumber.posInt (BitVec.ofNat 64 i)).value = i := by
  rw [JsonNumber.value, BitVec.toNat_ofNat, Nat.mod_eq_of_lt small]

theorem value_digits {i : Nat} (small : i < 2 ^ 64) : (digits i).value = i := if_pos small

variable {k : JsonNumber} {j : Json}

/-- As an `f64` the compiled literal is the rounded value. -/
theorem literal_asF64 (literal : n.literal = some k) : k.asF64.value = F64.round n.value := by
  obtain ⟨i, rfl, small, int⟩ | float := n.literal_cases
  · rw [int] at literal
    rw [← some.inj literal, JsonNumber.asF64_value, value_posInt (by omega), value_digits (by omega)]
  · rw [float] at literal
    obtain ⟨f, parsed, rfl⟩ := map_eq_some_iff.mp literal
    obtain ⟨i, rfl, small, same⟩ | same := n.value_cases
    · rw [same]
      exact parseF64_value parsed
    · rw [same, parsed, map_some, getD_some, F64.round_value]
      rfl

/-- A literal beyond the `f64`s is beyond every JSON number. -/
theorem lt_value (unbounded : n.literal = none) (m : JsonNumber) : m.value < n.value := by
  have infinite : n.parseF64 = none := by
    obtain ⟨i, -, -, int⟩ | float := n.literal_cases
    · rw [int] at unbounded
      cases unbounded
    · rw [float] at unbounded
      exact map_eq_none_iff.mp unbounded
  have same : n.value = n.written := by
    obtain ⟨i, rfl, -, same⟩ | same := n.value_cases
    · exact same
    · rw [same, infinite]
      rfl
  rw [same]
  exact m.value_lt_overflow.trans_le (overflow_le_written infinite)

/-- Some JSON number has the value of a literal that is compiled to a number. -/
theorem exists_value (literal : n.literal = some k) : ∃ m : JsonNumber, m.value = n.value := by
  obtain ⟨i, rfl, small, -⟩ | float := n.literal_cases
  · exact ⟨_, (value_posInt (by omega)).trans (value_digits (by omega)).symm⟩
  · rw [float] at literal
    obtain ⟨f, parsed, -⟩ := map_eq_some_iff.mp literal
    obtain ⟨i, -, small, same⟩ | same := n.value_cases
    · exact ⟨_, (value_posInt small).trans same.symm⟩
    · refine ⟨.float f, ?_⟩
      rw [same, parsed]
      rfl

end NumberText

open NumberText

/-! ## Comparisons of JSON values -/

namespace BinaryOperator

def Orders {α : Type} [LT α] (op : BinaryOperator) (a b : α) : Prop :=
  match op with
  | .eq => a = b
  | .gt => b < a
  | .gtEq => b < a ∨ a = b
  | .lt => a < b
  | .ltEq => a < b ∨ a = b

/-- The operator that a filter on JSON applies. -/
def strict : BinaryOperator → BinaryOperator
  | .gtEq => .gt
  | .ltEq => .lt
  | op => op

end BinaryOperator

/-- The comparison of a JSON number with a literal survives compilation. For `=` the literal's
value is that of one number only; for `>` and `<` no number beyond it rounds to the same
`f64`; `>=` is exact only where no number reaches the literal. -/
def NumberText.Exact (n : NumberText) : BinaryOperator → Prop
  | .eq => ∃ k, n.literal = some k ∧ k.value = n.value ∧ ∀ m : JsonNumber, m.value = n.value → m.same k = true
  | .gt => ∀ k, n.literal = some k → ∀ m : JsonNumber, m.asF64.value = k.asF64.value → m.value ≤ n.value
  | .gtEq => n.literal = none
  | .lt => ∃ k, n.literal = some k ∧ ∀ m : JsonNumber, m.asF64.value = k.asF64.value → n.value ≤ m.value
  | .ltEq => False

/-- The comparison of a JSON value with a literal survives compilation. -/
def SqlValue.Exact (op : BinaryOperator) : SqlValue → Prop
  | .number n => n.Exact op
  | .doubleQuotedString _ => False
  | _ => op.strict = op

theorem compareJsonValues_number {o : Ordering} (ordered : o ≠ .eq) :
    compareJsonValues j (.number k) = o ↔ ∃ m, j = .number m ∧ cmp m.asF64.value k.asF64.value = o := by
  cases j with
  | number m =>
    constructor
    · exact fun less => ⟨m, rfl, less⟩
    · rintro ⟨m', same, less⟩
      rwa [Json.number.inj same]
  | _ =>
    refine iff_of_false (fun same => ordered same.symm) ?_
    rintro ⟨_, no, -⟩
    cases no

theorem compareJsonValues_string {s : String} {o : Ordering} (ordered : o ≠ .eq) :
    compareJsonValues j (.string s) = o ↔ ∃ t, j = .string t ∧ cmp t s = o := by
  cases j with
  | string t =>
    constructor
    · exact fun less => ⟨t, rfl, less⟩
    · rintro ⟨t', same, less⟩
      rwa [Json.string.inj same]
  | _ =>
    refine iff_of_false (fun same => ordered same.symm) ?_
    rintro ⟨_, no, -⟩
    cases no

theorem compareJsonValues_number_gt :
    compareJsonValues j (.number k) = .gt ↔ ∃ m, j = .number m ∧ k.asF64.value < m.asF64.value :=
  (compareJsonValues_number (by decide)).trans (exists_congr fun _ => and_congr_right fun _ => cmp_eq_gt_iff _ _)

theorem compareJsonValues_number_lt :
    compareJsonValues j (.number k) = .lt ↔ ∃ m, j = .number m ∧ m.asF64.value < k.asF64.value :=
  (compareJsonValues_number (by decide)).trans (exists_congr fun _ => and_congr_right fun _ => cmp_eq_lt_iff _ _)

theorem compareJsonValues_string_gt {s : String} : compareJsonValues j (.string s) = .gt ↔ ∃ t, j = .string t ∧ s < t :=
  (compareJsonValues_string (by decide)).trans (exists_congr fun _ => and_congr_right fun _ => cmp_eq_gt_iff _ _)

theorem compareJsonValues_string_lt {s : String} : compareJsonValues j (.string s) = .lt ↔ ∃ t, j = .string t ∧ t < s :=
  (compareJsonValues_string (by decide)).trans (exists_congr fun _ => and_congr_right fun _ => cmp_eq_lt_iff _ _)

theorem passes_string (op : BinaryOperator) (s : String) (j : Json) :
    op.passes (.string s) j = true ↔ ∃ t, j = .string t ∧ op.strict.Orders t s := by
  cases op with
  | eq => cases j <;> simp [passes, strict, Orders, same]
  | gt => simp [passes, strict, Orders, compareJsonValues_string_gt]
  | gtEq => simp [passes, strict, Orders, compareJsonValues_string_gt]
  | lt => simp [passes, strict, Orders, compareJsonValues_string_lt]
  | ltEq => simp [passes, strict, Orders, compareJsonValues_string_lt]

theorem passes_number {op : BinaryOperator} (ordered : op ≠ .eq) (k : JsonNumber) (j : Json) :
    op.passes (.number k) j = true ↔ ∃ m, j = .number m ∧ op.strict.Orders m.asF64.value k.asF64.value := by
  cases op with
  | eq => exact absurd rfl ordered
  | gt => simp [passes, strict, Orders, compareJsonValues_number_gt]
  | gtEq => simp [passes, strict, Orders, compareJsonValues_number_gt]
  | lt => simp [passes, strict, Orders, compareJsonValues_number_lt]
  | ltEq => simp [passes, strict, Orders, compareJsonValues_number_lt]

theorem passes_number_eq (k : JsonNumber) (j : Json) :
    eq.passes (.number k) j = true ↔ ∃ m, j = .number m ∧ m.same k = true := by
  cases j <;> simp [passes, same]

/-- Null and the booleans have no order. -/
theorem passes_null (op : BinaryOperator) (j : Json) : op.passes .null j = true ↔ op = .eq ∧ j = .null := by
  cases op <;> cases j <;> simp [passes, same, compareJsonValues]

theorem passes_bool (op : BinaryOperator) (b : Bool) (j : Json) :
    op.passes (.bool b) j = true ↔ op = .eq ∧ j = .bool b := by
  cases op <;> cases j <;> simp [passes, same, compareJsonValues]

section Instants

variable (parseFromRfc3339 : String → Option Int)

/-- What a comparison of a JSON value says. -/
def Means (op : BinaryOperator) (d : Datum) (j : Json) : Prop := ∃ a, jsonDatum j = some a ∧ op.Relates parseFromRfc3339 a d

theorem means_number (op : BinaryOperator) (q : ℚ) (j : Json) :
    Means parseFromRfc3339 op (.number q) j ↔ ∃ m, j = .number m ∧ op.Orders m.value q := by
  cases j <;> cases op <;>
    simp [Means, jsonDatum, Relates, Orders, Datum.Less, Datum.Equal]

theorem means_text (op : BinaryOperator) (s : String) (j : Json) :
    Means parseFromRfc3339 op (.text s) j ↔ ∃ t, j = .string t ∧ op.Orders t s := by
  cases j <;> cases op <;>
    simp [Means, jsonDatum, Relates, Orders, Datum.Less, Datum.Equal]

theorem means_null (op : BinaryOperator) (j : Json) :
    Means parseFromRfc3339 op .null j ↔ op ≠ .gt ∧ op ≠ .lt ∧ j = .null := by
  cases j <;> cases op <;> simp [Means, jsonDatum, Relates, Datum.Less, Datum.Equal]

theorem means_bool (op : BinaryOperator) (b : Bool) (j : Json) :
    Means parseFromRfc3339 op (.bool b) j ↔ op ≠ .gt ∧ op ≠ .lt ∧ j = .bool b := by
  cases j <;> cases op <;> simp [Means, jsonDatum, Relates, Datum.Less, Datum.Equal]

/-- A literal beyond the `f64`s is compiled to null. -/
theorem NumberText.exact_iff_of_none {n : NumberText} (unbounded : n.literal = none) (op : BinaryOperator) :
    (∀ j, op.passes .null j = true ↔ Means parseFromRfc3339 op (.number n.value) j) ↔ n.Exact op := by
  simp only [passes_null, means_number]
  have zero := lt_value unbounded (.posInt 0)
  cases op with
  | eq =>
    have never : ¬ n.Exact .eq := by
      rintro ⟨k, literal, -⟩
      rw [unbounded] at literal
      cases literal
    refine iff_of_false (fun agree => ?_) never
    obtain ⟨m, no, -⟩ := (agree .null).mp ⟨rfl, rfl⟩
    cases no
  | gt =>
    refine iff_of_true (fun j => iff_of_false (fun null => nomatch null.1) ?_) fun k literal => ?_
    · rintro ⟨m, -, greater⟩
      exact (lt_value unbounded m).asymm greater
    · rw [unbounded] at literal
      cases literal
  | gtEq =>
    refine iff_of_true (fun j => iff_of_false (fun null => nomatch null.1) ?_) unbounded
    rintro ⟨m, -, greater | same⟩
    · exact (lt_value unbounded m).asymm greater
    · exact (lt_value unbounded m).ne same
  | lt =>
    have never : ¬ n.Exact .lt := by
      rintro ⟨k, literal, -⟩
      rw [unbounded] at literal
      cases literal
    exact iff_of_false (fun agree => nomatch ((agree _).mpr ⟨_, rfl, zero⟩).1) never
  | ltEq => exact iff_of_false (fun agree => nomatch ((agree _).mpr ⟨_, rfl, .inl zero⟩).1) id

theorem forall_number_iff {P Q : JsonNumber → Prop} :
    (∀ j, (∃ m, j = Json.number m ∧ P m) ↔ ∃ m, j = Json.number m ∧ Q m) ↔ ∀ m, P m ↔ Q m := by
  constructor
  · intro agree m
    have here := agree (.number m)
    simpa using here
  · intro agree j
    simp only [agree]

theorem NumberText.exact_iff_of_some {n : NumberText} (literal : n.literal = some k) (op : BinaryOperator) :
    (∀ j, op.passes (.number k) j = true ↔ Means parseFromRfc3339 op (.number n.value) j) ↔ n.Exact op := by
  have rounded := literal_asF64 literal
  have below {m : JsonNumber} (le : m.value ≤ n.value) : m.asF64.value ≤ k.asF64.value := by
    rw [rounded, JsonNumber.asF64_value]
    exact F64.round_mono le
  have above {m : JsonNumber} (le : n.value ≤ m.value) : k.asF64.value ≤ m.asF64.value := by
    rw [rounded, JsonNumber.asF64_value]
    exact F64.round_mono le
  obtain ⟨equal, isEqual⟩ := exists_value literal
  have same : equal.asF64.value = k.asF64.value := le_antisymm (below isEqual.le) (above isEqual.ge)
  cases op with
  | eq =>
    simp only [passes_number_eq, means_number, forall_number_iff, Exact, literal, some.injEq, exists_eq_left']
    constructor
    · intro agree
      exact ⟨(agree k).mp k.same_self, fun m value => (agree m).mpr value⟩
    · rintro ⟨value, single⟩ m
      exact ⟨fun same => (JsonNumber.value_eq_of_same same).trans value, single m⟩
  | gt =>
    simp only [passes_number (show gt ≠ .eq by decide), means_number, forall_number_iff]
    constructor
    · intro agree k' literal' m level
      rw [literal] at literal'
      cases literal'
      by_contra beyond
      exact ((agree m).mpr (not_le.mp beyond)).ne' level
    · intro exact m
      refine ⟨fun (less : _ < _) => ?_, fun (less : _ < _) => (above less.le).lt_of_ne' fun level => ?_⟩
      · by_contra notAbove
        exact (below (not_lt.mp notAbove)).not_gt less
      · exact (exact k literal m level).not_gt less
  | gtEq =>
    refine iff_of_false (fun agree => ?_) (fun (unbounded : n.literal = none) => nomatch literal.symm.trans unbounded)
    simp only [passes_number (show gtEq ≠ .eq by decide), means_number, forall_number_iff] at agree
    exact lt_irrefl _ (((agree equal).mpr (.inr isEqual)).trans_eq same)
  | lt =>
    simp only [passes_number (show lt ≠ .eq by decide), means_number, forall_number_iff]
    constructor
    · intro agree
      refine ⟨k, literal, fun m level => ?_⟩
      by_contra beyond
      exact ((agree m).mpr (not_le.mp beyond)).ne level
    · rintro ⟨k', literal', exact⟩ m
      rw [literal] at literal'
      cases literal'
      refine ⟨fun (less : _ < _) => ?_, fun (less : _ < _) => (below less.le).lt_of_ne fun level => ?_⟩
      · by_contra notBelow
        exact (above (not_lt.mp notBelow)).not_gt less
      · exact (exact m level).not_gt less
  | ltEq =>
    refine iff_of_false (fun agree => ?_) id
    simp only [passes_number (show ltEq ≠ .eq by decide), means_number, forall_number_iff] at agree
    exact lt_irrefl _ (((agree equal).mpr (.inr isEqual)).trans_eq same.symm)

/-- On the values of JSON the compiled comparison is the meant one exactly where it is exact. -/
theorem SqlValue.literal_exact_iff {v : SqlValue} {literal : Json} (compiled : exprToJsonValue (.value v) = .ok literal) (op : BinaryOperator) :
    (∀ j, op.passes literal j = true ↔ Means parseFromRfc3339 op v.datum j) ↔ v.Exact op := by
  cases v with
  | number n =>
    rw [exprToJsonValue_number] at compiled
    cases compiled
    cases number : n.literal with
    | none => exact exact_iff_of_none parseFromRfc3339 number op
    | some k => exact exact_iff_of_some parseFromRfc3339 number op
  | singleQuotedString s =>
    cases compiled
    simp only [SqlValue.datum, passes_string, means_text]
    constructor
    · intro agree
      cases op with
      | gtEq =>
        obtain ⟨t, isText, less⟩ := (agree (.string s)).mpr ⟨s, rfl, .inr rfl⟩
        cases isText
        exact absurd less (lt_irrefl s)
      | ltEq =>
        obtain ⟨t, isText, less⟩ := (agree (.string s)).mpr ⟨s, rfl, .inr rfl⟩
        cases isText
        exact absurd less (lt_irrefl s)
      | _ => rfl
    · intro exact j
      rw [show op.strict = op from exact]
  | doubleQuotedString s => cases compiled
  | boolean b =>
    cases compiled
    simp only [SqlValue.datum, passes_bool, means_bool]
    constructor
    · intro agree
      have here := agree (.bool b)
      cases op <;> simp at here ⊢ <;> rfl
    · intro exact j
      cases op <;> simp <;> cases exact
  | null =>
    cases compiled
    simp only [SqlValue.datum, passes_null, means_null]
    constructor
    · intro agree
      have here := agree .null
      cases op <;> simp at here ⊢ <;> rfl
    · intro exact j
      cases op <;> simp <;> cases exact

/-- A comparison that the parser makes a filter of, or rejects; it drops every other one. -/
inductive Comparison.Read : Comparison → Prop
  | key {name s right} (named : lowercase name = "key") (text : extractStringValue right = some s) :
      Read ⟨.identifier name, .eq, right⟩
  | partition {name n right} (named : lowercase name = "partition") (int : extractLiteralInt right = some n) :
      Read ⟨.identifier name, .eq, right⟩
  | offset {name op n right} (named : lowercase name = "offset") (int : extractLiteralInt right = some n) :
      Read ⟨.identifier name, op, right⟩
  | timestamp {name op s ns right} (named : lowercase name = "timestamp") (ordered : op ≠ .eq)
      (text : extractStringValue right = some s) (instant : parseFromRfc3339 s = some ns) : Read ⟨.identifier name, op, right⟩
  | json {args path column op right} (called : parseJsonExtractArgs args = some (path, column)) :
      Read ⟨.jsonExtract args, op, right⟩

variable {parseFromRfc3339}

variable {op : BinaryOperator} {right : Operand}

theorem parseComparison_key {name s : String} (named : lowercase name = "key")
    (text : extractStringValue right = some s) :
    parseComparison parseFromRfc3339 ⟨.identifier name, .eq, right⟩ = .ok (some (.keyEquals s)) := by
  simp only [parseComparison, parseEqualityFilter, named, if_true, text, map_some]

theorem parseComparison_partition {name : String} {n : Nat} (named : lowercase name = "partition")
    (int : extractLiteralInt right = some n) :
    parseComparison parseFromRfc3339 ⟨.identifier name, .eq, right⟩ = .ok (some (.partitionEquals (BitVec.ofNat 32 n))) := by
  simp [parseComparison, parseEqualityFilter, named, int]

theorem parseComparison_json {args : List FunctionArg} {path column : String} (op : BinaryOperator) (right : Operand)
    (called : parseJsonExtractArgs args = some (path, column)) :
    parseComparison parseFromRfc3339 ⟨.jsonExtract args, op, right⟩ =
      (exprToJsonValue right).map fun literal => some (op.jsonFilter path literal) := by
  cases op <;> simp [parseComparison, parseEqualityFilter, parseComparisonFilter, called, jsonFilter]

/-- The filter of a comparison of the timestamp, which does not tell strict from loose. -/
theorem parseComparison_timestamp {name s : String} {ns : Int}
    (named : lowercase name = "timestamp") (ordered : op ≠ .eq) (text : extractStringValue right = some s)
    (instant : parseFromRfc3339 s = some ns) : parseComparison parseFromRfc3339 ⟨.identifier name, op, right⟩ =
      .ok (some (if op = .gt ∨ op = .gtEq then .timestampGte (ns / 10 ^ 6) else .timestampLt (ns / 10 ^ 6))) := by
  have ts : extractTimestampValue parseFromRfc3339 right = some (ns / 10 ^ 6) := by
    rw [extractTimestampValue, text, bind_some, instant, map_some]
  cases op with
  | eq => exact absurd rfl ordered
  | gt => simp [parseComparison, parseComparisonFilter, named, ts]
  | gtEq => simp [parseComparison, parseComparisonFilter, named, ts]
  | lt => simp [parseComparison, parseComparisonFilter, named, ts]
  | ltEq => simp [parseComparison, parseComparisonFilter, named, ts]

/-- No other comparison has a filter. -/
theorem parseComparison_dropped {c : Comparison} (unread : ¬ c.Read parseFromRfc3339) :
    parseComparison parseFromRfc3339 c = .ok none := by
  obtain ⟨left, op, right⟩ := c
  cases left with
  | value v => cases op <;> rfl
  | minus n => cases op <;> rfl
  | jsonExtract args =>
    have uncalled : parseJsonExtractArgs args = none := by
      cases called : parseJsonExtractArgs args with
      | none => rfl
      | some pair => exact absurd (.json called) unread
    cases op <;> simp [parseComparison, parseEqualityFilter, parseComparisonFilter, uncalled]
  | identifier name =>
    have offset : lowercase name = "offset" → extractLiteralInt right = none := fun named =>
      eq_none_iff_forall_ne_some.mpr fun n int => unread (.offset named int)
    have timestamp : op ≠ .eq → lowercase name = "timestamp" → extractTimestampValue parseFromRfc3339 right = none := by
      intro ordered named
      rw [extractTimestampValue, bind_eq_none_iff]
      intro s text
      rw [map_eq_none_iff]
      exact eq_none_iff_forall_ne_some.mpr fun ns instant => unread (.timestamp named ordered text instant)
    have ordered : ∀ isGreater isEqual, op ≠ .eq →
        parseComparisonFilter parseFromRfc3339 (.identifier name) right isGreater isEqual = .ok none := by
      intro isGreater isEqual ordered
      by_cases isOffset : lowercase name = "offset"
      · simp [parseComparisonFilter, isOffset, offset isOffset]
      · by_cases isTimestamp : lowercase name = "timestamp"
        · simp [parseComparisonFilter, isTimestamp, timestamp ordered isTimestamp]
        · simp [parseComparisonFilter, isOffset, isTimestamp]
    cases op with
    | eq =>
      have key : lowercase name = "key" → extractStringValue right = none := fun named =>
        eq_none_iff_forall_ne_some.mpr fun s text => unread (.key named text)
      have partition : lowercase name = "partition" → extractLiteralInt right = none := fun named =>
        eq_none_iff_forall_ne_some.mpr fun n int => unread (.partition named int)
      by_cases isKey : lowercase name = "key"
      · simp [parseComparison, parseEqualityFilter, isKey, key isKey]
      · by_cases isPartition : lowercase name = "partition"
        · simp [parseComparison, parseEqualityFilter, isPartition, partition isPartition]
        · by_cases isOffset : lowercase name = "offset"
          · simp [parseComparison, parseEqualityFilter, isOffset, offset isOffset]
          · simp [parseComparison, parseEqualityFilter, isKey, isPartition, isOffset]
    | gt => exact ordered true false (by decide)
    | gtEq => exact ordered true true (by decide)
    | lt => exact ordered false false (by decide)
    | ltEq => exact ordered false true (by decide)

theorem extractLiteralInt_cases {n : Nat} (int : extractLiteralInt right = some n) :
    right = .value (.number (.digits n)) ∧ n < 2 ^ 63 := by
  unfold extractLiteralInt at int
  split at int
  · rename_i t
    unfold parseI64 at int
    split at int
    · split at int
      · rename_i small
        cases int
        exact ⟨rfl, small⟩
      · cases int
    · cases int
  · cases int

/-- The filter of a comparison of the offset. -/
theorem matches_offset {name : String} {n : Nat} (op : BinaryOperator) (named : lowercase name = "offset")
    (int : extractLiteralInt right = some n) : ∃ filter,
      parseComparison parseFromRfc3339 ⟨.identifier name, op, right⟩ = .ok (some filter) ∧
        ∀ row : MessageRow, row.matchesFilter filter = true ↔ op.Orders row.offset.toNat n := by
  have small := (extractLiteralInt_cases int).2
  have exact : (BitVec.ofNat 64 n).toNat = n := by rw [BitVec.toNat_ofNat]; omega
  have next : (BitVec.ofNat 64 (n + 1)).toNat = n + 1 := by rw [BitVec.toNat_ofNat]; omega
  cases op with
  | eq =>
    refine ⟨.offsetEquals (BitVec.ofNat 64 n), by simp [parseComparison, parseEqualityFilter, named, int], fun row => ?_⟩
    simp [matchesFilter, Orders, ← BitVec.toNat_inj, exact]
  | gt =>
    refine ⟨.offsetGte (BitVec.ofNat 64 (n + 1)), by simp [parseComparison, parseComparisonFilter, named, int], fun row => ?_⟩
    simp only [matchesFilter, Orders, decide_eq_true_eq, BitVec.le_def, next]
    omega
  | gtEq =>
    refine ⟨.offsetGte (BitVec.ofNat 64 n), by simp [parseComparison, parseComparisonFilter, named, int], fun row => ?_⟩
    simp only [matchesFilter, Orders, decide_eq_true_eq, BitVec.le_def, exact]
    omega
  | lt =>
    refine ⟨.offsetLt (BitVec.ofNat 64 n), by simp [parseComparison, parseComparisonFilter, named, int], fun row => ?_⟩
    simp only [matchesFilter, Orders, decide_eq_true_eq, BitVec.lt_def, exact]
  | ltEq =>
    refine ⟨.offsetLt (BitVec.ofNat 64 (n + 1)), by simp [parseComparison, parseComparisonFilter, named, int], fun row => ?_⟩
    simp only [matchesFilter, Orders, decide_eq_true_eq, BitVec.lt_def, next]
    omega

variable (parseFromRfc3339)

/-- A comparison survives compilation: the filters match exactly the rows that it is true of.
A filter of the timestamp is loose below and strict above, and counts whole milliseconds. -/
inductive Comparison.Exact : Comparison → Prop
  | key {name s right} (named : lowercase name = "key") (text : extractStringValue right = some s) :
      Exact ⟨.identifier name, .eq, right⟩
  | partition {name n right} (named : lowercase name = "partition") (int : extractLiteralInt right = some n) (fits : n < 2 ^ 32) :
      Exact ⟨.identifier name, .eq, right⟩
  | offset {name op n right} (named : lowercase name = "offset") (int : extractLiteralInt right = some n) :
      Exact ⟨.identifier name, op, right⟩
  | timestamp {name op s ns right} (named : lowercase name = "timestamp") (bound : op = .gtEq ∨ op = .lt)
      (text : extractStringValue right = some s) (instant : parseFromRfc3339 s = some ns) (whole : 10 ^ 6 ∣ ns) :
      Exact ⟨.identifier name, op, right⟩
  | json {args path column op v} (called : parseJsonExtractArgs args = some (path, column)) (read : lowercase column = "value")
      (literal : v.Exact op) : Exact ⟨.jsonExtract args, op, .value v⟩
  /-- The call names another column, but no row fulfils the comparison of either column. -/
  | otherColumn {args path column op v literal} (called : parseJsonExtractArgs args = some (path, column))
      (compiled : exprToJsonValue v = .ok literal) (misread : lowercase column ≠ "value")
      (unmatched : ∀ j, op.passes literal j = false)
      (never : ∀ row, ¬ Comparison.Holds parseFromRfc3339 ⟨.jsonExtract args, op, v⟩ row) : Exact ⟨.jsonExtract args, op, v⟩
  | rejected {args path column op right e} (called : parseJsonExtractArgs args = some (path, column))
      (error : exprToJsonValue right = .error e) : Exact ⟨.jsonExtract args, op, right⟩
  /-- A dropped comparison excludes no row. -/
  | dropped {c} (unread : ¬ Comparison.Read parseFromRfc3339 c) (always : ∀ row, Comparison.Holds parseFromRfc3339 c row) : Exact c

/-- The filter of a comparison, where there is one, matches the rows that it is true of. -/
def Comparison.Agrees (c : Comparison) : Prop :=
  ∀ filter, parseComparison parseFromRfc3339 c = .ok filter →
    ∀ row : MessageRow, row.matchesFilters filter.toList = true ↔ c.Holds parseFromRfc3339 row

/-- A row with nothing in it. -/
def emptyRow : MessageRow := { topic := "", partition := 0, offset := 0, key := none, value := ⟨"", none⟩, timestamp := 0 }

/-- A row whose value has `j` at the end of a path. -/
def rowWith (path : String) (j : Json) : MessageRow := { emptyRow with value := ⟨"", some (nest (pathParts path) j)⟩ }

variable {parseFromRfc3339}

theorem matchesFilters_toList (row : MessageRow) (filter : Option Filter) :
    row.matchesFilters filter.toList = true ↔ ∀ f, filter = some f → row.matchesFilter f = true := by
  cases filter with
  | none => simp [matchesFilters]
  | some f => simp [matchesFilters]

/-- A comparison with a filter agrees by that filter. -/
theorem agrees_iff {c : Comparison} {filter : Filter} (compiled : parseComparison parseFromRfc3339 c = .ok (some filter)) :
    c.Agrees parseFromRfc3339 ↔ ∀ row : MessageRow, row.matchesFilter filter = true ↔ c.Holds parseFromRfc3339 row := by
  unfold Comparison.Agrees
  rw [compiled]
  simp only [Except.ok.injEq, forall_eq', matchesFilters_toList, some.injEq]

theorem agrees_dropped_iff {c : Comparison} (unread : ¬ c.Read parseFromRfc3339) :
    c.Agrees parseFromRfc3339 ↔ ∀ row, c.Holds parseFromRfc3339 row := by
  unfold Comparison.Agrees
  rw [parseComparison_dropped unread]
  simp [matchesFilters]

theorem datum_text {s : String} (text : extractStringValue right = some s) (row : MessageRow) :
    right.datum row = some (.text s) := by
  unfold extractStringValue at text
  split at text <;> cases text <;> rfl

theorem datum_int {n : Nat} (int : extractLiteralInt right = some n) (row : MessageRow) :
    right.datum row = some (.number n) := by
  obtain ⟨rfl, small⟩ := extractLiteralInt_cases int
  rw [datum, SqlValue.datum, value_digits (by omega)]

theorem holds_iff {left right : Operand} {row : MessageRow} {b : Datum} (datum : right.datum row = some b) :
    Comparison.Holds parseFromRfc3339 ⟨left, op, right⟩ row ↔ ∃ a, left.datum row = some a ∧ op.Relates parseFromRfc3339 a b := by
  unfold Comparison.Holds
  constructor
  · rintro ⟨a, b', left, right, relates⟩
    obtain rfl := some.inj (datum.symm.trans right)
    exact ⟨a, left, relates⟩
  · rintro ⟨a, left, relates⟩
    exact ⟨a, b, left, datum, relates⟩

theorem column_key (row : MessageRow) : row.column "key" = row.key.map fun key => .text key.chars := by
  simp [column, textOf]

theorem column_partition (row : MessageRow) : row.column "partition" = some (.number row.partition.toNat) := by
  simp [column]

theorem column_offset (row : MessageRow) : row.column "offset" = some (.number row.offset.toNat) := by
  simp [column]

theorem column_timestamp (row : MessageRow) : row.column "timestamp" = some (.instant (row.timestamp * 10 ^ 6)) := by
  simp [column]

theorem agrees_key {name s : String} (named : lowercase name = "key") (text : extractStringValue right = some s) :
    Comparison.Agrees parseFromRfc3339 ⟨.identifier name, .eq, right⟩ := by
  rw [agrees_iff (parseComparison_key named text)]
  intro row
  rw [holds_iff (datum_text text row), datum, named, column_key]
  unfold matchesFilter
  cases row.key <;> simp [Relates, Datum.Equal]

/-- A partition beyond 32 bits is cut to one of 32 bits. -/
theorem agrees_partition_iff {name : String} {n : Nat} (named : lowercase name = "partition")
    (int : extractLiteralInt right = some n) : Comparison.Agrees parseFromRfc3339 ⟨.identifier name, .eq, right⟩ ↔ n < 2 ^ 32 := by
  rw [agrees_iff (parseComparison_partition named int)]
  have holds (row : MessageRow) : Comparison.Holds parseFromRfc3339 ⟨.identifier name, .eq, right⟩ row ↔ row.partition.toNat = n := by
    rw [holds_iff (datum_int int row), datum, named, column_partition]
    simp [Relates, Datum.Equal]
  have filtered (row : MessageRow) : row.matchesFilter (.partitionEquals (BitVec.ofNat 32 n)) = true ↔
      row.partition.toNat = n % 2 ^ 32 := by
    rw [matchesFilter, decide_eq_true_iff, ← BitVec.toNat_inj, BitVec.toNat_ofNat]
  simp only [holds, filtered]
  constructor
  · intro agree
    have cut := (agree { emptyRow with partition := BitVec.ofNat 32 n }).mp (BitVec.toNat_ofNat n 32)
    have bound := (BitVec.ofNat 32 n).isLt
    omega
  · intro fits row
    rw [Nat.mod_eq_of_lt fits]

theorem agrees_offset {name : String} {n : Nat} (named : lowercase name = "offset")
    (int : extractLiteralInt right = some n) : Comparison.Agrees parseFromRfc3339 ⟨.identifier name, op, right⟩ := by
  obtain ⟨filter, compiled, filtered⟩ := @matches_offset parseFromRfc3339 right name n op named int
  rw [agrees_iff compiled]
  intro row
  rw [filtered, holds_iff (datum_int int row), datum, named, column_offset]
  cases op <;> simp [Relates, Orders, Datum.Equal, Datum.Less]

/-- Of the comparisons of the timestamp only `>=` and `<` with a whole millisecond are kept. -/
theorem agrees_timestamp_iff {name s : String} {ns : Int}
    (named : lowercase name = "timestamp") (ordered : op ≠ .eq) (text : extractStringValue right = some s)
    (instant : parseFromRfc3339 s = some ns) :
    Comparison.Agrees parseFromRfc3339 ⟨.identifier name, op, right⟩ ↔ (op = .gtEq ∨ op = .lt) ∧ 10 ^ 6 ∣ ns := by
  rw [agrees_iff (parseComparison_timestamp named ordered text instant)]
  have holds (row : MessageRow) : Comparison.Holds parseFromRfc3339 ⟨.identifier name, op, right⟩ row ↔
      op.Orders (row.timestamp * 10 ^ 6) ns := by
    rw [holds_iff (datum_text text row), datum, named, column_timestamp]
    cases op with
    | eq => exact absurd rfl ordered
    | _ => simp [Relates, Orders, Datum.Less, Datum.Equal, instant, eq_comm (a := ns)]
  simp only [holds]
  -- the row of the very millisecond tells the cases apart
  constructor
  · intro agree
    have here := agree { emptyRow with timestamp := ns / 10 ^ 6 }
    cases op with
    | eq => exact absurd rfl ordered
    | gt => simp [matchesFilter, Orders] at here; omega
    | gtEq => simp [matchesFilter, Orders] at here; exact ⟨.inl rfl, by omega⟩
    | lt => simp [matchesFilter, Orders] at here; exact ⟨.inr rfl, by omega⟩
    | ltEq => simp [matchesFilter, Orders] at here; omega
  · rintro ⟨rfl | rfl, whole⟩ row
    · simp [matchesFilter, Orders]
      omega
    · simp [matchesFilter, Orders]
      omega

theorem testJson_rowWith (path : String) (j : Json) (test : Json → Bool) : (rowWith path j).testJson path test = test j := by
  have reached : (rowWith path j).testJson path test = test (extractJsonPath (nest (pathParts path) j) path) := rfl
  rw [reached, extract_nest]

theorem testJson_iff (row : MessageRow) (path : String) (test : Json → Bool) :
    row.testJson path test = true ↔ ∃ json, row.value.json = some json ∧ test (extractJsonPath json path) = true := by
  unfold testJson
  cases row.value.json <;> simp

variable {args : List FunctionArg} {path column : String}

section

variable (called : parseJsonExtractArgs args = some (path, column))
include called

theorem jsonExtract_datum
    (row : MessageRow) : (jsonExtract args).datum row =
      ((row.textOf (lowercase column)).bind Text.json).bind fun json => jsonDatum (extractJsonPath json path) := by
  rw [datum, called, bind_some]

theorem holds_json_iff {v : SqlValue}
    (read : lowercase column = "value") (row : MessageRow) :
    Comparison.Holds parseFromRfc3339 ⟨.jsonExtract args, op, .value v⟩ row ↔
      ∃ json, row.value.json = some json ∧ Means parseFromRfc3339 op v.datum (extractJsonPath json path) := by
  rw [holds_iff rfl, jsonExtract_datum called, read]
  have text : row.textOf "value" = some row.value := by simp [textOf]
  rw [text, bind_some]
  cases row.value.json with
  | none => simp
  | some json => simp [Means]

theorem agrees_json_iff {v : SqlValue} {literal : Json}
    (read : lowercase column = "value")
    (compiled : exprToJsonValue (.value v) = .ok literal) :
    Comparison.Agrees parseFromRfc3339 ⟨.jsonExtract args, op, .value v⟩ ↔ v.Exact op := by
  have filter : parseComparison parseFromRfc3339 ⟨.jsonExtract args, op, .value v⟩ = .ok (some (op.jsonFilter path literal)) := by
    rw [parseComparison_json op _ called, compiled]
    rfl
  rw [agrees_iff filter, ← SqlValue.literal_exact_iff parseFromRfc3339 compiled]
  simp only [matchesFilter_jsonFilter, holds_json_iff called read]
  constructor
  · intro agree j
    have here := agree (rowWith path j)
    rw [testJson_rowWith] at here
    rw [here]
    simp [rowWith, extract_nest]
  · intro exact row
    rw [testJson_iff]
    simp only [exact]

/-- A call that names another column is compiled to a test of the value. -/
theorem agrees_otherColumn {literal : Json}
    (misread : lowercase column ≠ "value")
    (compiled : exprToJsonValue right = .ok literal) :
    Comparison.Agrees parseFromRfc3339 ⟨.jsonExtract args, op, right⟩ ↔
      (∀ j, op.passes literal j = false) ∧ ∀ row, ¬ Comparison.Holds parseFromRfc3339 ⟨.jsonExtract args, op, right⟩ row := by
  have filter : parseComparison parseFromRfc3339 ⟨.jsonExtract args, op, right⟩ = .ok (some (op.jsonFilter path literal)) := by
    rw [parseComparison_json op _ called, compiled]
    rfl
  rw [agrees_iff filter]
  simp only [matchesFilter_jsonFilter]
  constructor
  · intro agree
    have unmatched (j : Json) : op.passes literal j = false := by
      -- without a key no column but the value has JSON
      have absent : ¬ Comparison.Holds parseFromRfc3339 ⟨.jsonExtract args, op, right⟩ (rowWith path j) := by
        rintro ⟨a, b, datum, -⟩
        rw [jsonExtract_datum called] at datum
        simp [textOf, misread, rowWith, emptyRow] at datum
      rw [← agree, testJson_rowWith] at absent
      exact Bool.eq_false_iff.mpr absent
    refine ⟨unmatched, fun row holds => ?_⟩
    obtain ⟨json, -, passes⟩ := (testJson_iff row path _).mp ((agree row).mpr holds)
    rw [unmatched] at passes
    cases passes
  · rintro ⟨unmatched, never⟩ row
    refine iff_of_false (fun passes => ?_) (never row)
    obtain ⟨json, -, passes⟩ := (testJson_iff row path _).mp passes
    rw [unmatched] at passes
    cases passes

theorem agrees_rejected {e : SqlError}
    (error : exprToJsonValue right = .error e) :
    Comparison.Agrees parseFromRfc3339 ⟨.jsonExtract args, op, right⟩ := by
  intro filter compiled
  rw [parseComparison_json op right called, error] at compiled
  cases compiled


end
theorem exists_value_of_ok {literal : Json} (compiled : exprToJsonValue right = .ok literal) :
    ∃ v, right = .value v := by
  cases right with
  | value v => exact ⟨v, rfl⟩
  | _ => cases compiled

/-- The filter of a comparison agrees with it exactly where the comparison is exact. -/
theorem agrees_iff_exact (c : Comparison) : c.Agrees parseFromRfc3339 ↔ c.Exact parseFromRfc3339 := by
  constructor
  · intro agrees
    by_cases read : c.Read parseFromRfc3339
    · cases read with
      | key named text => exact .key named text
      | partition named int => exact .partition named int ((agrees_partition_iff named int).mp agrees)
      | offset named int => exact .offset named int
      | timestamp named ordered text instant =>
        obtain ⟨bound, whole⟩ := (agrees_timestamp_iff named ordered text instant).mp agrees
        exact .timestamp named bound text instant whole
      | @json args path column op right called =>
        cases compiled : exprToJsonValue right with
        | error e => exact .rejected called compiled
        | ok literal =>
          by_cases isValue : lowercase column = "value"
          · obtain ⟨v, rfl⟩ := exists_value_of_ok compiled
            exact .json called isValue ((agrees_json_iff called isValue compiled).mp agrees)
          · obtain ⟨unmatched, never⟩ := (agrees_otherColumn called isValue compiled).mp agrees
            exact .otherColumn called compiled isValue unmatched never
    · exact .dropped read ((agrees_dropped_iff read).mp agrees)
  · intro exact
    cases exact with
    | key named text => exact agrees_key named text
    | partition named int fits => exact (agrees_partition_iff named int).mpr fits
    | offset named int => exact agrees_offset named int
    | @timestamp name op s ns right named bound text instant whole =>
      have ordered : op ≠ .eq := by
        rintro rfl
        cases bound <;> contradiction
      exact (agrees_timestamp_iff named ordered text instant).mpr ⟨bound, whole⟩
    | @json args path column op v called read literal =>
      cases compiled : exprToJsonValue (.value v) with
      | error e => exact agrees_rejected called compiled
      | ok j => exact (agrees_json_iff called read compiled).mpr literal
    | otherColumn called compiled misread unmatched never => exact (agrees_otherColumn called misread compiled).mpr ⟨unmatched, never⟩
    | rejected called error => exact agrees_rejected called error
    | dropped unread always => exact (agrees_dropped_iff unread).mpr always

/-! ## The whole clause -/

theorem matchesFilters_append (row : MessageRow) (filters more : List Filter) :
    row.matchesFilters (filters ++ more) = true ↔ row.matchesFilters filters = true ∧ row.matchesFilters more = true := by
  simp [matchesFilters]

theorem map_eq_ok {ε α β : Type} {f : α → β} {x : Except ε α} {b : β} : x.map f = .ok b ↔ ∃ a, x = .ok a ∧ f a = b := by
  cases x <;> simp [Except.map]

theorem bind_eq_ok {ε α β : Type} {f : α → Except ε β} {x : Except ε α} {b : β} :
    x.bind f = .ok b ↔ ∃ a, x = .ok a ∧ f a = .ok b := by
  cases x <;> simp [Except.bind]

/-- The filters of an expression come behind those that are there, and match the rows that the
expression is true of. -/
theorem collectFilters_exact {expr : Expr} (exact : ∀ c ∈ expr.comparisons, c.Agrees parseFromRfc3339) {filters collected : List Filter}
    (ok : collectFilters parseFromRfc3339 expr filters = .ok collected) (row : MessageRow) :
    row.matchesFilters collected = true ↔ row.matchesFilters filters = true ∧ expr.Holds parseFromRfc3339 row := by
  induction expr generalizing filters collected with
  | comparison c =>
    obtain ⟨filter, compiled, rfl⟩ := map_eq_ok.mp ok
    rw [matchesFilters_append, exact c mem_cons_self filter compiled row]
    rfl
  | and left right ihLeft ihRight =>
    obtain ⟨between, first, second⟩ := bind_eq_ok.mp ok
    rw [ihRight (fun c inside => exact c (mem_append_right _ inside)) second,
      ihLeft (fun c inside => exact c (mem_append_left _ inside)) first, and_assoc]
    rfl
  | nested inner ih => exact ih exact ok
  | unsupported holds => cases ok

theorem compiled_comparison_iff (c : Comparison) :
    (Expr.comparison c).Compiled parseFromRfc3339 ↔ c.Agrees parseFromRfc3339 := by
  unfold Expr.Compiled Comparison.Agrees parseWhereClause collectFilters
  simp only [map_eq_ok, nil_append, forall_exists_index, and_imp]
  constructor
  · intro compiled filter ok row
    exact compiled filter.toList filter ok rfl row
  · rintro agrees filters filter ok rfl row
    exact agrees filter ok row

theorem comparisons_of_mem_parts {part expr : Expr} (inside : part ∈ expr.parts) : ∀ c ∈ part.comparisons, c ∈ expr.comparisons := by
  induction expr with
  | comparison c =>
    rw [mem_singleton.mp inside]
    exact fun c here => here
  | and left right ihLeft ihRight =>
    obtain rfl | deeper := mem_cons.mp inside
    · exact fun c here => here
    · obtain inLeft | inRight := mem_append.mp deeper
      · exact fun c here => mem_append_left _ (ihLeft inLeft c here)
      · exact fun c here => mem_append_right _ (ihRight inRight c here)
  | nested inner ih =>
    obtain rfl | deeper := mem_cons.mp inside
    · exact fun c here => here
    · exact ih deeper
  | unsupported holds =>
    rw [mem_singleton.mp inside]
    exact fun c here => here

theorem mem_parts_of_comparison {c : Comparison} {expr : Expr} (inside : c ∈ expr.comparisons) : .comparison c ∈ expr.parts := by
  induction expr with
  | comparison d =>
    rw [mem_singleton.mp inside]
    exact mem_cons_self
  | and left right ihLeft ihRight =>
    apply mem_cons_of_mem
    obtain inLeft | inRight := mem_append.mp inside
    · exact mem_append_left _ (ihLeft inLeft)
    · exact mem_append_right _ (ihRight inRight)
  | nested inner ih => exact mem_cons_of_mem _ (ih inside)
  | unsupported holds => cases inside

variable (parseFromRfc3339)

/-- A WHERE expression and all its parts keep their meaning exactly if every comparison in it is
exact. -/
theorem where_compilation_iff (expr : Expr) :
    (∀ part ∈ expr.parts, part.Compiled parseFromRfc3339) ↔ ∀ c ∈ expr.comparisons, c.Exact parseFromRfc3339 := by
  constructor
  · intro compiled c inside
    rw [← agrees_iff_exact, ← compiled_comparison_iff]
    exact compiled _ (mem_parts_of_comparison inside)
  · intro exact part inside filters ok row
    have agree : ∀ c ∈ part.comparisons, c.Agrees parseFromRfc3339 := fun c here =>
      (agrees_iff_exact c).mpr (exact c (comparisons_of_mem_parts inside c here))
    rw [collectFilters_exact agree ok row]
    simp [matchesFilters]

end Instants

/-- `5 < offset` is dropped, and the first row of a partition passes. -/
theorem where_compilation_drops : ¬ ∀ (parseFromRfc3339 : String → Option Int) (expr : Expr), expr.Compiled parseFromRfc3339 := by
  intro compiled
  have ok : parseWhereClause (fun _ => none) (.comparison ⟨.value (.number (.digits 5)), .lt, .identifier "offset"⟩) = .ok [] := rfl
  obtain ⟨a, b, five, offset, less⟩ := (compiled (fun _ => none) _ [] ok emptyRow).mp rfl
  cases five
  have named : lowercase "offset" = "offset" := by decide +kernel
  rw [datum, named, column_offset] at offset
  cases offset
  have less : (digits 5).value < (0 : Nat) := less
  rw [value_digits (by norm_num), Nat.cast_lt] at less
  exact absurd less (by decide)

end StreamHouse.Sql
