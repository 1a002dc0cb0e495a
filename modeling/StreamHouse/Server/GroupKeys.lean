import StreamHouse.Core.I64
import StreamHouse.Server.ViewRows
import StreamHouse.Sql.Execute

/-!
# What a group key tells

The texts of the GROUP BY columns are joined with bars into the key of a group; a result row splits the key at its
bars, and a view writes it in front of the window. `group_keys_iff` says of which messages the keys tell the
columns apart and the rows have their shape. The key in front of a window is always found again.
-/

namespace StreamHouse.Server.Views

open Metadata Storage Sql Lib OrderedMap List

/-- The value that a GROUP BY column has in a message; a name that is no column has none. -/
def groupColumn (column : String) (msg : MessageRow) : Json :=
  if isPath column then extractValueFromMsg msg column
  else
    match column with
    | "topic" => .string msg.topic
    | "partition" => u64Json (msg.partition.setWidth 64)
    | "offset" => u64Json msg.offset
    | "key" => keyJson msg
    | "value" => .string msg.value.chars
    | "timestamp" => i64Json msg.timestamp
    | _ => .null

/-- The messages agree on a column. -/
def Agree (column : String) (a b : MessageRow) : Prop := (groupColumn column a).same (groupColumn column b) = true

section Display

variable (display : Json → String)

/-- Keys are the same where the columns are, rows have a value for each column and each aggregation, and the key
in front of a window is found again. -/
structure GroupKeysIdentify (columns : List String) (messages : List MessageRow) : Prop where
  keys : ∀ a ∈ messages, ∀ b ∈ messages,
    extractGroupKey display a columns = extractGroupKey display b columns ↔ ∀ column ∈ columns, Agree column a b
  rows : ∀ query : AggregateQuery, query.groupBy = columns → ∀ loaded, (∀ msg ∈ loaded, msg ∈ messages) →
    ∀ row ∈ groupByRows display query loaded, row.length = columns.length + query.aggregations.length
  recovered : ∀ groupKey windowStart windowEnd, I64.Fits windowStart → I64.Fits windowEnd →
    parseGroupKeyFromAggKey (aggKey groupKey windowStart windowEnd) = groupKey.getD "_"

/-- The text of the value at a path, null in a message that is no JSON. -/
def jsonText (msg : MessageRow) (path : String) : String :=
  match msg.value.json with
  | some json => display (extractJsonPathForStats json path)
  | none => "null"

/-- The key, where an absent one is empty. -/
def keyText (msg : MessageRow) : String := (msg.key.map Text.chars).getD ""

/-- The key, the partition and the paths, of the columns that are among them, have no bar in them. -/
structure Clear (columns : List String) (msg : MessageRow) : Prop where
  some_ : columns ≠ []
  key : "key" ∈ columns → '|' ∉ (keyText msg).toList
  paths : ∀ path ∈ columns, isPath path = true → '|' ∉ (jsonText display msg path).toList

/-- The columns among the key, the partition and the paths have the same texts. -/
structure SameTexts (columns : List String) (a b : MessageRow) : Prop where
  key : "key" ∈ columns → keyText a = keyText b
  partition : "partition" ∈ columns → a.partition = b.partition
  paths : ∀ path ∈ columns, isPath path = true → jsonText display a path = jsonText display b path

/-- No text has a bar in it, and messages with the same texts are exactly those that agree on all columns. -/
structure TextsIdentify (columns : List String) (messages : List MessageRow) : Prop where
  clear : ∀ msg ∈ messages, Clear display columns msg
  texts : ∀ a ∈ messages, ∀ b ∈ messages, SameTexts display columns a b ↔ ∀ column ∈ columns, Agree column a b

variable {display} {columns : List String} {messages : List MessageRow}

/-! ## Keys -/

/-- The texts of the columns. -/
def groupTexts (display : Json → String) (msg : MessageRow) (columns : List String) : List (List Char) :=
  columns.map fun column => (groupPart display msg column).toList

theorem groupPart_path (msg : MessageRow) {column : String} (path : isPath column = true) :
    groupPart display msg column = jsonText display msg column := by
  have key : column ≠ "key" := by
    rintro rfl
    exact absurd path (by decide)
  have partition : column ≠ "partition" := by
    rintro rfl
    exact absurd path (by decide)
  rw [groupPart, if_neg key, if_neg partition, if_pos path]
  rfl

theorem bar_notMem_toString (n : Nat) : '|' ∉ (toString n).toList := notMem_toString (by decide) (by decide) (n : Int)

/-- Bars are only in keys and at paths. -/
theorem clear_iff {msg : MessageRow} :
    (columns ≠ [] ∧ ∀ column ∈ columns, '|' ∉ (groupPart display msg column).toList) ↔ Clear display columns msg := by
  constructor
  · rintro ⟨some_, clear⟩
    refine ⟨some_, fun inside => clear "key" inside, fun path inside isPath => ?_⟩
    rw [← groupPart_path msg isPath]
    exact clear path inside
  · rintro ⟨some_, key, paths⟩
    refine ⟨some_, fun column inside => ?_⟩
    by_cases path : isPath column = true
    · rw [groupPart_path msg path]
      exact paths column inside path
    · rw [groupPart, if_neg path]
      split_ifs with isKey isPartition
      · exact key (isKey ▸ inside)
      · exact bar_notMem_toString _
      · simp

/-- The other columns have no text. -/
theorem sameTexts_iff {a b : MessageRow} :
    (∀ column ∈ columns, groupPart display a column = groupPart display b column) ↔ SameTexts display columns a b := by
  constructor
  · intro same
    refine ⟨fun inside => same "key" inside, fun inside => ?_, fun path inside isPath => ?_⟩
    · have texts : toString a.partition.toNat = toString b.partition.toNat := same "partition" inside
      exact BitVec.eq_of_toNat_eq (Int.ofNat.inj (toString_inj (m := Int.ofNat _) (n := Int.ofNat _) (congrArg String.toList texts)))
    · rw [← groupPart_path a isPath, ← groupPart_path b isPath]
      exact same path inside
  · rintro ⟨key, partition, paths⟩ column inside
    by_cases path : isPath column = true
    · rw [groupPart_path a path, groupPart_path b path]
      exact paths column inside path
    · rw [groupPart, groupPart, if_neg path, if_neg path]
      split_ifs with isKey isPartition
      · exact key (isKey ▸ inside)
      · rw [partition (isPartition ▸ inside)]
      · rfl

theorem groupKey_toList (msg : MessageRow) :
    ((extractGroupKey display msg columns).getD "").toList = ['|'].intercalate (groupTexts display msg columns) := by
  rw [extractGroupKey]
  split_ifs with none_
  · rw [none_]
    rfl
  · rw [Option.getD_some, String.toList_intercalate, map_map]
    rfl

theorem forall_groupTexts {p : List Char → Prop} (msg : MessageRow) :
    (∀ text ∈ groupTexts display msg columns, p text) ↔ ∀ column ∈ columns, p (groupPart display msg column).toList := by
  rw [groupTexts, forall_mem_map]

theorem groupTexts_eq_iff {a b : MessageRow} : groupTexts display a columns = groupTexts display b columns ↔
    ∀ column ∈ columns, groupPart display a column = groupPart display b column := by
  rw [groupTexts, groupTexts, map_inj_left]
  simp only [String.toList_inj]

/-- Without bars the key tells the texts. -/
theorem groupKey_eq_iff {a b : MessageRow} (some_ : columns ≠ [])
    (clearA : ∀ column ∈ columns, '|' ∉ (groupPart display a column).toList)
    (clearB : ∀ column ∈ columns, '|' ∉ (groupPart display b column).toList) :
    extractGroupKey display a columns = extractGroupKey display b columns ↔
      ∀ column ∈ columns, groupPart display a column = groupPart display b column := by
  rw [← groupTexts_eq_iff]
  constructor
  · intro same
    have texts := congrArg (fun key : Option String => (key.getD "").toList.splitOn '|') same
    have present (msg : MessageRow) : groupTexts display msg columns ≠ [] := by
      rw [groupTexts, ne_eq, map_eq_nil_iff]
      exact some_
    simp only [groupKey_toList] at texts
    rwa [splitOn_intercalate _ ((forall_groupTexts a).mpr clearA) (present a),
      splitOn_intercalate _ ((forall_groupTexts b).mpr clearB) (present b)] at texts
  · intro same
    have parts : columns.map (groupPart display a) = columns.map (groupPart display b) :=
      map_inj_left.mpr (groupTexts_eq_iff.mp same)
    rw [extractGroupKey, extractGroupKey, parts]

/-! ## Rows -/

/-- A row is made of the key of one of the messages. -/
theorem groupRow_of_mem {query : AggregateQuery} {loaded : List MessageRow} {row : List Json}
    (member : row ∈ groupByRows display query loaded) :
    ∃ msg ∈ loaded, row.length = ((['|'].intercalate (groupTexts display msg query.groupBy)).splitOn '|').length +
      query.aggregations.length := by
  obtain ⟨⟨groupKey, groupMessages⟩, inside, rfl⟩ := mem_map.mp (mem_of_mem_take member)
  obtain ⟨entry, isEntry, named⟩ := (filled_push _).2 _ inside
  obtain ⟨msg, isMsg, rfl⟩ := mem_map.mp isEntry
  refine ⟨msg, isMsg, ?_⟩
  dsimp only at named
  rw [length_append, length_map, length_map, ← named, groupKey_toList]

/-- One message has one row. -/
theorem groupByRows_single (msg : MessageRow) (query : AggregateQuery) (unlimited : query.limit = none) :
    ∃ row, row ∈ groupByRows display query [msg] := by
  rw [groupByRows, unlimited]
  exact ⟨_, mem_cons_self⟩

theorem rows_iff : (∀ query : AggregateQuery, query.groupBy = columns → ∀ loaded, (∀ msg ∈ loaded, msg ∈ messages) →
      ∀ row ∈ groupByRows display query loaded, row.length = columns.length + query.aggregations.length) ↔
    ∀ msg ∈ messages, Clear display columns msg := by
  simp only [← clear_iff]
  have shape (msg : MessageRow) : ((['|'].intercalate (groupTexts display msg columns)).splitOn '|').length = columns.length ↔
      columns ≠ [] ∧ ∀ column ∈ columns, '|' ∉ (groupPart display msg column).toList := by
    have parts := length_splitOn_intercalate '|' (groupTexts display msg columns)
    rw [forall_groupTexts] at parts
    simpa [groupTexts] using parts
  constructor
  · intro rows msg inside
    obtain ⟨row, member⟩ := @groupByRows_single display msg ⟨[], columns, none⟩ rfl
    have length := rows _ rfl [msg] (by simpa using inside) row member
    obtain ⟨other, isMsg, counted⟩ := groupRow_of_mem member
    obtain rfl := mem_singleton.mp isMsg
    dsimp only at length counted
    exact (shape other).mp (by omega)
  · rintro clear query rfl loaded inside row member
    obtain ⟨msg, isMsg, counted⟩ := groupRow_of_mem member
    rw [counted, (shape msg).mpr (clear msg (inside msg isMsg))]

/-! ## Keys in front of windows -/

theorem digitsValue_cast {digits : List Char} (numeric : ∀ c ∈ digits, c.isDigit = true) (n : Nat) :
    digits.foldl (fun (n : Int) c => 10 * n + (c.toNat - '0'.toNat)) n = (Nat.ofDigitChars 10 digits n : Nat) := by
  induction digits generalizing n with
  | nil => simp
  | cons c digits ih =>
    have digit := numeric c mem_cons_self
    have low : '0'.toNat ≤ c.toNat := by
      simp only [Char.isDigit, Bool.and_eq_true, decide_eq_true_eq] at digit
      exact digit.1
    have next : (10 * (n : Int) + (c.toNat - '0'.toNat)) = ((10 * n + (c.toNat - '0'.toNat) : Nat) : Int) := by
      rw [Int.natCast_add, Int.natCast_mul, Int.ofNat_sub low]
      rfl
    rw [foldl_cons, next, ih (fun d inside => numeric d (mem_cons_of_mem _ inside)), Nat.ofDigitChars_cons]

theorem parseI64_minus (digits : List Char) : parseI64 ('-' :: digits) =
    if digits ≠ [] ∧ digits.all Char.isDigit ∧ -2 ^ 63 ≤ -digits.foldl (fun (n : Int) c => 10 * n + (c.toNat - '0'.toNat)) 0 ∧
      -digits.foldl (fun (n : Int) c => 10 * n + (c.toNat - '0'.toNat)) 0 < 2 ^ 63 then
      some (-digits.foldl (fun (n : Int) c => 10 * n + (c.toNat - '0'.toNat)) 0)
    else none := by
  unfold parseI64
  simp only [if_true]

theorem parseI64_unsigned {digits : List Char} (numeric : ∀ c ∈ digits, c.isDigit = true) : parseI64 digits =
    if digits ≠ [] ∧ digits.all Char.isDigit ∧ -2 ^ 63 ≤ digits.foldl (fun (n : Int) c => 10 * n + (c.toNat - '0'.toNat)) 0 ∧
      digits.foldl (fun (n : Int) c => 10 * n + (c.toNat - '0'.toNat)) 0 < 2 ^ 63 then
      some (digits.foldl (fun (n : Int) c => 10 * n + (c.toNat - '0'.toNat)) 0)
    else none := by
  have sign (c : Char) (notDigit : c.isDigit = false) (rest : List Char) : digits ≠ c :: rest := by
    rintro rfl
    have digit := numeric c mem_cons_self
    rw [notDigit] at digit
    cases digit
  unfold parseI64
  split
  next negative rest same =>
    split at same
    · next tail => exact absurd rfl (sign '-' (by decide) tail)
    · next tail => exact absurd rfl (sign '+' (by decide) tail)
    · obtain ⟨rfl, rfl⟩ := Prod.mk.inj same
      simp

/-- The text of an `i64` is parsed. -/
theorem parseI64_toString {n : Int} (fits : I64.Fits n) : (parseI64 (toString n).toList).isSome = true := by
  have numeric : ∀ c ∈ Nat.toDigits 10 n.natAbs, c.isDigit = true :=
    fun c inside => Nat.isDigit_of_mem_toDigits (by decide) (by decide) inside
  have value := digitsValue_cast numeric 0
  rw [Nat.ofDigitChars_ten_toDigits, Nat.cast_zero] at value
  have all : (Nat.toDigits 10 n.natAbs).all Char.isDigit = true := all_eq_true.mpr numeric
  have some_ : Nat.toDigits 10 n.natAbs ≠ [] := Nat.toDigits_ne_nil
  obtain ⟨low, high⟩ := fits
  unfold I64.least at low
  rw [toList_toString]
  split_ifs with negative
  · rw [parseI64_minus, value, if_pos ⟨some_, all, by omega, by omega⟩]
    rfl
  · rw [parseI64_unsigned numeric, value, if_pos ⟨some_, all, by omega, by omega⟩]
    rfl

theorem parseGroupKey_aggKey (groupKey : Option String) {windowStart windowEnd : Int} (startFits : I64.Fits windowStart)
    (endFits : I64.Fits windowEnd) : parseGroupKeyFromAggKey (aggKey groupKey windowStart windowEnd) = groupKey.getD "_" := by
  have split : (aggKey groupKey windowStart windowEnd).toList.splitOn ':' =
      (groupKey.getD "_").toList.splitOn ':' ++ [(toString windowStart).toList, (toString windowEnd).toList] := by
    have colon : ":".toList = [':'] := rfl
    rw [aggKey, String.toList_append, String.toList_append, String.toList_append, String.toList_append, colon,
      append_assoc, append_assoc, append_assoc, singleton_append, singleton_append,
      splitOn_append_cons_self, splitOn_append_cons_self, splitOn_eq_singleton (colon_notMem _),
      splitOn_eq_singleton (colon_notMem _)]
    rfl
  obtain ⟨first, rest, parts⟩ : ∃ first rest, ((groupKey.getD "_").toList.splitOn ':').reverse = first :: rest := by
    apply exists_cons_of_ne_nil
    rw [ne_eq, reverse_eq_nil_iff]
    exact splitOn_ne_nil _ _
  have reversed : ((aggKey groupKey windowStart windowEnd).toList.splitOn ':').reverse =
      (toString windowEnd).toList :: (toString windowStart).toList :: first :: rest := by
    rw [split, reverse_append, parts]
    rfl
  have whole : (first :: rest).reverse = (groupKey.getD "_").toList.splitOn ':' := by
    rw [← parts, reverse_reverse]
  rw [parseGroupKeyFromAggKey, reversed]
  dsimp only
  rw [if_pos ⟨parseI64_toString endFits, parseI64_toString startFits⟩, whole, intercalate_splitOn, String.ofList_toList]

/-- **Group keys identify groups** exactly where the texts of the key, the partition and the paths do, without a bar
in them. -/
theorem group_keys_iff (display : Json → String) (columns : List String) (messages : List MessageRow) :
    GroupKeysIdentify display columns messages ↔ TextsIdentify display columns messages := by
  have told (clear : ∀ msg ∈ messages, Clear display columns msg) : ∀ a ∈ messages, ∀ b ∈ messages,
      extractGroupKey display a columns = extractGroupKey display b columns ↔ SameTexts display columns a b := by
    intro a inA b inB
    obtain ⟨some_, clearA⟩ := clear_iff.mpr (clear a inA)
    rw [groupKey_eq_iff some_ clearA (clear_iff.mpr (clear b inB)).2, sameTexts_iff]
  constructor
  · intro identify
    have clear := rows_iff.mp identify.rows
    refine ⟨clear, fun a inA b inB => ?_⟩
    rw [← told clear a inA b inB]
    exact identify.keys a inA b inB
  · intro identify
    refine ⟨fun a inA b inB => ?_, rows_iff.mpr identify.clear, fun groupKey windowStart windowEnd startFits endFits =>
      parseGroupKey_aggKey groupKey startFits endFits⟩
    rw [told identify.clear a inA b inB]
    exact identify.texts a inA b inB

end Display

/-- A message whose key is `a|b`. -/
def barred : MessageRow := ⟨"orders", 0, 0, some ⟨"a|b", none⟩, ⟨"", none⟩, 0⟩

/-- The row of `a|b` has two values for one column. -/
theorem barred_key_splits : ¬ GroupKeysIdentify (fun _ => "null") ["key"] [barred] := by
  intro identify
  have rows := identify.rows ⟨[], ["key"], none⟩ rfl [barred] (fun _ => id)
    [.string "a", .string "b"] mem_cons_self
  exact absurd rows (by decide)

end StreamHouse.Server.Views
