import StreamHouse.Lib.MixedOrder
import StreamHouse.Sql.MessageOrder

/-!
# Whether ORDER BY has an order

`sort_by` asks for a total order. A field of the messages is compared as numbers if both texts are numbers, a
column of joined rows if both values are; `sort_orders_iff` says on which values either is an order.
-/

namespace StreamHouse.Sql

open Lib List ParsedF64

/-! ## Numbers -/

/-- `partial_cmp(..).unwrap_or(Equal)`. -/
def compareParsed (f g : ParsedF64) : Ordering := (f.partialCmp g).getD .eq

theorem compareParsed_self (f : ParsedF64) : compareParsed f f = .eq := by
  cases f with
  | finite f => exact cmp_self_eq_eq _
  | infinite negative => cases negative <;> rfl
  | nan => rfl

theorem compareParsed_swap (f g : ParsedF64) : compareParsed f g = (compareParsed g f).swap := by
  cases f with
  | finite f =>
    cases g with
    | finite g => exact (cmp_swap _ _).symm
    | infinite negative => cases negative <;> rfl
    | nan => rfl
  | infinite negative =>
    cases g with
    | finite g => cases negative <;> rfl
    | infinite negative' => cases negative <;> cases negative' <;> rfl
    | nan => rfl
  | nan => cases g <;> rfl

theorem isLE_cmp {α : Type} [LinearOrder α] {a b : α} : (cmp a b).isLE = true ↔ a ≤ b := by
  rcases lt_trichotomy a b with less | rfl | greater
  · rw [(cmp_eq_lt_iff a b).mpr less]
    exact iff_of_true rfl less.le
  · rw [cmp_self_eq_eq]
    exact iff_of_true rfl le_rfl
  · rw [(cmp_eq_gt_iff a b).mpr greater]
    exact iff_of_false Bool.false_ne_true (not_le.mpr greater)

/-- Where a number is among all of them: the infinities are at the ends. -/
def ParsedF64.rank : ParsedF64 → Int ×ₗ ℚ
  | .finite f => toLex (0, f.value)
  | .infinite negative => toLex (if negative then -1 else 1, 0)
  | .nan => toLex (0, 0)

theorem isLE_compareParsed {f g : ParsedF64} (ff : f ≠ .nan) (gg : g ≠ .nan) :
    (compareParsed f g).isLE = true ↔ f.rank ≤ g.rank := by
  cases f with
  | nan => exact absurd rfl ff
  | finite f =>
    cases g with
    | nan => exact absurd rfl gg
    | finite g =>
      rw [show compareParsed (.finite f) (.finite g) = cmp f.value g.value from rfl, isLE_cmp]
      simp [rank, Prod.Lex.le_iff]
    | infinite negative => cases negative <;> simp [compareParsed, partialCmp, rank, Prod.Lex.le_iff]
  | infinite negative =>
    cases g with
    | nan => exact absurd rfl gg
    | finite g => cases negative <;> simp [compareParsed, partialCmp, rank, Prod.Lex.le_iff]
    | infinite negative' =>
      cases negative <;> cases negative' <;>
        simp [compareParsed, partialCmp, rank, Prod.Lex.le_iff] <;> rfl

/-- **Numbers are in order** exactly if there is no NaN among them or they are all equal. -/
theorem parsed_trans_iff {numbers : List ParsedF64} :
    (∀ f ∈ numbers, ∀ g ∈ numbers, ∀ h ∈ numbers, (compareParsed f g).isLE = true → (compareParsed g h).isLE = true →
      (compareParsed f h).isLE = true) ↔
    (.nan ∈ numbers → ∀ f ∈ numbers, ∀ g ∈ numbers, compareParsed f g = .eq) := by
  have nanLeft (f : ParsedF64) : compareParsed .nan f = .eq := by cases f <;> rfl
  have nanRight (f : ParsedF64) : compareParsed f .nan = .eq := by
    rw [compareParsed_swap, nanLeft]
    rfl
  constructor
  · intro trans isNan f first g second
    have le := trans f first _ isNan g second (by rw [nanRight]; rfl) (by rw [nanLeft]; rfl)
    have back := trans g second _ isNan f first (by rw [nanRight]; rfl) (by rw [nanLeft]; rfl)
    rw [compareParsed_swap] at back
    exact eq_of_isLE_swap le back
  · intro equal f first g second h third le below
    by_cases isNan : .nan ∈ numbers
    · rw [equal isNan f first h third]
      rfl
    · have real : ∀ x ∈ numbers, x ≠ .nan := by
        rintro x inside rfl
        exact isNan inside
      rw [isLE_compareParsed (real f first) (real g second)] at le
      rw [isLE_compareParsed (real g second) (real h third)] at below
      rw [isLE_compareParsed (real f first) (real h third)]
      exact le_trans le below

/-! ## SELECT by a field of the messages -/

/-- `extract_json_field` on the messages. -/
def fieldTexts (display : Json → String) (field : String) (messages : List MessageRow) : List String :=
  messages.map fun msg => extractJsonField display msg.value field

/-- The texts of a field are in an order: with a NaN all numbers are equal, and a text that is no number does not stand
between two numbers, as texts, but where the first is less than the second. -/
structure FieldsOrdered (texts : List String) : Prop where
  nan : ∀ a ∈ texts, parseF64Text a = some .nan → ∀ b ∈ texts, ∀ c ∈ texts, ∀ f g, parseF64Text b = some f →
    parseF64Text c = some g → compareParsed f g = .eq
  between : ∀ a ∈ texts, ∀ b ∈ texts, ∀ text ∈ texts, ∀ f g, parseF64Text a = some f → parseF64Text b = some g →
    parseF64Text text = none → a < text → text < b → compareParsed f g = .lt

theorem compareFields_eq_mixed : compareFields = mixed parseF64Text compareParsed compare := by
  funext a b
  unfold compareFields mixed
  cases parseF64Text a with
  | none => rfl
  | some f => cases parseF64Text b <;> rfl

theorem lt_of_isLE_compare {a b : String} (ne : a ≠ b) (le : (compare a b).isLE = true) : a < b := by
  cases o : compare a b with
  | lt => exact compare_lt_iff_lt.mp o
  | eq => exact absurd (compare_eq_iff_eq.mp o) ne
  | gt =>
    rw [o] at le
    cases le

theorem lt_of_isLE_ne {o : Ordering} (le : o.isLE = true) (ne : o ≠ .eq) : o = .lt := by
  cases o with
  | lt => rfl
  | eq => exact absurd rfl ne
  | gt => cases le

theorem preorderOn_compareFields {texts : List String} : PreorderOn compareFields texts ↔ FieldsOrdered texts := by
  rw [compareFields_eq_mixed, preorderOn_mixed compareParsed_self compareParsed_swap, parsed_trans_iff]
  have apart {a text : String} {f : ParsedF64} (isNumber : parseF64Text a = some f) (isText : parseF64Text text = none) : a ≠ text := by
    rintro rfl
    rw [isNumber] at isText
    cases isText
  constructor
  · rintro ⟨nan, separated⟩
    refine ⟨fun a inA isNan b inB c inC f g isF isG => ?_, fun a inA b inB text inT f g isF isG isText below above => ?_⟩
    · exact nan (mem_filterMap.mpr ⟨a, inA, isNan⟩) f (mem_filterMap.mpr ⟨b, inB, isF⟩) g
        (mem_filterMap.mpr ⟨c, inC, isG⟩)
    · have first : compare a text = .lt := compare_lt_iff_lt.mpr below
      have second : compare text b = .lt := compare_lt_iff_lt.mpr above
      obtain ⟨le, strict⟩ := separated a inA b inB text inT f g isF isG isText (by rw [first]; rfl) (by rw [second]; rfl)
      refine lt_of_isLE_ne le fun equal => ?_
      have impossible := (strict equal).1
      rw [first] at impossible
      cases impossible
  · rintro ⟨nan, between⟩
    refine ⟨fun isNan f inF g inG => ?_, fun a inA b inB text inT f g isF isG isText le below => ?_⟩
    · obtain ⟨a, inA, parsed⟩ := mem_filterMap.mp isNan
      obtain ⟨b, inB, isF⟩ := mem_filterMap.mp inF
      obtain ⟨c, inC, isG⟩ := mem_filterMap.mp inG
      exact nan a inA parsed b inB c inC f g isF isG
    · have less := between a inA b inB text inT f g isF isG isText (lt_of_isLE_compare (apart isF isText) le)
        (lt_of_isLE_compare (apart isG isText).symm below)
      rw [less]
      refine ⟨rfl, fun impossible => ?_⟩
      cases impossible

/-- The columns of a message. -/
def messageColumns : List String := ["offset", "timestamp", "partition", "key", "value", "topic"]

section Messages

variable (display : Json → String) (toLowercase : String → String)

theorem compareColumn_field {col : String} (field : col ∉ messageColumns) (a b : MessageRow) :
    compareColumn display col a b = compareFields (extractJsonField display a.value col) (extractJsonField display b.value col) := by
  simp only [messageColumns, mem_cons, not_mem_nil, or_false, not_or] at field
  obtain ⟨offset, timestamp, partition, key, value, topic⟩ := field
  unfold compareColumn
  split <;> first | contradiction | rfl

theorem preorderOn_compareMessages {orderBy : OrderBy} (field : toLowercase orderBy.column ∉ messageColumns)
    (messages : List MessageRow) :
    PreorderOn (compareMessages display toLowercase orderBy) messages ↔
      FieldsOrdered (fieldTexts display (toLowercase orderBy.column) messages) := by
  have texts : PreorderOn (fun a b => compareColumn display (toLowercase orderBy.column) a b) messages ↔
      FieldsOrdered (fieldTexts display (toLowercase orderBy.column) messages) := by
    simp only [compareColumn_field display field]
    rw [preorderOn_map fun msg : MessageRow => extractJsonField display msg.value (toLowercase orderBy.column)]
    exact preorderOn_compareFields
  rw [← texts]
  cases direction : orderBy.descending with
  | true =>
    have swapped : compareMessages display toLowercase orderBy =
        fun a b => (compareColumn display (toLowercase orderBy.column) a b).swap := by
      funext a b
      simp only [compareMessages, direction, if_true]
    rw [swapped, preorderOn_swap]
  | false =>
    have same : compareMessages display toLowercase orderBy =
        fun a b => compareColumn display (toLowercase orderBy.column) a b := by
      funext a b
      simp [compareMessages, direction]
    rw [same]

end Messages

/-! ## JOIN -/

/-- A value that is a number. -/
def numberOf : Json → Option JsonNumber
  | .number n => some n
  | _ => none

/-- Numbers by their `f64` values. -/
def compareNumbers (m n : JsonNumber) : Ordering := cmp m.asF64.value n.asF64.value

theorem compareNumbers_self (n : JsonNumber) : compareNumbers n n = .eq := cmp_self_eq_eq _

theorem compareNumbers_swap (m n : JsonNumber) : compareNumbers m n = (compareNumbers n m).swap := (cmp_swap _ _).symm

theorem isLE_compareNumbers {m n : JsonNumber} : (compareNumbers m n).isLE = true ↔ m.asF64.value ≤ n.asF64.value := isLE_cmp

section Values

variable (display : Json → String)

def compareTexts (a b : Json) : Ordering := cmp (sortText display a) (sortText display b)

instance transCmp_compareTexts : Std.TransCmp (compareTexts display) where
  eq_swap := (cmp_swap _ _).symm
  isLE_trans le below := isLE_cmp.mpr (le_trans (isLE_cmp.mp le) (isLE_cmp.mp below))

/-- The values of a column are in an order: one that is no number does not stand between two numbers, as texts, but
where the first is less than the second, or all three texts are the same and the numbers equal. -/
def ValuesOrdered (values : List Json) : Prop :=
  ∀ a ∈ values, ∀ b ∈ values, ∀ text ∈ values, ∀ m n, numberOf a = some m → numberOf b = some n → numberOf text = none →
    sortText display a ≤ sortText display text → sortText display text ≤ sortText display b →
      m.asF64.value < n.asF64.value ∨
        (m.asF64.value = n.asF64.value ∧ sortText display a = sortText display text ∧ sortText display text = sortText display b)

theorem isLE_compareTexts {a b : Json} : (compareTexts display a b).isLE = true ↔ sortText display a ≤ sortText display b := isLE_cmp

theorem compareTexts_eq_eq {a b : Json} : compareTexts display a b = .eq ↔ sortText display a = sortText display b := cmp_eq_eq_iff _ _

theorem compareForSort_eq_mixed : compareForSort display = mixed numberOf compareNumbers (compareTexts display) := by
  funext a b
  unfold compareForSort mixed
  cases a <;> cases b <;> rfl

theorem preorderOn_compareForSort {values : List Json} :
    PreorderOn (compareForSort display) values ↔ ValuesOrdered display values := by
  rw [compareForSort_eq_mixed, preorderOn_mixed compareNumbers_self compareNumbers_swap]
  have ordered (m n : JsonNumber) (p : Prop) : ((compareNumbers m n).isLE = true ∧ (compareNumbers m n = .eq → p)) ↔
      m.asF64.value < n.asF64.value ∨ (m.asF64.value = n.asF64.value ∧ p) := by
    rw [isLE_compareNumbers, compareNumbers, cmp_eq_eq_iff, le_iff_lt_or_eq]
    constructor
    · rintro ⟨less | equal, then_⟩
      · exact .inl less
      · exact .inr ⟨equal, then_ equal⟩
    · rintro (less | ⟨equal, holds⟩)
      · exact ⟨.inl less, fun equal => absurd equal less.ne⟩
      · exact ⟨.inr equal, fun _ => holds⟩
  have separated : Separated numberOf compareNumbers (compareTexts display) values ↔ ValuesOrdered display values := by
    unfold Separated ValuesOrdered
    simp only [ordered, isLE_compareTexts, compareTexts_eq_eq]
  rw [separated, and_iff_right]
  intro k _ m _ n _ le below
  rw [isLE_compareNumbers] at le below ⊢
  exact le_trans le below

/-- **ORDER BY has an order** on the messages of a SELECT, by a field of theirs, and on the values of a JOIN's column,
exactly if no text stands between two numbers that are the other way round, and a NaN has none to differ. -/
theorem sort_orders_iff (toLowercase : String → String) :
    (∀ (orderBy : OrderBy) (messages : List MessageRow), toLowercase orderBy.column ∉ messageColumns →
      (PreorderOn (compareMessages display toLowercase orderBy) messages ↔
        FieldsOrdered (fieldTexts display (toLowercase orderBy.column) messages))) ∧
      ∀ values : List Json, PreorderOn (compareForSort display) values ↔ ValuesOrdered display values :=
  ⟨fun _ messages field => preorderOn_compareMessages display toLowercase field messages, fun _ => preorderOn_compareForSort display⟩

end Values

namespace SortExample

/-- `to_string` of a small whole number. -/
def display : Json → String
  | .number (.posInt n) => toString n.toNat
  | _ => ""

def nine : Json := .number (.posInt 9)

def ten : Json := .number (.posInt 10)

def word : Json := .string "1a"

end SortExample

open SortExample

/-- 9 is before 10, 10 before "1a", and "1a" before 9. -/
theorem word_between_numbers : ¬ PreorderOn (compareForSort display) [nine, ten, word] := by
  intro orders
  have numbers : (compareForSort display nine ten).isLE = true := by
    refine isLE_compareNumbers.mpr (JsonNumber.asF64_mono ?_)
    show ((9 : Nat) : ℚ) ≤ ((10 : Nat) : ℚ)
    norm_num
  have below : (compareForSort display ten word).isLE = true := by decide +kernel
  have around : (compareForSort display nine word).isLE = false := by decide +kernel
  have le := orders.trans nine (by simp) ten (by simp) word (by simp) numbers below
  rw [around] at le
  cases le

end StreamHouse.Sql
