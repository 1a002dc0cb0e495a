import Mathlib.Order.Compare
import Mathlib.Data.List.Basic

/-!
# Comparisons that change their key

A comparison by numbers where both sides have one and by texts otherwise. It is an order on the values of a
list exactly if the numbers are ordered and no text without a number stands between two numbers that are the
other way round.
-/

namespace StreamHouse.Lib

open List

variable {α β ν : Type}

/-- A total preorder on the values of a list. -/
structure PreorderOn (comparison : α → α → Ordering) (values : List α) : Prop where
  refl : ∀ a ∈ values, comparison a a = .eq
  swap : ∀ a ∈ values, ∀ b ∈ values, comparison a b = (comparison b a).swap
  trans : ∀ a ∈ values, ∀ b ∈ values, ∀ c ∈ values, (comparison a b).isLE = true → (comparison b c).isLE = true →
    (comparison a c).isLE = true

theorem PreorderOn.reversed {comparison : α → α → Ordering} {values : List α} (orders : PreorderOn comparison values) :
    PreorderOn (fun a b => (comparison a b).swap) values := by
  refine ⟨fun a inside => ?_, fun a here b there => ?_, fun a first b second c third le below => ?_⟩
  · rw [orders.refl a inside]
    rfl
  · rw [orders.swap a here b there]
  · rw [← orders.swap b second a first] at le
    rw [← orders.swap c third b second] at below
    rw [← orders.swap c third a first]
    exact orders.trans c third b second a first below le

theorem preorderOn_swap {comparison : α → α → Ordering} {values : List α} :
    PreorderOn (fun a b => (comparison a b).swap) values ↔ PreorderOn comparison values := by
  constructor
  · intro orders
    have twice := orders.reversed
    simpa only [Ordering.swap_swap] using twice
  · exact PreorderOn.reversed

theorem preorderOn_map {comparison : β → β → Ordering} (f : α → β) {values : List α} :
    PreorderOn (fun a b => comparison (f a) (f b)) values ↔ PreorderOn comparison (values.map f) := by
  constructor
  · intro orders
    refine ⟨?_, ?_, ?_⟩
    · simpa only [forall_mem_map] using orders.refl
    · simpa only [forall_mem_map] using orders.swap
    · simpa only [forall_mem_map] using orders.trans
  · intro orders
    refine ⟨?_, ?_, ?_⟩
    · simpa only [forall_mem_map] using orders.refl
    · simpa only [forall_mem_map] using orders.swap
    · simpa only [forall_mem_map] using orders.trans

/-- Numbers where both sides have one, texts otherwise. -/
def mixed (number : α → Option ν) (numbers : ν → ν → Ordering) (texts : α → α → Ordering) (a b : α) : Ordering :=
  match number a, number b with
  | some m, some n => numbers m n
  | _, _ => texts a b

/-- A text between two numbers does not turn them round. -/
def Separated (number : α → Option ν) (numbers : ν → ν → Ordering) (texts : α → α → Ordering) (values : List α) : Prop :=
  ∀ a ∈ values, ∀ b ∈ values, ∀ text ∈ values, ∀ m n, number a = some m → number b = some n → number text = none →
    (texts a text).isLE = true → (texts text b).isLE = true →
      (numbers m n).isLE = true ∧ (numbers m n = .eq → texts a text = .eq ∧ texts text b = .eq)

variable {number : α → Option ν} {numbers : ν → ν → Ordering} {texts : α → α → Ordering} {values : List α}

theorem mixed_some {a b : α} {m n : ν} (first : number a = some m) (second : number b = some n) :
    mixed number numbers texts a b = numbers m n := by
  unfold mixed
  rw [first, second]

theorem mixed_left {a b : α} (first : number a = none) : mixed number numbers texts a b = texts a b := by
  unfold mixed
  rw [first]

theorem mixed_right {a b : α} (second : number b = none) : mixed number numbers texts a b = texts a b := by
  unfold mixed
  rw [second]
  cases number a <;> rfl

/-- Two ways at once are equal. -/
theorem eq_of_isLE_swap {o : Ordering} (le : o.isLE = true) (back : o.swap.isLE = true) : o = .eq := by
  cases o with
  | lt => cases back
  | eq => rfl
  | gt => cases le

variable [Std.TransCmp texts] (refl : ∀ m, numbers m m = .eq) (swap : ∀ m n, numbers m n = (numbers n m).swap)

include swap in
theorem separated_of_preorderOn (orders : PreorderOn (mixed number numbers texts) values) :
    Separated number numbers texts values := by
  intro a first b second text third m n isM isN isText le below
  have upper : (mixed number numbers texts a text).isLE = true := by rwa [mixed_right isText]
  have lower : (mixed number numbers texts text b).isLE = true := by rwa [mixed_left isText]
  have between := orders.trans a first text third b second upper lower
  rw [mixed_some isM isN] at between
  refine ⟨between, fun same => ?_⟩
  have back : (mixed number numbers texts b a).isLE = true := by
    rw [mixed_some isN isM, swap, same]
    rfl
  have textLower := orders.trans b second a first text third back upper
  have textUpper := orders.trans text third b second a first lower back
  have turned : texts b text = (texts text b).swap := Std.OrientedCmp.eq_swap
  have turned' : texts text a = (texts a text).swap := Std.OrientedCmp.eq_swap
  rw [mixed_right isText, turned] at textLower
  rw [mixed_left isText, turned'] at textUpper
  exact ⟨eq_of_isLE_swap le textUpper, eq_of_isLE_swap below textLower⟩

include swap in
theorem mixed_swap (a b : α) : mixed number numbers texts a b = (mixed number numbers texts b a).swap := by
  cases isM : number a with
  | none =>
    rw [mixed_left isM, mixed_right isM]
    exact Std.OrientedCmp.eq_swap
  | some m =>
    cases isN : number b with
    | none =>
      rw [mixed_right isN, mixed_left isN]
      exact Std.OrientedCmp.eq_swap
    | some n => rw [mixed_some isM isN, mixed_some isN isM, swap]

/-- What is not behind is strictly before. -/
theorem lt_of_not_isLE {a b : α} (not_le : (texts a b).isLE ≠ true) : texts b a = .lt := by
  have turned : texts b a = (texts a b).swap := Std.OrientedCmp.eq_swap
  cases o : texts a b with
  | lt =>
    rw [o] at not_le
    exact absurd rfl not_le
  | eq =>
    rw [o] at not_le
    exact absurd rfl not_le
  | gt => rw [turned, o]; rfl

include swap in
/-- A text before a number is before a number behind it. -/
theorem Separated.text_first (separated : Separated number numbers texts values) {a b c : α} {m n : ν} (inA : a ∈ values)
    (inB : b ∈ values) (inC : c ∈ values) (isText : number a = none) (isM : number b = some m) (isN : number c = some n)
    (le : (texts a b).isLE = true) (below : (numbers m n).isLE = true) : (texts a c).isLE = true := by
  apply Classical.byContradiction
  intro not_le
  have strict : texts c a = .lt := lt_of_not_isLE not_le
  obtain ⟨back, same⟩ := separated c inC b inB a inA n m isN isM isText (by rw [strict]; rfl) le
  rw [swap] at back same
  have equal := (same (by rw [eq_of_isLE_swap below back]; rfl)).1
  rw [strict] at equal
  cases equal

include swap in
/-- A text behind a number is behind a number before it. -/
theorem Separated.text_last (separated : Separated number numbers texts values) {a b c : α} {k m : ν} (inA : a ∈ values)
    (inB : b ∈ values) (inC : c ∈ values) (isK : number a = some k) (isM : number b = some m) (isText : number c = none)
    (le : (numbers k m).isLE = true) (below : (texts b c).isLE = true) : (texts a c).isLE = true := by
  apply Classical.byContradiction
  intro not_le
  have strict : texts c a = .lt := lt_of_not_isLE not_le
  obtain ⟨back, same⟩ := separated b inB a inA c inC m k isM isK isText below (by rw [strict]; rfl)
  rw [swap] at back same
  have equal := (same (by rw [eq_of_isLE_swap le back]; rfl)).2
  rw [strict] at equal
  cases equal

include refl swap in
/-- **A mixed comparison orders a list** exactly if the numbers in it are ordered and separated. -/
theorem preorderOn_mixed : PreorderOn (mixed number numbers texts) values ↔
    (∀ a ∈ values.filterMap number, ∀ b ∈ values.filterMap number, ∀ c ∈ values.filterMap number,
      (numbers a b).isLE = true → (numbers b c).isLE = true → (numbers a c).isLE = true) ∧
        Separated number numbers texts values := by
  constructor
  · intro orders
    refine ⟨?_, separated_of_preorderOn swap orders⟩
    intro k first m second n third le below
    obtain ⟨a, inA, isK⟩ := mem_filterMap.mp first
    obtain ⟨b, inB, isM⟩ := mem_filterMap.mp second
    obtain ⟨c, inC, isN⟩ := mem_filterMap.mp third
    have upper : (mixed number numbers texts a b).isLE = true := by rwa [mixed_some isK isM]
    have lower : (mixed number numbers texts b c).isLE = true := by rwa [mixed_some isM isN]
    have whole := orders.trans a inA b inB c inC upper lower
    rwa [mixed_some isK isN] at whole
  · rintro ⟨ordered, separated⟩
    refine ⟨fun a inA => ?_, fun a inA b inB => ?_, fun a inA b inB c inC le below => ?_⟩
    · cases isM : number a with
      | none =>
        rw [mixed_left isM]
        exact Std.ReflCmp.compare_self
      | some m => rw [mixed_some isM isM, refl]
    · exact mixed_swap swap a b
    · cases isK : number a with
      | none =>
        cases isM : number b with
        | none =>
          rw [mixed_left isK] at le ⊢
          rw [mixed_left isM] at below
          exact Std.TransCmp.isLE_trans le below
        | some m =>
          cases isN : number c with
          | none =>
            rw [mixed_left isK] at le ⊢
            rw [mixed_right isN] at below
            exact Std.TransCmp.isLE_trans le below
          | some n =>
            rw [mixed_left isK] at le ⊢
            rw [mixed_some isM isN] at below
            exact separated.text_first swap inA inB inC isK isM isN le below
      | some k =>
        cases isM : number b with
        | none =>
          rw [mixed_right isM] at le
          rw [mixed_left isM] at below
          cases isN : number c with
          | none =>
            rw [mixed_right isN]
            exact Std.TransCmp.isLE_trans le below
          | some n =>
            rw [mixed_some isK isN]
            exact (separated a inA c inC b inB k n isK isN isM le below).1
        | some m =>
          rw [mixed_some isK isM] at le
          cases isN : number c with
          | none =>
            rw [mixed_right isN] at below ⊢
            exact separated.text_last swap inA inB inC isK isM isN le below
          | some n =>
            rw [mixed_some isM isN] at below
            rw [mixed_some isK isN]
            exact ordered k (mem_filterMap.mpr ⟨a, inA, isK⟩) m (mem_filterMap.mpr ⟨b, inB, isM⟩) n
              (mem_filterMap.mpr ⟨c, inC, isN⟩) le below

end StreamHouse.Lib
