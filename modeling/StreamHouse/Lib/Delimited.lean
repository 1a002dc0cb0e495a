import Mathlib.Algebra.GroupWithZero.Nat
import Mathlib.Data.List.Basic

/-!
# Encodings that show where they end

An encoding is delimited if what is behind it can be told from it, whatever that is. Delimited
encodings behind one another are delimited again, and so are lists of them up to a stop.
-/

namespace StreamHouse.Lib

open List

variable {α β γ δ κ : Type*}

/-- Of the value the encoding tells `get`, and it tells what is behind it. -/
def Delimited (enc : α → List κ) (get : α → β) : Prop := ∀ a b x y, enc a ++ x = enc b ++ y → get a = get b ∧ x = y

namespace Delimited

variable {enc : α → List κ} {get : α → β}

/-- Behind a fixed text. -/
theorem behind (text : List κ) (delimited : Delimited enc get) : Delimited (fun a => text ++ enc a) get := by
  intro a b x y same
  rw [append_assoc, append_assoc] at same
  exact delimited a b x y (append_cancel_left same)

theorem append {enc' : α → List κ} {get' : α → γ} (first : Delimited enc get) (second : Delimited enc' get') :
    Delimited (fun a => enc a ++ enc' a) (fun a => (get a, get' a)) := by
  intro a b x y same
  rw [append_assoc, append_assoc] at same
  obtain ⟨one, rest⟩ := first a b _ _ same
  obtain ⟨two, tail⟩ := second a b x y rest
  exact ⟨Prod.ext one two, tail⟩

theorem comp (delimited : Delimited enc get) (f : δ → α) : Delimited (fun d => enc (f d)) (fun d => get (f d)) :=
  fun a b x y same => delimited (f a) (f b) x y same

/-- The first stop tells where a text is cut. -/
theorem cut {stop : κ} {s t x y : List κ} (free : stop ∉ s) (free' : stop ∉ t) (same : s ++ stop :: x = t ++ stop :: y) :
    s = t ∧ x = y := by
  induction s generalizing t with
  | nil =>
    cases t with
    | nil => exact ⟨rfl, (cons.inj same).2⟩
    | cons c t => exact absurd (mem_cons.mpr (Or.inl (cons.inj same).1)) free'
  | cons c s ih =>
    cases t with
    | nil => exact absurd (mem_cons.mpr (Or.inl (cons.inj same).1.symm)) free
    | cons d t =>
      obtain ⟨head, tail⟩ := cons.inj same
      obtain ⟨rest, behind⟩ := ih (fun inside => free (mem_cons_of_mem _ inside)) (fun inside => free' (mem_cons_of_mem _ inside)) tail
      exact ⟨by rw [head, rest], behind⟩

/-- Texts without the stop, each behind which the stop is. -/
theorem stopped {stop : κ} (without : ∀ a, stop ∉ enc a) (tells : ∀ a b, enc a = enc b → get a = get b) :
    Delimited (fun a => enc a ++ [stop]) get := by
  intro a b x y same
  rw [append_assoc, append_assoc] at same
  obtain ⟨texts, rest⟩ := cut (without a) (without b) same
  exact ⟨tells a b texts, rest⟩

/-- A value or another text, told apart by their first symbols. -/
theorem option {first c : κ} {text : List κ} (delimited : Delimited enc get) (starts : ∀ a, ∃ rest, enc a = first :: rest)
    (differs : c ≠ first) : Delimited (fun a : Option α => a.elim (c :: text) enc) (fun a => a.map get) := by
  have apart : ∀ a x y, (c :: text) ++ x ≠ enc a ++ y := by
    intro a x y same
    obtain ⟨rest, begins⟩ := starts a
    rw [begins] at same
    exact differs (cons.inj same).1
  intro a b x y same
  cases a with
  | none =>
    cases b with
    | none => exact ⟨rfl, append_cancel_left same⟩
    | some b => exact absurd same (apart b x y)
  | some a =>
    cases b with
    | none => exact absurd same.symm (apart a y x)
    | some b =>
      obtain ⟨one, rest⟩ := delimited a b x y same
      exact ⟨congrArg some one, rest⟩

/-- A list up to a stop that begins no element. -/
theorem list {stop : κ} (delimited : Delimited enc get) (starts : ∀ a, ∃ c rest, enc a = c :: rest ∧ c ≠ stop) :
    Delimited (fun l : List α => l.flatMap enc ++ [stop]) (fun l => l.map get) := by
  have apart : ∀ a x y, stop :: x ≠ enc a ++ y := by
    intro a x y same
    obtain ⟨c, rest, begins, differs⟩ := starts a
    rw [begins] at same
    exact differs (cons.inj same).1.symm
  intro l
  induction l with
  | nil =>
    intro l' x y same
    cases l' with
    | nil => exact ⟨rfl, append_cancel_left same⟩
    | cons b l' =>
      dsimp only at same
      rw [flatMap_nil, nil_append, singleton_append, flatMap_cons, append_assoc, append_assoc] at same
      exact absurd same (apart b _ _)
  | cons a l ih =>
    intro l' x y same
    cases l' with
    | nil =>
      dsimp only at same
      rw [flatMap_nil, nil_append, singleton_append, flatMap_cons, append_assoc, append_assoc] at same
      exact absurd same.symm (apart a _ _)
    | cons b l' =>
      dsimp only at same
      rw [flatMap_cons, flatMap_cons, append_assoc, append_assoc, append_assoc, append_assoc,
        ← append_assoc (l.flatMap enc), ← append_assoc (l'.flatMap enc)] at same
      obtain ⟨head, rest⟩ := delimited a b _ _ same
      obtain ⟨tail, behind⟩ := ih l' x y rest
      exact ⟨congrArg₂ cons head tail, behind⟩

/-- A list that goes on to the end. -/
theorem flatMap_inj (delimited : Delimited enc get) (nonempty : ∀ a, enc a ≠ []) {l l' : List α} (same : l.flatMap enc = l'.flatMap enc) :
    l.map get = l'.map get := by
  induction l generalizing l' with
  | nil =>
    cases l' with
    | nil => rfl
    | cons b l' =>
      rw [flatMap_cons] at same
      exact absurd (append_eq_nil_iff.mp same.symm).1 (nonempty b)
  | cons a l ih =>
    cases l' with
    | nil =>
      rw [flatMap_cons] at same
      exact absurd (append_eq_nil_iff.mp same).1 (nonempty a)
    | cons b l' =>
      rw [flatMap_cons, flatMap_cons] at same
      obtain ⟨head, rest⟩ := delimited a b _ _ same
      rw [map_cons, map_cons, head, ih rest]

end Delimited

/-- The last separator of a text splits it. -/
theorem split_at_last [DecidableEq κ] {separator : κ} {a b c d : List κ} (noneB : separator ∉ b) (noneD : separator ∉ d)
    (same : a ++ separator :: b = c ++ separator :: d) : a = c ∧ b = d := by
  have back (x y : List κ) (none : separator ∉ y) : (x ++ separator :: y).reverse.takeWhile (· ≠ separator) = y.reverse := by
    rw [reverse_append, reverse_cons, append_assoc, takeWhile_append_of_pos]
    · rw [singleton_append, takeWhile_cons_of_neg (by simp), append_nil]
    · intro symbol inside
      rw [decide_eq_true_eq]
      rintro rfl
      exact none (mem_reverse.mp inside)
  have ends : b = d := by
    rw [← reverse_inj, ← back a b noneB, same, back c d noneD]
  rw [ends] at same
  exact ⟨append_cancel_right same, ends⟩

/-! ## Parts between separators -/

section Separators

variable {α : Type} [DecidableEq α]

/-- A text has one part more than separators. -/
theorem length_splitOn (separator : α) (chars : List α) : (chars.splitOn separator).length = chars.count separator + 1 := by
  induction chars with
  | nil => rfl
  | cons c chars ih =>
    rw [splitOn_cons_eq_if_modifyHead]
    by_cases same : c = separator
    · simp [same, ih]
    · simp [same, ih]

theorem count_intercalate (separator : α) {parts : List (List α)} (some : parts ≠ []) :
    ([separator].intercalate parts).count separator + 1 = (parts.map fun part => part.count separator).sum + parts.length := by
  induction parts with
  | nil => exact absurd rfl some
  | cons part parts ih =>
    cases parts with
    | nil => simp
    | cons next rest =>
      have later := ih (by simp)
      rw [intercalate_cons_cons]
      simp only [count_append, count_singleton_self, map_cons, List.sum_cons, length_cons] at later ⊢
      omega

theorem sum_count_eq_zero (separator : α) (parts : List (List α)) :
    (parts.map fun part => part.count separator).sum = 0 ↔ ∀ part ∈ parts, separator ∉ part := by
  induction parts with
  | nil => simp
  | cons part parts ih =>
    rw [map_cons, List.sum_cons, Nat.add_eq_zero_iff, count_eq_zero, ih, forall_mem_cons]

/-- Parts that are joined are as many as are read again exactly if there are parts and none has a separator in it. -/
theorem length_splitOn_intercalate (separator : α) (parts : List (List α)) :
    (([separator].intercalate parts).splitOn separator).length = parts.length ↔ parts ≠ [] ∧ ∀ part ∈ parts, separator ∉ part := by
  cases parts with
  | nil => simp
  | cons part rest =>
    have counted := @count_intercalate _ _ separator (part :: rest) (by simp)
    rw [length_splitOn, counted]
    rw [← sum_count_eq_zero separator (part :: rest)]
    constructor
    · intro same
      exact ⟨by simp, by omega⟩
    · rintro ⟨-, zero⟩
      omega

end Separators

/-! ## The text of a number -/

theorem notMem_digits {c : Char} (other : c.isDigit = false) (n : Nat) : c ∉ Nat.toDigits 10 n := by
  intro inside
  have digit : c.isDigit = true := Nat.isDigit_of_mem_toDigits (by decide) (by decide) inside
  rw [other] at digit
  cases digit

theorem notMem_natToString {c : Char} (other : c.isDigit = false) (n : Nat) : c ∉ (toString n).toList := by
  rw [show (toString n).toList = Nat.toDigits 10 n from Nat.toList_repr]
  exact notMem_digits other n

theorem digits_inj {m n : Nat} (same : Nat.toDigits 10 m = Nat.toDigits 10 n) : m = n := by
  rw [← @Nat.ofDigitChars_ten_toDigits m, same, Nat.ofDigitChars_ten_toDigits]

theorem toList_toString (n : Int) :
    (toString n).toList = if n < 0 then '-' :: Nat.toDigits 10 n.natAbs else Nat.toDigits 10 n.natAbs := by
  cases n with
  | ofNat m => exact Nat.toList_repr
  | negSucc m =>
    rw [if_pos (Int.negSucc_lt_zero m)]
    change ("-" ++ Nat.repr (m + 1)).toList = _
    rw [String.toList_append, Nat.toList_repr]
    rfl

theorem notMem_toString {c : Char} (other : c.isDigit = false) (minus : c ≠ '-') (n : Int) : c ∉ (toString n).toList := by
  rw [toList_toString]
  have digits := notMem_digits other n.natAbs
  split_ifs with negative
  · rw [mem_cons, not_or]
    exact ⟨minus, digits⟩
  · exact digits

theorem toString_inj {m n : Int} (same : (toString m).toList = (toString n).toList) : m = n := by
  rw [toList_toString, toList_toString] at same
  have minus (k : Nat) : '-' ∉ Nat.toDigits 10 k := notMem_digits (by decide) k
  split_ifs at same with negM negN negN
  · have := digits_inj (cons.inj same).2
    omega
  · have inside : '-' ∈ Nat.toDigits 10 n.natAbs := by
      rw [← same]
      exact mem_cons_self
    exact absurd inside (minus _)
  · have inside : '-' ∈ Nat.toDigits 10 m.natAbs := by
      rw [same]
      exact mem_cons_self
    exact absurd inside (minus _)
  · have := digits_inj same
    omega

end StreamHouse.Lib
