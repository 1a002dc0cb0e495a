import Mathlib.Data.List.Basic
import StreamHouse.Lib.Totality

/-!
# Slices of texts

A text is cut at positions that count the bytes of its characters. A position within a character, or behind the
end, is no boundary: a slice there panics.
-/

namespace StreamHouse.Lib

/-- The item at an index. -/
def itemAt {ε α : Type} (items : List α) (i : Nat) : Outcome ε α :=
  match items[i]? with
  | some item => .ok item
  | none => .error .panicked

variable {ε : Type} {start : Nat}

@[simp] theorem total_itemAt {α : Type} {items : List α} {i : Nat} :
    Total (itemAt items i : Outcome ε α) ↔ i < items.length := by
  unfold itemAt
  by_cases inside : i < items.length
  · simp [inside]
  · simp [inside]

/-- A step that goes on with an item that is there. -/
theorem total_itemAt_bind {α β : Type} {items : List α} {i : Nat} {f : α → Outcome ε β} (inside : i < items.length)
    (steps : ∀ item, Total (f item)) : Total (itemAt items i >>= f) :=
  total_bind.mpr ⟨total_itemAt.mpr inside, fun item _ => steps item⟩

/-- The text from a position on. -/
def behindByte : Nat → List Char → Option (List Char)
  | 0, text => some text
  | _ + 1, [] => none
  | n + 1, c :: text => if c.utf8Size ≤ n + 1 then behindByte (n + 1 - c.utf8Size) text else none

/-- The text up to a position. -/
def beforeByte : Nat → List Char → Option (List Char)
  | 0, _ => some []
  | _ + 1, [] => none
  | n + 1, c :: text => if c.utf8Size ≤ n + 1 then (beforeByte (n + 1 - c.utf8Size) text).map (c :: ·) else none

/-- `is_char_boundary`. -/
def Boundary (text : List Char) (n : Nat) : Prop := (behindByte n text).isSome = true

/-- `text[start..]`. -/
def sliceFrom {ε : Type} (text : List Char) (start : Nat) : Outcome ε (List Char) :=
  match behindByte start text with
  | some rest => .ok rest
  | none => .error .panicked

/-- `text[start..stop]`. -/
def sliceText {ε : Type} (text : List Char) (start stop : Nat) : Outcome ε (List Char) :=
  if start ≤ stop then
    match (behindByte start text).bind (beforeByte (stop - start)) with
    | some middle => .ok middle
    | none => .error .panicked
  else .error .panicked

/-- `str::find`: the position of the first occurrence. -/
def findText (pattern : List Char) : List Char → Option Nat
  | [] => if pattern = [] then some 0 else none
  | c :: text => if pattern.isPrefixOf (c :: text) then some 0 else (findText pattern text).map (c.utf8Size + ·)

@[simp] theorem behindByte_zero (text : List Char) : behindByte 0 text = some text := by
  cases text <;> rfl

theorem beforeByte_isSome (n : Nat) (text : List Char) : (beforeByte n text).isSome = (behindByte n text).isSome := by
  induction text generalizing n with
  | nil => cases n <;> rfl
  | cons c text ih =>
    cases n with
    | zero => rfl
    | succ n =>
      rw [beforeByte, behindByte]
      split_ifs
      · rw [Option.isSome_map, ih]
      · rfl

/-- Positions behind a boundary. -/
theorem behindByte_add {text rest : List Char} (cut : behindByte start text = some rest) (n : Nat) :
    behindByte (start + n) text = behindByte n rest := by
  induction text generalizing start with
  | nil =>
    cases start with
    | zero =>
      obtain rfl := Option.some.inj cut
      rw [Nat.zero_add]
    | succ start => cases cut
  | cons c text ih =>
    cases start with
    | zero =>
      obtain rfl := Option.some.inj cut
      rw [Nat.zero_add]
    | succ start =>
      rw [behindByte] at cut
      split_ifs at cut with fits
      rw [Nat.add_right_comm, behindByte, if_pos (by omega), ← ih cut]
      congr 1
      omega

@[simp] theorem total_sliceText {text : List Char} {stop : Nat} :
    Total (sliceText text start stop : Outcome ε _) ↔ start ≤ stop ∧ Boundary text start ∧ Boundary text stop := by
  unfold sliceText Boundary
  by_cases ordered : start ≤ stop
  · rw [if_pos ordered]
    cases cut : behindByte start text with
    | none => simp
    | some rest =>
      have stops := behindByte_add cut (stop - start)
      rw [Nat.add_sub_cancel' ordered] at stops
      have same := beforeByte_isSome (stop - start) rest
      rw [stops, ← same, Option.bind_some]
      cases beforeByte (stop - start) rest <;> simp [ordered]
  · simp [ordered]

/-- A step that goes on with a slice. -/
theorem total_sliceFrom_bind {α : Type} {text : List Char} {f : List Char → Outcome ε α} :
    Total (sliceFrom text start >>= f) ↔ Boundary text start ∧ ∀ rest, behindByte start text = some rest → Total (f rest) := by
  unfold sliceFrom Boundary
  cases behindByte start text with
  | none => simp [Total, bind, Except.bind]
  | some rest => simp

/-- A slice that does not panic is there. -/
theorem sliceText_ok {text : List Char} {stop : Nat} (total : Total (sliceText text start stop : Outcome ε _)) :
    ∃ middle, (sliceText text start stop : Outcome ε _) = .ok middle := by
  unfold sliceText at total ⊢
  split
  · split
    · exact ⟨_, rfl⟩
    · simp_all
  · simp_all

theorem total_sliceText_bind {α : Type} {text : List Char} {stop : Nat} {f : List Char → Outcome ε α} {P : Prop}
    (steps : ∀ middle, Total (f middle) ↔ P) :
    Total (sliceText text start stop >>= f) ↔ (start ≤ stop ∧ Boundary text start ∧ Boundary text stop) ∧ P := by
  rw [total_bind, total_sliceText]
  refine and_congr_right fun inside => ?_
  obtain ⟨middle, cut⟩ := @sliceText_ok ε _ _ _ (total_sliceText.mpr inside)
  exact ⟨fun all => (steps middle).mp (all middle cut), fun holds middle _ => (steps middle).mpr holds⟩

/-- What is there of a text is found. -/
theorem findText_isSome {pattern text : List Char} (occurs : pattern <:+: text) : (findText pattern text).isSome := by
  induction text with
  | nil =>
    rw [List.infix_nil] at occurs
    simp [findText, occurs]
  | cons c text ih =>
    unfold findText
    split
    · rfl
    · next notHere =>
      rw [Option.isSome_map]
      rcases List.infix_cons_iff.mp occurs with here | later
      · exact absurd (List.isPrefixOf_iff_prefix.mpr here) notHere
      · exact ih later

end StreamHouse.Lib
