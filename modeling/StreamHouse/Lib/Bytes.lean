import Mathlib.Data.Nat.ModEq

/-!
# Integers in bytes, cursors and slices

Reading takes bytes off the front of a list. Like the `Buf` operations it stands for,
a read past the end is a panic and not an error: `Fault` keeps the two apart.
-/

namespace StreamHouse.Lib

open List

/-- How an operation ends without a value: with an error it returns, or with a panic. -/
inductive Fault (ε : Type) where
  | error (e : ε)
  | panicked
deriving DecidableEq

abbrev Outcome (ε α : Type) := Except (Fault ε) α

/-- The `?` operator on a result whose computation cannot panic. -/
def Outcome.of {ε α : Type} : Except ε α → Outcome ε α
  | .ok a => .ok a
  | .error e => .error (.error e)

@[simp] theorem Outcome.of_ok {ε α : Type} (a : α) : Outcome.of (.ok a : Except ε α) = .ok a := rfl

@[simp] theorem ok_bind {ε α β : Type} (a : α) (f : α → Except ε β) : ((Except.ok a : Except ε α) >>= f) = f a :=
  pure_bind a f

/-- A sequence that succeeds does so step by step. -/
theorem bind_ok {ε α β : Type} {x : Except ε α} {f : α → Except ε β} {b : β} (done : (x >>= f) = .ok b) :
    ∃ a, x = .ok a ∧ f a = .ok b := by
  cases x with
  | error e => cases done
  | ok a => exact ⟨a, rfl, done⟩

/-- The low `width` bytes of `n`, most significant first. -/
def putBE : (width : Nat) → Nat → List UInt8
  | 0, _ => []
  | width + 1, n => UInt8.ofNat (n / 256 ^ width) :: putBE width n

def valueBE : List UInt8 → Nat
  | [] => 0
  | b :: bs => b.toNat * 256 ^ bs.length + valueBE bs

variable {ε : Type}

def getBE (width : Nat) (cursor : List UInt8) : Outcome ε (Nat × List UInt8) :=
  if width ≤ cursor.length then .ok (valueBE (cursor.take width), cursor.drop width) else .error .panicked

/-- `copy_to_slice`. -/
def copyToSlice (n : Nat) (cursor : List UInt8) : Outcome ε (List UInt8 × List UInt8) :=
  if n ≤ cursor.length then .ok (cursor.take n, cursor.drop n) else .error .panicked

/-- `data[start..stop]`. -/
def slice (data : List UInt8) (start stop : Nat) : Outcome ε (List UInt8) :=
  if start ≤ stop ∧ stop ≤ data.length then .ok ((data.drop start).take (stop - start)) else .error .panicked

@[simp] theorem putBE_length (width n : Nat) : (putBE width n).length = width := by
  induction width with
  | zero => rfl
  | succ width ih => simp [putBE, ih]

theorem valueBE_putBE (width n : Nat) : valueBE (putBE width n) = n % 256 ^ width := by
  induction width with
  | zero => simp [putBE, valueBE, Nat.mod_one]
  | succ width ih =>
    have byte : (UInt8.ofNat (n / 256 ^ width)).toNat = n / 256 ^ width % 256 := by simp
    rw [putBE, valueBE, ih, putBE_length, byte, Nat.mod_pow_succ]
    rw [Nat.mul_comm]
    omega

theorem valueBE_lt (bs : List UInt8) : valueBE bs < 256 ^ bs.length := by
  induction bs with
  | nil => simp [valueBE]
  | cons b bs ih =>
    have byte : b.toNat ≤ 255 := Nat.le_of_lt_succ b.toNat_lt
    calc
      valueBE (b :: bs) = b.toNat * 256 ^ bs.length + valueBE bs := rfl
      _ < b.toNat * 256 ^ bs.length + 256 ^ bs.length := by omega
      _ = (b.toNat + 1) * 256 ^ bs.length := by rw [Nat.add_mul, Nat.one_mul]
      _ ≤ 256 * 256 ^ bs.length := Nat.mul_le_mul_right _ (by omega)
      _ = 256 ^ (bs.length + 1) := by rw [Nat.pow_succ, Nat.mul_comm]

/-- Only the low bytes count. -/
theorem putBE_add_mul (width high n : Nat) : putBE width (high * 256 ^ width + n) = putBE width n := by
  induction width generalizing high with
  | zero => rfl
  | succ width ih =>
    have regroup : high * 256 ^ (width + 1) + n = high * 256 * 256 ^ width + n := by rw [Nat.pow_succ, Nat.mul_assoc, Nat.mul_comm 256]
    have top : (high * 256 * 256 ^ width + n) / 256 ^ width = high * 256 + n / 256 ^ width := by
      rw [Nat.add_comm, Nat.add_mul_div_right _ _ (Nat.pow_pos (by omega)), Nat.add_comm]
    have byte : UInt8.ofNat (high * 256 + n / 256 ^ width) = UInt8.ofNat (n / 256 ^ width) := by
      apply UInt8.toNat.inj
      simp
    rw [putBE, putBE, regroup, top, byte, ih]

theorem putBE_valueBE (bs : List UInt8) : putBE bs.length (valueBE bs) = bs := by
  induction bs with
  | nil => rfl
  | cons b bs ih =>
    have low := valueBE_lt bs
    have top : (b.toNat * 256 ^ bs.length + valueBE bs) / 256 ^ bs.length = b.toNat := by
      rw [Nat.add_comm, Nat.add_mul_div_right _ _ (Nat.pow_pos (by omega)), Nat.div_eq_of_lt low, Nat.zero_add]
    rw [length_cons, putBE, valueBE, top, putBE_add_mul, ih, UInt8.ofNat_toNat]

theorem getBE_putBE (width n : Nat) (rest : List UInt8) :
    getBE width (putBE width n ++ rest) = (.ok (n % 2 ^ (8 * width), rest) : Outcome ε _) := by
  have enough : width ≤ (putBE width n ++ rest).length := by simp
  rw [getBE, if_pos enough, take_left' (putBE_length width n), drop_left' (putBE_length width n), valueBE_putBE,
    Nat.pow_mul]

@[simp] theorem getU8_putU8 (n : Nat) (rest : List UInt8) :
    getBE 1 (putBE 1 n ++ rest) = (.ok (n % 2 ^ 8, rest) : Outcome ε _) := by
  rw [getBE_putBE, show 8 * 1 = 8 from rfl]

@[simp] theorem getU16_putU16 (n : Nat) (rest : List UInt8) :
    getBE 2 (putBE 2 n ++ rest) = (.ok (n % 2 ^ 16, rest) : Outcome ε _) := by
  rw [getBE_putBE, show 8 * 2 = 16 from rfl]

@[simp] theorem getU32_putU32 (n : Nat) (rest : List UInt8) :
    getBE 4 (putBE 4 n ++ rest) = (.ok (n % 2 ^ 32, rest) : Outcome ε _) := by
  rw [getBE_putBE, show 8 * 4 = 32 from rfl]

@[simp] theorem getU64_putU64 (n : Nat) (rest : List UInt8) :
    getBE 8 (putBE 8 n ++ rest) = (.ok (n % 2 ^ 64, rest) : Outcome ε _) := by
  rw [getBE_putBE, show 8 * 8 = 64 from rfl]

/-- What is read fits the width. -/
theorem getBE_lt {width value : Nat} {cursor rest : List UInt8}
    (read : getBE width cursor = (.ok (value, rest) : Outcome ε _)) : value < 2 ^ (8 * width) := by
  unfold getBE at read
  split at read
  · next enough =>
    have same := (Prod.mk.inj (Except.ok.inj read)).1
    have bound := valueBE_lt (cursor.take width)
    rw [same, length_take_of_le enough] at bound
    rw [Nat.pow_mul]
    exact bound
  · cases read

/-- The low `width` bytes of `n`, least significant first. -/
def putLE : (width : Nat) → Nat → List UInt8
  | 0, _ => []
  | width + 1, n => UInt8.ofNat n :: putLE width (n / 256)

def valueLE : List UInt8 → Nat
  | [] => 0
  | b :: bs => b.toNat + 256 * valueLE bs

def getLE (width : Nat) (cursor : List UInt8) : Outcome ε (Nat × List UInt8) :=
  if width ≤ cursor.length then .ok (valueLE (cursor.take width), cursor.drop width) else .error .panicked

@[simp] theorem putLE_length (width n : Nat) : (putLE width n).length = width := by
  induction width generalizing n with
  | zero => rfl
  | succ width ih => simp [putLE, ih]

theorem valueLE_putLE {width n : Nat} (fits : n < 256 ^ width) : valueLE (putLE width n) = n := by
  induction width generalizing n with
  | zero =>
    simp only [Nat.pow_zero] at fits
    simp only [putLE, valueLE]
    omega
  | succ width ih =>
    have high : n / 256 < 256 ^ width := by
      apply Nat.div_lt_of_lt_mul
      rw [Nat.mul_comm]
      exact fits
    have byte : (UInt8.ofNat n).toNat = n % 256 := by simp
    rw [putLE, valueLE, ih high, byte]
    omega

theorem valueLE_append (front back : List UInt8) :
    valueLE (front ++ back) = valueLE front + 256 ^ front.length * valueLE back := by
  induction front with
  | nil => simp [valueLE]
  | cons b front ih =>
    rw [cons_append, valueLE, valueLE, ih, length_cons, Nat.pow_succ, Nat.mul_comm (256 ^ front.length) 256,
      Nat.mul_assoc, Nat.mul_add, Nat.add_assoc]

theorem valueLE_lt (bs : List UInt8) : valueLE bs < 256 ^ bs.length := by
  induction bs with
  | nil => simp [valueLE]
  | cons b bs ih =>
    have byte := b.toNat_lt
    rw [valueLE, length_cons, Nat.pow_succ]
    omega

theorem putLE_valueLE (bs : List UInt8) : putLE bs.length (valueLE bs) = bs := by
  induction bs with
  | nil => rfl
  | cons b bs ih =>
    have byte := b.toNat_lt
    have low : UInt8.ofNat (b.toNat + 256 * valueLE bs) = b := by
      apply UInt8.toNat.inj
      rw [UInt8.toNat_ofNat']
      omega
    have high : (b.toNat + 256 * valueLE bs) / 256 = valueLE bs := by omega
    rw [length_cons, putLE, valueLE, low, high, ih]

/-- Where there are enough bytes, what is read is what was written. -/
theorem exists_getLE {width : Nat} {cursor : List UInt8} (enough : width ≤ cursor.length) :
    ∃ n rest, n < 256 ^ width ∧ cursor = putLE width n ++ rest ∧ getLE width cursor = (.ok (n, rest) : Outcome ε _) := by
  have taken : (cursor.take width).length = width := length_take_of_le enough
  have bound := valueLE_lt (cursor.take width)
  have back := putLE_valueLE (cursor.take width)
  rw [taken] at bound back
  exact ⟨_, _, bound, by rw [back, take_append_drop], if_pos enough⟩

theorem getLE_putLE {width n : Nat} (fits : n < 256 ^ width) (rest : List UInt8) :
    getLE width (putLE width n ++ rest) = (.ok (n, rest) : Outcome ε _) := by
  have enough : width ≤ (putLE width n ++ rest).length := by simp
  rw [getLE, if_pos enough, take_left' (putLE_length width n), drop_left' (putLE_length width n), valueLE_putLE fits]

theorem copyToSlice_append {n : Nat} {front : List UInt8} (rest : List UInt8) (width : front.length = n) :
    copyToSlice n (front ++ rest) = (.ok (front, rest) : Outcome ε _) := by
  have enough : n ≤ (front ++ rest).length := by simp [← width]
  rw [copyToSlice, if_pos enough, take_left' width, drop_left' width]

/-- The middle one of three parts. -/
theorem slice_append {start stop : Nat} {before middle after : List UInt8} (front : before.length = start)
    (back : start + middle.length = stop) :
    slice (before ++ (middle ++ after)) start stop = (.ok middle : Outcome ε _) := by
  have inside : start ≤ stop ∧ stop ≤ (before ++ (middle ++ after)).length := by
    simp only [length_append]
    omega
  rw [slice, if_pos inside, drop_left' front, take_left' (by omega)]

theorem slice_front {n : Nat} {front : List UInt8} (rest : List UInt8) (width : front.length = n) :
    slice (front ++ rest) 0 n = (.ok front : Outcome ε _) := by
  have inside : 0 ≤ n ∧ n ≤ (front ++ rest).length := by
    simp only [length_append]
    omega
  rw [slice, if_pos inside, drop_zero, Nat.sub_zero, take_left' width]

theorem slice_back {n : Nat} {front : List UInt8} (back : List UInt8) (width : front.length = n) :
    slice (front ++ back) n (front ++ back).length = (.ok back : Outcome ε _) := by
  have inside : n ≤ (front ++ back).length ∧ (front ++ back).length ≤ (front ++ back).length := by
    simp only [length_append]
    omega
  rw [slice, if_pos inside, drop_left' width, take_of_length_le]
  simp only [length_append]
  omega

end StreamHouse.Lib
