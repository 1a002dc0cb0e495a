import Mathlib.Data.Nat.Bitwise
import StreamHouse.Core.Record

/-!
# Variable-length integers

`streamhouse-core`'s `varint.rs`. A `u64` is a `Nat` here, written seven bits a byte,
least significant first; an `i64` is a `BitVec 64`, zig-zag mapped to an unsigned one
first. Decoding undoes encoding, whatever bytes follow.
-/

namespace StreamHouse

open BitVec

/-- `streamhouse_core::Error`, the variants of the segment format. -/
inductive CoreError where
  | invalidMagic
  | unsupportedVersion (version : Nat)
  | invalidCompression (value : Nat)
  | crcMismatch
  | invalidSegment (message : String)
  | decompression (message : String)
  | unsupported (message : String)
deriving DecidableEq

namespace Varint

/-- `encode_varint_u64`. -/
def encodeVarintU64 (value : Nat) : Bytes :=
  let byte := value &&& 0x7F
  let value := value >>> 7
  if value ≠ 0 then UInt8.ofNat (byte ||| 0x80) :: encodeVarintU64 value else [UInt8.ofNat byte]
termination_by value
decreasing_by
  simp only [Nat.shiftRight_eq_div_pow] at *
  omega

/-- The zig-zag map of `encode_varint`. -/
def zigZag (value : BitVec 64) : BitVec 64 := (value <<< 1) ^^^ value.sshiftRight 63

/-- `encode_varint`. -/
def encodeVarint (value : BitVec 64) : Bytes := encodeVarintU64 (zigZag value).toNat

/-- The loop of `decode_varint_u64`; the shift drops what does not fit 64 bits. -/
def decodeLoop (value shift : Nat) : Bytes → Except CoreError (Nat × Bytes)
  | [] => .error (.invalidSegment "Truncated varint")
  | byte :: rest =>
    let value := value ||| ((byte.toNat &&& 0x7F) <<< shift) % 2 ^ 64
    if byte.toNat &&& 0x80 = 0 then .ok (value, rest)
    else if shift + 7 ≥ 64 then .error (.invalidSegment "Varint too large")
    else decodeLoop value (shift + 7) rest

/-- `decode_varint_u64`. -/
def decodeVarintU64 (buf : Bytes) : Except CoreError (Nat × Bytes) := decodeLoop 0 0 buf

/-- The inverse of `zigZag`, as in `decode_varint`. -/
def unZigZag (unsigned : BitVec 64) : BitVec 64 :=
  let value := unsigned >>> 1
  if unsigned &&& 1 ≠ 0 then ~~~ value else value

/-- `decode_varint`. -/
def decodeVarint (buf : Bytes) : Except CoreError (BitVec 64 × Bytes) :=
  (decodeVarintU64 buf).map fun (unsigned, rest) => (unZigZag (BitVec.ofNat 64 unsigned), rest)

/-! ## Progress -/

theorem decodeLoop_shrinks {value shift decoded : Nat} {buf rest : Bytes}
    (done : decodeLoop value shift buf = .ok (decoded, rest)) : rest.length < buf.length := by
  induction buf generalizing value shift with
  | nil => simp [decodeLoop] at done
  | cons byte buf ih =>
    unfold decodeLoop at done
    dsimp only at done
    split at done
    · obtain ⟨-, rfl⟩ := Prod.mk.inj (Except.ok.inj done)
      simp
    · split at done
      · cases done
      · have := ih done
        simp only [List.length_cons]
        omega

theorem decodeVarint_shrinks {decoded : BitVec 64} {buf rest : Bytes} (done : decodeVarint buf = .ok (decoded, rest)) :
    rest.length < buf.length := by
  unfold decodeVarint at done
  cases read : decodeVarintU64 buf with
  | error e => simp [read, Except.map] at done
  | ok found =>
    obtain ⟨unsigned, tail⟩ := found
    rw [read] at done
    obtain ⟨-, rfl⟩ := Prod.mk.inj (Except.ok.inj done)
    exact decodeLoop_shrinks read

/-! ## Round trips -/

theorem and_127 (n : Nat) : n &&& 0x7F = n % 128 := Nat.and_two_pow_sub_one_eq_mod n 7

/-- The last byte of an encoding. -/
theorem encodeVarintU64_small {value : Nat} (small : value < 128) : encodeVarintU64 value = [UInt8.ofNat value] := by
  have stop : value >>> 7 = 0 := by
    rw [Nat.shiftRight_eq_div_pow]
    omega
  rw [encodeVarintU64]
  simp only [stop, ne_eq, not_true_eq_false, if_false, and_127, Nat.mod_eq_of_lt small]

/-- A byte with the continuation bit. -/
theorem encodeVarintU64_large {value : Nat} (large : 128 ≤ value) :
    encodeVarintU64 value = UInt8.ofNat (128 + value % 128) :: encodeVarintU64 (value / 128) := by
  have more : value >>> 7 = value / 128 := Nat.shiftRight_eq_div_pow value 7
  have continuation : value % 128 ||| 0x80 = 128 + value % 128 := by
    have disjoint := Nat.two_pow_add_eq_or_of_lt (show value % 128 < 2 ^ 7 from Nat.mod_lt _ (by decide)) 1
    rw [Nat.or_comm]
    simpa using disjoint.symm
  rw [encodeVarintU64]
  simp only [more, and_127]
  rw [if_pos (by omega), continuation]

/-- One byte of decoding adds its seven bits. -/
theorem accumulate {acc shift digit : Nat} (below : acc < 2 ^ shift) (fits : digit * 2 ^ shift < 2 ^ 64) :
    acc ||| (digit <<< shift) % 2 ^ 64 = acc + digit * 2 ^ shift := by
  rw [Nat.shiftLeft_eq, Nat.mod_eq_of_lt fits, Nat.or_comm, ← Nat.shiftLeft_eq, ← Nat.shiftLeft_add_eq_or_of_lt below,
    Nat.shiftLeft_eq, Nat.add_comm]

/-- **The loop undoes the encoding** of what is left of the value. -/
theorem decodeLoop_encode {value acc shift : Nat} (below : acc < 2 ^ shift) (fits : value * 2 ^ shift < 2 ^ 64)
    (rest : Bytes) : decodeLoop acc shift (encodeVarintU64 value ++ rest) = .ok (acc + value * 2 ^ shift, rest) := by
  induction value using Nat.strongRecOn generalizing acc shift with
  | ind value ih =>
    by_cases small : value < 128
    · have byte : (UInt8.ofNat value).toNat = value := by
        simp only [UInt8.toNat_ofNat']
        omega
      have low : value &&& 0x80 = 0 := by
        have bits := Nat.and_two_pow value 7
        rw [Nat.testBit_lt_two_pow (by omega)] at bits
        simpa using bits
      rw [encodeVarintU64_small small, List.singleton_append, decodeLoop]
      simp only [byte, and_127, Nat.mod_eq_of_lt small, low, if_true, accumulate below fits]
    · have byte : (UInt8.ofNat (128 + value % 128)).toNat = 128 + value % 128 := by
        simp only [UInt8.toNat_ofNat']
        omega
      have high : (128 + value % 128) &&& 0x80 ≠ 0 := by
        have bits := Nat.and_two_pow (128 + value % 128) 7
        have set : (128 + value % 128).testBit 7 = true := by
          rw [Nat.testBit_eq_decide_div_mod_eq]
          simp only [decide_eq_true_eq]
          omega
        rw [set] at bits
        show (128 + value % 128) &&& 2 ^ 7 ≠ 0
        rw [bits]
        decide
      have digit : (128 + value % 128) % 128 = value % 128 := by omega
      have power : 2 ^ (shift + 7) = 128 * 2 ^ shift := by
        rw [Nat.pow_add, Nat.mul_comm]
      have split : value * 2 ^ shift = value % 128 * 2 ^ shift + value / 128 * 2 ^ (shift + 7) := by
        rw [power, ← Nat.mul_assoc, ← Nat.add_mul]
        congr 1
        omega
      have fitsDigit : value % 128 * 2 ^ shift < 2 ^ 64 :=
        Nat.lt_of_le_of_lt (Nat.mul_le_mul_right _ (Nat.mod_le _ _)) fits
      have further : ¬ shift + 7 ≥ 64 := by
        intro beyond
        have grows : 2 ^ 64 ≤ 2 ^ (shift + 7) := Nat.pow_le_pow_right (by decide) beyond
        have atLeast : 128 * 2 ^ shift ≤ value * 2 ^ shift := Nat.mul_le_mul_right _ (by omega)
        omega
      have next : acc + value % 128 * 2 ^ shift < 2 ^ (shift + 7) := by
        have most : value % 128 * 2 ^ shift ≤ 127 * 2 ^ shift := Nat.mul_le_mul_right _ (by omega)
        omega
      rw [encodeVarintU64_large (by omega), List.cons_append, decodeLoop]
      simp only [byte, and_127, digit, high, further, if_false, accumulate below fitsDigit]
      rw [ih (value / 128) (by omega) next (by omega)]
      rw [split, Nat.add_assoc]

@[simp] theorem decodeVarintU64_encode {value : Nat} (fits : value < 2 ^ 64) (rest : Bytes) :
    decodeVarintU64 (encodeVarintU64 value ++ rest) = .ok (value, rest) := by
  have decoded := decodeLoop_encode (show 0 < 2 ^ 0 by decide) (show value * 2 ^ 0 < 2 ^ 64 by omega) rest
  simpa [decodeVarintU64] using decoded

theorem zigZag_getLsbD (value : BitVec 64) {i : Nat} (inside : i < 64) :
    (zigZag value).getLsbD i = ((!decide (i < 1) && value.getLsbD (i - 1)) ^^ value.msb) := by
  have sign : (value.sshiftRight 63).getLsbD i = value.msb := by
    rw [getLsbD_sshiftRight, msb_eq_getLsbD_last]
    simp only [show ¬ 64 ≤ i by omega, decide_false, Bool.not_false, Bool.true_and]
    split
    · next zero =>
      have here : i = 0 := by omega
      rw [here]
    · rfl
  rw [zigZag, getLsbD_xor, getLsbD_shiftLeft, sign]
  simp [inside]

/-- The zig-zag map loses nothing: its lowest bit is the sign. -/
theorem unZigZag_zigZag (value : BitVec 64) : unZigZag (zigZag value) = value := by
  have lowest : (zigZag value).getLsbD 0 = value.msb := by
    rw [zigZag_getLsbD value (by decide)]
    simp
  have sign : zigZag value &&& 1 ≠ 0 ↔ value.msb = true := by
    show zigZag value &&& 1#64 ≠ 0#64 ↔ value.msb = true
    rw [and_one_eq_setWidth_ofBool_getLsbD, lowest]
    cases value.msb <;> decide
  -- bit `i` of the shifted value is bit `i` of `value`, flipped when the sign is set
  have bits : ∀ i < 64, ((zigZag value) >>> 1).getLsbD i = (value.getLsbD i ^^ value.msb) := by
    intro i inside
    rw [getLsbD_ushiftRight]
    by_cases last : i = 63
    · subst last
      rw [getLsbD_of_ge _ _ (by decide), msb_eq_getLsbD_last]
      simp
    · rw [zigZag_getLsbD value (by omega), show 1 + i - 1 = i by omega]
      simp
  unfold unZigZag
  apply eq_of_getLsbD_eq
  intro i inside
  by_cases negative : value.msb = true
  · rw [if_pos (sign.mpr negative), getLsbD_not, bits i inside, negative]
    simp [inside]
  · rw [if_neg (fun set => negative (sign.mp set)), bits i inside]
    simp [negative]

@[simp] theorem decodeVarint_encode (value : BitVec 64) (rest : Bytes) :
    decodeVarint (encodeVarint value ++ rest) = .ok (value, rest) := by
  unfold decodeVarint encodeVarint
  rw [decodeVarintU64_encode (zigZag value).isLt]
  simp [Except.map, unZigZag_zigZag]

theorem encodeVarintU64_ne_nil (value : Nat) : encodeVarintU64 value ≠ [] := by
  rw [encodeVarintU64]
  split <;> simp

end Varint

end StreamHouse
