import StreamHouse.Kafka.Primitives

/-!
# Signed varints

Three places read what `encode_varint` of `fetch.rs` writes, each with a loop of its own:
`parse_varint` of `produce.rs`, `parse_signed_varint` of `codec.rs` and `decode_varint` of the core
crate. The loops are one loop, and it stops in time. `parse_varint` holds the zig-zag number in
an `i64`, whose shift to the right keeps its sign: `agree_iff` says that the upper half of the
numbers does not come back from it.
-/

namespace StreamHouse.Kafka
open Lib Varint BitVec

/-- `encode_varint` of `fetch.rs`: the zig-zag map, and the loop of `encode_varint_u64`. -/
def Fetch.encodeVarint (value : BitVec 64) : Bytes := encodeVarintU64 (zigZag value).toNat

/-- `(unsigned >> 1) as i64 ^ -((unsigned & 1) as i64)`. -/
def signedOf (unsigned : BitVec 64) : BitVec 64 := (unsigned >>> 1) ^^^ -(unsigned &&& 1)

/-- `parse_signed_varint`. -/
def parseSignedVarint (buf : Bytes) : Outcome KafkaError (BitVec 64 × Bytes) :=
  (parseUnsignedVarint buf).map fun (unsigned, rest) => (signedOf (BitVec.ofNat 64 unsigned), rest)

/-! ## The loop -/

/-- The loop of a decoder with at most `turns` turns, and with the shift as an operation that can overflow: no
answer where it would take one turn more, or shift by 64. -/
def checkedLoop {ε : Type} (tooShort tooLong : ε) : Nat → Nat → Nat → Bytes → Option (Except ε (Nat × Bytes))
  | 0, _, _, _ => none
  | _ + 1, _, _, [] => some (.error tooShort)
  | turns + 1, value, shift, byte :: rest =>
    if 64 ≤ shift then none
    else
      let value := value ||| ((byte.toNat &&& 0x7F) <<< shift) % 2 ^ 64
      if byte.toNat &&& 0x80 = 0 then some (.ok (value, rest))
      else if shift + 7 ≥ 64 then some (.error tooLong)
      else checkedLoop tooShort tooLong turns value (shift + 7) rest

/-- The loop has its answer within ten bytes, whatever they are, and does not shift too far. -/
def StopsInTime {ε : Type} (tooShort tooLong : ε) (loop : Nat → Nat → Bytes → Except ε (Nat × Bytes)) (buf : Bytes) : Prop :=
  checkedLoop tooShort tooLong 10 0 0 buf = some (loop 0 0 buf)

theorem checkedLoop_eq {ε : Type} {tooShort tooLong : ε} (loop : Nat → Nat → Bytes → Except ε (Nat × Bytes))
    (ended : ∀ value shift, loop value shift [] = .error tooShort)
    (turn : ∀ value shift byte rest, loop value shift (byte :: rest) =
      if byte.toNat &&& 0x80 = 0 then .ok (value ||| ((byte.toNat &&& 0x7F) <<< shift) % 2 ^ 64, rest)
      else if shift + 7 ≥ 64 then .error tooLong
      else loop (value ||| ((byte.toNat &&& 0x7F) <<< shift) % 2 ^ 64) (shift + 7) rest)
    {turns value shift : Nat} (room : 64 ≤ shift + 7 * turns) (below : shift < 64) (buf : Bytes) :
    checkedLoop tooShort tooLong turns value shift buf = some (loop value shift buf) := by
  induction turns generalizing value shift buf with
  | zero => omega
  | succ turns ih =>
    cases buf with
    | nil => rw [checkedLoop, ended]
    | cons byte rest =>
      rw [checkedLoop, if_neg (by omega), turn]
      dsimp only
      split
      · rfl
      · split
        · rfl
        · next far => exact ih (by omega) (by omega) rest

theorem decodeLoop_stops (buf : Bytes) :
    StopsInTime (.invalidSegment "Truncated varint") (.invalidSegment "Varint too large") decodeLoop buf := by
  apply checkedLoop_eq decodeLoop (fun _ _ => rfl) _ (by decide) (by decide)
  intro value shift byte rest
  rw [decodeLoop]

theorem parseVarintLoop_stops (buf : Bytes) : StopsInTime bufferTooShort varintTooLong parseVarintLoop buf := by
  apply checkedLoop_eq parseVarintLoop (fun _ _ => rfl) _ (by decide) (by decide)
  intro value shift byte rest
  rw [parseVarintLoop]

/-! ## The sign -/

theorem and_one_cases (unsigned : BitVec 64) :
    (unsigned.getLsbD 0 = false ∧ unsigned &&& 1 = 0) ∨ (unsigned.getLsbD 0 = true ∧ unsigned &&& 1 = 1) := by
  change (_ ∧ unsigned &&& 1#64 = 0#64) ∨ (_ ∧ unsigned &&& 1#64 = 1#64)
  rw [and_one_eq_setWidth_ofBool_getLsbD]
  cases unsigned.getLsbD 0 with
  | false => exact .inl ⟨rfl, rfl⟩
  | true => exact .inr ⟨rfl, rfl⟩

theorem signedOf_eq (unsigned : BitVec 64) : signedOf unsigned = unZigZag unsigned := by
  unfold signedOf unZigZag
  dsimp only
  rcases and_one_cases unsigned with ⟨-, even⟩ | ⟨-, odd⟩
  · rw [even, if_neg (not_not_intro rfl)]
    exact xor_zero
  · rw [odd, if_pos (by decide)]
    exact xor_allOnes

theorem zigZag_lowest (value : BitVec 64) : (zigZag value).getLsbD 0 = value.msb := by
  rw [zigZag_getLsbD value (by decide)]
  simp

/-- The upper bit of the zig-zag number says whether the upper two bits of the value differ. -/
theorem msb_zigZag (value : BitVec 64) : (zigZag value).msb = false ↔ -2 ^ 62 ≤ value.toInt ∧ value.toInt < 2 ^ 62 := by
  have bit : (zigZag value).msb = (value.getLsbD 62 ^^ value.msb) := by
    rw [msb_eq_getLsbD_last, zigZag_getLsbD value (by decide)]
    simp
  have word := value.isLt
  rw [bit, msb_eq_decide, getLsbD, Nat.testBit_eq_decide_div_mod_eq, toInt_eq_toNat_cond]
  simp only [bne_eq_false_iff_eq, decide_eq_decide]
  split <;> omega

/-- **The sign comes back wrong** where the zig-zag number has the upper bit. -/
theorem zigZagDecode_zigZag (value : BitVec 64) : zigZagDecode (zigZag value) = value ↔ (zigZag value).msb = false := by
  constructor
  · intro same
    by_contra top
    rw [Bool.not_eq_false] at top
    have upper : (zigZagDecode (zigZag value)).getLsbD 63 = !value.msb := by
      rw [zigZagDecode, getLsbD_xor, getLsbD_sshiftRight, top]
      rcases and_one_cases (zigZag value) with ⟨lowest, even⟩ | ⟨lowest, odd⟩
      · rw [even, ← zigZag_lowest, lowest]
        rfl
      · rw [odd, ← zigZag_lowest, lowest]
        rfl
    rw [same, msb_eq_getLsbD_last] at upper
    exact absurd upper (by cases value.getLsbD 63 <;> decide)
  · intro top
    rw [zigZagDecode_of_msb top, unZigZag_zigZag]

/-! ## Agreement -/

/-- What is written comes back from every decoder, with what stands behind it; and on any bytes the loops stop in time. -/
structure Agree (value unsigned : BitVec 64) (rest buf : Bytes) : Prop where
  produce : parseVarint (Fetch.encodeVarint value ++ rest) = .ok (value, rest)
  codec : parseSignedVarint (Fetch.encodeVarint value ++ rest) = .ok (value, rest)
  core : decodeVarint (encodeVarint value ++ rest) = .ok (value, rest)
  coreUnsigned : decodeVarintU64 (encodeVarintU64 unsigned.toNat ++ rest) = .ok (unsigned.toNat, rest)
  coreStops : StopsInTime (.invalidSegment "Truncated varint") (.invalidSegment "Varint too large") decodeLoop buf
  kafkaStops : StopsInTime bufferTooShort varintTooLong parseVarintLoop buf

/-- **Signed varints agree exactly if** their zig-zag number is an `i64`. -/
theorem agree_iff (value unsigned : BitVec 64) (rest buf : Bytes) :
    Agree value unsigned rest buf ↔ -2 ^ 62 ≤ value.toInt ∧ value.toInt < 2 ^ 62 := by
  have written : Fetch.encodeVarint value = encodeVarint value := rfl
  rw [← msb_zigZag, ← zigZagDecode_zigZag]
  constructor
  · intro agree
    have produce := agree.produce
    rw [written, parseVarint_encode] at produce
    exact (Prod.mk.inj (Except.ok.inj produce)).1
  · intro same
    constructor
    · rw [written, parseVarint_encode, same]
    · rw [written, parseSignedVarint, encodeVarint, parseUnsignedVarint_encode (zigZag value).isLt]
      simp [Except.map, signedOf_eq, unZigZag_zigZag]
    · exact decodeVarint_encode value rest
    · exact decodeVarintU64_encode unsigned.isLt rest
    · exact decodeLoop_stops buf
    · exact parseVarintLoop_stops buf

/-- The least `i64` comes back as zero. -/
theorem agree_fails : ¬ ∀ value unsigned rest buf, Agree value unsigned rest buf := by
  intro every
  have produce := (every (intMin 64) 0 [] []).produce
  revert produce
  decide +kernel

end StreamHouse.Kafka
