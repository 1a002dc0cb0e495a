import StreamHouse.Lib.Bytes
import StreamHouse.Storage.PartitionWriter

/-!
# Bloom filters of segments

`SegmentBloomFilter` of `streamhouse-storage/src/bloom.rs` writes the data of the `bloomfilter` crate field by field
and gives it back to the crate. The crate and the JSON of the configuration are parameters. The bitmap is what is
left of the bytes, whatever number of bits was read before it: `readsSafely_iff` says which bytes make a filter
that can be asked.
-/

namespace StreamHouse.Storage
open Lib List

/-- The two pairs of SIP keys. -/
abbrev SipKeys := (UInt64 × UInt64) × (UInt64 × UInt64)

/-- `bloomfilter::Bloom`. Without a filter `newForFpRate` panics; `probes` are the bits that `check` reads. -/
structure BloomCrate (Rate Bloom : Type) where
  newForFpRate : UInt64 → Rate → Option Bloom
  set : Bloom → Bytes → Bloom
  check : Bloom → Bytes → Bool
  bitmap : Bloom → Bytes
  numberOfBits : Bloom → UInt64
  numberOfHashFunctions : Bloom → UInt32
  sipKeys : Bloom → SipKeys
  fromExisting : Bytes → UInt64 → UInt32 → SipKeys → Bloom
  probes : Bloom → Bytes → List Nat

structure BloomFilterConfig (Rate : Type) where
  expectedItems : UInt64
  falsePositiveRate : Rate

/-- `serde_json` on configurations. -/
structure ConfigJson (Rate : Type) where
  toVec : BloomFilterConfig Rate → Except String Bytes
  fromSlice : Bytes → Except String (BloomFilterConfig Rate)

structure SegmentBloomFilter (Rate Bloom : Type) where
  bloom : Bloom
  config : BloomFilterConfig Rate
  itemCount : UInt64

/-- The fields of a filter behind the version. -/
structure Serialized where
  config : Bytes
  itemCount : UInt64
  numBits : UInt64
  numHashes : UInt32
  sipKeys : SipKeys
  bitmap : Bytes

def Serialized.bytes (s : Serialized) : Bytes :=
  2 :: (putLE 4 s.config.length ++ (s.config ++ (putLE 8 s.itemCount.toNat ++ (putLE 8 s.numBits.toNat ++
    (putLE 4 s.numHashes.toNat ++ (putLE 8 s.sipKeys.1.1.toNat ++ (putLE 8 s.sipKeys.1.2.toNat ++
      (putLE 8 s.sipKeys.2.1.toNat ++ (putLE 8 s.sipKeys.2.2.toNat ++ s.bitmap)))))))))

variable {Rate Bloom : Type} (json : ConfigJson Rate) (crate : BloomCrate Rate Bloom)

namespace SegmentBloomFilter

def withConfig (config : BloomFilterConfig Rate) : Option (SegmentBloomFilter Rate Bloom) :=
  (crate.newForFpRate config.expectedItems config.falsePositiveRate).map fun bloom => ⟨bloom, config, 0⟩

def add (f : SegmentBloomFilter Rate Bloom) (key : Bytes) : SegmentBloomFilter Rate Bloom :=
  { f with bloom := crate.set f.bloom key, itemCount := f.itemCount + 1 }

def mightContain (f : SegmentBloomFilter Rate Bloom) (key : Bytes) : Bool := crate.check f.bloom key

/-- What `to_bytes` writes. -/
def serialized (f : SegmentBloomFilter Rate Bloom) : Serialized where
  -- `unwrap_or_default`
  config := ((json.toVec f.config).toOption).getD []
  itemCount := f.itemCount
  numBits := crate.numberOfBits f.bloom
  numHashes := crate.numberOfHashFunctions f.bloom
  sipKeys := crate.sipKeys f.bloom
  bitmap := crate.bitmap f.bloom

def toBytes (f : SegmentBloomFilter Rate Bloom) : Bytes := (f.serialized json crate).bytes

end SegmentBloomFilter

/-- One check of the length, with what is missing in its message. -/
def need (width : Nat) (what : String) (buf : Bytes) : Outcome Error Unit :=
  if buf.length < width then .error (.error (.segmentError ("Invalid bloom filter: truncated " ++ what))) else .ok ()

/-- An integer behind the check of its length. -/
def field (width : Nat) (what : String) (buf : Bytes) : Outcome Error (Nat × Bytes) := do
  need width what buf
  getLE width buf

namespace SegmentBloomFilter

/-- `from_bytes`; `buf` are the bytes from the cursor on. -/
def fromBytes : Bytes → Outcome Error (SegmentBloomFilter Rate Bloom)
  | [] => .error (.error (.segmentError "Empty bloom filter data"))
  | version :: buf =>
    if version ≠ 2 then
      .error (.error (.segmentError ("Unsupported bloom filter version: " ++ toString version ++ " (expected 2)")))
    else do
      let (configLen, buf) ← field 4 "config length" buf
      need configLen "config data" buf
      let (configData, buf) ← copyToSlice configLen buf
      let config ← Outcome.of ((json.fromSlice configData).mapError fun e => Error.segmentError ("Invalid bloom filter config: " ++ e))
      let (itemCount, buf) ← field 8 "item count" buf
      let (numBits, buf) ← field 8 "num_bits" buf
      let (numHashes, buf) ← field 4 "num_hashes" buf
      need 32 "SIP keys" buf
      let (key00, buf) ← getLE 8 buf
      let (key01, buf) ← getLE 8 buf
      let (key10, buf) ← getLE 8 buf
      let (key11, buf) ← getLE 8 buf
      .ok ⟨crate.fromExisting buf (.ofNat numBits) (.ofNat numHashes) ((.ofNat key00, .ofNat key01), (.ofNat key10, .ofNat key11)),
        config, .ofNat itemCount⟩

end SegmentBloomFilter

/-! ## What is relied on -/

/-- What the crates promise: no false negatives, a filter is restored from its own data and consists of what it is
restored from, bits are probed below the bit count and for hash functions only, and the text of a configuration whose
rate a filter is made with is read back. -/
structure BloomCrate.Documented : Prop where
  finds : ∀ items rate b (keys : List Bytes), crate.newForFpRate items rate = some b → ∀ key ∈ keys, crate.check (keys.foldl crate.set b) key = true
  restores : ∀ b, crate.fromExisting (crate.bitmap b) (crate.numberOfBits b) (crate.numberOfHashFunctions b) (crate.sipKeys b) = b
  given : ∀ bitmap bits hashes keys, crate.bitmap (crate.fromExisting bitmap bits hashes keys) = bitmap ∧
    crate.numberOfBits (crate.fromExisting bitmap bits hashes keys) = bits ∧
      crate.numberOfHashFunctions (crate.fromExisting bitmap bits hashes keys) = hashes
  below : ∀ b key, 0 < (crate.numberOfBits b).toNat → ∀ p ∈ crate.probes b key, p < (crate.numberOfBits b).toNat
  unhashed : ∀ b key, crate.numberOfHashFunctions b = 0 → crate.probes b key = []
  readsBack : ∀ items rate b, crate.newForFpRate items rate = some b →
    ∃ text c, json.toVec ⟨items, rate⟩ = .ok text ∧ text.length < 2 ^ 32 ∧ json.fromSlice text = .ok c

/-- No key makes the crate probe outside the bitmap or divide a hash by zero. -/
def BloomCrate.Safe (b : Bloom) : Prop :=
  ∀ key, (∀ p ∈ crate.probes b key, p < 8 * (crate.bitmap b).length) ∧
    (crate.numberOfHashFunctions b ≠ 0 → crate.numberOfBits b ≠ 0)

namespace SegmentBloomFilter

def RoundTrips : Prop :=
  ∀ config f (keys : List Bytes), withConfig crate config = some f → ∃ g, fromBytes json crate ((keys.foldl (add crate) f).toBytes json crate) = .ok g ∧
    (∀ key ∈ keys, g.mightContain crate key = true) ∧ g.itemCount = (keys.foldl (add crate) f).itemCount

def ReadsSafely (data : Bytes) : Prop :=
  (∃ e, fromBytes json crate data = .error (.error e)) ∨ ∃ g, fromBytes json crate data = .ok g ∧ crate.Safe g.bloom

end SegmentBloomFilter

/-! ## Reading -/

theorem need_eq {width : Nat} {what : String} {buf : Bytes} (enough : width ≤ buf.length) : need width what buf = .ok () :=
  if_neg (by omega)

theorem field_putLE {width n : Nat} (fits : n < 256 ^ width) (what : String) (rest : Bytes) :
    field width what (putLE width n ++ rest) = .ok (n, rest) := by
  rw [field, need_eq (by simp), ok_bind, getLE_putLE fits]

section Steps

variable {α : Type} {P : Prop} {width : Nat} {what : String} {buf : Bytes}

theorem need_or {f : Unit → Outcome Error α} (go : width ≤ buf.length → (∃ e, f () = .error (.error e)) ∨ P) :
    (∃ e, (need width what buf >>= f) = .error (.error e)) ∨ P := by
  by_cases short : buf.length < width
  · exact .inl ⟨_, by rw [need, if_pos short]; rfl⟩
  · rw [need_eq (by omega), ok_bind]
    exact go (by omega)

theorem field_or {f : Nat × Bytes → Outcome Error α}
    (go : ∀ n rest, n < 256 ^ width → buf = putLE width n ++ rest → (∃ e, f (n, rest) = .error (.error e)) ∨ P) :
    (∃ e, (field width what buf >>= f) = .error (.error e)) ∨ P := by
  rw [field, bind_assoc]
  refine need_or fun enough => ?_
  obtain ⟨n, rest, fits, shape, read⟩ := exists_getLE enough
  rw [read, ok_bind]
  exact go n rest fits shape

end Steps

namespace SegmentBloomFilter

variable {json : ConfigJson Rate} {crate : BloomCrate Rate Bloom}

/-- The fields are read as they were written. -/
theorem fromBytes_bytes {s : Serialized} (size : s.config.length < 2 ^ 32) {c : BloomFilterConfig Rate}
    (parsed : json.fromSlice s.config = .ok c) :
    fromBytes json crate s.bytes = .ok ⟨crate.fromExisting s.bitmap s.numBits s.numHashes s.sipKeys, c, s.itemCount⟩ := by
  have word (n : UInt64) (rest : Bytes) : getLE 8 (putLE 8 n.toNat ++ rest) = (.ok (n.toNat, rest) : Outcome Error _) :=
    getLE_putLE n.toNat_lt rest
  have field_word (n : UInt64) (what : String) (rest : Bytes) : field 8 what (putLE 8 n.toNat ++ rest) = .ok (n.toNat, rest) :=
    field_putLE n.toNat_lt what rest
  have field_hashes (rest : Bytes) : field 4 "num_hashes" (putLE 4 s.numHashes.toNat ++ rest) = .ok (s.numHashes.toNat, rest) :=
    field_putLE s.numHashes.toNat_lt _ rest
  rw [Serialized.bytes, fromBytes, if_neg (by decide), field_putLE size]
  simp only [ok_bind]
  rw [need_eq (by simp), ok_bind, copyToSlice_append _ rfl, ok_bind, parsed]
  simp only [Except.mapError, Outcome.of, ok_bind, field_word, field_hashes, UInt64.ofNat_toNat]
  rw [need_eq (by simp only [length_append, putLE_length]; omega)]
  simp only [ok_bind, word, UInt64.ofNat_toNat, UInt32.ofNat_toNat]

/-- **Any bytes are refused or are the fields of a filter.** -/
theorem fromBytes_cases (data : Bytes) :
    (∃ e, fromBytes json crate data = .error (.error e)) ∨
      ∃ (s : Serialized) (c : BloomFilterConfig Rate), s.config.length < 2 ^ 32 ∧ json.fromSlice s.config = .ok c ∧ data = s.bytes := by
  cases data with
  | nil => exact .inl ⟨_, rfl⟩
  | cons version buf =>
    rw [fromBytes]
    split
    · exact .inl ⟨_, rfl⟩
    next isTwo =>
    obtain rfl := not_not.mp isTwo
    refine field_or fun configLen buf size shape => need_or fun enough => ?_
    rw [copyToSlice, if_pos enough, ok_bind]
    dsimp only
    cases parsed : json.fromSlice (buf.take configLen) with
    | error e => exact .inl ⟨_, rfl⟩
    | ok c =>
      refine field_or fun itemCount buf1 count shape1 => field_or fun numBits buf2 bits shape2 =>
        field_or fun numHashes buf3 hashes shape3 => need_or fun (keys : 32 ≤ buf3.length) => ?_
      obtain ⟨key00, buf4, fits00, rfl, -⟩ := exists_getLE (ε := Error) (show 8 ≤ buf3.length by omega)
      simp only [length_append, putLE_length] at keys
      obtain ⟨key01, buf5, fits01, rfl, -⟩ := exists_getLE (ε := Error) (show 8 ≤ buf4.length by omega)
      simp only [length_append, putLE_length] at keys
      obtain ⟨key10, buf6, fits10, rfl, -⟩ := exists_getLE (ε := Error) (show 8 ≤ buf5.length by omega)
      simp only [length_append, putLE_length] at keys
      obtain ⟨key11, bitmap, fits11, rfl, -⟩ := exists_getLE (ε := Error) (show 8 ≤ buf6.length by omega)
      refine .inr ⟨⟨buf.take configLen, .ofNat itemCount, .ofNat numBits, .ofNat numHashes,
        ((.ofNat key00, .ofNat key01), (.ofNat key10, .ofNat key11)), bitmap⟩, c, by simpa [enough] using size, parsed, ?_⟩
      have back (n : Nat) (fits : n < 256 ^ 8) : (UInt64.ofNat n).toNat = n := UInt64.toNat_ofNat_of_lt fits
      have hash : (UInt32.ofNat numHashes).toNat = numHashes := UInt32.toNat_ofNat_of_lt hashes
      simp only [Serialized.bytes, back _ count, back _ bits, back _ fits00, back _ fits01, back _ fits10, back _ fits11, hash,
        length_take_of_le enough]
      rw [← shape3, ← shape2, ← shape1, take_append_drop, ← shape]

/-! ## Round trips -/

theorem foldl_add (f : SegmentBloomFilter Rate Bloom) (keys : List Bytes) :
    (keys.foldl (add crate) f).bloom = keys.foldl crate.set f.bloom ∧ (keys.foldl (add crate) f).config = f.config := by
  induction keys generalizing f with
  | nil => exact ⟨rfl, rfl⟩
  | cons key keys ih => exact ih (f.add crate key)

/-- **What a filter is written as is read as a filter with its keys.** -/
theorem roundTrips (documented : crate.Documented json) : RoundTrips json crate := by
  intro config f keys made
  obtain ⟨b, new, rfl⟩ := Option.map_eq_some_iff.mp made
  obtain ⟨text, c, written, short, parsed⟩ := documented.readsBack _ _ _ new
  obtain ⟨bloom, same⟩ := @foldl_add _ _ crate ⟨b, config, 0⟩ keys
  generalize keys.foldl (add crate) ⟨b, config, 0⟩ = g at *
  have isText : (g.serialized json crate).config = text := by
    rw [serialized, same, written]
    rfl
  refine ⟨_, fromBytes_bytes (isText ▸ short) (isText ▸ parsed), fun key added => ?_, rfl⟩
  rw [mightContain]
  dsimp only [serialized]
  rw [documented.restores, bloom]
  exact documented.finds _ _ _ _ new key added

/-! ## Reading safely -/

/-- A crate that asks every key for the last bit, and makes filters with the data `new`. -/
def lastBit (new : Option (Bytes × UInt64 × UInt32 × SipKeys)) : BloomCrate Rate (Bytes × UInt64 × UInt32 × SipKeys) where
  newForFpRate _ _ := new
  set b _ := b
  check _ _ := true
  bitmap := Prod.fst
  numberOfBits b := b.2.1
  numberOfHashFunctions b := b.2.2.1
  sipKeys b := b.2.2.2
  fromExisting bitmap bits hashes keys := (bitmap, bits, hashes, keys)
  probes b _ := if b.2.2.1 = 0 then [] else [b.2.1.toNat - 1]

theorem lastBit_documented {new : Option (Bytes × UInt64 × UInt32 × SipKeys)}
    (readsBack : ∀ items rate b, new = some b →
      ∃ text c, json.toVec ⟨items, rate⟩ = .ok text ∧ text.length < 2 ^ 32 ∧ json.fromSlice text = .ok c) :
    (lastBit new).Documented json where
  finds _ _ _ _ _ _ _ := rfl
  restores _ := rfl
  given _ _ _ _ := ⟨rfl, rfl, rfl⟩
  below b key some_ p inside := by
    simp only [lastBit] at some_ inside ⊢
    split at inside
    · cases inside
    · rw [mem_singleton.mp inside]
      omega
  unhashed _ _ none := if_pos none
  readsBack := readsBack

theorem safe_fromExisting (documented : crate.Documented json) {bitmap : Bytes} {bits : UInt64} {hashes : UInt32} {keys : SipKeys}
    (meets : hashes = 0 ∨ 0 < bits.toNat ∧ bits.toNat ≤ 8 * bitmap.length) : crate.Safe (crate.fromExisting bitmap bits hashes keys) := by
  intro key
  obtain ⟨isBitmap, isBits, isHashes⟩ := documented.given bitmap bits hashes keys
  have below := documented.below (crate.fromExisting bitmap bits hashes keys) key
  rw [isBitmap, isBits, isHashes]
  rw [isBits] at below
  obtain none | ⟨some_, inside⟩ := meets
  · refine ⟨fun p probed => ?_, fun hashed => absurd none hashed⟩
    rw [documented.unhashed _ key (isHashes.trans none)] at probed
    cases probed
  · refine ⟨fun p probed => ?_, fun _ zero => ?_⟩
    · have := below some_ p probed
      omega
    · rw [zero] at some_
      exact absurd some_ (by decide)

/-- **Filters that are read back have their keys, and any bytes are refused or read as a safe filter exactly if** the
bytes are not those of a filter with hash functions whose bit count is zero or more than the bitmap has. -/
theorem bloom_reads_iff (json : ConfigJson Rate) (data : Bytes) :
    (∀ (Bloom : Type) (crate : BloomCrate Rate Bloom), crate.Documented json → RoundTrips json crate ∧ ReadsSafely json crate data) ↔
      ∀ (s : Serialized) c, s.config.length < 2 ^ 32 → json.fromSlice s.config = .ok c → data = s.bytes →
        s.numHashes = 0 ∨ 0 < s.numBits.toNat ∧ s.numBits.toNat ≤ 8 * s.bitmap.length := by
  constructor
  · rintro all s c size parsed rfl
    obtain ⟨-, ⟨e, refused⟩ | ⟨g, read, safe⟩⟩ := all _ (lastBit none) (lastBit_documented fun _ _ _ no => nomatch no)
    · rw [fromBytes_bytes size parsed] at refused
      cases refused
    · cases (fromBytes_bytes size parsed).symm.trans read
      obtain ⟨inside, divides⟩ := safe []
      by_cases none : s.numHashes = 0
      · exact .inl none
      · have some_ : s.numBits.toNat ≠ 0 := fun zero => divides none (UInt64.toNat.inj zero)
        have last : s.numBits.toNat - 1 < 8 * s.bitmap.length := inside _ (by simp [lastBit, none])
        exact .inr ⟨by omega, by omega⟩
  · intro meets Bloom crate documented
    refine ⟨roundTrips documented, ?_⟩
    obtain ⟨e, refused⟩ | ⟨s, c, size, parsed, rfl⟩ := @fromBytes_cases _ _ json crate data
    · exact .inl ⟨e, refused⟩
    · exact .inr ⟨_, fromBytes_bytes size parsed, safe_fromExisting documented (meets s c size parsed rfl)⟩

end SegmentBloomFilter

namespace Example

def configText : Bytes := "\x7b\"expected_items\":1,\"false_positive_rate\":0.5\x7d".toUTF8.toList

def configJson : ConfigJson Unit where
  toVec _ := .ok configText
  fromSlice text := if text = configText then .ok ⟨1, ()⟩ else .error "expected value at line 1 column 1"

/-- A filter of eight bits. -/
def eightBits : Bytes × UInt64 × UInt32 × SipKeys := ([255], 8, 1, ((1, 2), (3, 4)))

end Example

namespace SegmentBloomFilter
open Example

/-- A filter is cut off before its bitmap: it is read, and its last bit probed. -/
theorem bloom_reads_fail : ¬ ∀ (data : Bytes) (Bloom : Type) (crate : BloomCrate Unit Bloom), crate.Documented configJson →
    RoundTrips configJson crate ∧ ReadsSafely configJson crate data := by
  intro all
  have short : configText.length < 2 ^ 32 := by decide +kernel
  let f : SegmentBloomFilter Unit _ := ⟨eightBits, ⟨1, ()⟩, 0⟩
  let s : Serialized := ⟨configText, 0, 8, 1, ((1, 2), (3, 4)), []⟩
  have cut : (f.toBytes configJson (lastBit none)).dropLast = s.bytes := by decide +kernel
  have read : fromBytes configJson (lastBit (some eightBits)) s.bytes = _ := fromBytes_bytes short (if_pos rfl)
  obtain ⟨-, ⟨e, refused⟩ | ⟨g, found, safe⟩⟩ := all (f.toBytes configJson (lastBit none)).dropLast _ (lastBit (some eightBits))
    (lastBit_documented fun _ _ _ _ => ⟨configText, ⟨1, ()⟩, rfl, short, if_pos rfl⟩)
  · cases (cut ▸ read).symm.trans refused
  · cases (cut ▸ read).symm.trans found
    exact absurd ((safe []).1 7 (by decide)) (by decide)

end SegmentBloomFilter

end StreamHouse.Storage
