import StreamHouse.Kafka.RecordBatch
import StreamHouse.Lib.Totality

/-!
# Strings, bytes and arrays

The primitives of `codec.rs`. A length stands in front of its bytes, in two bytes, in four, or
one more than it as a varint; a negative length and the varint zero are no value. The encoders cast
a length to the width it is written in, so one too long for it comes out as another. The parsers
compare a length with what is left of the buffer, but not the count of an array, for which
they reserve.
-/

namespace StreamHouse.Kafka
open Lib Varint Option

/-! ## Lengths -/

/-- How a length is written. -/
inductive LengthForm where
  | int16
  | int32
  | compact

def bufferTooShortFor (what : String) : KafkaError := .protocol ("Buffer too short for " ++ what)

/-- `parse_unsigned_varint`. -/
def parseUnsignedVarint (buf : Bytes) : Outcome KafkaError (Nat × Bytes) := Outcome.of (parseVarintLoop 0 0 buf)

/-- A signed length of `width` bytes; `what` is what it is the length of. -/
def readSigned (width : Nat) (what : String) (buf : Bytes) : Outcome KafkaError (Option Nat × Bytes) :=
  if buf.length < width then .error (.error (bufferTooShortFor what))
  else do
    let (length, buf) ← getBE width buf
    .ok (if length < 2 ^ (8 * width - 1) then some length else none, buf)

namespace LengthForm

def read (what : String) : LengthForm → Bytes → Outcome KafkaError (Option Nat × Bytes)
  | .int16, buf => readSigned 2 what buf
  | .int32, buf => readSigned 4 what buf
  | .compact, buf => do
    let (length, buf) ← parseUnsignedVarint buf
    .ok (if length = 0 then none else some (length - 1), buf)

/-- `put_i16(len as i16)`, `put_i32(len as i32)`, or the varint of `len + 1`. -/
def write : LengthForm → Option Nat → Bytes
  | .int16, none => putBE 2 (2 ^ 16 - 1)
  | .int16, some length => putBE 2 length
  | .int32, none => putBE 4 (2 ^ 32 - 1)
  | .int32, some length => putBE 4 length
  | .compact, none => encodeVarintU64 0
  | .compact, some length => encodeVarintU64 (length + 1)

/-- The fewest bytes it takes. -/
def least : LengthForm → Nat
  | .int16 => 2
  | .int32 => 4
  | .compact => 1

/-- The length is written as it is. -/
def Carries (length : Nat) : LengthForm → Prop
  | .int16 => length < 2 ^ 15
  | .int32 => length < 2 ^ 31
  | .compact => True

end LengthForm

open LengthForm

/-! ## Strings and bytes -/

/-- `format!("Invalid UTF-8 in {what}: {e}")`. -/
def invalidUtf8 (what : String) (validUpTo : Nat) (errorLen : Option Nat) : KafkaError :=
  .protocol <| "Invalid UTF-8 in " ++ what ++ ": " ++
    match errorLen with
    | some n => "invalid utf-8 sequence of " ++ toString n ++ " bytes from index " ++ toString validUpTo
    | none => "incomplete utf-8 byte sequence from index " ++ toString validUpTo

/-- `String::from_utf8`, where the bytes are a text. -/
def decodeText (what : String) (text : Bool) (bytes : Bytes) : Outcome KafkaError Bytes :=
  if text = true then
    match utf8Error 0 bytes with
    | none => .ok bytes
    | some (validUpTo, errorLen) => .error (.error (invalidUtf8 what validUpTo errorLen))
  else .ok bytes

/-- The bytes behind their length. -/
def parseSized (what : String) (text : Bool) (buf : Bytes) : Option Nat → Outcome KafkaError (Option Bytes × Bytes)
  | none => .ok (none, buf)
  | some length =>
    if buf.length < length then .error (.error (bufferTooShortFor (what ++ " of length " ++ toString length)))
    else do
      let (bytes, buf) ← copyToSlice length buf
      let bytes ← decodeText what text bytes
      .ok (some bytes, buf)

def parseNullable (form : LengthForm) (what : String) (text : Bool) (buf : Bytes) : Outcome KafkaError (Option Bytes × Bytes) := do
  let (length, buf) ← form.read what buf
  parseSized what text buf length

def parseNullableString : Bytes → Outcome KafkaError (Option Bytes × Bytes) := parseNullable .int16 "string" true

def parseCompactNullableString : Bytes → Outcome KafkaError (Option Bytes × Bytes) := parseNullable .compact "compact string" true

def parseNullableBytes : Bytes → Outcome KafkaError (Option Bytes × Bytes) := parseNullable .int32 "bytes" false

def parseCompactNullableBytes : Bytes → Outcome KafkaError (Option Bytes × Bytes) := parseNullable .compact "compact bytes" false

/-- `ok_or_else` with the error of a null. -/
def nonNull (what : String) : Option Bytes × Bytes → Outcome KafkaError (Bytes × Bytes)
  | (some s, buf) => .ok (s, buf)
  | (none, _) => .error (.error (.protocol ("Expected non-null " ++ what)))

def parseString (buf : Bytes) : Outcome KafkaError (Bytes × Bytes) := parseNullableString buf >>= nonNull "string"

def parseCompactString (buf : Bytes) : Outcome KafkaError (Bytes × Bytes) :=
  parseCompactNullableString buf >>= nonNull "compact string"

def encodeNullable (form : LengthForm) : Option Bytes → Bytes
  | some bytes => form.write (some bytes.length) ++ bytes
  | none => form.write none

def encodeNullableString : Option Bytes → Bytes := encodeNullable .int16

def encodeCompactNullableString : Option Bytes → Bytes := encodeNullable .compact

def encodeNullableBytes : Option Bytes → Bytes := encodeNullable .int32

def encodeCompactNullableBytes : Option Bytes → Bytes := encodeNullable .compact

def encodeString (s : Bytes) : Bytes := putBE 2 s.length ++ s

def encodeCompactString (s : Bytes) : Bytes := encodeVarintU64 (s.length + 1) ++ s

/-! ## Arrays -/

/-- `parse_array` and `parse_compact_array`. -/
inductive ArrayForm where
  | array
  | compactArray

def ArrayForm.count : ArrayForm → LengthForm
  | .array => .int32
  | .compactArray => .compact

/-- `Vec::with_capacity` for elements of `size` bytes. -/
def withCapacity (size count : Nat) : Outcome KafkaError Unit :=
  if size * count ≤ isizeMax then .ok () else .error .panicked

section

variable {α : Type} (parseElement : Bytes → Outcome KafkaError (α × Bytes))

def parseElements : (count : Nat) → Bytes → Outcome KafkaError (List α × Bytes)
  | 0, buf => .ok ([], buf)
  | count + 1, buf => do
    let (element, buf) ← parseElement buf
    let (elements, buf) ← parseElements count buf
    .ok (element :: elements, buf)

/-- The elements behind their count; no count is no elements. -/
def parseCounted (size : Nat) (buf : Bytes) : Option Nat → Outcome KafkaError (List α × Bytes)
  | none => .ok ([], buf)
  | some count => do
    withCapacity size count
    parseElements parseElement count buf

def ArrayForm.parse (form : ArrayForm) (size : Nat) (buf : Bytes) : Outcome KafkaError (List α × Bytes) := do
  let (count, buf) ← form.count.read "array" buf
  parseCounted parseElement size buf count

def parseArray (size : Nat) : Bytes → Outcome KafkaError (List α × Bytes) := ArrayForm.array.parse parseElement size

end

/-- An array as the handlers write it: the count, and the elements one behind the other. -/
def ArrayForm.encode {α : Type} (form : ArrayForm) (encodeElement : α → Bytes) (elements : List α) : Bytes :=
  form.count.write (some elements.length) ++ (elements.map encodeElement).flatten

/-! ## The primitives -/

inductive Primitive where
  | string
  | nullableString
  | compactString
  | compactNullableString
  | nullableBytes
  | compactNullableBytes

namespace Primitive

def length : Primitive → LengthForm
  | .string | .nullableString => .int16
  | .nullableBytes => .int32
  | .compactString | .compactNullableString | .compactNullableBytes => .compact

def text : Primitive → Bool
  | .nullableBytes | .compactNullableBytes => false
  | _ => true

def nullable : Primitive → Bool
  | .string | .compactString => false
  | _ => true

/-- The fewest bytes a value takes: its length. -/
def least (p : Primitive) : Nat := p.length.least

def parse : Primitive → Bytes → Outcome KafkaError (Option Bytes × Bytes)
  | .string, buf => (parseString buf).map fun (s, buf) => (some s, buf)
  | .nullableString, buf => parseNullableString buf
  | .compactString, buf => (parseCompactString buf).map fun (s, buf) => (some s, buf)
  | .compactNullableString, buf => parseCompactNullableString buf
  | .nullableBytes, buf => parseNullableBytes buf
  | .compactNullableBytes, buf => parseCompactNullableBytes buf

def encode : Primitive → Option Bytes → Bytes
  | .string, s => encodeString (s.getD [])
  | .nullableString, s => encodeNullableString s
  | .compactString, s => encodeCompactString (s.getD [])
  | .compactNullableString, s => encodeCompactNullableString s
  | .nullableBytes, bytes => encodeNullableBytes bytes
  | .compactNullableBytes, bytes => encodeCompactNullableBytes bytes

/-- A value of the primitive's type: bytes in memory, UTF-8 where they are a text, and not null
where there is no null. -/
structure Value (p : Primitive) where
  bytes : Option Bytes
  allocated : ∀ b, bytes = some b → b.length ≤ isizeMax
  valid : p.text = true → ∀ b, bytes = some b → utf8Error 0 b = none
  present : p.nullable = false → bytes ≠ none

/-- `size_of::<String>()`, as that of `Option<String>`, `Vec<u8>` and `Option<Vec<u8>>`. -/
def elementSize : Nat := 24

/-- A vector of such values. -/
structure Values (p : Primitive) where
  elements : List (Value p)
  allocated : elementSize * elements.length ≤ isizeMax

variable (p : Primitive)

/-- The length of the value is written as it is. -/
def Carries (bytes : Option Bytes) : Prop := ∀ b, bytes = some b → p.length.Carries b.length

/-- The value comes back, and what follows it is left. -/
def RoundTrip (v : Value p) (suffix : Bytes) : Prop := p.parse (p.encode v.bytes ++ suffix) = .ok (v.bytes, suffix)

/-- The values come back, and what follows them is left. -/
def ListRoundTrip (form : ArrayForm) (vs : Values p) (suffix : Bytes) : Prop :=
  form.parse p.parse elementSize (form.encode (fun v => p.encode v.bytes) vs.elements ++ suffix) =
    .ok (vs.elements.map Value.bytes, suffix)

/-- An array of the primitive is parsed to an end, and no more elements are reserved than the
bytes behind their count could hold. -/
structure ParsesWithin (form : ArrayForm) (buf : Bytes) : Prop where
  total : Total (form.parse p.parse elementSize buf)
  reserved : ∀ count rest, form.count.read "array" buf = .ok (some count, rest) → count * p.least ≤ rest.length

end Primitive

open Primitive

/-! ## Lengths, written and read -/

theorem parseUnsignedVarint_encode {value : Nat} (fits : value < 2 ^ 64) (rest : Bytes) :
    parseUnsignedVarint (encodeVarintU64 value ++ rest) = .ok (value, rest) := by
  rw [parseUnsignedVarint, parseVarintLoop_of_decodeLoop (decodeVarintU64_encode fits rest)]
  rfl

theorem readSigned_putBE (width : Nat) (what : String) (n : Nat) (rest : Bytes) :
    readSigned width what (putBE width n ++ rest) =
      .ok (if n % 2 ^ (8 * width) < 2 ^ (8 * width - 1) then some (n % 2 ^ (8 * width)) else none, rest) := by
  have enough : ¬ (putBE width n ++ rest).length < width := by
    rw [List.length_append, putBE_length]
    omega
  rw [readSigned, if_neg enough, getBE_putBE, ok_bind]

namespace LengthForm

variable {form : LengthForm} {what : String}

theorem read_write {length : Nat} (small : length ≤ isizeMax) (carries : form.Carries length) (rest : Bytes) :
    form.read what (form.write (some length) ++ rest) = .ok (some length, rest) := by
  unfold isizeMax at small
  cases form with
  | int16 =>
    have fits : length < 2 ^ 15 := carries
    have whole : length % 2 ^ (8 * 2) = length := Nat.mod_eq_of_lt (by omega)
    rw [read, write, readSigned_putBE, whole, if_pos (by omega)]
  | int32 =>
    have fits : length < 2 ^ 31 := carries
    have whole : length % 2 ^ (8 * 4) = length := Nat.mod_eq_of_lt (by omega)
    rw [read, write, readSigned_putBE, whole, if_pos (by omega)]
  | compact =>
    rw [read, write, parseUnsignedVarint_encode (by omega), ok_bind]
    rfl

theorem read_write_none (rest : Bytes) : form.read what (form.write none ++ rest) = .ok (none, rest) := by
  cases form with
  | int16 => rw [read, write, readSigned_putBE, if_neg (by decide)]
  | int32 => rw [read, write, readSigned_putBE, if_neg (by decide)]
  | compact =>
    rw [read, write, parseUnsignedVarint_encode (by decide), ok_bind]
    rfl

/-- A length that does not fit comes out as none, or as a smaller one. -/
theorem read_write_of_not_carries {length : Nat} (wraps : ¬ form.Carries length) (rest : Bytes) :
    ∃ read, form.read what (form.write (some length) ++ rest) = .ok (read, rest) ∧ ∀ n, read = some n → n < length := by
  cases form with
  | int16 =>
    have long : ¬ length < 2 ^ 15 := wraps
    refine ⟨_, readSigned_putBE 2 what length rest, fun n same => ?_⟩
    split at same
    · next small =>
      obtain rfl := some.inj same
      omega
    · cases same
  | int32 =>
    have long : ¬ length < 2 ^ 31 := wraps
    refine ⟨_, readSigned_putBE 4 what length rest, fun n same => ?_⟩
    split at same
    · next small =>
      obtain rfl := some.inj same
      omega
    · cases same
  | compact => exact absurd trivial wraps

theorem total_read (buf : Bytes) : Total (form.read what buf) := by
  have signed : ∀ width, Total (readSigned width what buf) := by
    intro width
    unfold readSigned
    split
    · exact total_error _
    · next enough =>
      rw [total_getBE_bind]
      exact ⟨by omega, total_ok _⟩
  cases form with
  | int16 => exact signed 2
  | int32 => exact signed 4
  | compact => exact total_bind.mpr ⟨total_of _, fun _ _ => total_ok _⟩

end LengthForm

/-! ## Strings and bytes, written and read -/

section

variable {form : LengthForm} {what : String} {text : Bool}

@[simp] theorem total_decodeText (bytes : Bytes) : Total (decodeText what text bytes) := by
  unfold decodeText
  split
  · split
    · exact total_ok _
    · exact total_error _
  · exact total_ok _

variable {bytes : Bytes}

theorem decodeText_eq {decoded : Bytes} (read : decodeText what text bytes = .ok decoded) : decoded = bytes := by
  unfold decodeText at read
  split at read
  · split at read
    · exact (Except.ok.inj read).symm
    · cases read
  · exact (Except.ok.inj read).symm

theorem decodeText_of_valid (valid : text = true → utf8Error 0 bytes = none) : decodeText what text bytes = .ok bytes := by
  unfold decodeText
  split
  · next isText => rw [valid isText]
  · rfl

theorem total_parseSized (buf : Bytes) (length : Option Nat) : Total (parseSized what text buf length) := by
  cases length with
  | none => exact total_ok _
  | some length =>
    rw [parseSized]
    split
    · exact total_error _
    · next enough =>
      rw [total_copyToSlice_bind, total_bind]
      exact ⟨by omega, total_decodeText _, fun _ _ => total_ok _⟩

variable {value : Option Bytes} {buf rest : Bytes} {count : Nat}

/-- What is read is as long as announced, and what is left is behind it. -/
theorem parseSized_ok_iff {after : Bytes} {length : Option Nat} :
    parseSized what text after length = .ok (value, rest) ↔ (length.getD 0 ≤ after.length ∧
      (text = true → utf8Error 0 (after.take (length.getD 0)) = none) ∧ rest = after.drop (length.getD 0)) ∧
        value = length.map fun n => after.take n := by
  cases length with
  | none => simp [parseSized, utf8Error, eq_comm, and_comm]
  | some length =>
    rw [parseSized]
    split
    · next short => exact iff_of_false (fun no => by cases no) fun both => absurd both.1.1 (Nat.not_le.mpr short)
    · next enough =>
      rw [copyToSlice, if_pos (Nat.not_lt.mp enough), ok_bind]
      constructor
      · intro read
        obtain ⟨decoded, isDecoded, read⟩ := bind_ok read
        obtain ⟨rfl, rfl⟩ := Prod.mk.inj (Except.ok.inj read)
        refine ⟨⟨Nat.not_lt.mp enough, fun isText => ?_, rfl⟩, congrArg some (decodeText_eq isDecoded)⟩
        rw [decodeText, if_pos isText] at isDecoded
        split at isDecoded
        · assumption
        · cases isDecoded
      · rintro ⟨⟨-, valid, rfl⟩, rfl⟩
        rw [Option.getD_some] at valid
        show (decodeText what text (after.take length) >>= fun bytes => .ok (some bytes, after.drop length)) = _
        rw [decodeText_of_valid valid]
        rfl

theorem parseSized_length {length : Option Nat}
    (read : parseSized what text buf length = .ok (some bytes, rest)) : length = some bytes.length := by
  obtain ⟨⟨enough, -, -⟩, same⟩ := parseSized_ok_iff.mp read
  obtain ⟨n, rfl, rfl⟩ := map_eq_some_iff.mp same.symm
  exact congrArg some (List.length_take_of_le enough).symm

theorem parseSized_append (valid : text = true → utf8Error 0 bytes = none) (rest : Bytes) :
    parseSized what text (bytes ++ rest) (some bytes.length) = .ok (some bytes, rest) := by
  rw [parseSized_ok_iff, getD_some, List.take_left, List.drop_left, List.length_append]
  exact ⟨⟨Nat.le_add_right _ _, valid, rfl⟩, by rw [map_some, List.take_left]⟩

theorem total_parseNullable (buf : Bytes) : Total (parseNullable form what text buf) :=
  total_bind.mpr ⟨form.total_read buf, fun _ _ => total_parseSized _ _⟩

theorem parseNullable_encode (small : ∀ b, value = some b → b.length ≤ isizeMax)
    (valid : text = true → ∀ b, value = some b → utf8Error 0 b = none) (carries : ∀ b, value = some b → form.Carries b.length)
    (rest : Bytes) : parseNullable form what text (encodeNullable form value ++ rest) = .ok (value, rest) := by
  cases value with
  | none =>
    rw [parseNullable, encodeNullable, read_write_none, ok_bind]
    rfl
  | some bytes =>
    rw [parseNullable, encodeNullable, List.append_assoc, read_write (small bytes rfl) (carries bytes rfl), ok_bind]
    exact parseSized_append (fun isText => valid isText bytes rfl) rest

/-- A value comes back only with its length. -/
theorem carries_of_parseNullable {suffix : Bytes}
    (read : parseNullable form what text (encodeNullable form value ++ rest) = .ok (value, suffix)) :
    ∀ b, value = some b → form.Carries b.length := by
  rintro bytes rfl
  by_contra wraps
  obtain ⟨length, isLength, shorter⟩ := @read_write_of_not_carries form what _ wraps (bytes ++ rest)
  rw [parseNullable, encodeNullable, List.append_assoc, isLength, ok_bind] at read
  have announced := shorter bytes.length (parseSized_length read)
  omega

theorem total_nonNull (read : Option Bytes × Bytes) : Total (nonNull what read) := by
  obtain ⟨value, buf⟩ := read
  cases value with
  | none => exact total_error _
  | some s => exact total_ok _

/-- A parser that rejects null reads what the other reads. -/
theorem map_nonNull_ok {read : Outcome KafkaError (Option Bytes × Bytes)} (present : value ≠ none) :
    (read >>= nonNull what).map (fun found => (some found.1, found.2)) = .ok (value, rest) ↔ read = .ok (value, rest) := by
  obtain ⟨bytes, rfl⟩ := ne_none_iff_exists'.mp present
  rcases read with fault | ⟨found, buf⟩
  · exact iff_of_false (fun no => by cases no) fun no => by cases no
  · cases found with
    | none => exact iff_of_false (fun no => by cases no) fun no => by cases no
    | some s => simp [nonNull, Except.map]

end

namespace Primitive

variable {p : Primitive}

theorem total_parse (p : Primitive) (buf : Bytes) : Total (p.parse buf) := by
  cases p with
  | string => exact total_map.mpr (total_bind.mpr ⟨total_parseNullable buf, fun found _ => total_nonNull found⟩)
  | compactString => exact total_map.mpr (total_bind.mpr ⟨total_parseNullable buf, fun found _ => total_nonNull found⟩)
  | nullableString => exact total_parseNullable buf
  | compactNullableString => exact total_parseNullable buf
  | nullableBytes => exact total_parseNullable buf
  | compactNullableBytes => exact total_parseNullable buf

/-- What the error texts call it. -/
def what : Primitive → String
  | .string | .nullableString => "string"
  | .compactString | .compactNullableString => "compact string"
  | .nullableBytes => "bytes"
  | .compactNullableBytes => "compact bytes"

/-- On a value, the parsers that reject null are those that do not. -/
theorem parse_ok (present : p.nullable = false → value ≠ none) :
    p.parse buf = .ok (value, rest) ↔ parseNullable p.length p.what p.text buf = .ok (value, rest) := by
  cases p with
  | string => exact map_nonNull_ok (present rfl)
  | compactString => exact map_nonNull_ok (present rfl)
  | nullableString => exact Iff.rfl
  | compactNullableString => exact Iff.rfl
  | nullableBytes => exact Iff.rfl
  | compactNullableBytes => exact Iff.rfl

theorem encode_eq (v : Value p) : p.encode v.bytes = encodeNullable p.length v.bytes := by
  have some_of : p.nullable = false → ∃ b, v.bytes = some b := fun never => ne_none_iff_exists'.mp (v.present never)
  cases p with
  | string =>
    obtain ⟨b, isSome⟩ := some_of rfl
    rw [isSome]
    rfl
  | compactString =>
    obtain ⟨b, isSome⟩ := some_of rfl
    rw [isSome]
    rfl
  | nullableString => rfl
  | compactNullableString => rfl
  | nullableBytes => rfl
  | compactNullableBytes => rfl

theorem parse_encode (v : Value p) (carries : p.Carries v.bytes) (rest : Bytes) : p.parse (p.encode v.bytes ++ rest) = .ok (v.bytes, rest) := by
  rw [parse_ok v.present, encode_eq]
  exact parseNullable_encode v.allocated v.valid carries rest

theorem carries_of_parse {v : Value p} {suffix : Bytes} (read : p.parse (p.encode v.bytes ++ rest) = .ok (v.bytes, suffix)) :
    p.Carries v.bytes := by
  rw [parse_ok v.present, encode_eq] at read
  exact carries_of_parseNullable read

theorem roundTrip_iff (v : Value p) (suffix : Bytes) : p.RoundTrip v suffix ↔ p.Carries v.bytes :=
  ⟨carries_of_parse, fun carries => parse_encode v carries suffix⟩

/-! ## Arrays, written and read -/

theorem parseElements_encode {vs : List (Value p)} {suffix : Bytes} :
    parseElements p.parse vs.length ((vs.map fun v => p.encode v.bytes).flatten ++ suffix) = .ok (vs.map Value.bytes, suffix) ↔
      ∀ v ∈ vs, p.Carries v.bytes := by
  induction vs with
  | nil => exact iff_of_true rfl fun v inside => absurd inside List.not_mem_nil
  | cons v vs ih =>
    rw [List.map_cons, List.flatten_cons, List.append_assoc, List.length_cons, parseElements, List.map_cons, List.forall_mem_cons]
    constructor
    · intro read
      obtain ⟨⟨found, buf⟩, first, read⟩ := bind_ok read
      obtain ⟨⟨others, rest⟩, later, read⟩ := bind_ok read
      obtain ⟨⟨rfl, rfl⟩, rfl⟩ : (found = v.bytes ∧ others = vs.map Value.bytes) ∧ rest = suffix := by
        obtain ⟨same, behind⟩ := Prod.mk.inj (Except.ok.inj read)
        exact ⟨List.cons.inj same, behind⟩
      have carries := carries_of_parse first
      rw [parse_encode v carries] at first
      obtain ⟨-, rfl⟩ := Prod.mk.inj (Except.ok.inj first)
      exact ⟨carries, ih.mp later⟩
    · rintro ⟨carries, later⟩
      rw [parse_encode v carries, ok_bind]
      dsimp only
      rw [ih.mpr later, ok_bind]

theorem parseElements_length {α : Type} {parseElement : Bytes → Outcome KafkaError (α × Bytes)} {elements : List α} (read : parseElements parseElement count buf = .ok (elements, rest)) : elements.length = count := by
  induction count generalizing buf elements rest with
  | zero =>
    obtain ⟨rfl, -⟩ := Prod.mk.inj (Except.ok.inj read)
    rfl
  | succ count ih =>
    obtain ⟨⟨element, behind⟩, -, read⟩ := bind_ok read
    obtain ⟨⟨others, left⟩, later, read⟩ := bind_ok read
    obtain ⟨rfl, -⟩ := Prod.mk.inj (Except.ok.inj read)
    rw [List.length_cons, ih later]

/-- Elements are parsed to an end exactly if each one is that the parser gets to. -/
theorem total_parseElements {α : Type} {parseElement : Bytes → Outcome KafkaError (α × Bytes)} :
    Total (parseElements parseElement count buf) ↔
      ∀ i < count, ∀ elements here, parseElements parseElement i buf = .ok (elements, here) → Total (parseElement here) := by
  induction count generalizing buf with
  | zero => exact iff_of_true (total_ok _) fun i none => absurd none (Nat.not_lt_zero i)
  | succ count ih =>
    simp only [parseElements, total_bind, Prod.forall, ih, total_ok, implies_true, and_true]
    constructor
    · rintro ⟨first, later⟩ i more elements here read
      cases i with
      | zero =>
        obtain ⟨-, rfl⟩ := Prod.mk.inj (Except.ok.inj read)
        exact first
      | succ i =>
        obtain ⟨⟨element, behind⟩, isFirst, read⟩ := bind_ok read
        obtain ⟨⟨others, left⟩, isLater, read⟩ := bind_ok read
        obtain ⟨-, rfl⟩ := Prod.mk.inj (Except.ok.inj read)
        exact later element behind isFirst i (by omega) others left isLater
    · intro each
      refine ⟨each 0 (by omega) [] buf rfl, fun element behind isFirst i more elements here read => ?_⟩
      apply each (i + 1) (by omega) (element :: elements) here
      rw [parseElements, isFirst, ok_bind]
      dsimp only
      rw [read, ok_bind]

theorem withCapacity_of_le {size : Nat} (fits : size * count ≤ isizeMax) : withCapacity size count = .ok () := if_pos fits

theorem listRoundTrip_iff (form : ArrayForm) (vs : Values p) (suffix : Bytes) :
    p.ListRoundTrip form vs suffix ↔ form.count.Carries vs.elements.length ∧ ∀ v ∈ vs.elements, p.Carries v.bytes := by
  have few : vs.elements.length ≤ isizeMax := by
    have allocated := vs.allocated
    unfold elementSize at allocated
    omega
  rw [ListRoundTrip, ArrayForm.parse, ArrayForm.encode, List.append_assoc]
  by_cases counted : form.count.Carries vs.elements.length
  · rw [read_write few counted, ok_bind]
    dsimp only
    rw [parseCounted, withCapacity_of_le vs.allocated, ok_bind, parseElements_encode, and_iff_right counted]
  · refine iff_of_false (fun read => ?_) fun carried => counted carried.1
    obtain ⟨count, isCount, fewer⟩ := @read_write_of_not_carries form.count "array" _ counted
      ((vs.elements.map fun v => p.encode v.bytes).flatten ++ suffix)
    rw [isCount, ok_bind] at read
    dsimp only at read
    cases count with
    | none =>
      obtain ⟨empty, -⟩ := Prod.mk.inj (Except.ok.inj read)
      -- a list without elements has a count that fits
      have none_ : vs.elements = [] := List.map_eq_nil_iff.mp empty.symm
      apply counted
      rw [none_]
      cases form with
      | array => exact Nat.two_pow_pos 31
      | compactArray => trivial
    | some count =>
      obtain ⟨-, -, read⟩ := bind_ok read
      have length := parseElements_length read
      have less := fewer count rfl
      rw [List.length_map] at length
      omega

/-! ## Any bytes -/

@[simp] theorem total_withCapacity {size : Nat} : Total (withCapacity size count) ↔ size * count ≤ isizeMax := by
  unfold withCapacity
  split
  · next fits => exact iff_of_true (total_ok _) fits
  · next large => exact iff_of_false not_total_panicked large

theorem total_arrayParse {form : ArrayForm} : Total (form.parse p.parse elementSize buf) ↔
      ∀ count rest, form.count.read "array" buf = .ok (some count, rest) → elementSize * count ≤ isizeMax := by
  rw [ArrayForm.parse, total_bind, and_iff_right (form.count.total_read buf)]
  constructor
  · intro counted count rest isCount
    exact total_withCapacity.mp (total_bind.mp (counted (some count, rest) isCount)).1
  · rintro allocated ⟨count, rest⟩ isCount
    cases count with
    | none => exact total_ok _
    | some count =>
      refine total_bind.mpr ⟨total_withCapacity.mpr (allocated count rest isCount), fun _ _ => ?_⟩
      exact total_parseElements.mpr fun _ _ _ here _ => total_parse p here

theorem parsesWithin_iff (form : ArrayForm) (buf : Bytes) :
    p.ParsesWithin form buf ↔ ∀ count rest, form.count.read "array" buf = .ok (some count, rest) →
      elementSize * count ≤ isizeMax ∧ count * p.least ≤ rest.length := by
  constructor
  · intro within count rest isCount
    exact ⟨total_arrayParse.mp within.total count rest isCount, within.reserved count rest isCount⟩
  · intro announced
    exact ⟨total_arrayParse.mpr fun count rest isCount => (announced count rest isCount).1,
      fun count rest isCount => (announced count rest isCount).2⟩

end Primitive

/-- **The codecs.** A value comes back from its encoding exactly if its length fits the width it is written
in, and a list exactly if its count and each of its elements do. On any bytes the parsers of
single values end; that of an array ends without reserving too much exactly if the elements that its
count announces fit into an allocation, and their lengths into what is behind the count. -/
theorem primitivesSound_iff (p : Primitive) (form : ArrayForm) (v : p.Value) (vs : p.Values) (suffix buf : Bytes) :
    (p.RoundTrip v suffix ↔ p.Carries v.bytes) ∧
      (p.ListRoundTrip form vs suffix ↔ form.count.Carries vs.elements.length ∧ ∀ v ∈ vs.elements, p.Carries v.bytes) ∧
      Total (p.parse buf) ∧
      (p.ParsesWithin form buf ↔ ∀ count rest, form.count.read "array" buf = .ok (some count, rest) →
        elementSize * count ≤ isizeMax ∧ count * p.least ≤ rest.length) :=
  ⟨roundTrip_iff v suffix, listRoundTrip_iff form vs suffix, total_parse p buf,
    parsesWithin_iff form buf⟩

namespace Example

def letters (n : Nat) : Bytes := List.replicate n 97

theorem letters_length (n : Nat) : (letters n).length = n := List.length_replicate

theorem utf8Error_letters (validUpTo n : Nat) : utf8Error validUpTo (letters n) = none := by
  induction n generalizing validUpTo with
  | zero => rfl
  | succ n ih =>
    rw [letters, List.replicate_succ, utf8Error.eq_def]
    exact ih _

/-- A string of 32768 letters. -/
def longString : string.Value where
  bytes := some (letters 32768)
  allocated := by
    rintro b same
    rw [← some.inj same, letters_length]
    decide
  valid := by
    rintro - b same
    rw [← some.inj same]
    exact utf8Error_letters 0 32768
  present := fun _ => some_ne_none _

/-- The most strings a count announces, and none of them. -/
def announcedStrings : Bytes := [0x7f, 0xff, 0xff, 0xff]

end Example

/-- The length of the string is written as a negative one, and the strings announced are reserved for. -/
theorem primitives_fail : ¬ string.RoundTrip Example.longString [] ∧
    ¬ string.ParsesWithin .array Example.announcedStrings := by
  constructor
  · intro comesBack
    have short := (roundTrip_iff Example.longString []).mp comesBack (Example.letters 32768) rfl
    rw [Example.letters_length] at short
    exact absurd short (Nat.lt_irrefl (2 ^ 15))
  · intro within
    have announced : int32.read "array" Example.announcedStrings = .ok (some (2 ^ 31 - 1), []) := by
      decide +kernel
    have room : (2 ^ 31 - 1) * 2 ≤ 0 := within.reserved (2 ^ 31 - 1) [] announced
    omega

end StreamHouse.Kafka
