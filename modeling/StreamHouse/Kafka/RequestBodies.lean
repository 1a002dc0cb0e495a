import StreamHouse.Kafka.Primitives

/-!
# Request bodies

A handler parses its body field by field: strings, arrays and tagged fields by the primitives of
`codec.rs`, which look at what is left, and integers by `get_i32` and the like, which panic if
they are not there. The fields of a request and its version are a `Shape` here; a body is parsed
to an end exactly if every integer the parser gets to is there, and every array's count fits an
allocation (`total_read`).
-/

namespace StreamHouse.Kafka
open Lib Primitive

/-! ## Headers -/

/-- The loop of `skip_tagged_fields`. -/
def skipFields : (count : Nat) → Bytes → Outcome KafkaError Bytes
  | 0, buf => .ok buf
  | count + 1, buf => do
    let (_, buf) ← parseUnsignedVarint buf
    let (size, buf) ← parseUnsignedVarint buf
    if buf.length < size then .error (.error (bufferTooShortFor "tagged field"))
    else do
      let (_, buf) ← copyToSlice size buf
      skipFields count buf

def skipTaggedFields (buf : Bytes) : Outcome KafkaError Bytes := do
  let (count, buf) ← parseUnsignedVarint buf
  skipFields count buf

/-- The first flexible version of an API. -/
def flexStart : (apiKey : Int) → Option Int
  | 0 => some 9
  | 1 => some 12
  | 2 => some 6
  | 3 => some 9
  | 8 => some 8
  | 9 => some 6
  | 10 => some 3
  | 11 => some 6
  | 12 => some 4
  | 13 => some 4
  | 14 => some 4
  | 15 => some 5
  | 16 => some 3
  | 18 => some 3
  | 19 => some 5
  | 20 => some 4
  | 22 => some 2
  | 24 => some 3
  | 25 => some 3
  | 26 => some 3
  | 28 => some 3
  | 17 => some (2 ^ 15 - 1)
  | 36 => some 2
  | _ => none

def isFlexibleVersion (apiKey apiVersion : Int) : Bool := (flexStart apiKey).any fun start => start ≤ apiVersion

structure RequestHeader where
  apiKey : Int
  apiVersion : Int
  correlationId : Int
  clientId : Option Bytes
deriving DecidableEq

/-- `client_id`, with the tagged fields behind it in a flexible header. -/
def parseClientId (flexible : Bool) (buf : Bytes) : Outcome KafkaError (Option Bytes × Bytes) :=
  if flexible = true then do
    let (clientId, buf) ← parseCompactNullableString buf
    let buf ← skipTaggedFields buf
    .ok (clientId, buf)
  else parseNullableString buf

/-- `RequestHeader::parse`. -/
def RequestHeader.parse (buf : Bytes) : Outcome KafkaError (RequestHeader × Bytes) :=
  if buf.length < 8 then .error (.error (.protocol "Request header too short"))
  else do
    let (apiKey, buf) ← getBE 2 buf
    let (apiVersion, buf) ← getBE 2 buf
    let (correlationId, buf) ← getBE 4 buf
    let apiKey := (BitVec.ofNat 16 apiKey).toInt
    let apiVersion := (BitVec.ofNat 16 apiVersion).toInt
    let (clientId, buf) ← parseClientId (isFlexibleVersion apiKey apiVersion) buf
    .ok (⟨apiKey, apiVersion, (BitVec.ofNat 32 correlationId).toInt, clientId⟩, buf)

/-! ## Shapes -/

/-- The fields of a body, in the order they are read: integers of a width in bytes, primitives,
tagged fields, and arrays of elements of a size in memory. -/
inductive Shape where
  | done
  | int (width : Nat) (rest : Shape)
  | text (p : Primitive) (rest : Shape)
  | tagged (rest : Shape)
  | array (form : ArrayForm) (size : Nat) (element rest : Shape)
  | peeked (size : Nat) (element rest : Shape)

/-- A count is in front that is not negative. -/
def HasArray (buf : Bytes) : Prop := 4 ≤ buf.length ∧ valueBE (buf.take 4) < 2 ^ 31

instance instDecidableHasArray (buf : Bytes) : Decidable (HasArray buf) :=
  inferInstanceAs (Decidable (4 ≤ buf.length ∧ valueBE (buf.take 4) < 2 ^ 31))

/-- An array that is parsed if its count is in front, and else four bytes that are consumed as the
count of no array. -/
def parsePeeked {α : Type} (parseElement : Bytes → Outcome KafkaError (α × Bytes)) (size : Nat) (buf : Bytes) :
    Outcome KafkaError (List α × Bytes) :=
  if HasArray buf then parseArray parseElement size buf else (getBE 4 buf).map fun (_, buf) => ([], buf)

namespace Shape

/-- What is read. -/
def Value : Shape → Type
  | .done => Unit
  | .int width rest => BitVec (8 * width) × rest.Value
  | .text _ rest => Option Bytes × rest.Value
  | .tagged rest => rest.Value
  | .array _ _ element rest => List element.Value × rest.Value
  | .peeked _ element rest => List element.Value × rest.Value

def read : (s : Shape) → Bytes → Outcome KafkaError (s.Value × Bytes)
  | .done, buf => .ok ((), buf)
  | .int width rest, buf => do
    let (bits, buf) ← getBE width buf
    let (behind, buf) ← rest.read buf
    .ok ((BitVec.ofNat (8 * width) bits, behind), buf)
  | .text p rest, buf => do
    let (value, buf) ← p.parse buf
    let (behind, buf) ← rest.read buf
    .ok ((value, behind), buf)
  | .tagged rest, buf => do
    let buf ← skipTaggedFields buf
    rest.read buf
  | .array form size element rest, buf => do
    let (elements, buf) ← form.parse element.read size buf
    let (behind, buf) ← rest.read buf
    .ok ((elements, behind), buf)
  | .peeked size element rest, buf => do
    let (elements, buf) ← parsePeeked element.read size buf
    let (behind, buf) ← rest.read buf
    .ok ((elements, behind), buf)

end Shape

open Shape

/-! ## What the parser relies on -/

/-- A value lies in front, as long as announced. -/
def Primitive.Spans (p : Primitive) (buf behind : Bytes) : Prop :=
  ∃ length after, p.length.read p.what buf = .ok (length, after) ∧ (p.nullable = false → length ≠ none) ∧
    length.getD 0 ≤ after.length ∧ (p.text = true → utf8Error 0 (after.take (length.getD 0)) = none) ∧
      behind = after.drop (length.getD 0)

/-- So many tagged fields lie in front, each as long as announced. -/
def FieldsSpan : (count : Nat) → Bytes → Bytes → Prop
  | 0, buf, behind => behind = buf
  | count + 1, buf, behind => ∃ tag after size sized, parseUnsignedVarint buf = .ok (tag, after) ∧
      parseUnsignedVarint after = .ok (size, sized) ∧ size ≤ sized.length ∧ FieldsSpan count (sized.drop size) behind

def TaggedSpan (buf behind : Bytes) : Prop := ∃ count after, parseUnsignedVarint buf = .ok (count, after) ∧ FieldsSpan count after behind

/-- So many elements one behind the other. -/
def SuppliedElements (supplied : Bytes → (Bytes → Prop) → Prop) : (count : Nat) → Bytes → (Bytes → Prop) → Prop
  | 0, buf, followed => followed buf
  | count + 1, buf, followed => supplied buf fun behind => SuppliedElements supplied count behind followed

/-- The elements announced fit an allocation, and are supplied. -/
def SuppliedArray (form : ArrayForm) (size : Nat) (supplied : Bytes → (Bytes → Prop) → Prop) (buf : Bytes) (followed : Bytes → Prop) : Prop :=
  ∀ count after, form.count.read "array" buf = .ok (count, after) →
    size * count.getD 0 ≤ isizeMax ∧ SuppliedElements supplied (count.getD 0) after followed

/-- Whatever the parser of the shape gets to without looking is there: the bytes of each integer behind what is
announced before it, and memory for each array. What is left at the end is as `followed` says. -/
def Shape.Supplied : Shape → Bytes → (followed : Bytes → Prop) → Prop
  | .done, buf, followed => followed buf
  | .int width rest, buf, followed => width ≤ buf.length ∧ rest.Supplied (buf.drop width) followed
  | .text p rest, buf, followed => ∀ behind, p.Spans buf behind → rest.Supplied behind followed
  | .tagged rest, buf, followed => ∀ behind, TaggedSpan buf behind → rest.Supplied behind followed
  | .array form size element rest, buf, followed =>
    SuppliedArray form size element.Supplied buf fun behind => rest.Supplied behind followed
  | .peeked size element rest, buf, followed =>
    if HasArray buf then SuppliedArray .array size element.Supplied buf fun behind => rest.Supplied behind followed
    else 4 ≤ buf.length ∧ rest.Supplied (buf.drop 4) followed

/-! ## The handlers -/

/-- The API keys of the handlers. -/
inductive Api where
  | listOffsets
  | offsetCommit
  | offsetFetch
  | initProducerId
  | addPartitionsToTxn
  | addOffsetsToTxn
  | endTxn
  | txnOffsetCommit

/-- `ApiKey::from_i16`, for these. -/
def Api.fromI16 : Int → Option Api
  | 2 => some .listOffsets
  | 8 => some .offsetCommit
  | 9 => some .offsetFetch
  | 22 => some .initProducerId
  | 24 => some .addPartitionsToTxn
  | 25 => some .addOffsetsToTxn
  | 26 => some .endTxn
  | 28 => some .txnOffsetCommit
  | _ => none

/-- `max_version` of `supported_api_versions`; `min_version` is 0. -/
def Api.maxVersion : Api → Int
  | .listOffsets => 7
  | .offsetCommit => 8
  | .offsetFetch => 8
  | .initProducerId | .addPartitionsToTxn | .addOffsetsToTxn | .endTxn | .txnOffsetCommit => 3

/-- `size_of` of a topic's name with a vector. -/
def topicSize : Nat := 48

namespace Shape

/-- Topics with partitions, an array of arrays. -/
def topics (size : Nat) (partition rest : Shape) : Shape :=
  .array .array topicSize (.text .string <| .array .array size partition .done) rest

/-- Topics with partitions as compact arrays, tagged fields behind each. -/
def compactTopics (size : Nat) (partition rest : Shape) : Shape :=
  .array .compactArray topicSize (.text .compactString <| .array .compactArray size partition <| .tagged .done) rest

variable (apiVersion : Int)

/-- The parsing of `handle_list_offsets`. -/
def listOffsets : Shape :=
  if 6 ≤ apiVersion then .int 4 <| .int 1 <| compactTopics 16 (.int 4 <| .int 4 <| .int 8 <| .tagged .done) .done
  else
    let partition := .int 4 <| if 4 ≤ apiVersion then .int 4 <| .int 8 .done else .int 8 .done
    .int 4 <| if 2 ≤ apiVersion then .int 1 <| topics 16 partition .done else topics 16 partition .done

/-- A partition of `handle_offset_commit` before version 8. -/
def offsetCommitPartition : Shape :=
  let metadata := .text .nullableString .done
  let timestamp := if apiVersion = 1 then .int 8 metadata else metadata
  .int 4 <| .int 8 <| if 6 ≤ apiVersion then .int 4 timestamp else timestamp

/-- The parsing of `handle_offset_commit`. -/
def offsetCommit : Shape :=
  if 8 ≤ apiVersion then
    .text .compactString <| .int 4 <| .text .compactString <| .text .compactNullableString <|
      compactTopics 40 (.int 4 <| .int 8 <| .int 4 <| .text .compactNullableString <| .tagged .done) <| .tagged .done
  else
    let topics := topics 40 (offsetCommitPartition apiVersion) .done
    let groupInstanceId := if 7 ≤ apiVersion then .text .nullableString topics else topics
    let retentionTime := if 2 ≤ apiVersion ∧ apiVersion ≤ 4 then .int 8 groupInstanceId else groupInstanceId
    .text .string <| if 1 ≤ apiVersion then .int 4 <| .text .string retentionTime else retentionTime

/-- The parsing of `handle_offset_fetch`. -/
def offsetFetch : Shape :=
  let compact := compactTopics 4 (.int 4 <| .tagged .done)
  if 8 ≤ apiVersion then
    .array .compactArray topicSize (.text .compactString <| compact <| .tagged .done) <| .int 1 <| .tagged .done
  else if 6 ≤ apiVersion then
    .text .compactString <| compact <| if 7 ≤ apiVersion then .int 1 <| .tagged .done else .tagged .done
  else if 2 ≤ apiVersion then
    .text .string <| .peeked topicSize (.text .string <| .array .array 4 (.int 4 .done) .done) .done
  else .text .string <| topics 4 (.int 4 .done) .done

/-- The parsing of `handle_init_producer_id`. -/
def initProducerId : Shape :=
  if 3 ≤ apiVersion then .text .compactNullableString <| .int 4 <| .tagged .done
  else .text .nullableString <| .int 4 .done

/-- The parsing of `handle_add_partitions_to_txn`. -/
def addPartitionsToTxn : Shape :=
  if 3 ≤ apiVersion then
    .text .compactString <| .int 8 <| .int 2 <| compactTopics 4 (.int 4 <| .tagged .done) <| .tagged .done
  else .text .string <| .int 8 <| .int 2 <| topics 4 (.int 4 .done) .done

/-- The parsing of `handle_add_offsets_to_txn`. -/
def addOffsetsToTxn : Shape :=
  if 3 ≤ apiVersion then .text .compactString <| .int 8 <| .int 2 <| .text .compactString <| .tagged .done
  else .text .string <| .int 8 <| .int 2 <| .text .string .done

/-- The parsing of `handle_end_txn`. -/
def endTxn : Shape :=
  if 3 ≤ apiVersion then .text .compactString <| .int 8 <| .int 2 <| .int 1 <| .tagged .done
  else .text .string <| .int 8 <| .int 2 <| .int 1 .done

/-- A partition of `handle_txn_offset_commit`, by the primitive of its metadata. -/
def txnOffsetCommitPartition (metadata : Shape) : Shape :=
  .int 4 <| .int 8 <| if 2 ≤ apiVersion then .int 4 metadata else metadata

/-- The parsing of `handle_txn_offset_commit`. -/
def txnOffsetCommit : Shape :=
  if 3 ≤ apiVersion then
    .text .compactString <| .text .compactString <| .int 8 <| .int 2 <|
      compactTopics 40 (txnOffsetCommitPartition apiVersion <| .text .compactNullableString <| .tagged .done) <| .tagged .done
  else
    .text .string <| .text .string <| .int 8 <| .int 2 <|
      topics 40 (txnOffsetCommitPartition apiVersion <| .text .nullableString .done) .done

end Shape

def Api.body (apiVersion : Int) : Api → Shape
  | .listOffsets => .listOffsets apiVersion
  | .offsetCommit => .offsetCommit apiVersion
  | .offsetFetch => .offsetFetch apiVersion
  | .initProducerId => .initProducerId apiVersion
  | .addPartitionsToTxn => .addPartitionsToTxn apiVersion
  | .addOffsetsToTxn => .addOffsetsToTxn apiVersion
  | .endTxn => .endTxn apiVersion
  | .txnOffsetCommit => .txnOffsetCommit apiVersion

/-- The frame is a request of a supported version to one of the handlers, with this body. -/
structure IsRequest (frame : Bytes) (api : Api) (apiVersion : Int) (body : Bytes) : Prop where
  header : ∃ header, RequestHeader.parse frame = .ok (header, body) ∧ Api.fromI16 header.apiKey = some api ∧
    header.apiVersion = apiVersion
  supported : 0 ≤ apiVersion ∧ apiVersion ≤ api.maxVersion

/-- Header and body are parsed to an end. -/
structure ParsesRequest (frame : Bytes) : Prop where
  header : Total (RequestHeader.parse frame)
  body : ∀ api apiVersion body, IsRequest frame api apiVersion body → Total ((api.body apiVersion).read body)

/-! ## Headers end -/

theorem total_skipFields (count : Nat) (buf : Bytes) : Total (skipFields count buf) := by
  induction count generalizing buf with
  | zero => exact total_ok _
  | succ count ih =>
    rw [skipFields, total_bind]
    refine ⟨Lib.total_of _, fun tag _ => total_bind.mpr ⟨Lib.total_of _, fun sized _ => ?_⟩⟩
    dsimp only
    split
    · exact total_error _
    · next enough =>
      rw [total_copyToSlice_bind]
      exact ⟨by omega, ih _⟩

theorem total_skipTaggedFields (buf : Bytes) : Total (skipTaggedFields buf) :=
  total_bind.mpr ⟨Lib.total_of _, fun _ _ => total_skipFields _ _⟩

theorem total_parseClientId (flexible : Bool) (buf : Bytes) : Total (parseClientId flexible buf) := by
  unfold parseClientId
  split
  · refine total_bind.mpr ⟨total_parseNullable buf, fun _ _ => ?_⟩
    exact total_bind.mpr ⟨total_skipTaggedFields _, fun _ _ => total_ok _⟩
  · exact total_parseNullable buf

/-- Behind the check of its length a header has its integers. -/
theorem total_parseHeader (frame : Bytes) : Total (RequestHeader.parse frame) := by
  unfold RequestHeader.parse
  split
  · exact total_error _
  · next enough =>
    simp only [total_getBE_bind, List.length_drop]
    refine ⟨by omega, by omega, by omega, ?_⟩
    exact total_bind.mpr ⟨total_parseClientId _ _, fun _ _ => total_ok _⟩

/-! ## What is announced is what is read -/

section

variable {buf behind : Bytes}

theorem Primitive.present_of_parse {p : Primitive} {value : Option Bytes} (read : p.parse buf = .ok (value, behind))
    (never : p.nullable = false) : value ≠ none := by
  have named {o : Outcome KafkaError (Bytes × Bytes)} (done : o.map (fun found => (some found.1, found.2)) = .ok (value, behind)) :
      value ≠ none := by
    cases o with
    | error fault => cases done
    | ok found =>
      obtain ⟨rfl, -⟩ := Prod.mk.inj (Except.ok.inj done)
      exact Option.some_ne_none _
  cases p with
  | string => exact named read
  | compactString => exact named read
  | _ => cases never

/-- What is parsed is what spans. -/
theorem Primitive.parses_iff {p : Primitive} : (∃ value, p.parse buf = .ok (value, behind)) ↔ p.Spans buf behind := by
  constructor
  · rintro ⟨value, read⟩
    have present := present_of_parse read
    obtain ⟨⟨length, after⟩, isLength, sized⟩ := bind_ok ((parse_ok present).mp read)
    obtain ⟨spans, rfl⟩ := parseSized_ok_iff.mp sized
    exact ⟨length, after, isLength, fun never missing => present never (by rw [missing]; rfl), spans⟩
  · rintro ⟨length, after, isLength, present, spans⟩
    refine ⟨length.map fun n => after.take n, (parse_ok fun never => ?_).mpr ?_⟩
    · rw [ne_eq, Option.map_eq_none_iff]
      exact present never
    · rw [parseNullable, isLength, ok_bind]
      exact parseSized_ok_iff.mpr ⟨spans, rfl⟩

theorem skipFields_ok_iff {count : Nat} : skipFields count buf = .ok behind ↔ FieldsSpan count buf behind := by
  induction count generalizing buf with
  | zero => exact ⟨fun read => (Except.ok.inj read).symm, fun same => congrArg Except.ok same.symm⟩
  | succ count ih =>
    rw [skipFields]
    constructor
    · intro read
      obtain ⟨⟨tag, after⟩, isTag, read⟩ := bind_ok read
      obtain ⟨⟨size, sized⟩, isSize, read⟩ := bind_ok read
      dsimp only at read
      split at read
      · cases read
      · next enough =>
        rw [copyToSlice, if_pos (Nat.not_lt.mp enough), ok_bind] at read
        exact ⟨tag, after, size, sized, isTag, isSize, Nat.not_lt.mp enough, ih.mp read⟩
    · rintro ⟨tag, after, size, sized, isTag, isSize, enough, spans⟩
      rw [isTag, ok_bind]
      dsimp only
      rw [isSize, ok_bind]
      dsimp only
      rw [if_neg (Nat.not_lt.mpr enough), copyToSlice, if_pos enough, ok_bind]
      exact ih.mpr spans

theorem skipTaggedFields_ok_iff : skipTaggedFields buf = .ok behind ↔ TaggedSpan buf behind := by
  constructor
  · intro read
    obtain ⟨⟨count, after⟩, isCount, read⟩ := bind_ok read
    exact ⟨count, after, isCount, skipFields_ok_iff.mp read⟩
  · rintro ⟨count, after, isCount, spans⟩
    rw [skipTaggedFields, isCount, ok_bind]
    exact skipFields_ok_iff.mpr spans

end

/-! ## Bodies end where everything is supplied -/

section

variable {α β : Type} {o : Outcome KafkaError (α × Bytes)} {followed : Bytes → Prop} {buf : Bytes}

/-- It ends, and what is left behind a value is as `followed` says. -/
def Ends (o : Outcome KafkaError (α × Bytes)) (followed : Bytes → Prop) : Prop :=
  Total o ∧ ∀ value behind, o = .ok (value, behind) → followed behind

theorem ends_ok {value : α} : Ends (.ok (value, buf)) followed ↔ followed buf := by
  constructor
  · exact fun ends => ends.2 value buf rfl
  · intro here
    refine ⟨total_ok _, fun _ _ same => ?_⟩
    obtain ⟨-, rfl⟩ := Prod.mk.inj (Except.ok.inj same)
    exact here

theorem ends_bind {first : Outcome KafkaError β} {next : β → Outcome KafkaError (α × Bytes)} :
    Ends (first >>= next) followed ↔ Total first ∧ ∀ found, first = .ok found → Ends (next found) followed := by
  constructor
  · rintro ⟨total, left⟩
    obtain ⟨starts, goesOn⟩ := total_bind.mp total
    exact ⟨starts, fun found isFound => ⟨goesOn found isFound, fun value behind read => left value behind (by rw [isFound, ok_bind, read])⟩⟩
  · rintro ⟨starts, goesOn⟩
    refine ⟨total_bind.mpr ⟨starts, fun found isFound => (goesOn found isFound).1⟩, fun value behind read => ?_⟩
    obtain ⟨found, isFound, read⟩ := bind_ok read
    exact (goesOn found isFound).2 value behind read

/-- Two things are read one behind the other. -/
theorem ends_pair {γ : Type} {later : Bytes → Outcome KafkaError (β × Bytes)} (pack : α → β → γ) :
    Ends (o >>= fun x => later x.2 >>= fun y => .ok (pack x.1 y.1, y.2)) followed ↔ Ends o fun behind => Ends (later behind) followed := by
  simp only [ends_bind, ends_ok, Prod.forall]
  rfl

theorem ends_getBE {width : Nat} : Ends (getBE width buf) followed ↔ width ≤ buf.length ∧ followed (buf.drop width) := by
  rw [Ends, total_getBE]
  refine and_congr_right fun enough => ?_
  rw [getBE, if_pos enough]
  exact ⟨fun left => left _ _ rfl, fun here _ _ same => (Prod.mk.inj (Except.ok.inj same)).2 ▸ here⟩

theorem ends_parse {p : Primitive} : Ends (p.parse buf) followed ↔ ∀ behind, p.Spans buf behind → followed behind := by
  rw [Ends, and_iff_right (total_parse p buf), forall_comm]
  simp only [← parses_iff, forall_exists_index]

variable {parseElement : Bytes → Outcome KafkaError (α × Bytes)} {supplied : Bytes → (Bytes → Prop) → Prop}
  (each : ∀ buf followed, Ends (parseElement buf) followed ↔ supplied buf followed)
include each

theorem ends_elements {count : Nat} :
    Ends (parseElements parseElement count buf) followed ↔ SuppliedElements supplied count buf followed := by
  induction count generalizing buf with
  | zero => exact ends_ok
  | succ count ih =>
    refine (ends_pair List.cons).trans ?_
    simp only [ih, each]
    rfl

theorem ends_array {form : ArrayForm} {size : Nat} :
    Ends (form.parse parseElement size buf) followed ↔ SuppliedArray form size supplied buf followed := by
  refine ends_bind.trans ?_
  rw [and_iff_right (form.count.total_read buf), Prod.forall]
  refine forall_congr' fun count => forall_congr' fun after => imp_congr_right fun _ => ?_
  cases count with
  | none => exact ends_ok.trans (and_iff_right (Nat.zero_le _)).symm
  | some count =>
    refine ends_bind.trans ?_
    rw [total_withCapacity]
    refine and_congr_right fun fits => ?_
    rw [withCapacity_of_le fits]
    exact ⟨fun ends => (ends_elements each).mp (ends () rfl), fun inside _ _ => (ends_elements each).mpr inside⟩

theorem ends_peeked {size : Nat} : Ends (parsePeeked parseElement size buf) followed ↔
    if HasArray buf then SuppliedArray .array size supplied buf followed else 4 ≤ buf.length ∧ followed (buf.drop 4) := by
  unfold parsePeeked
  split
  · exact ends_array each
  · rw [← ends_getBE, Ends, Ends, total_map]
    refine and_congr_right fun _ => ?_
    constructor
    · exact fun left bits behind read => left [] behind (by rw [read]; rfl)
    · intro left elements behind read
      cases found : @getBE KafkaError 4 buf with
      | error fault => rw [found] at read; cases read
      | ok pair =>
        rw [found] at read
        obtain ⟨-, rfl⟩ := Prod.mk.inj (Except.ok.inj read)
        exact left pair.1 pair.2 found

end

/-- **A body is parsed to an end exactly if everything the parser gets to is supplied.** -/
theorem Shape.ends_read (s : Shape) (buf : Bytes) (followed : Bytes → Prop) : Ends (s.read buf) followed ↔ s.Supplied buf followed := by
  induction s generalizing buf followed with
  | done => exact ends_ok
  | int width rest ih =>
    refine (ends_pair fun bits value => (BitVec.ofNat (8 * width) bits, value)).trans ?_
    exact ends_getBE.trans (and_congr_right fun _ => ih _ _)
  | text p rest ih => exact (ends_pair _).trans (ends_parse.trans (forall₂_congr fun _ _ => ih _ _))
  | tagged rest ih =>
    refine ends_bind.trans ?_
    rw [and_iff_right (total_skipTaggedFields buf)]
    exact forall_congr' fun behind => imp_congr skipTaggedFields_ok_iff (ih behind followed)
  | array form size element rest ihElement ih =>
    refine (ends_pair _).trans ((ends_array ihElement).trans ?_)
    simp only [ih]
    rfl
  | peeked size element rest ihElement ih =>
    refine (ends_pair _).trans ((ends_peeked ihElement).trans ?_)
    simp only [ih]
    rfl

theorem Shape.total_read (s : Shape) (buf : Bytes) : Total (s.read buf) ↔ s.Supplied buf fun _ => True :=
  (and_iff_left fun _ _ _ => trivial).symm.trans (s.ends_read buf fun _ => True)

/-- **A request is parsed to an end exactly if it holds what the parser of its body gets to**: at each integer
that many bytes are left, and each array announces no more elements than an allocation holds. -/
theorem parsesRequest_iff (frame : Bytes) :
    ParsesRequest frame ↔ ∀ api apiVersion body, IsRequest frame api apiVersion body →
      (api.body apiVersion).Supplied body fun _ => True := by
  constructor
  · intro parses api apiVersion body request
    exact (total_read _ body).mp (parses.body api apiVersion body request)
  · intro met
    exact ⟨total_parseHeader frame, fun api apiVersion body request => (total_read _ body).mpr (met api apiVersion body request)⟩

namespace Example

/-- An `EndTxn` of version 0 that ends behind the transactional id. -/
def cutEndTxn : Bytes := [0, 26, 0, 0, 0, 0, 0, 1, 0xff, 0xff, 0, 1, 116]

end Example

/-- The producer id is read past the end of the frame. -/
theorem cutEndTxn_panics : ¬ ParsesRequest Example.cutEndTxn := by
  intro parses
  have header : RequestHeader.parse Example.cutEndTxn = .ok (⟨26, 0, 1, none⟩, [0, 1, 116]) := by decide +kernel
  have request : IsRequest Example.cutEndTxn .endTxn 0 [0, 1, 116] :=
    ⟨⟨_, header, rfl, rfl⟩, by decide, by decide⟩
  have id_ : string.Spans [0, 1, 116] [] := ⟨some 1, [116], by decide +kernel, by decide, by decide, by decide +kernel, rfl⟩
  have room : 8 ≤ 0 := ((total_read _ _).mp (parses.body .endTxn 0 _ request) [] id_).1
  omega

end StreamHouse.Kafka
