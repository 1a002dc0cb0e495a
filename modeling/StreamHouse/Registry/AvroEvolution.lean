import Mathlib.Data.List.Nodup
import StreamHouse.Registry.Compatibility

/-!
# Evolution of Avro records

What a reader needs to resolve a datum that was written under another record schema, and
when an accepted schema has it. The check is given the existing schema as the reader, so it
asks for what forward compatibility needs where backward compatibility was to be checked.
-/

namespace StreamHouse.Registry

open List AvroType RecordSchema AvroSchema

/-! ## Schema resolution -/

/-- The types a value may be written with for a reader of the other. -/
def promotes : AvroPrimitive → AvroPrimitive → Bool
  | .int, .long => true
  | .int, .float => true
  | .int, .double => true
  | .long, .float => true
  | .long, .double => true
  | .float, .double => true
  | .string, .bytes => true
  | .bytes, .string => true
  | writer, reader => writer = reader

@[simp] theorem promotes_self (p : AvroPrimitive) : promotes p p = true := by
  cases p <;> rfl

section Resolution

variable {Value : AvroPrimitive → Type}

/-- A record as it was written: its fields in order, each with a value of its type. -/
abbrev Datum (Value : AvroPrimitive → Type) := List (String × (p : AvroPrimitive) × Value p)

def WrittenUnder (writer : RecordSchema) (d : Datum Value) : Prop :=
  d.map (fun v => (v.1, primitive v.2.1)) = writer.fields.map fun f => (f.name, f.type)

/-- How a reader makes its values: from a written one, or from the JSON of a default. -/
structure Conversions (Value : AvroPrimitive → Type) where
  promote : ∀ writer reader, promotes writer reader = true → Value writer → Value reader
  fromDefault : String → ∀ p, Value p

/-- A field of the reader: the written value, promoted, or the default. -/
def resolveField (c : Conversions Value) (d : Datum Value) (f : AvroField) : Option ((p : AvroPrimitive) × Value p) :=
  match f.type with
  | .complex _ => none
  | .primitive p =>
    match d.find? fun v => v.1 = f.name with
    | some v => if can : promotes v.2.1 p = true then some ⟨p, c.promote v.2.1 p can v.2.2⟩ else none
    | none => f.default.map fun text => ⟨p, c.fromDefault text p⟩

/-- A datum as a reader of another schema gets it. -/
def resolve (c : Conversions Value) (reader : RecordSchema) (d : Datum Value) : Option (List ((p : AvroPrimitive) × Value p)) :=
  reader.fields.mapM (resolveField c d)

/-- Every datum written under the one schema is resolved by a reader of the other. -/
def CanRead (c : Conversions Value) (reader writer : RecordSchema) : Prop :=
  ∀ d, WrittenUnder writer d → (resolve c reader d).isSome = true

end Resolution

/-- The fields have primitive types. -/
def RecordSchema.Primitive (r : RecordSchema) : Prop := ∀ f ∈ r.fields, ∃ p, f.type = .primitive p

/-! ## What the check mistakes -/

/-- The one type is `int` or `float`, the other the wider `long` or `double`. -/
def widens : AvroType → AvroType → Bool
  | .primitive .int, .primitive .long => true
  | .primitive .float, .primitive .double => true
  | _, _ => false

/-- The field goes through when `other` follows: it has a default, keeps its type, or is narrowed. -/
def fieldPasses (other : RecordSchema) (f : AvroField) : Bool :=
  match other.field f.name with
  | some g => decide (g.type = f.type ∧ f.type ≠ .primitive .null) || widens g.type f.type
  | none => f.default.isSome

/-- The field is new and has no default, or narrower than before. -/
def fieldLost (other : RecordSchema) (f : AvroField) : Bool :=
  match other.field f.name with
  | some g => widens f.type g.type
  | none => f.default.isNone

/-- `b` is let through after `a` though a reader of `b` cannot read what was written under `a`. -/
structure Reversed (a b : RecordSchema) : Prop where
  named : a.name = b.name
  passes : a.fields.all (fieldPasses b) = true
  lost : b.fields.any (fieldLost a) = true

instance (a b : RecordSchema) : Decidable (Reversed a b) :=
  decidable_of_iff (a.name = b.name ∧ a.fields.all (fieldPasses b) = true ∧ b.fields.any (fieldLost a) = true)
    ⟨fun h => ⟨h.1, h.2.1, h.2.2⟩, fun h => ⟨h.named, h.passes, h.lost⟩⟩

/-! ## Fields by name -/

variable {f : AvroField} {writer b : RecordSchema}

variable {Value : AvroPrimitive → Type}

theorem RecordSchema.field_mem {r : RecordSchema} {name : String} (found : r.field name = some f) :
    f ∈ r.fields ∧ f.name = name := by
  rw [field] at found
  have named := find?_some found
  exact ⟨mem_of_find?_eq_some found, of_decide_eq_true named⟩

/-- No other field has the name. -/
theorem RecordSchema.field_of_mem {r : RecordSchema} (inside : f ∈ r.fields) : r.field f.name = some f := by
  cases found : r.field f.name with
  | none =>
    have absent := find?_eq_none.mp found f inside
    simp at absent
  | some g =>
    obtain ⟨isField, named⟩ := field_mem found
    rw [inj_on_of_nodup_map r.distinct isField inside named]

/-- A datum has the writer's field of a name. -/
theorem find_of_written {d : Datum Value} (written : WrittenUnder writer d)
    (name : String) : (d.find? fun v => v.1 = name).map (fun v => primitive v.2.1) = (writer.field name).map AvroField.type := by
  have both := congrArg (fun l : List (String × AvroType) => (l.find? fun v => v.1 = name).map Prod.snd) written
  simp only [find?_map, Option.map_map] at both
  exact both

/-- Something can be written under every schema with primitive fields. -/
theorem exists_written [∀ p, Inhabited (Value p)] (primitive : writer.Primitive) :
    ∃ d : Datum Value, WrittenUnder writer d := by
  have each : ∀ fields : List AvroField, (∀ f ∈ fields, ∃ p, f.type = .primitive p) →
      ∃ d : Datum Value, d.map (fun v => (v.1, AvroType.primitive v.2.1)) = fields.map fun f => (f.name, f.type) := by
    intro fields
    induction fields with
    | nil => exact fun _ => ⟨[], rfl⟩
    | cons f fields ih =>
      intro all
      obtain ⟨p, isPrimitive⟩ := all f mem_cons_self
      obtain ⟨d, rest⟩ := ih fun g inside => all g (mem_cons_of_mem f inside)
      exact ⟨(f.name, ⟨p, default⟩) :: d, by rw [map_cons, map_cons, rest, isPrimitive]⟩
  exact each writer.fields primitive

theorem mapM_isSome {α β : Type} {f : α → Option β} {as : List α} : (as.mapM f).isSome = true ↔ ∀ a ∈ as, (f a).isSome = true := by
  induction as with
  | nil => simp
  | cons a as ih =>
    rw [mapM_cons, forall_mem_cons, ← ih]
    cases f a with
    | none => simp
    | some b => cases as.mapM f <;> simp

/-! ## What a reader needs -/

/-- The field of a reader finds a value that can be promoted, or has a default. -/
def Readable (writer : RecordSchema) (f : AvroField) : Prop :=
  match writer.field f.name with
  | some g => ∃ p q, g.type = .primitive p ∧ f.type = .primitive q ∧ promotes p q = true
  | none => f.default.isSome = true

/-- A reader resolves everything exactly if each of its fields is there with a type that is
promoted to its own, or has a default. -/
theorem canRead_iff [∀ p, Inhabited (Value p)] (c : Conversions Value) {reader : RecordSchema}
    (primitiveReader : reader.Primitive) (primitiveWriter : writer.Primitive) :
    CanRead c reader writer ↔ ∀ f ∈ reader.fields, Readable writer f := by
  have field : ∀ d : Datum Value, WrittenUnder writer d → ∀ f ∈ reader.fields,
      ((resolveField c d f).isSome = true ↔ Readable writer f) := by
    intro d written f inside
    obtain ⟨q, isPrimitive⟩ := primitiveReader f inside
    have same := find_of_written written f.name
    rw [resolveField, Readable, isPrimitive]
    cases found : writer.field f.name with
    | none =>
      rw [found, Option.map_none, Option.map_eq_none_iff] at same
      simp only [same, Option.isSome_map]
    | some g =>
      rw [found, Option.map_some, Option.map_eq_some_iff] at same
      obtain ⟨v, there, typed⟩ := same
      simp only [there]
      constructor
      · intro resolved
        split at resolved
        · next can => exact ⟨v.2.1, q, typed.symm, rfl, can⟩
        · cases resolved
      · rintro ⟨p, q', isP, isQ, can⟩
        rw [← typed] at isP
        obtain rfl := primitive.inj isP
        obtain rfl := primitive.inj isQ
        rw [dif_pos can]
        rfl
  constructor
  · intro reads f inside
    obtain ⟨d, written⟩ : ∃ d : Datum Value, WrittenUnder writer d := exists_written primitiveWriter
    exact (field d written f inside).mp (mapM_isSome.mp (reads d written) f inside)
  · intro readable d written
    exact mapM_isSome.mpr fun f inside => (field d written f inside).mpr (readable f inside)

/-! ## What the check asks for -/

theorem schemasCompatible_iff {s t : AvroType} (primitiveS : ∃ p, s = .primitive p) (primitiveT : ∃ p, t = .primitive p) :
    schemasCompatible s t = (decide (t = s ∧ s ≠ .primitive .null) || widens t s) := by
  obtain ⟨p, rfl⟩ := primitiveS
  obtain ⟨q, rfl⟩ := primitiveT
  cases p <;> cases q <;> rfl

theorem readerFieldCompatible_eq {a : RecordSchema} (primitiveA : a.Primitive) (primitiveB : b.Primitive) (inside : f ∈ a.fields) : readerFieldCompatible b f = fieldPasses b f := by
  rw [readerFieldCompatible, fieldPasses]
  cases found : b.field f.name with
  | none => rfl
  | some g => exact schemasCompatible_iff (primitiveA f inside) (primitiveB g (field_mem found).1)

/-- The check lets a record follow another if they are the same, or all fields of the first go through. -/
theorem checkAvro_record {a : RecordSchema} (primitiveA : a.Primitive) (primitiveB : b.Primitive) :
    checkAvroBackwardCompatible same (.record a) (.record b) = .ok true ↔
      (record a).same (.record b) = true ∨ (a.name = b.name ∧ a.fields.all (fieldPasses b) = true) := by
  have all : a.fields.all (readerFieldCompatible b) = a.fields.all (fieldPasses b) := by
    rw [Bool.eq_iff_iff, all_eq_true, all_eq_true]
    exact forall₂_congr fun f inside => by rw [readerFieldCompatible_eq primitiveA primitiveB inside]
  rw [checkAvroBackwardCompatible]
  by_cases same : (record a).same (.record b) = true
  · rw [if_pos same]
    exact iff_of_true rfl (.inl same)
  · rw [if_neg same, or_iff_right same]
    by_cases named : a.name = b.name
    · rw [if_neg (not_not.mpr named), all]
      exact ⟨fun passes => ⟨named, Except.ok.inj passes⟩, fun both => by rw [both.2]⟩
    · rw [if_pos named]
      exact iff_of_false (fun no => nomatch no) fun both => named both.1

/-- Records with the same fields read each other. -/
theorem readable_of_same {a : RecordSchema} (primitiveA : a.Primitive) (same : (record a).same (.record b) = true) :
    ∀ f ∈ b.fields, Readable a f := by
  rw [AvroSchema.same, Bool.and_eq_true, decide_eq_true_eq, decide_eq_true_eq] at same
  intro f inside
  have listed : (f.name, f.type) ∈ a.fields.map fun f => (f.name, f.type) := by
    rw [same.2]
    exact mem_map_of_mem inside
  obtain ⟨g, isField, equal⟩ := mem_map.mp listed
  obtain ⟨named, typed⟩ := Prod.mk.inj equal
  obtain ⟨p, isPrimitive⟩ := primitiveA g isField
  rw [Readable, ← named, field_of_mem isField]
  exact ⟨p, p, isPrimitive, typed ▸ isPrimitive, promotes_self p⟩

theorem promotes_of_widens {p q : AvroPrimitive} (wider : widens (.primitive p) (.primitive q) = true) : promotes q p = false := by
  cases p <;> cases q <;> first | rfl | cases wider

/-- A field that goes through one way and is not lost the other way can be read. -/
theorem readable_iff {a : RecordSchema} (primitiveA : a.Primitive) (primitiveB : b.Primitive)
    (passes : a.fields.all (fieldPasses b) = true) (inside : f ∈ b.fields) :
    Readable a f ↔ fieldLost a f = false := by
  rw [Readable, fieldLost]
  cases found : a.field f.name with
  | none => cases f.default <;> simp
  | some g =>
    obtain ⟨isField, named⟩ := field_mem found
    obtain ⟨p, isP⟩ := primitiveA g isField
    obtain ⟨q, isQ⟩ := primitiveB f inside
    have through := all_eq_true.mp passes g isField
    rw [fieldPasses, named, field_of_mem inside] at through
    simp only [isP, isQ] at through ⊢
    cases wider : widens (.primitive q) (.primitive p) with
    | true =>
      refine iff_of_false ?_ (fun no => nomatch no)
      rintro ⟨p', q', isP', isQ', can⟩
      obtain rfl := primitive.inj isP'
      obtain rfl := primitive.inj isQ'
      rw [promotes_of_widens wider] at can
      cases can
    | false =>
      rw [wider, Bool.or_false, decide_eq_true_eq] at through
      obtain rfl := primitive.inj through.1
      exact iff_of_true ⟨q, q, rfl, rfl, promotes_self q⟩ rfl

/-- **What goes wrong**: a record is let through that cannot read what was written before it
exactly if the two are reversed. -/
theorem sound_iff_not_reversed [∀ p, Inhabited (Value p)] (c : Conversions Value) {a : RecordSchema}
    (primitiveA : a.Primitive) (primitiveB : b.Primitive) :
    (checkAvroBackwardCompatible same (.record a) (.record b) = .ok true → CanRead c b a) ↔ ¬ Reversed a b := by
  rw [checkAvro_record primitiveA primitiveB, canRead_iff c primitiveB primitiveA]
  constructor
  · intro sound reversed
    obtain ⟨f, inside, lost⟩ := any_eq_true.mp reversed.lost
    have readable := sound (.inr ⟨reversed.named, reversed.passes⟩) f inside
    rw [(readable_iff primitiveA primitiveB reversed.passes inside).mp readable] at lost
    cases lost
  · rintro straight (same | ⟨named, passes⟩)
    · exact readable_of_same primitiveA same
    · intro f inside
      rw [readable_iff primitiveA primitiveB passes inside]
      by_contra lost
      exact straight ⟨named, passes, any_eq_true.mpr ⟨f, inside, eq_true_of_ne_false lost⟩⟩

/-! ## The modes -/

section Modes

variable {parsers : Parsers} {existing : Schema} {newSchema : String} {old new : AvroSchema}

/-- With both texts parsed, the mode decides which schema is checked against which. -/
theorem checkCompatibility_avro (compares : parsers.ComparesCanonicalForms) (isAvro : existing.schemaType = .avro)
    (parsedOld : parsers.avro existing.schema = .ok old)
    (parsedNew : parsers.avro newSchema = .ok new) (mode : CompatibilityMode) :
    checkCompatibility parsers existing newSchema .avro mode = checkMode (checkAvroBackwardCompatible same) old new mode := by
  rw [checkCompatibility, if_neg (not_not.mpr isAvro), isAvro]
  have equality : parsers.avroEq = same := funext₂ compares
  simp only [checkAvroCompatibility, parseBoth, parsedOld, parsedNew, equality]
  rfl

theorem checkAvro_ok (a b : AvroSchema) : ∃ verdict, checkAvroBackwardCompatible same a b = .ok verdict := by
  unfold checkAvroBackwardCompatible
  split
  · exact ⟨_, rfl⟩
  · cases a <;> cases b <;> first | exact ⟨_, rfl⟩ | (dsimp only; split <;> exact ⟨_, rfl⟩)

/-- `full` accepts what both directions accept. -/
theorem checkMode_full (a b : AvroSchema) : checkMode (checkAvroBackwardCompatible same) a b .full = .ok true ↔
    checkMode (checkAvroBackwardCompatible same) a b .backward = .ok true ∧ checkMode (checkAvroBackwardCompatible same) a b .forward = .ok true := by
  obtain ⟨backward, isBackward⟩ := checkAvro_ok a b
  obtain ⟨forward, isForward⟩ := checkAvro_ok b a
  simp only [checkMode, isBackward, isForward]
  cases backward <;> cases forward <;> simp [bind, Except.bind]

end Modes

/-- **When Avro evolution is sound**: `backward` accepts only schemas that read the old data,
`forward` only such whose data the old schema reads, and `full` both, exactly if neither
schema is let through reversed. -/
theorem avro_evolution_iff [∀ p, Inhabited (Value p)] (c : Conversions Value) (parsers : Parsers)
    (compares : parsers.ComparesCanonicalForms) (existing : Schema) (newSchema : String) (old new : RecordSchema)
    (isAvro : existing.schemaType = .avro) (parsedOld : parsers.avro existing.schema = .ok (.record old)) (parsedNew : parsers.avro newSchema = .ok (.record new))
    (primitiveOld : old.Primitive) (primitiveNew : new.Primitive) :
    ((checkCompatibility parsers existing newSchema .avro .backward = .ok true → CanRead c new old) ∧
      (checkCompatibility parsers existing newSchema .avro .forward = .ok true → CanRead c old new) ∧
      (checkCompatibility parsers existing newSchema .avro .full = .ok true ↔
        checkCompatibility parsers existing newSchema .avro .backward = .ok true ∧
          checkCompatibility parsers existing newSchema .avro .forward = .ok true)) ↔
      ¬ Reversed old new ∧ ¬ Reversed new old := by
  simp only [checkCompatibility_avro compares isAvro parsedOld parsedNew]
  rw [← sound_iff_not_reversed c primitiveOld primitiveNew, ← sound_iff_not_reversed c primitiveNew primitiveOld, ← and_assoc,
    and_iff_left (checkMode_full _ _)]
  rfl

namespace Example

/-- `User` with a name. -/
def user : RecordSchema := ⟨⟨"User", none⟩, [⟨"name", .primitive .string, none⟩], by decide⟩

def userText : String :=
  "\x7b\"type\":\"record\",\"name\":\"User\",\"fields\":[\x7b\"name\":\"name\",\"type\":\"string\"\x7d]\x7d"

/-- An age is added, with a default. -/
def userWithAge : RecordSchema :=
  ⟨⟨"User", none⟩, [⟨"name", .primitive .string, none⟩, ⟨"age", .primitive .int, some "0"⟩], by decide⟩

def userWithAgeText : String :=
  "\x7b\"type\":\"record\",\"name\":\"User\",\"fields\":[\x7b\"name\":\"name\",\"type\":\"string\"\x7d," ++
    "\x7b\"name\":\"age\",\"type\":\"int\",\"default\":0\x7d]\x7d"

/-- An age is added, without a default. -/
def userWithRequiredAge : RecordSchema :=
  ⟨⟨"User", none⟩, [⟨"name", .primitive .string, none⟩, ⟨"age", .primitive .int, none⟩], by decide⟩

def userWithRequiredAgeText : String :=
  "\x7b\"type\":\"record\",\"name\":\"User\",\"fields\":[\x7b\"name\":\"name\",\"type\":\"string\"\x7d," ++
    "\x7b\"name\":\"age\",\"type\":\"int\"\x7d]\x7d"

/-- The parsers, as far as these schemas go. -/
def parsers : Parsers where
  avro text :=
    if text = userText then .ok (.record user)
    else if text = userWithAgeText then .ok (.record userWithAge)
    else if text = userWithRequiredAgeText then .ok (.record userWithRequiredAge)
    else .error "not a schema"
  avroEq := same
  protobuf _ := .error "not a schema"
  json _ := .error "not a schema"

def registered : Schema := ⟨1, "users-value", 1, .avro, userText⟩

/-- Values that say nothing. -/
def units : Conversions (fun _ => Unit) := ⟨fun _ _ _ _ => (), fun _ _ => ()⟩

theorem user_primitive : user.Primitive := by
  intro f inside
  obtain rfl := mem_singleton.mp inside
  exact ⟨_, rfl⟩

theorem userWithAge_primitive : userWithAge.Primitive := by
  intro f inside
  obtain rfl | rest := mem_cons.mp inside
  · exact ⟨_, rfl⟩
  · obtain rfl := mem_singleton.mp rest
    exact ⟨_, rfl⟩

end Example

open Example

theorem optional_age_accepted :
    checkCompatibility parsers registered userWithAgeText .avro .backward = .ok true := by
  decide

theorem avro_evolution_optional_age :
    checkCompatibility parsers registered userWithAgeText .avro .backward = .ok true ∧
      CanRead units userWithAge user :=
  ⟨optional_age_accepted, ((avro_evolution_iff units parsers (fun _ _ => rfl) registered userWithAgeText user
    userWithAge rfl rfl rfl user_primitive userWithAge_primitive).mpr ⟨by decide, by decide⟩).1 optional_age_accepted⟩

/-- A field without a default is added, and `backward` accepts it. -/
theorem avro_evolution_fails :
    ¬ ∀ (parsers : Parsers) (existing : Schema) (newSchema : String) (old new : RecordSchema),
      parsers.ComparesCanonicalForms → existing.schemaType = .avro →
      parsers.avro existing.schema = .ok (.record old) → parsers.avro newSchema = .ok (.record new) →
        checkCompatibility parsers existing newSchema .avro .backward = .ok true → CanRead units new old := by
  intro sound
  have reads := sound parsers registered userWithRequiredAgeText user userWithRequiredAge (fun _ _ => rfl) rfl rfl rfl
    (by decide) [("name", ⟨.string, ()⟩)] rfl
  revert reads
  decide

end StreamHouse.Registry
