import StreamHouse.Core.Json

/-!
# Schema compatibility

`check_compatibility` of the schema registry for its three formats. The parsers belong to
other packages and are parameters; what they give is modelled as far as the checks read it.
-/

namespace StreamHouse.Registry

open Json

inductive SchemaFormat where
  | avro
  | protobuf
  | json
deriving DecidableEq

inductive CompatibilityMode where
  | backward
  | forward
  | full
  | backwardTransitive
  | forwardTransitive
  | fullTransitive
  | none

/-- The transitive modes, which speak of all previous versions. -/
def CompatibilityMode.isTransitive : CompatibilityMode → Bool
  | .backwardTransitive | .forwardTransitive | .fullTransitive => true
  | _ => false

inductive SchemaError where
  | invalidSchema (message : String)
  | incompatibleSchema (message : String)
deriving DecidableEq

/-- A registered schema, without the references and metadata that no check reads. -/
structure Schema where
  id : Nat
  subject : String
  version : Nat
  schemaType : SchemaFormat
  schema : String
deriving DecidableEq

/-- How the three formats go through the modes: `check` is given the existing schema first
where new schemas are to be backward compatible. -/
def checkMode {α : Type} (check : α → α → Except SchemaError Bool) (existing new : α) : CompatibilityMode → Except SchemaError Bool
  | .backward | .backwardTransitive => check existing new
  | .forward | .forwardTransitive => check new existing
  | .full | .fullTransitive => do
    let backward ← check existing new
    let forward ← check new existing
    .ok (backward && forward)
  | .none => .ok true

/-! ## Avro -/

inductive AvroPrimitive where
  | null
  | boolean
  | int
  | long
  | float
  | double
  | bytes
  | string
deriving DecidableEq

/-- The schema of a field: a primitive one, or any other by its canonical form. -/
inductive AvroType where
  | primitive (p : AvroPrimitive)
  | complex (canonicalForm : String)
deriving DecidableEq

structure AvroName where
  name : String
  namespaceName : Option String
deriving DecidableEq

/-- `Name::fullname`. -/
def AvroName.fullname (n : AvroName) : String :=
  match n.namespaceName with
  | some space => space ++ "." ++ n.name
  | none => n.name

/-- `default` is the JSON text. -/
structure AvroField where
  name : String
  type : AvroType
  default : Option String

/-- A record schema; no two fields have one name. -/
structure RecordSchema where
  name : AvroName
  fields : List AvroField
  distinct : (fields.map AvroField.name).Nodup

/-- `w.fields.iter().find(|f| f.name == name)`. -/
def RecordSchema.field (r : RecordSchema) (name : String) : Option AvroField := r.fields.find? fun f => f.name = name

inductive AvroSchema where
  | plain (type : AvroType)
  | record (r : RecordSchema)

/-- The canonical forms are equal. These have neither defaults nor docs. -/
def AvroSchema.same : AvroSchema → AvroSchema → Bool
  | .plain s, .plain t => s = t
  | .record r, .record w =>
    decide (r.name.fullname = w.name.fullname) &&
      decide (r.fields.map (fun f => (f.name, f.type)) = w.fields.map fun f => (f.name, f.type))
  | _, _ => false

/-- `schemas_compatible`. -/
def schemasCompatible : AvroType → AvroType → Bool
  | .primitive .string, .primitive .string => true
  | .primitive .int, .primitive .int => true
  | .primitive .long, .primitive .long => true
  | .primitive .float, .primitive .float => true
  | .primitive .double, .primitive .double => true
  | .primitive .boolean, .primitive .boolean => true
  | .primitive .bytes, .primitive .bytes => true
  | .primitive .long, .primitive .int => true
  | .primitive .double, .primitive .float => true
  | _, _ => false

/-- One field of the reader in `check_avro_backward_compatible`. -/
def readerFieldCompatible (writer : RecordSchema) (readerField : AvroField) : Bool :=
  match writer.field readerField.name with
  | some writerField => schemasCompatible readerField.type writerField.type
  | none => readerField.default.isSome

/-- `check_avro_backward_compatible`. -/
def checkAvroBackwardCompatible (equal : AvroSchema → AvroSchema → Bool) (readerSchema writerSchema : AvroSchema) :
    Except SchemaError Bool :=
  if equal readerSchema writerSchema then .ok true
  else
    match readerSchema, writerSchema with
    | .record r, .record w => if r.name ≠ w.name then .ok false else .ok (r.fields.all (readerFieldCompatible w))
    | .plain s, .plain t => .ok (schemasCompatible s t)
    | _, _ => .ok false

/-! ## Protobuf -/

/-- `field_descriptor_proto::Type`. -/
inductive ProtobufType where
  | double
  | float
  | int64
  | uint64
  | int32
  | fixed64
  | fixed32
  | bool
  | string
  | group
  | message
  | bytes
  | uint32
  | enum
  | sfixed32
  | sfixed64
  | sint32
  | sint64
deriving DecidableEq

/-- `Type::try_from`. -/
def ProtobufType.tryFrom : Int → Option ProtobufType
  | 1 => some .double
  | 2 => some .float
  | 3 => some .int64
  | 4 => some .uint64
  | 5 => some .int32
  | 6 => some .fixed64
  | 7 => some .fixed32
  | 8 => some .bool
  | 9 => some .string
  | 10 => some .group
  | 11 => some .message
  | 12 => some .bytes
  | 13 => some .uint32
  | 14 => some .enum
  | 15 => some .sfixed32
  | 16 => some .sfixed64
  | 17 => some .sint32
  | 18 => some .sint64
  | _ => none

structure FieldDescriptor where
  number : Option Int
  label : Option Int
  type : Option Int

structure MessageDescriptor where
  name : Option String
  field : List FieldDescriptor

/-- The `message_type` of each file. -/
structure FileDescriptorSet where
  file : List (List MessageDescriptor)

/-- `Label::Required as i32`. -/
def requiredLabel : Int := 2

/-- `writer_fields` and `reader_fields`: a later field of one number takes the earlier one's place. -/
def MessageDescriptor.fieldByNumber (m : MessageDescriptor) (number : Int) : Option FieldDescriptor :=
  (m.field.filter fun f => f.number = some number).getLast?

/-- The keys of that map. -/
def MessageDescriptor.numbers (m : MessageDescriptor) : List Int := m.field.filterMap FieldDescriptor.number

/-- `protobuf_types_compatible`. -/
def protobufTypesCompatible (reader writer : ProtobufType) : Bool :=
  if reader = writer then true
  else
    match reader, writer with
    | .int64, .int32 => true
    | .int64, .sint32 => true
    | .sint64, .sint32 => true
    | .uint64, .uint32 => true
    | .double, .float => true
    | .string, .bytes => true
    | .bytes, .string => true
    | _, _ => false

/-- The types of a field that both have, as far as they are known. -/
def fieldTypesCompatible (reader writer : FieldDescriptor) : Bool :=
  match reader.type.bind ProtobufType.tryFrom, writer.type.bind ProtobufType.tryFrom with
  | some r, some w => protobufTypesCompatible r w
  | _, _ => true

/-- The two loops of `check_protobuf_backward_compatible`. -/
def messagesCompatible (writer reader : MessageDescriptor) : Bool :=
  (reader.numbers.all fun number =>
    match reader.fieldByNumber number with
    | some readerField =>
      match writer.fieldByNumber number with
      | some writerField => fieldTypesCompatible readerField writerField
      | none => decide (readerField.label ≠ some requiredLabel)
    | none => true) &&
  writer.numbers.all fun number =>
    match writer.fieldByNumber number with
    | some writerField => (reader.fieldByNumber number).isSome || decide (writerField.label ≠ some requiredLabel)
    | none => true

/-- `check_protobuf_backward_compatible`: the first messages of the first files are compared. -/
def checkProtobufBackwardCompatible (writer reader : FileDescriptorSet) : Except SchemaError Bool :=
  match writer.file, reader.file with
  | (writerMessage :: _) :: _, (readerMessage :: _) :: _ =>
    if writerMessage.name ≠ readerMessage.name then .ok false else .ok (messagesCompatible writerMessage readerMessage)
  | _, _ => .ok true

/-! ## JSON Schema -/

/-- The strings of `required`. -/
def requiredFields (schema : List (String × Json)) : List String :=
  (((find schema "required").bind asArray).map fun items => items.filterMap asStr).getD []

/-- `json_types_compatible`. -/
def jsonTypesCompatible (oldType newType : Json) : Bool :=
  if oldType.same newType then true
  else
    match oldType.asArray, newType.asArray with
    | some oldTypes, some newTypes => oldTypes.all fun t => newTypes.any fun u => u.same t
    | some oldTypes, none => oldTypes.any fun t => t.same newType
    | none, some newTypes => newTypes.any fun u => u.same oldType
    | none, none =>
      match oldType.asStr, newType.asStr with
      | some "integer", some "number" => true
      | some a, some b => a = b
      | _, _ => false

/-- The comparison of `type` in `check_json_backward_compatible`. -/
def typeKeywordsCompatible (oldSchema newSchema : List (String × Json)) : Bool :=
  match find oldSchema "type", find newSchema "type" with
  | some oldType, some newType => jsonTypesCompatible oldType newType
  | _, _ => true

theorem sizeOf_property (name : String) (property : Json) (rest : List (String × Json)) :
    sizeOf property < sizeOf ((name, property) :: rest) := by
  simp only [List.cons.sizeOf_spec, Prod.mk.sizeOf_spec]
  omega

theorem sizeOf_rest (name : String) (property : Json) (rest : List (String × Json)) : sizeOf rest < sizeOf ((name, property) :: rest) := by
  simp only [List.cons.sizeOf_spec]
  omega

mutual

/-- `check_json_backward_compatible`; `additionalProperties` is looked at and makes no difference. -/
def checkJsonBackwardCompatible (oldSchema newSchema : Json) : Except SchemaError Bool :=
  match oldSchema, newSchema with
  | .object old, .object new =>
    if ((requiredFields new).all fun field => (requiredFields old).contains field) = false then .ok false
    else if typeKeywordsCompatible old new = false then .ok false
    else
      match _isOld : find old "properties", find new "properties" with
      | some (.object oldProperties), some (.object newProperties) => checkProperties oldProperties newProperties
      | _, _ => .ok true
  | _, _ => .error (.invalidSchema "Schema must be an object")
termination_by sizeOf oldSchema
decreasing_by
  have smaller := List.sizeOf_lt_of_mem (mem_of_find _isOld)
  simp only [Prod.mk.sizeOf_spec, object.sizeOf_spec] at smaller ⊢
  omega

/-- The loop over the old properties. -/
def checkProperties (oldProperties newProperties : List (String × Json)) : Except SchemaError Bool :=
  match oldProperties with
  | [] => .ok true
  | (name, oldProperty) :: rest =>
    match find newProperties name with
    | some newProperty => do
      if ← checkJsonBackwardCompatible oldProperty newProperty then checkProperties rest newProperties
      else .ok false
    | none => checkProperties rest newProperties
termination_by sizeOf oldProperties
decreasing_by
  · exact sizeOf_property name oldProperty rest
  · exact sizeOf_rest name oldProperty rest
  · exact sizeOf_rest name oldProperty rest

end

/-! ## The check -/

/-- What the packages read from a schema's text; `avroEq` is `PartialEq` of `apache_avro::Schema`. -/
structure Parsers where
  avro : String → Except String AvroSchema
  avroEq : AvroSchema → AvroSchema → Bool
  protobuf : String → Except String FileDescriptorSet
  json : String → Except String Json

/-- The documented equality of Avro schemas. -/
def Parsers.ComparesCanonicalForms (parsers : Parsers) : Prop := ∀ s t, parsers.avroEq s t = s.same t

/-- Both texts are parsed, and their errors told apart. -/
def parseBoth {α : Type} (parse : String → Except String α) (format existing new : String) : Except SchemaError (α × α) :=
  match parse existing with
  | .error e => .error (.invalidSchema ("Invalid existing " ++ format ++ " schema: " ++ e))
  | .ok existingSchema =>
    match parse new with
    | .error e => .error (.invalidSchema ("Invalid new " ++ format ++ " schema: " ++ e))
    | .ok newSchema => .ok (existingSchema, newSchema)

variable (parsers : Parsers)

/-- `check_avro_compatibility`: the existing schema is handed over as the reader. -/
def checkAvroCompatibility (existing : Schema) (newSchema : String) (mode : CompatibilityMode) : Except SchemaError Bool := do
  let (existingSchema, newSchema) ← parseBoth parsers.avro "Avro" existing.schema newSchema
  checkMode (checkAvroBackwardCompatible parsers.avroEq) existingSchema newSchema mode

/-- `check_protobuf_compatibility`. -/
def checkProtobufCompatibility (existing : Schema) (newSchema : String) (mode : CompatibilityMode) : Except SchemaError Bool := do
  let (existingSchema, newSchema) ← parseBoth parsers.protobuf "Protobuf" existing.schema newSchema
  checkMode checkProtobufBackwardCompatible existingSchema newSchema mode

/-- `check_json_compatibility`. -/
def checkJsonCompatibility (existing : Schema) (newSchema : String) (mode : CompatibilityMode) : Except SchemaError Bool := do
  let (existingSchema, newSchema) ← parseBoth parsers.json "JSON" existing.schema newSchema
  checkMode checkJsonBackwardCompatible existingSchema newSchema mode

/-- `{:?}` of a format. -/
def SchemaFormat.debug : SchemaFormat → String
  | .avro => "Avro"
  | .protobuf => "Protobuf"
  | .json => "Json"

/-- `check_compatibility`. -/
def checkCompatibility (existing : Schema) (newSchema : String) (newFormat : SchemaFormat) (mode : CompatibilityMode) :
    Except SchemaError Bool :=
  if existing.schemaType ≠ newFormat then
    .error (.incompatibleSchema
      ("Schema format mismatch: expected " ++ existing.schemaType.debug ++ ", got " ++ newFormat.debug))
  else
    match existing.schemaType with
    | .avro => checkAvroCompatibility parsers existing newSchema mode
    | .protobuf => checkProtobufCompatibility parsers existing newSchema mode
    | .json => checkJsonCompatibility parsers existing newSchema mode

end StreamHouse.Registry
