import Mathlib.Data.Fintype.EquivFin
import StreamHouse.Registry.Compatibility

/-!
# Evolution of JSON schemas

The schemas that are built from `type`, `required`, `properties` and a boolean
`additionalProperties`, the values that are valid under them, and what a new schema can
take away from the old one without `check_json_backward_compatible` saying so. An object is
the list of its fields, and of two fields with one name it has the first.
-/

namespace StreamHouse.Registry

open List Json

/-! ## Schemas -/

/-- What a value is, with the numbers apart that have no fractional part. -/
inductive Kind where
  | null
  | boolean
  | object
  | array
  | integer
  | fraction
  | string
deriving DecidableEq

def kindOf : Json → Kind
  | .null => .null
  | .bool _ => .boolean
  | .number n => if n.isIntegral then .integer else .fraction
  | .string _ => .string
  | .array _ => .array
  | .object _ => .object

inductive TypeName where
  | null
  | boolean
  | object
  | array
  | number
  | string
  | integer

def TypeName.text : TypeName → String
  | .null => "null"
  | .boolean => "boolean"
  | .object => "object"
  | .array => "array"
  | .number => "number"
  | .string => "string"
  | .integer => "integer"

def TypeName.allows : TypeName → Kind → Bool
  | .null, .null => true
  | .boolean, .boolean => true
  | .object, .object => true
  | .array, .array => true
  | .number, .integer => true
  | .number, .fraction => true
  | .string, .string => true
  | .integer, .integer => true
  | _, _ => false

/-- `type`: a name or a list of names. -/
inductive TypeKeyword where
  | one (t : TypeName)
  | several (ts : List TypeName)

namespace TypeKeyword

def toJson : TypeKeyword → Json
  | .one t => .string t.text
  | .several ts => .array (ts.map fun t => .string t.text)

def allows : TypeKeyword → Kind → Bool
  | .one t, k => t.allows k
  | .several ts, k => ts.any fun t => t.allows k

end TypeKeyword

/-- A schema: `{}`, or one with keywords, where `none` is a keyword that is not there. The names
of `properties` have their schemas by `schemaOf`, which says nothing about other names. -/
inductive JsonSchema where
  | anything
  | mk (type : Option TypeKeyword) (required properties : Option (List String)) (schemaOf : String → JsonSchema)
    (additionalProperties : Option Bool)

namespace JsonSchema

def type : JsonSchema → Option TypeKeyword
  | anything => none
  | mk type _ _ _ _ => type

def required : JsonSchema → List String
  | anything => []
  | mk _ required _ _ _ => required.getD []

def names : JsonSchema → List String
  | anything => []
  | mk _ _ properties _ _ => properties.getD []

def schemaOf : JsonSchema → String → JsonSchema
  | anything, _ => anything
  | mk _ _ _ schemaOf _, name => schemaOf name

/-- Properties that are not named are allowed. -/
def isOpen : JsonSchema → Bool
  | anything => true
  | mk _ _ _ _ additionalProperties => additionalProperties.getD true

/-- A keyword of a schema's JSON. -/
def keyword (key : String) (value : Option Json) : List (String × Json) := (value.map fun v => (key, v)).toList

def toJson : JsonSchema → Json
  | anything => .object []
  | mk type required properties schemaOf additionalProperties =>
    .object (keyword "additionalProperties" (additionalProperties.map .bool) ++
      (keyword "properties" (properties.map fun names => .object (names.map fun name => (name, (schemaOf name).toJson))) ++
        (keyword "required" (required.map fun names => .array (names.map .string)) ++
          keyword "type" (type.map TypeKeyword.toJson))))

def allows (s : JsonSchema) (k : Kind) : Bool := (s.type.map fun t => t.allows k).getD true

/-- What passes from the properties to the schema holds of all schemas. -/
theorem propertyInduction {motive : JsonSchema → Prop} (step : ∀ s, (∀ name ∈ s.names, motive (s.schemaOf name)) → motive s) :
    ∀ s, motive s := by
  intro s
  induction s with
  | anything => exact step _ fun _ no => nomatch no
  | mk type required properties schemaOf additional ih => exact step _ fun name _ => ih name

end JsonSchema

open JsonSchema

/-- The values of a schema. -/
def Valid : JsonSchema → Json → Prop
  | anything, _ => True
  | mk type required properties schemaOf additionalProperties, v =>
    (∀ t ∈ type, t.allows (kindOf v) = true) ∧
      ∀ fields, v.asObject = some fields →
        (∀ name ∈ required.getD [], name ∈ fields.map Prod.fst) ∧
          (∀ name ∈ properties.getD [], ∀ w, find fields name = some w → Valid (schemaOf name) w) ∧
          (additionalProperties = some false → ∀ name ∈ fields.map Prod.fst, name ∈ properties.getD [])

/-! ## Changes that narrow a schema -/

/-- Some value is valid. -/
def HasValue : JsonSchema → Prop
  | anything => True
  | mk type required properties schemaOf additionalProperties =>
    (∃ k, k ≠ .object ∧ ∀ t ∈ type, t.allows k = true) ∨
      ((∀ t ∈ type, t.allows .object = true) ∧
        ∀ name ∈ required.getD [], (name ∈ properties.getD [] → HasValue (schemaOf name)) ∧
          (name ∉ properties.getD [] → additionalProperties ≠ some false))

/-- Some object is valid: whatever is required can be there. -/
def HasObject (s : JsonSchema) : Prop :=
  s.allows .object = true ∧
    ∀ name ∈ s.required, (name ∈ s.names → HasValue (s.schemaOf name)) ∧ (name ∉ s.names → s.isOpen = true)

/-- The schema does not let every value through. -/
inductive Restricts : JsonSchema → Prop where
  | type {s : JsonSchema} (k : Kind) : s.allows k = false → Restricts s
  | required {s : JsonSchema} (name : String) : name ∈ s.required → Restricts s
  | closed {s : JsonSchema} : s.isOpen = false → Restricts s
  | property {s : JsonSchema} (name : String) : name ∈ s.names → Restricts (s.schemaOf name) → Restricts s

/-- What the new schema takes away unnoticed: a type that is no longer allowed, additional
properties, a property that is no longer named where the others are forbidden, a property
that is constrained for the first time, or any of these further down. -/
inductive Overlooked : JsonSchema → JsonSchema → Prop where
  | type {old new : JsonSchema} (k : Kind) : old.allows k = true → (k = .object → HasObject old) → new.allows k = false →
      Overlooked old new
  | closed {old new : JsonSchema} : HasObject old → old.isOpen = true → new.isOpen = false → Overlooked old new
  | removed {old new : JsonSchema} (name : String) : HasObject old → name ∈ old.names → HasValue (old.schemaOf name) →
      name ∉ new.names → new.isOpen = false → Overlooked old new
  | added {old new : JsonSchema} (name : String) : HasObject old → name ∉ old.names → old.isOpen = true → name ∈ new.names →
      Restricts (new.schemaOf name) → Overlooked old new
  | property {old new : JsonSchema} (name : String) : HasObject old → name ∈ old.names → name ∈ new.names →
      Overlooked (old.schemaOf name) (new.schemaOf name) → Overlooked old new

/-! ## Valid values -/

theorem allows_iff (s : JsonSchema) (k : Kind) : s.allows k = true ↔ ∀ t ∈ s.type, t.allows k = true := by
  rw [allows]
  cases s.type <;> simp

theorem valid_iff (s : JsonSchema) (v : Json) : Valid s v ↔ s.allows (kindOf v) = true ∧ ∀ fields, v.asObject = some fields →
    (∀ name ∈ s.required, name ∈ fields.map Prod.fst) ∧
      (∀ name ∈ s.names, ∀ w, find fields name = some w → Valid (s.schemaOf name) w) ∧
      (s.isOpen = false → ∀ name ∈ fields.map Prod.fst, name ∈ s.names) := by
  rw [allows_iff]
  cases s with
  | anything =>
    refine iff_of_true trivial ⟨(fun _ no => nomatch no), fun fields _ => ?_⟩
    exact ⟨(fun _ no => nomatch no), (fun _ no => nomatch no), fun no => nomatch no⟩
  | mk type required properties schemaOf additional =>
    have closed : (mk type required properties schemaOf additional).isOpen = false ↔ additional = some false := by
      rw [isOpen]
      cases additional <;> simp
    rw [closed, Valid]
    rfl

variable {s : JsonSchema} {fields : List (String × Json)}

/-- Values that are no objects are told apart by their kind. -/
theorem valid_of_asObject {v : Json} (scalar : v.asObject = none) : Valid s v ↔ s.allows (kindOf v) = true := by
  rw [valid_iff, scalar]
  exact and_iff_left fun fields no => nomatch no

theorem valid_object : Valid s (.object fields) ↔
    s.allows .object = true ∧ (∀ name ∈ s.required, name ∈ fields.map Prod.fst) ∧
      (∀ name ∈ s.names, ∀ w, find fields name = some w → Valid (s.schemaOf name) w) ∧
      (s.isOpen = false → ∀ name ∈ fields.map Prod.fst, name ∈ s.names) := by
  rw [valid_iff]
  simp only [asObject, Option.some.injEq, forall_eq', kindOf]

theorem hasValue_iff_kind (s : JsonSchema) : HasValue s ↔ (∃ k, k ≠ .object ∧ s.allows k = true) ∨ HasObject s := by
  cases s with
  | anything => exact iff_of_true trivial (.inl ⟨.null, by decide, rfl⟩)
  | mk type required properties schemaOf additional =>
    have opened : (mk type required properties schemaOf additional).isOpen = true ↔ additional ≠ some false := by
      rw [isOpen]
      cases additional <;> simp
    rw [HasObject, opened, allows_iff]
    simp only [allows_iff]
    rw [HasValue]
    rfl

/-- A value of each kind. -/
def sample : Kind → Json
  | .null => .null
  | .boolean => .bool true
  | .object => .object []
  | .array => .array []
  | .integer => .number (.posInt 0)
  | .fraction => .number (.float ⟨false, 1, -1, by decide⟩)
  | .string => .string ""

theorem kindOf_sample (k : Kind) : kindOf (sample k) = k := by
  cases k <;> rfl

theorem asObject_eq_none (v : Json) : v.asObject = none ↔ kindOf v ≠ .object := by
  cases v with
  | number n => simp only [asObject, kindOf]; split <;> simp
  | _ => simp [asObject, kindOf]

theorem valid_sample {k : Kind} (scalar : k ≠ .object) : Valid s (sample k) ↔ s.allows k = true := by
  rw [valid_of_asObject ((asObject_eq_none _).mpr (by rwa [kindOf_sample])), kindOf_sample]

theorem find_map (names : List String) (g : String → Json) (name : String) :
    find (names.map fun n => (n, g n)) name = if name ∈ names then some (g name) else none := by
  induction names with
  | nil => rfl
  | cons n names ih =>
    rw [map_cons, find_cons, ih]
    by_cases here : n = name
    · rw [if_pos here, if_pos (by rw [here]; exact mem_cons_self), here]
    · rw [if_neg here]
      simp only [mem_cons, Ne.symm here, false_or]

/-- The value can stand under the name in an object. -/
def Fits (s : JsonSchema) (name : String) (w : Json) : Prop :=
  (name ∈ s.names → Valid (s.schemaOf name) w) ∧ (name ∉ s.names → s.isOpen = true)

/-- An object with fitting values under all that is required. -/
theorem valid_object_map {names : List String} {g : String → Json} (allowed : s.allows .object = true)
    (enough : ∀ name ∈ s.required, name ∈ names) (fits : ∀ name ∈ names, Fits s name (g name)) :
    Valid s (.object (names.map fun n => (n, g n))) := by
  have keys : (names.map fun n => (n, g n)).map Prod.fst = names := by
    rw [map_map]
    exact map_id names
  rw [valid_object, keys]
  refine ⟨allowed, enough, fun name inside w found => ?_, fun closed name inside => ?_⟩
  · rw [find_map] at found
    split at found
    · next listed =>
      obtain rfl := Option.some.inj found
      exact (fits name listed).1 inside
    · cases found
  · by_contra unnamed
    rw [(fits name inside).2 unnamed] at closed
    cases closed

theorem fits_of_valid (valid : Valid s (.object fields)) {name : String} {w : Json}
    (found : find fields name = some w) : Fits s name w := by
  obtain ⟨-, -, each, closed⟩ := valid_object.mp valid
  refine ⟨fun inside => each name inside w found, fun unnamed => ?_⟩
  by_contra shut
  exact unnamed (closed (Bool.not_eq_true _ ▸ shut) name (mem_map.mpr ⟨(name, w), mem_of_find found, rfl⟩))

theorem find_of_key {name : String} (inside : name ∈ fields.map Prod.fst) : ∃ w, find fields name = some w := by
  by_contra none
  exact find_eq_none.mp (Option.eq_none_iff_forall_ne_some.mpr fun w found => none ⟨w, found⟩) inside

/-- There are fitting values under all that is required. -/
theorem exists_values (can : ∀ name ∈ s.required,
    (name ∈ s.names → ∃ w, Valid (s.schemaOf name) w) ∧ (name ∉ s.names → s.isOpen = true)) :
    ∃ g : String → Json, ∀ name ∈ s.required, Fits s name (g name) := by
  have value : ∀ name, ∃ w, name ∈ s.required → Fits s name w := by
    intro name
    by_cases needed : name ∈ s.required
    · by_cases named : name ∈ s.names
      · obtain ⟨w, valid⟩ := (can name needed).1 named
        exact ⟨w, fun _ => ⟨fun _ => valid, fun unnamed => absurd named unnamed⟩⟩
      · exact ⟨.null, fun _ => ⟨fun no => absurd no named, (can name needed).2⟩⟩
    · exact ⟨.null, fun no => absurd no needed⟩
  exact Classical.skolem.mp value

/-- `HasValue` says what it should. -/
theorem hasValue_iff (s : JsonSchema) : HasValue s ↔ ∃ v, Valid s v := by
  induction s using propertyInduction with
  | step s below =>
    rw [hasValue_iff_kind]
    constructor
    · rintro (⟨k, scalar, allowed⟩ | ⟨allowed, can⟩)
      · exact ⟨sample k, (valid_sample scalar).mpr allowed⟩
      · obtain ⟨g, fits⟩ := exists_values fun name needed =>
          ⟨fun named => (below name named).mp ((can name needed).1 named), (can name needed).2⟩
        exact ⟨_, valid_object_map allowed (fun _ needed => needed) fits⟩
    · rintro ⟨v, valid⟩
      cases object : v.asObject with
      | none => exact .inl ⟨kindOf v, (asObject_eq_none v).mp object, (valid_of_asObject object).mp valid⟩
      | some fields =>
        right
        cases v with
        | object fields' =>
          obtain ⟨allowed, needed, -, -⟩ := valid_object.mp valid
          refine ⟨allowed, fun name inside => ?_⟩
          obtain ⟨w, found⟩ := find_of_key (needed name inside)
          have fits := fits_of_valid valid found
          exact ⟨fun named => (below name named).mpr ⟨w, fits.1 named⟩, fits.2⟩
        | _ => cases object

theorem hasObject_of_valid (valid : Valid s (.object fields)) : HasObject s := by
  obtain ⟨allowed, needed, -, -⟩ := valid_object.mp valid
  refine ⟨allowed, fun name inside => ?_⟩
  obtain ⟨w, found⟩ := find_of_key (needed name inside)
  have fits := fits_of_valid valid found
  exact ⟨fun named => (hasValue_iff _).mpr ⟨w, fits.1 named⟩, fits.2⟩

theorem HasObject.values (has : HasObject s) : ∃ g : String → Json, ∀ name ∈ s.required, Fits s name (g name) :=
  exists_values fun name needed => ⟨fun named => (hasValue_iff _).mp ((has.2 name needed).1 named), (has.2 name needed).2⟩

theorem HasObject.object (has : HasObject s) : ∃ fields, Valid s (.object fields) := by
  obtain ⟨g, fits⟩ := has.values
  exact ⟨_, valid_object_map has.1 (fun _ needed => needed) fits⟩

/-- Where there are objects, there is one with any fitting value under any name. -/
theorem HasObject.with (has : HasObject s) {name : String} {w : Json} (fits : Fits s name w) :
    ∃ fields, Valid s (.object fields) ∧ find fields name = some w := by
  obtain ⟨g, others⟩ := has.values
  have updated : ∀ n ∈ name :: s.required, Fits s n (Function.update g name w n) := by
    intro n listed
    by_cases here : n = name
    · rw [here, Function.update_self]
      exact fits
    · rw [Function.update_of_ne here]
      exact others n ((mem_cons.mp listed).resolve_left here)
  refine ⟨_, valid_object_map has.1 (fun _ needed => mem_cons_of_mem _ needed) updated, ?_⟩
  rw [find_map, if_pos mem_cons_self, Function.update_self]

/-! ## Changes have their victims -/

/-- A name that no list has. -/
theorem exists_fresh (names : List String) : ∃ name, name ∉ names := by
  obtain ⟨name, fresh⟩ := Infinite.exists_notMem_finset names.toFinset
  exact ⟨name, fun inside => fresh (mem_toFinset.mpr inside)⟩

theorem restricts_iff (s : JsonSchema) : Restricts s ↔ ∃ v, ¬ Valid s v := by
  constructor
  · intro restricts
    induction restricts with
    | @type s k excluded =>
      refine ⟨sample k, fun valid => ?_⟩
      have allowed : s.allows k = true := by
        by_cases scalar : k = .object
        · subst scalar
          exact (valid_object.mp valid).1
        · exact (valid_sample scalar).mp valid
      rw [allowed] at excluded
      cases excluded
    | @required s name needed => exact ⟨.object [], fun valid => nomatch (valid_object.mp valid).2.1 name needed⟩
    | @closed s shut =>
      obtain ⟨name, fresh⟩ := exists_fresh s.names
      exact ⟨.object [(name, .null)], fun valid => fresh ((valid_object.mp valid).2.2.2 shut name mem_cons_self)⟩
    | @property s name named _ ih =>
      obtain ⟨w, invalid⟩ := ih
      refine ⟨.object [(name, w)], fun valid => invalid ((valid_object.mp valid).2.2.1 name named w ?_)⟩
      rw [find_cons, if_pos rfl]
  · induction s using propertyInduction with
    | step s below =>
      rintro ⟨v, invalid⟩
      by_contra free
      have allowed : ∀ k, s.allows k = true := fun k => by
        by_contra excluded
        exact free (.type k (Bool.not_eq_true _ ▸ excluded))
      cases object : v.asObject with
      | none => exact invalid ((valid_of_asObject object).mpr (allowed _))
      | some fields =>
        cases v with
        | object fields' =>
          refine invalid (valid_object.mpr ⟨allowed _, fun name needed => absurd (.required name needed) free,
            fun name named w found => ?_, fun shut => absurd (.closed shut) free⟩)
          by_contra bad
          exact free (.property name named (below name named ⟨w, bad⟩))
        | _ => cases object

/-- What is overlooked costs a value. -/
theorem Overlooked.victim {old new : JsonSchema} (overlooked : Overlooked old new) : ∃ v, Valid old v ∧ ¬ Valid new v := by
  induction overlooked with
  | @type old new k allowed objects excluded =>
    by_cases scalar : k = .object
    · subst scalar
      obtain ⟨fields, valid⟩ := (objects rfl).object
      refine ⟨_, valid, fun kept => ?_⟩
      rw [(valid_object.mp kept).1] at excluded
      cases excluded
    · exact ⟨sample k, (valid_sample scalar).mpr allowed, fun valid => by
        rw [(valid_sample scalar).mp valid] at excluded
        cases excluded⟩
  | @closed old new has isOpen shut =>
    obtain ⟨name, fresh⟩ := exists_fresh (old.names ++ new.names)
    rw [mem_append, not_or] at fresh
    obtain ⟨fields, valid, found⟩ := has.with (w := .null) ⟨fun no => absurd no fresh.1, fun _ => isOpen⟩
    exact ⟨_, valid, fun kept => by
      have still := (fits_of_valid kept found).2 fresh.2
      rw [shut] at still
      cases still⟩
  | @removed old new name has named value gone shut =>
    obtain ⟨w, valid⟩ := (hasValue_iff _).mp value
    obtain ⟨fields, valid, found⟩ := has.with ⟨fun _ => valid, fun no => absurd named no⟩
    exact ⟨_, valid, fun kept => by
      have still := (fits_of_valid kept found).2 gone
      rw [shut] at still
      cases still⟩
  | @added old new name has unnamed isOpen named restricts =>
    obtain ⟨w, invalid⟩ := (restricts_iff _).mp restricts
    obtain ⟨fields, valid, found⟩ := has.with (w := w) ⟨fun no => absurd no unnamed, fun _ => isOpen⟩
    exact ⟨_, valid, fun kept => invalid ((fits_of_valid kept found).1 named)⟩
  | @property old new name has named named' _ ih =>
    obtain ⟨w, was, invalid⟩ := ih
    obtain ⟨fields, valid, found⟩ := has.with ⟨fun _ => was, fun no => absurd named no⟩
    exact ⟨_, valid, fun kept => invalid ((fits_of_valid kept found).1 named')⟩

/-! ## What the check compares -/

theorem find_keyword_append {key key' : String} (value : Option Json) (rest : List (String × Json)) :
    find (keyword key value ++ rest) key' = if key = key' then value.or (find rest key') else find rest key' := by
  cases value with
  | none => simp [keyword]
  | some v =>
    rw [keyword, Option.map_some, Option.toList_some, cons_append, nil_append, find_cons]
    rfl

theorem find_keyword {key key' : String} (value : Option Json) :
    find (keyword key value) key' = if key = key' then value else none := by
  have alone : find (keyword key value ++ []) key' = _ := find_keyword_append value []
  rw [append_nil] at alone
  rw [alone]
  cases value <;> rfl

/-- The JSON of a schema has its keywords. -/
theorem toJson_object (s : JsonSchema) : ∃ fields, s.toJson = .object fields ∧ requiredFields fields = s.required ∧
    ((∃ named : List (String × Json), find fields "properties" = some (.object named) ∧
      named = s.names.map fun name => (name, (s.schemaOf name).toJson)) ∨
      (find fields "properties" = none ∧ s.names = [])) := by
  cases s with
  | anything => exact ⟨[], rfl, rfl, .inr ⟨rfl, rfl⟩⟩
  | mk type required properties schemaOf additional =>
    refine ⟨_, rfl, ?_, ?_⟩
    · rw [requiredFields]
      simp only [find_keyword_append, find_keyword]
      cases required with
      | none => rfl
      | some names =>
        show (names.map string).filterMap asStr = names
        induction names with
        | nil => rfl
        | cons name names ih => exact congrArg (name :: ·) ih
    · simp only [find_keyword_append, find_keyword]
      cases properties with
      | none => exact .inr ⟨rfl, rfl⟩
      | some names => exact .inl ⟨_, rfl, rfl⟩

/-- What a true answer means for each property the loop comes to. -/
theorem checkProperties_sound {oldProperties newProperties : List (String × Json)}
    (passed : checkProperties oldProperties newProperties = .ok true) :
    ∀ name oldProperty, (name, oldProperty) ∈ oldProperties → ∀ newProperty, find newProperties name = some newProperty →
      checkJsonBackwardCompatible oldProperty newProperty = .ok true := by
  induction oldProperties with
  | nil => exact fun _ _ no => nomatch no
  | cons property rest ih =>
    obtain ⟨first, oldFirst⟩ := property
    rw [checkProperties] at passed
    intro name oldProperty listed newProperty found
    cases both : find newProperties first with
    | none =>
      rw [both] at passed
      obtain same | later := mem_cons.mp listed
      · rw [(Prod.mk.inj same).1, both] at found
        cases found
      · exact ih passed name oldProperty later newProperty found
    | some newFirst =>
      simp only [both] at passed
      cases verdict : checkJsonBackwardCompatible oldFirst newFirst with
      | error e =>
        rw [verdict] at passed
        cases passed
      | ok compatible =>
        rw [verdict] at passed
        cases compatible with
        | false => cases passed
        | true =>
          obtain same | later := mem_cons.mp listed
          · obtain ⟨rfl, rfl⟩ := Prod.mk.inj same
            rw [both] at found
            rw [← Option.some.inj found]
            exact verdict
          · exact ih passed name oldProperty later newProperty found

/-- What a true answer means: nothing is newly required, here and in the properties that both name. -/
theorem check_sound {old new : JsonSchema} (accepted : checkJsonBackwardCompatible old.toJson new.toJson = .ok true) :
    (∀ name ∈ new.required, name ∈ old.required) ∧ ∀ name ∈ old.names, name ∈ new.names →
      checkJsonBackwardCompatible (old.schemaOf name).toJson (new.schemaOf name).toJson = .ok true := by
  obtain ⟨oldFields, isOld, oldRequired, oldNamed⟩ := toJson_object old
  obtain ⟨newFields, isNew, newRequired, newNamed⟩ := toJson_object new
  rw [isOld, isNew, checkJsonBackwardCompatible, oldRequired, newRequired] at accepted
  split at accepted
  · cases accepted
  · next subset =>
    split at accepted
    · cases accepted
    · constructor
      · rw [Bool.not_eq_false, all_eq_true] at subset
        exact fun name needed => contains_iff_mem.mp (subset name needed)
      · intro name inOld inNew
        obtain ⟨oldList, oldFound, rfl⟩ | ⟨-, none⟩ := oldNamed
        · obtain ⟨newList, newFound, rfl⟩ | ⟨-, none⟩ := newNamed
          · have compared : checkProperties (old.names.map fun n => (n, (old.schemaOf n).toJson))
                (new.names.map fun n => (n, (new.schemaOf n).toJson)) = .ok true := by
              split at accepted
              · next isOld isNew =>
                rw [oldFound] at isOld
                rw [newFound] at isNew
                rwa [object.inj (Option.some.inj isOld), object.inj (Option.some.inj isNew)]
              · next other => exact absurd newFound (other _ _ oldFound)
            refine checkProperties_sound compared name _ (mem_map.mpr ⟨name, inOld, rfl⟩) _ ?_
            rw [find_map new.names (fun n => (new.schemaOf n).toJson), if_pos inNew]
          · rw [none] at inNew
            cases inNew
        · rw [none] at inOld
          cases inOld

/-- With nothing overlooked, an accepted schema keeps every value. -/
theorem valid_of_accepted {old : JsonSchema} : ∀ {new : JsonSchema},
    checkJsonBackwardCompatible old.toJson new.toJson = .ok true → ¬ Overlooked old new → ∀ v, Valid old v → Valid new v := by
  induction old using propertyInduction with
  | step old below =>
    intro new accepted clean v valid
    obtain ⟨nothingRequired, properties⟩ := check_sound accepted
    cases object : v.asObject with
    | none =>
      rw [valid_of_asObject object] at valid ⊢
      by_contra excluded
      exact clean (.type (kindOf v) valid (fun same => absurd same ((asObject_eq_none v).mp object)) (Bool.not_eq_true _ ▸ excluded))
    | some fields =>
      cases v with
      | object fields' =>
        have has := hasObject_of_valid valid
        obtain ⟨allowed, needed, -, -⟩ := valid_object.mp valid
        refine valid_object.mpr ⟨?_, fun name required => needed name (nothingRequired name required), ?_, ?_⟩
        · by_contra excluded
          exact clean (.type .object allowed (fun _ => has) (Bool.not_eq_true _ ▸ excluded))
        · intro name named w found
          have fits := fits_of_valid valid found
          by_cases before : name ∈ old.names
          · exact below name before (properties name before named) (fun further => clean (.property name has before named further)) w
              (fits.1 before)
          · by_contra invalid
            exact clean (.added name has before (fits.2 before) named ((restricts_iff _).mpr ⟨w, invalid⟩))
        · intro shut name inside
          obtain ⟨w, found⟩ := find_of_key inside
          have fits := fits_of_valid valid found
          by_contra unnamed
          by_cases before : name ∈ old.names
          · exact clean (.removed name has before ((hasValue_iff _).mpr ⟨w, fits.1 before⟩) unnamed shut)
          · exact clean (.closed has (fits.2 before) shut)
      | _ => cases object

/-- **When an accepted schema is sound**: every value of the old schema is valid under the
new one exactly if the check has overlooked nothing. -/
theorem json_evolution_iff (old new : JsonSchema) (accepted : checkJsonBackwardCompatible old.toJson new.toJson = .ok true) :
    (∀ v, Valid old v → Valid new v) ↔ ¬ Overlooked old new := by
  constructor
  · intro sound overlooked
    obtain ⟨v, valid, invalid⟩ := overlooked.victim
    exact invalid (sound v valid)
  · exact valid_of_accepted accepted

/-- `{"type": "string"}`. -/
def stringSchema : JsonSchema := mk (some (.one .string)) none none (fun _ => anything) none

/-- An object with a string under `name`, which may be required or not. -/
def named (required : List String) : JsonSchema :=
  mk (some (.one .object)) (some required) (some ["name"]) (fun _ => stringSchema) none

theorem check_string : checkJsonBackwardCompatible stringSchema.toJson stringSchema.toJson = .ok true := by
  rw [stringSchema, toJson, checkJsonBackwardCompatible]
  decide

theorem check_named : checkJsonBackwardCompatible (named ["name"]).toJson (named []).toJson = .ok true := by
  rw [named, named, toJson, toJson, checkJsonBackwardCompatible]
  have properties : checkProperties [("name", stringSchema.toJson)] [("name", stringSchema.toJson)] = .ok true := by
    rw [checkProperties]
    show (checkJsonBackwardCompatible stringSchema.toJson stringSchema.toJson >>= _) = _
    rw [check_string, checkProperties]
    rfl
  exact properties

/-- What was required becomes optional. -/
theorem json_evolution_optional_name :
    (∀ v, Valid (named ["name"]) v → Valid (named []) v) ↔ ¬ Overlooked (named ["name"]) (named []) :=
  json_evolution_iff (named ["name"]) (named []) check_named

/-- `{"type": "object"}`, with what it says about other properties. -/
def objectSchema (additionalProperties : Option Bool) : JsonSchema :=
  mk (some (.one .object)) none none (fun _ => anything) additionalProperties

theorem check_object : checkJsonBackwardCompatible (objectSchema none).toJson (objectSchema (some false)).toJson = .ok true := by
  simp only [objectSchema, toJson]
  rw [checkJsonBackwardCompatible]
  decide

/-- Additional properties can be forbidden at any time. -/
theorem json_evolution_fails : ¬ ∀ old new : JsonSchema, checkJsonBackwardCompatible old.toJson new.toJson = .ok true →
    ∀ v, Valid old v → Valid new v := by
  intro sound
  have before : Valid (objectSchema none) (.object [("a", .null)]) := by
    refine valid_object.mpr ⟨rfl, (fun _ no => nomatch no), (fun _ no => nomatch no), fun no => nomatch no⟩
  have after := sound _ _ check_object _ before
  have listed := (valid_object.mp after).2.2.2 rfl "a" mem_cons_self
  cases listed

end StreamHouse.Registry
