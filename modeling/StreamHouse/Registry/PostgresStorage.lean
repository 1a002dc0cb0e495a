import Mathlib.Data.List.Pairwise
import Mathlib.Data.List.Sort
import StreamHouse.Registry.Compatibility

/-!
# The schemas of all organizations

`PostgresSchemaStorage`: a table of schemas that all organizations share, one row for each text, and
a table of versions in which each row names its organization, while the number of a version is taken
for a subject by whichever organization comes first. What the organizations have registered and not
deleted is kept beside the tables, to compare.
-/

namespace StreamHouse.Registry

open List

/-- A row of `schema_registry_schemas`, unique in its hash. -/
structure SchemaRow where
  id : Nat
  schemaFormat : SchemaFormat
  schemaDefinition : String
  schemaHash : String
deriving DecidableEq

/-- A row of `schema_registry_versions`, unique in subject and version. -/
structure VersionRow where
  organizationId : String
  subject : String
  version : Nat
  schemaId : Nat

/-- The organizations are those that the foreign keys ask for; their ids are UUIDs, and an id that is none counts as the
nil UUID. -/
structure PostgresSchemaStorage where
  organizations : List String
  schemas : List SchemaRow
  primaryKey : schemas.Pairwise fun a b => a.id ≠ b.id
  versions : List VersionRow
  /-- By subject, whichever organization set it. -/
  subjectConfigs : String → Option CompatibilityMode
  globalCompatibility : CompatibilityMode

/-- What an organization has registered. -/
structure Registration where
  organizationId : String
  subject : String
  version : Nat
  schemaType : SchemaFormat
  schema : String

namespace PostgresSchemaStorage

variable (hash : String → String) (s : PostgresSchemaStorage)

/-- The tables after the migrations. -/
def new (organizations : List String) : PostgresSchemaStorage where
  organizations := organizations
  schemas := []
  primaryKey := .nil
  versions := []
  subjectConfigs := fun _ => none
  globalCompatibility := .backward

/-- The `JOIN` of a version with its schema. -/
def joined (v : VersionRow) : Option Schema :=
  (s.schemas.find? fun row => row.id = v.schemaId).map fun row =>
    ⟨row.id, v.subject, v.version, row.schemaFormat, row.schemaDefinition⟩

/-- `get_latest_schema`: the join in the order of descending versions, and the first of it. -/
def getLatestSchema (subject organizationId : String) : Option Schema :=
  (((s.versions.filter fun v => v.subject = subject ∧ v.organizationId = organizationId).filterMap s.joined).insertionSort
    fun a b => b.version ≤ a.version).head?

theorem pairwise_append {row : SchemaRow} (fresh : ∀ other ∈ s.schemas, other.id ≠ row.id) :
    (s.schemas ++ [row]).Pairwise fun a b => a.id ≠ b.id :=
  List.pairwise_append.mpr ⟨s.primaryKey, pairwise_singleton _ _, fun other inside last isLast => by
    rw [mem_singleton.mp isLast]
    exact fresh other inside⟩

/-- `INSERT INTO schema_registry_schemas`: a schema of the same hash is used as it is. -/
def upsertSchema (nextval : Nat) (schemaType : SchemaFormat) (schema : String) : Option (Nat × PostgresSchemaStorage) :=
  match s.schemas.find? fun row => row.schemaHash = hash schema with
  | some row => some (row.id, s)
  | none =>
    if fresh : ∀ row ∈ s.schemas, row.id ≠ nextval then
      some (nextval, { s with
        schemas := s.schemas ++ [⟨nextval, schemaType, schema, hash schema⟩]
        primaryKey := s.pairwise_append fresh })
    else none

/-- The transaction of `register_schema`: a number that the subject has already is an error. -/
def insertVersion (nextval : Nat) (subject organizationId : String) (version : Nat) (schemaType : SchemaFormat) (schema : String) :
    Option (Nat × PostgresSchemaStorage) :=
  if organizationId ∈ s.organizations ∧ (∀ v ∈ s.versions, ¬ (v.subject = subject ∧ v.version = version)) then
    (s.upsertSchema hash nextval schemaType schema).map fun upserted =>
      (upserted.1, { upserted.2 with versions := s.versions ++ [⟨organizationId, subject, version, upserted.1⟩] })
  else none

/-- `delete_subject`. -/
def deleteSubject (subject organizationId : String) : PostgresSchemaStorage :=
  { s with versions := s.versions.filter fun v => ¬ (v.subject = subject ∧ v.organizationId = organizationId) }

/-- `delete_version`: that there was none is not noticed. -/
def deleteVersion (subject : String) (version : Nat) (organizationId : String) : PostgresSchemaStorage :=
  { s with versions := s.versions.filter fun v =>
      ¬ (v.subject = subject ∧ v.version = version ∧ v.organizationId = organizationId) }

/-! ## The tables and what was registered -/

/-- A row of versions with its schema is what was registered. -/
def Tells (v : VersionRow) (r : Registration) : Prop :=
  v.organizationId = r.organizationId ∧ v.subject = r.subject ∧ v.version = r.version ∧
    ∃ row, s.schemas.find? (fun row => row.id = v.schemaId) = some row ∧ row.schemaFormat = r.schemaType ∧ row.schemaDefinition = r.schema

/-- The tables hold the registrations, in their order. -/
def Holds (ledger : List Registration) : Prop := Forall₂ s.Tells s.versions ledger

/-- What is said of a request by what was registered: the registration of the greatest version, if there is one. -/
def Answers (ledger : List Registration) (subject organizationId : String) : Option Schema → Prop
  | none => ∀ r ∈ ledger, ¬ (r.subject = subject ∧ r.organizationId = organizationId)
  | some schema => ∃ r ∈ ledger, (r.subject = subject ∧ r.organizationId = organizationId) ∧
      (∀ other ∈ ledger, other.subject = subject ∧ other.organizationId = organizationId → other.version ≤ r.version) ∧
        schema.subject = subject ∧ schema.version = r.version ∧ schema.schemaType = r.schemaType ∧ schema.schema = r.schema

variable {s} {ledger : List Registration} {subject organizationId : String}

/-- What is related in order is related to something. -/
theorem exists_related {α β : Type} {R : α → β → Prop} {as : List α} {bs : List β} (related : Forall₂ R as bs) :
    (∀ a ∈ as, ∃ b ∈ bs, R a b) ∧ ∀ b ∈ bs, ∃ a ∈ as, R a b := by
  induction related with
  | nil => exact ⟨(by rintro _ ⟨⟩), (by rintro _ ⟨⟩)⟩
  | cons first _ ih =>
    constructor
    · intro a inside
      obtain rfl | later := mem_cons.mp inside
      · exact ⟨_, mem_cons_self, first⟩
      · obtain ⟨b, there, same⟩ := ih.1 a later
        exact ⟨b, mem_cons_of_mem _ there, same⟩
    · intro b inside
      obtain rfl | later := mem_cons.mp inside
      · exact ⟨_, mem_cons_self, first⟩
      · obtain ⟨a, there, same⟩ := ih.2 b later
        exact ⟨a, mem_cons_of_mem _ there, same⟩

theorem joined_of_tells {v : VersionRow} {r : Registration} (tells : s.Tells v r) :
    ∃ schema, s.joined v = some schema ∧ schema.subject = r.subject ∧ schema.version = r.version ∧
      schema.schemaType = r.schemaType ∧ schema.schema = r.schema := by
  obtain ⟨-, subject, version, row, found, format, definition⟩ := tells
  refine ⟨⟨row.id, v.subject, v.version, row.schemaFormat, row.schemaDefinition⟩, ?_, subject, version, format, definition⟩
  unfold joined
  rw [found]
  rfl

/-- The first of the rows in descending order is none below another. -/
theorem head?_insertionSort_desc {rows : List Schema} {first : Schema}
    (isFirst : (rows.insertionSort fun a b => b.version ≤ a.version).head? = some first) :
    first ∈ rows ∧ ∀ other ∈ rows, other.version ≤ first.version := by
  obtain ⟨rest, sorted⟩ := head?_eq_some_iff.mp isFirst
  have members : ∀ schema, schema ∈ rows ↔ schema ∈ first :: rest := by
    intro schema
    rw [← sorted]
    exact (mem_insertionSort _).symm
  have ordered : (first :: rest).Pairwise fun a b => b.version ≤ a.version := by
    rw [← sorted]
    have total : Std.Total (fun a b : Schema => b.version ≤ a.version) := ⟨fun a b => Nat.le_total b.version a.version⟩
    have transitive : IsTrans Schema (fun a b => b.version ≤ a.version) := ⟨fun a b c first second => Nat.le_trans second first⟩
    exact pairwise_insertionSort _ rows
  refine ⟨(members first).mpr mem_cons_self, fun other inside => ?_⟩
  obtain rfl | later := mem_cons.mp ((members other).mp inside)
  · exact le_rfl
  · exact (pairwise_cons.mp ordered).1 other later

/-- A schema that was registered. -/
def Shows (schema : Schema) (r : Registration) : Prop :=
  schema.subject = r.subject ∧ schema.version = r.version ∧ schema.schemaType = r.schemaType ∧ schema.schema = r.schema

theorem shows_filterMap {versions : List VersionRow} (tells : Forall₂ s.Tells versions ledger) :
    Forall₂ Shows (versions.filterMap s.joined) ledger := by
  induction tells with
  | nil => exact .nil
  | cons first _ ih =>
    obtain ⟨schema, joins, same⟩ := joined_of_tells first
    rw [filterMap_cons_some joins]
    exact .cons same ih

/-- The rows of one organization and subject. -/
theorem shows_own (holds : s.Holds ledger) (subject organizationId : String) :
    Forall₂ Shows ((s.versions.filter fun v => v.subject = subject ∧ v.organizationId = organizationId).filterMap s.joined)
      (ledger.filter fun r => r.subject = subject ∧ r.organizationId = organizationId) := by
  refine shows_filterMap (rel_filter ?_ holds)
  rintro v r ⟨organization, name, -⟩
  simp [organization, name]

/-- **The latest schema is the registration of the greatest version.** -/
theorem getLatestSchema_answers (holds : s.Holds ledger) (subject organizationId : String) :
    Answers ledger subject organizationId (s.getLatestSchema subject organizationId) := by
  obtain ⟨sound, complete⟩ := exists_related (shows_own holds subject organizationId)
  have own : ∀ r, r ∈ ledger.filter (fun r => decide (r.subject = subject ∧ r.organizationId = organizationId)) ↔
      r ∈ ledger ∧ r.subject = subject ∧ r.organizationId = organizationId := by
    intro r
    rw [mem_filter, decide_eq_true_iff]
  cases latest : s.getLatestSchema subject organizationId with
  | none =>
    rintro r inside ⟨name, organization⟩
    obtain ⟨schema, there, -⟩ := complete r ((own r).mpr ⟨inside, name, organization⟩)
    have sorted := (mem_insertionSort fun a b : Schema => b.version ≤ a.version).mpr there
    rw [head?_eq_none_iff.mp latest] at sorted
    cases sorted
  | some schema =>
    obtain ⟨there, greatest⟩ := head?_insertionSort_desc latest
    obtain ⟨r, inside, same⟩ := sound schema there
    obtain ⟨inside, name, organization⟩ := (own r).mp inside
    refine ⟨r, inside, ⟨name, organization⟩, fun other otherInside mine => ?_, same.1.trans name, same.2⟩
    obtain ⟨schema', there', same'⟩ := complete other ((own other).mpr ⟨otherInside, mine⟩)
    rw [← same'.2.1, ← same.2.1]
    exact greatest schema' there'

/-! ## What the statements do to it -/

/-- Two rows of one id are one row. -/
theorem find?_id {row : SchemaRow} (inside : row ∈ s.schemas) : s.schemas.find? (fun other => other.id = row.id) = some row := by
  cases found : s.schemas.find? fun other => other.id = row.id with
  | none => exact absurd (by simp) (find?_eq_none.mp found row inside)
  | some other =>
    have same : other.id = row.id := by simpa using find?_some found
    by_contra different
    have apart : other ≠ row := fun equal => different (congrArg some equal)
    have symmetric : Std.Symm fun a b : SchemaRow => a.id ≠ b.id := ⟨fun _ _ unlike => unlike.symm⟩
    exact s.primaryKey.forall (mem_of_find?_eq_some found) inside apart same

/-- The text is stored already only as what it is registered as now. -/
def StoredAlike (s : PostgresSchemaStorage) (schemaType : SchemaFormat) (schema : String) : Prop :=
  ∀ row ∈ s.schemas, row.schemaHash = hash schema → row.schemaFormat = schemaType ∧ row.schemaDefinition = schema

instance StoredAlike.decidable (schemaType : SchemaFormat) (schema : String) : Decidable (StoredAlike hash s schemaType schema) :=
  inferInstanceAs (Decidable (∀ row ∈ _, _))

variable {hash} {s' : PostgresSchemaStorage} {nextval id version : Nat} {schemaType : SchemaFormat} {schema : String}

theorem upsertSchema_some (upserted : s.upsertSchema hash nextval schemaType schema = some (id, s')) :
    s'.organizations = s.organizations ∧
      ((s'.schemas = s.schemas ∧ ∃ row ∈ s.schemas, row.id = id ∧ row.schemaHash = hash schema) ∨
        s'.schemas = s.schemas ++ [⟨id, schemaType, schema, hash schema⟩]) := by
  unfold upsertSchema at upserted
  cases found : s.schemas.find? fun row => row.schemaHash = hash schema with
  | some row =>
    rw [found] at upserted
    obtain ⟨rfl, rfl⟩ := Prod.mk.inj (Option.some.inj upserted)
    exact ⟨rfl, .inl ⟨rfl, row, mem_of_find?_eq_some found, rfl, by simpa using find?_some found⟩⟩
  | none =>
    rw [found] at upserted
    simp only at upserted
    split_ifs at upserted
    obtain ⟨rfl, rfl⟩ := Prod.mk.inj (Option.some.inj upserted)
    exact ⟨rfl, .inr rfl⟩

theorem insertVersion_some (inserted : s.insertVersion hash nextval subject organizationId version schemaType schema = some (id, s')) :
    s'.organizations = s.organizations ∧ s'.versions = s.versions ++ [⟨organizationId, subject, version, id⟩] ∧
      ((s'.schemas = s.schemas ∧ ∃ row ∈ s.schemas, row.id = id ∧ row.schemaHash = hash schema) ∨
        s'.schemas = s.schemas ++ [⟨id, schemaType, schema, hash schema⟩]) := by
  unfold insertVersion at inserted
  split_ifs at inserted
  obtain ⟨upserted, done, equal⟩ := Option.map_eq_some_iff.mp inserted
  obtain ⟨rfl, rfl⟩ := Prod.mk.inj equal
  obtain ⟨organizations, schemas⟩ := upsertSchema_some done
  exact ⟨organizations, rfl, schemas⟩

theorem Tells.append {v : VersionRow} {r : Registration} (tells : s.Tells v r) {more : List SchemaRow}
    (grown : s'.schemas = s.schemas ++ more) : s'.Tells v r := by
  obtain ⟨organization, name, number, row, found, format, definition⟩ := tells
  refine ⟨organization, name, number, row, ?_, format, definition⟩
  rw [grown, find?_append, found]
  rfl

/-- A version is registered as it was asked for if its text is stored alike. -/
theorem Holds.insertVersion (holds : s.Holds ledger)
    (inserted : s.insertVersion hash nextval subject organizationId version schemaType schema = some (id, s'))
    (alike : StoredAlike hash s schemaType schema) :
    s'.Holds (ledger ++ [⟨organizationId, subject, version, schemaType, schema⟩]) := by
  obtain ⟨-, versions, schemas⟩ := insertVersion_some inserted
  have old : ∀ v r, s.Tells v r → s'.Tells v r := by
    intro v r tells
    obtain ⟨same, -⟩ | grown := schemas
    · exact tells.append (same.trans (append_nil _).symm)
    · exact tells.append grown
  have new : s'.Tells ⟨organizationId, subject, version, id⟩ ⟨organizationId, subject, version, schemaType, schema⟩ := by
    obtain ⟨same, row, inside, rfl, hashed⟩ | grown := schemas
    · exact ⟨rfl, rfl, rfl, row, find?_id (same ▸ inside), alike row inside hashed⟩
    · have inside : ⟨id, schemaType, schema, hash schema⟩ ∈ s'.schemas := by
        rw [grown]
        exact mem_append_right _ mem_cons_self
      exact ⟨rfl, rfl, rfl, _, find?_id inside, rfl, rfl⟩
  show Forall₂ s'.Tells s'.versions _
  rw [versions]
  exact rel_append (holds.imp old) (.cons new .nil)

/-- Schemas that come later change nothing of the versions that are there. -/
theorem Holds.joined (holds : s.Holds ledger) {more : List SchemaRow} (grown : s'.schemas = s.schemas ++ more) {v : VersionRow}
    (inside : v ∈ s.versions) : s'.joined v = s.joined v := by
  obtain ⟨r, -, tells⟩ := (exists_related holds).1 v inside
  obtain ⟨-, -, -, row, found, -⟩ := tells
  unfold PostgresSchemaStorage.joined
  rw [grown, find?_append, found]
  rfl

/-- The latest schema depends on the versions of the subject and their schemas. -/
theorem getLatestSchema_congr {subject organizationId : String}
    (rows : s'.versions.filter (fun v => v.subject = subject ∧ v.organizationId = organizationId) =
      s.versions.filter fun v => v.subject = subject ∧ v.organizationId = organizationId)
    (joins : ∀ v ∈ s.versions, s'.joined v = s.joined v) :
    s'.getLatestSchema subject organizationId = s.getLatestSchema subject organizationId := by
  unfold getLatestSchema
  rw [rows, filterMap_congr fun v inside => joins v (mem_filter.mp inside).1]

theorem getLatestSchema_insertVersion (holds : s.Holds ledger)
    (inserted : s.insertVersion hash nextval subject organizationId version schemaType schema = some (id, s')) {other : String}
    (different : other ≠ subject) (organization : String) :
    s'.getLatestSchema other organization = s.getLatestSchema other organization := by
  obtain ⟨-, versions, schemas⟩ := insertVersion_some inserted
  apply getLatestSchema_congr
  · rw [versions, filter_append, filter_singleton]
    simp [different.symm]
  · intro v inside
    obtain ⟨same, -⟩ | grown := schemas
    · exact holds.joined (same.trans (append_nil _).symm) inside
    · exact holds.joined grown inside

theorem getLatestSchema_filter {keep : VersionRow → Bool} {other : String} (keeps : ∀ v : VersionRow, v.subject = other → keep v = true)
    (organization : String) :
    getLatestSchema { s with versions := s.versions.filter keep } other organization = s.getLatestSchema other organization := by
  refine getLatestSchema_congr (filter_filter.trans (filter_congr fun v _ => ?_)) fun v _ => rfl
  by_cases named : v.subject = other
  · simp [named, keeps v named]
  · simp [named]

theorem getLatestSchema_deleteSubject {subject other : String} (different : other ≠ subject) (organizationId organization : String) :
    (s.deleteSubject subject organizationId).getLatestSchema other organization = s.getLatestSchema other organization :=
  getLatestSchema_filter (fun v named => by simp [named, different]) organization

theorem getLatestSchema_deleteVersion {subject other : String} (different : other ≠ subject) (version : Nat)
    (organizationId organization : String) :
    (s.deleteVersion subject version organizationId).getLatestSchema other organization = s.getLatestSchema other organization :=
  getLatestSchema_filter (fun v named => by simp [named, different]) organization

theorem Holds.deleteSubject (holds : s.Holds ledger) (subject organizationId : String) :
    (s.deleteSubject subject organizationId).Holds
      (ledger.filter fun r => ¬ (r.subject = subject ∧ r.organizationId = organizationId)) := by
  refine rel_filter ?_ holds
  rintro v r ⟨organization, name, -⟩
  simp [organization, name]

theorem Holds.deleteVersion (holds : s.Holds ledger) (subject : String) (version : Nat) (organizationId : String) :
    (s.deleteVersion subject version organizationId).Holds
      (ledger.filter fun r => ¬ (r.subject = subject ∧ r.version = version ∧ r.organizationId = organizationId)) := by
  refine rel_filter ?_ holds
  rintro v r ⟨organization, name, number, -⟩
  simp [organization, name, number]

end PostgresSchemaStorage

end StreamHouse.Registry
