import Mathlib.Data.List.Infix
import StreamHouse.Lib.Run
import StreamHouse.Registry.AvroEvolution

/-!
# The history of a subject

`SchemaRegistry` over its in-memory storage: what a registration checks before it gives a
schema the next version, and what this means for the versions that are still there.
-/

namespace StreamHouse.Registry

open Lib List Option Function

/-! ## The storage -/

/-- `MemorySchemaStorage`. A subject has its versions with their ids, in the order of
registration; the counters do not wrap. -/
structure MemorySchemaStorage where
  nextId : Nat
  schemasById : Nat → Option Schema
  subjectVersions : String → List (Nat × Nat)
  subjectConfigs : String → Option CompatibilityMode
  globalCompat : CompatibilityMode

namespace MemorySchemaStorage

def new : MemorySchemaStorage where
  nextId := 1
  schemasById _ := none
  subjectVersions _ := []
  subjectConfigs _ := none
  globalCompat := .backward

/-- `max_by_key` over the versions: the last of the greatest. -/
def maxByVersion (versions : List (Nat × Nat)) : Option (Nat × Nat) :=
  versions.foldl (fun greatest entry =>
    match greatest with
    | none => some entry
    | some g => if g.1 ≤ entry.1 then some entry else some g) none

/-- `get_latest_schema`. -/
def getLatestSchema (s : MemorySchemaStorage) (subject : String) : Option Schema :=
  (maxByVersion (s.subjectVersions subject)).bind fun entry => s.schemasById entry.2

/-- `schema_exists`. -/
def schemaExists (s : MemorySchemaStorage) (subject text : String) : Option Nat :=
  (s.subjectVersions subject).findSome? fun entry =>
    match s.schemasById entry.2 with
    | some schema => if schema.schema = text then some entry.2 else none
    | none => none

/-- The latest version and one. -/
def nextVersion (s : MemorySchemaStorage) (subject : String) : Nat :=
  ((s.subjectVersions subject).map Prod.fst).foldl max 0 + 1

/-- `register_schema` of the storage. -/
def registerSchema (s : MemorySchemaStorage) (subject text : String) (schemaType : SchemaFormat) : Nat × MemorySchemaStorage :=
  match s.schemaExists subject text with
  | some existingId => (existingId, s)
  | none =>
    let schema : Schema := ⟨s.nextId, subject, s.nextVersion subject, schemaType, text⟩
    (s.nextId, { s with
      nextId := s.nextId + 1
      schemasById := update s.schemasById s.nextId (some schema)
      subjectVersions := update s.subjectVersions subject (s.subjectVersions subject ++ [(s.nextVersion subject, s.nextId)]) })

/-- `delete_version`. -/
def deleteVersion (s : MemorySchemaStorage) (subject : String) (version : Nat) : MemorySchemaStorage :=
  match (s.subjectVersions subject).find? fun entry => entry.1 = version with
  | none => s
  | some entry => { s with
      schemasById := update s.schemasById entry.2 none
      subjectVersions := update s.subjectVersions subject ((s.subjectVersions subject).eraseP fun e => e.1 = version) }

/-- `delete_subject`. -/
def deleteSubject (s : MemorySchemaStorage) (subject : String) : MemorySchemaStorage :=
  { s with
    schemasById := fun id => if id ∈ (s.subjectVersions subject).map Prod.snd then none else s.schemasById id
    subjectVersions := update s.subjectVersions subject [] }

def setSubjectConfig (s : MemorySchemaStorage) (subject : String) (mode : CompatibilityMode) : MemorySchemaStorage :=
  { s with subjectConfigs := update s.subjectConfigs subject (some mode) }

def setGlobalCompatibility (s : MemorySchemaStorage) (mode : CompatibilityMode) : MemorySchemaStorage :=
  { s with globalCompat := mode }

/-- `get_compatibility_mode`. -/
def getCompatibilityMode (s : MemorySchemaStorage) (subject : String) : CompatibilityMode :=
  (s.subjectConfigs subject).getD s.globalCompat

end MemorySchemaStorage

open MemorySchemaStorage

/-! ## The registry -/

/-- The Protobuf branch of `validate_schema`. What `trim` takes away is never looked for. -/
def validateProtobuf (schema : List Char) : Except SchemaError Unit :=
  if schema = [] then .error (.invalidSchema "Empty Protobuf schema")
  else if ¬ "syntax".toList <:+: schema then .error (.invalidSchema "Protobuf schema missing 'syntax' declaration")
  else if ¬ "message".toList <:+: schema ∧ ¬ "enum".toList <:+: schema then
    .error (.invalidSchema "Protobuf schema must contain at least one message or enum definition")
  else if schema.count '{' ≠ schema.count '}' then .error (.invalidSchema "Protobuf schema has unbalanced braces")
  else if schema.count '{' = 0 then .error (.invalidSchema "Protobuf schema has no message or enum bodies")
  else .ok ()

variable (parsers : Parsers)

/-- `validate_schema`. -/
def validateSchema (schema : String) : SchemaFormat → Except SchemaError Unit
  | .avro =>
    match parsers.avro schema with
    | .error e => .error (.invalidSchema ("Invalid Avro schema: " ++ e))
    | .ok _ => .ok ()
  | .protobuf => validateProtobuf schema.toList
  | .json =>
    match parsers.json schema with
    | .error e => .error (.invalidSchema ("Invalid JSON schema: " ++ e))
    | .ok json =>
      if (json.get "$schema").isNone ∧ (json.get "type").isNone then
        .error (.invalidSchema "Not a valid JSON Schema (missing $schema or type)")
      else .ok ()

/-- `{:?}` of a mode. -/
def CompatibilityMode.debug : CompatibilityMode → String
  | .backward => "Backward"
  | .forward => "Forward"
  | .full => "Full"
  | .backwardTransitive => "BackwardTransitive"
  | .forwardTransitive => "ForwardTransitive"
  | .fullTransitive => "FullTransitive"
  | .none => "None"

/-- The comparison with the latest schema in `register_schema`. -/
def checkLatest (s : MemorySchemaStorage) (subject schema : String) (schemaType : SchemaFormat) : Except SchemaError Unit :=
  match s.getLatestSchema subject with
  | none => .ok ()
  | some latest => do
    let compatibility := s.getCompatibilityMode subject
    if ← checkCompatibility parsers latest schema schemaType compatibility then .ok ()
    else .error (.incompatibleSchema ("New schema is not compatible with version " ++ toString latest.version ++ " under " ++
      compatibility.debug ++ " mode"))

/-- `SchemaRegistry::register_schema`: the schema is compared with the latest one before it is
looked for. -/
def registerSchema (s : MemorySchemaStorage) (subject schema : String) (schemaType : Option SchemaFormat) :
    Except SchemaError Nat × MemorySchemaStorage :=
  let schemaType := schemaType.getD .avro
  match validateSchema parsers schema schemaType with
  | .error e => (.error e, s)
  | .ok () =>
    match checkLatest parsers s subject schema schemaType with
    | .error e => (.error e, s)
    | .ok () =>
      match s.schemaExists subject schema with
      | some existingId => (.ok existingId, s)
      | none =>
        let (id, s') := s.registerSchema subject schema schemaType
        (.ok id, s')

/-- The calls that change the storage. -/
inductive RegistryCall where
  | registerSchema (subject schema : String) (schemaType : Option SchemaFormat)
  | deleteVersion (subject : String) (version : Nat)
  | deleteSubject (subject : String)
  | setSubjectCompatibility (subject : String) (mode : CompatibilityMode)
  | setGlobalCompatibility (mode : CompatibilityMode)

def MemorySchemaStorage.step (s : MemorySchemaStorage) : RegistryCall → MemorySchemaStorage
  | .registerSchema subject schema schemaType => (Registry.registerSchema parsers s subject schema schemaType).2
  | .deleteVersion subject version => s.deleteVersion subject version
  | .deleteSubject subject => s.deleteSubject subject
  | .setSubjectCompatibility subject mode => s.setSubjectConfig subject mode
  | .setGlobalCompatibility mode => s.setGlobalCompatibility mode

/-! ## What the storage holds -/

namespace MemorySchemaStorage

/-- The subject has the text under an id. -/
def RegisteredAs (s : MemorySchemaStorage) (subject text : String) (id : Nat) : Prop :=
  ∃ version schema, (version, id) ∈ s.subjectVersions subject ∧ s.schemasById id = some schema ∧ schema.schema = text

/-- The versions of a subject that are still there. -/
def present (s : MemorySchemaStorage) (subject : String) : List Schema :=
  (s.subjectVersions subject).filterMap fun entry => s.schemasById entry.2

/-- Every version of a subject has its valid schema; all are of one format, and no two have one text. -/
structure Inv (s : MemorySchemaStorage) : Prop where
  stored : ∀ subject, ∀ entry ∈ s.subjectVersions subject, ∃ schema, s.schemasById entry.2 = some schema ∧
    schema.subject = subject ∧ schema.version = entry.1 ∧ validateSchema parsers schema.schema schema.schemaType = .ok ()
  ascending : ∀ subject, (s.subjectVersions subject).Pairwise fun a b => a.1 < b.1
  fresh : ∀ subject, ∀ entry ∈ s.subjectVersions subject, entry.2 < s.nextId
  oneFormat : ∀ subject, ∀ a ∈ s.present subject, ∀ b ∈ s.present subject, a.schemaType = b.schemaType
  oneId : ∀ subject text i j, s.RegisteredAs subject text i → s.RegisteredAs subject text j → i = j

variable {parsers} {s s' : MemorySchemaStorage} {subject text : String}

theorem mem_present {schema : Schema} :
    schema ∈ s.present subject ↔ ∃ entry ∈ s.subjectVersions subject, s.schemasById entry.2 = some schema := by
  rw [present, mem_filterMap]

/-- The latest version is one of the versions, and missing only where there are none. -/
theorem maxByVersion_cases (versions : List (Nat × Nat)) :
    (versions = [] ∧ maxByVersion versions = none) ∨ ∃ entry ∈ versions, maxByVersion versions = some entry := by
  induction versions using reverseRecOn with
  | nil => exact .inl ⟨rfl, rfl⟩
  | append_singleton versions last ih =>
    right
    rw [maxByVersion, foldl_append]
    change ∃ entry ∈ versions ++ [last], (match maxByVersion versions with
      | none => some last
      | some g => if g.1 ≤ last.1 then some last else some g) = some entry
    obtain ⟨-, none⟩ | ⟨entry, inside, found⟩ := ih
    · exact ⟨last, by simp, by rw [none]⟩
    · simp only [found]
      by_cases later : entry.1 ≤ last.1
      · exact ⟨last, by simp, if_pos later⟩
      · exact ⟨entry, mem_append_left _ inside, if_neg later⟩

theorem Inv.latest_cases (inv : s.Inv parsers) (subject : String) :
    (s.subjectVersions subject = [] ∧ s.getLatestSchema subject = none) ∨
      ∃ latest ∈ s.present subject, s.getLatestSchema subject = some latest := by
  rw [getLatestSchema]
  obtain ⟨none, nothing⟩ | ⟨entry, inside, found⟩ := maxByVersion_cases (s.subjectVersions subject)
  · exact .inl ⟨none, by rw [nothing]; rfl⟩
  · obtain ⟨schema, known, -⟩ := inv.stored subject entry inside
    exact .inr ⟨schema, mem_present.mpr ⟨entry, inside, known⟩, by rw [found]; exact known⟩

theorem schemaExists_some {id : Nat} (found : s.schemaExists subject text = some id) : s.RegisteredAs subject text id := by
  obtain ⟨entry, inside, hit⟩ := exists_of_findSome?_eq_some found
  cases known : s.schemasById entry.2 with
  | none =>
    rw [known] at hit
    cases hit
  | some schema =>
    simp only [known] at hit
    split at hit
    · next same =>
      obtain rfl := some.inj hit
      exact ⟨entry.1, schema, inside, known, same⟩
    · cases hit

theorem schemaExists_none (missing : s.schemaExists subject text = none) (id : Nat) : ¬ s.RegisteredAs subject text id := by
  rintro ⟨version, schema, inside, known, same⟩
  have passed := findSome?_eq_none_iff.mp missing (version, id) inside
  simp only [known, if_pos same] at passed
  cases passed

/-- `schema_exists` finds the id that the text has. -/
theorem Inv.schemaExists_iff (inv : s.Inv parsers) {id : Nat} :
    s.schemaExists subject text = some id ↔ s.RegisteredAs subject text id := by
  refine ⟨schemaExists_some, fun registered => ?_⟩
  cases found : s.schemaExists subject text with
  | none => exact absurd registered (schemaExists_none found id)
  | some other => rw [inv.oneId subject text other id (schemaExists_some found) registered]

/-! ## What the calls keep -/

theorem Inv.new : new.Inv parsers where
  stored _ _ no := nomatch no
  ascending _ := .nil
  fresh _ _ no := nomatch no
  oneFormat _ _ no := nomatch no
  oneId _ _ _ _ := fun ⟨_, _, no, _⟩ => nomatch no

/-- Versions may go, as long as those that stay keep their schemas. -/
theorem Inv.shrink (inv : s.Inv parsers) (fewer : ∀ subject, (s'.subjectVersions subject).Sublist (s.subjectVersions subject))
    (kept : ∀ subject, ∀ entry ∈ s'.subjectVersions subject, s'.schemasById entry.2 = s.schemasById entry.2)
    (next : s'.nextId = s.nextId) : s'.Inv parsers := by
  have shrunk : ∀ subject, ∀ schema ∈ s'.present subject, schema ∈ s.present subject := by
    intro subject schema inside
    obtain ⟨entry, listed, known⟩ := mem_present.mp inside
    exact mem_present.mpr ⟨entry, (fewer subject).subset listed, by rw [← kept subject entry listed, known]⟩
  have registered : ∀ subject text id, s'.RegisteredAs subject text id → s.RegisteredAs subject text id := by
    rintro subject text id ⟨version, schema, listed, known, same⟩
    exact ⟨version, schema, (fewer subject).subset listed, by rw [← kept subject (version, id) listed, known], same⟩
  refine ⟨fun subject entry listed => ?_, fun subject => (inv.ascending subject).sublist (fewer subject), fun subject entry listed => ?_,
    fun subject a inA b inB => inv.oneFormat subject a (shrunk subject a inA) b (shrunk subject b inB),
    fun subject text i j first second => inv.oneId subject text i j (registered _ _ _ first) (registered _ _ _ second)⟩
  · rw [kept subject entry listed]
    exact inv.stored subject entry ((fewer subject).subset listed)
  · rw [next]
    exact inv.fresh subject entry ((fewer subject).subset listed)

/-- An id belongs to one version of one subject. -/
theorem Inv.entry_of_id (inv : s.Inv parsers) {subject' : String} {a b : Nat × Nat} (inA : a ∈ s.subjectVersions subject)
    (inB : b ∈ s.subjectVersions subject') (same : a.2 = b.2) : subject = subject' ∧ a.1 = b.1 := by
  obtain ⟨schema, known, ofA, versionA, -⟩ := inv.stored subject a inA
  obtain ⟨schema', known', ofB, versionB, -⟩ := inv.stored subject' b inB
  rw [same, known'] at known
  obtain rfl := some.inj known
  exact ⟨ofA.symm.trans ofB, versionA.symm.trans versionB⟩

theorem Inv.deleteVersion (inv : s.Inv parsers) (subject : String) (version : Nat) : (s.deleteVersion subject version).Inv parsers := by
  rw [MemorySchemaStorage.deleteVersion]
  cases found : (s.subjectVersions subject).find? fun entry => entry.1 = version with
  | none => exact inv
  | some gone =>
    have goneIn := mem_of_find?_eq_some found
    have isVersion : gone.1 = version := by simpa using find?_some found
    refine inv.shrink (fun subject' => ?_) (fun subject' entry listed => ?_) rfl
    · by_cases here : subject' = subject
      · subst here
        simp only [update_self]
        exact eraseP_sublist
      · simp only [update_of_ne here]
        exact Sublist.refl _
    · have other : entry.2 ≠ gone.2 := by
        intro same
        by_cases here : subject' = subject
        · subst here
          simp only [update_self] at listed
          -- the versions ascend, so none but the first that is found has this version
          obtain ⟨first, before, after, earlier, isFirst, split, erased⟩ :=
            exists_of_eraseP goneIn (p := fun e => decide (e.1 = version)) (by simpa using isVersion)
          have ascending := inv.ascending subject'
          rw [split, List.pairwise_append, pairwise_cons] at ascending
          rw [erased, mem_append] at listed
          have sameVersion : entry.1 = first.1 := by
            rw [(inv.entry_of_id (by rw [split]; simp only [mem_append, mem_cons]; tauto) goneIn same).2, isVersion]
            exact (of_decide_eq_true isFirst).symm
          obtain inBefore | inAfter := listed
          · exact earlier entry inBefore (by simpa [sameVersion] using isFirst)
          · have := ascending.2.1.1 entry inAfter
            omega
        · simp only [update_of_ne here] at listed
          exact here (inv.entry_of_id listed goneIn same).1
      simp only [update_of_ne other]

theorem Inv.deleteSubject (inv : s.Inv parsers) (subject : String) : (s.deleteSubject subject).Inv parsers := by
  refine inv.shrink (fun subject' => ?_) (fun subject' entry listed => ?_) rfl
  · by_cases here : subject' = subject
    · subst here
      simp [MemorySchemaStorage.deleteSubject]
    · simp [MemorySchemaStorage.deleteSubject, update_of_ne here]
  · by_cases here : subject' = subject
    · subst here
      simp [MemorySchemaStorage.deleteSubject] at listed
    · simp only [MemorySchemaStorage.deleteSubject, update_of_ne here] at listed ⊢
      refine if_neg fun gone => ?_
      obtain ⟨removed, inside, same⟩ := mem_map.mp gone
      exact here (inv.entry_of_id listed inside same.symm).1

theorem lt_nextVersion {entry : Nat × Nat} (inside : entry ∈ s.subjectVersions subject) : entry.1 < s.nextVersion subject := by
  have bounded : ∀ (versions : List Nat) (start : Nat), start ≤ versions.foldl max start ∧ ∀ v ∈ versions, v ≤ versions.foldl max start := by
    intro versions
    induction versions with
    | nil => exact fun start => ⟨Nat.le_refl _, fun _ no => nomatch no⟩
    | cons v versions ih =>
      intro start
      obtain ⟨above, each⟩ := ih (max start v)
      refine ⟨Nat.le_trans (Nat.le_max_left _ _) above, fun w listed => ?_⟩
      obtain rfl | later := mem_cons.mp listed
      · exact Nat.le_trans (Nat.le_max_right _ _) above
      · exact each w later
  exact Nat.lt_succ_of_le ((bounded _ 0).2 entry.1 (mem_map.mpr ⟨entry, inside, rfl⟩))

/-- A valid schema of the subject's format, under a text that is not registered. -/
theorem Inv.registerSchema (inv : s.Inv parsers) {schemaType : SchemaFormat} (valid : validateSchema parsers text schemaType = .ok ())
    (format : ∀ schema ∈ s.present subject, schema.schemaType = schemaType) :
    (s.registerSchema subject text schemaType).2.Inv parsers := by
  rw [MemorySchemaStorage.registerSchema]
  cases missing : s.schemaExists subject text with
  | some id => exact inv
  | none =>
    set schema : Schema := ⟨s.nextId, subject, s.nextVersion subject, schemaType, text⟩ with isSchema
    set s' : MemorySchemaStorage := { s with
      nextId := s.nextId + 1
      schemasById := update s.schemasById s.nextId (some schema)
      subjectVersions := update s.subjectVersions subject
        (s.subjectVersions subject ++ [(s.nextVersion subject, s.nextId)]) } with isNext
    -- an entry is an earlier one with its schema, or the new one
    have entries : ∀ subject', ∀ entry ∈ s'.subjectVersions subject',
        (entry ∈ s.subjectVersions subject' ∧ s'.schemasById entry.2 = s.schemasById entry.2) ∨
          (subject' = subject ∧ entry = (s.nextVersion subject, s.nextId) ∧ s'.schemasById entry.2 = some schema) := by
      intro subject' entry listed
      have old : entry ∈ s.subjectVersions subject' → s'.schemasById entry.2 = s.schemasById entry.2 := fun before =>
        update_of_ne (Nat.ne_of_lt (inv.fresh subject' entry before)) _ _
      by_cases here : subject' = subject
      · subst here
        simp only [isNext, update_self, mem_append, mem_singleton] at listed
        obtain before | rfl := listed
        · exact .inl ⟨before, old before⟩
        · exact .inr ⟨rfl, rfl, update_self _ _ _⟩
      · simp only [isNext, update_of_ne here] at listed
        exact .inl ⟨listed, old listed⟩
    have present : ∀ subject', ∀ a ∈ s'.present subject', a ∈ s.present subject' ∨ (subject' = subject ∧ a = schema) := by
      intro subject' a inside
      obtain ⟨entry, listed, known⟩ := mem_present.mp inside
      obtain ⟨before, same⟩ | ⟨here, -, isNew⟩ := entries subject' entry listed
      · exact .inl (mem_present.mpr ⟨entry, before, by rw [← same, known]⟩)
      · rw [isNew] at known
        exact .inr ⟨here, (some.inj known).symm⟩
    have registered : ∀ subject' text' id, s'.RegisteredAs subject' text' id →
        s.RegisteredAs subject' text' id ∨ (subject' = subject ∧ text' = text ∧ id = s.nextId) := by
      rintro subject' text' id ⟨version, a, listed, known, same⟩
      obtain ⟨before, isOld⟩ | ⟨here, isEntry, isNew⟩ := entries subject' _ listed
      · exact .inl ⟨version, a, before, by rw [← isOld, known], same⟩
      · rw [isNew] at known
        obtain rfl := some.inj known
        exact .inr ⟨here, same.symm, (Prod.mk.inj isEntry).2⟩
    refine ⟨fun subject' entry listed => ?_, fun subject' => ?_, fun subject' entry listed => ?_, fun subject' a inA b inB => ?_,
      fun subject' text' i j first second => ?_⟩
    · obtain ⟨before, same⟩ | ⟨here, rfl, isNew⟩ := entries subject' entry listed
      · rw [same]
        exact inv.stored subject' entry before
      · exact ⟨schema, isNew, here.symm, rfl, valid⟩
    · by_cases here : subject' = subject
      · subst here
        simp only [update_self]
        refine List.pairwise_append.mpr ⟨inv.ascending _, pairwise_singleton _ _, fun a inA b last => ?_⟩
        rw [mem_singleton.mp last]
        exact lt_nextVersion inA
      · simp only [update_of_ne here]
        exact inv.ascending subject'
    · obtain ⟨before, -⟩ | ⟨-, rfl, -⟩ := entries subject' entry listed
      · exact Nat.lt_succ_of_lt (inv.fresh subject' entry before)
      · exact Nat.lt_succ_self _
    · obtain oldA | ⟨rfl, rfl⟩ := present subject' a inA <;> obtain oldB | ⟨here, rfl⟩ := present subject' b inB
      · exact inv.oneFormat subject' a oldA b oldB
      · subst here
        exact format a oldA
      · exact (format b oldB).symm
      · rfl
    · obtain oldI | ⟨here, rfl, rfl⟩ := registered _ _ _ first <;> obtain oldJ | ⟨here', isText, rfl⟩ := registered _ _ _ second
      · exact inv.oneId subject' text' i j oldI oldJ
      · subst here' isText
        exact absurd oldI (schemaExists_none missing i)
      · subst here
        exact absurd oldJ (schemaExists_none missing j)
      · rfl

end MemorySchemaStorage

/-! ## Registrations -/

open MemorySchemaStorage

variable {parsers} {s : MemorySchemaStorage} {subject text : String}

theorem checkLatest_ok {schemaType : SchemaFormat} : checkLatest parsers s subject text schemaType = .ok () ↔
    ∀ latest, s.getLatestSchema subject = some latest →
      checkCompatibility parsers latest text schemaType (s.getCompatibilityMode subject) = .ok true := by
  rw [checkLatest]
  cases s.getLatestSchema subject with
  | none => exact iff_of_true rfl fun _ no => nomatch no
  | some latest =>
    simp only [some.injEq, forall_eq']
    cases checkCompatibility parsers latest text schemaType (s.getCompatibilityMode subject) with
    | error e => exact iff_of_false (fun no => nomatch no) (fun no => nomatch no)
    | ok verdict =>
      cases verdict with
      | false => exact iff_of_false (fun no => nomatch no) (fun no => nomatch no)
      | true => exact iff_of_true rfl rfl

/-- What a registration that is answered with an id has passed, and where the id comes from. -/
theorem registerSchema_ok {schemaType : Option SchemaFormat} {id : Nat} {s' : MemorySchemaStorage} :
    registerSchema parsers s subject text schemaType = (.ok id, s') ↔
      validateSchema parsers text (schemaType.getD .avro) = .ok () ∧
        checkLatest parsers s subject text (schemaType.getD .avro) = .ok () ∧
        ((s.schemaExists subject text = some id ∧ s' = s) ∨
          (s.schemaExists subject text = none ∧ s.registerSchema subject text (schemaType.getD .avro) = (id, s'))) := by
  rw [registerSchema]
  cases validateSchema parsers text (schemaType.getD .avro) with
  | error e => simp
  | ok u =>
    cases u
    cases checkLatest parsers s subject text (schemaType.getD .avro) with
    | error e => simp
    | ok u =>
      cases u
      cases s.schemaExists subject text with
      | some existing => simp [eq_comm]
      | none => simp [Prod.ext_iff]

/-- A schema that is compatible with the latest version has the format of all versions. -/
theorem MemorySchemaStorage.Inv.format_of_checkLatest (inv : s.Inv parsers) {schemaType : SchemaFormat}
    (passed : checkLatest parsers s subject text schemaType = .ok ()) : ∀ schema ∈ s.present subject, schema.schemaType = schemaType := by
  intro schema inside
  obtain ⟨nothing, -⟩ | ⟨latest, listed, isLatest⟩ := inv.latest_cases subject
  · rw [present, nothing] at inside
    cases inside
  · have compatible := checkLatest_ok.mp passed latest isLatest
    rw [checkCompatibility] at compatible
    split at compatible
    · cases compatible
    · next format => exact (inv.oneFormat subject schema inside latest listed).trans (not_not.mp format)

theorem MemorySchemaStorage.Inv.step (inv : s.Inv parsers) (call : RegistryCall) : (s.step parsers call).Inv parsers := by
  cases call with
  | registerSchema subject text schemaType =>
    cases outcome : Registry.registerSchema parsers s subject text schemaType with
    | mk result s' =>
      simp only [MemorySchemaStorage.step, outcome]
      cases result with
      | error e =>
        have unchanged : s' = s := by
          rw [Registry.registerSchema] at outcome
          split at outcome
          · exact (Prod.mk.inj outcome).2.symm
          · split at outcome
            · exact (Prod.mk.inj outcome).2.symm
            · split at outcome <;> cases outcome
        rw [unchanged]
        exact inv
      | ok id =>
        obtain ⟨valid, passed, ⟨-, rfl⟩ | ⟨-, added⟩⟩ := registerSchema_ok.mp outcome
        · exact inv
        · have kept := inv.registerSchema valid (inv.format_of_checkLatest passed)
          rwa [added] at kept
  | deleteVersion subject version => exact inv.deleteVersion subject version
  | deleteSubject subject => exact inv.deleteSubject subject
  | setSubjectCompatibility subject mode => exact inv.shrink (fun _ => Sublist.refl _) (fun _ _ _ => rfl) rfl
  | setGlobalCompatibility mode => exact inv.shrink (fun _ => Sublist.refl _) (fun _ _ _ => rfl) rfl

/-! ## The history -/

variable (parsers) in
/-- The schema is compatible with this version of the subject, in the subject's mode. -/
def Passes (s : MemorySchemaStorage) (subject text : String) (schemaType : Option SchemaFormat) (version : Schema) : Prop :=
  checkCompatibility parsers version text (schemaType.getD .avro) (s.getCompatibilityMode subject) = .ok true

variable (parsers) in
/-- What is asked of a call: a text that the subject has is answered with its id, and a new
one that is registered in a transitive mode is compatible with all versions. -/
def Respected (s : MemorySchemaStorage) : RegistryCall → Prop
  | .registerSchema subject text schemaType =>
    (∀ id, s.RegisteredAs subject text id → registerSchema parsers s subject text schemaType = (.ok id, s)) ∧
      ((s.getCompatibilityMode subject).isTransitive = true → (∀ id, ¬ s.RegisteredAs subject text id) →
        ∀ id s', registerSchema parsers s subject text schemaType = (.ok id, s') →
          ∀ earlier ∈ s.present subject, Passes parsers s subject text schemaType earlier)
  | _ => True

variable (parsers) in
/-- The latest version speaks for all: it passes what is registered already, and in a
transitive mode a new schema passes no latest version without passing the earlier ones. -/
def LatestDecides (s : MemorySchemaStorage) : RegistryCall → Prop
  | .registerSchema subject text schemaType =>
    ∀ latest, s.getLatestSchema subject = some latest →
      ((∃ id, s.RegisteredAs subject text id) → Passes parsers s subject text schemaType latest) ∧
        ((s.getCompatibilityMode subject).isTransitive = true → (∀ id, ¬ s.RegisteredAs subject text id) →
          validateSchema parsers text (schemaType.getD .avro) = .ok () → Passes parsers s subject text schemaType latest →
            ∀ earlier ∈ s.present subject, Passes parsers s subject text schemaType earlier)
  | _ => True

/-- A text that is registered already is valid, if it passes the latest version. -/
theorem MemorySchemaStorage.Inv.valid_of_registered (inv : s.Inv parsers) {schemaType : SchemaFormat} {id : Nat}
    (registered : s.RegisteredAs subject text id) (passed : checkLatest parsers s subject text schemaType = .ok ()) :
    validateSchema parsers text schemaType = .ok () := by
  obtain ⟨version, schema, listed, known, rfl⟩ := registered
  obtain ⟨schema', known', -, -, valid⟩ := inv.stored subject _ listed
  rw [known] at known'
  obtain rfl := some.inj known'
  rwa [inv.format_of_checkLatest passed schema (mem_present.mpr ⟨_, listed, known⟩)] at valid

theorem respected_iff (inv : s.Inv parsers) (call : RegistryCall) : Respected parsers s call ↔ LatestDecides parsers s call := by
  cases call with
  | registerSchema subject text schemaType =>
    have checked : checkLatest parsers s subject text (schemaType.getD .avro) = .ok () ↔
        ∀ latest, s.getLatestSchema subject = some latest → Passes parsers s subject text schemaType latest := checkLatest_ok
    constructor
    · rintro ⟨again, transitive⟩ latest isLatest
      refine ⟨fun ⟨id, registered⟩ => ?_, fun mode missing valid passes => ?_⟩
      · exact checked.mp (registerSchema_ok.mp (again id registered)).2.1 latest isLatest
      · have passed : checkLatest parsers s subject text (schemaType.getD .avro) = .ok () :=
          checked.mpr fun latest' isLatest' => by
            rw [isLatest] at isLatest'
            rwa [← some.inj isLatest']
        have absent : s.schemaExists subject text = none :=
          eq_none_iff_forall_ne_some.mpr fun id found => missing id (schemaExists_some found)
        exact transitive mode missing _ _ (registerSchema_ok.mpr ⟨valid, passed, .inr ⟨absent, rfl⟩⟩)
    · intro decides
      refine ⟨fun id registered => ?_, fun mode missing id s' accepted earlier inside => ?_⟩
      · have passed := checked.mpr fun latest isLatest => (decides latest isLatest).1 ⟨id, registered⟩
        exact registerSchema_ok.mpr ⟨inv.valid_of_registered registered passed, passed, .inl ⟨inv.schemaExists_iff.mpr registered, rfl⟩⟩
      · obtain ⟨valid, passed, -⟩ := registerSchema_ok.mp accepted
        obtain ⟨nothing, -⟩ | ⟨latest, -, isLatest⟩ := inv.latest_cases subject
        · rw [present, nothing] at inside
          cases inside
        · exact (decides latest isLatest).2 mode missing valid (checked.mp passed latest isLatest) earlier inside
  | _ => exact Iff.rfl

/-- **When the history respects the mode**: in a run from the empty registry every call does
what is asked exactly if the latest version speaks for all at every call. -/
theorem registry_history_iff (parsers : Parsers) (calls : List RegistryCall) :
    (∀ before call after, calls = before ++ call :: after →
      Respected parsers (run (fun s c => s.step parsers c) new before) call) ↔
      Meets (fun s c => s.step parsers c) (LatestDecides parsers) new calls := by
  rw [← meets_iff_forall]
  exact meets_congr (fun s => s.Inv parsers) (fun s call inv => respected_iff inv call) (fun s call inv _ => inv.step call) Inv.new calls

namespace Example

/-- The age is a text. -/
def userWithTextAge : RecordSchema :=
  ⟨⟨"User", none⟩, [⟨"name", .primitive .string, none⟩, ⟨"age", .primitive .string, none⟩], by decide⟩

def userWithTextAgeText : String :=
  "\x7b\"type\":\"record\",\"name\":\"User\",\"fields\":[\x7b\"name\":\"name\",\"type\":\"string\"\x7d," ++
    "\x7b\"name\":\"age\",\"type\":\"string\"\x7d]\x7d"

def historyParsers : Parsers :=
  { Example.parsers with
    avro := fun text => if text = userWithTextAgeText then .ok (.record userWithTextAge) else Example.parsers.avro text }

/-- The age is there, then it is left out. -/
def history : List RegistryCall :=
  [.setSubjectCompatibility "users-value" .backwardTransitive, .registerSchema "users-value" userWithAgeText none,
    .registerSchema "users-value" userText none]

end Example

open Example

/-- A third version is not compared with the first. -/
theorem registry_history_fails : ¬ ∀ parsers : Parsers, parsers.ComparesCanonicalForms → ∀ calls : List RegistryCall,
    ∀ before call after, calls = before ++ call :: after →
      Respected parsers (run (fun s c => s.step parsers c) new before) call := by
  intro respected
  have third := respected historyParsers (fun _ _ => rfl) _ history (.registerSchema "users-value" userWithTextAgeText none) [] rfl
  have missing : (run (fun s c => s.step historyParsers c) new history).schemaExists "users-value"
      userWithTextAgeText = none := by decide
  have passes := third.2 (by decide) (schemaExists_none missing) 3 _ (Prod.ext (by decide) rfl)
    ⟨1, "users-value", 1, .avro, userWithAgeText⟩ (by decide)
  revert passes
  rw [Passes]
  decide

end StreamHouse.Registry
