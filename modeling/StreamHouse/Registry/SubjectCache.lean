import StreamHouse.Lib.ReadThrough
import StreamHouse.Registry.History
import StreamHouse.Registry.PostgresStorage

/-!
# The subject cache

`SchemaRegistry` in front of the storage that all organizations share. Its cache of latest schemas
is keyed by the subject alone. What an organization is told must be the latest of its own schemas.
-/

namespace StreamHouse.Registry

open Lib ReadThrough Option PostgresSchemaStorage

/-! ## The cache -/

/-- The tables, and what was registered in them and not deleted. -/
structure Registered where
  storage : PostgresSchemaStorage
  ledger : List Registration

structure SubjectRequest where
  subject : String
  organizationId : String
deriving DecidableEq

/-- What changes the tables. A version is inserted under a number that its call has read before. -/
inductive RegistryWrite where
  | register (nextval : Nat) (subject organizationId : String) (version : Nat) (schemaType : SchemaFormat) (schema : String)
  | deleteSubject (subject organizationId : String)
  | deleteVersion (subject : String) (version : Nat) (organizationId : String)

def RegistryWrite.subject : RegistryWrite → String
  | .register _ subject _ _ _ _ => subject
  | .deleteSubject subject _ => subject
  | .deleteVersion subject _ _ => subject

namespace SubjectCache

variable (hash : String → String)

def perform (r : Registered) : RegistryWrite → Option Registered
  | .register nextval subject organizationId version schemaType schema =>
    (r.storage.insertVersion hash nextval subject organizationId version schemaType schema).map fun inserted =>
      ⟨inserted.2, r.ledger ++ [⟨organizationId, subject, version, schemaType, schema⟩]⟩
  | .deleteSubject subject organizationId => some {
      storage := r.storage.deleteSubject subject organizationId
      ledger := r.ledger.filter fun r => ¬ (r.subject = subject ∧ r.organizationId = organizationId) }
  | .deleteVersion subject version organizationId => some {
      storage := r.storage.deleteVersion subject version organizationId
      ledger := r.ledger.filter fun r => ¬ (r.subject = subject ∧ r.version = version ∧ r.organizationId = organizationId) }

/-- `get_latest_schema` behind its cache, from which every writing call takes its subject. -/
def source : Source Registered SubjectRequest String (Option Schema) RegistryWrite where
  query r request := r.storage.getLatestSchema request.subject request.organizationId
  key := SubjectRequest.subject
  keeps := isSome
  apply w r := perform hash r w
  removes w := [fun key => key = w.subject]
  ttl _ := 300 * 1000
  trim := id

/-- A text that is registered is stored already only as what it is registered as now. -/
def Alike (r : Registered) : RegistryWrite → Prop
  | .register _ _ _ _ schemaType schema => r.storage.StoredAlike hash schemaType schema
  | _ => True

instance Alike.decidable (r : Registered) : DecidablePred (Alike hash r)
  | .register _ _ _ _ schemaType schema => inferInstanceAs (Decidable (r.storage.StoredAlike hash schemaType schema))
  | .deleteSubject _ _ => .isTrue trivial
  | .deleteVersion _ _ _ => .isTrue trivial

variable {hash} {r r' : Registered}

theorem perform_holds (holds : r.storage.Holds r.ledger) {w : RegistryWrite} (alike : Alike hash r w)
    (performed : perform hash r w = some r') : r'.storage.Holds r'.ledger := by
  cases w with
  | register nextval subject organizationId version schemaType schema =>
    obtain ⟨inserted, done, rfl⟩ := map_eq_some_iff.mp performed
    exact holds.insertVersion done alike
  | deleteSubject subject organizationId =>
    obtain rfl := some.inj performed
    exact holds.deleteSubject subject organizationId
  | deleteVersion subject version organizationId =>
    obtain rfl := some.inj performed
    exact holds.deleteVersion subject version organizationId

/-- A write changes what is told of its subject only. -/
theorem perform_other (holds : r.storage.Holds r.ledger) {w : RegistryWrite} (performed : perform hash r w = some r')
    {request : SubjectRequest} (other : request.subject ≠ w.subject) :
    r'.storage.getLatestSchema request.subject request.organizationId =
      r.storage.getLatestSchema request.subject request.organizationId := by
  cases w with
  | register nextval subject organizationId version schemaType schema =>
    obtain ⟨inserted, done, rfl⟩ := map_eq_some_iff.mp performed
    exact getLatestSchema_insertVersion holds done other request.organizationId
  | deleteSubject subject organizationId =>
    obtain rfl := some.inj performed
    exact getLatestSchema_deleteSubject other organizationId request.organizationId
  | deleteVersion subject version organizationId =>
    obtain rfl := some.inj performed
    exact getLatestSchema_deleteVersion other version organizationId request.organizationId

/-! ## Runs -/

abbrev CacheState := State Registered SubjectRequest String (Option Schema)

abbrev CacheStep := Action SubjectRequest String RegistryWrite

abbrev CacheCall := Call SubjectRequest RegistryWrite

variable (hash)

/-- A write registers what it is asked to, and if its answer is lost it changes nothing that is cached. -/
def FitWrite (s : CacheState) (w : RegistryWrite) (lost : Bool) : Prop :=
  ((perform hash s.store w).isSome = true → Alike hash s.store w) ∧ (lost = false ∨ RemovesChanged (source hash) s w lost)

instance FitWrite.decidable (s : CacheState) (w : RegistryWrite) (lost : Bool) : Decidable (FitWrite hash s w lost) :=
  inferInstanceAs (Decidable ((_ → _) ∧ (_ ∨ _)))

/-- The condition on a step. -/
def Fit (s : CacheState) : CacheStep → Prop
  | .lookup _ request now => FindsOwn (source hash) s request now
  | .put id _ => PutsCurrent (source hash) s (s.reads id)
  | .write w lost => FitWrite hash s w lost
  | _ => True

instance Fit.decidable (s : CacheState) : DecidablePred (Fit hash s)
  | .lookup _ request now =>
    inferInstanceAs (Decidable (∀ entry ∈ State.find s.cache request.subject, now < entry.expiresAt → entry.request = request))
  | .put id _ => inferInstanceAs (Decidable (PutsCurrent (source hash) s (s.reads id)))
  | .write w lost => inferInstanceAs (Decidable (FitWrite hash s w lost))
  | .fetch _ => .isTrue trivial
  | .remove _ => .isTrue trivial
  | .evict _ => .isTrue trivial

/-- The condition on a whole call, when calls do not overlap. -/
def FitCall (s : CacheState) : CacheCall → Prop
  | .read _ request now _ => FindsOwn (source hash) s request now
  | .write w lost => FitWrite hash s w lost

instance FitCall.decidable (s : CacheState) : DecidablePred (FitCall hash s)
  | .read _ request now _ =>
    inferInstanceAs (Decidable (∀ entry ∈ State.find s.cache request.subject, now < entry.expiresAt → entry.request = request))
  | .write w lost => inferInstanceAs (Decidable (FitWrite hash s w lost))

/-- The tables of every version hold what was registered. -/
def AllHold (s : CacheState) : Prop := ∀ version ≤ s.latest, (s.versions version).storage.Holds (s.versions version).ledger

variable {hash} {s : CacheState}

theorem FitWrite.removesChanged (inv : Inv (source hash) s) (all : AllHold s) {w : RegistryWrite} {lost : Bool}
    (fit : FitWrite hash s w lost) : RemovesChanged (source hash) s w lost := by
  obtain ⟨-, rfl | unseen⟩ := fit
  · intro r' performed entry inside changed
    refine ⟨_, List.mem_cons_self, ?_⟩
    have named : entry.2.request.subject = entry.1 := (inv.sound entry inside).named
    by_contra other
    rw [← named] at other
    exact changed (perform_other (all s.latest le_rfl) performed (by simpa using other)).symm
  · exact unseen

theorem allHold_write (all : AllHold s) {w : RegistryWrite} {lost : Bool} (fit : FitWrite hash s w lost) :
    AllHold (s.write (source hash) w lost) := by
  cases performed : perform hash s.store w with
  | none =>
    have same : s.write (source hash) w lost = s := by
      unfold State.write
      rw [show (source hash).apply w s.store = none from performed]
    rw [same]
    exact all
  | some r' =>
    have applied : (source hash).apply w s.store = some r' := performed
    have alike : Alike hash s.store w := fit.1 (by rw [performed]; rfl)
    intro version upper
    have last : version = s.latest + 1 ∨ version ≤ s.latest := by
      rw [write_eq applied] at upper
      exact (Nat.le_succ_iff.mp upper).symm
    obtain rfl | old := last
    · rw [versions_write_last applied]
      exact perform_holds (all s.latest le_rfl) alike performed
    · rw [versions_write applied old]
      exact all version old

theorem AllHold.untouched {t : CacheState} (all : AllHold s) (same : Untouched s t) : AllHold t := by
  intro version upper
  rw [same.versions]
  exact all version (same.latest ▸ upper)

theorem untouched_remove (s : CacheState) (version : Nat) :
    (s.remove version).versions = s.versions ∧ (s.remove version).latest = s.latest := by
  unfold State.remove
  cases s.pending version <;> exact ⟨rfl, rfl⟩

theorem allHold_step (all : AllHold s) {a : CacheStep} (fit : Fit hash s a) : AllHold (step (source hash) s a) := by
  cases a with
  | lookup id request now => exact all.untouched (untouched_lookup s id request now)
  | fetch id => exact all.untouched (untouched_fetch s id)
  | put id now => exact all.untouched (untouched_put s id now)
  | write w lost => exact allHold_write all fit
  | remove version =>
    obtain ⟨versions, latest⟩ := untouched_remove s version
    intro other upper
    show (((s.remove version).versions other).storage.Holds ((s.remove version).versions other).ledger)
    rw [versions]
    exact all other (latest ▸ upper)
  | evict which => exact all

theorem Fit.orderly (inv : Inv (source hash) s) (all : AllHold s) {a : CacheStep} (fit : Fit hash s a) :
    Orderly (source hash) s a := by
  cases a with
  | lookup id request now => exact fit
  | put id now => exact fit
  | write w lost => exact FitWrite.removesChanged inv all fit
  | _ => trivial

theorem allHold_removes (all : AllHold s) (version : Nat) (taken : List (String → Bool)) :
    AllHold (run (step (source hash)) s (taken.map fun _ => .remove version)) := by
  induction taken generalizing s with
  | nil => exact all
  | cons which taken ih => exact ih (allHold_step all (show Fit hash s (.remove version) from trivial))

theorem FitCall.orderly (still : Still (source hash) s) (all : AllHold s) {c : CacheCall} (fit : FitCall hash s c) :
    OrderlyCall (source hash) s c := by
  cases c with
  | read id request now later => exact fit
  | write w lost => exact FitWrite.removesChanged still.inv all fit

theorem trims (cache : List (String × Entry SubjectRequest (Option Schema))) : (source hash).trim cache ⊆ cache := fun _ inside => inside

theorem allHold_perform (still : Still (source hash) s) (all : AllHold s) {c : CacheCall} (fit : FitCall hash s c) :
    AllHold (ReadThrough.perform (source hash) s c) := by
  cases c with
  | read id request now later => exact all.untouched (read_settled trims still.inv still.settled id fit later).2.1
  | write w lost => exact allHold_removes (allHold_write all fit) _ _

/-- The registry before anything is registered. -/
def new (organizations : List String) : Registered := ⟨.new organizations, []⟩

theorem fit_invariant {organizations : List String} {as : List CacheStep}
    (fit : Meets (step (source hash)) (Fit hash) (initial (new organizations)) as) :
    Inv (source hash) (run (step (source hash)) (initial (new organizations)) as) ∧
      AllHold (run (step (source hash)) (initial (new organizations)) as) := by
  have keep : ∀ (s : CacheState) (a : CacheStep), Inv (source hash) s ∧ AllHold s → Fit hash s a →
      Inv (source hash) (step (source hash) s a) ∧ AllHold (step (source hash) s a) := by
    intro s a both fit
    exact ⟨inv_step trims s a both.1 (Fit.orderly both.1 both.2 fit), allHold_step both.2 fit⟩
  exact fit.invariant keep ⟨inv_initial _, fun _ _ => .nil⟩

theorem fitCall_invariant {organizations : List String} {calls : List CacheCall}
    (fit : Meets (ReadThrough.perform (source hash)) (FitCall hash) (initial (new organizations)) calls) :
    Still (source hash) (run (ReadThrough.perform (source hash)) (initial (new organizations)) calls) ∧
      AllHold (run (ReadThrough.perform (source hash)) (initial (new organizations)) calls) := by
  have keep : ∀ (s : CacheState) (c : CacheCall), Still (source hash) s ∧ AllHold s → FitCall hash s c →
      Still (source hash) (ReadThrough.perform (source hash) s c) ∧ AllHold (ReadThrough.perform (source hash) s c) := by
    intro s c both fit
    exact ⟨still_perform trims s c both.1 (FitCall.orderly both.1 both.2 fit), allHold_perform both.1 both.2 fit⟩
  exact fit.invariant keep ⟨⟨inv_initial _, fun _ => rfl⟩, fun _ _ => .nil⟩

/-- **Latest schemas are an organization's own.** In a run whose steps meet the condition `get_latest_schema` gives the
registration of the greatest version that the organization had, at or after the last change of it whose call had returned
when it started; of calls made one after another, the one it has. -/
theorem latest_schema_own (hash : String → String) (organizations : List String) :
    (∀ as, Meets (step (source hash)) (Fit hash) (initial (new organizations)) as → ∀ id request since value,
      (run (step (source hash)) (initial (new organizations)) as).reads id = .answered request since value →
        ∃ version, since ≤ version ∧ version ≤ (run (step (source hash)) (initial (new organizations)) as).latest ∧
          Answers ((run (step (source hash)) (initial (new organizations)) as).versions version).ledger
            request.subject request.organizationId value) ∧
    ∀ calls id request now later,
      Meets (ReadThrough.perform (source hash)) (FitCall hash) (initial (new organizations)) (calls ++ [.read id request now later]) →
        ∃ since value, (run (ReadThrough.perform (source hash)) (initial (new organizations))
            (calls ++ [.read id request now later])).reads id = .answered request since value ∧
          Answers (run (ReadThrough.perform (source hash)) (initial (new organizations)) calls).store.ledger
            request.subject request.organizationId value := by
  constructor
  · intro as fit id request since value answered
    obtain ⟨inv, all⟩ := fit_invariant fit
    have going := inv.going id
    rw [answered] at going
    obtain ⟨version, from', within, rfl⟩ := going
    exact ⟨version, from', within, getLatestSchema_answers (all version within) _ _⟩
  · intro calls id request now later fit
    obtain ⟨before, own, -⟩ := meets_append.mp fit
    obtain ⟨still, all⟩ := fitCall_invariant before
    obtain ⟨-, -, since, answered⟩ := read_settled trims still.inv still.settled id own later
    rw [run_append]
    exact ⟨since, _, answered, getLatestSchema_answers (all _ le_rfl) _ _⟩

def orgA : String := "11111111-1111-1111-1111-111111111111"

def orgB : String := "22222222-2222-2222-2222-222222222222"

/-- What `compute_hash` gives for the text of the example. -/
def sha256 (text : String) : String :=
  if text = "\"string\"" then "e9e5c1c9e4f6277339d1bcde0733a59bd42f8731f449da6dc13010a916930d48" else text

def registersUsers : RegistryWrite := .register 1 "users" orgA 1 .avro "\"string\""

/-- Once the entry of the one organization has expired, the other one is told that it has no schema. -/
theorem latest_schema_after_expiry :
    (∀ id request since value, (run (step (source sha256)) (initial (new [orgA, orgB]))
        [.write registersUsers false, .lookup 0 ⟨"users", orgA⟩ 0, .remove 1, .fetch 0, .put 0 1,
          .lookup 1 ⟨"users", orgB⟩ 400000, .fetch 1, .put 1 400001]).reads id = .answered request since value →
      ∃ version, since ≤ version ∧ version ≤ (run (step (source sha256)) (initial (new [orgA, orgB]))
          [.write registersUsers false, .lookup 0 ⟨"users", orgA⟩ 0, .remove 1, .fetch 0, .put 0 1,
            .lookup 1 ⟨"users", orgB⟩ 400000, .fetch 1, .put 1 400001]).latest ∧
        Answers ((run (step (source sha256)) (initial (new [orgA, orgB]))
          [.write registersUsers false, .lookup 0 ⟨"users", orgA⟩ 0, .remove 1, .fetch 0, .put 0 1,
            .lookup 1 ⟨"users", orgB⟩ 400000, .fetch 1, .put 1 400001]).versions version).ledger
          request.subject request.organizationId value) ∧
    ∃ since value, (run (ReadThrough.perform (source sha256)) (initial (new [orgA, orgB]))
        ([.write registersUsers false, .read 0 ⟨"users", orgA⟩ 0 1] ++ [.read 1 ⟨"users", orgB⟩ 400000 400001])).reads 1 =
          .answered ⟨"users", orgB⟩ since value ∧
      Answers (run (ReadThrough.perform (source sha256)) (initial (new [orgA, orgB]))
        [.write registersUsers false, .read 0 ⟨"users", orgA⟩ 0 1]).store.ledger "users" orgB value :=
  ⟨(latest_schema_own sha256 [orgA, orgB]).1 _ (by decide),
    (latest_schema_own sha256 [orgA, orgB]).2 _ 1 ⟨"users", orgB⟩ 400000 400001 (by decide)⟩

/-- An organization that has no schema is told the one that another organization has looked up. -/
theorem latest_schema_of_another :
    (run (ReadThrough.perform (source sha256)) (initial (new [orgA, orgB]))
      [.write registersUsers false, .read 0 ⟨"users", orgA⟩ 0 1, .read 1 ⟨"users", orgB⟩ 2 3]).reads 1 =
        .answered ⟨"users", orgB⟩ 0 (some ⟨1, "users", 1, .avro, "\"string\""⟩) ∧
    ¬ Answers (run (ReadThrough.perform (source sha256)) (initial (new [orgA, orgB]))
      [.write registersUsers false, .read 0 ⟨"users", orgA⟩ 0 1]).store.ledger "users" orgB
        (some ⟨1, "users", 1, .avro, "\"string\""⟩) := by
  constructor
  · rfl
  · rintro ⟨r, inside, ⟨-, mine⟩, -⟩
    have only : r ∈ [(⟨orgA, "users", 1, .avro, "\"string\""⟩ : Registration)] := inside
    rw [List.mem_singleton.mp only] at mine
    exact absurd mine (by decide)

end SubjectCache

end StreamHouse.Registry
