import Mathlib.Data.Nat.Find
import StreamHouse.Lib.Run

/-!
# A cache in front of a store

A read looks its key up, asks the store if nothing usable is there, and puts the answer into the
cache; a write changes the store and then takes entries out of the cache. Calls overlap in any
way, entries age and are thrown out at any time. The store's versions are numbered by the writes
that made them. A read that starts when the call of a write has returned must not be answered
from before that write.

A value in the cache may be out of date only as long as the call of the write that outdated it
is still going to take it out. That is lost in three ways: a write does not take out what it
changes, a read puts in what it asked for before a write whose call has already been there, or
an answer to one request is found under the key of another.
-/

namespace StreamHouse.Lib.ReadThrough

open List Function

/-- What the cache keeps under a key. The request is only of interest to the proofs. -/
structure Entry (R A : Type*) where
  request : R
  value : A
  expiresAt : Int

/-- Where a read is. `since` numbers the last change of its answer whose call had returned when
the read started. -/
inductive Phase (R A : Type*) where
  | idle
  | missed (request : R) (since : ℕ)
  | fetched (request : R) (since : ℕ) (value : A) (version : ℕ)
  | answered (request : R) (since : ℕ) (value : A)

/-- The store and its cache: what they are asked and how they are changed. -/
structure Source (S R K A W : Type*) where
  query : S → R → A
  key : R → K
  /-- Whether an answer is put into the cache. -/
  keeps : A → Bool
  /-- A write that fails changes nothing. -/
  apply : W → S → Option S
  /-- What the call of a write takes out of the cache, step by step. -/
  removes : W → List (K → Bool)
  ttl : R → Int
  /-- What is left when there is no room for all, the entries last used first. -/
  trim : List (K × Entry R A) → List (K × Entry R A)

structure State (S R K A : Type*) where
  versions : ℕ → S
  latest : ℕ
  /-- What the call of a write still has to take out. -/
  pending : ℕ → List (K → Bool)
  /-- The entry last used comes first. -/
  cache : List (K × Entry R A)
  reads : ℕ → Phase R A

/-- One step of one of the calls. A write whose answer is lost returns with an error. -/
inductive Action (R K W : Type*) where
  | lookup (id : ℕ) (request : R) (now : Int)
  | fetch (id : ℕ)
  | put (id : ℕ) (now : Int)
  | write (w : W) (lost : Bool)
  | remove (version : ℕ)
  | evict (which : K → Bool)

variable {S R K A W : Type*} [DecidableEq K] [DecidableEq A] (source : Source S R K A W)

/-- What the call of a write takes out of the cache, if it comes to that. -/
def Source.removed (w : W) (lost : Bool) : List (K → Bool) := if lost then [] else source.removes w

namespace State

/-- The store as it is. -/
def store (s : State S R K A) : S := s.versions s.latest

def others (cache : List (K × Entry R A)) (key : K) : List (K × Entry R A) := cache.filter fun entry => entry.1 ≠ key

def find (cache : List (K × Entry R A)) (key : K) : Option (Entry R A) :=
  (cache.find? fun entry => entry.1 = key).map Prod.snd

/-- The write changed the answer. -/
def Changed (s : State S R K A) (version : ℕ) (request : R) : Prop :=
  source.query (s.versions (version - 1)) request ≠ source.query (s.versions version) request

instance Changed.decidable (s : State S R K A) (version : ℕ) (request : R) : Decidable (s.Changed source version request) :=
  inferInstanceAs (Decidable (_ ≠ _))

/-- The last change of the answer whose call has returned. -/
def floor (s : State S R K A) (request : R) : ℕ :=
  Nat.findGreatest (fun version => (s.pending version).isEmpty = true ∧ s.Changed source version request) s.latest

def goOn (s : State S R K A) (id : ℕ) (phase : Phase R A) : State S R K A :=
  { s with reads := update s.reads id phase }

def lookup (s : State S R K A) (id : ℕ) (request : R) (now : Int) : State S R K A :=
  let key := source.key request
  match find s.cache key with
  | some entry =>
    if now < entry.expiresAt then
      { s with cache := (key, entry) :: others s.cache key }.goOn id (.answered request (s.floor source request) entry.value)
    else { s with cache := others s.cache key }.goOn id (.missed request (s.floor source request))
  | none => s.goOn id (.missed request (s.floor source request))

def fetch (s : State S R K A) (id : ℕ) : State S R K A :=
  match s.reads id with
  | .missed request since => s.goOn id (.fetched request since (source.query s.store request) s.latest)
  | _ => s

def put (s : State S R K A) (id : ℕ) (now : Int) : State S R K A :=
  match s.reads id with
  | .fetched request since value _ =>
    let key := source.key request
    let entry := Entry.mk request value (now + source.ttl request)
    { s with cache := if source.keeps value then source.trim ((key, entry) :: others s.cache key) else s.cache }.goOn id
      (.answered request since value)
  | _ => s

def write (s : State S R K A) (w : W) (lost : Bool) : State S R K A :=
  match source.apply w s.store with
  | some store =>
    { s with
      versions := update s.versions (s.latest + 1) store
      latest := s.latest + 1
      pending := update s.pending (s.latest + 1) (source.removed w lost) }
  | none => s

def remove (s : State S R K A) (version : ℕ) : State S R K A :=
  match s.pending version with
  | which :: rest =>
    { s with
      cache := s.cache.filter fun entry => !which entry.1
      pending := update s.pending version rest }
  | [] => s

def evict (s : State S R K A) (which : K → Bool) : State S R K A :=
  { s with cache := s.cache.filter fun entry => !which entry.1 }

end State

open State

open State

def step (s : State S R K A) : Action R K W → State S R K A
  | .lookup id request now => s.lookup source id request now
  | .fetch id => s.fetch source id
  | .put id now => s.put source id now
  | .write w lost => s.write source w lost
  | .remove version => s.remove version
  | .evict which => s.evict which

/-- A store with nothing in the cache and no call on its way. -/
def initial (store : S) : State S R K A where
  versions := fun _ => store
  latest := 0
  pending := fun _ => []
  cache := []
  reads := fun _ => .idle

/-- The call of the write is still going to take out what is under the key. -/
def State.Awaited (s : State S R K A) (version : ℕ) (key : K) : Prop := ∃ which ∈ s.pending version, which key = true

instance State.Awaited.decidable (s : State S R K A) (version : ℕ) (key : K) : Decidable (s.Awaited version key) :=
  inferInstanceAs (Decidable (∃ which ∈ _, _))

/-- A lookup finds the answer to its own request. -/
def FindsOwn (s : State S R K A) (request : R) (now : Int) : Prop :=
  ∀ entry ∈ find s.cache (source.key request), now < entry.expiresAt → entry.request = request

/-- What a read puts in has not been changed since by a write whose call has taken it out already. -/
def PutsCurrent (s : State S R K A) : Phase R A → Prop
  | .fetched request _ _ version =>
    ∀ later ≤ s.latest, version < later → s.Changed source later request → s.Awaited later (source.key request)
  | _ => True

/-- What a write changes is not in the cache, or its call is going to take it out. -/
def RemovesChanged (s : State S R K A) (w : W) (lost : Bool) : Prop :=
  ∀ store ∈ source.apply w s.store, ∀ entry ∈ s.cache,
    source.query s.store entry.2.request ≠ source.query store entry.2.request →
      ∃ which ∈ source.removed w lost, which entry.1 = true

instance PutsCurrent.decidable (s : State S R K A) : ∀ phase, Decidable (PutsCurrent source s phase)
  | .fetched request _ _ version =>
    inferInstanceAs (Decidable (∀ later ≤ s.latest, version < later → s.Changed source later request →
      s.Awaited later (source.key request)))
  | .idle => .isTrue trivial
  | .missed _ _ => .isTrue trivial
  | .answered _ _ _ => .isTrue trivial

instance RemovesChanged.decidable (s : State S R K A) (w : W) (lost : Bool) : Decidable (RemovesChanged source s w lost) :=
  inferInstanceAs (Decidable (∀ store ∈ source.apply w s.store, ∀ entry ∈ s.cache,
    source.query s.store entry.2.request ≠ source.query store entry.2.request →
      ∃ which ∈ source.removed w lost, which entry.1 = true))

/-- The condition on a step. -/
def Orderly (s : State S R K A) : Action R K W → Prop
  | .lookup _ request now => FindsOwn source s request now
  | .put id _ => PutsCurrent source s (s.reads id)
  | .write w lost => RemovesChanged source s w lost
  | _ => True

/-! ## The invariant -/

/-- The answer as of a version, with every later change of it still to be taken out. -/
def Backed (s : State S R K A) (request : R) (value : A) (version : ℕ) : Prop :=
  version ≤ s.latest ∧ source.query (s.versions version) request = value ∧
    ∀ later ≤ s.latest, version < later → s.Changed source later request → s.Awaited later (source.key request)

/-- The answer of a version from the number on. -/
def Since (s : State S R K A) (request : R) (value : A) (since : ℕ) : Prop :=
  ∃ version, since ≤ version ∧ version ≤ s.latest ∧ source.query (s.versions version) request = value

/-- What a read on its way holds. -/
def Going (s : State S R K A) : Phase R A → Prop
  | .idle => True
  | .missed _ since => since ≤ s.latest
  | .fetched request since value version =>
    since ≤ version ∧ version ≤ s.latest ∧ source.query (s.versions version) request = value
  | .answered request since value => Since source s request value since

/-- An entry holds an answer that is kept, under the key of its request, and is backed. -/
structure Sound (s : State S R K A) (entry : K × Entry R A) : Prop where
  named : source.key entry.2.request = entry.1
  kept : source.keeps entry.2.value = true
  backed : ∃ version, Backed source s entry.2.request entry.2.value version

structure Inv (s : State S R K A) : Prop where
  sound : ∀ entry ∈ s.cache, Sound source s entry
  going : ∀ id, Going source s (s.reads id)
  ahead : ∀ version, s.latest < version → s.pending version = []

variable {source} {s : State S R K A}

omit [DecidableEq A] in
theorem mem_of_find {cache : List (K × Entry R A)} {key : K} {entry : Entry R A} (found : entry ∈ find cache key) :
    (key, entry) ∈ cache := by
  obtain ⟨held, first, rfl⟩ := Option.map_eq_some_iff.mp found
  have named := find?_some first
  have same : held.1 = key := by simpa using named
  rw [← same]
  exact mem_of_find?_eq_some first

omit [DecidableEq K] in
theorem floor_le (s : State S R K A) (request : R) : s.floor source request ≤ s.latest := Nat.findGreatest_le _

variable {value : A} {version : ℕ}

omit [DecidableEq K] in
/-- A backed answer is not from before a change whose call has returned. -/
theorem Backed.since {request : R} (backed : Backed source s request value version) :
    Since source s request value (s.floor source request) := by
  obtain ⟨within, same, awaited⟩ := backed
  refine ⟨version, ?_, within, same⟩
  by_contra before
  have later : version < s.floor source request := Nat.lt_of_not_le before
  have returned : (s.pending (s.floor source request)).isEmpty = true ∧ s.Changed source (s.floor source request) request :=
    Nat.findGreatest_of_ne_zero rfl (Nat.ne_of_gt (Nat.zero_lt_of_lt later))
  obtain ⟨which, waits, -⟩ := awaited _ (floor_le s request) later returned.2
  rw [List.isEmpty_iff.mp returned.1] at waits
  cases waits

omit [DecidableEq K] [DecidableEq A] in
/-- What is not changed later is the answer still. -/
theorem query_of_unchanged {request : R} (within : version ≤ s.latest)
    (unchanged : ∀ later ≤ s.latest, version < later → ¬ s.Changed source later request) :
    source.query (s.versions version) request = source.query s.store request := by
  have upTo : ∀ n, version ≤ n → n ≤ s.latest →
      source.query (s.versions version) request = source.query (s.versions n) request := by
    intro n from'
    induction n, from' using Nat.le_induction with
    | base => exact fun _ => rfl
    | succ n from' ih =>
      intro upper
      have same := not_not.mp (unchanged (n + 1) upper (Nat.lt_succ_of_le from'))
      exact (ih (Nat.le_of_succ_le upper)).trans same
  exact upTo s.latest within le_rfl

omit [DecidableEq K] [DecidableEq A] in
/-- A step that leaves the store alone keeps the invariant if it puts in backed answers only. -/
theorem Inv.goOn (inv : Inv source s) {cache : List (K × Entry R A)} {id : ℕ} {phase : Phase R A}
    (sound : ∀ entry ∈ cache, Sound source s entry) (going : Going source s phase) :
    Inv source ({ s with cache := cache }.goOn id phase) where
  sound entry inside := ⟨(sound entry inside).named, (sound entry inside).kept, (sound entry inside).backed⟩
  going other := by
    show Going source s (update s.reads id phase other)
    by_cases same : other = id
    · rw [same, update_self]
      exact going
    · rw [update_of_ne same]
      exact inv.going other
  ahead := inv.ahead

theorem Inv.lookup (inv : Inv source s) {id : ℕ} {request : R} {now : Int} (own : FindsOwn source s request now) :
    Inv source (s.lookup source id request now) := by
  have rest : ∀ entry ∈ others s.cache (source.key request), Sound source s entry :=
    fun entry inside => inv.sound entry (mem_filter.mp inside).1
  simp only [State.lookup]
  cases found : find s.cache (source.key request) with
  | none => exact inv.goOn inv.sound (show s.floor source request ≤ s.latest from floor_le s request)
  | some entry =>
    have isSound := inv.sound _ (mem_of_find found)
    show Inv source (if now < entry.expiresAt then _ else _)
    split_ifs with fresh
    · refine inv.goOn (forall_mem_cons.mpr ⟨isSound, rest⟩) ?_
      obtain ⟨version, backed⟩ := isSound.backed
      have same := own entry found fresh
      rw [← same]
      exact backed.since
    · exact inv.goOn rest (show s.floor source request ≤ s.latest from floor_le s request)

omit [DecidableEq K] [DecidableEq A] in
theorem Inv.fetch (inv : Inv source s) (id : ℕ) : Inv source (s.fetch source id) := by
  unfold State.fetch
  have before := inv.going id
  cases phase : s.reads id with
  | missed request since =>
    rw [phase] at before
    exact inv.goOn inv.sound ⟨before, le_rfl, rfl⟩
  | _ => exact inv

omit [DecidableEq A] in
theorem Inv.put (trims : ∀ cache, source.trim cache ⊆ cache) (inv : Inv source s) {id : ℕ} (now : Int)
    (current : PutsCurrent source s (s.reads id)) : Inv source (s.put source id now) := by
  unfold State.put
  have before := inv.going id
  cases phase : s.reads id with
  | fetched request since value version =>
    rw [phase] at before current
    obtain ⟨from', within, same⟩ := before
    refine inv.goOn ?_ ⟨version, from', within, same⟩
    intro entry inside
    split_ifs at inside with keeps
    · obtain rfl | old := mem_cons.mp (trims _ inside)
      · exact ⟨rfl, keeps, version, within, same, current⟩
      · exact inv.sound entry (mem_filter.mp old).1
    · exact inv.sound entry inside
  | _ => exact inv

omit [DecidableEq K] [DecidableEq A] in
theorem Inv.evict (inv : Inv source s) (which : K → Bool) : Inv source (s.evict which) where
  sound entry inside :=
    let before := inv.sound entry (mem_filter.mp inside).1
    ⟨before.named, before.kept, before.backed⟩
  going := inv.going
  ahead := inv.ahead

section Write

variable {w : W} {lost : Bool} {store : S} (applied : source.apply w s.store = some store)

include applied

omit [DecidableEq K] [DecidableEq A] in
theorem write_eq : s.write source w lost =
    { s with
      versions := update s.versions (s.latest + 1) store
      latest := s.latest + 1
      pending := update s.pending (s.latest + 1) (source.removed w lost) } := by
  unfold write
  rw [applied]

omit [DecidableEq K] [DecidableEq A] in
theorem versions_write (within : version ≤ s.latest) : (s.write source w lost).versions version = s.versions version := by
  rw [write_eq applied]
  exact update_of_ne (by omega) _ _

omit [DecidableEq K] [DecidableEq A] in
theorem versions_write_last : (s.write source w lost).versions (s.latest + 1) = store := by
  rw [write_eq applied]
  exact update_self _ _ _

omit [DecidableEq K] [DecidableEq A] in
theorem since_write {request : R} {since : ℕ} (before : Since source s request value since) :
    Since source (s.write source w lost) request value since := by
  obtain ⟨version, from', within, same⟩ := before
  refine ⟨version, from', ?_, by rw [versions_write applied within, same]⟩
  rw [write_eq applied]
  exact Nat.le_succ_of_le within

omit [DecidableEq K] [DecidableEq A] in
/-- An answer stays backed if the write leaves it or its call is going to take it out. -/
theorem Backed.write {request : R} (backed : Backed source s request value version)
    (removes : source.query s.store request ≠ source.query store request →
      ∃ which ∈ source.removed w lost, which (source.key request) = true) :
    Backed source (s.write source w lost) request value version := by
  obtain ⟨within, same, awaited⟩ := backed
  refine ⟨?_, by rw [versions_write applied within, same], ?_⟩
  · rw [write_eq applied]
    exact Nat.le_succ_of_le within
  · intro later upper after changed
    have last : later = s.latest + 1 ∨ later ≤ s.latest := by
      rw [write_eq applied] at upper
      exact (Nat.le_succ_iff.mp upper).symm
    obtain rfl | old := last
    · have different : source.query s.store request ≠ source.query store request := by
        unfold Changed at changed
        rwa [Nat.add_sub_cancel, versions_write applied le_rfl, versions_write_last applied] at changed
      unfold Awaited
      rw [write_eq applied]
      simpa only [update_self] using removes different
    · have changedBefore : s.Changed source later request := by
        unfold Changed at changed ⊢
        rwa [versions_write applied old, versions_write applied (by omega)] at changed
      have waits := awaited later old after changedBefore
      unfold Awaited at waits ⊢
      rw [write_eq applied]
      simpa only [update_of_ne (show later ≠ s.latest + 1 by omega)] using waits

omit [DecidableEq K] [DecidableEq A] in
theorem Inv.write_of_applied (inv : Inv source s) (removes : RemovesChanged source s w lost) :
    Inv source (s.write source w lost) where
  sound entry inside := by
    rw [write_eq applied] at inside
    obtain ⟨named, kept, version, backed⟩ := inv.sound entry inside
    refine ⟨named, kept, version, backed.write applied fun changed => ?_⟩
    rw [named]
    exact removes store applied entry inside changed
  going id := by
    have before := inv.going id
    rw [show (s.write source w lost).reads = s.reads by rw [write_eq applied]]
    have within : s.latest ≤ (s.write source w lost).latest := by
      rw [write_eq applied]
      exact Nat.le_succ _
    cases phase : s.reads id with
    | idle => trivial
    | missed request since =>
      rw [phase] at before
      exact Nat.le_trans before within
    | fetched request since value version =>
      rw [phase] at before
      exact ⟨before.1, Nat.le_trans before.2.1 within, by rw [versions_write applied before.2.1, before.2.2]⟩
    | answered request since value =>
      rw [phase] at before
      exact since_write applied before
  ahead version beyond := by
    rw [write_eq applied] at beyond ⊢
    have after : s.latest + 1 < version := beyond
    show update s.pending (s.latest + 1) _ version = []
    rw [update_of_ne (by omega)]
    exact inv.ahead version (by omega)

end Write

omit [DecidableEq K] [DecidableEq A] in
theorem Inv.write (inv : Inv source s) {w : W} {lost : Bool} (removes : RemovesChanged source s w lost) :
    Inv source (s.write source w lost) := by
  cases applied : source.apply w s.store with
  | some store => exact inv.write_of_applied applied removes
  | none =>
    unfold State.write
    rw [applied]
    exact inv

omit [DecidableEq K] [DecidableEq A] in
/-- What is left in the cache is still to be taken out by the calls that it waits for. -/
theorem Inv.remove (inv : Inv source s) (version : ℕ) : Inv source (s.remove version) := by
  unfold State.remove
  cases todo : s.pending version with
  | nil => exact inv
  | cons which rest =>
    refine ⟨fun entry inside => ?_, inv.going, fun other beyond => ?_⟩
    · obtain ⟨held, stays⟩ := mem_filter.mp inside
      obtain ⟨named, kept, backing, within, same, awaited⟩ := inv.sound entry held
      refine ⟨named, kept, backing, within, same, fun later upper after changed => ?_⟩
      obtain ⟨takes, waits, hits⟩ := awaited later upper after changed
      show ∃ takes ∈ update s.pending version rest later, takes (source.key entry.2.request) = true
      by_cases this : later = version
      · subst this
        rw [update_self]
        rw [todo] at waits
        obtain rfl | waits := mem_cons.mp waits
        · rw [named] at hits
          rw [hits] at stays
          cases stays
        · exact ⟨takes, waits, hits⟩
      · rw [update_of_ne this]
        exact ⟨takes, waits, hits⟩
    · have known : other ≠ version := by
        rintro rfl
        rw [inv.ahead other beyond] at todo
        cases todo
      show update s.pending version rest other = []
      rw [update_of_ne known]
      exact inv.ahead other beyond

omit [DecidableEq K] [DecidableEq A] in
theorem inv_initial (store : S) : Inv source (initial store) where
  sound := by
    intro entry inside
    cases inside
  going _ := trivial
  ahead _ _ := rfl

theorem inv_step (trims : ∀ cache, source.trim cache ⊆ cache) (s : State S R K A) (a : Action R K W) (inv : Inv source s)
    (orderly : Orderly source s a) : Inv source (step source s a) := by
  cases a with
  | lookup id request now => exact inv.lookup orderly
  | fetch id => exact inv.fetch id
  | put id now => exact inv.put trims now orderly
  | write w lost => exact inv.write orderly
  | remove version => exact inv.remove version
  | evict which => exact inv.evict which

omit [DecidableEq A] in
/-- With a key of its own for each request, a read finds nothing else. -/
theorem Inv.findsOwn (inv : Inv source s) (own : Injective source.key) (request : R) (now : Int) :
    FindsOwn source s request now :=
  fun _ found _ => own (inv.sound _ (mem_of_find found)).named

/-! ## One call after another -/

/-- A whole call. -/
inductive Call (R W : Type*) where
  | read (id : ℕ) (request : R) (now later : Int)
  | write (w : W) (lost : Bool)

variable (source) in
def Call.actions (s : State S R K A) : Call R W → List (Action R K W)
  | .read id request now later => [.lookup id request now, .fetch id, .put id later]
  | .write w lost => .write w lost :: (source.removed w lost).map fun _ => .remove (s.latest + 1)

variable (source) in
def perform (s : State S R K A) (c : Call R W) : State S R K A := run (step source) s (c.actions source s)

variable (source) in
/-- The condition on a whole call: nothing is said of what it puts into the cache. -/
def OrderlyCall (s : State S R K A) : Call R W → Prop
  | .read _ request now _ => FindsOwn source s request now
  | .write w lost => RemovesChanged source s w lost

/-- Every call has returned. -/
def Settled (s : State S R K A) : Prop := ∀ version, s.pending version = []

theorem settled_removes {taken : List (K → Bool)} (todo : s.pending version = taken)
    (rest : ∀ other ≠ version, s.pending other = []) :
    Settled (run (step source) s (taken.map fun _ => .remove version)) := by
  induction taken generalizing s with
  | nil =>
    intro other
    by_cases same : other = version
    · rw [same]
      exact todo
    · exact rest other same
  | cons which taken ih =>
    have next : (s.remove version).pending = update s.pending version taken := by
      unfold remove
      rw [todo]
    apply ih
    · show (s.remove version).pending version = taken
      rw [next, update_self]
    · intro other different
      show (s.remove version).pending other = []
      rw [next, update_of_ne different]
      exact rest other different

/-- A write whose call has nothing to take out. -/
theorem settled_idle (settled : Settled s) (steps : List (K → Bool)) :
    run (step source) s (steps.map fun _ => .remove version) = s := by
  induction steps with
  | nil => rfl
  | cons which steps ih =>
    have idle : step source s (.remove version) = s := by
      show s.remove version = s
      unfold remove
      rw [settled version]
    rw [map_cons, run_cons, idle, ih]

theorem Settled.write (settled : Settled s) (w : W) (lost : Bool) : Settled (perform source s (.write w lost)) := by
  show Settled (run (step source) (s.write source w lost) ((source.removed w lost).map fun _ => .remove (s.latest + 1)))
  cases applied : source.apply w s.store with
  | none =>
    have same : s.write source w lost = s := by
      unfold State.write
      rw [applied]
    rw [same, settled_idle settled]
    exact settled
  | some store =>
    apply settled_removes
    · rw [write_eq applied]
      exact update_self _ _ _
    · intro other different
      rw [write_eq applied]
      exact (update_of_ne different _ _).trans (settled other)

/-- The store, its versions and the calls of its writes are the same. -/
structure Untouched (s t : State S R K A) : Prop where
  versions : t.versions = s.versions
  latest : t.latest = s.latest
  pending : t.pending = s.pending

omit [DecidableEq K] [DecidableEq A] in
theorem Untouched.store {t : State S R K A} (same : Untouched s t) : t.store = s.store := by
  unfold State.store
  rw [same.versions, same.latest]

omit [DecidableEq K] [DecidableEq A] in
theorem Untouched.trans {t u : State S R K A} (first : Untouched s t) (second : Untouched t u) : Untouched s u :=
  ⟨second.versions.trans first.versions, second.latest.trans first.latest, second.pending.trans first.pending⟩

theorem untouched_lookup (s : State S R K A) (id : ℕ) (request : R) (now : Int) :
    Untouched s (s.lookup source id request now) := by
  simp only [State.lookup]
  cases find s.cache (source.key request) with
  | none => exact ⟨rfl, rfl, rfl⟩
  | some entry =>
    show Untouched s (if now < entry.expiresAt then _ else _)
    split_ifs
    · exact ⟨rfl, rfl, rfl⟩
    · exact ⟨rfl, rfl, rfl⟩

omit [DecidableEq K] [DecidableEq A] in
theorem untouched_fetch (s : State S R K A) (id : ℕ) : Untouched s (s.fetch source id) := by
  unfold fetch
  cases s.reads id <;> exact ⟨rfl, rfl, rfl⟩

omit [DecidableEq A] in
theorem untouched_put (s : State S R K A) (id : ℕ) (now : Int) : Untouched s (s.put source id now) := by
  unfold put
  cases s.reads id <;> exact ⟨rfl, rfl, rfl⟩

omit [DecidableEq K] [DecidableEq A] in
@[simp] theorem reads_goOn (s : State S R K A) (id : ℕ) (phase : Phase R A) : (s.goOn id phase).reads id = phase :=
  update_self _ _ _

variable (source) in
/-- After the lookup a read has its answer, or it asks the store. -/
theorem reads_lookup (s : State S R K A) (id : ℕ) (request : R) (now : Int) :
    (∃ value, (s.lookup source id request now).reads id = .answered request (s.floor source request) value) ∨
      (s.lookup source id request now).reads id = .missed request (s.floor source request) := by
  simp only [State.lookup]
  cases find s.cache (source.key request) with
  | none => exact .inr (reads_goOn s id _)
  | some entry =>
    show (∃ value, (if now < entry.expiresAt then _ else _ : State S R K A).reads id = _) ∨
      (if now < entry.expiresAt then _ else _ : State S R K A).reads id = _
    split_ifs
    · exact .inl ⟨_, reads_goOn _ id _⟩
    · exact .inr (reads_goOn _ id _)

omit [DecidableEq K] [DecidableEq A] in
theorem fetch_of_answered {id : ℕ} {request : R} {since : ℕ} (phase : s.reads id = .answered request since value) :
    s.fetch source id = s := by
  unfold fetch
  rw [phase]

omit [DecidableEq A] in
theorem put_of_answered {id : ℕ} {request : R} {since : ℕ} (phase : s.reads id = .answered request since value)
    (now : Int) : s.put source id now = s := by
  unfold put
  rw [phase]

omit [DecidableEq K] [DecidableEq A] in
variable (source) in
theorem reads_fetch {id : ℕ} {request : R} {since : ℕ} (phase : s.reads id = .missed request since) :
    (s.fetch source id).reads id = .fetched request since (source.query s.store request) s.latest := by
  unfold fetch
  rw [phase]
  exact reads_goOn s id _

omit [DecidableEq A] in
theorem reads_put {id : ℕ} {request : R} {since : ℕ} (phase : s.reads id = .fetched request since value version) (now : Int) :
    (s.put source id now).reads id = .answered request since value := by
  unfold put
  rw [phase]
  exact reads_goOn _ id _

omit [DecidableEq K] in
/-- With every call returned, an answer that is not out of date is the store's own. -/
theorem eq_of_since (settled : Settled s) {request : R} (since : Since source s request value (s.floor source request)) :
    value = source.query s.store request := by
  obtain ⟨version, from', within, rfl⟩ := since
  apply query_of_unchanged within
  intro later upper after changed
  have returned : (s.pending later).isEmpty = true ∧ s.Changed source later request := ⟨by rw [settled later]; rfl, changed⟩
  have counted : later ≤ s.floor source request := Nat.le_findGreatest upper returned
  omega

/-- A read that no other call overlaps with is answered as the store would. -/
theorem read_settled (trims : ∀ cache, source.trim cache ⊆ cache) (inv : Inv source s) (settled : Settled s) (id : ℕ)
    {request : R} {now : Int} (own : FindsOwn source s request now) (later : Int) :
    Inv source (perform source s (.read id request now later)) ∧ Untouched s (perform source s (.read id request now later)) ∧
      ∃ since, (perform source s (.read id request now later)).reads id =
        .answered request since (source.query s.store request) := by
  have looked : Untouched s (s.lookup source id request now) := untouched_lookup s id request now
  have invLooked : Inv source (s.lookup source id request now) := inv.lookup own
  have steps : perform source s (.read id request now later) =
      ((s.lookup source id request now).fetch source id).put source id later := rfl
  rw [steps]
  obtain ⟨value, phase⟩ | phase := reads_lookup source s id request now
  · rw [fetch_of_answered phase, put_of_answered phase]
    refine ⟨invLooked, looked, s.floor source request, ?_⟩
    have going := invLooked.going id
    rw [phase] at going
    obtain ⟨version, from', within, same⟩ := going
    have current : Since source s request value (s.floor source request) :=
      ⟨version, from', looked.latest ▸ within, by rw [← looked.versions, same]⟩
    rw [phase, eq_of_since settled current]
  · have fetched := reads_fetch source phase
    have asked : Untouched s ((s.lookup source id request now).fetch source id) := looked.trans (untouched_fetch _ id)
    have invAsked := invLooked.fetch id
    refine ⟨invAsked.put trims later ?_, asked.trans (untouched_put _ id later), s.floor source request, ?_⟩
    · rw [fetched]
      intro other upper after
      rw [asked.latest, ← looked.latest] at upper
      omega
    · rw [reads_put fetched later, looked.store]

omit [DecidableEq K] [DecidableEq A] in
theorem Settled.untouched {t : State S R K A} (settled : Settled s) (same : Untouched s t) : Settled t := by
  intro version
  rw [same.pending]
  exact settled version

variable (source) in
/-- What holds between whole calls. -/
structure Still (s : State S R K A) : Prop where
  inv : Inv source s
  settled : Settled s

omit [DecidableEq K] [DecidableEq A] in
/-- Between whole calls the cache holds what the store would answer. -/
theorem Still.eq_query (still : Still source s) {entry : K × Entry R A} (inside : entry ∈ s.cache) :
    entry.2.value = source.query s.store entry.2.request := by
  obtain ⟨-, -, version, within, same, awaited⟩ := still.inv.sound entry inside
  rw [← same]
  apply query_of_unchanged within
  intro later upper after changed
  obtain ⟨which, waits, -⟩ := awaited later upper after changed
  rw [still.settled later] at waits
  cases waits

omit [DecidableEq K] [DecidableEq A] in
/-- Between whole calls only answers that are kept have to be taken out. -/
theorem Still.removesChanged (still : Still source s) {w : W} {lost : Bool}
    (covers : ∀ store ∈ source.apply w s.store, ∀ request, source.keeps (source.query s.store request) = true →
      source.query s.store request ≠ source.query store request →
        ∃ which ∈ source.removed w lost, which (source.key request) = true) : RemovesChanged source s w lost := by
  intro store applied entry inside changed
  have sound := still.inv.sound entry inside
  have kept : source.keeps (source.query s.store entry.2.request) = true := by
    rw [← still.eq_query inside]
    exact sound.kept
  obtain ⟨which, removes, hits⟩ := covers store applied entry.2.request kept changed
  exact ⟨which, removes, sound.named ▸ hits⟩

theorem inv_removes (inv : Inv source s) (version : ℕ) (taken : List (K → Bool)) :
    Inv source (run (step source) s (taken.map fun _ => .remove version)) := by
  induction taken generalizing s with
  | nil => exact inv
  | cons which taken ih => exact ih (Inv.remove inv version)

theorem still_perform (trims : ∀ cache, source.trim cache ⊆ cache) (s : State S R K A) (c : Call R W) (still : Still source s)
    (orderly : OrderlyCall source s c) : Still source (perform source s c) := by
  cases c with
  | read id request now later =>
    obtain ⟨inv, same, -⟩ := read_settled trims still.inv still.settled id orderly later
    exact ⟨inv, still.settled.untouched same⟩
  | write w lost => exact ⟨inv_removes (still.inv.write orderly) (s.latest + 1) (source.removed w lost), still.settled.write w lost⟩

end StreamHouse.Lib.ReadThrough
