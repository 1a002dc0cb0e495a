import Mathlib.Data.List.Induction
import StreamHouse.Agent.SequenceAdmission
import StreamHouse.Lib.LruCache

/-!
# The dedup cache

`DedupCache` of `dedup.rs` checks sequence numbers in memory as
`check_and_update_sequence` does in the metadata store, and forgets what was used least
recently. Of a producer and partition that it has no entry for it accepts any batch, the store
only one that begins at 0. `dedupAgrees_iff` says that this is the only difference between
them. The counters of `stats` are read by no check.
-/

namespace StreamHouse.Agent.Sequences
open Lib LruCrate List Function

/-- `NonZeroUsize`. -/
abbrev NonZeroUsize : Type := { capacity : Nat // 0 < capacity }

inductive DedupResult where
  | ok
  | duplicate
  | sequenceGap (expected got : Int)

section

variable [LruCrate ProducerPartition Int]

/-- The last sequence number of each producer and partition. -/
abbrev DedupCache : Type := LruCache ProducerPartition Int

namespace DedupCache

/-- The branches of `check_and_update` for what `get` has found. -/
def checkFound (cache : DedupCache) (key : ProducerPartition) (b : Batch) : Option Int → DedupResult × DedupCache
  | none => (.ok, cache.put key b.newSequence)
  | some last =>
    if b.baseSequence ≤ last then (.duplicate, cache)
    else if b.baseSequence = last + 1 then (.ok, cache.put key b.newSequence)
    else (.sequenceGap (last + 1) b.baseSequence, cache)

/-- `check_and_update`. -/
def checkAndUpdate (cache : DedupCache) (key : ProducerPartition) (b : Batch) : DedupResult × DedupCache :=
  checkFound (cache.get key).2 key b (cache.get key).1

/-- `evict_producer`. -/
def evictProducer (cache : DedupCache) (producerId : String) : DedupCache :=
  let keysToRemove := (cache.entries.map Prod.fst).filter fun key => key.producerId = producerId
  keysToRemove.foldl (fun cache key => cache.pop key) cache

end DedupCache

/-- The calls of a cache; `get_sequence` is one that moves an entry to the front. -/
inductive DedupCall where
  | checkAndUpdate (key : ProducerPartition) (batch : Batch)
  | evictProducer (producerId : String)
  | getSequence (key : ProducerPartition)

/-- A database that works. -/
def working : SequenceEnv := ⟨true, true, true, true, false⟩

/-- The cache, and the table of the metadata store. -/
structure Twin where
  cache : DedupCache
  table : ProducerPartition → Option Int

namespace Twin

def start (capacity : NonZeroUsize) : Twin := ⟨LruCrate.new capacity.1 capacity.2, fun _ => none⟩

def step (s : Twin) : DedupCall → Twin
  | .checkAndUpdate key b =>
    ⟨(s.cache.checkAndUpdate key b).2, update s.table key (checkAndUpdateSequence working (s.table key) b).2⟩
  | .evictProducer producerId => { s with cache := s.cache.evictProducer producerId }
  | .getSequence key => { s with cache := (s.cache.get key).2 }

/-- The call takes away the entry of the key. -/
def Evicts (s : Twin) (call : DedupCall) (key : ProducerPartition) : Prop :=
  s.cache.find key ≠ none ∧ (s.step call).cache.find key = none

end Twin

open Twin

/-- The answer of the store that an answer of the cache stands for. -/
def DedupResult.asAnswer : DedupResult → Except SequenceError Bool
  | .ok => .ok true
  | .duplicate => .ok false
  | .sequenceGap expected got => .error (.gap expected got)

/-- The entry of the key has not been evicted. -/
def Unevicted (capacity : NonZeroUsize) (calls : List DedupCall) (key : ProducerPartition) : Prop :=
  Meets step (fun s call => ¬ s.Evicts call key) (.start capacity) calls

/-- As long as an entry has not been evicted, the cache has the number stored for it and answers as the store. -/
structure DedupAgrees (capacity : NonZeroUsize) (calls : List DedupCall) : Prop where
  stored : ∀ before after key, calls = before ++ after → Unevicted capacity before key →
    (run step (.start capacity) before).cache.find key = (run step (.start capacity) before).table key
  answered : ∀ before key b after, calls = before ++ .checkAndUpdate key b :: after → Unevicted capacity before key →
    ((run step (.start capacity) before).cache.checkAndUpdate key b).1.asAnswer =
      (checkAndUpdateSequence working ((run step (.start capacity) before).table key) b).1

/-- The first batch of every producer and partition begins at 0. -/
def BeginsAtZero (calls : List DedupCall) : Prop :=
  ∀ before key b after, calls = before ++ .checkAndUpdate key b :: after → (∀ d, .checkAndUpdate key d ∉ before) → b.baseSequence = 0

/-! ## The cache -/

theorem find_popAll (keys : List ProducerPartition) (cache : DedupCache) (key : ProducerPartition) :
    (keys.foldl (fun cache key => cache.pop key) cache).find key = if key ∈ keys then none else cache.find key := by
  induction keys generalizing cache with
  | nil => rfl
  | cons first keys ih =>
    rw [foldl_cons, ih, find_pop]
    by_cases later : key ∈ keys
    · rw [if_pos later, if_pos (mem_cons_of_mem _ later)]
    · rw [if_neg later]
      by_cases here : key = first
      · rw [if_pos here, if_pos (by rw [here]; exact mem_cons_self)]
      · rw [if_neg here, if_neg fun inside => (mem_cons.mp inside).elim here later]

theorem find_evictProducer (cache : DedupCache) (producerId : String) (key : ProducerPartition) :
    (cache.evictProducer producerId).find key = cache.find key ∨ (cache.evictProducer producerId).find key = none := by
  unfold DedupCache.evictProducer
  rw [find_popAll]
  split
  · exact .inr rfl
  · exact .inl rfl

theorem checkAndUpdate_eq (cache : DedupCache) (key : ProducerPartition) (b : Batch) :
    cache.checkAndUpdate key b = DedupCache.checkFound (cache.get key).2 key b (cache.find key) := by
  rw [DedupCache.checkAndUpdate, get_eq_valueOf]
  rfl

/-- The check leaves the entries of the other keys, or some of them. -/
theorem find_checkAndUpdate_of_ne {key other : ProducerPartition} (different : other ≠ key) (cache : DedupCache) (b : Batch) :
    (cache.checkAndUpdate key b).2.find other = cache.find other ∨ (cache.checkAndUpdate key b).2.find other = none := by
  have put : ((cache.get key).2.put key b.newSequence).find other = cache.find other ∨
      ((cache.get key).2.put key b.newSequence).find other = none := by
    rcases find_put_of_ne different b.newSequence (cache.get key).2 with same | gone
    · exact .inl (by rw [same, find_get])
    · exact .inr gone
  rw [checkAndUpdate_eq]
  cases cache.find key with
  | none => exact put
  | some last =>
    rw [DedupCache.checkFound]
    split
    · exact .inl (find_get key other cache)
    · split
      · exact put
      · exact .inl (find_get key other cache)

/-! ## One call -/

/-- **Where both know the same, the check answers alike and leaves the same**, if a batch they know nothing of begins at 0. -/
theorem checkAndUpdate_agrees {cache : DedupCache} {stored : Option Int} {key : ProducerPartition} {b : Batch}
    (same : cache.find key = stored) (first : stored = none → b.baseSequence = 0) :
    (cache.checkAndUpdate key b).1.asAnswer = (checkAndUpdateSequence working stored b).1 ∧
      (cache.checkAndUpdate key b).2.find key = (checkAndUpdateSequence working stored b).2 := by
  have begins : ¬ working.begins = false := by decide
  have updates : ¬ working.updates = false := by decide
  have commits : working.commits = true := rfl
  have last : lastSequence working stored = stored.getD (-1) := rfl
  rw [checkAndUpdate_eq, same, checkAndUpdateSequence, if_neg begins, if_neg updates, if_pos commits, last]
  cases stored with
  | none =>
    have zero := first rfl
    rw [if_neg (by rw [zero]; decide), if_neg (by rw [zero]; decide)]
    exact ⟨rfl, find_put_self _ _ _⟩
  | some last =>
    rw [DedupCache.checkFound, Option.getD_some]
    split
    · exact ⟨rfl, by rw [find_get, same]⟩
    · next above =>
      split
      · next next_ =>
        rw [if_neg (by omega)]
        exact ⟨rfl, find_put_self _ _ _⟩
      · next beyond =>
        rw [if_pos (by omega)]
        exact ⟨rfl, by rw [find_get, same]⟩

/-- Of a batch that neither knows anything of, only the first number 0 is answered alike. -/
theorem zero_of_agrees {cache : DedupCache} {key : ProducerPartition} {b : Batch} (unknown : cache.find key = none)
    (answered : (cache.checkAndUpdate key b).1.asAnswer = (checkAndUpdateSequence working none b).1) : b.baseSequence = 0 := by
  have accepted : (cache.checkAndUpdate key b).1.asAnswer = .ok true := by rw [checkAndUpdate_eq, unknown]; rfl
  rw [accepted] at answered
  have last : lastSequence working none = -1 := rfl
  obtain ⟨-, e, checked⟩ | ⟨-, -, checked⟩ | ⟨-, next, -⟩ := check_cases working none b
  · rw [checked] at answered
    cases answered
  · rw [checked] at answered
    cases answered
  · omega

omit [LruCrate ProducerPartition Int] in
/-- A stored number is not taken away, and a batch from 0 on stores one. -/
theorem isSome_checkAndUpdateSequence {stored : Option Int} {b : Batch} (known : stored ≠ none ∨ b.baseSequence = 0) :
    (checkAndUpdateSequence working stored b).2 ≠ none := by
  obtain ⟨idle, e, checked⟩ | ⟨-, seen, checked⟩ | ⟨-, next, -, ⟨-, checked⟩ | ⟨fails, -⟩⟩ := check_cases working stored b
  · rw [checked]
    rcases known with some_ | zero
    · exact some_
    · rintro rfl
      have last : lastSequence working none = -1 := rfl
      rcases idle with no | ahead | ⟨-, no⟩
      · cases no
      · omega
      · cases no
  · rw [checked]
    rcases known with some_ | zero
    · exact some_
    · rintro rfl
      have last : lastSequence working none = -1 := rfl
      omega
  · rw [checked]
    exact Option.some_ne_none _
  · cases fails

/-! ## Runs -/

namespace Twin

variable {s : Twin} {call : DedupCall} {key : ProducerPartition}

/-- A call leaves the entry of another key, or evicts it. -/
theorem step_agrees (same : s.cache.find key = s.table key) (kept : ¬ s.Evicts call key)
    (first : ∀ b, call = .checkAndUpdate key b → s.table key = none → b.baseSequence = 0) :
    (s.step call).cache.find key = (s.step call).table key := by
  have unless_gone (left : (s.step call).cache.find key = s.cache.find key ∨ (s.step call).cache.find key = none)
      (table : (s.step call).table key = s.table key) : (s.step call).cache.find key = (s.step call).table key := by
    rcases left with stays | gone
    · rw [stays, same, table]
    · by_cases nothing : s.cache.find key = none
      · rw [gone, table, ← same, nothing]
      · exact absurd ⟨nothing, gone⟩ kept
  cases call with
  | checkAndUpdate other b =>
    by_cases own : key = other
    · subst own
      show (s.cache.checkAndUpdate key b).2.find key = update s.table key _ key
      rw [update_self]
      exact (checkAndUpdate_agrees same (first b rfl)).2
    · exact unless_gone (find_checkAndUpdate_of_ne own s.cache b) (update_of_ne own _ _)
  | evictProducer producerId => exact unless_gone (find_evictProducer s.cache producerId key) rfl
  | getSequence other => exact unless_gone (.inl (find_get other key s.cache)) rfl

end Twin

variable {capacity : NonZeroUsize}

/-- What a run comes to whose first batches begin at 0: the entries that were never evicted are those of the table, and a key that was checked has
a row. -/
theorem agrees_of_beginsAtZero {calls : List DedupCall} (begins : BeginsAtZero calls) :
    (∀ key, Unevicted capacity calls key →
      (run step (.start capacity) calls).cache.find key = (run step (.start capacity) calls).table key) ∧
    ∀ key b, .checkAndUpdate key b ∈ calls → (run step (.start capacity) calls).table key ≠ none := by
  induction calls using reverseRecOn with
  | nil => exact ⟨fun key _ => find_new key, fun _ _ none_ => absurd none_ not_mem_nil⟩
  | append_singleton before call ih =>
    obtain ⟨same, known⟩ := ih fun front key b back cut => begins front key b (back ++ [call]) (by rw [cut]; simp)
    have first (key : ProducerPartition) (b : Batch) (isCall : call = .checkAndUpdate key b)
        (unknown : (run step (.start capacity) before).table key = none) : b.baseSequence = 0 := by
      apply begins before key b [] (by rw [isCall])
      exact fun d earlier => known key d earlier unknown
    rw [run_append]
    constructor
    · intro key unevicted
      obtain ⟨sofar, now, -⟩ := meets_append.mp unevicted
      exact step_agrees (same key sofar) now (first key)
    · intro key b member
      rcases mem_append.mp member with earlier | last
      · have row := known key b earlier
        cases call with
        | checkAndUpdate other d =>
          by_cases own : key = other
          · subst own
            show update (run step (.start capacity) before).table key _ key ≠ none
            rw [update_self]
            exact isSome_checkAndUpdateSequence (.inl row)
          · show update (run step (.start capacity) before).table other _ key ≠ none
            rw [update_of_ne own]
            exact row
        | evictProducer producerId => exact row
        | getSequence other => exact row
      · have isCall := (mem_singleton.mp last).symm
        subst isCall
        show update (run step (.start capacity) before).table key _ key ≠ none
        rw [update_self]
        apply isSome_checkAndUpdateSequence
        by_cases unknown : (run step (.start capacity) before).table key = none
        · exact .inr (first key b rfl unknown)
        · exact .inl unknown

/-- A key that was not checked is unknown to both. -/
theorem unknown_of_unchecked {calls : List DedupCall} {key : ProducerPartition} (unchecked : ∀ b, .checkAndUpdate key b ∉ calls) :
    (run step (.start capacity) calls).cache.find key = none ∧ (run step (.start capacity) calls).table key = none ∧
      Unevicted capacity calls key := by
  induction calls using reverseRecOn with
  | nil => exact ⟨find_new key, rfl, trivial⟩
  | append_singleton before call ih =>
    obtain ⟨cache, table, unevicted⟩ := ih fun b earlier => unchecked b (mem_append_left _ earlier)
    have other (k : ProducerPartition) (b : Batch) (isCall : call = .checkAndUpdate k b) : key ≠ k := by
      rintro rfl
      exact unchecked b (mem_append_right _ (mem_singleton.mpr isCall.symm))
    rw [run_append]
    refine ⟨?_, ?_, meets_append.mpr ⟨unevicted, fun evicts => evicts.1 cache, trivial⟩⟩
    · cases call with
      | checkAndUpdate k b =>
        rcases find_checkAndUpdate_of_ne (other k b rfl) (run step (.start capacity) before).cache b with stays | gone
        · exact stays.trans cache
        · exact gone
      | evictProducer producerId =>
        rcases find_evictProducer (run step (.start capacity) before).cache producerId key with stays | gone
        · exact stays.trans cache
        · exact gone
      | getSequence k => exact (find_get k key _).trans cache
    · cases call with
      | checkAndUpdate k b => exact (update_of_ne (other k b rfl) _ _).trans table
      | evictProducer producerId => exact table
      | getSequence k => exact table

/-- **The cache agrees with the store, as long as an entry has not been evicted, exactly if the first batch of every
producer and partition begins at 0.** -/
theorem dedupAgrees_iff (capacity : NonZeroUsize) (calls : List DedupCall) : DedupAgrees capacity calls ↔ BeginsAtZero calls := by
  constructor
  · intro agrees before key b after cut unchecked
    obtain ⟨cache, table, unevicted⟩ := @unknown_of_unchecked _ capacity before key unchecked
    have answered := agrees.answered before key b after cut unevicted
    rw [table] at answered
    exact zero_of_agrees cache answered
  · intro begins
    have front (before after : List DedupCall) (cut : calls = before ++ after) : BeginsAtZero before :=
      fun first key b rest split => begins first key b (rest ++ after) (by rw [cut, split]; simp)
    constructor
    · intro before after key cut unevicted
      exact (agrees_of_beginsAtZero (front before after cut)).1 key unevicted
    · intro before key b after cut unevicted
      obtain ⟨same, known⟩ := @agrees_of_beginsAtZero _ capacity before (front before _ cut)
      refine (checkAndUpdate_agrees (same key unevicted) fun unknown => ?_).1
      exact begins before key b after cut fun d earlier => known key d earlier unknown

end

namespace Example

/-- The first batch of the producer begins at 5. -/
def late : List DedupCall := [.checkAndUpdate ⟨"late", "orders", 0, by decide⟩ ⟨5, 3⟩]

end Example

/-- The cache accepts the batch, and the store reports a gap. -/
theorem dedupAgrees_fails : ¬ DedupAgrees ⟨100, by decide⟩ Example.late := by
  intro agrees
  have answered := agrees.answered [] ⟨"late", "orders", 0, by decide⟩ ⟨5, 3⟩ [] rfl trivial
  revert answered
  decide

end StreamHouse.Agent.Sequences
