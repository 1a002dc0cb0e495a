import StreamHouse.Lib.Delimited
import StreamHouse.Storage.SegmentCache

/-!
# Prefetched segments

`get_segment`, `prefetch_next_segments` and `cache_key` of `reader.rs`, over the segment cache. Both name
the file of a segment, and not alike: a read has the time of the segment's creation in its key, so that
a topic that was deleted and created again is not served from the files of the old one, and a
prefetch has not. `serving_of_meets` says what is left for the reads.
-/

namespace StreamHouse.Storage.Prefetch
open Lib List List.Subset

/-- A segment as the reader of its partition has it: topic and partition are the reader's own. -/
structure OrgSegment where
  orgId : String
  info : SegmentInfo
deriving DecidableEq

/-- `{org}-{topic}-{partition}-{base}`, as a prefetch puts it together. -/
def prefetchKey (segment : OrgSegment) : String :=
  segment.orgId ++ "-" ++ segment.info.topic ++ "-" ++ toString segment.info.partitionId ++ "-" ++ toString segment.info.baseOffset

/-- `cache_key`. -/
def cacheKey (segment : OrgSegment) : String :=
  segment.orgId ++ "-" ++ segment.info.topic ++ "-" ++ toString segment.info.partitionId ++ "-" ++ toString segment.info.baseOffset ++
    "-" ++ toString segment.info.createdAt

section

variable [LruCrate String Nat]

/-- What the readers of a process share, and what the metadata has had registered so far. -/
structure Readers where
  known : List OrgSegment
  registered : List OrgSegment
  objects : S3Key → Option Bytes
  cache : SegmentCache

inductive Call where
  /-- A segment is uploaded and registered. One whose object it overwrites is gone. Its key is the name of a file. -/
  | register (segment : OrgSegment) (bytes : Bytes) (plain : '/' ∉ (cacheKey segment).toList)
  | deregister (segment : OrgSegment)
  /-- The process starts again and finds the files of its cache. -/
  | restart
  | getSegment (segment : OrgSegment) (reads downloads : Bool) (io : PutIo)
  | prefetch (segment : OrgSegment) (reads downloads : Bool) (io : PutIo)

namespace Readers

def start (maxSizeBytes : Nat) : Readers := ⟨[], [], fun _ => none, .new [] maxSizeBytes⟩

/-- `object_store.get`, if it does not fail. -/
def download (s : Readers) (segment : OrgSegment) (downloads : Bool) : Option Bytes :=
  if downloads then s.objects segment.info.s3Key else none

/-- `get_segment`. -/
def getSegment (s : Readers) (segment : OrgSegment) (reads downloads : Bool) (io : PutIo) : Except Unit Bytes × Readers :=
  match s.cache.get (cacheKey segment) reads with
  | (.error (), cache) => (.error (), { s with cache := cache })
  | (.ok (some data), cache) => (.ok data, { s with cache := cache })
  | (.ok none, cache) =>
    match s.download segment downloads with
    | none => (.error (), { s with cache := cache })
    | some data =>
      let (written, cache) := cache.put (cacheKey segment) data io
      (if written then .ok data else .error (), { s with cache := cache })

/-- What `prefetch_next_segments` does with a segment that it has found, and the key it has stored it under. Its
errors are dropped. -/
def prefetch (s : Readers) (segment : OrgSegment) (reads downloads : Bool) (io : PutIo) : Option String × Readers :=
  match s.cache.get (prefetchKey segment) reads with
  | (.ok (some _), cache) => (none, { s with cache := cache })
  | (_, cache) =>
    match s.download segment downloads with
    | none => (none, { s with cache := cache })
    | some data =>
      let (written, cache) := cache.put (prefetchKey segment) data io
      (if written then some (prefetchKey segment) else none, { s with cache := cache })

/-- The index gives no segments but those that have been registered. -/
def step (s : Readers) : Call → Readers
  | .register segment bytes _ =>
    { s with
      known := segment :: s.known
      registered := segment :: s.registered.filter fun t => t.info.s3Key ≠ segment.info.s3Key
      objects := Function.update s.objects segment.info.s3Key (some bytes) }
  | .deregister segment => { s with registered := s.registered.filter fun t => t ≠ segment }
  | .restart => { s with cache := .new s.cache.files s.cache.maxSizeBytes }
  | .getSegment segment reads downloads io => if segment ∈ s.known then (s.getSegment segment reads downloads io).2 else s
  | .prefetch segment reads downloads io => if segment ∈ s.known then (s.prefetch segment reads downloads io).2 else s

end Readers

open Readers

/-- Prefetches serve the reads, in every state of a run. -/
structure Serving (maxSizeBytes : Nat) (calls : List Call) : Prop where
  distinct : ∀ before after, calls = before ++ after → ∀ a ∈ (run step (start maxSizeBytes) before).known,
    ∀ b ∈ (run step (start maxSizeBytes) before).known, a ≠ b → cacheKey a ≠ cacheKey b
  prefetched : ∀ before segment reads downloads io after, calls = before ++ Call.prefetch segment reads downloads io :: after →
    segment ∈ (run step (start maxSizeBytes) before).known →
    ∀ key ∈ ((run step (start maxSizeBytes) before).prefetch segment reads downloads io).1, key = cacheKey segment
  returned : ∀ before segment reads downloads io after, calls = before ++ Call.getSegment segment reads downloads io :: after →
    segment ∈ (run step (start maxSizeBytes) before).registered →
    ∀ data, ((run step (start maxSizeBytes) before).getSegment segment reads downloads io).1 = .ok data →
      (run step (start maxSizeBytes) before).objects segment.info.s3Key = some data
  /-- A read whose calls all succeed returns something. -/
  answered : ∀ before segment io after, calls = before ++ Call.getSegment segment true true io :: after → io.write = .ok →
    segment ∈ (run step (start maxSizeBytes) before).registered →
    ∃ data, ((run step (start maxSizeBytes) before).getSegment segment true true io).1 = .ok data

/-- The two have the same text of organization and topic, partition, base offset and time of creation. -/
def SameName (a b : OrgSegment) : Prop :=
  a.orgId ++ "-" ++ a.info.topic = b.orgId ++ "-" ++ b.info.topic ∧ a.info.partitionId = b.info.partitionId ∧
    a.info.baseOffset = b.info.baseOffset ∧ a.info.createdAt = b.info.createdAt

instance (a b : OrgSegment) : Decidable (SameName a b) := inferInstanceAs (Decidable (_ ∧ _ ∧ _ ∧ _))

/-- What is registered has a name that none has had before it, a write into the cache that fails leaves no part of a
file, and a prefetch finds its file there or downloads nothing. -/
def Serves (s : Readers) : Call → Prop
  | .register segment _ _ => ∀ t ∈ s.known, ¬ SameName t segment
  | .getSegment segment _ _ io => ∀ left, io.write = .failed (some left) → s.objects segment.info.s3Key = some left
  | .prefetch segment reads downloads _ =>
    (∃ data, (s.cache.get (prefetchKey segment) reads).1 = .ok (some data)) ∨ s.download segment downloads = none
  | .deregister _ | .restart => True

end

open Readers

/-! ## Keys -/

section

variable {a b : OrgSegment}

theorem toList_prefetchKey (segment : OrgSegment) : (prefetchKey segment).toList =
    ((segment.orgId ++ "-" ++ segment.info.topic).toList ++ '-' :: (toString segment.info.partitionId).toList) ++
      '-' :: (toString segment.info.baseOffset).toList := by
  unfold prefetchKey
  simp only [String.toList_append, append_assoc]
  rfl

theorem toList_cacheKey (segment : OrgSegment) :
    (cacheKey segment).toList = (prefetchKey segment).toList ++ '-' :: (toString segment.info.createdAt).toList := by
  unfold cacheKey prefetchKey
  simp only [String.toList_append, append_assoc]
  rfl

theorem minus_notMem (n : Nat) : '-' ∉ (toString n).toList := notMem_natToString (by decide) n

theorem prefetchKey_inj (same : prefetchKey a = prefetchKey b) : a.orgId ++ "-" ++ a.info.topic = b.orgId ++ "-" ++ b.info.topic ∧
    a.info.partitionId = b.info.partitionId ∧ a.info.baseOffset = b.info.baseOffset := by
  have texts := congrArg String.toList same
  rw [toList_prefetchKey, toList_prefetchKey] at texts
  obtain ⟨front, base⟩ := split_at_last (minus_notMem _) (minus_notMem _) texts
  obtain ⟨names, partition⟩ := split_at_last (minus_notMem _) (minus_notMem _) front
  exact ⟨String.toList_inj.mp names, Int.ofNat.inj (toString_inj (m := Int.ofNat _) (n := Int.ofNat _) partition),
    Int.ofNat.inj (toString_inj (m := Int.ofNat _) (n := Int.ofNat _) base)⟩

/-- Before the time of creation is a digit. -/
theorem prefetchKey_ne_append_minus (segment : OrgSegment) (text : List Char) : (prefetchKey segment).toList ≠ text ++ ['-'] := by
  intro same
  rw [toList_prefetchKey] at same
  have ends : ('-' :: (toString segment.info.baseOffset).toList).getLast? = some '-' := by
    rw [← getLast?_append_of_ne_nil _ (cons_ne_nil _ _), same, getLast?_concat]
  have digits : (toString segment.info.baseOffset).toList ≠ [] := by
    rw [show (toString segment.info.baseOffset).toList = Nat.toDigits 10 _ from Nat.toList_repr]
    exact Nat.toDigits_ne_nil
  rw [getLast?_cons_of_ne_nil digits] at ends
  exact minus_notMem _ (mem_of_getLast? ends)

/-- **Two keys of reads are the same** just if the segments have the same name. -/
theorem cacheKey_eq_iff : cacheKey a = cacheKey b ↔ SameName a b := by
  constructor
  · intro same
    have texts := congrArg String.toList same
    rw [toList_cacheKey, toList_cacheKey, toList_toString, toList_toString] at texts
    have minus (k : Nat) : '-' ∉ Nat.toDigits 10 k := notMem_digits (by decide) k
    have created : (prefetchKey a).toList = (prefetchKey b).toList ∧ a.info.createdAt = b.info.createdAt := by
      split_ifs at texts with negA negB negB
      · rw [append_cons (prefetchKey a).toList, append_cons (prefetchKey b).toList] at texts
        obtain ⟨front, number⟩ := split_at_last (minus _) (minus _) texts
        have := digits_inj number
        exact ⟨append_cancel_right front, by omega⟩
      · rw [append_cons (prefetchKey a).toList] at texts
        exact absurd (split_at_last (minus _) (minus _) texts).1.symm (prefetchKey_ne_append_minus b _)
      · rw [append_cons (prefetchKey b).toList] at texts
        exact absurd (split_at_last (minus _) (minus _) texts).1 (prefetchKey_ne_append_minus a _)
      · obtain ⟨front, number⟩ := split_at_last (minus _) (minus _) texts
        have := digits_inj number
        exact ⟨front, by omega⟩
    obtain ⟨names, partition, base⟩ := prefetchKey_inj (String.toList_inj.mp created.1)
    exact ⟨names, partition, base, created.2⟩
  · rintro ⟨names, partition, base, created⟩
    unfold cacheKey
    rw [names, partition, base, created]

theorem SameName.refl (a : OrgSegment) : SameName a a := ⟨rfl, rfl, rfl, rfl⟩

/-- No prefetch stores under the key of its segment. -/
theorem prefetchKey_ne_cacheKey (segment : OrgSegment) : prefetchKey segment ≠ cacheKey segment := by
  intro same
  have texts := congrArg String.toList same
  rw [toList_cacheKey] at texts
  exact absurd (self_eq_append_right.mp texts) (cons_ne_nil _ _)

end

/-! ## Files -/

section

variable [LruCrate String Nat]

section files

variable {c : SegmentCache} {key : String}

@[simp] theorem get_files (key : String) (reads : Bool) (c : SegmentCache) : (c.get key reads).2.files = c.files := by
  unfold SegmentCache.get
  split
  · rfl
  · split <;> rfl

theorem mem_files_of_get {reads : Bool} {data : Bytes} (found : (c.get key reads).1 = .ok (some data)) : (key, data) ∈ c.files := by
  unfold SegmentCache.get at found
  split at found
  · cases found
  · next name content first =>
    split at found
    · obtain rfl := Option.some.inj (Except.ok.inj found)
      have named := find?_some first
      rw [decide_eq_true_eq] at named
      rw [← named]
      exact mem_of_find?_eq_some first
    · cases found

theorem get_reads (key : String) (c : SegmentCache) : ∃ found, (c.get key true).1 = .ok found := by
  unfold SegmentCache.get
  split
  · exact ⟨none, rfl⟩
  · exact ⟨_, rfl⟩

theorem evictLoop_files (removes : String → Bool) (needed passes : Nat) (c : SegmentCache) :
    (c.evictLoop removes needed passes).files ⊆ c.files := by
  induction passes generalizing c with
  | zero => exact refl _
  | succ passes ih =>
    unfold SegmentCache.evictLoop
    split
    · cases popped : c.evictOldest removes with
      | none => exact refl _
      | some c' =>
        refine List.Subset.trans (ih c') ?_
        unfold SegmentCache.evictOldest at popped
        split at popped
        · cases popped
        · obtain rfl := Option.some.inj popped
          dsimp only
          split
          · exact fun entry inside => (LruCrate.mem_others.mp inside).1
          · exact refl _
    · exact refl _

/-- What a `put` leaves: old files, its own, or the part of it that was written. -/
theorem file_of_put {data : Bytes} {io : PutIo} {file : String × Bytes} (inside : file ∈ (c.put key data io).2.files) :
    file ∈ c.files ∨ file = (key, data) ∨ ∃ left, io.write = .failed (some left) ∧ file = (key, left) := by
  have kept : (c.evictIfNeeded io.removes data.length).files ⊆ c.files := evictLoop_files _ _ _ c
  unfold SegmentCache.put at inside
  cases write : io.write with
  | ok =>
    rw [write] at inside
    rcases mem_cons.mp inside with own | old
    · exact .inr (.inl own)
    · exact .inl (kept (mem_filter.mp old).1)
  | failed left =>
    rw [write] at inside
    cases left with
    | none => exact .inl (kept inside)
    | some left =>
      rcases mem_cons.mp inside with own | old
      · exact .inr (.inr ⟨left, rfl, own⟩)
      · exact .inl (kept (mem_filter.mp old).1)

end files

/-! ## Reads -/

/-- A file is that of a segment, and as the object store has the segment if it is still registered. -/
structure Inv (s : Readers) : Prop where
  registered : s.registered ⊆ s.known
  stored : ∀ segment ∈ s.registered, (s.objects segment.info.s3Key).isSome = true
  distinct : ∀ a ∈ s.known, ∀ b ∈ s.known, SameName a b → a = b
  files : ∀ file ∈ s.cache.files, ∃ segment ∈ s.known, file.1 = cacheKey segment ∧
    (segment ∈ s.registered → s.objects segment.info.s3Key = some file.2)

section inv

variable {s : Readers} {segment : OrgSegment} {reads downloads : Bool} {io : PutIo}

theorem Inv.withCache (inv : Inv s) {cache : SegmentCache} (files : cache.files = s.cache.files) : Inv { s with cache := cache } :=
  ⟨inv.registered, inv.stored, inv.distinct, by rw [files]; exact inv.files⟩

/-- What is found under the key of a registered segment is its object. -/
theorem Inv.found (inv : Inv s) (registered : segment ∈ s.registered) {data : Bytes} (inside : (cacheKey segment, data) ∈ s.cache.files) :
    s.objects segment.info.s3Key = some data := by
  obtain ⟨owner, known, named, same⟩ := inv.files _ inside
  obtain rfl := inv.distinct segment (inv.registered registered) owner known (cacheKey_eq_iff.mp named)
  exact same registered

theorem mem_objects_of_download {data : Bytes} (downloaded : s.download segment downloads = some data) :
    s.objects segment.info.s3Key = some data := by
  unfold download at downloaded
  split at downloaded
  · exact downloaded
  · cases downloaded

/-- **A read of a registered segment** returns its object. -/
theorem Inv.returned (inv : Inv s) (registered : segment ∈ s.registered) {data : Bytes}
    (result : (s.getSegment segment reads downloads io).1 = .ok data) : s.objects segment.info.s3Key = some data := by
  unfold Readers.getSegment at result
  split at result
  · cases result
  · next found =>
    cases result
    have first := congrArg Prod.fst found
    exact inv.found registered (mem_files_of_get first)
  · split at result
    · cases result
    · next downloaded =>
      dsimp only at result
      split at result
      · cases result
        exact mem_objects_of_download downloaded
      · cases result

/-- A read of a registered segment whose calls succeed is answered. -/
theorem Inv.answered (inv : Inv s) (registered : segment ∈ s.registered) (writes : io.write = .ok) :
    ∃ data, (s.getSegment segment true true io).1 = .ok data := by
  obtain ⟨found, isFound⟩ := get_reads (cacheKey segment) s.cache
  obtain ⟨object, isObject⟩ := Option.isSome_iff_exists.mp (inv.stored segment registered)
  have downloaded : s.download segment true = some object := isObject
  unfold Readers.getSegment
  split
  · next failed =>
    have first := congrArg Prod.fst failed
    cases isFound.symm.trans first
  · exact ⟨_, rfl⟩
  · rw [downloaded]
    dsimp only [SegmentCache.put]
    rw [writes]
    exact ⟨object, rfl⟩

theorem Inv.getSegment (inv : Inv s) (known : segment ∈ s.known) (serves : Serves s (.getSegment segment reads downloads io)) :
    Inv (s.getSegment segment reads downloads io).2 := by
  have same := get_files (cacheKey segment) reads s.cache
  unfold Readers.getSegment
  split
  · next found => exact inv.withCache (by rw [← same, found])
  · next found => exact inv.withCache (by rw [← same, found])
  · next cache found =>
    rw [found] at same
    split
    · exact inv.withCache same
    · next data downloaded =>
      refine ⟨inv.registered, inv.stored, inv.distinct, ?_⟩
      intro file inside
      rcases file_of_put inside with old | rfl | ⟨left, failed, rfl⟩
      · rw [same] at old
        exact inv.files file old
      · exact ⟨segment, known, rfl, fun _ => mem_objects_of_download downloaded⟩
      · exact ⟨segment, known, rfl, fun _ => serves left failed⟩

theorem prefetch_of_serves (serves : Serves s (.prefetch segment reads downloads io)) :
    (s.prefetch segment reads downloads io).1 = none ∧
      (s.prefetch segment reads downloads io).2 = { s with cache := (s.cache.get (prefetchKey segment) reads).2 } := by
  unfold Readers.prefetch
  rcases got : s.cache.get (prefetchKey segment) reads with ⟨result, cache⟩
  rcases serves with ⟨data, found⟩ | nothing
  · rw [got] at found
    obtain rfl : result = .ok (some data) := found
    exact ⟨rfl, rfl⟩
  · dsimp only
    split
    · next same => cases same; exact ⟨rfl, rfl⟩
    · next same => cases same; rw [nothing]; exact ⟨rfl, rfl⟩

/-- **One call** that serves the reads. -/
theorem Inv.step (inv : Inv s) (call : Call) (serves : Serves s call) : Inv (s.step call) := by
  cases call with
  | register segment bytes plain =>
    have fresh : segment ∉ s.known := fun known => serves segment known (SameName.refl segment)
    refine ⟨?_, ?_, ?_, ?_⟩
    · intro t inside
      rcases mem_cons.mp inside with rfl | old
      · exact mem_cons_self
      · exact mem_cons_of_mem _ (inv.registered (mem_filter.mp old).1)
    · intro t inside
      rcases mem_cons.mp inside with rfl | old
      · have own : (s.step (.register t bytes plain)).objects t.info.s3Key = some bytes := Function.update_self ..
        rw [own]
        rfl
      · obtain ⟨before, other⟩ := mem_filter.mp old
        rw [decide_eq_true_eq] at other
        have old : (s.step (.register segment bytes plain)).objects t.info.s3Key = s.objects t.info.s3Key := Function.update_of_ne other ..
        rw [old]
        exact inv.stored t before
    · intro a hereA b hereB same
      rcases mem_cons.mp hereA with rfl | oldA <;> rcases mem_cons.mp hereB with rfl | oldB
      · rfl
      · exact absurd ⟨same.1.symm, same.2.1.symm, same.2.2.1.symm, same.2.2.2.symm⟩ (serves b oldB)
      · exact absurd same (serves a oldA)
      · exact inv.distinct a oldA b oldB same
    · intro file inside
      obtain ⟨owner, known, named, same⟩ := inv.files file inside
      refine ⟨owner, mem_cons_of_mem _ known, named, ?_⟩
      intro registered
      rcases mem_cons.mp registered with rfl | old
      · exact absurd known fresh
      · obtain ⟨before, other⟩ := mem_filter.mp old
        rw [decide_eq_true_eq] at other
        exact (Function.update_of_ne other _ _).trans (same before)
  | deregister segment =>
    refine ⟨fun t inside => inv.registered (mem_filter.mp inside).1, fun t inside => inv.stored t (mem_filter.mp inside).1,
      inv.distinct, ?_⟩
    intro file inside
    obtain ⟨owner, known, named, same⟩ := inv.files file inside
    exact ⟨owner, known, named, fun registered => same (mem_filter.mp registered).1⟩
  | restart => exact inv.withCache rfl
  | getSegment segment reads downloads io =>
    dsimp only [Readers.step]
    split
    · next known => exact inv.getSegment known serves
    · exact inv
  | prefetch segment reads downloads io =>
    dsimp only [Readers.step]
    split
    · rw [(prefetch_of_serves serves).2]
      exact inv.withCache (get_files _ _ _)
    · exact inv

theorem inv_start (maxSizeBytes : Nat) : Inv (start maxSizeBytes) :=
  ⟨refl _, fun _ none => absurd none not_mem_nil, fun _ none => absurd none not_mem_nil, fun _ none => absurd none not_mem_nil⟩

end inv

/-- **Reads are served in every run** whose registrations have new names, whose cache leaves no part of a file,
and in which no prefetch has anything to store. -/
theorem serving_of_meets (maxSizeBytes : Nat) {calls : List Call} (meets : Meets step Serves (start maxSizeBytes) calls) :
    Serving maxSizeBytes calls := by
  have inv : ∀ before after, calls = before ++ after → Inv (run step (start maxSizeBytes) before) := by
    rintro before after rfl
    exact Meets.invariant (fun s call inv serves => inv.step call serves) (meets_append.mp meets).1 (inv_start maxSizeBytes)
  refine ⟨?_, ?_, ?_, ?_⟩
  · intro before after split a hereA b hereB other same
    exact other ((inv before after split).distinct a hereA b hereB (cacheKey_eq_iff.mp same))
  · intro before segment reads downloads io after split known key stored
    have nothing := (prefetch_of_serves (meets_iff_forall.mp meets before _ after split)).1
    rw [nothing] at stored
    cases stored
  · intro before segment reads downloads io after split registered data result
    exact (inv before _ split).returned registered result
  · intro before segment io after split writes registered
    exact (inv before _ split).answered registered writes

end

namespace Example

/-- The first segment of a topic. -/
def orders : OrgSegment :=
  ⟨"org", ⟨.segment "orders" 0 0, "orders", 0, 0, 9, 10, 4, "bucket", .segment (.org "org") "orders" 0 0, 1000, 5, 7⟩⟩

/-- The topic is deleted and created again. -/
def again : OrgSegment := { orders with info := { orders.info with createdAt := 2000 } }

def works : PutIo := ⟨fun _ => true, .ok⟩

/-- The old segment is read, then the new one. -/
def recreated : List Call :=
  [.register orders [1] (by decide), .getSegment orders true true works, .deregister orders, .register again [2] (by decide),
    .getSegment again true true works]

end Example

open Prefetch.Example

/-- The read of the new segment gets the new bytes. -/
theorem serving_recreated : Serving 100 recreated := by
  have whole : ∀ left, works.write ≠ .failed (some left) := fun _ failed => by cases failed
  refine serving_of_meets 100 ⟨?_, fun left failed => absurd failed (whole left), trivial, ?_, fun left failed => absurd failed (whole left), trivial⟩
  · exact fun t none => absurd none not_mem_nil
  · change ∀ t ∈ Readers.known _, ¬ SameName t again
    decide

/-- A prefetch stores what no read looks up. -/
theorem serving_fails : ¬ Serving 100 [.register orders [1] (by decide), .prefetch orders true true works] := by
  intro serving
  have stored := serving.prefetched [.register orders [1] (by decide)] orders true true works [] rfl mem_cons_self
    (prefetchKey orders) rfl
  exact prefetchKey_ne_cacheKey _ stored

end StreamHouse.Storage.Prefetch
