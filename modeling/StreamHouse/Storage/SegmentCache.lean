import Mathlib.Algebra.BigOperators.Group.List.Basic
import Mathlib.Algebra.GroupWithZero.Nat
import StreamHouse.Core.Record
import StreamHouse.Lib.LruCache
import StreamHouse.Lib.Run

/-!
# The segment cache

`SegmentCache` of `cache.rs` keeps one state three times: as files, as a byte count
and as a tracker of the keys used last, which has a capacity of its own. `put`
adds to the count without looking whether the key has a file already, and the
tracker forgets a key without its file going away. `keepsAccount_iff` says in which
runs the three stay the same.
-/

namespace StreamHouse.Storage
open Lib LruCrate List

namespace SegmentCache

/-! ## Sizes -/

/-- The keys of files and their sizes. -/
def sizes (files : List (String × Bytes)) : List (String × Nat) := files.map fun file => (file.1, file.2.length)

def sum (entries : List (String × Nat)) : Nat := (entries.map Prod.snd).sum

theorem sum_append (as bs : List (String × Nat)) : sum (as ++ bs) = sum as + sum bs := by
  rw [sum, sum, sum, map_append, List.sum_append]

theorem sum_cons (entry : String × Nat) (entries : List (String × Nat)) : sum (entry :: entries) = entry.2 + sum entries := by
  rw [sum, sum, map_cons, List.sum_cons]

theorem sum_perm {as bs : List (String × Nat)} (perm : as.Perm bs) : sum as = sum bs := (perm.map _).sum_eq

theorem sizes_others (key : String) (files : List (String × Bytes)) : sizes (others key files) = others key (sizes files) := by
  rw [sizes, sizes, others, others, filter_map]
  rfl

theorem keys_sizes (files : List (String × Bytes)) : (sizes files).map Prod.fst = files.map Prod.fst := by
  rw [sizes, map_map]
  rfl

theorem others_perm {as bs : List (String × Nat)} (perm : as.Perm bs) (key : String) : (others key as).Perm (others key bs) :=
  perm.filter _

theorem others_append (key : String) (as bs : List (String × Nat)) : others key (as ++ bs) = others key as ++ others key bs :=
  filter_append ..

end SegmentCache

/-! ## The cache -/

section

variable [LruCrate String Nat]

structure SegmentCache where
  maxSizeBytes : Nat
  /-- The files of `cache_dir`, each under the key its name is made of. -/
  files : List (String × Bytes)
  currentSize : Nat
  lru : LruCache String Nat

/-- How the write of a `put` ends, and what a failed one leaves in the key's file if it has come to it. -/
inductive WriteIo where
  | ok
  | failed (left : Option Bytes)

structure PutIo where
  /-- The keys whose file `remove_file` takes away. -/
  removes : String → Bool
  write : WriteIo

/-- A key that is the name of a file, which no other key is another path to. -/
abbrev FileKey := { key : String // '/' ∉ key.toList }

inductive CacheCall where
  | get (key : FileKey) (reads : Bool)
  | put (key : FileKey) (data : Bytes) (io : PutIo)

namespace SegmentCache

/-- `new`, on a directory that may have files. -/
def new (dir : List (String × Bytes)) (maxSizeBytes : Nat) : SegmentCache :=
  ⟨maxSizeBytes, dir, 0, LruCrate.new 10000 (by decide)⟩

/-- `get`. -/
def get (key : String) (reads : Bool) (s : SegmentCache) : Except Unit (Option Bytes) × SegmentCache :=
  match s.files.find? fun file => file.1 = key with
  | none => (.ok none, s)
  | some (_, data) => if reads then (.ok (some data), { s with lru := (s.lru.get key).2 }) else (.error (), s)

/-- A pass of the loop in `evict_if_needed`; an error of `remove_file` is only logged. -/
def evictOldest (removes : String → Bool) (s : SegmentCache) : Option SegmentCache :=
  match s.lru.popLru with
  | (none, _) => none
  | (some (key, size), lru) =>
    some { s with
      files := if removes key then others key s.files else s.files
      currentSize := s.currentSize - size
      lru := lru }

/-- The loop; it ends when nothing is tracked, so there are no more passes than entries. -/
def evictLoop (removes : String → Bool) (needed : Nat) : Nat → SegmentCache → SegmentCache
  | 0, s => s
  | passes + 1, s =>
    if s.currentSize + needed > s.maxSizeBytes then
      match s.evictOldest removes with
      | none => s
      | some s => evictLoop removes needed passes s
    else s

/-- `evict_if_needed`. -/
def evictIfNeeded (removes : String → Bool) (needed : Nat) (s : SegmentCache) : SegmentCache :=
  evictLoop removes needed s.lru.entries.length s

/-- `put`, from the write on. -/
def write (key : String) (data : Bytes) (s : SegmentCache) : WriteIo → Bool × SegmentCache
  | .ok => (true, { s with
      files := (key, data) :: others key s.files
      currentSize := s.currentSize + data.length
      lru := s.lru.put key data.length })
  | .failed none => (false, s)
  | .failed (some left) => (false, { s with files := (key, left) :: others key s.files })

/-- `put`. -/
def put (key : String) (data : Bytes) (io : PutIo) (s : SegmentCache) : Bool × SegmentCache :=
  (s.evictIfNeeded io.removes data.length).write key data io.write

def step (s : SegmentCache) : CacheCall → SegmentCache
  | .get key reads => (s.get key reads).2
  | .put key data io => (s.put key data io).2

/-- The bytes of the files. -/
def total (s : SegmentCache) : Nat := (s.files.map fun file => file.2.length).sum

/-- The count is that of the files, and each file is tracked. -/
structure Accounted (s : SegmentCache) : Prop where
  size : s.currentSize = s.total
  tracked : ∀ file ∈ s.files, file.1 ∈ s.lru.entries.map Prod.fst

/-- The call leaves the account in order, and a `put` of what fits at all stays below the maximum. -/
structure AccountedAfter (s : SegmentCache) (call : CacheCall) : Prop where
  accounted : (s.step call).Accounted
  bounded : ∀ key data io, call = .put key data io → data.length ≤ s.maxSizeBytes → (s.step call).total ≤ s.maxSizeBytes

/-- The tracker has the key with this size, and it and those used after it leave room for `needed` bytes. -/
def Survives (s : SegmentCache) (needed : Nat) (key : String) (size : Nat) : Prop :=
  ∃ before after, s.lru.entries = before ++ (key, size) :: after ∧
    (before.map Prod.snd).sum + size + needed ≤ s.maxSizeBytes

/-- The file of a key that must go is taken away. -/
def Removes (s : SegmentCache) (needed : Nat) (removes : String → Bool) (key : String) : Prop :=
  ∀ size, (key, size) ∈ s.lru.entries → ¬ s.Survives needed key size → removes key = true

/-- The write does not go over bytes that are counted, nor beside a full tracker that has nothing to evict. -/
def WriteSafe (s : SegmentCache) (key : String) (data : Bytes) (removes : String → Bool) : WriteIo → Prop
  | .ok => (∀ size, s.Survives data.length key size → size = 0) ∧
      (key ∉ s.lru.entries.map Prod.fst → s.lru.entries.length = s.lru.capacity → s.maxSizeBytes < s.currentSize + data.length)
  | .failed none => s.Removes data.length removes key
  | .failed (some left) => s.Survives data.length key left.length

/-- What the account needs of a call. -/
def Safe (s : SegmentCache) : CacheCall → Prop
  | .get _ _ => True
  | .put key data io => (∀ other, other ≠ key.val → s.Removes data.length io.removes other) ∧ s.WriteSafe key data io.removes io.write

end SegmentCache

/-- In every state of the run the account is in order. -/
def KeepsAccount (dir : List (String × Bytes)) (maxSizeBytes : Nat) (calls : List CacheCall) : Prop :=
  (SegmentCache.new dir maxSizeBytes).Accounted ∧ ∀ before call after, calls = before ++ call :: after →
    (run SegmentCache.step (.new dir maxSizeBytes) before).AccountedAfter call

namespace SegmentCache

variable {s : SegmentCache}

theorem total_eq (s : SegmentCache) : s.total = sum (sizes s.files) := by
  rw [total, sum, sizes, map_map]
  rfl

/-- The files are those the tracker has, with these sizes, and the count is theirs. -/
structure Exact (s : SegmentCache) : Prop where
  files : (sizes s.files).Perm s.lru.entries
  size : s.currentSize = sum s.lru.entries

theorem Exact.accounted (exact_ : s.Exact) : s.Accounted := by
  refine ⟨?_, ?_⟩
  · rw [exact_.size, total_eq, sum_perm exact_.files]
  · intro file inside
    apply (exact_.files.map Prod.fst).mem_iff.mp
    rw [keys_sizes]
    exact mem_map_of_mem inside

/-! ## Eviction -/

/-- What the loop leaves of the tracker and the files: the entries used last that fit, and
the files of the others that could not be removed. -/
structure Evicted (s : SegmentCache) (needed : Nat) (removes : String → Bool) (left : List (String × Nat)) (r : SegmentCache)
    (kept popped : List (String × Nat)) : Prop where
  split : s.lru.entries = kept ++ popped
  entries : r.lru.entries = kept
  capacity : r.lru.capacity = s.lru.capacity
  maximum : r.maxSizeBytes = s.maxSizeBytes
  size : r.currentSize = sum kept
  files : (sizes r.files).Perm (kept ++ (popped.filter (fun entry => !removes entry.1) ++ left))
  fits : kept = [] ∨ sum kept + needed ≤ s.maxSizeBytes
  full : ∀ first rest, popped = first :: rest → s.maxSizeBytes < sum kept + first.2 + needed

theorem evictOldest_none (removes : String → Bool) (empty : s.lru.entries = []) :
    s.evictOldest removes = none := by
  have nothing : s.lru.popLru.1 = none := by rw [popLru_eq_getLast, empty, getLast?_nil]
  unfold evictOldest
  split
  · rfl
  · next popped =>
    rw [popped] at nothing
    cases nothing

/-- A pass pops the last entry. -/
theorem evictOldest_some (removes : String → Bool) {front : List (String × Nat)} {key : String} {size : Nat}
    (split : s.lru.entries = front ++ [(key, size)]) :
    ∃ t, s.evictOldest removes = some t ∧ t.lru.entries = front ∧ t.lru.capacity = s.lru.capacity ∧
      t.maxSizeBytes = s.maxSizeBytes ∧ t.currentSize = s.currentSize - size ∧
      t.files = if removes key then others key s.files else s.files := by
  have last : s.lru.popLru.1 = some (key, size) := by
    rw [popLru_eq_getLast, split, getLast?_concat]
  have init : s.lru.popLru.2.entries = front := by
    rw [entries_popLru, split, dropLast_concat]
  unfold evictOldest
  split
  · next popped =>
    rw [popped] at last
    cases last
  · next popped =>
    rw [popped] at last init
    obtain ⟨rfl, rfl⟩ := Prod.mk.inj (Option.some.inj last)
    refine ⟨_, rfl, init, ?_, rfl, rfl, rfl⟩
    have capacity := capacity_popLru s.lru
    rw [popped] at capacity
    exact capacity

omit [LruCrate String Nat] in
/-- The files after a pass. -/
theorem sizes_evictOldest {files : List (String × Bytes)} {front left : List (String × Nat)} {key : String} {size : Nat}
    (removes : String → Bool) (perm : (sizes files).Perm ((front ++ [(key, size)]) ++ left))
    (distinct : (((front ++ [(key, size)]) ++ left).map Prod.fst).Nodup) :
    (sizes (if removes key then others key files else files)).Perm
      (front ++ ([(key, size)].filter (fun entry => !removes entry.1) ++ left)) := by
  cases removed : removes key with
  | false =>
    rw [filter_cons_of_pos (by simp [removed]), filter_nil, ← append_assoc]
    exact perm
  | true =>
    rw [filter_cons_of_neg (by simp [removed]), filter_nil, if_pos rfl, sizes_others]
    have moved : ((front ++ [(key, size)]) ++ left).Perm ((key, size) :: (front ++ left)) := by
      rw [append_assoc]
      exact perm_middle
    have absent : key ∉ (front ++ left).map Prod.fst := (nodup_cons.mp ((moved.map Prod.fst).nodup_iff.mp distinct)).1
    have gone : others key ((key, size) :: (front ++ left)) = others key (front ++ left) :=
      filter_cons_of_neg (by simp)
    have rest := others_perm (perm.trans moved) key
    rw [gone, others_of_absent absent] at rest
    exact rest

/-- **The loop**, by its passes. -/
theorem evictLoop_evicted (removes : String → Bool) (needed : Nat) (passes : Nat) {left : List (String × Nat)}
    (files : (sizes s.files).Perm (s.lru.entries ++ left)) (distinct : ((s.lru.entries ++ left).map Prod.fst).Nodup)
    (size : s.currentSize = sum s.lru.entries) (enough : s.lru.entries.length ≤ passes) :
    ∃ kept popped, Evicted s needed removes left (evictLoop removes needed passes s) kept popped := by
  induction passes generalizing s left with
  | zero =>
    have empty : s.lru.entries = [] := length_eq_zero_iff.mp (Nat.le_zero.mp enough)
    rw [empty] at files size
    exact ⟨[], [], empty, empty, rfl, rfl, size, files, .inl rfl, fun _ _ no => by cases no⟩
  | succ passes ih =>
    rw [evictLoop]
    by_cases tooMuch : s.currentSize + needed > s.maxSizeBytes
    · rw [if_pos tooMuch]
      rcases eq_nil_or_concat' s.lru.entries with empty | ⟨front, ⟨key, bytes⟩, split⟩
      · rw [evictOldest_none removes empty]
        rw [empty] at files size
        exact ⟨[], [], empty, empty, rfl, rfl, size, files, .inl rfl, fun _ _ no => by cases no⟩
      · obtain ⟨t, pass, entries, capacity, maximum, count, held⟩ := evictOldest_some removes split
        rw [split] at files distinct size enough
        rw [sum_append, sum_cons] at size
        have nothing : sum ([] : List (String × Nat)) = 0 := rfl
        have remaining : t.currentSize = sum front := by
          rw [count, size]
          dsimp only
          omega
        have fewer : (((front ++ ([(key, bytes)].filter (fun entry => !removes entry.1) ++ left))).map Prod.fst).Sublist
            (((front ++ [(key, bytes)]) ++ left).map Prod.fst) := by
          rw [← append_assoc]
          exact (((Sublist.refl front).append filter_sublist).append (Sublist.refl left)).map _
        have shorter : t.lru.entries.length ≤ passes := by
          rw [length_append, length_cons, length_nil] at enough
          rw [entries]
          omega
        have next := sizes_evictOldest removes files distinct
        have apart := fewer.nodup distinct
        rw [← held, ← entries] at next
        rw [← entries] at remaining apart
        obtain ⟨kept, popped, evicted⟩ := ih next apart remaining shorter
        rw [pass]
        have parts : front = kept ++ popped := entries.symm.trans evicted.split
        refine ⟨kept, popped ++ [(key, bytes)], ⟨?_, evicted.entries, evicted.capacity.trans capacity,
          evicted.maximum.trans maximum, evicted.size, ?_, maximum ▸ evicted.fits, ?_⟩⟩
        · rw [split, parts, append_assoc]
        · rw [filter_append, append_assoc (popped.filter _)]
          exact evicted.files
        · intro first rest cut
          cases popped with
          | cons head tail =>
            obtain ⟨rfl, -⟩ := cons.inj cut
            have full := evicted.full head tail rfl
            rw [maximum] at full
            exact full
          | nil =>
            obtain ⟨rfl, -⟩ := cons.inj cut
            rw [append_nil] at parts
            rw [parts] at size
            dsimp only at size ⊢
            omega
    · rw [if_neg tooMuch]
      exact ⟨s.lru.entries, [], (append_nil _).symm, rfl, rfl, rfl, size, files, .inr (by omega), fun _ _ no => by cases no⟩

theorem Exact.evicted (exact_ : s.Exact) (removes : String → Bool) (needed : Nat) :
    ∃ kept popped, Evicted s needed removes [] (s.evictIfNeeded removes needed) kept popped := by
  apply evictLoop_evicted
  · rw [append_nil]
    exact exact_.files
  · rw [append_nil]
    exact s.lru.distinct
  · exact exact_.size
  · exact Nat.le_refl _

namespace Evicted

variable {s r : SegmentCache} {needed : Nat} {removes : String → Bool} {left kept popped : List (String × Nat)}

section

variable (evicted : Evicted s needed removes left r kept popped)
include evicted

/-- The entries that survive are those kept. -/
theorem survives_iff_kept {key : String} {size : Nat} :
    s.Survives needed key size ↔ (key, size) ∈ kept := by
  constructor
  · rintro ⟨before, after, cut, room⟩
    have whole : kept ++ popped = before ++ (key, size) :: after := evicted.split.symm.trans cut
    have tooMuch (middle : List (String × Nat)) (front : before = kept ++ middle) (back : popped = middle ++ (key, size) :: after) :
        False := by
      cases middle with
      | nil =>
        have full := evicted.full _ _ back
        rw [front, append_nil] at room
        dsimp only at full
        unfold sum at full
        omega
      | cons first middle =>
        have full := evicted.full _ _ back
        have sums := sum_append kept (first :: middle)
        rw [← front, sum_cons] at sums
        unfold sum at sums full
        omega
    rcases append_eq_append_iff.mp whole with ⟨middle, front, back⟩ | ⟨middle, front, back⟩
    · exact (tooMuch middle front back).elim
    · cases middle with
      | nil =>
        rw [append_nil] at front
        rw [nil_append] at back
        exact (tooMuch [] (by rw [front, append_nil]) back.symm).elim
      | cons first middle =>
        obtain ⟨rfl, -⟩ := cons.inj back
        rw [front]
        exact mem_append_right _ mem_cons_self
  · intro inside
    obtain ⟨before, after, cut⟩ := append_of_mem inside
    refine ⟨before, after ++ popped, ?_, ?_⟩
    · rw [evicted.split, cut, append_assoc, cons_append]
    · rcases evicted.fits with empty | fits
      · rw [empty] at inside
        cases inside
      · have sums := sum_append before ((key, size) :: after)
        rw [← cut, sum_cons] at sums
        unfold sum at sums fits
        dsimp only at sums
        omega

theorem distinct : ((kept ++ popped).map Prod.fst).Nodup := by
  rw [← evicted.split]
  exact s.lru.distinct

theorem not_kept_of_popped {entry : String × Nat} (gone : entry ∈ popped) :
    entry.1 ∉ kept.map Prod.fst := by
  have apart := evicted.distinct
  rw [map_append] at apart
  intro stays
  exact (nodup_append.mp apart).2.2 entry.1 stays entry.1 (mem_map_of_mem gone) rfl

theorem removes_iff (key : String) :
    s.Removes needed removes key ↔ ∀ entry ∈ popped, entry.1 = key → removes key = true := by
  constructor
  · rintro safe ⟨_, size⟩ gone rfl
    refine safe size ?_ ?_
    · rw [evicted.split]
      exact mem_append_right _ gone
    · rw [evicted.survives_iff_kept]
      exact fun stays => evicted.not_kept_of_popped gone (mem_map.mpr ⟨_, stays, rfl⟩)
  · intro every size inside lost
    rw [evicted.split] at inside
    rw [evicted.survives_iff_kept] at lost
    exact every _ ((mem_append.mp inside).resolve_left lost) rfl

/-- With nothing but this item put beside what is kept, the maximum is not passed. -/
theorem bounded (fits : needed ≤ s.maxSizeBytes) :
    sum kept + needed ≤ s.maxSizeBytes := by
  rcases evicted.fits with rfl | room
  · have nothing : sum ([] : List (String × Nat)) = 0 := rfl
    omega
  · exact room

/-- Everything is kept iff there is room for all. -/
theorem popped_eq_nil (size : s.currentSize = sum s.lru.entries)
    (room : s.currentSize + needed ≤ s.maxSizeBytes) : popped = [] := by
  cases popped with
  | nil => rfl
  | cons first rest =>
    have full := evicted.full first rest rfl
    rw [evicted.split, sum_append, sum_cons] at size
    omega


end
end Evicted

/-! ## One call -/

omit [LruCrate String Nat] in
/-- A file that stands behind the eviction without being tracked is one that could not be removed. -/
theorem unremoved_iff {popped : List (String × Nat)} {removes : String → Bool} {key : String} :
    (∀ other, other ≠ key → ∀ entry ∈ popped, entry.1 = other → removes other = true) ↔
      others key (popped.filter fun entry => !removes entry.1) = [] := by
  rw [others, filter_filter, filter_eq_nil_iff]
  constructor
  · intro every entry gone
    by_cases same : entry.1 = key
    · simp [same]
    · simp [every entry.1 same entry gone rfl]
  · rintro none_ other different entry gone rfl
    simpa [different] using none_ entry gone

section Put

variable {s r : SegmentCache} {key : String} {data : Bytes} {io : PutIo} {kept popped : List (String × Nat)}

section

variable (evicted : Evicted s data.length io.removes [] r kept popped)
include evicted

/-- The files once the key's file is written. -/
theorem sizes_written (key : String) (content : Bytes) :
    (sizes ((key, content) :: others key r.files)).Perm ((key, content.length) ::
      (others key kept ++ others key (popped.filter fun entry => !io.removes entry.1))) := by
  have rest := others_perm evicted.files key
  rw [append_nil, others_append, ← sizes_others] at rest
  exact rest.cons (key, content.length)

/-- If every file is tracked, no other file was left behind. -/
theorem others_of_tracked {t : SegmentCache} {content : Bytes}
    (accounted : t.Accounted) (files : t.files = (key, content) :: others key r.files)
    (lru : ∀ other ∈ t.lru.entries.map Prod.fst, other = key ∨ other ∈ kept.map Prod.fst) :
    others key (popped.filter fun entry => !io.removes entry.1) = [] := by
  apply eq_nil_iff_forall_not_mem.mpr
  intro entry inside
  obtain ⟨unremoved, different⟩ := mem_others.mp inside
  have there : entry.1 ∈ t.files.map Prod.fst := by
    rw [files, ← keys_sizes]
    apply ((sizes_written evicted key content).map Prod.fst).mem_iff.mpr
    exact mem_map_of_mem (mem_cons_of_mem _ (mem_append_right _ inside))
  obtain ⟨file, listed, same⟩ := mem_map.mp there
  have tracked := accounted.tracked file listed
  rw [same] at tracked
  rcases lru entry.1 tracked with isKey | stays
  · exact different isKey
  · exact evicted.not_kept_of_popped (mem_filter.mp unremoved).1 stays

/-- What is counted for the other keys, and for this one. -/
theorem sum_others :
    (key ∉ kept.map Prod.fst ∧ others key kept = kept) ∨
      ∃ size, (key, size) ∈ kept ∧ kept.Perm ((key, size) :: others key kept) ∧ sum kept = size + sum (others key kept) := by
  by_cases present : key ∈ kept.map Prod.fst
  · obtain ⟨⟨_, size⟩, inside, rfl⟩ := mem_map.mp present
    have apart := evicted.distinct
    rw [map_append] at apart
    have moved := perm_others (nodup_append.mp apart).1 inside
    exact .inr ⟨size, inside, moved, (sum_perm moved).trans (sum_cons _ _)⟩
  · exact .inl ⟨present, others_of_absent present⟩


end
/-- The keys tracked after a `put`. -/
theorem keys_put (c : LruCache String Nat) (size : Nat) :
    ∀ other ∈ (c.put key size).entries.map Prod.fst, other = key ∨ other ∈ c.entries.map Prod.fst := by
  intro other inside
  by_cases present : key ∈ c.entries.map Prod.fst
  · rw [entries_put_of_mem present, map_cons] at inside
    rcases mem_cons.mp inside with same | later
    · exact .inl same
    · exact .inr ((filter_sublist.map _).subset later)
  · by_cases full : c.entries.length = c.capacity
    · rw [entries_put_of_full present full, map_cons] at inside
      rcases mem_cons.mp inside with same | later
      · exact .inl same
      · exact .inr (((dropLast_sublist _).map _).subset later)
    · rw [entries_put_of_room present full, map_cons] at inside
      exact mem_cons.mp inside

/-! ### The write succeeds -/

section

variable (evicted : Evicted s data.length io.removes [] r kept popped)
include evicted

theorem safe_of_ok (exact_ : s.Exact)
    (accounted : (r.write key data .ok).2.Accounted) :
    (∀ other, other ≠ key → s.Removes data.length io.removes other) ∧ s.WriteSafe key data io.removes .ok := by
  have none_ := others_of_tracked evicted accounted rfl (by rw [← evicted.entries]; exact keys_put r.lru data.length)
  refine ⟨?_, ?_, ?_⟩
  · intro other different
    exact (evicted.removes_iff other).mpr (unremoved_iff.mpr none_ other different)
  · intro size survives
    have inside := evicted.survives_iff_kept.mp survives
    have counted : r.currentSize + data.length = sum (sizes ((key, data) :: others key r.files)) :=
      accounted.size.trans (total_eq _)
    rw [sum_perm (sizes_written evicted key data), none_, append_nil, sum_cons, evicted.size] at counted
    rcases @sum_others _ s r key data io kept popped evicted with ⟨absent, -⟩ | ⟨other, there, -, parts⟩
    · exact absurd (mem_map.mpr ⟨_, inside, rfl⟩) absent
    · have same : size = other := by
        have apart := evicted.distinct
        rw [map_append] at apart
        exact (Prod.mk.inj (inj_on_of_nodup_map (nodup_append.mp apart).1 inside there rfl)).2
      dsimp only at counted
      omega
  · intro absent full
    by_contra fits
    have all := evicted.popped_eq_nil exact_.size (by omega)
    have whole := evicted.split
    rw [all, append_nil] at whole
    have entries : r.lru.entries = s.lru.entries := evicted.entries.trans whole.symm
    -- the last entry is forgotten, and its file stays
    have positive := s.lru.positive
    have some_ : s.lru.entries ≠ [] := fun empty => by rw [empty, length_nil] at full; omega
    obtain ⟨front, last, cut⟩ := (eq_nil_or_concat' s.lru.entries).resolve_left some_
    have different : last.1 ≠ key := by
      rintro rfl
      exact absent (mem_map_of_mem (by rw [cut]; exact mem_append_right _ mem_cons_self))
    have there : last.1 ∈ ((r.write key data .ok).2.files).map Prod.fst := by
      rw [← keys_sizes]
      apply ((sizes_written evicted key data).map Prod.fst).mem_iff.mpr
      refine mem_map_of_mem (mem_cons_of_mem _ (mem_append_left _ (mem_others.mpr ⟨?_, different⟩)))
      rw [← evicted.entries, entries, cut]
      exact mem_append_right _ mem_cons_self
    obtain ⟨file, listed, same⟩ := mem_map.mp there
    have tracked := accounted.tracked file listed
    have put : (r.write key data .ok).2.lru.entries = (key, data.length) :: front := by
      show (r.lru.put key data.length).entries = _
      rw [entries_put_of_full (by rw [entries]; exact absent) (by rw [entries, evicted.capacity]; exact full), entries, cut,
        dropLast_concat]
    rw [put, same, map_cons] at tracked
    have apart := s.lru.distinct
    rw [cut, map_append] at apart
    rcases mem_cons.mp tracked with isKey | early
    · exact different isKey
    · exact (nodup_append.mp apart).2.2 last.1 early last.1 (mem_map_of_mem mem_cons_self) rfl

theorem exact_of_ok (exact_ : s.Exact)
    (others_ : ∀ other, other ≠ key → s.Removes data.length io.removes other) (safe : s.WriteSafe key data io.removes .ok) :
    (r.write key data .ok).2.Exact ∧ (r.write key data .ok).2.currentSize = sum kept + data.length := by
  have none_ := unremoved_iff.mp fun other different => (evicted.removes_iff other).mp (others_ other different)
  have entries : (r.lru.put key data.length).entries = (key, data.length) :: others key kept := by
    rcases @sum_others _ s r key data io kept popped evicted with ⟨absent, all⟩ | ⟨size, inside, -, -⟩
    · rw [all, entries_put_of_room (by rw [evicted.entries]; exact absent), evicted.entries]
      rw [evicted.entries, evicted.capacity]
      intro full
      have within := s.lru.within
      have parts := congrArg List.length evicted.split
      rw [length_append] at parts
      have nothing : popped = [] := length_eq_zero_iff.mp (by omega)
      have whole := evicted.split
      rw [nothing, append_nil] at whole
      have noRoom := safe.2 (by rw [whole]; exact absent) (by rw [whole]; exact full)
      rcases evicted.fits with empty | fits
      · rw [empty, length_nil] at full
        have positive := s.lru.positive
        omega
      · rw [exact_.size, whole] at noRoom
        omega
    · rw [entries_put_of_mem (by rw [evicted.entries]; exact mem_map.mpr ⟨_, inside, rfl⟩), evicted.entries]
  have counted : sum kept = sum (others key kept) := by
    rcases @sum_others _ s r key data io kept popped evicted with ⟨-, all⟩ | ⟨size, inside, -, parts⟩
    · rw [all]
    · have zero := safe.1 size (evicted.survives_iff_kept.mpr inside)
      omega
  have count : (r.write key data .ok).2.currentSize = sum kept + data.length := congrArg (· + data.length) evicted.size
  refine ⟨⟨?_, ?_⟩, count⟩
  · show (sizes _).Perm (r.lru.put key data.length).entries
    have files := sizes_written evicted key data
    rw [none_, append_nil] at files
    rw [entries]
    exact files
  · rw [count]
    show _ = sum (r.lru.put key data.length).entries
    rw [entries, sum_cons]
    dsimp only
    omega

/-! ### The write fails -/

theorem safe_of_failed (accounted : (r.write key data (.failed none)).2.Accounted) :
    ∀ other, s.Removes data.length io.removes other := by
  intro other
  apply (evicted.removes_iff other).mpr
  rintro entry gone rfl
  by_contra unremoved
  have there : entry.1 ∈ r.files.map Prod.fst := by
    rw [← keys_sizes]
    apply (evicted.files.map Prod.fst).mem_iff.mpr
    apply mem_map_of_mem
    rw [append_nil]
    exact mem_append_right _ (mem_filter.mpr ⟨gone, by simpa using unremoved⟩)
  obtain ⟨file, listed, same⟩ := mem_map.mp there
  have tracked : file.1 ∈ r.lru.entries.map Prod.fst := accounted.tracked file listed
  rw [same, evicted.entries] at tracked
  exact evicted.not_kept_of_popped gone tracked

theorem exact_of_failed
    (all : ∀ other, s.Removes data.length io.removes other) : r.Exact := by
  have none_ : popped.filter (fun entry => !io.removes entry.1) = [] := by
    apply filter_eq_nil_iff.mpr
    intro entry gone
    simp [(evicted.removes_iff entry.1).mp (all entry.1) entry gone rfl]
  have files := evicted.files
  rw [none_, append_nil, append_nil] at files
  exact ⟨by rw [evicted.entries]; exact files, by rw [evicted.entries]; exact evicted.size⟩

theorem safe_of_torn {torn : Bytes}
    (accounted : (r.write key data (.failed (some torn))).2.Accounted) :
    (∀ other, other ≠ key → s.Removes data.length io.removes other) ∧ s.WriteSafe key data io.removes (.failed (some torn)) := by
  have none_ := others_of_tracked evicted accounted rfl (by rw [← evicted.entries]; exact fun other inside => .inr inside)
  refine ⟨?_, ?_⟩
  · intro other different
    exact (evicted.removes_iff other).mpr (unremoved_iff.mpr none_ other different)
  · have tracked : key ∈ r.lru.entries.map Prod.fst := accounted.tracked (key, torn) mem_cons_self
    have counted : r.currentSize = sum (sizes ((key, torn) :: others key r.files)) := accounted.size.trans (total_eq _)
    rw [sum_perm (sizes_written evicted key torn), none_, append_nil, sum_cons, evicted.size] at counted
    rcases @sum_others _ s r key data io kept popped evicted with ⟨absent, -⟩ | ⟨size, inside, -, parts⟩
    · rw [evicted.entries] at tracked
      exact absurd tracked absent
    · have same : torn.length = size := by
        dsimp only at counted
        omega
      show s.Survives data.length key torn.length
      rw [same]
      exact evicted.survives_iff_kept.mpr inside

theorem exact_of_torn {torn : Bytes}
    (others_ : ∀ other, other ≠ key → s.Removes data.length io.removes other)
    (safe : s.WriteSafe key data io.removes (.failed (some torn))) : (r.write key data (.failed (some torn))).2.Exact := by
  have none_ := unremoved_iff.mp fun other different => (evicted.removes_iff other).mp (others_ other different)
  have inside := evicted.survives_iff_kept.mp safe
  have apart := evicted.distinct
  rw [map_append] at apart
  have files := sizes_written evicted key torn
  rw [none_, append_nil] at files
  refine ⟨?_, ?_⟩
  · show (sizes _).Perm r.lru.entries
    rw [evicted.entries]
    exact files.trans (perm_others (nodup_append.mp apart).1 inside).symm
  · show r.currentSize = sum r.lru.entries
    rw [evicted.entries, evicted.size]


end
end Put

/-- **One `put`**: with the account in order before it, it is in order after it iff the call is safe. -/
theorem Exact.put (exact_ : s.Exact) (key : FileKey) (data : Bytes) (io : PutIo) :
    ((s.step (.put key data io)).Accounted → s.Safe (.put key data io)) ∧
      (s.Safe (.put key data io) → (s.step (.put key data io)).Exact ∧
        (data.length ≤ s.maxSizeBytes → (s.step (.put key data io)).currentSize ≤ s.maxSizeBytes)) := by
  obtain ⟨kept, popped, evicted⟩ := exact_.evicted io.removes data.length
  have bounded := evicted.bounded
  simp only [step, SegmentCache.put, Safe]
  generalize s.evictIfNeeded io.removes data.length = r at *
  cases write : io.write with
  | ok =>
    refine ⟨safe_of_ok evicted exact_, ?_⟩
    rintro ⟨others_, safe⟩
    obtain ⟨next, count⟩ := exact_of_ok evicted exact_ others_ safe
    exact ⟨next, fun fits => count ▸ bounded fits⟩
  | failed left =>
    have count (fits : data.length ≤ s.maxSizeBytes) : r.currentSize ≤ s.maxSizeBytes := by
      have room := bounded fits
      have size := evicted.size
      omega
    cases left with
    | none =>
      constructor
      · intro accounted
        have all := safe_of_failed evicted accounted
        exact ⟨fun other _ => all other, all key⟩
      · rintro ⟨others_, safe⟩
        refine ⟨exact_of_failed evicted fun other => ?_, count⟩
        by_cases same : other = key.val
        · rw [same]
          exact safe
        · exact others_ other same
    | some torn =>
      refine ⟨safe_of_torn evicted, ?_⟩
      rintro ⟨others_, safe⟩
      exact ⟨exact_of_torn evicted others_ safe, count⟩

theorem Exact.get (exact_ : s.Exact) (key : FileKey) (reads : Bool) : (s.step (.get key reads)).Exact := by
  unfold step SegmentCache.get
  dsimp only
  split
  · exact exact_
  · split
    · have same := entries_get key.val s.lru
      exact ⟨exact_.files.trans same.symm, exact_.size.trans (sum_perm same.symm)⟩
    · exact exact_

theorem Exact.step (exact_ : s.Exact) {call : CacheCall} (safe : s.Safe call) : (s.step call).Exact := by
  cases call with
  | get key reads => exact exact_.get key reads
  | put key data io => exact ((exact_.put key data io).2 safe).1

theorem Exact.accountedAfter_iff (exact_ : s.Exact) (call : CacheCall) : s.AccountedAfter call ↔ s.Safe call := by
  constructor
  · intro after
    cases call with
    | get key reads => trivial
    | put key data io => exact (exact_.put key data io).1 after.accounted
  · intro safe
    have next := exact_.step safe
    refine ⟨next.accounted, ?_⟩
    rintro key data io rfl fits
    rw [← next.accounted.size]
    exact ((exact_.put key data io).2 safe).2 fits

theorem accounted_new_iff (dir : List (String × Bytes)) (maxSizeBytes : Nat) : (new dir maxSizeBytes).Accounted ↔ dir = [] := by
  constructor
  · intro accounted
    apply eq_nil_iff_forall_not_mem.mpr
    intro file inside
    have tracked := accounted.tracked file inside
    rw [new, entries_new] at tracked
    cases tracked
  · rintro rfl
    exact ⟨rfl, fun file inside => by cases inside⟩

end SegmentCache

/-- **The account is in order throughout exactly if the cache begins with an empty directory and
every `put` is safe**: it replaces no counted bytes, finds the tracker with a place free or
something to evict, and its file operations leave nothing behind. -/
theorem keepsAccount_iff (dir : List (String × Bytes)) (maxSizeBytes : Nat) (calls : List CacheCall) :
    KeepsAccount dir maxSizeBytes calls ↔ dir = [] ∧ ∀ before call after, calls = before ++ call :: after →
      (run SegmentCache.step (.new dir maxSizeBytes) before).Safe call := by
  unfold KeepsAccount
  rw [SegmentCache.accounted_new_iff]
  refine and_congr_right ?_
  rintro rfl
  have empty : (SegmentCache.new [] maxSizeBytes).lru.entries = [] := entries_new ..
  have start : (SegmentCache.new [] maxSizeBytes).Exact := ⟨by rw [empty]; exact .refl _, by rw [empty]; rfl⟩
  have steps := meets_congr SegmentCache.Exact (fun s call exact_ => exact_.accountedAfter_iff call)
    (fun s call exact_ safe => exact_.step safe) start calls
  exact meets_iff_forall.symm.trans (steps.trans meets_iff_forall)

end

namespace Example

/-- The first segment of `orders`, where no file operation fails. -/
def putOrders : CacheCall := .put ⟨"orders-0-0", by decide⟩ [1, 2] ⟨fun _ => true, .ok⟩

end Example

/-- The same segment twice: two bytes are in the file, and four are counted. -/
theorem keepsAccount_fails : ¬ KeepsAccount [] 100 [Example.putOrders, Example.putOrders] := by
  rintro ⟨-, every⟩
  have size := (every [Example.putOrders] _ [] rfl).accounted.size
  revert size
  decide

end StreamHouse.Storage
