import Mathlib.Data.List.Nodup
import Mathlib.Data.List.Perm.Basic

/-!
# Caches that forget what was used least recently

An `LruCrate` has the operations of the crate `lru` and what is documented of them, as far as it is
relied on: a cache lists its entries with the one used last in front, no more than its
capacity and one for a key; a new key in a full cache takes the place of the last entry,
and looking a key up keeps what is listed. Lists that are kept so are an instance.
-/

namespace StreamHouse.Lib

open List Prod

namespace LruCrate

variable {κ α : Type} [DecidableEq κ]

/-- The entries of the other keys. -/
def others (key : κ) (entries : List (κ × α)) : List (κ × α) := entries.filter fun entry => entry.1 ≠ key

/-- The value of a key. -/
def valueOf (key : κ) (entries : List (κ × α)) : Option α := (entries.find? fun entry => entry.1 = key).map snd

variable {key : κ} {entries : List (κ × α)}

theorem mem_others {entry : κ × α} : entry ∈ others key entries ↔ entry ∈ entries ∧ entry.1 ≠ key := by
  rw [others, mem_filter, decide_eq_true_iff]

theorem others_of_absent (absent : key ∉ entries.map fst) : others key entries = entries := by
  apply filter_eq_self.mpr
  intro entry inside
  have other : entry.1 ≠ key := fun same => absent (mem_map.mpr ⟨entry, inside, same⟩)
  simpa using other

theorem absent_others (key : κ) (entries : List (κ × α)) : key ∉ (others key entries).map fst := by
  intro inside
  obtain ⟨entry, listed, same⟩ := mem_map.mp inside
  exact (mem_others.mp listed).2 same

theorem nodup_others (distinct : (entries.map fst).Nodup) (key : κ) : ((others key entries).map fst).Nodup :=
  distinct.sublist (filter_sublist.map _)

/-- An entry and those of the other keys are all of them. -/
theorem perm_others (distinct : (entries.map fst).Nodup) {value : α}
    (inside : (key, value) ∈ entries) : entries.Perm ((key, value) :: others key entries) := by
  obtain ⟨before, after, rfl⟩ := append_of_mem inside
  rw [map_append, map_cons] at distinct
  obtain ⟨-, later, apart⟩ := nodup_append.mp distinct
  have front : key ∉ before.map fst := fun early => apart key early key mem_cons_self rfl
  have back : key ∉ after.map fst := (nodup_cons.mp later).1
  have split : others key (before ++ (key, value) :: after) = before ++ after := by
    rw [others, filter_append, filter_cons_of_neg (by simp)]
    exact congrArg₂ (· ++ ·) (others_of_absent front) (others_of_absent back)
  rw [split]
  exact perm_middle

theorem length_others_lt (present : key ∈ entries.map fst) : (others key entries).length < entries.length := by
  obtain ⟨entry, inside, same⟩ := mem_map.mp present
  apply length_filter_lt_length_iff_exists.mpr
  exact ⟨entry, inside, by simpa using same⟩

theorem mem_of_valueOf {value : α} (found : valueOf key entries = some value) : (key, value) ∈ entries := by
  obtain ⟨entry, isEntry, rfl⟩ := Option.map_eq_some_iff.mp found
  have named := find?_some isEntry
  simp only [decide_eq_true_eq] at named
  rw [← named]
  exact mem_of_find?_eq_some isEntry

theorem valueOf_eq_none_iff : valueOf key entries = none ↔ key ∉ entries.map fst := by
  rw [valueOf, Option.map_eq_none_iff, find?_eq_none, mem_map]
  push Not
  simp only [decide_eq_true_eq, ne_eq]

theorem valueOf_eq_some_iff (distinct : (entries.map fst).Nodup) {value : α} : valueOf key entries = some value ↔ (key, value) ∈ entries := by
  refine ⟨mem_of_valueOf, fun inside => ?_⟩
  cases found : valueOf key entries with
  | none => exact absurd (mem_map.mpr ⟨(key, value), inside, rfl⟩) (valueOf_eq_none_iff.mp found)
  | some other =>
    have same := inj_on_of_nodup_map distinct (mem_of_valueOf found) inside rfl
    rw [(Prod.mk.inj same).2]

end LruCrate

open LruCrate

/-- `lru::LruCache` for these types. -/
class LruCrate (κ α : Type) [DecidableEq κ] where
  LruCache : Type
  /-- `cap`, which is a `NonZeroUsize`. -/
  capacity : LruCache → Nat
  /-- `iter`. -/
  entries : LruCache → List (κ × α)
  new (capacity : Nat) (positive : 0 < capacity) : LruCache
  get (key : κ) (c : LruCache) : Option α × LruCache
  /-- `put`, without the value that was there. -/
  put (key : κ) (value : α) (c : LruCache) : LruCache
  /-- `pop`, without the value. -/
  pop (key : κ) (c : LruCache) : LruCache
  popLru (c : LruCache) : Option (κ × α) × LruCache
  positive (c : LruCache) : 0 < capacity c
  within (c : LruCache) : (entries c).length ≤ capacity c
  distinct (c : LruCache) : ((entries c).map fst).Nodup
  entries_new (n : Nat) (positive : 0 < n) : entries (new n positive) = []
  get_eq_valueOf (key : κ) (c : LruCache) : (get key c).1 = valueOf key (entries c)
  entries_get (key : κ) (c : LruCache) : (entries (get key c).2).Perm (entries c)
  entries_put_of_mem {key : κ} {c : LruCache} {value : α} : key ∈ (entries c).map fst → entries (put key value c) = (key, value) :: others key (entries c)
  entries_put_of_room {key : κ} {c : LruCache} {value : α} : key ∉ (entries c).map fst → (entries c).length ≠ capacity c →
    entries (put key value c) = (key, value) :: entries c
  entries_put_of_full {key : κ} {c : LruCache} {value : α} : key ∉ (entries c).map fst → (entries c).length = capacity c →
    entries (put key value c) = (key, value) :: (entries c).dropLast
  entries_pop (key : κ) (c : LruCache) : entries (pop key c) = others key (entries c)
  popLru_eq_getLast (c : LruCache) : (popLru c).1 = (entries c).getLast?
  entries_popLru (c : LruCache) : entries (popLru c).2 = (entries c).dropLast
  capacity_popLru (c : LruCache) : capacity (popLru c).2 = capacity c

namespace LruCrate.LruCache

export LruCrate (capacity entries new get put pop popLru positive within distinct)

end LruCrate.LruCache

namespace LruCrate

section

variable {κ α : Type} [DecidableEq κ] [LruCrate κ α] {key : κ} {c d : LruCache κ α}

/-- `peek`. -/
def LruCache.find (key : κ) (c : LruCache κ α) : Option α := valueOf key c.entries

theorem find_eq_none_iff : c.find key = none ↔ key ∉ c.entries.map fst := valueOf_eq_none_iff

theorem find_eq_some_iff {value : α} : c.find key = some value ↔ (key, value) ∈ c.entries := valueOf_eq_some_iff c.distinct

/-- Caches with the same entries, in whatever order, find the same. -/
theorem find_congr (same : c.entries.Perm d.entries) (key : κ) : c.find key = d.find key := by
  cases found : d.find key with
  | none => exact find_eq_none_iff.mpr fun inside => find_eq_none_iff.mp found ((same.map _).mem_iff.mp inside)
  | some value => exact find_eq_some_iff.mpr (same.mem_iff.mpr (mem_of_valueOf found))

theorem find_new {n : Nat} {positive : 0 < n} (key : κ) : (LruCrate.new n positive : LruCache κ α).find key = none := by
  rw [LruCache.find, entries_new]
  rfl

@[simp] theorem find_get (key other : κ) (c : LruCache κ α) : (c.get key).2.find other = c.find other :=
  find_congr (entries_get key c) other

@[simp] theorem find_put_self (key : κ) (value : α) (c : LruCache κ α) : (c.put key value).find key = some value := by
  apply find_eq_some_iff.mpr
  by_cases present : key ∈ c.entries.map fst
  · rw [entries_put_of_mem present]
    exact mem_cons_self
  · by_cases full : c.entries.length = c.capacity
    · rw [entries_put_of_full present full]
      exact mem_cons_self
    · rw [entries_put_of_room present full]
      exact mem_cons_self

/-- Another key keeps its value or is forgotten. -/
theorem find_put_of_ne {other : κ} (different : other ≠ key) (value : α) (c : LruCache κ α) :
    (c.put key value).find other = c.find other ∨ (c.put key value).find other = none := by
  cases found : (c.put key value).find other with
  | none => exact .inr rfl
  | some held =>
    left
    have inside := mem_of_valueOf found
    symm
    apply find_eq_some_iff.mpr
    have tail {rest : List (κ × α)} (listed : (other, held) ∈ (key, value) :: rest) : (other, held) ∈ rest :=
      (mem_cons.mp listed).resolve_left fun same => different (Prod.mk.inj same).1
    by_cases present : key ∈ c.entries.map Prod.fst
    · rw [entries_put_of_mem present] at inside
      exact (mem_others.mp (tail inside)).1
    · by_cases full : c.entries.length = c.capacity
      · rw [entries_put_of_full present full] at inside
        exact (dropLast_sublist _).subset (tail inside)
      · rw [entries_put_of_room present full] at inside
        exact tail inside

theorem find_pop (key other : κ) (c : LruCache κ α) : (c.pop key).find other = if other = key then none else c.find other := by
  split
  · next same =>
    subst same
    exact find_eq_none_iff.mpr (entries_pop other c ▸ absent_others other c.entries)
  · next different =>
    cases found : c.find other with
    | none =>
      apply find_eq_none_iff.mpr
      rw [entries_pop]
      exact fun inside => find_eq_none_iff.mp found ((filter_sublist.map _).subset inside)
    | some value => exact find_eq_some_iff.mpr (entries_pop key c ▸ mem_others.mpr ⟨mem_of_valueOf found, different⟩)

end

end LruCrate

/-! ## An instance -/

/-- Entries with the one used last in front. -/
structure RecencyList (κ α : Type) where
  capacity : Nat
  entries : List (κ × α)
  positive : 0 < capacity
  within : entries.length ≤ capacity
  distinct : (entries.map fst).Nodup

namespace RecencyList

variable {κ α : Type} [DecidableEq κ] {key : κ} {c : RecencyList κ α}

/-- The entries with this one in front. -/
def inFront (key : κ) (value : α) (c : RecencyList κ α) (present : key ∈ c.entries.map fst) : RecencyList κ α :=
  ⟨c.capacity, (key, value) :: others key c.entries, c.positive, Nat.lt_of_lt_of_le (length_others_lt present) c.within,
    nodup_cons.mpr ⟨absent_others key c.entries, nodup_others c.distinct key⟩⟩

/-- `pop`, without the value. -/
def pop (key : κ) (c : RecencyList κ α) : RecencyList κ α :=
  ⟨c.capacity, others key c.entries, c.positive, Nat.le_trans (length_filter_le _ _) c.within, nodup_others c.distinct key⟩

/-- `get`: what is found comes to the front. -/
def get (key : κ) (c : RecencyList κ α) : Option α × RecencyList κ α :=
  match found : valueOf key c.entries with
  | none => (none, c)
  | some value => (some value, c.inFront key value (mem_map.mpr ⟨(key, value), mem_of_valueOf found, rfl⟩))

/-- `put` of a key that has no entry. -/
def insert (key : κ) (value : α) (c : RecencyList κ α) (absent : key ∉ c.entries.map fst) : RecencyList κ α :=
  if full : c.entries.length = c.capacity then
    ⟨c.capacity, (key, value) :: c.entries.dropLast, c.positive, by
      have positive := c.positive
      simp only [length_cons, length_dropLast]
      omega, nodup_cons.mpr ⟨fun inside => absent (((dropLast_sublist _).map _).subset inside),
        c.distinct.sublist ((dropLast_sublist _).map _)⟩⟩
  else
    ⟨c.capacity, (key, value) :: c.entries, c.positive, by
      have within := c.within
      simp only [length_cons]
      omega, nodup_cons.mpr ⟨absent, c.distinct⟩⟩

/-- `put`, without the value that was there. -/
def put (key : κ) (value : α) (c : RecencyList κ α) : RecencyList κ α :=
  if present : key ∈ c.entries.map fst then c.inFront key value present else c.insert key value present

instance : LruCrate κ α where
  LruCache := RecencyList κ α
  capacity := capacity
  entries := entries
  new capacity positive := ⟨capacity, [], positive, Nat.zero_le _, nodup_nil⟩
  get := get
  put := put
  pop := pop
  popLru c := (c.entries.getLast?, ⟨c.capacity, c.entries.dropLast, c.positive,
    Nat.le_trans (dropLast_sublist _).length_le c.within, c.distinct.sublist ((dropLast_sublist _).map _)⟩)
  positive := positive
  within := within
  distinct := distinct
  entries_new _ _ := rfl
  get_eq_valueOf key c := by
    unfold get
    split
    · next missing => exact missing.symm
    · next value found => exact found.symm
  entries_get key c := by
    unfold get
    split
    · exact .refl _
    · next value found => exact (perm_others c.distinct (mem_of_valueOf found)).symm
  entries_put_of_mem present := by rw [put, dif_pos present, inFront]
  entries_put_of_room absent room := by rw [put, dif_neg absent, insert, dif_neg room]
  entries_put_of_full absent full := by rw [put, dif_neg absent, insert, dif_pos full]
  entries_pop _ _ := rfl
  popLru_eq_getLast _ := rfl
  entries_popLru _ := rfl
  capacity_popLru _ := rfl

end RecencyList

end StreamHouse.Lib
