import Mathlib.Data.List.AList
import Mathlib.Data.List.Perm.Basic

/-!
# Hash maps

A hash map is an association list in which each key is once. It gives its keys in an order that
nothing is known of but that each key is there.
-/

namespace StreamHouse.Lib.HashMaps

open List AList

variable {κ α : Type}

/-- The order in which a hash map gives its keys. -/
structure HashOrder (κ : Type) where
  order : List κ → List κ
  perm : ∀ keys, (order keys).Perm keys

/-- The order of the list. -/
def HashOrder.listed (κ : Type) : HashOrder κ := ⟨id, fun keys => .refl keys⟩

variable {iteration : HashOrder κ} {key : κ} {m : AList fun _ : κ => α} {value : α}

theorem HashOrder.mem {keys : List κ} : key ∈ iteration.order keys ↔ key ∈ keys :=
  (iteration.perm keys).mem_iff

theorem HashOrder.nodup {keys : List κ} (nodup : keys.Nodup) : (iteration.order keys).Nodup :=
  (iteration.perm keys).symm.nodup nodup

theorem keys_map (f : κ → α → α) (entries : List (Sigma fun _ : κ => α)) :
    (entries.map fun e => (⟨e.1, f e.1 e.2⟩ : Sigma fun _ : κ => α)).keys = entries.keys := by
  unfold List.keys
  rw [map_map]
  rfl

/-- A change of every value, as by `values_mut`. -/
def mapValues (f : κ → α → α) (m : AList fun _ : κ => α) : AList fun _ : κ => α where
  entries := m.entries.map fun e => ⟨e.1, f e.1 e.2⟩
  nodupKeys := by
    rw [NodupKeys, keys_map]
    exact m.nodupKeys

theorem mem_entries_mapValues {f : κ → α → α} :
    ⟨key, value⟩ ∈ (mapValues f m).entries ↔ ∃ old, ⟨key, old⟩ ∈ m.entries ∧ f key old = value := by
  constructor
  · intro inside
    obtain ⟨⟨key', old⟩, there, same⟩ := mem_map.mp inside
    cases same
    exact ⟨old, there, rfl⟩
  · rintro ⟨old, there, rfl⟩
    exact mem_map.mpr ⟨_, there, rfl⟩

/-- The values that pass a check. -/
def filterValues (keep : α → Bool) (m : AList fun _ : κ => α) : AList fun _ : κ => α where
  entries := m.entries.filter fun e => keep e.2
  nodupKeys := m.nodupKeys.sublist filter_sublist

theorem mem_entries_filterValues {keep : α → Bool} :
    ⟨key, value⟩ ∈ (filterValues keep m).entries ↔ ⟨key, value⟩ ∈ m.entries ∧ keep value = true := mem_filter

variable [DecidableEq κ]

theorem lookup_filterValues (keep : α → Bool) (m : AList fun _ : κ => α) (key : κ) :
    (filterValues keep m).lookup key = (m.lookup key).filter keep := by
  ext value
  rw [Option.filter_eq_some_iff]
  exact mem_lookup_iff.trans (mem_entries_filterValues.trans (and_congr_left fun _ => mem_lookup_iff.symm))

theorem lookup_mapValues (f : κ → α → α) (m : AList fun _ : κ => α) (key : κ) :
    (mapValues f m).lookup key = (m.lookup key).map (f key) := by
  ext value
  rw [Option.map_eq_some_iff]
  constructor
  · intro found
    obtain ⟨old, there, same⟩ := mem_entries_mapValues.mp (mem_lookup_iff.mp found)
    exact ⟨old, mem_lookup_iff.mpr there, same⟩
  · rintro ⟨old, found, same⟩
    exact mem_lookup_iff.mpr (mem_entries_mapValues.mpr ⟨old, mem_lookup_iff.mp found, same⟩)

/-- The values in the order of the keys. -/
def HashOrder.values (iteration : HashOrder κ) (m : AList fun _ : κ => α) : List α := (iteration.order m.keys).filterMap fun key => m.lookup key

theorem HashOrder.mem_values : value ∈ iteration.values m ↔ ∃ key, m.lookup key = some value := by
  rw [HashOrder.values, mem_filterMap]
  constructor
  · rintro ⟨key, -, found⟩
    exact ⟨key, found⟩
  · rintro ⟨key, found⟩
    exact ⟨key, iteration.mem.mpr (mem_keys.mp (lookup_isSome.mp (by rw [found]; rfl))), found⟩

/-- Inserts in turn. -/
def insertAll (m : AList fun _ : κ => α) (entries : List (κ × α)) : AList fun _ : κ => α :=
  entries.foldl (fun m e => m.insert e.1 e.2) m

@[simp] theorem insertAll_nil (m : AList fun _ : κ => α) : insertAll m [] = m := rfl

@[simp] theorem insertAll_cons (m : AList fun _ : κ => α) (e : κ × α) (entries : List (κ × α)) :
    insertAll m (e :: entries) = insertAll (m.insert e.1 e.2) entries := rfl

/-- What is not inserted is as it was. -/
theorem lookup_insertAll_of_notMem {entries : List (κ × α)} (absent : key ∉ entries.map Prod.fst) (m : AList fun _ : κ => α) :
    (insertAll m entries).lookup key = m.lookup key := by
  induction entries generalizing m with
  | nil => rfl
  | cons e entries ih =>
    rw [map_cons, mem_cons, not_or] at absent
    rw [insertAll_cons, ih absent.2, lookup_insert_ne absent.1]

/-- Each key is inserted once, so what is inserted is there. -/
theorem lookup_insertAll_of_mem {entries : List (κ × α)} (once : (entries.map Prod.fst).Nodup) (inserted : (key, value) ∈ entries) (m : AList fun _ : κ => α) : (insertAll m entries).lookup key = some value := by
  induction entries generalizing m with
  | nil => cases inserted
  | cons e entries ih =>
    obtain ⟨fresh, others⟩ := nodup_cons.mp once
    rw [insertAll_cons]
    rcases mem_cons.mp inserted with rfl | later
    · rw [lookup_insertAll_of_notMem fresh, lookup_insert]
    · exact ih others later _

theorem mem_insertAll {entries : List (κ × α)} : key ∈ insertAll m entries ↔ key ∈ entries.map Prod.fst ∨ key ∈ m := by
  induction entries generalizing m with
  | nil => rw [insertAll_nil, map_nil, mem_nil_iff, false_or]
  | cons e entries ih => rw [insertAll_cons, ih, mem_insert, map_cons, mem_cons, or_left_comm, or_assoc]

end StreamHouse.Lib.HashMaps
