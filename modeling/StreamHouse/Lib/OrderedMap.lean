import Mathlib.Order.Lattice
import Mathlib.Data.List.Induction
import Mathlib.Data.List.Dedup

/-!
# Maps in the order of their keys

A map is the list of its entries with ascending keys. `insert` replaces the value of a key
that is there; a key above all others comes last.
-/

namespace StreamHouse.Lib.OrderedMap

open List

variable {κ α : Type*} [LinearOrder κ]

/-- The keys ascend. -/
def Ascending (m : List (κ × α)) : Prop := m.Pairwise fun a b => a.1 < b.1

def insert (key : κ) (value : α) : List (κ × α) → List (κ × α)
  | [] => [(key, value)]
  | entry :: rest =>
    if key < entry.1 then (key, value) :: entry :: rest
    else if key = entry.1 then (key, value) :: rest
    else entry :: insert key value rest

/-- The last entry with a key of at most `key`. -/
def lastUpTo (m : List (κ × α)) (key : κ) : Option (κ × α) := (m.filter fun entry => entry.1 ≤ key).getLast?

/-- The value of a key. -/
def get (m : List (κ × α)) (key : κ) : Option α := (m.find? fun entry => entry.1 = key).map Prod.snd

@[simp] theorem get_nil (key : κ) : get ([] : List (κ × α)) key = none := rfl

theorem get_cons (entry : κ × α) (m : List (κ × α)) (key : κ) :
    get (entry :: m) key = if entry.1 = key then some entry.2 else get m key := by
  rw [get, find?_cons]
  by_cases named : entry.1 = key
  · rw [decide_eq_true named, if_pos named]
    rfl
  · rw [decide_eq_false named, if_neg named]
    rfl

theorem get_insert (m : List (κ × α)) (key : κ) (value : α) (other : κ) :
    get (insert key value m) other = if key = other then some value else get m other := by
  induction m with
  | nil => rw [insert, get_cons]
  | cons entry rest ih =>
    by_cases below : key < entry.1
    · rw [insert, if_pos below, get_cons]
    · by_cases same : key = entry.1
      · subst same
        rw [insert, if_neg below, if_pos rfl, get_cons, get_cons]
        by_cases here : entry.1 = other
        · rw [if_pos here, if_pos here]
        · rw [if_neg here, if_neg here, if_neg here]
      · rw [insert, if_neg below, if_neg same, get_cons, ih, get_cons]
        by_cases here : key = other
        · subst here
          rw [if_neg (Ne.symm same), if_pos rfl, if_pos rfl]
        · rw [if_neg here, if_neg here]

/-- Adding a value to the list of a key, as `entry(key).or_default().push(value)`. -/
def push {β : Type*} (m : List (κ × List β)) (entry : κ × β) : List (κ × List β) :=
  insert entry.1 ((get m entry.1).getD [] ++ [entry.2]) m

/-- A list that is there if it has an item. -/
def listed {β : Type*} (l : List β) : Option (List β) := if l = [] then none else some l

variable {β : Type*} {m : List (κ × α)} {key : κ}

theorem getD_listed (l : List β) : (listed l).getD [] = l := by
  unfold listed
  split_ifs with empty
  · rw [empty]
    rfl
  · rfl

/-- Items that are pushed one after another are listed under their keys, in order. -/
theorem get_pushes (entries : List (κ × β)) (key : κ) :
    get (entries.foldl push []) key = listed ((entries.filter fun entry => entry.1 = key).map Prod.snd) := by
  induction entries using reverseRecOn with
  | nil => rfl
  | append_singleton entries entry ih =>
    rw [foldl_append, foldl_cons, foldl_nil, push, get_insert, filter_append]
    by_cases here : entry.1 = key
    · rw [if_pos here, here, ih, getD_listed, filter_cons_of_pos (by simpa using here), filter_nil, map_append,
        listed, if_neg (by simp)]
      rfl
    · rw [if_neg here, ih, filter_cons_of_neg (by simpa using here), filter_nil, append_nil]

/-- Items that are pushed under keys of their own. -/
theorem get_pushes_of (f : β → κ) (l : List β) (key : κ) :
    get ((l.map fun b => (f b, b)).foldl push []) key = listed (l.filter fun b => f b = key) := by
  rw [get_pushes, filter_map, map_map]
  congr 1
  exact map_id _

/-- Of entries that are inserted one after another the last one of a key stays. -/
theorem get_inserts (entries : List (κ × α)) (key : κ) :
    get (entries.foldl (fun m entry => insert entry.1 entry.2 m) []) key =
      (entries.filter fun entry => entry.1 = key).getLast?.map Prod.snd := by
  induction entries using reverseRecOn with
  | nil => rfl
  | append_singleton entries entry ih =>
    rw [foldl_append, foldl_cons, foldl_nil, get_insert, filter_append]
    by_cases here : entry.1 = key
    · rw [if_pos here, filter_cons_of_pos (by simpa using here), filter_nil, getLast?_append]
      rfl
    · rw [if_neg here, ih, filter_cons_of_neg (by simpa using here), filter_nil, append_nil]

theorem key_of_mem_insert {value : α} {entry : κ × α} (inside : entry ∈ insert key value m) :
    entry.1 = key ∨ ∃ old ∈ m, old.1 = entry.1 := by
  induction m with
  | nil =>
    rw [mem_singleton.mp inside]
    exact .inl rfl
  | cons first rest ih =>
    rw [insert] at inside
    split_ifs at inside with below same
    · obtain rfl | later := mem_cons.mp inside
      · exact .inl rfl
      · exact .inr ⟨entry, later, rfl⟩
    · obtain rfl | later := mem_cons.mp inside
      · exact .inl rfl
      · exact .inr ⟨entry, mem_cons_of_mem _ later, rfl⟩
    · obtain rfl | later := mem_cons.mp inside
      · exact .inr ⟨entry, mem_cons_self, rfl⟩
      · exact (ih later).imp_right fun ⟨old, inRest, sameKey⟩ => ⟨old, mem_cons_of_mem _ inRest, sameKey⟩

theorem Ascending.insert (ascending : Ascending m) (key : κ) (value : α) : Ascending (insert key value m) := by
  induction m with
  | nil => exact pairwise_singleton _ _
  | cons first rest ih =>
    obtain ⟨least, tail⟩ := pairwise_cons.mp ascending
    rw [OrderedMap.insert]
    split_ifs with below same
    · refine pairwise_cons.mpr ⟨fun entry inside => ?_, ascending⟩
      obtain rfl | later := mem_cons.mp inside
      · exact below
      · exact below.trans (least entry later)
    · exact pairwise_cons.mpr ⟨fun entry inside => same ▸ least entry inside, tail⟩
    · refine pairwise_cons.mpr ⟨fun entry inside => ?_, ih tail⟩
      obtain isKey | ⟨old, inRest, sameKey⟩ := key_of_mem_insert inside
      · rw [isKey]
        exact lt_of_le_of_ne (not_lt.mp below) (Ne.symm same)
      · rw [← sameKey]
        exact least old inRest

/-- A map that is filled from entries, whatever the values depend on, is in order, and its keys are
theirs. -/
theorem filled (value : List (κ × α) → κ × β → α) (entries : List (κ × β)) :
    Ascending (entries.foldl (fun m entry => insert entry.1 (value m entry) m) []) ∧
      ∀ filled ∈ entries.foldl (fun m entry => insert entry.1 (value m entry) m) [], ∃ entry ∈ entries, entry.1 = filled.1 := by
  induction entries using reverseRecOn with
  | nil => exact ⟨.nil, fun filled inside => by cases inside⟩
  | append_singleton entries entry ih =>
    rw [foldl_append, foldl_cons, foldl_nil]
    refine ⟨ih.1.insert _ _, fun filled inside => ?_⟩
    obtain here | ⟨old, inOld, same⟩ := key_of_mem_insert inside
    · exact ⟨entry, mem_append_right _ mem_cons_self, here.symm⟩
    · obtain ⟨first, inEntries, named⟩ := ih.2 old inOld
      exact ⟨first, mem_append_left _ inEntries, named.trans same⟩

theorem filled_push (entries : List (κ × β)) :
    Ascending (entries.foldl push []) ∧ ∀ filled ∈ entries.foldl push [], ∃ entry ∈ entries, entry.1 = filled.1 :=
  filled (fun m entry => (get m entry.1).getD [] ++ [entry.2]) entries

/-- In ascending order an entry is the one of its key. -/
theorem Ascending.get_of_mem (ascending : Ascending m) {entry : κ × α} (inside : entry ∈ m) :
    get m entry.1 = some entry.2 := by
  induction m with
  | nil => cases inside
  | cons first rest ih =>
    obtain ⟨least, tail⟩ := pairwise_cons.mp ascending
    rw [get_cons]
    obtain rfl | later := mem_cons.mp inside
    · rw [if_pos rfl]
    · rw [if_neg (least entry later).ne, ih tail later]

theorem mem_of_get {value : α} (found : get m key = some value) : (key, value) ∈ m := by
  obtain ⟨entry, isEntry, rfl⟩ := Option.map_eq_some_iff.mp found
  have named := find?_some isEntry
  simp only [decide_eq_true_eq] at named
  rw [← named]
  exact mem_of_find?_eq_some isEntry

theorem get_eq_none (above : ∀ entry ∈ m, key < entry.1) : get m key = none := by
  cases found : get m key with
  | none => rfl
  | some value => exact absurd (above _ (mem_of_get found)) (lt_irrefl _)

/-- In ascending order a key has one entry at most. -/
theorem Ascending.filter_key (ascending : Ascending m) (key : κ) :
    (m.filter fun entry => entry.1 = key) = ((get m key).map fun value => (key, value)).toList := by
  induction m with
  | nil => rfl
  | cons first rest ih =>
    obtain ⟨least, tail⟩ := pairwise_cons.mp ascending
    rw [get_cons]
    by_cases here : first.1 = key
    · have none : (rest.filter fun entry => entry.1 = key) = [] :=
        filter_eq_nil_iff.mpr fun entry inside => by simpa [← here] using (least entry inside).ne'
      rw [if_pos here, filter_cons_of_pos (by simpa using here), none, ← here]
      rfl
    · rw [if_neg here, filter_cons_of_neg (by simpa using here), ih tail]

/-- Two maps with the same keys are gone through side by side. -/
theorem Ascending.forall₂ {m' : List (κ × β)} {R : α → β → Prop} (ascending : Ascending m) (ascending' : Ascending m')
    (related : ∀ key, (get m key = none ∧ get m' key = none) ∨ ∃ a b, get m key = some a ∧ get m' key = some b ∧ R a b) :
    Forall₂ (fun a b => a.1 = b.1 ∧ R a.2 b.2) m m' := by
  induction m generalizing m' with
  | nil =>
    cases m' with
    | nil => exact .nil
    | cons entry rest =>
      obtain ⟨-, absent⟩ | ⟨a, b, found, -, -⟩ := related entry.1
      · rw [get_cons, if_pos rfl] at absent
        cases absent
      · cases found
  | cons entry rest ih =>
    cases m' with
    | nil =>
      obtain ⟨absent, -⟩ | ⟨a, b, -, found, -⟩ := related entry.1
      · rw [get_cons, if_pos rfl] at absent
        cases absent
      · cases found
    | cons entry' rest' =>
      obtain ⟨least, tail⟩ := pairwise_cons.mp ascending
      obtain ⟨least', tail'⟩ := pairwise_cons.mp ascending'
      -- the first keys are the least, and each is in the other map
      have upto : entry'.1 ≤ entry.1 := by
        obtain ⟨absent, -⟩ | ⟨a, b, -, found, -⟩ := related entry.1
        · rw [get_cons, if_pos rfl] at absent
          cases absent
        · obtain same | later := mem_cons.mp (mem_of_get found)
          · rw [← same]
          · exact (least' _ later).le
      have from' : entry.1 ≤ entry'.1 := by
        obtain ⟨-, absent⟩ | ⟨a, b, found, -, -⟩ := related entry'.1
        · rw [get_cons, if_pos rfl] at absent
          cases absent
        · obtain same | later := mem_cons.mp (mem_of_get found)
          · rw [← same]
          · exact (least _ later).le
      have same : entry.1 = entry'.1 := le_antisymm from' upto
      refine .cons ⟨same, ?_⟩ (ih tail tail' fun key => ?_)
      · obtain ⟨absent, -⟩ | ⟨a, b, here, there, holds⟩ := related entry.1
        · rw [get_cons, if_pos rfl] at absent
          cases absent
        · rw [get_cons, if_pos rfl] at here
          rw [get_cons, if_pos same.symm] at there
          rw [Option.some.inj here, Option.some.inj there]
          exact holds
      · by_cases first : key = entry.1
        · left
          rw [first]
          exact ⟨get_eq_none least, get_eq_none fun e inside => same ▸ least' e inside⟩
        · have others := related key
          rw [get_cons, get_cons, if_neg (Ne.symm first), if_neg fun equal => first (equal.symm.trans same.symm)] at others
          exact others

/-- A new key adds its entry. -/
theorem insert_perm (absent : ∀ entry ∈ m, entry.1 ≠ key) (value : α) : (insert key value m).Perm ((key, value) :: m) := by
  induction m with
  | nil => exact .refl _
  | cons entry rest ih =>
    rw [insert, if_neg (absent entry mem_cons_self).symm]
    split_ifs
    · exact .refl _
    · exact ((ih fun other inside => absent other (mem_cons_of_mem _ inside)).cons entry).trans (.swap _ _ _)

/-- Entries with distinct keys stay, all of them. -/
theorem inserts_perm {entries : List (κ × α)} (distinct : (entries.map Prod.fst).Nodup) :
    (entries.foldl (fun m entry => insert entry.1 entry.2 m) []).Perm entries := by
  induction entries using reverseRecOn with
  | nil => exact .refl _
  | append_singleton entries entry ih =>
    rw [map_append, nodup_append] at distinct
    obtain ⟨before, -, apart⟩ := distinct
    have all := ih before
    rw [foldl_append, foldl_cons, foldl_nil]
    have absent (other : κ × α) (inside : other ∈ entries.foldl (fun m entry => insert entry.1 entry.2 m) []) : other.1 ≠ entry.1 :=
      apart _ (mem_map_of_mem (all.mem_iff.mp inside)) _ mem_cons_self
    exact ((insert_perm absent entry.2).trans (all.cons entry)).trans (perm_append_singleton entry entries).symm

theorem insert_eq_append (above : ∀ entry ∈ m, entry.1 < key) (value : α) : insert key value m = m ++ [(key, value)] := by
  induction m with
  | nil => rfl
  | cons entry rest ih =>
    have less : entry.1 < key := above entry mem_cons_self
    rw [insert, if_neg less.asymm, if_neg less.ne', ih fun e inside => above e (mem_cons_of_mem _ inside), cons_append]

theorem Ascending.append (ascending : Ascending m) (above : ∀ entry ∈ m, entry.1 < key) (value : α) :
    Ascending (m ++ [(key, value)]) := by
  refine List.pairwise_append.mpr ⟨ascending, pairwise_singleton _ _, fun entry inside last isLast => ?_⟩
  rw [mem_singleton.mp isLast]
  exact above entry inside

/-- Where the last key of all is not above `key`, `lastUpTo` is that entry. -/
theorem lastUpTo_eq_last (ascending : Ascending m) {last : κ × α} (isLast : m.getLast? = some last)
    (upTo : last.1 ≤ key) : lastUpTo m key = some last := by
  have all : ∀ entry ∈ m, entry.1 ≤ key := by
    obtain ⟨front, rfl⟩ := getLast?_eq_some_iff.mp isLast
    intro entry inside
    obtain before | same := mem_append.mp inside
    · exact ((List.pairwise_append.mp ascending).2.2 entry before last mem_cons_self).le.trans upTo
    · rw [mem_singleton.mp same]
      exact upTo
  rw [lastUpTo, filter_eq_self.mpr (by simpa using all), isLast]

theorem lastUpTo_some {entry : κ × α} (found : lastUpTo m key = some entry) : entry ∈ m ∧ entry.1 ≤ key := by
  have inside := mem_filter.mp (mem_of_getLast? found)
  exact ⟨inside.1, of_decide_eq_true inside.2⟩

/-- With lists for values, an insertion replaces one part of all that is listed; what comes after it is under later keys. -/
theorem Ascending.flatMap_insert {m : List (κ × List β)} (ascending : Ascending m) (key : κ) :
    ∃ before after, m.flatMap Prod.snd = before ++ ((get m key).getD [] ++ after) ∧
      (∀ value, (OrderedMap.insert key value m).flatMap Prod.snd = before ++ (value ++ after)) ∧
        ∀ b ∈ after, ∃ entry ∈ m, key < entry.1 ∧ b ∈ entry.2 := by
  induction m with
  | nil => exact ⟨[], [], rfl, fun value => by rw [OrderedMap.insert, flatMap_cons]; rfl, (by rintro _ ⟨⟩)⟩
  | cons entry rest ih =>
    obtain ⟨least, tail⟩ := pairwise_cons.mp ascending
    by_cases below : key < entry.1
    · refine ⟨[], (entry :: rest).flatMap Prod.snd, ?_, fun value => ?_, fun b inside => ?_⟩
      · rw [get_cons, if_neg below.ne', get_eq_none fun e inside => below.trans (least e inside)]
        rfl
      · rw [OrderedMap.insert, if_pos below]
        rfl
      · obtain ⟨e, listed, member⟩ := mem_flatMap.mp inside
        obtain first | later := mem_cons.mp listed
        · exact ⟨e, listed, first ▸ below, member⟩
        · exact ⟨e, listed, below.trans (least e later), member⟩
    · by_cases same : key = entry.1
      · refine ⟨[], rest.flatMap Prod.snd, ?_, fun value => ?_, fun b inside => ?_⟩
        · rw [get_cons, if_pos same.symm]
          rfl
        · rw [OrderedMap.insert, if_neg below, if_pos same]
          rfl
        · obtain ⟨e, listed, inside⟩ := mem_flatMap.mp inside
          exact ⟨e, mem_cons_of_mem _ listed, same ▸ least e listed, inside⟩
      · obtain ⟨before, after, all, inserted, later⟩ := ih tail
        refine ⟨entry.2 ++ before, after, ?_, fun value => ?_, fun b inside => ?_⟩
        · rw [get_cons, if_neg (Ne.symm same), flatMap_cons, all, append_assoc]
        · rw [OrderedMap.insert, if_neg below, if_neg same, flatMap_cons, inserted value, append_assoc]
        · obtain ⟨e, listed, above⟩ := later b inside
          exact ⟨e, mem_cons_of_mem _ listed, above⟩

/-- What is put under a key again changes nothing in the list of all. -/
theorem Ascending.flatMap_insert_self {m : List (κ × List β)} (ascending : Ascending m) (key : κ) :
    (OrderedMap.insert key ((get m key).getD []) m).flatMap Prod.snd = m.flatMap Prod.snd := by
  obtain ⟨before, after, all, inserted, -⟩ := ascending.flatMap_insert key
  rw [inserted, all]

/-- What is added to the last list that is not empty is added to the list of all. -/
theorem Ascending.flatMap_insert_append {m : List (κ × List β)} (ascending : Ascending m) (last : ∀ entry ∈ m, key < entry.1 → entry.2 = []) (more : List β) :
    (OrderedMap.insert key ((get m key).getD [] ++ more) m).flatMap Prod.snd = m.flatMap Prod.snd ++ more := by
  obtain ⟨before, after, all, inserted, later⟩ := ascending.flatMap_insert key
  have nothing : after = [] := by
    refine eq_nil_iff_forall_not_mem.mpr fun b inside => ?_
    obtain ⟨entry, listed, above, member⟩ := later b inside
    rw [last entry listed above] at member
    cases member
  rw [inserted, all, nothing, append_nil, append_nil, append_assoc]

end StreamHouse.Lib.OrderedMap
