import StreamHouse.Lib.OrderedMap

/-!
# The entry before a key

`lastUpTo` in an ordered map, and in what is left of one that keeps its last
entries only: the entry with the greatest key up to the one asked for, if not
too many keys lie above it.
-/

namespace StreamHouse.Lib.OrderedMap

open List

variable {κ α : Type*} [LinearOrder κ]

/-- The last `n` entries. -/
def newest (n : Nat) (m : List (κ × α)) : List (κ × α) := m.drop (m.length - n)

variable {m : List (κ × α)} {entry : κ × α}

theorem Ascending.newest (ascending : Ascending m) (n : Nat) : Ascending (newest n m) :=
  List.Pairwise.drop ascending

theorem Ascending.filter_above {before after : List (κ × α)} (ascending : Ascending (before ++ entry :: after)) :
    (before ++ entry :: after).filter (fun other => entry.1 < other.1) = after := by
  obtain ⟨-, later, earlier⟩ := List.pairwise_append.mp ascending
  obtain ⟨above, -⟩ := pairwise_cons.mp later
  have front : before.filter (fun other => entry.1 < other.1) = [] := by
    apply filter_eq_nil_iff.mpr
    intro other inside
    have below := earlier other inside entry mem_cons_self
    simpa using below.le
  have back : after.filter (fun other => entry.1 < other.1) = after := by
    apply filter_eq_self.mpr
    intro other inside
    simpa using above other inside
  rw [filter_append, front, nil_append, filter_cons_of_neg (by simp), back]

/-- An entry is among the last `n` if fewer than `n` are above it. -/
theorem Ascending.mem_newest_iff (ascending : Ascending m) (inside : entry ∈ m) {n : Nat} :
    entry ∈ OrderedMap.newest n m ↔ (m.filter fun other => entry.1 < other.1).length < n := by
  obtain ⟨before, after, rfl⟩ := append_of_mem inside
  rw [ascending.filter_above, OrderedMap.newest]
  constructor
  · intro kept
    by_contra many
    have past : (before ++ entry :: after).length - n = before.length + ((before ++ entry :: after).length - n - before.length) := by
      simp only [length_append, length_cons]
      omega
    have some_ : (before ++ entry :: after).length - n - before.length = after.length - n + 1 := by
      simp only [length_append, length_cons]
      omega
    rw [past, drop_length_add_append, some_, drop_succ_cons] at kept
    have later := (pairwise_cons.mp (List.pairwise_append.mp ascending).2.1).1
    exact lt_irrefl _ (later entry (mem_of_mem_drop kept))
  · intro few
    have short : (before ++ entry :: after).length - n ≤ before.length := by
      simp only [length_append, length_cons]
      omega
    rw [drop_append_of_le_length short]
    exact mem_append_right _ mem_cons_self

/-- The entry with the greatest key up to `key`. -/
theorem Ascending.lastUpTo_eq_some_iff (ascending : Ascending m) {key : κ} :
    lastUpTo m key = some entry ↔ entry ∈ m ∧ entry.1 ≤ key ∧ ∀ other ∈ m, other.1 ≤ key → other.1 ≤ entry.1 := by
  have sorted : Ascending (m.filter fun other => other.1 ≤ key) := List.Pairwise.filter _ ascending
  constructor
  · intro found
    obtain ⟨inside, upTo⟩ := lastUpTo_some found
    refine ⟨inside, upTo, ?_⟩
    intro other listed small
    obtain ⟨front, split⟩ := getLast?_eq_some_iff.mp found
    have member : other ∈ m.filter fun other => other.1 ≤ key := mem_filter.mpr ⟨listed, by simpa using small⟩
    rw [split] at member sorted
    rcases mem_append.mp member with early | last
    · exact ((List.pairwise_append.mp sorted).2.2 other early entry mem_cons_self).le
    · rw [mem_singleton.mp last]
  · rintro ⟨inside, upTo, greatest⟩
    have member : entry ∈ m.filter fun other => other.1 ≤ key := mem_filter.mpr ⟨inside, by simpa using upTo⟩
    obtain ⟨before, after, split⟩ := append_of_mem member
    rw [split] at sorted
    have none_ : after = [] := by
      apply eq_nil_iff_forall_not_mem.mpr
      intro other later
      have above := (pairwise_cons.mp (List.pairwise_append.mp sorted).2.1).1 other later
      have listed : other ∈ m.filter fun other => other.1 ≤ key := by
        rw [split]
        exact mem_append_right _ (mem_cons_of_mem _ later)
      obtain ⟨stored, small⟩ := mem_filter.mp listed
      exact absurd (greatest other stored (of_decide_eq_true small)) (not_le.mpr above)
    rw [lastUpTo, split, none_]
    exact getLast?_concat

/-- **The predecessor among the last entries**: it is the one in the whole map,
if it is still there. -/
theorem Ascending.lastUpTo_newest_iff (ascending : Ascending m) {key : κ} {n : Nat} :
    lastUpTo (OrderedMap.newest n m) key = some entry ↔
      lastUpTo m key = some entry ∧ (m.filter fun other => entry.1 < other.1).length < n := by
  rw [(ascending.newest n).lastUpTo_eq_some_iff, ascending.lastUpTo_eq_some_iff]
  constructor
  · rintro ⟨kept, upTo, greatest⟩
    have inside : entry ∈ m := mem_of_mem_drop kept
    have few := (ascending.mem_newest_iff inside).mp kept
    refine ⟨⟨inside, upTo, ?_⟩, few⟩
    intro other listed small
    by_contra above
    -- what is above a kept entry is kept as well
    have fewer : (m.filter fun more => other.1 < more.1).length ≤ (m.filter fun more => entry.1 < more.1).length := by
      apply Sublist.length_le
      apply monotone_filter_right
      intro more higher
      simpa using (not_le.mp above).trans (of_decide_eq_true higher)
    have also : other ∈ OrderedMap.newest n m := (ascending.mem_newest_iff listed).mpr (by omega)
    exact above (greatest other also small)
  · rintro ⟨⟨inside, upTo, greatest⟩, few⟩
    refine ⟨(ascending.mem_newest_iff inside).mpr few, upTo, ?_⟩
    intro other listed
    exact greatest other (mem_of_mem_drop listed)

/-- Of entries that are inserted one after another, what lies above a key are the distinct keys above it. -/
theorem length_above_inserts (entries : List (κ × α)) (key : κ) :
    ((entries.foldl (fun m entry => insert entry.1 entry.2 m) []).filter fun other => key < other.1).length =
      ((entries.map Prod.fst).dedup.filter fun other => key < other).length := by
  obtain ⟨ascending, named⟩ := filled (fun _ entry => entry.2) entries
  have keys : ((entries.foldl (fun m entry => insert entry.1 entry.2 m) []).map Prod.fst).Perm (entries.map Prod.fst).dedup := by
    have distinct : ((entries.foldl (fun m entry => insert entry.1 entry.2 m) []).map Prod.fst).Nodup :=
      pairwise_map.mpr (ascending.imp fun less => less.ne)
    apply (perm_ext_iff_of_nodup distinct (nodup_dedup _)).mpr
    intro other
    rw [mem_dedup, mem_map, mem_map]
    constructor
    · rintro ⟨stored, inside, rfl⟩
      obtain ⟨entry, listed, same⟩ := named stored inside
      exact ⟨entry, listed, same⟩
    · rintro ⟨entry, listed, rfl⟩
      have some_ : (entries.filter fun other => other.1 = entry.1) ≠ [] :=
        ne_nil_of_mem (mem_filter.mpr ⟨listed, decide_eq_true rfl⟩)
      have found := get_inserts entries entry.1
      rw [getLast?_eq_some_getLast some_] at found
      exact ⟨_, mem_of_get found, rfl⟩
  have counted := (keys.filter fun other => decide (key < other)).length_eq
  rw [filter_map, length_map] at counted
  exact counted

end StreamHouse.Lib.OrderedMap
