import Mathlib.Data.List.Perm.Basic

/-!
# Joins of lists

Pairs of related items, and the items without a partner that an outer join keeps. A condition on
the left items can be taken before the join when the pairs that are left fulfil the rest, and no
right item loses its partner by it. A table is the latest item of each key.
-/

namespace StreamHouse.Lib.Joins

open List

variable {α β κ : Type*} (rel : α → β → Bool)

/-- The pairs with a left item: its partners, or itself without one. -/
def leftPairs (keepLeft : Bool) (rs : List β) (l : α) : List (Option α × Option β) :=
  if rs.any (rel l) then (rs.filter (rel l)).map fun r => (some l, some r)
  else if keepLeft then [(some l, none)] else []

/-- The right items without a partner. -/
def rightOnly (keepRight : Bool) (ls : List α) (rs : List β) : List (Option α × Option β) :=
  if keepRight then (rs.filter fun r => !ls.any (rel · r)).map fun r => (none, some r) else []

def join (keepLeft keepRight : Bool) (ls : List α) (rs : List β) : List (Option α × Option β) :=
  ls.flatMap (leftPairs rel keepLeft rs) ++ rightOnly rel keepRight ls rs

variable {rel} {keepLeft keepRight : Bool}

theorem any_congr {γ : Type*} {p : γ → Bool} {l l' : List γ} (same : ∀ a, a ∈ l ↔ a ∈ l') : l.any p = l'.any p := by
  rw [Bool.eq_iff_iff]
  simp only [any_eq_true]
  exact ⟨fun ⟨a, inside, holds⟩ => ⟨a, (same a).mp inside, holds⟩, fun ⟨a, inside, holds⟩ => ⟨a, (same a).mpr inside, holds⟩⟩

variable {ls : List α} {rs : List β} {rel' : α → β → Bool}

/-- The order of the sides does not matter but for the order of the pairs. -/
theorem join_perm {ls' : List α} {rs' : List β} (left : ls.Perm ls') (right : rs.Perm rs') :
    (join rel keepLeft keepRight ls rs).Perm (join rel keepLeft keepRight ls' rs') := by
  unfold join
  apply Perm.append
  · have each : ∀ l ∈ ls, (leftPairs rel keepLeft rs l).Perm (leftPairs rel keepLeft rs' l) := by
      intro l _
      unfold leftPairs
      rw [any_congr fun r => right.mem_iff]
      split_ifs
      · exact (right.filter _).map _
      · exact .refl _
      · exact .refl _
    exact (Perm.flatMap_left ls each).trans (left.flatMap_right _)
  · unfold rightOnly
    split_ifs
    · have same : (fun r => !ls.any (rel · r)) = fun r => !ls'.any (rel · r) := by
        funext r
        rw [any_congr fun l => left.mem_iff]
      rw [same]
      exact (right.filter _).map _
    · exact .refl _

/-! ## The sides swapped -/

variable (rel) in
/-- The related pairs. -/
def pairs (ls : List α) (rs : List β) : List (Option α × Option β) :=
  ls.flatMap fun l => (rs.filter (rel l)).map fun r => (some l, some r)

variable (rel) in
/-- The left items without a partner. -/
def leftOnly (keepLeft : Bool) (ls : List α) (rs : List β) : List (Option α × Option β) :=
  if keepLeft then (ls.filter fun l => !rs.any (rel l)).map fun l => (some l, none) else []

theorem map_filter_eq_flatMap {γ δ : Type*} (p : γ → Bool) (f : γ → δ) (l : List γ) :
    (l.filter p).map f = l.flatMap fun a => if p a then [f a] else [] := by
  induction l with
  | nil => rfl
  | cons a l ih =>
    rw [flatMap_cons, ← ih]
    cases chosen : p a <;> simp [chosen]

theorem flatMap_leftPairs (ls : List α) (rs : List β) :
    (ls.flatMap (leftPairs rel keepLeft rs)).Perm (pairs rel ls rs ++ leftOnly rel keepLeft ls rs) := by
  have only : leftOnly rel keepLeft ls rs =
      ls.flatMap fun l => if keepLeft = true ∧ rs.any (rel l) = false then [(some l, none)] else [] := by
    unfold leftOnly
    split_ifs with kept
    · rw [map_filter_eq_flatMap]
      refine flatMap_congr fun l _ => ?_
      cases partner : rs.any (rel l) <;> simp [kept]
    · simp [kept]
  rw [only]
  have each : ∀ l ∈ ls, leftPairs rel keepLeft rs l = ((rs.filter (rel l)).map fun r => (some l, some r)) ++
      if keepLeft = true ∧ rs.any (rel l) = false then [(some l, none)] else [] := by
    intro l _
    unfold leftPairs
    cases partner : rs.any (rel l) with
    | true => simp
    | false =>
      have none : rs.filter (rel l) = [] := by
        refine filter_eq_nil_iff.mpr fun r inside related => ?_
        have some : rs.any (rel l) = true := any_eq_true.mpr ⟨r, inside, related⟩
        rw [partner] at some
        cases some
      rw [none]
      cases keepLeft <;> rfl
  rw [flatMap_congr each]
  exact (flatMap_append_perm ls _ _).symm

/-- A join is the related pairs, and the items of either side that are kept without a partner. -/
theorem join_parts (ls : List α) (rs : List β) : (join rel keepLeft keepRight ls rs).Perm
    (pairs rel ls rs ++ (leftOnly rel keepLeft ls rs ++ rightOnly rel keepRight ls rs)) := by
  rw [← append_assoc]
  exact (flatMap_leftPairs ls rs).append_right _

theorem pairs_swap (ls : List α) (rs : List β) :
    ((pairs rel ls rs).map Prod.swap).Perm (pairs (fun r l => rel l r) rs ls) := by
  induction ls with
  | nil => simp [pairs]
  | cons l ls ih =>
    have first : pairs rel (l :: ls) rs = ((rs.filter (rel l)).map fun r => (some l, some r)) ++ pairs rel ls rs := rfl
    have column : ((rs.filter (rel l)).map fun r => (some l, some r)).map Prod.swap =
        rs.flatMap fun r => if rel l r then [(some r, some l)] else [] := by
      rw [map_map, map_filter_eq_flatMap]
      rfl
    have rows : pairs (fun r l => rel l r) rs (l :: ls) = rs.flatMap fun r =>
        (if rel l r then [(some r, some l)] else []) ++ (ls.filter (rel · r)).map fun l => (some r, some l) := by
      refine flatMap_congr fun r _ => ?_
      cases related : rel l r <;> simp [related]
    rw [first, map_append, column, rows]
    exact (ih.append_left _).trans (flatMap_append_perm rs _ _)

/-- **A join with the sides swapped** has the swapped pairs. -/
theorem join_swap (ls : List α) (rs : List β) :
    ((join rel keepLeft keepRight ls rs).map Prod.swap).Perm (join (fun r l => rel l r) keepRight keepLeft rs ls) := by
  have left : (leftOnly rel keepLeft ls rs).map Prod.swap = rightOnly (fun r l => rel l r) keepLeft rs ls := by
    unfold leftOnly rightOnly
    split_ifs
    · rw [map_map]
      rfl
    · rfl
  have right : (rightOnly rel keepRight ls rs).map Prod.swap = leftOnly (fun r l => rel l r) keepRight rs ls := by
    unfold leftOnly rightOnly
    split_ifs
    · rw [map_map]
      rfl
    · rfl
  have here := (@join_parts _ _ rel keepLeft keepRight ls rs).map Prod.swap
  rw [map_append, map_append, left, right] at here
  exact here.trans (((pairs_swap ls rs).append perm_append_comm).trans (join_parts rs ls).symm)

/-! ## Pairs as the lists grow -/

theorem pairs_snoc_left (ls : List α) (l : α) (rs : List β) :
    pairs rel (ls ++ [l]) rs = pairs rel ls rs ++ (rs.filter (rel l)).map fun r => (some l, some r) := by
  unfold pairs
  rw [flatMap_append, flatMap_singleton]

theorem pairs_snoc_right (ls : List α) (rs : List β) (r : β) :
    (pairs rel ls (rs ++ [r])).Perm (pairs rel ls rs ++ (ls.filter (rel · r)).map fun l => (some l, some r)) := by
  have column : ((ls.filter (rel · r)).map fun l => (some l, some r)) = ls.flatMap fun l => if rel l r then [(some l, some r)] else [] :=
    map_filter_eq_flatMap (fun l => rel l r) _ ls
  have rows : pairs rel ls (rs ++ [r]) = ls.flatMap fun l =>
      ((rs.filter (rel l)).map fun r' => (some l, some r')) ++ if rel l r then [(some l, some r)] else [] := by
    refine flatMap_congr fun l _ => ?_
    cases related : rel l r <;> simp [related]
  rw [column, rows]
  exact (flatMap_append_perm ls _ _).symm

/-- A pair of two items that are related. -/
def related (rel : α → β → Bool) : Option α × Option β → Bool
  | (some l, some r) => rel l r
  | _ => false

/-- The pairs of a narrower relation. -/
theorem filter_pairs (narrower : ∀ l r, rel l r = true → rel' l r = true) (ls : List α) (rs : List β) :
    (pairs rel' ls rs).filter (related rel) = pairs rel ls rs := by
  unfold pairs
  rw [List.filter_flatMap]
  refine flatMap_congr fun l _ => ?_
  rw [filter_map, filter_filter]
  congr 1
  refine filter_congr fun r _ => ?_
  cases here : rel l r with
  | true => simp [related, here, narrower l r here]
  | false => simp [related, here]

theorem mem_pairs {l : α} {r : β} : (some l, some r) ∈ pairs rel ls rs ↔ l ∈ ls ∧ r ∈ rs ∧ rel l r = true := by
  unfold pairs
  simp only [mem_flatMap, mem_map, mem_filter, Prod.mk.injEq, Option.some.injEq]
  constructor
  · rintro ⟨l', inL, r', ⟨inR, holds⟩, rfl, rfl⟩
    exact ⟨inL, inR, holds⟩
  · rintro ⟨inL, inR, holds⟩
    exact ⟨l, inL, r, ⟨inR, holds⟩, rfl, rfl⟩

/-- **A wider relation has no more pairs only if it has none but those of the narrower one.** -/
theorem length_pairs_iff (narrower : ∀ l r, rel l r = true → rel' l r = true) (ls : List α) (rs : List β) :
    (pairs rel ls rs).length = (pairs rel' ls rs).length ↔ ∀ l ∈ ls, ∀ r ∈ rs, rel' l r = true → rel l r = true := by
  rw [← filter_pairs narrower, length_filter_eq_length_iff]
  constructor
  · intro all l inL r inR holds
    exact all _ (mem_pairs.mpr ⟨inL, inR, holds⟩)
  · rintro all ⟨l, r⟩ inside
    obtain ⟨l, inL, inside⟩ := mem_flatMap.mp inside
    obtain ⟨r, inR, same⟩ := mem_map.mp inside
    cases same
    exact all l inL r (mem_of_mem_filter inR) (mem_filter.mp inR).2

theorem any_congr_mem {γ : Type*} {p q : γ → Bool} {l : List γ} (same : ∀ a ∈ l, p a = q a) : l.any p = l.any q := by
  rw [Bool.eq_iff_iff, any_eq_true, any_eq_true]
  exact exists_congr fun a => and_congr_right fun inside => by rw [same a inside]

theorem pairs_congr (same : ∀ l ∈ ls, ∀ r ∈ rs, rel l r = rel' l r) : pairs rel ls rs = pairs rel' ls rs := by
  refine flatMap_congr fun l inL => ?_
  rw [filter_congr fun r inR => same l inL r inR]

/-- Two selections whose images are the same, item for item, select the same items, where items with one image are
selected alike. -/
theorem filter_map_perm_iff {γ δ : Type*} {p q : γ → Bool} {f : γ → δ} {l : List γ}
    (alike : ∀ a ∈ l, ∀ b ∈ l, f a = f b → p a = p b ∧ q a = q b) :
    ((l.filter p).map f).Perm ((l.filter q).map f) ↔ ∀ a ∈ l, p a = q a := by
  constructor
  · intro perm a inside
    rw [Bool.eq_iff_iff]
    constructor
    · intro chosen
      have there := perm.mem_iff.mp (mem_map_of_mem (mem_filter.mpr ⟨inside, chosen⟩))
      obtain ⟨b, inB, same⟩ := mem_map.mp there
      obtain ⟨inList, chosen'⟩ := mem_filter.mp inB
      rw [(alike a inside b inList same.symm).2]
      exact chosen'
    · intro chosen
      have there := perm.mem_iff.mpr (mem_map_of_mem (mem_filter.mpr ⟨inside, chosen⟩))
      obtain ⟨b, inB, same⟩ := mem_map.mp there
      obtain ⟨inList, chosen'⟩ := mem_filter.mp inB
      rw [(alike a inside b inList same.symm).1]
      exact chosen'
  · intro same
    rw [filter_congr same]

/-! ## Parts of a join -/

theorem join_nil_left (rs : List β) : join rel keepLeft false [] rs = [] := rfl

theorem join_nil_right (ls : List α) : join rel false keepRight ls [] = [] := by
  have none : ls.flatMap (leftPairs rel false []) = [] := flatMap_eq_nil_iff.mpr fun l _ => rfl
  rw [join, none]
  cases keepRight <;> rfl

theorem join_congr (same : ∀ l ∈ ls, ∀ r ∈ rs, rel l r = rel' l r) : join rel keepLeft keepRight ls rs = join rel' keepLeft keepRight ls rs := by
  unfold join
  congr 1
  · refine flatMap_congr fun l inL => ?_
    unfold leftPairs
    rw [filter_congr fun r inR => same l inL r inR, any_congr_mem fun r inR => same l inL r inR]
  · unfold rightOnly
    rw [filter_congr fun r inR => congrArg not (any_congr_mem fun l inL => same l inL r inR)]

/-- Left items without a partner are no rows, where their side is not kept. -/
theorem join_append_idle {idle : List α} (alone : ∀ l ∈ idle, keepLeft = false ∧ ∀ r ∈ rs, rel l r = false) :
    join rel keepLeft keepRight (ls ++ idle) rs = join rel keepLeft keepRight ls rs := by
  unfold join
  rw [flatMap_append]
  have none : idle.flatMap (leftPairs rel keepLeft rs) = [] := by
    refine flatMap_eq_nil_iff.mpr fun l inside => ?_
    obtain ⟨dropped, single⟩ := alone l inside
    have unmatched : rs.any (rel l) = false := any_eq_false.mpr fun r inR => Bool.not_eq_true _ ▸ single r inR
    rw [leftPairs, unmatched, dropped]
    rfl
  rw [none, append_nil]
  congr 1
  have partners : ∀ r ∈ rs, (!(ls ++ idle).any (rel · r)) = !ls.any (rel · r) := by
    intro r inR
    have unmatched : idle.any (rel · r) = false := any_eq_false.mpr fun l inside => Bool.not_eq_true _ ▸ (alone l inside).2 r inR
    rw [any_append, unmatched, Bool.or_false]
  rw [rightOnly, filter_congr partners, rightOnly]

/-! ## Conditions before a join -/

/-- **A condition on the left items before the join** leaves the pairs that fulfil the condition on
pairs. -/
theorem filter_join {p : α → Bool} {q : Option α × Option β → Bool} (stops : ∀ l ∈ ls, p l = false → ∀ r, q (some l, r) = false)
    (passes : ∀ pair ∈ join rel keepLeft keepRight ls rs, (∀ l, pair.1 = some l → p l = true) → q pair = true)
    (cover : keepRight = true → ∀ r ∈ rs, ∀ l ∈ ls, rel l r = true → ∃ l' ∈ ls, rel l' r = true ∧ p l' = true) :
    (join rel keepLeft keepRight ls rs).filter q = join rel keepLeft keepRight (ls.filter p) rs := by
  unfold join
  rw [filter_append]
  congr 1
  · have some_left (l : α) (pair : Option α × Option β) (inside : pair ∈ leftPairs rel keepLeft rs l) : pair.1 = some l := by
      unfold leftPairs at inside
      split_ifs at inside
      · obtain ⟨r, -, rfl⟩ := mem_map.mp inside
        rfl
      · rw [mem_singleton.mp inside]
      · cases inside
    have each (l : α) (listed : l ∈ ls) : (leftPairs rel keepLeft rs l).filter q = if p l then leftPairs rel keepLeft rs l else [] := by
      cases chosen : p l with
      | true =>
        refine filter_eq_self.mpr fun pair inside => ?_
        refine passes pair (mem_append_left _ (mem_flatMap.mpr ⟨l, listed, inside⟩)) fun l' isLeft => ?_
        rw [some_left l pair inside] at isLeft
        obtain rfl := Option.some.inj isLeft
        exact chosen
      | false =>
        refine filter_eq_nil_iff.mpr fun pair inside => ?_
        obtain ⟨first, second⟩ := pair
        obtain rfl : first = some l := some_left l _ inside
        rw [stops l listed chosen second]
        exact Bool.false_ne_true
    rw [List.filter_flatMap, flatMap_congr each]
    clear stops passes cover each
    induction ls with
    | nil => rfl
    | cons l ls ih => cases chosen : p l <;> simp [chosen, ih]
  · cases keepRight with
    | false => rfl
    | true =>
      have same : ∀ r ∈ rs, (ls.filter p).any (rel · r) = ls.any (rel · r) := by
        intro r listed
        rw [Bool.eq_iff_iff]
        simp only [any_eq_true, mem_filter]
        constructor
        · rintro ⟨l, ⟨inside, -⟩, related⟩
          exact ⟨l, inside, related⟩
        · rintro ⟨l, inside, related⟩
          obtain ⟨l', inside', related', chosen⟩ := cover rfl r listed l inside related
          exact ⟨l', ⟨inside', chosen⟩, related'⟩
      have right : rightOnly rel true (ls.filter p) rs = rightOnly rel true ls rs := by
        unfold rightOnly
        rw [if_pos rfl, if_pos rfl, filter_congr fun r listed => by rw [same r listed]]
      rw [right]
      refine filter_eq_self.mpr fun pair inside => passes pair (mem_append_right _ inside) fun l isLeft => ?_
      unfold rightOnly at inside
      rw [if_pos rfl] at inside
      obtain ⟨r, -, rfl⟩ := mem_map.mp inside
      cases isLeft

/-! ## Tables -/

variable [DecidableEq κ] (key : α → Option κ)

/-- The items that no later one of their key replaces; those without a key are not in a table. -/
def latest : List α → List α
  | [] => []
  | a :: l => if key a = none ∨ ∃ b ∈ l, key b = key a then latest l else a :: latest l

variable {key}

theorem latest_sublist (l : List α) : (latest key l).Sublist l := by
  induction l with
  | nil => exact .slnil
  | cons a l ih =>
    rw [latest]
    split_ifs
    · exact ih.cons a
    · exact ih.cons_cons a

/-- The keys of a table are different. -/
theorem latest_pairwise (l : List α) : (latest key l).Pairwise fun a b => key a ≠ key b := by
  induction l with
  | nil => exact .nil
  | cons a l ih =>
    rw [latest]
    split_ifs with replaced
    · exact ih
    · refine pairwise_cons.mpr ⟨fun b inside same => ?_, ih⟩
      exact replaced (.inr ⟨b, (latest_sublist l).subset inside, same.symm⟩)

/-- An item of a table is the last one of its key. -/
theorem mem_latest {l : List α} {a : α} :
    a ∈ latest key l ↔ ∃ k, key a = some k ∧ (l.filter fun b => key b = some k).getLast? = some a := by
  induction l with
  | nil =>
    refine iff_of_false not_mem_nil ?_
    rintro ⟨k, -, none⟩
    cases none
  | cons c l ih =>
    have last (k : κ) : ((c :: l).filter fun b => key b = some k).getLast? =
        ((l.filter fun b => key b = some k).getLast?).or (if key c = some k then some c else none) := by
      by_cases named : key c = some k
      · rw [filter_cons_of_pos (by simpa using named), if_pos named, getLast?_cons]
        cases (l.filter fun b => key b = some k).getLast? <;> rfl
      · rw [filter_cons_of_neg (by simpa using named), if_neg named, Option.or_none]
    rw [latest]
    split_ifs with replaced
    · rw [ih]
      refine exists_congr fun k => and_congr_right fun named => ?_
      rw [last]
      by_cases ofKey : key c = some k
      · obtain absent | ⟨b, inTail, same⟩ := replaced
        · rw [ofKey] at absent
          cases absent
        · cases found : (l.filter fun b => key b = some k).getLast? with
          | some d => simp
          | none =>
            have none := getLast?_eq_none_iff.mp found
            have listed : b ∈ l.filter fun b => key b = some k := mem_filter.mpr ⟨inTail, decide_eq_true (same.trans ofKey)⟩
            rw [none] at listed
            cases listed
      · rw [if_neg ofKey, Option.or_none]
    · rw [not_or] at replaced
      obtain ⟨present, unreplaced⟩ := replaced
      obtain ⟨k, named⟩ := Option.ne_none_iff_exists'.mp present
      have alone : (l.filter fun b => key b = some k) = [] :=
        filter_eq_nil_iff.mpr fun b inTail same => unreplaced ⟨b, inTail, (by simpa using same : key b = some k).trans named.symm⟩
      rw [mem_cons, ih]
      constructor
      · rintro (rfl | ⟨k', ofKey, isLast⟩)
        · exact ⟨k, named, by rw [last, alone, if_pos named]; rfl⟩
        · exact ⟨k', ofKey, by rw [last, isLast]; rfl⟩
      · rintro ⟨k', ofKey, isLast⟩
        rw [last] at isLast
        cases found : (l.filter fun b => key b = some k').getLast? with
        | some d =>
          rw [found] at isLast
          exact .inr ⟨k', ofKey, by rw [found]; exact isLast⟩
        | none =>
          rw [found, Option.none_or] at isLast
          split_ifs at isLast with same
          exact .inl (Option.some.inj isLast).symm

/-- Two keys that group the items alike. -/
structure Alike (key key' : α → Option κ) (l : List α) : Prop where
  absent : ∀ a ∈ l, key a = none ↔ key' a = none
  same : ∀ a ∈ l, ∀ b ∈ l, key a = key b ↔ key' a = key' b

theorem latest_congr {key' : α → Option κ} {l : List α} (alike : Alike key key' l) : latest key l = latest key' l := by
  induction l with
  | nil => rfl
  | cons a l ih =>
    have tail := ih ⟨fun b inside => alike.absent b (mem_cons_of_mem a inside),
      fun b inB c inC => alike.same b (mem_cons_of_mem a inB) c (mem_cons_of_mem a inC)⟩
    have replaced : (key a = none ∨ ∃ b ∈ l, key b = key a) ↔ (key' a = none ∨ ∃ b ∈ l, key' b = key' a) :=
      or_congr (alike.absent a mem_cons_self) (exists_congr fun b => and_congr_right fun inside =>
        alike.same b (mem_cons_of_mem a inside) a mem_cons_self)
    rw [latest, latest, tail]
    simp only [replaced]

end StreamHouse.Lib.Joins
