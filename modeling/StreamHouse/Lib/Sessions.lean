import Mathlib.Data.List.Sort
import Mathlib.Data.List.SplitBy
import Mathlib.Tactic.Linarith

/-!
# Sessions of a list

A list is put in the order of a measure and cut wherever an item is more than a gap behind the
one before it. A selection whose items are more than the gap from all others cuts out whole
sessions.
-/

namespace StreamHouse.Lib.Sessions

open List

variable {α : Type*} (measure : α → Int)

/-- A stable sort by the measure. -/
def sorted (l : List α) : List α := l.insertionSort fun a b => measure a ≤ measure b

def sessions (gap : Int) (l : List α) : List (List α) := l.splitBy fun a b => measure b - measure a ≤ gap

variable {measure}

variable {p : α → Bool} {l : List α} {a b : α} {parts : List (List α)}

theorem filter_orderedInsert (a : α) (order : l.Pairwise fun b c => measure b ≤ measure c) :
    (l.orderedInsert (fun b c => measure b ≤ measure c) a).filter p =
      if p a = true then (l.filter p).orderedInsert (fun b c => measure b ≤ measure c) a else l.filter p := by
  induction l with
  | nil => by_cases chosen : p a = true <;> simp [chosen]
  | cons b l ih =>
    obtain ⟨least, tail⟩ := pairwise_cons.mp order
    by_cases before : measure a ≤ measure b
    · rw [orderedInsert_cons_of_le _ l before]
      by_cases chosen : p a = true
      · rw [filter_cons_of_pos chosen, if_pos chosen]
        -- `a` stays before all that are left of the list
        have first : ∀ c ∈ (b :: l).filter p, measure a ≤ measure c := by
          intro c inside
          obtain rfl | later := mem_cons.mp (mem_of_mem_filter inside)
          · exact before
          · exact before.trans (least c later)
        cases left : (b :: l).filter p with
        | nil => rfl
        | cons c rest =>
          rw [left] at first
          exact (orderedInsert_cons_of_le _ rest (first c mem_cons_self)).symm
      · rw [filter_cons_of_neg chosen, if_neg chosen]
    · rw [orderedInsert_of_not_le _ l before]
      by_cases chosen : p b = true
      · rw [filter_cons_of_pos chosen, ih tail, filter_cons_of_pos chosen]
        split_ifs
        · exact (orderedInsert_of_not_le (fun b c => measure b ≤ measure c) _ before).symm
        · rfl
      · rw [filter_cons_of_neg chosen, ih tail, filter_cons_of_neg chosen]

theorem pairwise_sorted (l : List α) : (sorted measure l).Pairwise fun a b => measure a ≤ measure b := by
  have total : Std.Total fun a b : α => measure a ≤ measure b := ⟨fun a b => le_total _ _⟩
  have trans : IsTrans α fun a b => measure a ≤ measure b := ⟨fun a b c => le_trans⟩
  exact pairwise_insertionSort _ l

theorem mem_sorted : a ∈ sorted measure l ↔ a ∈ l := mem_insertionSort _

/-- Sorting what is selected is selecting from what is sorted. -/
theorem filter_sorted (p : α → Bool) (l : List α) : (sorted measure l).filter p = sorted measure (l.filter p) := by
  induction l with
  | nil => rfl
  | cons a l ih =>
    have step : sorted measure (a :: l) = (sorted measure l).orderedInsert (fun b c => measure b ≤ measure c) a := rfl
    rw [step, filter_orderedInsert a (pairwise_sorted l), ih]
    by_cases chosen : p a = true
    · rw [if_pos chosen, filter_cons_of_pos chosen]
      rfl
    · rw [if_neg chosen, filter_cons_of_neg chosen]

theorem perm_sorted (l : List α) : (sorted measure l).Perm l := perm_insertionSort _ l

/-! ## Cutting out whole sessions -/

variable {gap : Int}

/-- In a session neighbours are close. -/
theorem close_of_mem_sessions {s : List α} (isSession : s ∈ sessions measure gap l) :
    s.IsChain fun a b => measure b - measure a ≤ gap := by
  have chain := isChain_of_mem_splitBy isSession
  exact chain.imp fun a b close => of_decide_eq_true close

/-- In order, any later session is more than the gap behind any earlier one. -/
theorem pairwise_apart (some : [] ∉ parts) (order : parts.flatten.Pairwise fun a b => measure a ≤ measure b)
    (cut : parts.IsChain fun s t => ∃ ha hb, (decide (measure (t.head hb) - measure (s.getLast ha) ≤ gap)) = false) :
    parts.Pairwise fun s t => ∀ a ∈ s, ∀ b ∈ t, gap < measure b - measure a := by
  induction parts with
  | nil => exact .nil
  | cons s parts ih =>
    rw [mem_cons, not_or] at some
    obtain ⟨inside, others, across⟩ := List.pairwise_append.mp order
    have later := ih some.2 others cut.tail
    refine pairwise_cons.mpr ⟨?_, later⟩
    cases parts with
    | nil => exact fun t no => nomatch no
    | cons t parts =>
      obtain ⟨ha, hb, far⟩ := (isChain_cons_cons.mp cut).1
      -- the next session is cut off, and the others come behind its head
      have next (a : α) (inS : a ∈ s) (b : α) (above : measure (t.head hb) ≤ measure b) : gap < measure b - measure a := by
        have last : measure a ≤ measure (s.getLast ha) := by
          obtain rfl | ne := eq_or_ne a (s.getLast ha)
          · rfl
          · rw [← dropLast_append_getLast ha] at inside inS
            obtain front | same := mem_append.mp inS
            · exact (List.pairwise_append.mp inside).2.2 a front _ mem_cons_self
            · exact absurd (mem_singleton.mp same) ne
        have apart := of_decide_eq_false far
        omega
      intro u inParts a inS b inU
      apply next a inS b
      rw [flatten_cons] at others
      obtain ⟨within, -, between⟩ := List.pairwise_append.mp others
      obtain rfl | deeper := mem_cons.mp inParts
      · cases u with
        | nil => exact absurd rfl hb
        | cons first rest =>
          obtain rfl | inRest := mem_cons.mp inU
          · exact le_rfl
          · exact (pairwise_cons.mp within).1 b inRest
      · exact between _ (head_mem hb) b (mem_flatten.mpr ⟨u, deeper, inU⟩)

/-- A selection that is more than the gap from the rest takes all of a session or nothing. -/
theorem whole_session {s : List α} (order : l.Pairwise fun a b => measure a ≤ measure b) (apart : ∀ a ∈ l, ∀ b ∈ l, p a = true → p b = false → gap < |measure a - measure b|) (isSession : s ∈ sessions measure gap l) :
    ∀ a ∈ s, ∀ b ∈ s, p a = p b := by
  have inList (a : α) (inS : a ∈ s) : a ∈ l := by
    rw [← flatten_splitBy (fun a b => decide (measure b - measure a ≤ gap)) l]
    exact mem_flatten.mpr ⟨s, isSession, inS⟩
  have ordered : s.Pairwise fun a b => measure a ≤ measure b := by
    rw [← flatten_splitBy (fun a b => decide (measure b - measure a ≤ gap)) l] at order
    exact (pairwise_flatten.mp order).1 s isSession
  have same : s.IsChain fun a b => p a = p b := by
    have close := close_of_mem_sessions isSession
    rw [isChain_iff_getElem] at close ⊢
    intro i bound
    have near := close i bound
    have le := pairwise_iff_getElem.mp ordered i (i + 1) (by omega) (by omega) (by omega)
    have distance : |measure s[i] - measure s[i + 1]| = measure s[i + 1] - measure s[i] := by
      rw [abs_sub_comm, abs_of_nonneg (by omega)]
    have inFirst := inList s[i] (getElem_mem _)
    have inSecond := inList s[i + 1] (getElem_mem _)
    cases first : p s[i] with
    | true =>
      cases second : p s[i + 1] with
      | true => rfl
      | false =>
        have far := apart _ inFirst _ inSecond first second
        omega
    | false =>
      cases second : p s[i + 1] with
      | false => rfl
      | true =>
        have far := apart _ inSecond _ inFirst second first
        rw [abs_sub_comm] at far
        omega
  have trans : IsTrans α fun a b => p a = p b := ⟨fun a b c => Eq.trans⟩
  have pairwise := isChain_iff_pairwise.mp same
  intro a inA b inB
  have symm : Std.Symm fun a b => p a = p b := ⟨fun a b => Eq.symm⟩
  exact List.Pairwise.forall_of_forall (R := fun a b => p a = p b) (fun _ _ => rfl) pairwise inA inB

theorem flatten_filter_all (whole : ∀ s ∈ parts, ∀ a ∈ s, ∀ b ∈ s, p a = p b) :
    (parts.filter fun s => s.all p).flatten = parts.flatten.filter p := by
  induction parts with
  | nil => rfl
  | cons s parts ih =>
    have rest := ih fun t inside => whole t (mem_cons_of_mem _ inside)
    have same := whole s mem_cons_self
    rw [flatten_cons, filter_append]
    by_cases all : s.all p = true
    · have kept : (s :: parts).filter (fun s => s.all p) = s :: parts.filter fun s => s.all p := filter_cons_of_pos all
      rw [kept, flatten_cons, rest, filter_eq_self.mpr fun a inside => all_eq_true.mp all a inside]
    · have none : s.filter p = [] := by
        apply filter_eq_nil_iff.mpr
        intro a inside chosen
        exact all (all_eq_true.mpr fun b inB => (same b inB a inside).trans chosen)
      have left : (s :: parts).filter (fun s => s.all p) = parts.filter fun s => s.all p := filter_cons_of_neg all
      rw [left, none, nil_append, rest]

/-- Of the sessions a selection that is more than the gap from the rest has those that it takes. -/
theorem sessions_filter (order : l.Pairwise fun a b => measure a ≤ measure b) (apart : ∀ a ∈ l, ∀ b ∈ l, p a = true → p b = false → gap < |measure a - measure b|) :
    sessions measure gap (l.filter p) = (sessions measure gap l).filter fun s => s.all p := by
  have flat : (sessions measure gap l).flatten = l := flatten_splitBy _ l
  have some : [] ∉ sessions measure gap l := nil_notMem_splitBy _ l
  have far : (sessions measure gap l).Pairwise fun s t => ∀ a ∈ s, ∀ b ∈ t, gap < measure b - measure a :=
    pairwise_apart some (by rw [flat]; exact order) (isChain_getLast_head_splitBy (fun a b => decide (measure b - measure a ≤ gap)) l)
  have parts := flatten_filter_all fun s isSession => whole_session order apart isSession
  rw [flat] at parts
  rw [← parts]
  apply splitBy_flatten
  · exact fun inside => some (mem_of_mem_filter inside)
  · exact fun s inside => isChain_of_mem_splitBy (mem_of_mem_filter inside)
  · have some' (s : List α) (inside : s ∈ (sessions measure gap l).filter fun s => s.all p) : s ≠ [] := by
      rintro rfl
      exact some (mem_of_mem_filter inside)
    have chain := (far.filter fun s => s.all p).isChain
    apply chain.imp_of_mem_imp
    intro s t inS inT apart
    refine ⟨some' s inS, some' t inT, decide_eq_false ?_⟩
    have gapped := apart _ (getLast_mem (some' s inS)) _ (head_mem (some' t inT))
    omega

/-! ## Items that are linked -/

variable (measure gap)

/-- Two items of a list that are at most the gap apart. -/
def Close (l : List α) (a b : α) : Prop := a ∈ l ∧ b ∈ l ∧ |measure a - measure b| ≤ gap

/-- Two items with items of the list between them, each at most the gap from the next. -/
def Linked (l : List α) : α → α → Prop := Relation.ReflTransGen (Close measure gap l)

variable {measure gap}

theorem Close.symm (close : Close measure gap l a b) : Close measure gap l b a :=
  ⟨close.2.1, close.1, by rw [abs_sub_comm]; exact close.2.2⟩

theorem Linked.symm (linked : Linked measure gap l a b) : Linked measure gap l b a := by
  induction linked with
  | refl => exact .refl
  | tail _ close ih => exact .head close.symm ih

/-- A link does not lead over a stretch without items that is longer than the gap. -/
theorem Linked.le (linked : Linked measure gap l a b) {x : Int}
    (stretch : ∀ c ∈ l, measure c ≤ x ∨ x + gap < measure c) (low : measure a ≤ x) : measure b ≤ x := by
  induction linked with
  | refl => exact low
  | tail _ close ih =>
    obtain ⟨-, inside, near⟩ := close
    have bounds := abs_le.mp near
    rcases stretch _ inside with upto | above
    · exact upto
    · omega

theorem linked_of_part {s : List α} (sub : ∀ a ∈ s, a ∈ l) (order : s.Pairwise fun a b => measure a ≤ measure b)
    (close : s.IsChain fun a b => measure b - measure a ≤ gap) (inA : a ∈ s) (inB : b ∈ s) : Linked measure gap l a b := by
  have chain : s.IsChain (Linked measure gap l) := by
    rw [isChain_iff_getElem] at close ⊢
    intro i bound
    have near := close i bound
    have le := pairwise_iff_getElem.mp order i (i + 1) (by omega) (by omega) (by omega)
    refine .single ⟨sub _ (getElem_mem _), sub _ (getElem_mem _), ?_⟩
    rw [abs_sub_comm, abs_of_nonneg (by omega)]
    exact near
  have trans : IsTrans α (Linked measure gap l) := ⟨fun a b c => Relation.ReflTransGen.trans⟩
  have symm : Std.Symm (Linked measure gap l) := ⟨fun a b => Linked.symm⟩
  exact List.Pairwise.forall_of_forall (fun _ _ => .refl) (isChain_iff_pairwise.mp chain) inA inB

/-- Parts that are more than the gap from each other are one where their items are close. -/
theorem eq_of_close (apart : parts.Pairwise fun s t => ∀ a ∈ s, ∀ b ∈ t, gap < measure b - measure a)
    {s t : List α} (inS : s ∈ parts) (inT : t ∈ parts) (inA : a ∈ s) (inB : b ∈ t) (near : |measure a - measure b| ≤ gap) :
    s = t := by
  have bounds := abs_le.mp near
  by_contra different
  have symm : Std.Symm fun s t : List α => (∃ a ∈ s, ∃ b ∈ t, |measure a - measure b| ≤ gap) → s = t := by
    refine ⟨fun s t same ⟨a, inA, b, inB, near⟩ => (same ⟨b, inB, a, inA, ?_⟩).symm⟩
    rw [abs_sub_comm]
    exact near
  have far := apart.imp (S := fun s t : List α => (∃ a ∈ s, ∃ b ∈ t, |measure a - measure b| ≤ gap) → s = t) fun {s t} all => by
    rintro ⟨a, inA, b, inB, near⟩
    have := all a inA b inB
    have := abs_le.mp near
    omega
  exact different (List.Pairwise.forall_of_forall (fun _ _ _ => rfl) far inS inT ⟨a, inA, b, inB, near⟩)

/-- **Two items are in one session just when they are linked.** -/
theorem together_iff_linked (inA : a ∈ l) :
    (∃ s ∈ sessions measure gap (sorted measure l), a ∈ s ∧ b ∈ s) ↔ Linked measure gap l a b := by
  have order := @pairwise_sorted α measure l
  have flat : (sessions measure gap (sorted measure l)).flatten = sorted measure l := flatten_splitBy _ _
  have some : [] ∉ sessions measure gap (sorted measure l) := nil_notMem_splitBy _ _
  have inPart {c : α} (inside : c ∈ l) : ∃ s ∈ sessions measure gap (sorted measure l), c ∈ s := by
    rw [← @mem_sorted α measure, ← flat] at inside
    exact mem_flatten.mp inside
  constructor
  · rintro ⟨s, isSession, inS, inS'⟩
    refine linked_of_part (fun c inC => ?_) ?_ (close_of_mem_sessions isSession) inS inS'
    · rw [← @mem_sorted α measure, ← flat]
      exact mem_flatten.mpr ⟨s, isSession, inC⟩
    · rw [← flat] at order
      exact (pairwise_flatten.mp order).1 s isSession
  · intro linked
    have apart := pairwise_apart some (by rw [flat]; exact order)
      (isChain_getLast_head_splitBy (fun a b => decide (measure b - measure a ≤ gap)) (sorted measure l))
    induction linked with
    | refl =>
      obtain ⟨s, isSession, inS⟩ := inPart inA
      exact ⟨s, isSession, inS, inS⟩
    | tail _ close ih =>
      obtain ⟨s, isSession, inS, inS'⟩ := ih
      obtain ⟨-, inside, near⟩ := close
      obtain ⟨t, isSession', inT⟩ := inPart inside
      obtain rfl := eq_of_close apart isSession isSession' inS' inT near
      exact ⟨s, isSession, inS, inT⟩

end StreamHouse.Lib.Sessions
