import StreamHouse.Sql.SessionSweep

/-!
# Exact sessions

The sessions of a group are the classes of messages that are linked. The sweep finds them unless
two messages that follow each other are too far apart for the difference of their timestamps to be
an `i64`.
-/

namespace StreamHouse.Sql

open Lib OrderedMap HashMaps I64 List MessageRow Sessions

section Display

variable (display : Json → String) (iteration : HashOrder (Option String)) (groupBy : List String)

/-- The session windows partition the messages into the classes that are linked, with the first and
the last timestamp for bounds, and the order of the messages shows only among equal timestamps. -/
structure SessionsExact (gap : Int) (messages : List MessageRow) : Prop where
  partition : ((groupIntoSessionWindowsI64 display iteration messages gap groupBy).flatMap Prod.snd).Perm messages
  bounds : ∀ entry ∈ groupIntoSessionWindowsI64 display iteration messages gap groupBy, ∃ first ∈ entry.2, ∃ last ∈ entry.2,
    entry.1 = windowKey first.timestamp last.timestamp (extractGroupKey display first groupBy) ∧
      ∀ m ∈ entry.2, extractGroupKey display m groupBy = extractGroupKey display first groupBy ∧
        first.timestamp ≤ m.timestamp ∧ m.timestamp ≤ last.timestamp
  linked : ∀ m ∈ messages, ∀ n ∈ messages, extractGroupKey display m groupBy = extractGroupKey display n groupBy →
    ((∃ entry ∈ groupIntoSessionWindowsI64 display iteration messages gap groupBy, m ∈ entry.2 ∧ n ∈ entry.2) ↔
      Linked timestamp gap (groupOf display groupBy messages (extractGroupKey display m groupBy)) m n)
  reordered : ∀ (iteration' : HashOrder (Option String)) (messages' : List MessageRow), messages'.Perm messages →
    Forall₂ (fun a b => a.1 = b.1 ∧ a.2.Perm b.2 ∧ a.2.map timestamp = b.2.map timestamp)
      (groupIntoSessionWindowsI64 display iteration' messages' gap groupBy)
      (groupIntoSessionWindowsI64 display iteration messages gap groupBy)

/-- In the order of the timestamps, each message of a group is less than `2 ^ 63` behind the one
before it. -/
def NoLeap (messages : List MessageRow) : Prop :=
  ∀ groupKey, (sorted timestamp (groupOf display groupBy messages groupKey)).IsChain
    fun a b => b.timestamp - a.timestamp < 2 ^ 63

variable {display iteration groupBy} {gap : Int} {messages : List MessageRow}

theorem mem_groupOf {groupKey : Option String} {m : MessageRow} :
    m ∈ groupOf display groupBy messages groupKey ↔ m ∈ messages ∧ extractGroupKey display m groupBy = groupKey := by
  rw [groupOf, mem_filter, decide_eq_true_eq]

/-! ## What holds in any case -/

theorem sessionWindows_partition (nonneg : 0 ≤ gap) (messages : List MessageRow) :
    ((groupIntoSessionWindowsI64 display iteration messages gap groupBy).flatMap Prod.snd).Perm messages := by
  refine ((sessionWindows_perm nonneg messages).flatMap_right _).trans ?_
  rw [sessionEntries, flatMap_assoc]
  have part (groupKey : Option String) : (((partsOf gap (groupOf display groupBy messages groupKey)).map fun session =>
      (sessionKey groupKey session, session)).flatMap Prod.snd).Perm (messages.filter fun m => extractGroupKey display m groupBy = groupKey) := by
    rw [flatMap_map, flatMap_id', flatten_partsOf]
    exact perm_sorted _
  refine (Perm.flatMap_left _ fun groupKey _ => part groupKey).trans ?_
  refine ((iteration.perm _).flatMap_right _).trans (Parts.flatMap_filter_perm _ (nodup_dedup _) fun m inside => ?_)
  exact mem_groupKeys.mpr ⟨m, inside, rfl⟩

theorem sessionWindows_bounds (nonneg : 0 ≤ gap) {entry : WindowKey × List MessageRow}
    (inside : entry ∈ groupIntoSessionWindowsI64 display iteration messages gap groupBy) :
    ∃ first ∈ entry.2, ∃ last ∈ entry.2,
      entry.1 = windowKey first.timestamp last.timestamp (extractGroupKey display first groupBy) ∧
        ∀ m ∈ entry.2, extractGroupKey display m groupBy = extractGroupKey display first groupBy ∧
          first.timestamp ≤ m.timestamp ∧ m.timestamp ≤ last.timestamp := by
  obtain ⟨groupKey, -, session, isPart, rfl⟩ := (mem_sessionWindows nonneg).mp inside
  have some := part_ne_nil isPart
  have refl : Std.Refl fun a b : MessageRow => a.timestamp ≤ b.timestamp := ⟨fun _ => le_rfl⟩
  have ofGroup (m : MessageRow) (inSession : m ∈ session) : extractGroupKey display m groupBy = groupKey :=
    (mem_groupOf.mp (mem_of_part isPart inSession)).2
  refine ⟨session.head some, head_mem some, session.getLast some, getLast_mem some, ?_, fun m inSession => ⟨?_, ?_, ?_⟩⟩
  · rw [ofGroup _ (head_mem some)]
    exact head?_part some groupKey
  · rw [ofGroup m inSession, ofGroup _ (head_mem some)]
  · exact (pairwise_part isPart).rel_head inSession
  · exact (pairwise_part isPart).rel_getLast inSession

/-! ### The order of the messages -/

theorem ascending_sessionWindows (gap : Int) (messages : List MessageRow) :
    Ascending (groupIntoSessionWindowsI64 display iteration messages gap groupBy) := by
  rw [groupIntoSessionWindowsI64_eq]
  exact (filled (fun _ entry => entry.2) _).1

theorem map_sorted_of_perm {l l' : List MessageRow} (perm : l'.Perm l) :
    (sorted timestamp l').map timestamp = (sorted timestamp l).map timestamp := by
  have all := ((@perm_sorted _ timestamp l').trans perm).trans (@perm_sorted _ timestamp l).symm
  refine (all.map timestamp).eq_of_pairwise (fun a b _ _ => le_antisymm) ?_ ?_
  · exact pairwise_map.mpr (pairwise_sorted l')
  · exact pairwise_map.mpr (pairwise_sorted l)

theorem map_partsOf (gap : Int) (groupMsgs : List MessageRow) :
    (partsOf gap groupMsgs).map (List.map timestamp) =
      ((sorted timestamp groupMsgs).map timestamp).splitBy fun a b => decide (wrappingSub b a ≤ gap) :=
  (Parts.map_splitBy timestamp (fun a b => decide (wrappingSub b a ≤ gap)) _).symm

theorem sessionKey_congr {s t : List MessageRow} (same : s.map timestamp = t.map timestamp)
    (groupKey : Option String) : sessionKey groupKey s = sessionKey groupKey t := by
  unfold sessionKey
  rw [← head?_map, ← getLast?_map, same, head?_map, getLast?_map]

variable {groupMsgs session : List MessageRow}

theorem part_eq_filter (nonneg : 0 ≤ gap) (isPart : session ∈ partsOf gap groupMsgs) :
    session = (sorted timestamp groupMsgs).filter fun m => m.timestamp ∈ session.map timestamp := by
  have apart := (parts_apart nonneg groupMsgs).imp fun less a inA b inB => (less a inA b inB).ne
  rw [← flatten_partsOf gap, Parts.filter_part apart isPart]

/-- A part of a group is one of the group in another order, but for the order of equal timestamps. -/
theorem exists_part_of_perm (nonneg : 0 ≤ gap) {groupMsgs' : List MessageRow} (perm : groupMsgs'.Perm groupMsgs)
    (isPart : session ∈ partsOf gap groupMsgs) :
    ∃ session' ∈ partsOf gap groupMsgs', session'.map timestamp = session.map timestamp ∧ session'.Perm session := by
  have maps : (partsOf gap groupMsgs').map (List.map timestamp) = (partsOf gap groupMsgs).map (List.map timestamp) := by
    rw [map_partsOf, map_partsOf, map_sorted_of_perm perm]
  have listed : session.map timestamp ∈ (partsOf gap groupMsgs').map (List.map timestamp) := by
    rw [maps]
    exact mem_map_of_mem isPart
  obtain ⟨session', isPart', same⟩ := mem_map.mp listed
  refine ⟨session', isPart', same, ?_⟩
  rw [part_eq_filter nonneg isPart, part_eq_filter nonneg isPart', same]
  exact (((perm_sorted groupMsgs').trans perm).trans (perm_sorted groupMsgs).symm).filter _

theorem exists_entry_of_perm (iteration' : HashOrder (Option String)) (nonneg : 0 ≤ gap) {messages' : List MessageRow}
    (perm : messages'.Perm messages) {entry : WindowKey × List MessageRow}
    (inside : entry ∈ groupIntoSessionWindowsI64 display iteration messages gap groupBy) :
    ∃ entry' ∈ groupIntoSessionWindowsI64 display iteration' messages' gap groupBy, entry'.1 = entry.1 ∧
      entry'.2.Perm entry.2 ∧ entry'.2.map timestamp = entry.2.map timestamp := by
  obtain ⟨groupKey, isKey, session, isPart, rfl⟩ := (mem_sessionWindows nonneg).mp inside
  obtain ⟨session', isPart', same, parts⟩ :=
    exists_part_of_perm nonneg (perm.filter fun m => extractGroupKey display m groupBy = groupKey) isPart
  obtain ⟨m, inMessages, named⟩ := mem_groupKeys.mp isKey
  refine ⟨(sessionKey groupKey session', session'), (mem_sessionWindows nonneg).mpr ?_, sessionKey_congr same groupKey, parts, same⟩
  exact ⟨groupKey, mem_groupKeys.mpr ⟨m, perm.mem_iff.mpr inMessages, named⟩, session', isPart', rfl⟩

theorem sessionWindows_reordered (nonneg : 0 ≤ gap) (iteration' : HashOrder (Option String)) {messages' : List MessageRow}
    (perm : messages'.Perm messages) :
    Forall₂ (fun a b => a.1 = b.1 ∧ a.2.Perm b.2 ∧ a.2.map timestamp = b.2.map timestamp)
      (groupIntoSessionWindowsI64 display iteration' messages' gap groupBy)
      (groupIntoSessionWindowsI64 display iteration messages gap groupBy) := by
  have ascending := @ascending_sessionWindows display iteration groupBy gap messages
  have ascending' := @ascending_sessionWindows display iteration' groupBy gap messages'
  refine ascending'.forall₂ (R := fun a b => a.Perm b ∧ a.map timestamp = b.map timestamp) ascending fun key => ?_
  cases found : get (groupIntoSessionWindowsI64 display iteration messages gap groupBy) key with
  | some session =>
    right
    obtain ⟨⟨key', session'⟩, inside', rfl, related⟩ := exists_entry_of_perm iteration' nonneg perm (mem_of_get found)
    exact ⟨session', session, ascending'.get_of_mem inside', rfl, related⟩
  | none =>
    left
    refine ⟨?_, rfl⟩
    cases found' : get (groupIntoSessionWindowsI64 display iteration' messages' gap groupBy) key with
    | none => rfl
    | some session' =>
      obtain ⟨⟨key, session⟩, inside, rfl, -⟩ := exists_entry_of_perm iteration nonneg perm.symm (mem_of_get found')
      rw [ascending.get_of_mem inside] at found
      cases found

/-! ## Linked messages -/

/-- Two messages are in one window just when they are in one part of their group. -/
theorem together_iff (nonneg : 0 ≤ gap) {m n : MessageRow} (inside : m ∈ messages) :
    (∃ entry ∈ groupIntoSessionWindowsI64 display iteration messages gap groupBy, m ∈ entry.2 ∧ n ∈ entry.2) ↔
      ∃ session ∈ partsOf gap (groupOf display groupBy messages (extractGroupKey display m groupBy)), m ∈ session ∧ n ∈ session := by
  constructor
  · rintro ⟨entry, isEntry, inM, inN⟩
    obtain ⟨groupKey, -, session, isPart, rfl⟩ := (mem_sessionWindows nonneg).mp isEntry
    obtain rfl := (mem_groupOf.mp (mem_of_part isPart inM)).2
    exact ⟨session, isPart, inM, inN⟩
  · rintro ⟨session, isPart, inM, inN⟩
    exact ⟨_, (mem_sessionWindows nonneg).mpr ⟨_, mem_groupKeys.mpr ⟨m, inside, rfl⟩, session, isPart, rfl⟩, inM, inN⟩

theorem joined_eq {a b : MessageRow} (fitsA : Fits a.timestamp) (fitsB : Fits b.timestamp) (order : a.timestamp ≤ b.timestamp)
    (near : b.timestamp - a.timestamp < 2 ^ 63) : joined gap a b = decide (b.timestamp - a.timestamp ≤ gap) := by
  rw [joined, wrappingSub_of_le fitsB fitsA order, if_pos near]

/-- A difference that wraps does not cut. -/
theorem near_of_cut (nonneg : 0 ≤ gap) {a b : MessageRow} (fitsA : Fits a.timestamp) (fitsB : Fits b.timestamp)
    (cut : joined gap a b = false) : b.timestamp - a.timestamp < 2 ^ 63 := by
  by_contra far
  have wraps := wrappingSub_of_le fitsB fitsA (by omega)
  rw [if_neg far] at wraps
  have above := of_decide_eq_false cut
  obtain ⟨low, -⟩ := fitsA
  obtain ⟨-, high⟩ := fitsB
  unfold least at low
  omega

theorem partsOf_eq_sessions (fits : ∀ m ∈ groupMsgs, Fits m.timestamp)
    (near : (sorted timestamp groupMsgs).IsChain fun a b => b.timestamp - a.timestamp < 2 ^ 63) :
    partsOf gap groupMsgs = sessions timestamp gap (sorted timestamp groupMsgs) := by
  have order := (@pairwise_sorted MessageRow timestamp groupMsgs).isChain
  refine Parts.splitBy_congr ?_
  rw [isChain_iff_getElem] at near order ⊢
  intro i bound
  have inside (j : Nat) (inRange : j < (sorted timestamp groupMsgs).length) :
      Fits ((sorted timestamp groupMsgs)[j]).timestamp :=
    fits _ (mem_sorted.mp (getElem_mem inRange))
  exact joined_eq (inside i _) (inside (i + 1) _) (order i bound) (near i bound)

theorem linked_of_noLeap (nonneg : 0 ≤ gap) (fits : ∀ m ∈ messages, Fits m.timestamp) (near : NoLeap display groupBy messages)
    {m n : MessageRow} (inside : m ∈ messages) :
    (∃ entry ∈ groupIntoSessionWindowsI64 display iteration messages gap groupBy, m ∈ entry.2 ∧ n ∈ entry.2) ↔
      Linked timestamp gap (groupOf display groupBy messages (extractGroupKey display m groupBy)) m n := by
  rw [together_iff nonneg inside, partsOf_eq_sessions (fun k inK => fits k (mem_groupOf.mp inK).1) (near _)]
  exact together_iff_linked (mem_groupOf.mpr ⟨inside, rfl⟩)

/-- Messages that follow each other in the order of a group are not linked over more than the gap. -/
theorem near_of_linked {u v : List MessageRow} (isPart : session ∈ partsOf gap groupMsgs) {a b : MessageRow}
    (neighbours : session = u ++ a :: b :: v) (linked : Linked timestamp gap groupMsgs a b) :
    b.timestamp - a.timestamp ≤ max gap 0 := by
  obtain ⟨before, after, cut⟩ := append_of_mem isPart
  have order := @pairwise_sorted MessageRow timestamp groupMsgs
  have flat : sorted timestamp groupMsgs = (before.flatten ++ u) ++ a :: b :: (v ++ after.flatten) := by
    rw [← flatten_partsOf gap, cut, flatten_append, flatten_cons, neighbours]
    simp only [append_assoc, cons_append]
  rw [flat] at order
  obtain ⟨-, tail, across⟩ := List.pairwise_append.mp order
  obtain ⟨-, tail'⟩ := pairwise_cons.mp tail
  by_contra far
  have stretch (c : MessageRow) (inside : c ∈ groupMsgs) : c.timestamp ≤ a.timestamp ∨ a.timestamp + gap < c.timestamp := by
    rw [← @mem_sorted _ timestamp, flat] at inside
    obtain early | late := mem_append.mp inside
    · exact .inl (across c early a mem_cons_self)
    · obtain rfl | later := mem_cons.mp late
      · exact .inl le_rfl
      · right
        have behind : b.timestamp ≤ c.timestamp := by
          obtain rfl | last := mem_cons.mp later
          · exact le_rfl
          · exact (pairwise_cons.mp tail').1 c last
        omega
  have upto := linked.le stretch le_rfl
  omega

theorem noLeap_of_linked (nonneg : 0 ≤ gap) (small : gap < 2 ^ 63) (fits : ∀ m ∈ messages, Fits m.timestamp)
    (linked : ∀ m ∈ messages, ∀ n ∈ messages, extractGroupKey display m groupBy = extractGroupKey display n groupBy →
      (∃ entry ∈ groupIntoSessionWindowsI64 display iteration messages gap groupBy, m ∈ entry.2 ∧ n ∈ entry.2) →
        Linked timestamp gap (groupOf display groupBy messages (extractGroupKey display m groupBy)) m n) :
    NoLeap display groupBy messages := by
  intro groupKey
  apply Parts.isChain_of_parts (r := joined gap)
  · intro session isPart
    rw [isChain_iff_forall_rel_of_append_cons_cons]
    intro a b u v neighbours
    have inA : a ∈ session := neighbours ▸ mem_append_right u mem_cons_self
    have inB : b ∈ session := neighbours ▸ mem_append_right u (mem_cons_of_mem a mem_cons_self)
    obtain ⟨inMessages, rfl⟩ := mem_groupOf.mp (mem_of_part isPart inA)
    obtain ⟨inMessages', same⟩ := mem_groupOf.mp (mem_of_part isPart inB)
    have together := (@together_iff display iteration groupBy gap messages nonneg a b inMessages).mpr ⟨session, isPart, inA, inB⟩
    have near := near_of_linked isPart neighbours (linked a inMessages b inMessages' same.symm together)
    omega
  · intro a inA b inB cut
    have fitsA := fits a (mem_groupOf.mp (mem_sorted.mp inA)).1
    have fitsB := fits b (mem_groupOf.mp (mem_sorted.mp inB)).1
    exact near_of_cut nonneg fitsA fitsB cut

/-- **The session windows are the classes of linked messages just when no message of a group is
`2 ^ 63` or more behind the one before it.** -/
theorem sessions_exact_iff (display : Json → String) (iteration : HashOrder (Option String)) (groupBy : List String)
    {gap : Int} (nonneg : 0 ≤ gap) (small : gap < 2 ^ 63) {messages : List MessageRow} (fits : ∀ m ∈ messages, Fits m.timestamp) :
    SessionsExact display iteration groupBy gap messages ↔ NoLeap display groupBy messages := by
  constructor
  · intro exact
    exact noLeap_of_linked nonneg small fits fun m inM n inN same => (exact.linked m inM n inN same).mp
  · intro near
    exact {
      partition := sessionWindows_partition nonneg messages
      bounds := fun entry inside => sessionWindows_bounds nonneg inside
      linked := fun m inM n _ _ => linked_of_noLeap nonneg fits near inM
      reordered := fun iteration' messages' perm => sessionWindows_reordered nonneg iteration' perm }

end Display

namespace SessionExample

/-- A message at a time. -/
def message (timestamp : Int) : MessageRow := ⟨"t", 0, 0, none, ⟨"", none⟩, timestamp⟩

def plain (_ : Json) : String := ""

/-- Two messages of which the first is at `i64::MIN`. -/
def farApart : List MessageRow := [message least, message 0]

theorem noLeap_near : NoLeap plain [] [message 30, message 25] := by
  intro groupKey
  cases groupKey with
  | none => decide
  | some key => exact isChain_nil

theorem leap_farApart : ¬ NoLeap plain [] farApart := by
  intro near
  exact absurd (near none) (by decide)

theorem farApart_fits : ∀ m ∈ farApart, Fits m.timestamp := by decide

end SessionExample

open SessionExample

/-- Messages at 30 and 25 with a gap of 10. -/
theorem sessions_exact_of_two : SessionsExact plain (.listed _) [] 10 [message 30, message 25] :=
  (sessions_exact_iff plain (.listed _) [] (by decide) (by decide) (by decide)).mpr noLeap_near

/-- A message at `i64::MIN` and one at 0 are in one session although the gap is 0. -/
theorem far_messages_joined : ¬ SessionsExact plain (.listed _) [] 0 farApart := by
  intro exact
  apply leap_farApart
  exact noLeap_of_linked le_rfl (by decide) farApart_fits fun m inM n inN same => (exact.linked m inM n inN same).mp

end StreamHouse.Sql
