import StreamHouse.Core.I64
import StreamHouse.Lib.HashMaps
import StreamHouse.Lib.Parts
import StreamHouse.Sql.WindowSplit

/-!
# The sweep for sessions

`group_into_session_windows` with the arithmetic of `i64`: the messages of a group are swept in the
order of their timestamps, and a difference that is too large wraps. The sweep inserts the parts
that it cuts, and no two of them have one key.
-/

namespace StreamHouse.Sql

open Lib OrderedMap HashMaps I64 List MessageRow Sessions

/-- The variables of the loop over one group. -/
structure Sweep where
  sessionStart : Int
  sessionEnd : Int
  sessionMessages : List MessageRow
  windows : WindowGroups

namespace Sweep

def close (groupKey : Option String) (s : Sweep) : Sweep :=
  if s.sessionMessages = [] then s
  else { s with windows := insert (windowKey s.sessionStart s.sessionEnd groupKey) s.sessionMessages s.windows, sessionMessages := [] }

def step (gap : Int) (groupKey : Option String) (s : Sweep) (msg : MessageRow) : Sweep :=
  let s := if wrappingSub msg.timestamp s.sessionEnd > gap then { s.close groupKey with sessionStart := msg.timestamp } else s
  { s with sessionEnd := msg.timestamp, sessionMessages := s.sessionMessages ++ [msg] }

end Sweep

open Sweep

/-- The body of the loop over the groups. -/
def sweepGroup (gap : Int) (groupKey : Option String) (groupMsgs : List MessageRow) (windows : WindowGroups) : WindowGroups :=
  match sorted timestamp groupMsgs with
  | [] => windows
  | first :: rest =>
    let start : Sweep := ⟨first.timestamp, first.timestamp, [], windows⟩
    (((first :: rest).foldl (step gap groupKey) start).close groupKey).windows

/-- The messages of a group. -/
def groupOf (display : Json → String) (groupBy : List String) (messages : List MessageRow) (groupKey : Option String) : List MessageRow :=
  messages.filter fun msg => extractGroupKey display msg groupBy = groupKey

def groupIntoSessionWindowsI64 (display : Json → String) (iteration : HashOrder (Option String)) (messages : List MessageRow) (gap : Int)
    (groupBy : List String) : WindowGroups :=
  let keys := (messages.map fun msg => extractGroupKey display msg groupBy).dedup
  (iteration.order keys).foldl (fun windows groupKey => sweepGroup gap groupKey (groupOf display groupBy messages groupKey) windows) []

/-! ## The parts of the sweep -/

/-- A message is not cut off from the one before it. -/
def joined (gap : Int) (a b : MessageRow) : Bool := decide (wrappingSub b.timestamp a.timestamp ≤ gap)

/-- The parts of a group that the sweep makes. -/
def partsOf (gap : Int) (groupMsgs : List MessageRow) : List (List MessageRow) :=
  (sorted timestamp groupMsgs).splitBy (joined gap)

variable {gap : Int} {groupKey : Option String}

/-- The sweep within a part, after others. -/
def Sweep.within (groupKey : Option String) (windows : WindowGroups) (done : List (List MessageRow)) (last : List MessageRow) : Sweep where
  sessionStart := (last.head?.map timestamp).getD 0
  sessionEnd := (last.getLast?.map timestamp).getD 0
  sessionMessages := last
  windows := done.foldl (fun m session => insert (sessionKey groupKey session) session m) windows

theorem Sweep.close_within {windows : WindowGroups} {done : List (List MessageRow)} {last : List MessageRow} (some : last ≠ []) :
    (within groupKey windows done last).close groupKey =
      { within groupKey windows done last with
        sessionMessages := []
        windows := (done ++ [last]).foldl (fun m session => insert (sessionKey groupKey session) session m) windows } := by
  have closed : (within groupKey windows done last).close groupKey = _ := if_neg some
  rw [closed, foldl_append]
  rfl

theorem Sweep.step_of_cut {s : Sweep} {msg : MessageRow} (cut : wrappingSub msg.timestamp s.sessionEnd > gap) :
    step gap groupKey s msg =
      ⟨msg.timestamp, msg.timestamp, (s.close groupKey).sessionMessages ++ [msg], (s.close groupKey).windows⟩ := by
  unfold step
  rw [if_pos cut]

theorem Sweep.step_of_close {s : Sweep} {msg : MessageRow} (close : ¬ wrappingSub msg.timestamp s.sessionEnd > gap) :
    step gap groupKey s msg = ⟨s.sessionStart, msg.timestamp, s.sessionMessages ++ [msg], s.windows⟩ := by
  unfold step
  rw [if_neg close]

theorem Sweep.step_within {windows : WindowGroups} {done : List (List MessageRow)} {last : List MessageRow} (some : last ≠ [])
    (msg : MessageRow) :
    step gap groupKey (within groupKey windows done last) msg =
      if joined gap (last.getLast some) msg then within groupKey windows done (last ++ [msg])
      else within groupKey windows (done ++ [last]) [msg] := by
  have ends : (within groupKey windows done last).sessionEnd = (last.getLast some).timestamp := by
    rw [within, getLast?_eq_some_getLast some]
    rfl
  have starts : ((last ++ [msg]).head?.map timestamp).getD 0 = (last.head?.map timestamp).getD 0 := by
    rw [head?_append_of_ne_nil last some]
  have finishes : ((last ++ [msg]).getLast?.map timestamp).getD 0 = msg.timestamp := by
    rw [getLast?_append]
    rfl
  by_cases cut : wrappingSub msg.timestamp (within groupKey windows done last).sessionEnd > gap
  · rw [step_of_cut cut, close_within some, if_neg]
    · rfl
    · rw [joined, ← ends]
      simpa using cut
  · rw [step_of_close cut, if_pos]
    · unfold within
      rw [starts, finishes]
    · rw [joined, ← ends]
      simpa using cut

/-- After the messages up to one, the sweep is within the last of their parts. -/
theorem Sweep.foldl_step (gap : Int) (groupKey : Option String) (windows : WindowGroups) (first : MessageRow) (rest : List MessageRow) :
    ∃ done last, (first :: rest).splitBy (joined gap) = done ++ [last] ∧
      (first :: rest).foldl (step gap groupKey) ⟨first.timestamp, first.timestamp, [], windows⟩ =
        within groupKey windows done last := by
  induction rest using reverseRecOn with
  | nil =>
    refine ⟨[], [first], rfl, ?_⟩
    rw [foldl_cons, foldl_nil, step]
    split_ifs <;> rfl
  | append_singleton rest msg ih =>
    obtain ⟨done, last, parts, swept⟩ := ih
    have some : last ≠ [] := ne_nil_of_mem_splitBy (parts ▸ mem_append_right _ mem_cons_self)
    rw [← cons_append, foldl_append, swept, foldl_cons, foldl_nil, step_within some]
    obtain ⟨done', last', parts', ends⟩ := Parts.exists_last_part (r := joined gap) (cons_ne_nil first rest)
    obtain ⟨rfl, same⟩ := append_inj' (parts.symm.trans parts') rfl
    obtain rfl := head_eq_of_cons_eq same
    split_ifs with close
    · refine ⟨done, last ++ [msg], Parts.splitBy_snoc parts ?_, rfl⟩
      intro b isLast
      rw [getLast?_eq_some_getLast some] at isLast
      rw [← Option.some.inj isLast]
      exact close
    · refine ⟨done ++ [last], [msg], ?_, rfl⟩
      rw [splitBy_append_cons, parts]
      · rfl
      · intro b isLast
        rw [← ends, getLast?_eq_some_getLast some] at isLast
        rw [← Option.some.inj isLast]
        exact Bool.not_eq_true _ ▸ close

/-- **The sweep of a group inserts its parts.** -/
theorem sweepGroup_eq (groupMsgs : List MessageRow) (windows : WindowGroups) :
    sweepGroup gap groupKey groupMsgs windows =
      (partsOf gap groupMsgs).foldl (fun m session => insert (sessionKey groupKey session) session m) windows := by
  unfold sweepGroup partsOf
  cases sorted timestamp groupMsgs with
  | nil => rfl
  | cons first rest =>
    obtain ⟨done, last, parts, swept⟩ := foldl_step gap groupKey windows first rest
    have some : last ≠ [] := ne_nil_of_mem_splitBy (parts ▸ mem_append_right _ mem_cons_self)
    rw [parts]
    dsimp only
    rw [swept, close_within some]

/-! ## The map -/

variable (display : Json → String) (iteration : HashOrder (Option String)) (groupBy : List String)

/-- The keys of the groups, each once. -/
def groupKeys (messages : List MessageRow) : List (Option String) := (messages.map fun msg => extractGroupKey display msg groupBy).dedup

/-- The parts of all groups with their keys. -/
def sessionEntries (gap : Int) (messages : List MessageRow) : List (WindowKey × List MessageRow) :=
  (iteration.order (groupKeys display groupBy messages)).flatMap fun groupKey =>
    (partsOf gap (groupOf display groupBy messages groupKey)).map fun session => (sessionKey groupKey session, session)

theorem groupIntoSessionWindowsI64_eq (gap : Int) (messages : List MessageRow) :
    groupIntoSessionWindowsI64 display iteration messages gap groupBy =
      (sessionEntries display iteration groupBy gap messages).foldl (fun m entry => insert entry.1 entry.2 m) [] := by
  unfold groupIntoSessionWindowsI64 sessionEntries groupKeys
  dsimp only
  rw [foldl_flatMap]
  congr 1
  funext windows groupKey
  rw [sweepGroup_eq, foldl_map]

variable {display iteration groupBy} {messages : List MessageRow}

theorem mem_groupKeys {groupKey : Option String} :
    groupKey ∈ groupKeys display groupBy messages ↔ ∃ m ∈ messages, extractGroupKey display m groupBy = groupKey := by
  rw [groupKeys, mem_dedup, mem_map]

theorem mem_sessionEntries {entry : WindowKey × List MessageRow} :
    entry ∈ sessionEntries display iteration groupBy gap messages ↔ ∃ groupKey ∈ groupKeys display groupBy messages,
      ∃ session ∈ partsOf gap (groupOf display groupBy messages groupKey), entry = (sessionKey groupKey session, session) := by
  rw [sessionEntries, mem_flatMap]
  constructor
  · rintro ⟨groupKey, isKey, inside⟩
    obtain ⟨session, isPart, rfl⟩ := mem_map.mp inside
    exact ⟨groupKey, HashOrder.mem.mp isKey, session, isPart, rfl⟩
  · rintro ⟨groupKey, isKey, session, isPart, rfl⟩
    exact ⟨groupKey, HashOrder.mem.mpr isKey, mem_map_of_mem isPart⟩

theorem flatten_partsOf (gap : Int) (groupMsgs : List MessageRow) :
    (partsOf gap groupMsgs).flatten = sorted timestamp groupMsgs := flatten_splitBy _ _

variable {groupMsgs session : List MessageRow}

theorem mem_of_part (isPart : session ∈ partsOf gap groupMsgs) {m : MessageRow} (inside : m ∈ session) : m ∈ groupMsgs := by
  rw [← @mem_sorted _ timestamp, ← flatten_partsOf gap]
  exact mem_flatten.mpr ⟨session, isPart, inside⟩

theorem pairwise_part (isPart : session ∈ partsOf gap groupMsgs) :
    session.Pairwise fun a b => a.timestamp ≤ b.timestamp := by
  have order := @pairwise_sorted MessageRow timestamp groupMsgs
  rw [← flatten_partsOf gap] at order
  exact (pairwise_flatten.mp order).1 session isPart

theorem part_ne_nil (isPart : session ∈ partsOf gap groupMsgs) : session ≠ [] :=
  ne_nil_of_mem_splitBy isPart

/-- Where a message is cut off, it is later than the one before. -/
theorem lt_of_cut (nonneg : 0 ≤ gap) {a b : MessageRow} (order : a.timestamp ≤ b.timestamp) (cut : joined gap a b = false) :
    a.timestamp < b.timestamp := by
  rcases order.lt_or_eq with less | same
  · exact less
  · have zero : wrappingSub b.timestamp a.timestamp = 0 := by
      rw [wrappingSub, same, sub_self]
      rfl
    have far := of_decide_eq_false cut
    omega

/-- The parts of a group have no timestamp in common. -/
theorem parts_apart (nonneg : 0 ≤ gap) (groupMsgs : List MessageRow) :
    (partsOf gap groupMsgs).Pairwise fun s t => ∀ a ∈ s, ∀ b ∈ t, a.timestamp < b.timestamp := by
  have order := @pairwise_sorted MessageRow timestamp groupMsgs
  have cuts := isChain_getLast_head_splitBy (joined gap) (sorted timestamp groupMsgs)
  have ordered := order
  rw [← flatten_partsOf gap] at ordered
  have across := (pairwise_flatten.mp ordered).2.isChain
  have later : (partsOf gap groupMsgs).IsChain fun s t =>
      ∃ ha hb, (decide ((t.head hb).timestamp - (s.getLast ha).timestamp ≤ 0)) = false := by
    rw [isChain_iff_getElem] at cuts across ⊢
    intro i bound
    obtain ⟨hs, ht, cut⟩ := cuts i bound
    have less := lt_of_cut nonneg (across i bound _ (getLast_mem hs) _ (head_mem ht)) cut
    exact ⟨hs, ht, decide_eq_false fun upto => less.not_ge (sub_nonpos.mp upto)⟩
  refine (pairwise_apart (nil_notMem_splitBy _ _) ordered later).imp fun far a inA b inB => ?_
  have := far a inA b inB
  omega

theorem head?_part (some : session ≠ []) (groupKey : Option String) :
    sessionKey groupKey session = windowKey (session.head some).timestamp (session.getLast some).timestamp groupKey := by
  rw [sessionKey, head?_eq_some_head some, getLast?_eq_some_getLast some]
  rfl

/-- No two parts have one key. -/
theorem sessionEntries_nodup (nonneg : 0 ≤ gap) (messages : List MessageRow) :
    ((sessionEntries display iteration groupBy gap messages).map Prod.fst).Nodup := by
  rw [sessionEntries, map_flatMap, nodup_flatMap]
  constructor
  · intro groupKey _
    rw [map_map]
    refine List.Pairwise.map _ (fun s t differ => differ) ((parts_apart nonneg _).imp_of_mem fun {s t} inS inT less same => ?_)
    have someS := part_ne_nil inS
    have someT := part_ne_nil inT
    rw [Function.comp_apply, Function.comp_apply, head?_part someS, head?_part someT] at same
    exact (less _ (head_mem someS) _ (head_mem someT)).ne (windowKey_inj.mp same).1
  · refine (HashOrder.nodup (nodup_dedup _)).imp fun {k k'} differ => ?_
    refine disjoint_left.mpr fun key inside inside' => ?_
    obtain ⟨entry, placed, rfl⟩ := mem_map.mp inside
    obtain ⟨entry', placed', same⟩ := mem_map.mp inside'
    obtain ⟨s, -, rfl⟩ := mem_map.mp placed
    obtain ⟨t, -, rfl⟩ := mem_map.mp placed'
    exact differ (windowKey_inj.mp same).2.2.symm

/-- **The map has every part of every group, and nothing else.** -/
theorem sessionWindows_perm (nonneg : 0 ≤ gap) (messages : List MessageRow) :
    (groupIntoSessionWindowsI64 display iteration messages gap groupBy).Perm (sessionEntries display iteration groupBy gap messages) := by
  rw [groupIntoSessionWindowsI64_eq]
  exact inserts_perm (sessionEntries_nodup nonneg messages)

theorem mem_sessionWindows (nonneg : 0 ≤ gap) {entry : WindowKey × List MessageRow} :
    entry ∈ groupIntoSessionWindowsI64 display iteration messages gap groupBy ↔ ∃ groupKey ∈ groupKeys display groupBy messages,
      ∃ session ∈ partsOf gap (groupOf display groupBy messages groupKey), entry = (sessionKey groupKey session, session) := by
  rw [(sessionWindows_perm nonneg messages).mem_iff, mem_sessionEntries]

end StreamHouse.Sql
