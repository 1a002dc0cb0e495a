import StreamHouse.Lib.Multiples
import StreamHouse.Sql.Windows
import Mathlib.Data.List.MinMax

/-!
# Windows of two parts of the messages

When no window has messages of both parts, the windows of all messages are those of the parts.
-/

namespace StreamHouse.Sql

open Lib OrderedMap Option MessageRow Sessions Multiples

/-- A list of which one part is empty is the other part. -/
theorem filter_eq_or {α : Type*} {p : α → Bool} {l : List α} (pure : ∀ a ∈ l, ∀ b ∈ l, p a = p b) :
    (l.filter p = l ∧ l.filter (fun a => !p a) = []) ∨ (l.filter p = [] ∧ l.filter (fun a => !p a) = l) := by
  cases l with
  | nil => exact .inl ⟨rfl, rfl⟩
  | cons a l =>
    cases first : p a with
    | true =>
      have all (b : α) (inside : b ∈ a :: l) : p b = true := (pure b inside a List.mem_cons_self).trans first
      exact .inl ⟨List.filter_eq_self.mpr all, List.filter_eq_nil_iff.mpr fun b inside => by simp [all b inside]⟩
    | false =>
      have all (b : α) (inside : b ∈ a :: l) : p b = false := (pure b inside a List.mem_cons_self).trans first
      exact .inr ⟨List.filter_eq_nil_iff.mpr fun b inside => by simp [all b inside], List.filter_eq_self.mpr fun b inside => by simp [all b inside]⟩

/-- Of lists for distinct indices, all empty but one, that one is left. -/
theorem flatMap_of_nodup {ι β : Type*} [DecidableEq ι] {l : List ι} (nodup : l.Nodup) {f : ι → List β} {i : ι}
    (others : ∀ j, j ≠ i → f j = []) : l.flatMap f = if i ∈ l then f i else [] := by
  induction l with
  | nil => rfl
  | cons j l ih =>
    obtain ⟨new, rest⟩ := List.nodup_cons.mp nodup
    rw [List.flatMap_cons, ih rest]
    by_cases here : j = i
    · subst here
      rw [if_neg new, if_pos List.mem_cons_self, List.append_nil]
    · rw [others j here, List.nil_append]
      simp only [List.mem_cons, Ne.symm here, false_or]

theorem windowKey_inj {windowStart windowEnd windowStart' windowEnd' : Int} {groupKey groupKey' : Option String} :
    windowKey windowStart windowEnd groupKey = windowKey windowStart' windowEnd' groupKey' ↔
      windowStart = windowStart' ∧ windowEnd = windowEnd' ∧ groupKey = groupKey' := by
  change (windowStart, windowEnd, groupKey) = (windowStart', windowEnd', groupKey') ↔ _
  rw [Prod.mk.injEq, Prod.mk.injEq]

variable (display : Json → String)

/-! ## What is in a window -/

variable {messages : List MessageRow} {groupBy : List String}

theorem get_tumble {size : Int} {groups : WindowGroups}
    (grouped : groupIntoTumbleWindows display messages size groupBy = some groups) (key : WindowKey) :
    get groups key = listed (messages.filter fun msg => tumbleKey display size groupBy msg = key) := by
  unfold groupIntoTumbleWindows at grouped
  split_ifs at grouped with undefined
  rw [← some.inj grouped, get_pushes_of]

theorem hopStarts_eq (slide : Int) (messages : List MessageRow) :
    hopStarts slide messages = multiples slide (hopFirst slide messages) (maxTimestamp messages) := rfl

theorem mem_hopStarts {slide : Int} (positive : 0 < slide) {windowStart : Int} :
    windowStart ∈ hopStarts slide messages ↔
      hopFirst slide messages ≤ windowStart ∧ windowStart ≤ maxTimestamp messages ∧ slide ∣ windowStart := by
  rw [hopStarts_eq]
  exact mem_multiples positive (dvd_truncated slide _)

theorem nodup_hopStarts {slide : Int} (positive : 0 < slide) (messages : List MessageRow) : (hopStarts slide messages).Nodup := by
  rw [hopStarts_eq]
  exact nodup_multiples positive

theorem get_hop {size slide : Int} (positive : 0 < slide)
    {groups : WindowGroups} (grouped : groupIntoHopWindows display messages size slide groupBy = some groups)
    (windowStart windowEnd : Int) (groupKey : Option String) :
    get groups (windowKey windowStart windowEnd groupKey) =
      if windowStart ∈ hopStarts slide messages ∧ windowEnd = windowStart + size then
        listed ((messages.filter (inWindow windowStart size)).filter fun msg => extractGroupKey display msg groupBy = groupKey)
      else none := by
  unfold groupIntoHopWindows at grouped
  split_ifs at grouped with empty
  · rw [← some.inj grouped, empty]
    split_ifs <;> rfl
  · rw [← some.inj grouped, get_pushes, List.filter_flatMap, List.map_flatMap]
    have part (start : Int) : (((messages.filter (inWindow start size)).map fun msg =>
        (windowKey start (start + size) (extractGroupKey display msg groupBy), msg)).filter fun entry =>
          decide (entry.1 = windowKey windowStart windowEnd groupKey)).map Prod.snd =
        (messages.filter (inWindow start size)).filter fun msg =>
          decide (start = windowStart ∧ start + size = windowEnd ∧ extractGroupKey display msg groupBy = groupKey) := by
      rw [List.filter_map, List.map_map]
      simp only [Function.comp_def, windowKey_inj]
      exact List.map_id _
    simp only [part]
    rw [flatMap_of_nodup (i := windowStart) (nodup_hopStarts positive messages)
      (fun start other => List.filter_eq_nil_iff.mpr fun msg _ => by simp [other])]
    by_cases made : windowStart ∈ hopStarts slide messages
    · by_cases ends : windowEnd = windowStart + size
      · rw [if_pos made, if_pos ⟨made, ends⟩]
        simp only [true_and, ends]
      · rw [if_pos made, if_neg (fun both => ends both.2), List.filter_eq_nil_iff.mpr (fun msg _ => by simp [Ne.symm ends])]
        rfl
    · rw [if_neg made, if_neg (fun both => made both.1)]
      rfl

theorem get_session (messages : List MessageRow) (gap : Int) (groupBy : List String) (windowStart windowEnd : Int)
    (groupKey : Option String) :
    get (groupIntoSessionWindows display messages gap groupBy) (windowKey windowStart windowEnd groupKey) =
      ((groupSessions display messages gap groupBy groupKey).filter fun entry =>
        entry.1 = windowKey windowStart windowEnd groupKey).getLast?.map Prod.snd := by
  unfold groupIntoSessionWindows
  dsimp only
  rw [get_inserts, List.filter_flatMap, flatMap_of_nodup (i := groupKey) (List.nodup_dedup _) (fun other ne => ?_)]
  · split_ifs with present
    · rfl
    · have absent : (messages.filter fun msg => extractGroupKey display msg groupBy = groupKey) = [] := by
        apply List.filter_eq_nil_iff.mpr
        intro msg inside here
        exact present (List.mem_dedup.mpr (List.mem_map.mpr ⟨msg, inside, of_decide_eq_true here⟩))
      unfold groupSessions
      rw [absent]
      rfl
  · apply List.filter_eq_nil_iff.mpr
    intro entry inside
    obtain ⟨session, -, rfl⟩ := List.mem_map.mp inside
    simp [sessionKey, windowKey_inj, ne]

/-! ## The windows of two parts -/

/-- No window has messages of both parts, and each part by itself has the windows that all
messages give it. A window that hops has to start where the part's own loop begins or later, and
sessions of the parts have to be more than the gap from each other. -/
def Apart (window : WindowType) (groupBy : List String) (messages : List MessageRow) (isNew : MessageRow → Bool) : Prop :=
  match window with
  | .tumble size => ∀ m ∈ messages, ∀ n ∈ messages, isNew m = false → isNew n = true →
      tumbleKey display size groupBy m ≠ tumbleKey display size groupBy n
  | .hop size slide => (∀ m ∈ messages, ∀ n ∈ messages, isNew m = isNew n) ∨
      (0 < slide ∧ ∀ windowStart ∈ hopStarts slide messages,
        (∀ m ∈ messages, inWindow windowStart size m = true →
          hopFirst slide (messages.filter fun n => isNew n = isNew m) ≤ windowStart) ∧
        ∀ m ∈ messages, ∀ n ∈ messages, isNew m = false → isNew n = true → inWindow windowStart size m = true →
          inWindow windowStart size n = true → extractGroupKey display m groupBy ≠ extractGroupKey display n groupBy)
  | .session gap => ∀ m ∈ messages, ∀ n ∈ messages, isNew m = false → isNew n = true →
      extractGroupKey display m groupBy = extractGroupKey display n groupBy → max gap 0 < |m.timestamp - n.timestamp|

theorem groupIntoWindows_nil (window : WindowType) (groupBy : List String) :
    groupIntoWindows display window [] groupBy = some [] := by
  cases window with
  | tumble size => exact if_neg fun undefined => undefined.2 rfl
  | hop size slide => rfl
  | session gap => rfl

/-- The items of a window are all old or all new. -/
theorem listed_or {α : Type*} {isNew : α → Bool} {l : List α} (pure : ∀ a ∈ l, ∀ b ∈ l, isNew a = isNew b) :
    listed l = (listed (l.filter isNew)).or (listed (l.filter fun a => !isNew a)) := by
  obtain ⟨new, old⟩ | ⟨new, old⟩ := filter_eq_or pure
  · rw [new, old]
    cases l with
    | nil => rfl
    | cons a l => rfl
  · rw [new, old]
    rfl

variable {display}

/-- Two messages of a window, one old and one new, are excluded. -/
theorem pure_of_apart {α : Type*} {isNew : α → Bool} {l : List α} (apart : ∀ a ∈ l, ∀ b ∈ l, isNew a = false → isNew b = true → False) :
    ∀ a ∈ l, ∀ b ∈ l, isNew a = isNew b := by
  intro a inA b inB
  cases first : isNew a with
  | false =>
    cases second : isNew b with
    | false => rfl
    | true => exact (apart a inA b inB first second).elim
  | true =>
    cases second : isNew b with
    | false => exact (apart b inB a inA second first).elim
    | true => rfl

variable {isNew : MessageRow → Bool}

theorem split_tumble {size : Int}
    {new old : WindowGroups} (apart : Apart display (.tumble size) groupBy messages isNew)
    (newGroups : groupIntoTumbleWindows display (messages.filter isNew) size groupBy = some new)
    (oldGroups : groupIntoTumbleWindows display (messages.filter fun m => !isNew m) size groupBy = some old) :
    ∃ groups, groupIntoTumbleWindows display messages size groupBy = some groups ∧
      ∀ key, get groups key = (get new key).or (get old key) := by
  have defined : ¬ (size = 0 ∧ messages ≠ []) := by
    rintro ⟨zero, some⟩
    have one : messages.filter isNew ≠ [] ∨ (messages.filter fun m => !isNew m) ≠ [] := by
      obtain ⟨m, inside⟩ := List.exists_mem_of_ne_nil messages some
      cases side : isNew m with
      | true => exact .inl (List.ne_nil_of_mem (List.mem_filter.mpr ⟨inside, side⟩))
      | false => exact .inr (List.ne_nil_of_mem (List.mem_filter.mpr ⟨inside, by simp [side]⟩))
    obtain inNew | inOld := one
    · rw [groupIntoTumbleWindows, if_pos ⟨zero, inNew⟩] at newGroups
      cases newGroups
    · rw [groupIntoTumbleWindows, if_pos ⟨zero, inOld⟩] at oldGroups
      cases oldGroups
  refine ⟨_, if_neg defined, fun key => ?_⟩
  rw [get_tumble display (if_neg defined) key, get_tumble display newGroups key, get_tumble display oldGroups key,
    List.filter_comm, List.filter_comm _ (fun m => !isNew m)]
  apply listed_or
  apply pure_of_apart
  intro m inM n inN isOld isNew
  have keyM : tumbleKey display size groupBy m = key := by simpa using List.of_mem_filter inM
  have keyN : tumbleKey display size groupBy n = key := by simpa using List.of_mem_filter inN
  exact apart m (List.mem_of_mem_filter inM) n (List.mem_of_mem_filter inN) isOld isNew (keyM.trans keyN.symm)

theorem hopFirst_le {slide : Int} (positive : 0 < slide) {messages part : List MessageRow} (sub : part ⊆ messages) (some : part ≠ []) :
    hopFirst slide messages ≤ hopFirst slide part := by
  have nonempty : part.map timestamp ≠ [] := by simpa using some
  have nonempty' : messages.map timestamp ≠ [] := by
    obtain ⟨m, inside⟩ := List.exists_mem_of_ne_nil part some
    exact List.ne_nil_of_mem (List.mem_map.mpr ⟨m, sub inside, rfl⟩)
  have least : (messages.map timestamp).min?.getD 0 ≤ (part.map timestamp).min?.getD 0 := by
    cases lowPart : (part.map timestamp).min? with
    | none => exact absurd (List.min?_eq_none_iff.mp lowPart) nonempty
    | some low =>
      cases lowAll : (messages.map timestamp).min? with
      | none => exact absurd (List.min?_eq_none_iff.mp lowAll) nonempty'
      | some lowest =>
        obtain ⟨m, inPart, rfl⟩ := List.mem_map.mp (List.min?_mem lowPart)
        exact (List.le_min?_iff lowAll).mp le_rfl _ (List.mem_map.mpr ⟨m, sub inPart, rfl⟩)
  exact Int.mul_le_mul_of_nonneg_right (Int.tdiv_le_tdiv positive least) positive.le

theorem le_maxTimestamp {m : MessageRow} (inside : m ∈ messages) : m.timestamp ≤ maxTimestamp messages := by
  have listed : m.timestamp ∈ messages.map timestamp := List.mem_map.mpr ⟨m, inside, rfl⟩
  unfold maxTimestamp
  cases high : (messages.map timestamp).max? with
  | none =>
    rw [List.max?_eq_none_iff.mp high] at listed
    cases listed
  | some highest => exact (List.max?_le_iff high).mp le_rfl _ listed

theorem maxTimestamp_mem (some : messages ≠ []) : ∃ m ∈ messages, m.timestamp = maxTimestamp messages := by
  unfold maxTimestamp
  cases high : (messages.map timestamp).max? with
  | none => exact absurd (List.map_eq_nil_iff.mp (List.max?_eq_none_iff.mp high)) some
  | some highest => exact List.mem_map.mp (List.max?_mem high)

theorem hopStarts_subset {slide : Int} (positive : 0 < slide) {messages part : List MessageRow} (sub : part ⊆ messages) (some : part ≠ [])
    {windowStart : Int} (made : windowStart ∈ hopStarts slide part) : windowStart ∈ hopStarts slide messages := by
  obtain ⟨low, high, divides⟩ := (mem_hopStarts positive).mp made
  obtain ⟨m, inPart, top⟩ := maxTimestamp_mem some
  have first := hopFirst_le positive sub some
  have last := le_maxTimestamp (sub inPart)
  exact (mem_hopStarts positive).mpr ⟨by omega, by omega, divides⟩

/-- A part has its messages in every window of all, if its own windows begin early enough. -/
theorem get_hop_part {q : MessageRow → Bool} {size slide : Int} (positive : 0 < slide)
    {groups : WindowGroups} (grouped : groupIntoHopWindows display (messages.filter q) size slide groupBy = some groups)
    {windowStart windowEnd : Int} {groupKey : Option String}
    (begins : windowStart ∈ hopStarts slide messages → ∀ m ∈ messages, q m = true → inWindow windowStart size m = true →
      hopFirst slide (messages.filter q) ≤ windowStart) :
    get groups (windowKey windowStart windowEnd groupKey) =
      if windowStart ∈ hopStarts slide messages ∧ windowEnd = windowStart + size then
        listed (((messages.filter (inWindow windowStart size)).filter fun msg => extractGroupKey display msg groupBy = groupKey).filter q)
      else none := by
  rw [get_hop display positive grouped, List.filter_comm _ q, List.filter_comm _ q]
  by_cases ends : windowEnd = windowStart + size
  · simp only [ends, and_true]
    -- an item in the window makes the window
    by_cases empty : (((messages.filter (inWindow windowStart size)).filter fun msg =>
        extractGroupKey display msg groupBy = groupKey).filter q) = []
    · rw [empty]
      split_ifs <;> rfl
    · obtain ⟨m, inside⟩ := List.exists_mem_of_ne_nil _ empty
      simp only [List.mem_filter] at inside
      obtain ⟨⟨⟨inMessages, within⟩, -⟩, chosen⟩ := inside
      have inPart : m ∈ messages.filter q := List.mem_filter.mpr ⟨inMessages, chosen⟩
      have same : windowStart ∈ hopStarts slide (messages.filter q) ↔ windowStart ∈ hopStarts slide messages := by
        constructor
        · exact hopStarts_subset positive (fun n inQ => List.mem_of_mem_filter inQ) (List.ne_nil_of_mem inPart)
        · intro made
          have low := begins made m inMessages chosen within
          have high := le_maxTimestamp inPart
          simp only [inWindow, Bool.and_eq_true, decide_eq_true_eq] at within
          exact (mem_hopStarts positive).mpr ⟨low, by omega, ((mem_hopStarts positive).mp made).2.2⟩
      simp only [same]
  · rw [if_neg fun both => ends both.2, if_neg fun both => ends both.2]

theorem filter_isNew {m : MessageRow} (new : isNew m = true) :
    (messages.filter fun n => isNew n = isNew m) = messages.filter isNew := by
  rw [new]
  exact List.filter_congr fun n _ => by cases isNew n <;> rfl

theorem filter_isOld {m : MessageRow} (old : isNew m = false) :
    (messages.filter fun n => isNew n = isNew m) = messages.filter fun n => !isNew n := by
  rw [old]
  exact List.filter_congr fun n _ => by cases isNew n <;> rfl

/-- One part that is empty does not count. -/
theorem split_pure (window : WindowType) {new old : WindowGroups}
    (pure : ∀ m ∈ messages, ∀ n ∈ messages, isNew m = isNew n)
    (newGroups : groupIntoWindows display window (messages.filter isNew) groupBy = some new)
    (oldGroups : groupIntoWindows display window (messages.filter fun m => !isNew m) groupBy = some old) :
    ∃ groups, groupIntoWindows display window messages groupBy = some groups ∧
      ∀ key, get groups key = (get new key).or (get old key) := by
  obtain ⟨allNew, noOld⟩ | ⟨noNew, allOld⟩ := filter_eq_or pure
  · rw [allNew] at newGroups
    rw [noOld, groupIntoWindows_nil] at oldGroups
    refine ⟨new, newGroups, fun key => ?_⟩
    rw [← some.inj oldGroups, get_nil, or_none]
  · rw [allOld] at oldGroups
    rw [noNew, groupIntoWindows_nil] at newGroups
    refine ⟨old, oldGroups, fun key => ?_⟩
    rw [← some.inj newGroups, get_nil, none_or]

theorem exists_windowKey (key : WindowKey) : ∃ windowStart windowEnd groupKey, key = windowKey windowStart windowEnd groupKey :=
  ⟨(ofLex key).1, (ofLex (ofLex key).2).1, (ofLex (ofLex key).2).2, rfl⟩

theorem split_hop {size slide : Int}
    {new old : WindowGroups} (apart : Apart display (.hop size slide) groupBy messages isNew)
    (newGroups : groupIntoHopWindows display (messages.filter isNew) size slide groupBy = some new)
    (oldGroups : groupIntoHopWindows display (messages.filter fun m => !isNew m) size slide groupBy = some old) :
    ∃ groups, groupIntoHopWindows display messages size slide groupBy = some groups ∧
      ∀ key, get groups key = (get new key).or (get old key) := by
  obtain pure | ⟨positive, windows⟩ := apart
  · exact split_pure (.hop size slide) pure newGroups oldGroups
  have defined : ∃ groups, groupIntoHopWindows display messages size slide groupBy = some groups := by
    by_cases empty : messages = []
    · exact ⟨_, if_pos empty⟩
    · unfold groupIntoHopWindows
      rw [if_neg empty, if_neg positive.ne', if_neg fun both => both.1.not_gt positive]
      exact ⟨_, rfl⟩
  obtain ⟨groups, grouped⟩ := defined
  refine ⟨groups, grouped, fun key => ?_⟩
  obtain ⟨windowStart, windowEnd, groupKey, rfl⟩ := exists_windowKey key
  have beginsNew : windowStart ∈ hopStarts slide messages → ∀ m ∈ messages, isNew m = true → inWindow windowStart size m = true →
      hopFirst slide (messages.filter isNew) ≤ windowStart := by
    intro made m inside isNewM within
    rw [← filter_isNew isNewM]
    exact (windows windowStart made).1 m inside within
  have beginsOld : windowStart ∈ hopStarts slide messages → ∀ m ∈ messages, (!isNew m) = true → inWindow windowStart size m = true →
      hopFirst slide (messages.filter fun m => !isNew m) ≤ windowStart := by
    intro made m inside isOldM within
    rw [← filter_isOld (Bool.not_eq_true' _ ▸ isOldM)]
    exact (windows windowStart made).1 m inside within
  rw [get_hop display positive grouped, get_hop_part positive newGroups beginsNew, get_hop_part positive oldGroups beginsOld]
  split_ifs with here
  · apply listed_or
    apply pure_of_apart
    intro m inM n inN isOldM isNewN
    simp only [List.mem_filter, decide_eq_true_eq] at inM inN
    exact (windows windowStart here.1).2 m inM.1.1 n inN.1.1 isOldM isNewN inM.1.2 inN.1.2 (inM.2.trans inN.2.symm)
  · rfl

/-! ### Sessions -/

theorem ne_nil_of_session {messages session : List MessageRow} {gap : Int}
    (isSession : session ∈ sessions timestamp gap messages) : session ≠ [] := by
  rintro rfl
  exact List.nil_notMem_splitBy _ _ isSession

theorem mem_group {groupKey : Option String} {m : MessageRow}
    (inGroup : m ∈ sorted timestamp (messages.filter fun msg => extractGroupKey display msg groupBy = groupKey)) :
    m ∈ messages ∧ extractGroupKey display m groupBy = groupKey := by
  have listed := List.mem_filter.mp (mem_sorted.mp inGroup)
  exact ⟨listed.1, of_decide_eq_true listed.2⟩

/-- The sessions of a part are those of all messages that the part has. -/
theorem groupSessions_filter {gap : Int} {groupKey : Option String}
    {q : MessageRow → Bool}
    (apart : ∀ m ∈ messages, ∀ n ∈ messages, q m = true → q n = false →
      extractGroupKey display m groupBy = extractGroupKey display n groupBy → gap < |m.timestamp - n.timestamp|) :
    groupSessions display (messages.filter q) gap groupBy groupKey =
      (groupSessions display messages gap groupBy groupKey).filter fun entry => entry.2.all q := by
  unfold groupSessions
  dsimp only
  rw [List.filter_comm _ q, ← filter_sorted, sessions_filter (pairwise_sorted _), List.filter_map]
  · rfl
  · intro m inM n inN chosen other
    exact apart m (mem_group inM).1 n (mem_group inN).1 chosen other ((mem_group inM).2.trans (mem_group inN).2.symm)

/-- What is known of the sessions of one group: their messages are of the group, and all old or
all new. -/
theorem session_spec {gap : Int} {groupKey : Option String}
    (far : ∀ m ∈ messages, ∀ n ∈ messages, isNew m = true → isNew n = false →
      extractGroupKey display m groupBy = extractGroupKey display n groupBy → max gap 0 < |m.timestamp - n.timestamp|)
    {entry : WindowKey × List MessageRow} (inside : entry ∈ groupSessions display messages gap groupBy groupKey) :
    ∃ first, entry.2.head? = some first ∧ first ∈ messages ∧ extractGroupKey display first groupBy = groupKey ∧
      entry.1 = sessionKey groupKey entry.2 ∧ entry.2.all isNew = isNew first ∧ entry.2.all (fun m => !isNew m) = !isNew first := by
  obtain ⟨session, isSession, rfl⟩ := List.mem_map.mp inside
  have order := @pairwise_sorted MessageRow timestamp
    (messages.filter fun msg => extractGroupKey display msg groupBy = groupKey)
  have inSorted (k : MessageRow) (inK : k ∈ session) : k ∈ sorted timestamp
      (messages.filter fun msg => extractGroupKey display msg groupBy = groupKey) := by
    rw [← List.flatten_splitBy (fun a b : MessageRow => decide (b.timestamp - a.timestamp ≤ gap)) (sorted _ _)]
    exact List.mem_flatten.mpr ⟨session, isSession, inK⟩
  have pure := whole_session order (fun m inM n inN new old => (le_max_left gap 0).trans_lt
    (far m (mem_group inM).1 n (mem_group inN).1 new old ((mem_group inM).2.trans (mem_group inN).2.symm))) isSession
  cases session with
  | nil => exact absurd rfl (ne_nil_of_session isSession)
  | cons first rest =>
    have group := mem_group (inSorted first List.mem_cons_self)
    refine ⟨first, rfl, group.1, group.2, rfl, ?_, ?_⟩
    · cases side : isNew first with
      | true => exact List.all_eq_true.mpr fun m inM => (pure m inM first List.mem_cons_self).trans side
      | false => rw [List.all_cons, side, Bool.false_and]
    · cases side : isNew first with
      | true => rw [List.all_cons, side, Bool.not_true, Bool.false_and]
      | false =>
        refine List.all_eq_true.mpr fun m inM => ?_
        rw [(pure m inM first List.mem_cons_self).trans side]
        rfl

theorem split_session {gap : Int}
    (apart : Apart display (.session gap) groupBy messages isNew) (key : WindowKey) :
    get (groupIntoSessionWindows display messages gap groupBy) key =
      (get (groupIntoSessionWindows display (messages.filter isNew) gap groupBy) key).or
        (get (groupIntoSessionWindows display (messages.filter fun m => !isNew m) gap groupBy) key) := by
  obtain ⟨windowStart, windowEnd, groupKey, rfl⟩ := exists_windowKey key
  have far : ∀ m ∈ messages, ∀ n ∈ messages, isNew m = true → isNew n = false →
      extractGroupKey display m groupBy = extractGroupKey display n groupBy → max gap 0 < |m.timestamp - n.timestamp| := by
    intro m inM n inN new old same
    rw [abs_sub_comm]
    exact apart n inN m inM old new same.symm
  rw [get_session, get_session, get_session, groupSessions_filter fun m inM n inN new old same =>
      (le_max_left gap 0).trans_lt (far m inM n inN new old same),
    groupSessions_filter fun m inM n inN old new same => by
      have near := far n inN m inM (by simpa using new) (by simpa using old) same.symm
      rw [abs_sub_comm] at near
      exact (le_max_left gap 0).trans_lt near,
    List.filter_comm _ fun entry : WindowKey × List MessageRow => entry.2.all isNew,
    List.filter_comm _ fun entry : WindowKey × List MessageRow => entry.2.all fun m => !isNew m]
  generalize listed : ((groupSessions display messages gap groupBy groupKey).filter fun entry =>
    decide (entry.1 = windowKey windowStart windowEnd groupKey)) = entries
  have spec (entry : WindowKey × List MessageRow) (inside : entry ∈ entries) :
      entry ∈ groupSessions display messages gap groupBy groupKey ∧ entry.1 = windowKey windowStart windowEnd groupKey := by
    rw [← listed] at inside
    exact ⟨List.mem_of_mem_filter inside, by simpa using List.of_mem_filter inside⟩
  have complement : (entries.filter fun entry => entry.2.all fun m => !isNew m) = entries.filter fun entry => !entry.2.all isNew := by
    refine List.filter_congr fun entry inside => ?_
    obtain ⟨first, -, -, -, -, new, old⟩ := session_spec far (spec entry inside).1
    rw [new, old]
  have pure : ∀ a ∈ entries, ∀ b ∈ entries, a.2.all isNew = b.2.all isNew := by
    intro a inA b inB
    obtain ⟨m, headM, inM, groupM, keyM, newM, -⟩ := session_spec far (spec a inA).1
    obtain ⟨n, headN, inN, groupN, keyN, newN, -⟩ := session_spec far (spec b inB).1
    -- sessions of one key begin with the same timestamp
    have starts : m.timestamp = n.timestamp := by
      have same := (keyM.symm.trans (spec a inA).2).trans ((spec b inB).2.symm.trans keyN)
      rw [sessionKey, sessionKey, headM, headN] at same
      exact (windowKey_inj.mp same).1
    have near : ¬ max gap 0 < |m.timestamp - n.timestamp| := by
      rw [starts, sub_self, abs_zero]
      exact (le_max_right gap 0).not_gt
    have near' : ¬ max gap 0 < |n.timestamp - m.timestamp| := by rwa [abs_sub_comm]
    rw [newM, newN]
    cases first : isNew m with
    | true =>
      cases second : isNew n with
      | true => rfl
      | false => exact absurd (far m inM n inN first second (groupM.trans groupN.symm)) near
    | false =>
      cases second : isNew n with
      | false => rfl
      | true => exact absurd (far n inN m inM second first (groupN.trans groupM.symm)) near'
  rw [complement]
  obtain ⟨new, old⟩ | ⟨new, old⟩ := filter_eq_or pure
  · rw [new, old, List.getLast?_nil, map_none, or_none]
  · rw [new, old, List.getLast?_nil, map_none, none_or]

/-- **Where no window has messages of both parts, the windows of all messages are those of the
new ones, and else those of the old ones.** -/
theorem split_windows {window : WindowType}
    {new old : WindowGroups} (apart : Apart display window groupBy messages isNew)
    (newGroups : groupIntoWindows display window (messages.filter isNew) groupBy = some new)
    (oldGroups : groupIntoWindows display window (messages.filter fun m => !isNew m) groupBy = some old) :
    ∃ groups, groupIntoWindows display window messages groupBy = some groups ∧
      ∀ key, get groups key = (get new key).or (get old key) := by
  cases window with
  | tumble size => exact split_tumble apart newGroups oldGroups
  | hop size slide => exact split_hop apart newGroups oldGroups
  | session gap =>
    refine ⟨_, rfl, fun key => ?_⟩
    rw [← some.inj newGroups, ← some.inj oldGroups]
    exact split_session apart key

end StreamHouse.Sql
