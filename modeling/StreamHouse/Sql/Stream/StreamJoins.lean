import StreamHouse.Lib.Joins
import StreamHouse.Lib.Run
import StreamHouse.Sql.Stream.JoinOperator

/-!
# Runs of the join operator

Records of both sides in the order of their timestamps. A record is joined with all earlier ones of
the other side that are near and have its key, null included; what is left in the buffers at the end
is what is near the last record, matched or not.
-/

namespace StreamHouse.Sql.JoinOperator

open Lib I64 List Joins JoinOutput

/-- A record of one side, with the readings of the clock. -/
structure JoinAct where
  side : JoinSide
  record : StreamRecord
  now : Nat → Int

structure JoinTrace where
  op : JoinOperator
  outputs : List JoinOutput

/-- A record that is refused changes nothing. -/
def JoinTrace.taken (s : JoinTrace) : Except String (JoinOperator × List JoinOutput) → JoinTrace
  | .error _ => s
  | .ok (op, outputs) => ⟨op, s.outputs ++ outputs⟩

def JoinTrace.step (s : JoinTrace) (a : JoinAct) : Option JoinTrace := (processSided a.now a.record a.side s.op).map s.taken

def JoinTrace.stepAll (s : Option JoinTrace) (a : JoinAct) : Option JoinTrace := s.bind fun s => s.step a

/-- A new operator after the records. -/
def joinRun (config : JoinConfig) (acts : List JoinAct) : Option JoinTrace := run JoinTrace.stepAll (some ⟨.new config, []⟩) acts

/-! ## The join of the streams -/

section Meaning

variable (config : JoinConfig)

/-- The records that are taken, in the order of arrival. -/
def arrivals (acts : List JoinAct) : List JoinBufferEntry := acts.filterMap fun a => (entryOf config a.side a.record).toOption

/-- The records of one side. -/
def sideOf (side : JoinSide) (acts : List JoinAct) : List JoinBufferEntry := arrivals config (acts.filter fun a => a.side = side)

def isNull : Json → Bool
  | .null => true
  | _ => false

def near (l r : JoinBufferEntry) : Bool := decide (|l.record.timestamp - r.record.timestamp| ≤ config.window)

/-- The keys are equal, and the timestamps near. -/
def matched (l r : JoinBufferEntry) : Bool := l.joinKey.same r.joinKey && near config l r

/-- The same with keys that are not null. -/
def partner (l r : JoinBufferEntry) : Bool := !isNull l.joinKey && matched config l r

def contents (row : Option JoinBufferEntry × Option JoinBufferEntry) : Json × Json :=
  ((row.1.map JoinBufferEntry.json).getD .null, (row.2.map JoinBufferEntry.json).getD .null)

/-- A record with null for the other side. -/
def nullRow (row : Option JoinBufferEntry × Option JoinBufferEntry) : JoinOutput where
  left := (contents row).1
  right := (contents row).2
  timestamp := ((row.1 <|> row.2).map fun e => e.record.timestamp).getD 0

/-- The pairs are those of the records with equal keys that are not null and with timestamps that are near, and what the flush
emits are the records of the outer sides without a partner. -/
structure JoinExact (acts : List JoinAct) (t : JoinTrace) : Prop where
  pairs : (t.outputs.map fun o => (o.left, o.right)).Perm
    ((pairs (partner config) (sideOf config .left acts) (sideOf config .right acts)).map contents)
  outer : t.op.flush.2.Perm ((leftOnly (partner config) config.joinType.keepsLeft (sideOf config .left acts) (sideOf config .right acts) ++
    rightOnly (partner config) config.joinType.keepsRight (sideOf config .left acts) (sideOf config .right acts)).map nullRow)

/-- The record is within the window of the last one. -/
def recent (acts : List JoinAct) (e : JoinBufferEntry) : Bool :=
  (arrivals config acts).getLast?.all fun last => decide (last.record.timestamp - config.window ≤ e.record.timestamp)

/-- The differences that a record takes are `i64`s. -/
def InRange (e : JoinBufferEntry) (others : List JoinBufferEntry) : Prop :=
  Fits (e.record.timestamp - config.window) ∧
    ∀ other ∈ others, other.joinKey.same e.joinKey = true → Fits (e.record.timestamp - other.record.timestamp)

/-- The records of a side that are within the window of the last one. -/
def held (side : JoinSide) (acts : List JoinAct) : List JoinBufferEntry := (sideOf config side acts).filter (recent config acts)

/-- The differences of every record are `i64`s. -/
def AllInRange (acts : List JoinAct) : Prop :=
  ∀ before a rest, acts = before ++ a :: rest → ∀ e, entryOf config a.side a.record = .ok e → InRange config e (held config a.side.other before)

/-- No difference overflows, no two records without a key are near, and of an outer side just the records without a partner are
within the window of the last record. -/
structure JoinRegular (acts : List JoinAct) : Prop where
  inRange : AllInRange config acts
  noNulls : ∀ l ∈ sideOf config .left acts, ∀ r ∈ sideOf config .right acts, l.joinKey = .null → r.joinKey = .null → near config l r = false
  left : config.joinType.keepsLeft = true → ∀ l ∈ sideOf config .left acts,
    recent config acts l = !(sideOf config .right acts).any (partner config l)
  right : config.joinType.keepsRight = true → ∀ r ∈ sideOf config .right acts,
    recent config acts r = !(sideOf config .left acts).any (partner config · r)

end Meaning

/-! ## One record -/

variable {config : JoinConfig} {op : JoinOperator} {e : JoinBufferEntry} {others : List JoinBufferEntry}

variable {a : JoinAct} {acts : List JoinAct}

theorem near_comm (l r : JoinBufferEntry) : near config l r = near config r l := by
  unfold near
  rw [abs_sub_comm]

theorem matched_comm (l r : JoinBufferEntry) : matched config l r = matched config r l := by
  rw [matched, matched, Json.same_comm, near_comm]

section

variable (earlier : ∀ other ∈ others, other.record.timestamp ≤ e.record.timestamp)
include earlier

theorem overflows_iff :
    others.any (overflows e.record e.joinKey) = false ↔
      ∀ other ∈ others, other.joinKey.same e.joinKey = true → Fits (e.record.timestamp - other.record.timestamp) := by
  rw [any_eq_false]
  refine forall₂_congr fun other inside => ?_
  have order := earlier other inside
  have positive : e.record.timestamp - other.record.timestamp ≠ least := by
    unfold least
    omega
  simp [overflows, positive]

theorem probe_of_fits
    (fits : ∀ other ∈ others, other.joinKey.same e.joinKey = true → Fits (e.record.timestamp - other.record.timestamp)) :
    probe config e.record e.joinKey others = some (others.filter (matched config e)) := by
  rw [probe, if_neg (by rw [(overflows_iff earlier).mpr fits]; exact Bool.false_ne_true)]
  congr 1
  refine filter_congr fun other _ => ?_
  rw [matched, near, Json.same_comm]

theorem probe_of_overflow
    (overflow : ¬ ∀ other ∈ others, other.joinKey.same e.joinKey = true → Fits (e.record.timestamp - other.record.timestamp)) :
    probe config e.record e.joinKey others = none := by
  refine if_pos ?_
  by_contra stays
  exact overflow ((overflows_iff earlier).mp (Bool.not_eq_true _ ▸ stays))


end
def buffer (op : JoinOperator) : JoinSide → List JoinBufferEntry
  | .left => op.leftBuffer
  | .right => op.rightBuffer

/-- The buffers after a record of a side. -/
def pushed (op : JoinOperator) (e : JoinBufferEntry) : JoinSide → JoinOperator
  | .left => { op with leftBuffer := op.leftBuffer ++ [e] }
  | .right => { op with rightBuffer := op.rightBuffer ++ [e] }

/-- What is left of the buffers at a time. -/
def evicted (op : JoinOperator) (timestamp : Int) : JoinOperator :=
  { op with
    leftBuffer := op.leftBuffer.filter fun other => timestamp - op.config.window ≤ other.record.timestamp
    rightBuffer := op.rightBuffer.filter fun other => timestamp - op.config.window ≤ other.record.timestamp }

theorem buffer_evicted (timestamp : Int) (side : JoinSide) :
    buffer (evicted op timestamp) side = (buffer op side).filter fun other => timestamp - op.config.window ≤ other.record.timestamp := by
  cases side <;> rfl

theorem buffer_pushed (side side' : JoinSide) :
    buffer (pushed op e side) side' = if side = side' then buffer op side' ++ [e] else buffer op side' := by
  cases side <;> cases side' <;> rfl

theorem config_pushed (side : JoinSide) : (pushed op e side).config = op.config := by
  cases side <;> rfl

/-- The pair of a record with one of the other side. -/
def pairOf (e other : JoinBufferEntry) : JoinSide → Json × Json
  | .left => (e.json, other.json)
  | .right => (other.json, e.json)

theorem evictExpired_of_fits {timestamp : Int} (fits : Fits (timestamp - op.config.window)) :
    evictExpired op timestamp = some (evicted op timestamp) := by
  rw [evictExpired, checkedSub, if_pos fits]
  rfl

theorem map_mapIdx {α β γ : Type*} (f : Nat → α → β) (g : β → γ) (h : α → γ) (each : ∀ i a, g (f i a) = h a) (l : List α) :
    (l.mapIdx f).map g = l.map h := by
  apply ext_getElem
  · rw [length_map, length_mapIdx, length_map]
  · intro i _ _
    rw [getElem_map, getElem_mapIdx, getElem_map, each]

theorem buildOutput_pair (left right : Json) (joinType : JoinType) (now : Int) :
    ((buildOutput left right joinType now).left, (buildOutput left right joinType now).right) = (left, right) := by
  cases joinType <;> rfl

variable {side : JoinSide} {x : JoinBufferEntry}

/-- **A record is joined with what it matches in the other buffer, and both buffers are cut off.** -/
theorem processEntry_of_inRange (now : Nat → Int) (earlier : ∀ other ∈ buffer op side.other, other.record.timestamp ≤ e.record.timestamp)
    (inRange : InRange op.config e (buffer op side.other)) :
    ∃ outputs, processEntry now e op side = some (evicted (pushed op e side) e.record.timestamp, outputs) ∧
      (outputs.map fun o => (o.left, o.right)) = ((buffer op side.other).filter (matched op.config e)).map fun other => pairOf e other side := by
  obtain ⟨window, differences⟩ := inRange
  cases side with
  | left =>
    have hits : probe op.config e.record e.joinKey op.rightBuffer = some (op.rightBuffer.filter (matched op.config e)) :=
      probe_of_fits earlier differences
    have cut : evictExpired { op with leftBuffer := op.leftBuffer ++ [e] } e.record.timestamp =
      some (evicted (pushed op e .left) e.record.timestamp) := evictExpired_of_fits window
    refine ⟨_, ?_, map_mapIdx _ _ (fun other => pairOf e other .left) (fun i other => buildOutput_pair _ _ op.config.joinType (now i)) _⟩
    simp only [processEntry, hits, cut, Option.bind_eq_bind, Option.bind_some, Option.pure_def]
    rfl
  | right =>
    have hits : probe op.config e.record e.joinKey op.leftBuffer = some (op.leftBuffer.filter (matched op.config e)) :=
      probe_of_fits earlier differences
    have cut : evictExpired { op with rightBuffer := op.rightBuffer ++ [e] } e.record.timestamp =
      some (evicted (pushed op e .right) e.record.timestamp) := evictExpired_of_fits window
    refine ⟨_, ?_, map_mapIdx _ _ (fun other => pairOf e other .right) (fun i other => buildOutput_pair _ _ op.config.joinType (now i)) _⟩
    simp only [processEntry, hits, cut, Option.bind_eq_bind, Option.bind_some, Option.pure_def]
    rfl

theorem processEntry_of_overflow (now : Nat → Int) (earlier : ∀ other ∈ buffer op side.other, other.record.timestamp ≤ e.record.timestamp)
    (overflow : ¬ InRange op.config e (buffer op side.other)) : processEntry now e op side = none := by
  rw [InRange, not_and_or] at overflow
  have stops (pushed : JoinOperator) (same : pushed.config = op.config) (window : ¬ Fits (e.record.timestamp - op.config.window)) :
      evictExpired pushed e.record.timestamp = none := by
    rw [evictExpired, same, checkedSub_eq_none.mpr window]
    rfl
  cases side with
  | left =>
    rcases overflow with window | differences
    · have cut : evictExpired { op with leftBuffer := op.leftBuffer ++ [e] } e.record.timestamp = none := stops _ rfl window
      simp only [processEntry, cut]
      cases probe op.config e.record e.joinKey op.rightBuffer <;> rfl
    · have none : probe op.config e.record e.joinKey op.rightBuffer = none := probe_of_overflow earlier differences
      rw [processEntry, none]
      rfl
  | right =>
    rcases overflow with window | differences
    · have cut : evictExpired { op with rightBuffer := op.rightBuffer ++ [e] } e.record.timestamp = none := stops _ rfl window
      simp only [processEntry, cut]
      cases probe op.config e.record e.joinKey op.leftBuffer <;> rfl
    · have none : probe op.config e.record e.joinKey op.leftBuffer = none := probe_of_overflow earlier differences
      rw [processEntry, none]
      rfl

/-! ## Runs -/

theorem joinRun_snoc (acts : List JoinAct) (a : JoinAct) : joinRun config (acts ++ [a]) = (joinRun config acts).bind fun t => t.step a := by
  rw [joinRun, run_append]
  rfl

/-- The key of a record is in its JSON. -/
theorem entryOf_ok {record : StreamRecord} (parsed : entryOf config side record = .ok e) :
    e.record = record ∧ e.joinKey = (e.json.get (config.keyField side)).getD .null := by
  unfold entryOf at parsed
  cases value : record.value.json with
  | error text =>
    rw [value] at parsed
    cases parsed
  | ok json =>
    rw [value] at parsed
    cases parsed
    exact ⟨rfl, rfl⟩

theorem arrivals_snoc (acts : List JoinAct) (parsed : entryOf config a.side a.record = .ok e) :
    arrivals config (acts ++ [a]) = arrivals config acts ++ [e] := by
  rw [arrivals, filterMap_append, filterMap_cons, parsed]
  rfl

theorem arrivals_refused (acts : List JoinAct) {text : String} (refused : entryOf config a.side a.record = .error text) :
    arrivals config (acts ++ [a]) = arrivals config acts := by
  rw [arrivals, filterMap_append, filterMap_cons, refused]
  exact append_nil _

theorem filter_side (a : JoinAct) (side : JoinSide) :
    [a].filter (fun a => decide (a.side = side)) = if a.side = side then [a] else [] := by
  split_ifs with here
  · exact filter_cons_of_pos (by simpa using here)
  · exact filter_cons_of_neg (by simpa using here)

theorem sideOf_snoc (acts : List JoinAct) (parsed : entryOf config a.side a.record = .ok e) (side : JoinSide) :
    sideOf config side (acts ++ [a]) = if a.side = side then sideOf config side acts ++ [e] else sideOf config side acts := by
  unfold sideOf
  rw [filter_append, filter_side]
  split_ifs
  · exact arrivals_snoc _ parsed
  · rw [append_nil]

theorem sideOf_refused (acts : List JoinAct) {text : String} (refused : entryOf config a.side a.record = .error text)
    (side : JoinSide) : sideOf config side (acts ++ [a]) = sideOf config side acts := by
  unfold sideOf
  rw [filter_append, filter_side]
  split_ifs
  · exact arrivals_refused _ refused
  · rw [append_nil]

theorem mem_arrivals : e ∈ arrivals config acts ↔ ∃ a ∈ acts, entryOf config a.side a.record = .ok e := by
  rw [arrivals, mem_filterMap]
  refine exists_congr fun a => and_congr_right fun _ => ?_
  cases entryOf config a.side a.record with
  | error text => simp [Except.toOption]
  | ok entry => simp [Except.toOption]

theorem mem_sideOf :
    e ∈ sideOf config side acts ↔ ∃ a ∈ acts, a.side = side ∧ entryOf config side a.record = .ok e := by
  rw [sideOf, mem_arrivals]
  constructor
  · rintro ⟨a, inside, parsed⟩
    obtain ⟨inActs, ofSide⟩ := mem_filter.mp inside
    obtain rfl := of_decide_eq_true ofSide
    exact ⟨a, inActs, rfl, parsed⟩
  · rintro ⟨a, inActs, rfl, parsed⟩
    exact ⟨a, mem_filter.mpr ⟨inActs, decide_eq_true rfl⟩, parsed⟩

/-- The timestamps do not decrease. -/
def InOrder (acts : List JoinAct) : Prop := acts.Pairwise fun a b => a.record.timestamp ≤ b.record.timestamp

theorem arrivals_earlier (order : InOrder (acts ++ [a])) (inside : x ∈ arrivals config acts) : x.record.timestamp ≤ a.record.timestamp := by
  obtain ⟨b, inActs, parsed⟩ := mem_arrivals.mp inside
  rw [(entryOf_ok parsed).1]
  exact (List.pairwise_append.mp order).2.2 b inActs a mem_cons_self

theorem sideOf_subset (side : JoinSide) (acts : List JoinAct) : sideOf config side acts ⊆ arrivals config acts := by
  intro x inside
  obtain ⟨a, inActs, rfl, parsed⟩ := mem_sideOf.mp inside
  exact mem_arrivals.mpr ⟨a, inActs, parsed⟩

theorem recent_snoc (acts : List JoinAct) (parsed : entryOf config a.side a.record = .ok e) (x : JoinBufferEntry) :
    recent config (acts ++ [a]) x = decide (e.record.timestamp - config.window ≤ x.record.timestamp) := by
  rw [recent, arrivals_snoc acts parsed, getLast?_concat]
  rfl

theorem held_snoc (acts : List JoinAct) (parsed : entryOf config a.side a.record = .ok e) (side : JoinSide) :
    held config side (acts ++ [a]) = (if a.side = side then sideOf config side acts ++ [e] else sideOf config side acts).filter
      fun x => decide (e.record.timestamp - config.window ≤ x.record.timestamp) := by
  rw [held, sideOf_snoc acts parsed]
  exact filter_congr fun x _ => recent_snoc acts parsed x

/-- What is within the window of a later time was within the window before. -/
theorem held_filter {timestamp : Int} (earlier : ∀ x ∈ arrivals config acts, x.record.timestamp ≤ timestamp)
    {p : JoinBufferEntry → Bool} (late : ∀ x, p x = true → timestamp - config.window ≤ x.record.timestamp) (side : JoinSide) :
    (held config side acts).filter p = (sideOf config side acts).filter p := by
  rw [held, filter_filter]
  refine filter_congr fun x _ => ?_
  cases chosen : p x with
  | false => rfl
  | true =>
    have atTime := late x chosen
    rw [Bool.true_and, recent]
    cases found : (arrivals config acts).getLast? with
    | none => rfl
    | some last =>
      have order := earlier last (mem_of_getLast? found)
      exact decide_eq_true (by omega)

/-- What is known of the operator after some records. -/
structure Joined (config : JoinConfig) (acts : List JoinAct) (t : JoinTrace) : Prop where
  config_eq : t.op.config = config
  buffers : ∀ side, buffer t.op side = held config side acts
  outputs : (t.outputs.map fun o => (o.left, o.right)).Perm
    ((pairs (matched config) (sideOf config .left acts) (sideOf config .right acts)).map contents)

/-- The pairs with one more record. -/
theorem pairs_snoc (acts : List JoinAct) (parsed : entryOf config a.side a.record = .ok e) :
    ((pairs (matched config) (sideOf config .left (acts ++ [a])) (sideOf config .right (acts ++ [a]))).map contents).Perm
      ((pairs (matched config) (sideOf config .left acts) (sideOf config .right acts)).map contents ++
        ((sideOf config a.side.other acts).filter (matched config e)).map fun other => pairOf e other a.side) := by
  rw [sideOf_snoc acts parsed, sideOf_snoc acts parsed]
  cases side : a.side with
  | left =>
    rw [if_pos rfl, if_neg (by simp), pairs_snoc_left, map_append, map_map]
    exact .refl _
  | right =>
    rw [if_neg (by simp), if_pos rfl]
    refine ((pairs_snoc_right _ _ _).map contents).trans ?_
    rw [map_append, map_map]
    have swapped : (fun l => matched config l e) = matched config e := by
      funext l
      exact matched_comm l e
    rw [swapped]
    exact .refl _

section Steps

variable {t : JoinTrace}

theorem Joined.refused (joined : Joined config acts t) {text : String} (error : entryOf config a.side a.record = .error text) :
    t.step a = some t ∧ Joined config (acts ++ [a]) t := by
  have same := arrivals_refused acts error
  have sides := sideOf_refused acts error
  constructor
  · rw [JoinTrace.step, processSided, joined.config_eq, error]
    rfl
  · refine ⟨joined.config_eq, fun side => ?_, ?_⟩
    · rw [joined.buffers, held, held, sides]
      refine filter_congr fun x _ => ?_
      rw [recent, recent, same]
    · rw [sides, sides]
      exact joined.outputs

/-- One more record: the buffers are cut off at its time, and the pairs are those with the earlier records. -/
theorem Joined.taken (joined : Joined config acts t) (order : InOrder (acts ++ [a])) (parsed : entryOf config a.side a.record = .ok e)
    (inRange : InRange config e (held config a.side.other acts)) : ∃ t', t.step a = some t' ∧ Joined config (acts ++ [a]) t' := by
  have time : e.record.timestamp = a.record.timestamp := by rw [(entryOf_ok parsed).1]
  have earlier : ∀ x ∈ arrivals config acts, x.record.timestamp ≤ e.record.timestamp := fun x inside =>
    time ▸ arrivals_earlier order inside
  have earlier' : ∀ other ∈ buffer t.op a.side.other, other.record.timestamp ≤ e.record.timestamp := by
    intro other inside
    rw [joined.buffers] at inside
    exact earlier other (sideOf_subset _ _ (mem_of_mem_filter inside))
  have inRange' : InRange t.op.config e (buffer t.op a.side.other) := by
    rw [joined.config_eq, joined.buffers]
    exact inRange
  obtain ⟨outputs, processed, rows⟩ := processEntry_of_inRange a.now earlier' inRange'
  refine ⟨⟨evicted (pushed t.op e a.side) e.record.timestamp, t.outputs ++ outputs⟩, ?_, ?_, fun side => ?_, ?_⟩
  · rw [JoinTrace.step, processSided, joined.config_eq, parsed]
    simp only [processed]
    rfl
  · exact (config_pushed a.side).trans joined.config_eq
  · have cut := held_filter earlier (p := fun x => decide (e.record.timestamp - config.window ≤ x.record.timestamp))
      (fun x chosen => of_decide_eq_true chosen) side
    rw [buffer_evicted, buffer_pushed, config_pushed, joined.config_eq, joined.buffers, held_snoc acts parsed]
    split_ifs
    · rw [filter_append, filter_append, cut]
    · exact cut
  · have hits := held_filter earlier (p := matched config e) (fun x chosen => by
      have close := of_decide_eq_true (Bool.and_eq_true_iff.mp chosen).2
      have := abs_le.mp close
      omega) a.side.other
    rw [joined.config_eq, joined.buffers, hits] at rows
    rw [map_append, rows]
    exact (joined.outputs.append_right _).trans (pairs_snoc acts parsed).symm

theorem Joined.overflow (joined : Joined config acts t) (order : InOrder (acts ++ [a])) (parsed : entryOf config a.side a.record = .ok e)
    (outOfRange : ¬ InRange config e (held config a.side.other acts)) : t.step a = none := by
  have time : e.record.timestamp = a.record.timestamp := by rw [(entryOf_ok parsed).1]
  have earlier : ∀ other ∈ buffer t.op a.side.other, other.record.timestamp ≤ e.record.timestamp := by
    intro other inside
    rw [joined.buffers] at inside
    exact time ▸ arrivals_earlier order (sideOf_subset _ _ (mem_of_mem_filter inside))
  have nothing := processEntry_of_overflow a.now earlier (by rw [joined.config_eq, joined.buffers]; exact outOfRange)
  rw [JoinTrace.step, processSided, joined.config_eq, parsed]
  simp only [nothing]
  rfl

theorem joined_nil : Joined config [] ⟨.new config, []⟩ := by
  refine ⟨rfl, fun side => ?_, ?_⟩
  · cases side <;> rfl
  · exact .refl _

theorem allInRange_snoc : AllInRange config (acts ++ [a]) ↔
    AllInRange config acts ∧ ∀ e, entryOf config a.side a.record = .ok e → InRange config e (held config a.side.other acts) := by
  constructor
  · intro all
    refine ⟨fun before b rest split => all before b (rest ++ [a]) (by rw [split]; simp), all acts a [] rfl⟩
  · rintro ⟨all, last⟩ before b rest split
    rcases eq_nil_or_concat rest with rfl | ⟨rest, c, rfl⟩
    · obtain ⟨rfl, same⟩ := append_inj' split rfl
      obtain rfl := singleton_inj.mp same
      exact last
    · rw [concat_eq_append, ← cons_append, ← append_assoc] at split
      exact all before b rest (append_inj' split rfl).1

/-- **A run goes on just while the differences are in range**, and it has the buffers and the pairs of the records so far. -/
theorem joinRun_iff (order : InOrder acts) :
    ((∃ t, joinRun config acts = some t) ↔ AllInRange config acts) ∧ ∀ t, joinRun config acts = some t → Joined config acts t := by
  induction acts using reverseRecOn with
  | nil =>
    refine ⟨iff_of_true ⟨_, rfl⟩ fun before a rest split => absurd split (by simp), fun t went => ?_⟩
    obtain rfl := Option.some.inj went
    exact joined_nil
  | append_singleton acts a ih =>
    obtain ⟨goes, joins⟩ := ih (List.pairwise_append.mp order).1
    rw [joinRun_snoc, allInRange_snoc, ← goes]
    cases went : joinRun config acts with
    | none => simp
    | some t =>
      have joined := joins t went
      simp only [Option.bind_some, Option.some.injEq, exists_eq', true_and]
      cases parsed : entryOf config a.side a.record with
      | error text =>
        obtain ⟨stays, joined'⟩ := joined.refused parsed
        rw [stays]
        refine ⟨iff_of_true ⟨t, rfl⟩ ?_, fun t' same => Option.some.inj same ▸ joined'⟩
        intro e same
        cases same
      | ok e =>
        by_cases here : InRange config e (held config a.side.other acts)
        · obtain ⟨t', taken, joined'⟩ := joined.taken order parsed here
          rw [taken]
          exact ⟨iff_of_true ⟨t', rfl⟩ fun e' same => Except.ok.inj same ▸ here, fun t'' same => Option.some.inj same ▸ joined'⟩
        · rw [joined.overflow order parsed here]
          exact ⟨iff_of_false (by simp) fun inRange => here (inRange e rfl), by simp⟩

end Steps

/-! ## Records without a partner -/

def outerRow : JoinSide × JoinBufferEntry → JoinOutput
  | (.left, l) => ⟨l.json, .null, l.record.timestamp⟩
  | (.right, r) => ⟨.null, r.json, r.record.timestamp⟩

/-- The records of the outer sides. -/
def outers (config : JoinConfig) (acts : List JoinAct) : List (JoinSide × JoinBufferEntry) :=
  (if config.joinType.keepsLeft then (sideOf config .left acts).map (Prod.mk .left) else []) ++
    if config.joinType.keepsRight then (sideOf config .right acts).map (Prod.mk .right) else []

def unmatched (config : JoinConfig) (acts : List JoinAct) : JoinSide × JoinBufferEntry → Bool
  | (.left, l) => !(sideOf config .right acts).any (partner config l)
  | (.right, r) => !(sideOf config .left acts).any (partner config · r)

section Outer

variable {t : JoinTrace}

/-- What is selected of the outer records, side by side. -/
theorem filter_outers (p : JoinSide × JoinBufferEntry → Bool) : ((outers config acts).filter p).map outerRow =
    (if config.joinType.keepsLeft then ((sideOf config .left acts).filter fun l => p (.left, l)).map fun l => outerRow (.left, l) else []) ++
      if config.joinType.keepsRight then ((sideOf config .right acts).filter fun r => p (.right, r)).map fun r => outerRow (.right, r) else [] := by
  unfold outers
  rw [filter_append, map_append]
  congr 1
  · split_ifs
    · rw [filter_map, map_map]
      rfl
    · rfl
  · split_ifs
    · rw [filter_map, map_map]
      rfl
    · rfl

theorem Joined.flush (joined : Joined config acts t) :
    t.op.flush.2 = ((outers config acts).filter fun outer => recent config acts outer.2).map outerRow := by
  have left : t.op.leftBuffer = (sideOf config .left acts).filter (recent config acts) := joined.buffers .left
  have right : t.op.rightBuffer = (sideOf config .right acts).filter (recent config acts) := joined.buffers .right
  rw [filter_outers, JoinOperator.flush, joined.config_eq, left, right]
  rfl

theorem nullRow_only : (leftOnly (partner config) config.joinType.keepsLeft (sideOf config .left acts) (sideOf config .right acts) ++
    rightOnly (partner config) config.joinType.keepsRight (sideOf config .left acts) (sideOf config .right acts)).map nullRow =
      ((outers config acts).filter (unmatched config acts)).map outerRow := by
  rw [filter_outers, map_append]
  congr 1
  · unfold leftOnly
    split_ifs
    · rw [map_map]
      rfl
    · rfl
  · unfold rightOnly
    split_ifs
    · rw [map_map]
      rfl
    · rfl

theorem partner_null_left {l r : JoinBufferEntry} (null : l.joinKey = .null) : partner config l r = false := by
  rw [partner, null]
  rfl

theorem partner_null_right {l r : JoinBufferEntry} (null : r.joinKey = .null) : partner config l r = false := by
  cases found : l.joinKey with
  | null => exact partner_null_left found
  | _ => simp [partner, matched, null, found, Json.same]

theorem mem_outers {outer : JoinSide × JoinBufferEntry} : outer ∈ outers config acts ↔
    (config.joinType.keepsLeft = true ∧ outer.1 = .left ∨ config.joinType.keepsRight = true ∧ outer.1 = .right) ∧
      outer.2 ∈ sideOf config outer.1 acts := by
  obtain ⟨side, e⟩ := outer
  unfold outers
  rw [mem_append]
  cases side <;> split_ifs <;> simp_all

/-- A key that is in the JSON alone. -/
theorem joinKey_of_json {y : JoinBufferEntry} (inX : x ∈ sideOf config side acts) (inY : y ∈ sideOf config side acts)
    (same : x.json = y.json) : x.joinKey = y.joinKey := by
  obtain ⟨_, -, -, parsedX⟩ := mem_sideOf.mp inX
  obtain ⟨_, -, -, parsedY⟩ := mem_sideOf.mp inY
  rw [(entryOf_ok parsedX).2, (entryOf_ok parsedY).2, same]

/-- A record that is null has no key. -/
theorem joinKey_of_null (inX : x ∈ sideOf config side acts) (null : x.json = .null) : x.joinKey = .null := by
  obtain ⟨_, -, -, parsed⟩ := mem_sideOf.mp inX
  rw [(entryOf_ok parsed).2, null]
  rfl

theorem unmatched_of_null {outer : JoinSide × JoinBufferEntry} (null : outer.2.joinKey = .null) : unmatched config acts outer = true := by
  obtain ⟨side, e⟩ := outer
  cases side with
  | left =>
    have nobody : (sideOf config .right acts).any (partner config e) = false := by
      rw [any_eq_false]
      intro r _
      rw [partner_null_left null]
      exact Bool.false_ne_true
    rw [unmatched, nobody]
    rfl
  | right =>
    have nobody : (sideOf config .left acts).any (partner config · e) = false := by
      rw [any_eq_false]
      intro l _
      rw [partner_null_right null]
      exact Bool.false_ne_true
    rw [unmatched, nobody]
    rfl

/-- The partners of a record depend on its key and its timestamp. -/
theorem unmatched_congr {y : JoinBufferEntry} (key : x.joinKey = y.joinKey)
    (time : x.record.timestamp = y.record.timestamp) : unmatched config acts (side, x) = unmatched config acts (side, y) := by
  have left (other : JoinBufferEntry) : partner config x other = partner config y other := by
    simp only [partner, matched, near, key, time]
  have right (other : JoinBufferEntry) : partner config other x = partner config other y := by
    simp only [partner, matched, near, key, time]
  cases side <;> simp only [unmatched, funext left, right]

/-- Outer records with one output are near the same records and have the same partners. -/
theorem outerRow_alike {x y : JoinSide × JoinBufferEntry} (inX : x ∈ outers config acts) (inY : y ∈ outers config acts)
    (same : outerRow x = outerRow y) :
    recent config acts x.2 = recent config acts y.2 ∧ unmatched config acts x = unmatched config acts y := by
  have insideX := (mem_outers.mp inX).2
  have insideY := (mem_outers.mp inY).2
  obtain ⟨sideX, x⟩ := x
  obtain ⟨sideY, y⟩ := y
  have time : x.record.timestamp = y.record.timestamp := by
    cases sideX <;> cases sideY <;> exact congrArg timestamp same
  refine ⟨by simp only [recent, time], ?_⟩
  by_cases here : sideX = sideY
  · subst here
    have json : x.json = y.json := by
      cases sideX with
      | left => exact congrArg left same
      | right => exact congrArg right same
    exact unmatched_congr (joinKey_of_json insideX insideY json) time
  · -- records of different sides with one output are both null
    have nulls : x.json = .null ∧ y.json = .null := by
      cases sideX <;> cases sideY
      · exact absurd rfl here
      · exact ⟨congrArg left same, (congrArg right same).symm⟩
      · exact ⟨congrArg right same, (congrArg left same).symm⟩
      · exact absurd rfl here
    rw [unmatched_of_null (joinKey_of_null insideX nulls.1), unmatched_of_null (joinKey_of_null insideY nulls.2)]

theorem outer_iff (joined : Joined config acts t) :
    t.op.flush.2.Perm ((leftOnly (partner config) config.joinType.keepsLeft (sideOf config .left acts) (sideOf config .right acts) ++
      rightOnly (partner config) config.joinType.keepsRight (sideOf config .left acts) (sideOf config .right acts)).map nullRow) ↔
    (config.joinType.keepsLeft = true → ∀ l ∈ sideOf config .left acts, recent config acts l = unmatched config acts (.left, l)) ∧
      (config.joinType.keepsRight = true → ∀ r ∈ sideOf config .right acts, recent config acts r = unmatched config acts (.right, r)) := by
  rw [joined.flush, nullRow_only, filter_map_perm_iff fun x inX y inY same => outerRow_alike inX inY same]
  constructor
  · intro all
    refine ⟨fun keeps l inside => all (.left, l) ?_, fun keeps r inside => all (.right, r) ?_⟩
    · exact mem_outers.mpr ⟨.inl ⟨keeps, rfl⟩, inside⟩
    · exact mem_outers.mpr ⟨.inr ⟨keeps, rfl⟩, inside⟩
  · rintro ⟨left, right⟩ ⟨side, e⟩ inside
    obtain ⟨⟨keeps, rfl⟩ | ⟨keeps, rfl⟩, inside⟩ := mem_outers.mp inside
    · exact left keeps e inside
    · exact right keeps e inside

/-- Records that match and are no partners have no keys. -/
theorem pairs_iff (joined : Joined config acts t) : (t.outputs.map fun o => (o.left, o.right)).Perm
      ((pairs (partner config) (sideOf config .left acts) (sideOf config .right acts)).map contents) ↔
    ∀ l ∈ sideOf config .left acts, ∀ r ∈ sideOf config .right acts, l.joinKey = .null → r.joinKey = .null → near config l r = false := by
  have narrower : ∀ l r, partner config l r = true → matched config l r = true := fun l r holds => (Bool.and_eq_true_iff.mp holds).2
  have nulls (l r : JoinBufferEntry) : (matched config l r = true → partner config l r = true) ↔
      (l.joinKey = .null → r.joinKey = .null → near config l r = false) := by
    cases key : l.joinKey with
    | null =>
      rw [partner_null_left key]
      simp [matched, key]
    | _ => simp [partner, isNull, key]
  have lengths := length_pairs_iff narrower (sideOf config .left acts) (sideOf config .right acts)
  simp only [nulls] at lengths
  rw [← lengths]
  constructor
  · intro perm
    have same := (joined.outputs.symm.trans perm).length_eq
    rw [length_map, length_map] at same
    exact same.symm
  · intro same
    have all : ∀ l ∈ sideOf config .left acts, ∀ r ∈ sideOf config .right acts, matched config l r = partner config l r := by
      intro l inL r inR
      rw [Bool.eq_iff_iff]
      exact ⟨(length_pairs_iff narrower _ _).mp same l inL r inR, narrower l r⟩
    rw [← pairs_congr all]
    exact joined.outputs

end Outer

/-- **The join is exact just if** no difference overflows, no records without a key are near, and of the outer sides it is the
records without a partner that are within the window of the last record. -/
theorem stream_join_exact_iff (config : JoinConfig) (acts : List JoinAct) (order : InOrder acts) :
    (∃ t, joinRun config acts = some t ∧ JoinExact config acts t) ↔ JoinRegular config acts := by
  obtain ⟨goes, joins⟩ := @joinRun_iff config acts order
  constructor
  · rintro ⟨t, went, exact⟩
    have joined := joins t went
    obtain ⟨left, right⟩ := (outer_iff joined).mp exact.outer
    exact ⟨goes.mp ⟨t, went⟩, (pairs_iff joined).mp exact.pairs, left, right⟩
  · intro regular
    obtain ⟨t, went⟩ := goes.mpr regular.inRange
    have joined := joins t went
    exact ⟨t, went, (pairs_iff joined).mpr regular.noNulls, (outer_iff joined).mpr ⟨regular.left, regular.right⟩⟩

namespace JoinExample

/-- The record `{"id":1}` of a side at a time. -/
def act (side : JoinSide) (timestamp : Int) : JoinAct where
  side := side
  record := .new ⟨[123, 34, 105, 100, 34, 58, 49, 125], .ok (.object [("id", .number (.posInt 1))])⟩ timestamp
  now := fun _ => 0

def byId : JoinConfig := ⟨"id", "id", 10, .left⟩

/-- A pair, and a left record that comes when the window of the pair is over. -/
def pairAndLeft : List JoinAct := [act .left 5, act .right 5, act .left 100]

theorem allInRange_pairAndLeft : AllInRange byId pairAndLeft := by
  have none : AllInRange byId [] := fun before _ _ split => by simp at split
  have first : AllInRange byId ([] ++ [act .left 5]) := allInRange_snoc.mpr ⟨none, fun e parsed => by
    cases parsed
    exact ⟨by decide, by decide⟩⟩
  have second : AllInRange byId ([act .left 5] ++ [act .right 5]) := allInRange_snoc.mpr ⟨first, fun e parsed => by
    cases parsed
    exact ⟨by decide, by decide⟩⟩
  exact allInRange_snoc.mpr ⟨second, fun e parsed => by
    cases parsed
    exact ⟨by decide, by decide⟩⟩

end JoinExample

open JoinOperator.JoinExample in
/-- The pair is emitted when its second record comes, and the record at 100 with null when the join is flushed. -/
theorem stream_join_exact_pairAndLeft : ∃ t, joinRun byId pairAndLeft = some t ∧ JoinExact byId pairAndLeft t := by
  have order : InOrder pairAndLeft :=
    List.pairwise_cons.mpr ⟨by decide, pairwise_pair.mpr (by decide)⟩
  have keyed : ∀ l ∈ sideOf byId .left pairAndLeft, l.joinKey ≠ .null := by
    intro l inside
    obtain rfl | later := mem_cons.mp inside
    · exact Json.noConfusion
    · obtain rfl := mem_singleton.mp later
      exact Json.noConfusion
  exact (stream_join_exact_iff byId pairAndLeft order).mpr
    ⟨allInRange_pairAndLeft, fun l inside _ _ null => absurd null (keyed l inside), fun _ => by decide, fun no => nomatch no⟩

open JoinOperator.JoinExample in
/-- Of a left join, the left record that was joined is emitted with null too. -/
theorem matched_record_flushed : ¬ ∃ t, joinRun JoinExample.byId [act .left 5, act .right 5] = some t ∧
    JoinExact JoinExample.byId [act .left 5, act .right 5] t := by
  rintro ⟨t, went, exact⟩
  have order : InOrder [act .left 5, act .right 5] := pairwise_pair.mpr (le_refl _)
  have joined := (joinRun_iff order).2 t went
  have unmatchedOnly := ((outer_iff joined).mp exact.outer).1 rfl _ mem_cons_self
  exact absurd unmatchedOnly (by decide)

end StreamHouse.Sql.JoinOperator
