import StreamHouse.Server.Compaction

/-!
# What a compacted segment contains

For one key the two maps of the scan hold a single record, its survivor: a tombstone
replaces whatever there was, whatever its offset, and a value replaces a tombstone or
a value of a smaller offset (`survivor`). So what survives is the greatest of the
records read after the key's last tombstone, or that tombstone (`candidates`), which
need not be the greatest of the key; and segments beyond the record limit are removed
without being read. `exact_iff` says when the output is the one compaction is for.
-/

namespace StreamHouse.Server
open Metadata Storage List Scan AList Plan

/-! ## One key -/

/-- What the scan does to the record it holds for a key. -/
def keep (current : Option Record) (r : Record) : Option Record :=
  if isTombstone r then some r
  else
    match current with
    | none => some r
    | some c => if isTombstone c ∨ r.offset > c.offset then some r else some c

/-- The record the scan is left with, of those with one key. -/
def survivor (rs : List Record) : Option Record := rs.foldl keep none

/-- The records after the last tombstone, or that tombstone. -/
def candidates : List Record → List Record
  | [] => []
  | r :: rs => if rs.any isTombstone then candidates rs else if isTombstone r ∧ rs ≠ [] then rs else r :: rs

/-- No record of `rs` has a greater offset. -/
def Greatest (r : Record) (rs : List Record) : Prop := ∀ r' ∈ rs, r'.offset ≤ r.offset

instance (r : Record) (rs : List Record) : Decidable (Greatest r rs) :=
  inferInstanceAs (Decidable (∀ r' ∈ rs, r'.offset ≤ r.offset))

variable {rs : List Record} {key : Bytes} {r : Record} {s : Scan} {cfg : CompactionConfig} {env : CompactionEnv}
    {scan : Scan} {nowMs : Int} {order : HashOrder}

/-- From a value on, among values: the greatest is kept. -/
theorem foldl_keep_values {c : Record} (value : isTombstone c = false) (values : ∀ r ∈ rs, isTombstone r = false) :
    ∃ w ∈ c :: rs, rs.foldl keep (some c) = some w ∧ Greatest w (c :: rs) := by
  induction rs generalizing c with
  | nil => exact ⟨c, mem_cons_self, rfl, by simp [Greatest]⟩
  | cons r rs ih =>
    have rValue := values r mem_cons_self
    have rest : ∀ x ∈ rs, isTombstone x = false := fun x member => values x (mem_cons_of_mem _ member)
    by_cases greater : r.offset > c.offset
    · obtain ⟨w, member, folded, greatest⟩ := ih rValue rest
      refine ⟨w, mem_cons_of_mem _ member, ?_, ?_⟩
      · simpa [keep, rValue, greater] using folded
      · intro x here
        obtain rfl | later := mem_cons.mp here
        · have := greatest r mem_cons_self
          omega
        · exact greatest x later
    · obtain ⟨w, member, folded, greatest⟩ := ih value rest
      refine ⟨w, ?_, ?_, ?_⟩
      · obtain rfl | later := mem_cons.mp member
        · exact mem_cons_self
        · exact mem_cons_of_mem _ (mem_cons_of_mem _ later)
      · simpa [keep, rValue, value, greater] using folded
      · intro x here
        obtain rfl | later := mem_cons.mp here
        · exact greatest x mem_cons_self
        · obtain rfl | further := mem_cons.mp later
          · have := greatest c mem_cons_self
            omega
          · exact greatest x (mem_cons_of_mem _ further)

/-- A tombstone later on makes what came before irrelevant. -/
theorem foldl_keep_forgets (tombstone : rs.any isTombstone = true) (c d : Option Record) :
    rs.foldl keep c = rs.foldl keep d := by
  induction rs generalizing c d with
  | nil => simp at tombstone
  | cons r rs ih =>
    by_cases here : isTombstone r = true
    · simp [keep, here]
    · exact ih (by simpa [here] using tombstone) _ _

/-- **The survivor** is a greatest candidate. -/
theorem survivor_cons (r : Record) (rs : List Record) :
    ∃ w ∈ candidates (r :: rs), survivor (r :: rs) = some w ∧ Greatest w (candidates (r :: rs)) := by
  induction rs generalizing r with
  | nil => exact ⟨r, by simp [candidates], by simp [survivor, keep], by simp [candidates, Greatest]⟩
  | cons x rs ih =>
    unfold candidates
    by_cases later : (x :: rs).any isTombstone = true
    · rw [if_pos later]
      obtain ⟨w, member, folded, greatest⟩ := ih x
      refine ⟨w, member, ?_, greatest⟩
      rw [← folded]
      exact foldl_keep_forgets later _ _
    · rw [if_neg later]
      have values : ∀ y ∈ x :: rs, isTombstone y = false := by simpa using later
      have first : keep none r = some r := by simp [keep]
      by_cases here : isTombstone r = true
      · rw [if_pos ⟨here, by simp⟩]
        have xValue := values x mem_cons_self
        obtain ⟨w, member, folded, greatest⟩ := foldl_keep_values xValue (fun y y_in => values y (mem_cons_of_mem _ y_in))
        refine ⟨w, member, ?_, greatest⟩
        rw [← folded]
        simp [survivor, keep, xValue, here]
      · rw [if_neg (fun both => here both.1)]
        obtain ⟨w, member, folded, greatest⟩ := foldl_keep_values (by simpa using here) values
        refine ⟨w, member, ?_, greatest⟩
        rw [← folded]
        simp [survivor, first]

theorem candidates_subset : ∀ r ∈ candidates rs, r ∈ rs := by
  induction rs with
  | nil => simp [candidates]
  | cons x rs ih =>
    intro r member
    unfold candidates at member
    split at member
    · exact mem_cons_of_mem _ (ih r member)
    · split at member
      · exact mem_cons_of_mem _ member
      · exact member

/-- A tombstone among the candidates is the only one. -/
theorem candidates_tombstone {t : Record} (member : t ∈ candidates rs) (tombstone : isTombstone t = true) :
    candidates rs = [t] := by
  induction rs with
  | nil => simp [candidates] at member
  | cons x rs ih =>
    unfold candidates at member ⊢
    split at member
    · next later =>
      rw [if_pos later]
      exact ih member
    · next quiet =>
      rw [if_neg quiet]
      have values : ∀ y ∈ rs, isTombstone y = false := by simpa using quiet
      split at member
      · simp [values t member] at tombstone
      · next whole =>
        rw [if_neg whole]
        obtain rfl | later := mem_cons.mp member
        · have bare : rs = [] := by simpa [tombstone] using whole
          rw [bare]
        · simp [values t later] at tombstone

theorem survivor_eq_none : survivor rs = none ↔ rs = [] := by
  cases rs with
  | nil => simp [survivor]
  | cons r rs =>
    obtain ⟨w, -, folded, -⟩ := survivor_cons r rs
    simp [folded]

/-- What is known of a survivor. -/
theorem survivor_spec {w : Record} (survives : survivor rs = some w) : w ∈ candidates rs ∧ Greatest w (candidates rs) := by
  cases rs with
  | nil => simp [survivor] at survives
  | cons r rs =>
    obtain ⟨w', member, folded, greatest⟩ := survivor_cons r rs
    obtain rfl : w' = w := Option.some.inj (folded.symm.trans survives)
    exact ⟨member, greatest⟩

/-! ## The scan -/

/-- The records with this key. -/
def keyed (key : Bytes) (rs : List Record) : List Record := rs.filter fun r => compactionKey r == some key

def unkeyed (rs : List Record) : List Record := rs.filter fun r => compactionKey r == none

@[simp] theorem keyed_append (key : Bytes) (rs xs : List Record) : keyed key (rs ++ xs) = keyed key rs ++ keyed key xs :=
  filter_append _ _

@[simp] theorem unkeyed_append (rs xs : List Record) : unkeyed (rs ++ xs) = unkeyed rs ++ unkeyed xs :=
  filter_append _ _

/-- Records with one key only, asked for another. -/
theorem keyed_eq_nil {x : Bytes} (only : ∀ r ∈ rs, compactionKey r = none ∨ compactionKey r = some x)
    (other : key ≠ x) : keyed key rs = [] := by
  apply filter_eq_nil_iff.mpr
  intro r member
  obtain bare | named := only r member
  · simp [bare]
  · simpa [named] using Ne.symm other

theorem key_of_compactionKey (here : compactionKey r = some key) : r.key = some key ∧ key ≠ [] := by
  obtain ⟨present, nonempty⟩ := Option.filter_eq_some_iff.mp here
  exact ⟨present, by simpa using nonempty⟩

theorem survivor_keyed_append (key : Bytes) (rs : List Record) (r : Record) :
    survivor (keyed key (rs ++ [r])) =
      if compactionKey r = some key then keep (survivor (keyed key rs)) r else survivor (keyed key rs) := by
  rw [keyed_append]
  by_cases here : compactionKey r = some key
  · simp [here, keyed, survivor]
  · simp [here, keyed]

/-- The maps hold the survivor of every key among the records seen so far. -/
structure Scan.Holds (s : Scan) (rs : List Record) : Prop where
  values : ∀ key, s.keyMap.lookup key =
    ((survivor (keyed key rs)).filter fun r => !isTombstone r).map fun r => (r.offset, r.timestamp, r.value)
  tombstones : ∀ key, s.tombstones.lookup key =
    ((survivor (keyed key rs)).filter isTombstone).map fun r => (r.offset, r.timestamp)
  unkeyed : s.unkeyedRecords = Server.unkeyed rs
  processed : s.recordsProcessed = rs.length

theorem Scan.Holds.bytes (holds : s.Holds rs) (bytes : Nat) : Holds { s with originalBytes := bytes } rs :=
  ⟨holds.values, holds.tombstones, holds.unkeyed, holds.processed⟩

/-- A keyed record changes the maps at its own key only. -/
theorem Scan.Holds.set (holds : s.Holds rs) {x : Bytes}
    (here : compactionKey r = some x) {keyMap : AList fun _ : Bytes => Nat × Nat × Bytes}
    {tombstones : AList fun _ : Bytes => Nat × Nat}
    (others : ∀ key, key ≠ x → keyMap.lookup key = s.keyMap.lookup key ∧ tombstones.lookup key = s.tombstones.lookup key)
    (value : keyMap.lookup x = ((keep (survivor (keyed x rs)) r).filter fun r => !isTombstone r).map
      fun r => (r.offset, r.timestamp, r.value))
    (tombstone : tombstones.lookup x = ((keep (survivor (keyed x rs)) r).filter isTombstone).map
      fun r => (r.offset, r.timestamp)) :
    Holds { s with keyMap := keyMap, tombstones := tombstones, recordsProcessed := s.recordsProcessed + 1 }
      (rs ++ [r]) := by
  have apart : ∀ key, key ≠ x → ¬ some x = some key := fun key other same => other (Option.some.inj same).symm
  refine ⟨?_, ?_, ?_, ?_⟩
  · intro key
    rw [survivor_keyed_append, here]
    by_cases same : key = x
    · subst same
      rw [if_pos rfl]
      exact value
    · rw [if_neg (apart key same)]
      exact (others key same).1.trans (holds.values key)
  · intro key
    rw [survivor_keyed_append, here]
    by_cases same : key = x
    · subst same
      rw [if_pos rfl]
      exact tombstone
    · rw [if_neg (apart key same)]
      exact (others key same).2.trans (holds.tombstones key)
  · simp [Server.unkeyed, holds.unkeyed, filter_append, here]
  · simp [holds.processed]

/-- A value that takes the place of what the maps hold for its key. -/
theorem Scan.Holds.replaced (holds : s.Holds rs) {x : Bytes}
    (here : compactionKey r = some x) (value : isTombstone r = false) (kept : keep (survivor (keyed x rs)) r = some r) :
    Holds { s with
      keyMap := s.keyMap.insert x (r.offset, r.timestamp, r.value)
      tombstones := s.tombstones.erase x
      recordsProcessed := s.recordsProcessed + 1 } (rs ++ [r]) := by
  apply holds.set here
  · intro key other
    exact ⟨lookup_insert_ne other, lookup_erase_ne other⟩
  · simp [kept, value]
  · simp [kept, value]

/-- One record. -/
theorem Scan.Holds.record (holds : s.Holds rs) (r : Record) : (s.record r).Holds (rs ++ [r]) := by
  unfold Scan.record
  cases here : compactionKey r with
  | none =>
    refine ⟨?_, ?_, ?_, ?_⟩
    · intro key
      rw [survivor_keyed_append, here, if_neg (by simp)]
      exact holds.values key
    · intro key
      rw [survivor_keyed_append, here, if_neg (by simp)]
      exact holds.tombstones key
    · simp [Server.unkeyed, holds.unkeyed, filter_append, here]
    · simp [holds.processed]
  | some x =>
    by_cases tombstone : isTombstone r = true
    · simp only [tombstone, if_true]
      apply holds.set here
      · intro key other
        exact ⟨lookup_erase_ne other, lookup_insert_ne other⟩
      · simp [keep, tombstone]
      · simp [keep, tombstone]
    · replace tombstone : isTombstone r = false := by simpa using tombstone
      have looked := holds.values x
      simp only [tombstone, Bool.false_eq_true, if_false]
      -- the code compares with the map's value; a tombstone or nothing there means no value
      cases current : survivor (keyed x rs) with
      | none =>
        simp only [looked, current, Option.filter_none, Option.map_none, if_true]
        exact holds.replaced here tombstone (by simp [current, keep, tombstone])
      | some c =>
        by_cases dead : isTombstone c = true
        · simp only [looked, current, Option.filter_some, dead, Bool.not_true, Bool.false_eq_true, if_false,
            Option.map_none, if_true]
          exact holds.replaced here tombstone (by simp [current, keep, tombstone, dead])
        · replace dead : isTombstone c = false := by simpa using dead
          simp only [looked, current, Option.filter_some, dead, Bool.not_false, if_true, Option.map_some]
          by_cases greater : r.offset > c.offset
          · simp only [greater, decide_true, if_true]
            exact holds.replaced here tombstone (by simp [current, keep, tombstone, greater])
          · simp only [greater, decide_false, Bool.false_eq_true, if_false]
            have kept : keep (survivor (keyed x rs)) r = survivor (keyed x rs) := by
              simp [current, keep, tombstone, dead, greater]
            apply holds.set here
            · exact fun key _ => ⟨rfl, rfl⟩
            · rw [kept]
              exact holds.values x
            · rw [kept]
              exact holds.tombstones x

/-- All records of a segment. -/
theorem Scan.Holds.records {seen : List Record} (holds : s.Holds seen) (rs : List Record) :
    (rs.foldl Scan.record s).Holds (seen ++ rs) := by
  induction rs generalizing s seen with
  | nil => simpa using holds
  | cons r rs ih =>
    have after := ih (holds.record r)
    simpa using after

theorem Scan.empty_holds : empty.Holds [] := by
  refine ⟨?_, ?_, rfl, rfl⟩
  · intro key
    simp [empty, keyed, survivor]
  · intro key
    simp [empty, keyed, survivor]

/-- A segment's records as they are read. -/
def contents (s : Shared) (seg : SegmentInfo) : List Record := (readObject s seg.s3Key).getD []

/-- The segments before the one at which the record limit is found to be reached. -/
def scanned (cfg : CompactionConfig) (s : Shared) (processed : Nat) : List SegmentInfo → List SegmentInfo
  | [] => []
  | seg :: rest =>
    if processed ≥ cfg.maxRecordsPerRun then []
    else seg :: scanned cfg s (processed + (contents s seg).length) rest

/-- The segments beyond the record limit. -/
def unscanned (cfg : CompactionConfig) (s : Shared) (processed : Nat) : List SegmentInfo → List SegmentInfo
  | [] => []
  | seg :: rest =>
    if processed ≥ cfg.maxRecordsPerRun then seg :: rest
    else unscanned cfg s (processed + (contents s seg).length) rest

theorem scanned_append_unscanned (cfg : CompactionConfig) (s : Shared) (processed : Nat) (segs : List SegmentInfo) :
    scanned cfg s processed segs ++ unscanned cfg s processed segs = segs := by
  induction segs generalizing processed with
  | nil => rfl
  | cons seg rest ih =>
    unfold scanned unscanned
    split
    · rfl
    · rw [cons_append, ih]

/-- **The scan** holds the survivors of the segments before the limit. -/
theorem scanSegments_ok {s : Shared} {segs : List SegmentInfo} {acc : Scan} {seen : List Record} (holds : acc.Holds seen)
    (done : scanSegments cfg env s segs acc = .ok scan) :
    scan.Holds (seen ++ (scanned cfg s acc.recordsProcessed segs).flatMap (contents s)) := by
  induction segs generalizing acc seen with
  | nil =>
    cases done
    simpa [scanned] using holds
  | cons seg rest ih =>
    unfold scanSegments at done
    unfold scanned
    split at done
    · next limit =>
      cases done
      rw [if_pos limit]
      simpa using holds
    · next below =>
      rw [if_neg below]
      unfold readSegment at done
      cases object : readObject s seg.s3Key with
      | none => simp [object] at done
      | some records =>
        rw [object] at done
        by_cases parses : env.parseOk seg.s3Key = true
        · simp only [parses, if_true] at done
          have read : contents s seg = records := by simp [contents, object]
          have after := ih ((holds.bytes _).records records) done
          have processed : (records.foldl Scan.record
              { acc with originalBytes := acc.originalBytes + seg.sizeBytes }).recordsProcessed =
              acc.recordsProcessed + records.length := by
            rw [((holds.bytes _).records records).processed, length_append, holds.processed]
          rw [processed, append_assoc] at after
          rw [flatMap_cons, read]
          exact after
        · simp [parses] at done

/-! ## The output -/

/-- The entries of a map with one key. -/
theorem filter_entries {β : Bytes → Type} {l : List (Sigma β)} (distinct : l.NodupKeys) (key : Bytes) :
    l.filter (fun e => e.1 = key) = (l.dlookup key).toList.map (Sigma.mk key) := by
  induction l with
  | nil => rfl
  | cons e l ih =>
    obtain ⟨k, v⟩ := e
    obtain ⟨fresh, rest⟩ := nodupKeys_cons.mp distinct
    by_cases same : k = key
    · subst same
      have none_ : l.dlookup k = none := dlookup_eq_none.mpr fresh
      simp [ih rest, none_]
    · rw [filter_cons_of_neg (by simpa using same), ih rest, dlookup_cons_ne _ _ (Ne.symm same)]

/-- All that goes into the output, before it is put in order. -/
def collected (cfg : CompactionConfig) (nowMs : Int) (scan : Scan) : List Record :=
  (scan.keyMap.entries.map fun e => (⟨e.2.1, e.2.2.1, some e.1, e.2.2.2⟩ : Record)) ++
    ((scan.tombstones.entries.map fun e => (⟨e.2.1, e.2.2, some e.1, []⟩ : Record)).filter
      fun r => !isExpired cfg nowMs r) ++ scan.unkeyedRecords

theorem compactedRecords_perm (cfg : CompactionConfig) (nowMs : Int) (order : HashOrder) (scan : Scan) :
    (compactedRecords cfg nowMs order scan).Perm (collected cfg nowMs scan) := by
  refine (perm_insertionSort _ _).trans ?_
  exact ((order.perm _).append (order.perm _)).append_right _

theorem survivor_mem {w : Record} (survives : survivor (keyed key rs) = some w) : w ∈ rs ∧ compactionKey w = some key := by
  have member := candidates_subset w (survivor_spec survives).1
  obtain ⟨here, same⟩ := mem_filter.mp member
  exact ⟨here, by simpa using same⟩

theorem compactionKey_of (nonempty : key ≠ []) (offset timestamp : Nat) (value : Bytes) :
    compactionKey ⟨offset, timestamp, some key, value⟩ = some key := by
  cases key with
  | nil => exact absurd rfl nonempty
  | cons b bs => rfl

/-- Entries turned into records, those with one key. -/
theorem keyed_entries {β : Type} (m : AList fun _ : Bytes => β) (f : Bytes → β → Record)
    (named : ∀ key v, key ≠ [] → compactionKey (f key v) = some key) (bare : ∀ v, compactionKey (f [] v) = none) (key : Bytes)
    (nonempty : key ≠ []) :
    keyed key (m.entries.map fun e => f e.1 e.2) = (m.lookup key).toList.map (f key) := by
  have same : ∀ e : Sigma fun _ : Bytes => β, (compactionKey (f e.1 e.2) == some key) = decide (e.1 = key) := by
    intro e
    obtain ⟨k, v⟩ := e
    by_cases empty : k = []
    · subst empty
      simp [bare, Ne.symm nonempty]
    · rw [named k v empty]
      by_cases same : k = key <;> simp [same]
  unfold keyed
  rw [filter_map]
  simp only [Function.comp_def, same]
  rw [filter_entries m.nodupKeys key, map_map]
  rfl

/-- **The output of one key**: its survivor, unless that is an expired tombstone. -/
theorem keyed_collected (holds : scan.Holds rs) (key : Bytes) :
    keyed key (collected cfg nowMs scan) = ((survivor (keyed key rs)).filter fun r => !isExpired cfg nowMs r).toList := by
  by_cases empty : key = []
  · have nobody : ∀ r : Record, (compactionKey r == some []) = false := by
      intro r
      by_contra here
      exact (key_of_compactionKey (by simpa using here)).2 rfl
    subst empty
    simp [keyed, nobody, survivor]
  · have values := keyed_entries scan.keyMap (fun k v => ⟨v.1, v.2.1, some k, v.2.2⟩)
      (fun k v some_ => compactionKey_of some_ _ _ _) (fun v => rfl) key empty
    have tombs := keyed_entries scan.tombstones (fun k v => ⟨v.1, v.2, some k, []⟩)
      (fun k v some_ => compactionKey_of some_ _ _ _) (fun v => rfl) key empty
    have rest : keyed key scan.unkeyedRecords = [] := by
      rw [holds.unkeyed]
      simp only [keyed, unkeyed, filter_eq_nil_iff, mem_filter]
      intro r member
      have bare : compactionKey r = none := by simpa using member.2
      simp [bare]
    unfold collected
    rw [keyed, filter_append, filter_append, ← keyed, ← keyed, ← keyed, values, rest, append_nil,
      keyed, filter_comm, ← keyed, tombs, holds.values, holds.tombstones]
    cases survives : survivor (keyed key rs) with
    | none => simp
    | some w =>
      obtain ⟨-, named⟩ := survivor_mem survives
      obtain ⟨offset, timestamp, k, value⟩ := w
      obtain ⟨rfl, -⟩ := key_of_compactionKey named
      cases value with
      | nil =>
        cases expired : isExpired cfg nowMs ⟨offset, timestamp, some key, []⟩ with
        | true => simp [isTombstone, expired, Option.filter_some]
        | false => simp [isTombstone, expired, Option.filter_some]
      | cons b bs => simp [isTombstone, isExpired, Option.filter_some]

/-- What compaction is for: of the segments it removes, in offset order, every unkeyed
record and for each key a record of greatest offset, or none if that is a tombstone
older than the retention. -/
structure Exact (cfg : CompactionConfig) (nowMs : Int) (removed out : List Record) : Prop where
  ordered : out.Pairwise fun a b => a.offset ≤ b.offset
  unkeyed : (Server.unkeyed out).Perm (Server.unkeyed removed)
  keyed : ∀ key, keyed key removed = [] ∧ keyed key out = [] ∨
    ∃ r ∈ keyed key removed, Greatest r (keyed key removed) ∧ keyed key out = if isExpired cfg nowMs r then [] else [r]

/-- Of the records of one key, `read` being those before the record limit: among those
read after the last tombstone (or that tombstone) is one of greatest offset; or both
the greatest and what was read last are expired tombstones. -/
def KeyRead (cfg : CompactionConfig) (nowMs : Int) (read all : List Record) : Prop :=
  all = [] ∨ (∃ r ∈ candidates read, Greatest r all) ∨
    (∀ r ∈ candidates read, isExpired cfg nowMs r = true) ∧ ∃ r ∈ all, Greatest r all ∧ isExpired cfg nowMs r = true

theorem isExpired_tombstone (expired : isExpired cfg nowMs r = true) : isTombstone r = true := by
  unfold isExpired at expired
  simp only [Bool.and_eq_true] at expired
  exact expired.1

/-- One key of the output. -/
theorem keyRead_iff {read all : List Record} (sub : ∀ r ∈ read, r ∈ all) : KeyRead cfg nowMs read all ↔
      (all = [] ∧ ((survivor read).filter fun r => !isExpired cfg nowMs r).toList = [] ∨
        ∃ r ∈ all, Greatest r all ∧
          ((survivor read).filter fun r => !isExpired cfg nowMs r).toList = if isExpired cfg nowMs r then [] else [r]) := by
  cases survives : survivor read with
  | none =>
    have nothing := survivor_eq_none.mp survives
    subst nothing
    simp only [KeyRead, candidates, Option.filter_none, Option.toList_none, and_true]
    constructor
    · rintro (bare | ⟨r, member, -⟩ | ⟨-, r, member, greatest, expired⟩)
      · exact .inl bare
      · cases member
      · exact .inr ⟨r, member, greatest, by simp [expired]⟩
    · rintro (bare | ⟨r, member, greatest, dropped⟩)
      · exact .inl bare
      · refine .inr (.inr ⟨by simp, r, member, greatest, ?_⟩)
        by_contra kept
        simp [kept] at dropped
  | some w =>
    obtain ⟨candidate, best⟩ := survivor_spec survives
    have here : w ∈ all := sub w (candidates_subset w candidate)
    have occurs : all ≠ [] := ne_nil_of_mem here
    by_cases expired : isExpired cfg nowMs w = true
    · have only := candidates_tombstone candidate (isExpired_tombstone expired)
      simp only [KeyRead, occurs, false_and, false_or, only, Option.filter_some, expired, Bool.not_true, Bool.false_eq_true,
        if_false, Option.toList_none]
      constructor
      · rintro (⟨r, member, greatest⟩ | ⟨-, r, member, greatest, old⟩)
        · obtain rfl := mem_singleton.mp member
          exact ⟨r, here, greatest, by simp [expired]⟩
        · exact ⟨r, member, greatest, by simp [old]⟩
      · rintro ⟨r, member, greatest, dropped⟩
        refine .inr ⟨by simpa using expired, r, member, greatest, ?_⟩
        by_contra kept
        simp [kept] at dropped
    · have kept : ((some w).filter fun r => !isExpired cfg nowMs r).toList = [w] := by simp [Option.filter_some, expired]
      simp only [KeyRead, occurs, false_and, false_or, kept]
      constructor
      · rintro (⟨r, member, greatest⟩ | ⟨old, -⟩)
        · refine ⟨w, here, ?_, by simp [expired]⟩
          intro x member'
          exact Nat.le_trans (greatest x member') (best r member)
        · exact absurd (old w candidate) expired
      · rintro ⟨r, member, greatest, same⟩
        by_cases old : isExpired cfg nowMs r = true
        · simp [old] at same
        · obtain rfl : w = r := by simpa [old] using same
          exact .inl ⟨w, candidate, greatest⟩

theorem compactedRecords_ordered (cfg : CompactionConfig) (nowMs : Int) (order : HashOrder) (scan : Scan) :
    (compactedRecords cfg nowMs order scan).Pairwise fun a b => a.offset ≤ b.offset := by
  have total : Std.Total fun a b : Record => a.offset ≤ b.offset := ⟨fun a b => Nat.le_total _ _⟩
  have trans : IsTrans Record fun a b => a.offset ≤ b.offset := ⟨fun a b c => Nat.le_trans⟩
  exact pairwise_insertionSort _ _

/-- Lists of at most one element that are permutations of each other. -/
theorem keyed_perm {as bs : List Record} (perm : as.Perm bs) {o : Option Record}
    (single : keyed key bs = o.toList) : keyed key as = o.toList := by
  have same := perm.filter fun r => compactionKey r == some key
  change (keyed key as).Perm (keyed key bs) at same
  rw [single] at same
  cases o with
  | none => exact Perm.eq_nil same
  | some r => exact perm_singleton.mp same

theorem keyed_compacted (holds : scan.Holds rs) (key : Bytes) : keyed key (compactedRecords cfg nowMs order scan) =
      ((survivor (keyed key rs)).filter fun r => !isExpired cfg nowMs r).toList :=
  keyed_perm (compactedRecords_perm cfg nowMs order scan) (keyed_collected holds key)

theorem Scan.Holds.nonempty (holds : scan.Holds rs) : [] ∉ scan.keyMap ∧ [] ∉ scan.tombstones := by
  have nobody : keyed [] rs = [] := by
    rw [keyed, filter_eq_nil_iff]
    intro r _ here
    exact (key_of_compactionKey (by simpa using here)).2 rfl
  have value := holds.values []
  have tombstone := holds.tombstones []
  rw [nobody] at value tombstone
  exact ⟨lookup_eq_none.mp value, lookup_eq_none.mp tombstone⟩

theorem unkeyed_entries {β : Type} (m : AList fun _ : Bytes => β) (f : Bytes → β → Record)
    (named : ∀ key v, key ≠ [] → compactionKey (f key v) = some key) (nonempty : [] ∉ m) :
    unkeyed (m.entries.map fun e => f e.1 e.2) = [] := by
  simp only [unkeyed, filter_eq_nil_iff, mem_map]
  rintro r ⟨e, member, rfl⟩
  have occurs : e.1 ≠ [] := by
    intro empty
    exact nonempty (empty ▸ mem_keys.mpr (mem_keys_of_mem member))
  simp [named e.1 e.2 occurs]

/-- The unkeyed records are all there. -/
theorem unkeyed_compacted (holds : scan.Holds rs) : (unkeyed (compactedRecords cfg nowMs order scan)).Perm (unkeyed rs) := by
  obtain ⟨noValue, noTombstone⟩ := holds.nonempty
  have values := unkeyed_entries scan.keyMap (fun k v => ⟨v.1, v.2.1, some k, v.2.2⟩)
    (fun k v some_ => compactionKey_of some_ _ _ _) noValue
  have tombs := unkeyed_entries scan.tombstones (fun k v => ⟨v.1, v.2, some k, []⟩)
    (fun k v some_ => compactionKey_of some_ _ _ _) noTombstone
  have same : unkeyed (collected cfg nowMs scan) = unkeyed rs := by
    unfold collected
    rw [unkeyed, filter_append, filter_append, ← unkeyed, ← unkeyed, values, unkeyed,
      filter_comm, ← unkeyed, tombs, holds.unkeyed]
    simp [unkeyed]
  rw [← same]
  exact (compactedRecords_perm cfg nowMs order scan).filter _

/-- No record is made up. -/
theorem compacted_mem (holds : scan.Holds rs) (member : r ∈ compactedRecords cfg nowMs order scan) : r ∈ rs := by
  cases here : compactionKey r with
  | none =>
    have bare : r ∈ unkeyed (compactedRecords cfg nowMs order scan) := mem_filter.mpr ⟨member, by simp [here]⟩
    exact mem_of_mem_filter ((unkeyed_compacted holds).mem_iff.mp bare)
  | some key =>
    have named : r ∈ keyed key (compactedRecords cfg nowMs order scan) := mem_filter.mpr ⟨member, by simp [here]⟩
    rw [keyed_compacted holds, Option.mem_toList] at named
    exact (survivor_mem (Option.filter_eq_some_iff.mp named).1).1

theorem contents_stored {s : Shared} {segs : List SegmentInfo} (member : r ∈ segs.flatMap (contents s)) : r.stored = r := by
  obtain ⟨seg, -, here⟩ := mem_flatMap.mp member
  simp only [contents, readObject] at here
  cases object : s.objects seg.s3Key with
  | none => simp [object] at here
  | some records =>
    simp only [object, Option.map_some, Option.getD_some, mem_map] at here
    obtain ⟨x, -, rfl⟩ := here
    simp [Record.stored, Option.filter_filter]

/-- What a plan is made of. -/
structure Planned (cfg : CompactionConfig) (env : CompactionEnv) (order : HashOrder) (k : PartitionKey) (s : Shared)
    (p : Plan) : Prop where
  segments : p.segmentsToCompact = eligible cfg env.nowMs (s.metadata.getSegments k)
  enough : 2 ≤ p.segmentsToCompact.length
  holds : p.scan.Holds ((scanned cfg s 0 p.segmentsToCompact).flatMap (contents s))
  compacted : p.compacted = compactedRecords cfg env.nowMs order p.scan

theorem plan_ok {k : PartitionKey} {s : Shared} {p : Plan}
    (planned : plan cfg env order k s = .ok (some p)) : Planned cfg env order k s p := by
  unfold plan at planned
  split at planned
  · cases planned
  · dsimp only at planned
    split at planned
    · cases planned
    · next enough =>
      split at planned
      · cases planned
      · next scan done =>
        obtain rfl := Option.some.inj (Except.ok.inj planned)
        exact ⟨rfl, Nat.le_of_not_lt enough, scanSegments_ok empty_holds done, rfl⟩

/-- The records of the segments that are read. -/
def Plan.read (cfg : CompactionConfig) (s : Shared) (p : Plan) : List Record :=
  (scanned cfg s 0 p.segmentsToCompact).flatMap (contents s)

/-- The records of the segments that are removed without being read. -/
def Plan.unread (cfg : CompactionConfig) (s : Shared) (p : Plan) : List Record :=
  (unscanned cfg s 0 p.segmentsToCompact).flatMap (contents s)

/-- The records of the segments that are removed. -/
def Plan.removed (s : Shared) (p : Plan) : List Record := p.segmentsToCompact.flatMap (contents s)

/-- The segment that is written, as it is read back. -/
def Plan.written (p : Plan) : List Record := p.compacted.map Record.stored

theorem Plan.removed_eq (cfg : CompactionConfig) (s : Shared) (p : Plan) : p.removed s = p.read cfg s ++ p.unread cfg s := by
  rw [removed, read, unread, ← flatMap_append, scanned_append_unscanned]

theorem Planned.written {k : PartitionKey} {s : Shared}
    {p : Plan} (planned : Planned cfg env order k s p) : p.written = compactedRecords cfg env.nowMs order p.scan := by
  rw [Plan.written, planned.compacted]
  refine (map_congr_left ?_).trans (map_id _)
  intro r member
  exact contents_stored (compacted_mem planned.holds member)

/-- **Compaction is exact** just when no segment beyond the record limit has an unkeyed
record and the scan has read what it takes of each key. -/
theorem exact_iff {cfg : CompactionConfig} {env : CompactionEnv} {order : HashOrder} {k : PartitionKey} {s : Shared} {p : Plan}
    (planned : plan cfg env order k s = .ok (some p)) :
    Exact cfg env.nowMs (p.removed s) p.written ↔
      unkeyed (p.unread cfg s) = [] ∧
        ∀ key, KeyRead cfg env.nowMs (keyed key (p.read cfg s)) (keyed key (p.removed s)) := by
  have parts := plan_ok planned
  have perm : (unkeyed (compactedRecords cfg env.nowMs order p.scan)).Perm (unkeyed (p.read cfg s)) :=
    unkeyed_compacted parts.holds
  have sub : ∀ key, ∀ r ∈ keyed key (p.read cfg s), r ∈ keyed key (p.removed s) := by
    intro key r member
    rw [removed_eq cfg, keyed_append]
    exact mem_append_left _ member
  rw [parts.written]
  constructor
  · intro exact_
    constructor
    · have lengths := (perm.symm.trans exact_.unkeyed).length_eq
      rw [removed_eq cfg, unkeyed_append, length_append] at lengths
      apply eq_nil_of_length_eq_zero
      omega
    · intro key
      have this := exact_.keyed key
      rw [keyed_compacted parts.holds] at this
      exact (keyRead_iff (sub key)).mpr this
  · rintro ⟨bare, keys⟩
    refine ⟨compactedRecords_ordered cfg env.nowMs order p.scan, ?_, ?_⟩
    · rw [removed_eq cfg, unkeyed_append, bare, append_nil]
      exact perm
    · intro key
      rw [keyed_compacted parts.holds]
      exact (keyRead_iff (sub key)).mp (keys key)

namespace Example

def orders : PartitionKey := ⟨"acme", "orders", 0⟩

/-- A segment the partition's writer registered. -/
def segment (baseOffset endOffset : Nat) : SegmentInfo :=
  ⟨.segment "orders" 0 baseOffset, "orders", 0, baseOffset, endOffset, endOffset + 1 - baseOffset, 90, "bucket",
    .segment (.org "acme") "orders" 0 baseOffset, 0, 0, 0⟩

/-- A value, then in a second segment its tombstone and an unkeyed record. -/
def twoSegments : Shared where
  objects key :=
    if key = (segment 0 0).s3Key then some [⟨0, 0, some [107], [1]⟩]
    else if key = (segment 1 2).s3Key then some [⟨1, 0, some [107], []⟩, ⟨2, 0, none, [3]⟩]
    else none
  metadata := ⟨[⟨"acme", segment 0 0⟩, ⟨"acme", segment 1 2⟩], fun key => if key = orders then some 3 else none⟩

def compaction (maxRecordsPerRun : Nat) : CompactionConfig := ⟨maxRecordsPerRun, 10, 100⟩

/-- The clock reads `nowMs` and nothing fails. -/
def working (nowMs : Int) : CompactionEnv := ⟨nowMs, true, fun _ => true, 120, true, true, fun _ => true, true⟩

def insertionOrder : HashOrder := ⟨id, fun _ => .refl _⟩

end Example

open Example

/-- The limit is reached in the first segment; the second is removed unread, and the
value outlives its tombstone. -/
theorem exact_fails : ∃ p, plan (compaction 1) (working 50) insertionOrder orders
      twoSegments = .ok (some p) ∧
    p.removed twoSegments = [⟨0, 0, some [107], [1]⟩, ⟨1, 0, some [107], []⟩, ⟨2, 0, none, [3]⟩] ∧
    p.written = [⟨0, 0, some [107], [1]⟩] ∧
    ¬ Exact (compaction 1) 50 (p.removed twoSegments) p.written := by
  refine ⟨_, rfl, by decide, by decide, ?_⟩
  intro exact_
  have lengths := exact_.unkeyed.length_eq
  revert lengths
  decide

/-- With room for both segments the tombstone is what is left of the key. -/
theorem exact_iff_both_read : ∃ p, plan (compaction 10) (working 50) insertionOrder orders
      twoSegments = .ok (some p) ∧
    p.written = [⟨1, 0, some [107], []⟩, ⟨2, 0, none, [3]⟩] ∧
    Exact (compaction 10) 50 (p.removed twoSegments) p.written := by
  have planned : plan (compaction 10) (working 50) insertionOrder orders
    twoSegments = .ok (some _) := rfl
  refine ⟨_, planned, by decide, (exact_iff planned).mpr ⟨by decide, ?_⟩⟩
  intro key
  by_cases same : key = [107]
  · subst same
    exact .inr (.inl ⟨⟨1, 0, some [107], []⟩, by decide, by decide⟩)
  · refine .inl (keyed_eq_nil ?_ same)
    decide

end StreamHouse.Server
