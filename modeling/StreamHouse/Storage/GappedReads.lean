import StreamHouse.Storage.SegmentIndex

/-!
# Reads of a partition with gaps

`PartitionReader::read` asks the segment index for the offset behind the segment it
has read, and where no segment has that offset it ends: it takes a gap between two
segments, and a segment without records behind the offset, for the end of the log.
`answers_iff` says which reads are not affected.
-/

namespace StreamHouse.Storage
open Metadata List

/-- What the index keeps of the segments. -/
def keptSegments (segments : List SegmentInfo) : List SegmentInfo := segments.drop (segments.length - maxSegments)

/-- The partition's segments, listed by base offset, do not overlap, and each holds records of its range in order. -/
structure PartitionView.HoldsSegments (view : PartitionView) (segments : List SegmentInfo)
    (contents : SegmentInfo → List Record) (highWatermark : Nat) : Prop where
  registered : view.getSegments = .ok segments
  partition : view.getPartition = .ok (some highWatermark)
  ordered : ∀ s ∈ segments, s.baseOffset ≤ s.endOffset
  apart : segments.Pairwise fun s t => s.endOffset < t.baseOffset
  covered : ∀ s ∈ segments, ∀ r ∈ contents s, Covers r.offset s
  increasing : ∀ s ∈ segments, (contents s).Pairwise fun r q => r.offset < q.offset
  stored : ∀ s ∈ segments, ∃ chunks, view.openSegment s = .ok (blocksOf chunks) ∧ (∀ chunk ∈ chunks, chunk ≠ []) ∧
    chunks.flatten = contents s

/-- The records of the log from an offset on. -/
def recordsFrom (log : List Record) (offset : Nat) : List Record := log.filter fun r => offset ≤ r.offset

/-- The records of the log from `first` on that are below `next`. -/
def recordsBetween (log : List Record) (first next : Nat) : List Record :=
  log.filter fun r => first ≤ r.offset && decide (r.offset < next)

/-- The read gives the first records from the offset on, or says that it finds the offset nowhere if there are none. -/
def PartitionView.Answers (view : PartitionView) (log : List Record) (highWatermark startOffset maxRecords : Nat) : Prop :=
  view.read startOffset maxRecords = .ok ⟨(recordsFrom log startOffset).take maxRecords, highWatermark⟩ ∨
    (recordsFrom log startOffset = [] ∧ view.read startOffset maxRecords = .error (.offsetNotFound startOffset))

/-- The offsets a read may look for: its start, and those behind the end of a segment. -/
def LooksFor (segments : List SegmentInfo) (startOffset offset : Nat) : Prop :=
  offset = startOffset ∨ ∃ s ∈ segments, startOffset ≤ s.endOffset ∧ offset = s.endOffset + 1

/-- A segment that the index keeps has the offset, and a record there or behind it. -/
def GoesOn (segments : List SegmentInfo) (contents : SegmentInfo → List Record) (offset : Nat) : Prop :=
  ∃ s ∈ keptSegments segments, Covers offset s ∧ ∃ r ∈ contents s, offset ≤ r.offset

/-- Wherever the read has too few records and there are more, it can go on. -/
def Unbroken (segments : List SegmentInfo) (contents : SegmentInfo → List Record) (startOffset maxRecords : Nat) : Prop :=
  ∀ offset, LooksFor segments startOffset offset →
    (recordsBetween (segments.flatMap contents) startOffset offset).length < maxRecords →
    (∃ r ∈ segments.flatMap contents, offset ≤ r.offset) → GoesOn segments contents offset

/-! ## A log in order -/

section Log

variable {log : List Record}

section

variable (increasing : log.Pairwise fun r q => r.offset < q.offset)
include increasing

theorem filter_split (p : Record → Bool) (cut : Nat) :
    log.filter (fun r => p r && decide (r.offset < cut)) ++ log.filter (fun r => p r && decide (cut ≤ r.offset)) = log.filter p := by
  induction log with
  | nil => rfl
  | cons r log ih =>
    obtain ⟨above, rest⟩ := pairwise_cons.mp increasing
    by_cases below : r.offset < cut
    · have other : ¬ cut ≤ r.offset := by omega
      simp only [filter_cons, below, other, decide_true, decide_false, Bool.and_true, Bool.and_false]
      cases p r with
      | true => simpa using ih rest
      | false => simpa using ih rest
    · have none_ : log.filter (fun q => p q && decide (q.offset < cut)) = [] := by
        apply filter_eq_nil_iff.mpr
        intro q inside
        have higher := above q inside
        simp only [Bool.and_eq_true, decide_eq_true_eq]
        omega
      have other : cut ≤ r.offset := by omega
      have tail := ih rest
      rw [none_, nil_append] at tail
      simp only [filter_cons, below, other, decide_true, decide_false, Bool.and_true, Bool.and_false, none_, tail]
      cases p r <;> rfl

theorem recordsBetween_append {first middle next : Nat}
    (before : first ≤ middle) (after : middle ≤ next) :
    recordsBetween log first middle ++ recordsBetween log middle next = recordsBetween log first next := by
  have whole := filter_split increasing (fun r => first ≤ r.offset && decide (r.offset < next)) middle
  unfold recordsBetween
  rw [← whole]
  congr 1
  · apply filter_congr
    intro r _
    rw [Bool.eq_iff_iff]
    simp only [Bool.and_eq_true, decide_eq_true_eq]
    omega
  · apply filter_congr
    intro r _
    rw [Bool.eq_iff_iff]
    simp only [Bool.and_eq_true, decide_eq_true_eq]
    omega

theorem recordsFrom_eq {first middle : Nat} (before : first ≤ middle) :
    recordsFrom log first = recordsBetween log first middle ++ recordsFrom log middle := by
  rw [recordsFrom, recordsFrom, recordsBetween, ← filter_split increasing _ middle]
  congr 1
  apply filter_congr
  intro r _
  rw [Bool.eq_iff_iff]
  simp only [Bool.and_eq_true, decide_eq_true_eq]
  omega


end
theorem recordsFrom_eq_nil_iff {offset : Nat} : recordsFrom log offset = [] ↔ ¬ ∃ r ∈ log, offset ≤ r.offset := by
  simp only [recordsFrom, filter_eq_nil_iff, decide_eq_true_eq, not_exists, not_and]

end Log

/-! ## The index of segments that do not overlap -/

/-- The segment with an offset is the one found. -/
theorem lookupInIndex_iff {index : List SegmentInfo} (ordered : ∀ s ∈ index, s.baseOffset ≤ s.endOffset)
    (apart : index.Pairwise fun s t => s.endOffset < t.baseOffset) {offset : Nat} {s : SegmentInfo} :
    lookupInIndex index offset = some s ↔ s ∈ index ∧ Covers offset s := by
  constructor
  · exact of_lookupInIndex
  · rintro ⟨inside, least, most⟩
    obtain ⟨before, after, rfl⟩ := append_of_mem inside
    obtain ⟨-, later, earlier⟩ := List.pairwise_append.mp apart
    have front : before.filter (fun t => t.baseOffset ≤ offset) = before := by
      apply filter_eq_self.mpr
      intro t listed
      have beyond := earlier t listed s mem_cons_self
      have wide := ordered t (mem_append_left _ listed)
      simp only [decide_eq_true_eq]
      omega
    have back : after.filter (fun t => t.baseOffset ≤ offset) = [] := by
      apply filter_eq_nil_iff.mpr
      intro t listed
      have beyond := (pairwise_cons.mp later).1 t listed
      simp only [decide_eq_true_eq]
      omega
    have candidates : (before ++ s :: after).filter (fun t => t.baseOffset ≤ offset) = before ++ [s] := by
      rw [filter_append, filter_cons_of_pos (by simpa using least), front, back]
    rw [lookupInIndex, candidates, getLast?_concat]
    exact if_pos ⟨least, most⟩

namespace PartitionView.HoldsSegments

variable {view : PartitionView} {segments : List SegmentInfo} {contents : SegmentInfo → List Record} {highWatermark : Nat}

section

variable (holds : view.HoldsSegments segments contents highWatermark)
include holds

theorem refreshIndex_eq :
    refreshIndex segments = keptSegments segments := by
  have sorted : segments.Pairwise fun s t => s.baseOffset < t.baseOffset := by
    apply holds.apart.imp_of_mem
    intro s t inside _ beyond
    have wide := holds.ordered s inside
    omega
  have built := @foldl_insertSegment [] segments sorted
  rw [refreshIndex, built, nil_append]
  rfl

theorem find (offset : Nat) :
    ∃ found, view.findSegmentForOffset offset = .ok found ∧
      ∀ s, found = some s ↔ s ∈ keptSegments segments ∧ Covers offset s := by
  refine ⟨lookupInIndex (keptSegments segments) offset, ?_, fun s => ?_⟩
  · rw [findSegmentForOffset, holds.registered, ← holds.refreshIndex_eq]
    rfl
  · apply lookupInIndex_iff
    · exact fun s inside => holds.ordered s (mem_of_mem_drop inside)
    · exact holds.apart.drop

theorem disjoint {s t : SegmentInfo} (first : s ∈ segments)
    (second : t ∈ segments) : s = t ∨ s.endOffset < t.baseOffset ∨ t.endOffset < s.baseOffset := by
  obtain ⟨before, after, rfl⟩ := append_of_mem first
  obtain ⟨-, later, earlier⟩ := List.pairwise_append.mp holds.apart
  obtain early | here := mem_append.mp second
  · exact .inr (.inr (earlier t early s mem_cons_self))
  · obtain rfl | late := mem_cons.mp here
    · exact .inl rfl
    · exact .inr (.inl ((pairwise_cons.mp later).1 t late))

/-- The log is in order. -/
theorem log_increasing :
    (segments.flatMap contents).Pairwise fun r q => r.offset < q.offset := by
  refine pairwise_flatMap.mpr ⟨holds.increasing, ?_⟩
  apply holds.apart.imp_of_mem
  intro s t first second beyond r inS q inT
  have high := (holds.covered s first r inS).2
  have low := (holds.covered t second q inT).1
  omega

/-- A segment's records from an offset on. -/
theorem readSegment_eq {s : SegmentInfo} (inside : s ∈ segments)
    (offset : Nat) : view.readSegment s offset = .ok (recordsFrom (contents s) offset) := by
  obtain ⟨chunks, opened, full, whole⟩ := holds.stored s inside
  have increasing := holds.increasing s inside
  rw [readSegment, opened]
  show readFromOffset (blocksOf chunks) offset = _
  rw [readFromOffset_blocksOf full (by rw [whole]; exact increasing), whole]
  rfl

/-- What a segment has from one of its offsets on is the log up to its end. -/
theorem recordsFrom_contents {s : SegmentInfo}
    (inside : s ∈ segments) {offset : Nat} (covers : Covers offset s) :
    recordsFrom (contents s) offset = recordsBetween (segments.flatMap contents) offset (s.endOffset + 1) := by
  obtain ⟨before, after, rfl⟩ := append_of_mem inside
  obtain ⟨-, later, earlier⟩ := List.pairwise_append.mp holds.apart
  obtain ⟨least, most⟩ := covers
  have front : (before.flatMap contents).filter (fun r => offset ≤ r.offset && decide (r.offset < s.endOffset + 1)) = [] := by
    apply filter_eq_nil_iff.mpr
    intro r stored
    obtain ⟨t, listed, inT⟩ := mem_flatMap.mp stored
    have high := (holds.covered t (mem_append_left _ listed) r inT).2
    have beyond := earlier t listed s mem_cons_self
    simp only [Bool.and_eq_true, decide_eq_true_eq]
    omega
  have back : (after.flatMap contents).filter (fun r => offset ≤ r.offset && decide (r.offset < s.endOffset + 1)) = [] := by
    apply filter_eq_nil_iff.mpr
    intro r stored
    obtain ⟨t, listed, inT⟩ := mem_flatMap.mp stored
    have low := (holds.covered t (by simp [listed]) r inT).1
    have beyond := (pairwise_cons.mp later).1 t listed
    simp only [Bool.and_eq_true, decide_eq_true_eq]
    omega
  rw [recordsBetween, flatMap_append, flatMap_cons, filter_append, filter_append, front, back,
    nil_append, append_nil, recordsFrom]
  apply filter_congr
  intro r stored
  have high := (holds.covered s inside r stored).2
  rw [Bool.eq_iff_iff]
  simp only [Bool.and_eq_true, decide_eq_true_eq]
  omega

/-! ## The loop -/

/-- **One pass of the loop**, below the limit. -/
theorem readLoop_pass {start maxRecords offset : Nat}
    {records : List Record} (room : records.length < maxRecords) :
    ((¬ ∃ s ∈ keptSegments segments, Covers offset s) ∧ view.readLoop start maxRecords offset records =
        if records = [] then .error (.offsetNotFound start) else .ok records) ∨
      ∃ s ∈ keptSegments segments, Covers offset s ∧ view.readLoop start maxRecords offset records =
        if recordsFrom (contents s) offset = [] then .ok records
        else if (recordsFrom (contents s) offset).length ≤ maxRecords - records.length then
          view.readLoop start maxRecords (s.endOffset + 1) (records ++ recordsFrom (contents s) offset)
        else .ok (records ++ (recordsFrom (contents s) offset).take (maxRecords - records.length)) := by
  obtain ⟨found, lookup, exact_⟩ := holds.find offset
  rw [readLoop, if_pos room, lookup]
  cases found with
  | none =>
    left
    refine ⟨?_, rfl⟩
    rintro ⟨s, kept, covers⟩
    cases (exact_ s).mpr ⟨kept, covers⟩
  | some s =>
    right
    obtain ⟨kept, covers⟩ := (exact_ s).mp rfl
    refine ⟨s, kept, covers, ?_⟩
    dsimp only
    rw [holds.readSegment_eq (mem_of_mem_drop kept)]

/-- **The loop on an unbroken log**: it collects the log up to the limit, or finds its start nowhere. -/
theorem readLoop_of_unbroken {start maxRecords : Nat}
    (unbroken : Unbroken segments contents start maxRecords) :
    ∀ room offset, LooksFor segments start offset → start ≤ offset →
      (recordsBetween (segments.flatMap contents) start offset).length + room = maxRecords →
      view.readLoop start maxRecords offset (recordsBetween (segments.flatMap contents) start offset) =
          .ok ((recordsFrom (segments.flatMap contents) start).take maxRecords) ∨
        (recordsFrom (segments.flatMap contents) start = [] ∧
          view.readLoop start maxRecords offset (recordsBetween (segments.flatMap contents) start offset) =
            .error (.offsetNotFound start)) := by
  intro room
  induction room using Nat.strong_induction_on with
  | _ room ih =>
  intro offset looks from_ size
  have increasing := holds.log_increasing
  have whole := recordsFrom_eq increasing from_
  generalize collected : recordsBetween (segments.flatMap contents) start offset = records at *
  by_cases open_ : records.length < maxRecords
  · have ends (none_ : ¬ ∃ r ∈ segments.flatMap contents, offset ≤ r.offset) :
        recordsFrom (segments.flatMap contents) start = records := by
      rw [whole, recordsFrom_eq_nil_iff.mpr none_, append_nil]
    rcases @holds.readLoop_pass _ _ _ _ start maxRecords offset records open_ with ⟨missed, pass⟩ | ⟨s, kept, covers, pass⟩
    · have all := ends fun more =>
        have ⟨s, kept, covers, _⟩ := unbroken offset looks (by rw [collected]; exact open_) more
        missed ⟨s, kept, covers⟩
      rw [pass, all]
      split
      · next empty => exact .inr ⟨empty, rfl⟩
      · rw [take_of_length_le open_.le]
        exact .inl rfl
    · have inside : s ∈ segments := mem_of_mem_drop kept
      left
      rw [pass]
      split
      · next nothing =>
        have all := ends fun more => by
          obtain ⟨t, keptT, coversT, r, stored, behind⟩ := unbroken offset looks (by rw [collected]; exact open_) more
          have same : s = t := by
            rcases holds.disjoint inside (mem_of_mem_drop keptT) with same | apart
            · exact same
            · obtain ⟨sl, sm⟩ := covers
              obtain ⟨tl, tm⟩ := coversT
              omega
          rw [← same] at stored
          exact recordsFrom_eq_nil_iff.mp nothing ⟨r, stored, behind⟩
        rw [all, take_of_length_le open_.le]
      · next some_ =>
        have further := recordsBetween_append increasing from_ (by have := covers.2; omega : offset ≤ s.endOffset + 1)
        rw [collected, ← holds.recordsFrom_contents inside covers] at further
        have positive := length_pos_iff.mpr some_
        split
        · next fits =>
          have longer : (recordsBetween (segments.flatMap contents) start (s.endOffset + 1)).length =
              records.length + (recordsFrom (contents s) offset).length := by
            rw [← further, length_append]
          have reached := covers.2
          have next := ih (maxRecords - records.length - (recordsFrom (contents s) offset).length) (by omega) (s.endOffset + 1)
            (.inr ⟨s, inside, by omega, rfl⟩) (by omega) (by omega)
          rw [← further] at next
          rcases next with done | ⟨empty, -⟩
          · exact done
          · rw [recordsFrom_eq increasing (by omega : start ≤ s.endOffset + 1), ← further, append_assoc,
              append_eq_nil_iff, append_eq_nil_iff] at empty
            exact absurd empty.2.1 some_
        · next filled =>
          have reached := covers.2
          rw [recordsFrom_eq increasing (by omega : start ≤ s.endOffset + 1), ← further, append_assoc,
            take_append, take_of_length_le open_.le, take_append_of_le_length (by omega)]
  · left
    rw [readLoop, if_neg open_, whole, take_append_of_le_length (by omega), take_of_length_le (by omega)]

/-- **The loop on a broken log** comes to no more than what lies before the break. -/
theorem readLoop_of_broken {start maxRecords broken : Nat}
    (short : (recordsBetween (segments.flatMap contents) start broken).length < maxRecords)
    (stops : ¬ GoesOn segments contents broken) :
    ∀ room offset, start ≤ offset → offset ≤ broken → (broken = offset ∨ ∃ t ∈ segments, offset ≤ t.endOffset ∧ broken = t.endOffset + 1) →
      (recordsBetween (segments.flatMap contents) start offset).length + room = maxRecords →
      ∀ result, view.readLoop start maxRecords offset (recordsBetween (segments.flatMap contents) start offset) = .ok result →
        result.length ≤ (recordsBetween (segments.flatMap contents) start broken).length := by
  intro room
  induction room using Nat.strong_induction_on with
  | _ room ih =>
  intro offset from_ upTo looks size result read
  have increasing := holds.log_increasing
  have whole := recordsBetween_append increasing from_ upTo
  have fewer : (recordsBetween (segments.flatMap contents) start offset).length ≤
      (recordsBetween (segments.flatMap contents) start broken).length := by
    rw [← whole, length_append]
    omega
  rcases @holds.readLoop_pass _ _ _ _ start maxRecords offset (recordsBetween (segments.flatMap contents) start offset)
    (by omega) with ⟨-, pass⟩ | ⟨s, kept, covers, pass⟩
  · rw [pass] at read
    split at read
    · cases read
    · rw [← Except.ok.inj read]
      exact fewer
  · have inside : s ∈ segments := mem_of_mem_drop kept
    rw [pass] at read
    split at read
    · rw [← Except.ok.inj read]
      exact fewer
    · next some_ =>
      obtain ⟨t, listed, reaches, rfl⟩ : ∃ t ∈ segments, offset ≤ t.endOffset ∧ broken = t.endOffset + 1 := by
        rcases looks with rfl | later
        · exact absurd ⟨s, kept, covers, not_not.mp (mt recordsFrom_eq_nil_iff.mpr some_)⟩ stops
        · exact later
      obtain ⟨least, most⟩ := covers
      have before : s.endOffset ≤ t.endOffset := by
        rcases holds.disjoint inside listed with rfl | below | above
        · exact Nat.le_refl _
        · have wide := holds.ordered t listed
          omega
        · omega
      have further := recordsBetween_append increasing from_ (by omega : offset ≤ s.endOffset + 1)
      rw [← holds.recordsFrom_contents inside ⟨least, most⟩] at further
      have beyond := recordsBetween_append increasing (by omega : start ≤ s.endOffset + 1)
        (by omega : s.endOffset + 1 ≤ t.endOffset + 1)
      have positive := length_pos_iff.mpr some_
      have counted := congrArg List.length further
      have counted' := congrArg List.length beyond
      rw [length_append] at counted counted'
      rw [if_pos (by omega), further] at read
      refine ih (room - (recordsFrom (contents s) offset).length) (by omega) (s.endOffset + 1) (by omega) (by omega) ?_ (by omega)
        result read
      rcases Nat.lt_or_eq_of_le before with less | equal
      · exact .inr ⟨t, listed, by omega, rfl⟩
      · exact .inl (by rw [equal])


end
end PartitionView.HoldsSegments

/-- **A read is the first records of the log from its start exactly if the log is
unbroken there**: wherever the read still lacks records and there are more, a
segment that the index keeps has the offset looked for and a record behind it. -/
theorem answers_iff {view : PartitionView} {segments : List SegmentInfo} {contents : SegmentInfo → List Record}
    {highWatermark : Nat} (holds : view.HoldsSegments segments contents highWatermark) (startOffset maxRecords : Nat) :
    view.Answers (segments.flatMap contents) highWatermark startOffset maxRecords ↔
      Unbroken segments contents startOffset maxRecords := by
  have nothing : recordsBetween (segments.flatMap contents) startOffset startOffset = [] := by
    apply filter_eq_nil_iff.mpr
    intro r _
    simp only [Bool.and_eq_true, decide_eq_true_eq]
    omega
  have ends (records : List Record) (looped : view.readLoop startOffset maxRecords startOffset [] = .ok records) :
      view.read startOffset maxRecords = .ok ⟨records, highWatermark⟩ := by
    rw [PartitionView.read, looped, holds.partition]
    rfl
  constructor
  · intro answers offset looks short more
    by_contra stops
    have from_ : startOffset ≤ offset := by
      rcases looks with rfl | ⟨s, _, reaches, rfl⟩
      · exact Nat.le_refl _
      · omega
    have whole := congrArg List.length (recordsFrom_eq holds.log_increasing from_)
    have some_ := length_pos_iff.mpr (mt recordsFrom_eq_nil_iff.mp (not_not.mpr more))
    rw [length_append] at whole
    rcases answers with read | ⟨empty, -⟩
    · cases looped : view.readLoop startOffset maxRecords startOffset [] with
      | error e =>
        rw [PartitionView.read, looped] at read
        cases read
      | ok records =>
        have bound := @holds.readLoop_of_broken _ _ _ _ startOffset maxRecords offset short stops maxRecords startOffset
          (Nat.le_refl _) from_ looks (by rw [nothing]; exact Nat.zero_add _) records (by rw [nothing]; exact looped)
        rw [ends records looped] at read
        obtain ⟨rfl, -⟩ := ReadResult.mk.inj (Except.ok.inj read)
        rw [length_take] at bound
        omega
    · rw [empty, length_nil] at whole
      omega
  · intro unbroken
    have looped := holds.readLoop_of_unbroken unbroken maxRecords startOffset (.inl rfl) (Nat.le_refl _)
      (by rw [nothing]; exact Nat.zero_add _)
    rw [nothing] at looped
    rcases looped with done | ⟨empty, failed⟩
    · exact .inl (ends _ done)
    · refine .inr ⟨empty, ?_⟩
      rw [PartitionView.read, failed]
      rfl

namespace Example

/-- A record for every offset of a segment's range. -/
def dense (s : SegmentInfo) : List Record :=
  (range' s.baseOffset (s.endOffset + 1 - s.baseOffset)).map fun offset => ⟨offset, 0, none, []⟩

/-- The offsets from 2 to 4 are in no segment. -/
def withGap : List SegmentInfo := [registered 0 1, registered 5 6]

def gapped : PartitionView where
  getSegments := .ok withGap
  openSegment s := .ok (blocksOf [dense s])
  getPartition := .ok (some 7)

theorem gapped_holds : gapped.HoldsSegments withGap dense 7 where
  registered := rfl
  partition := rfl
  ordered := by decide
  apart := by decide
  covered := by decide
  increasing := by decide
  stored s inside := by
    refine ⟨[dense s], rfl, ?_, by simp⟩
    revert s
    decide

end Example

open Example

/-- From the second segment on everything is read. -/
theorem answers_behind_gap : gapped.Answers (withGap.flatMap dense) 7 5 10 := by
  apply (answers_iff gapped_holds 5 10).mpr
  rintro offset looks - ⟨r, stored, behind⟩
  have below : r.offset ≤ 6 := by
    clear behind
    revert r
    decide
  refine ⟨registered 5 6, by decide, ?_⟩
  rcases looks with rfl | ⟨s, inside, reaches, rfl⟩
  · exact ⟨by decide, by decide⟩
  · have atLeast : 5 ≤ s.endOffset := reaches
    have ends : s.endOffset = 1 ∨ s.endOffset = 6 := by
      clear reaches behind atLeast
      revert s
      decide
    omega

/-- A consumer that has read the first segment finds the next offset nowhere, though there are records behind the gap. -/
theorem answers_fails : ¬ gapped.Answers (withGap.flatMap dense) 7 2 10 := by
  have read : gapped.readLoop 2 10 2 [] = .error (.offsetNotFound 2) := by
    rcases @gapped_holds.readLoop_pass _ _ _ _ 2 10 2 [] (by decide) with ⟨-, pass⟩ | ⟨s, kept, covers, -⟩
    · rw [pass]
      rfl
    · revert s
      decide
  rintro (answer | ⟨empty, -⟩)
  · rw [PartitionView.read, read] at answer
    cases answer
  · revert empty
    decide

end StreamHouse.Storage
