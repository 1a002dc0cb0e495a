import StreamHouse.Lib.Run
import StreamHouse.Connectors.Pipeline

/-!
# At-least-once delivery of a pipeline

No offset is committed before the records up to it have gone to the sink, and a call that
returns `Ok` commits what it has read: in which runs this holds.
-/

namespace StreamHouse.Connectors

open Metadata Storage Lib Option Function Except

variable (config : PipelineConsumeLoopConfig)

/-! ## What is asked -/

namespace PipelineState

/-- Of the records from the starting position on, those up to the committed offset have gone to the sink. -/
def Delivered (start : Nat → Nat) (s : PipelineState) : Prop :=
  ∀ partition < config.partitionCount, ∀ c, s.committed config partition = some c →
    ∀ r ∈ (s.log partition).records, start partition ≤ r.offset → r.offset ≤ c → sinkRecord config partition r ∈ s.delivered

/-- At least once: at every point of a call what is committed is delivered, and where the call
returns `Ok` each partition that it has read is committed up to the last record read. -/
def AtLeastOnce (start : Nat → Nat) (s : PipelineState) : PipelineEvent → Prop
  | .poll conditions =>
    (∀ done rest, (pollAndSink config s conditions).1 = done ++ rest → Delivered config start (s.applyAll config done)) ∧
      ∀ answer, (pollAndSink config s conditions).2 = .ok answer → ∀ records offsets,
        (pollPartitions config s conditions (List.range config.partitionCount)).2 = .ok (records, offsets) →
          ∀ partition offset, (partition, offset) ∈ offsets →
            (s.step config (.poll conditions)).committed config partition = some offset
  | .store partition log => Delivered config start (s.step config (.store partition log))

/-! ## What it takes -/

/-- No other organization has the row. -/
def Owns (s : PipelineState) (partition : Nat) : Prop :=
  ∀ row, s.offsetRow partition = some row → row.organizationId = config.orgId

end PipelineState

open PipelineState

/-- The transform leaves something, and nothing fails any more. -/
structure GoesThrough (conditions : PollConditions) (records : List SinkRecord) (offsets : List (Nat × Nat)) : Prop where
  transforms : ∃ out, transformed conditions records = .ok out ∧ out ≠ []
  put : conditions.put = none
  flush : conditions.flush = none
  commits : ∀ partition offset, (partition, offset) ∈ offsets → conditions.commitOffset partition = none

/-- The condition on a call: a reset that is committed skips no record that is still to be
delivered, the transform does not leave nothing of what was read, and the offsets to be
committed are the organization's own. -/
structure SafePoll (start : Nat → Nat) (s : PipelineState) (conditions : PollConditions) : Prop where
  resets : ∀ partition < config.partitionCount, (∀ q < partition, ∃ poll, pollPartition config s conditions q = .ok poll) →
    ∀ earliest, pollPartition config s conditions partition = .ok (.reset earliest) → conditions.commitReset partition = none →
      s.Owns config partition → ∀ r ∈ (s.log partition).records, r.offset = earliest → start partition ≤ earliest →
        sinkRecord config partition r ∈ s.delivered
  transforms : ∀ records offsets, (pollPartitions config s conditions (List.range config.partitionCount)).2 = .ok (records, offsets) →
    records ≠ [] → transformed conditions records ≠ .ok []
  own : ∀ records offsets, (pollPartitions config s conditions (List.range config.partitionCount)).2 = .ok (records, offsets) →
    GoesThrough conditions records offsets → ∀ partition offset, (partition, offset) ∈ offsets → s.Owns config partition

/-- The condition on a run's events. -/
def Safe (start : Nat → Nat) (s : PipelineState) : PipelineEvent → Prop
  | .poll conditions => SafePoll config start s conditions
  | .store _ _ => True

/-! ## Commits -/

namespace PipelineState

variable {config} {s : PipelineState} {start : Nat → Nat}

variable {partition offset : Nat}

theorem committed_eq_some {c : Nat} (committed : s.committed config partition = some c) : s.Owns config partition := by
  intro row isRow
  rw [PipelineState.committed, isRow] at committed
  by_contra other
  rw [filter_some_neg (by simpa using other)] at committed
  cases committed

theorem committed_commitOffset_self (s : PipelineState) (partition offset : Nat) (own : s.Owns config partition) :
    (s.commitOffset config partition offset).committed config partition = some offset := by
  rw [committed, commitOffset]
  simp only [update_self]
  cases isRow : s.offsetRow partition with
  | none => simp [filter_some_pos]
  | some row => simp [filter_some_pos, own row isRow]

theorem committed_commitOffset_ne (s : PipelineState) {other : Nat} (offset : Nat) (different : other ≠ partition) :
    (s.commitOffset config partition offset).committed config other = s.committed config other := by
  rw [committed, committed, commitOffset]
  simp only [update_of_ne different]

theorem owns_commitOffset (s : PipelineState) (partition offset other : Nat) :
    (s.commitOffset config partition offset).Owns config other ↔ s.Owns config other := by
  by_cases here : other = partition
  · subst here
    rw [Owns, Owns, commitOffset]
    simp only [update_self]
    cases s.offsetRow other with
    | none => simp
    | some row => simp
  · rw [Owns, Owns, commitOffset]
    simp only [update_of_ne here]

variable (config) in
/-- A commit is in place when the records up to it are delivered. -/
def SafeCommit (start : Nat → Nat) (s : PipelineState) (partition offset : Nat) : Prop :=
  s.Owns config partition → ∀ r ∈ (s.log partition).records, start partition ≤ r.offset → r.offset ≤ offset →
    sinkRecord config partition r ∈ s.delivered

theorem safeCommit_commitOffset (partition offset q o : Nat) :
    SafeCommit config start (s.commitOffset config partition offset) q o ↔ SafeCommit config start s q o := by
  rw [SafeCommit, SafeCommit, owns_commitOffset]
  rfl

theorem Delivered.commit (delivered : Delivered config start s) (safe : SafeCommit config start s partition offset) : Delivered config start (s.commitOffset config partition offset) := by
  intro q inRange c isCommitted r stored least most
  by_cases here : q = partition
  · subst here
    have own : s.Owns config q := (owns_commitOffset s q offset q).mp (committed_eq_some isCommitted)
    rw [committed_commitOffset_self s q offset own] at isCommitted
    obtain rfl := some.inj isCommitted
    exact safe own r stored least most
  · rw [committed_commitOffset_ne s offset here] at isCommitted
    exact delivered q inRange c isCommitted r stored least most

theorem Delivered.safeCommit (inRange : partition < config.partitionCount)
    (delivered : Delivered config start (s.commitOffset config partition offset)) : SafeCommit config start s partition offset :=
  fun own r stored least most =>
    delivered partition inRange offset (committed_commitOffset_self s partition offset own) r stored least most

/-- What is delivered stays delivered. -/
theorem Delivered.deliver (delivered : Delivered config start s) (records : List SinkRecord) :
    Delivered config start (s.apply config (.deliver records)) :=
  fun partition inRange c isCommitted r stored least most =>
    List.mem_append_left records (delivered partition inRange c isCommitted r stored least most)

/-! ## Lists of effects -/

variable (config start) in
/-- At every point of the effects, what is committed is delivered. -/
def Throughout : PipelineState → List PipelineEffect → Prop
  | s, [] => Delivered config start s
  | s, effect :: effects => Delivered config start s ∧ Throughout (s.apply config effect) effects

theorem throughout_iff (s : PipelineState) (effects : List PipelineEffect) :
    Throughout config start s effects ↔ ∀ done rest, effects = done ++ rest → Delivered config start (s.applyAll config done) := by
  induction effects generalizing s with
  | nil =>
    rw [Throughout]
    constructor
    · intro delivered done rest cut
      rw [(List.append_eq_nil_iff.mp cut.symm).1]
      exact delivered
    · exact fun every => every [] [] rfl
  | cons effect effects ih =>
    rw [Throughout, ih]
    constructor
    · rintro ⟨now, later⟩ done rest cut
      cases done with
      | nil => exact now
      | cons first done =>
        obtain ⟨rfl, tail⟩ := List.cons.inj cut
        exact later done rest tail
    · intro every
      exact ⟨every [] _ rfl, fun done rest cut => every (effect :: done) rest (by rw [cut, List.cons_append])⟩

theorem throughout_append (s : PipelineState) (first second : List PipelineEffect) :
    Throughout config start s (first ++ second) ↔
      Throughout config start s first ∧ Throughout config start (s.applyAll config first) second := by
  induction first generalizing s with
  | nil =>
    rw [List.nil_append, Throughout]
    refine (and_iff_right_of_imp fun later => ?_).symm
    cases second with
    | nil => exact later
    | cons effect effects => exact later.1
  | cons effect first ih =>
    rw [List.cons_append, Throughout, Throughout, ih, and_assoc]
    rfl

/-- Commits of partitions of the topic. -/
def OnlyCommits (config : PipelineConsumeLoopConfig) (effects : List PipelineEffect) : Prop :=
  ∀ effect ∈ effects, ∃ partition < config.partitionCount, ∃ offset, effect = .commitOffset partition offset

variable {effects : List PipelineEffect}

/-- Commits alone are in order when each is for the state they begin in. -/
theorem throughout_commits (only : OnlyCommits config effects) (s : PipelineState) : Throughout config start s effects ↔
      Delivered config start s ∧ ∀ partition offset, .commitOffset partition offset ∈ effects → SafeCommit config start s partition offset := by
  induction effects generalizing s with
  | nil => exact (and_iff_left fun partition offset no => nomatch no).symm
  | cons effect effects ih =>
    obtain ⟨partition, inRange, offset, rfl⟩ := only effect List.mem_cons_self
    rw [Throughout, ih fun e inside => only e (List.mem_cons_of_mem _ inside), apply]
    simp only [safeCommit_commitOffset]
    constructor
    · rintro ⟨now, next, later⟩
      refine ⟨now, fun q o inside => ?_⟩
      obtain same | further := List.mem_cons.mp inside
      · obtain ⟨rfl, rfl⟩ := PipelineEffect.commitOffset.inj same
        exact next.safeCommit inRange
      · exact later q o further
    · rintro ⟨now, safe⟩
      exact ⟨now, now.commit (safe partition offset List.mem_cons_self), fun q o inside => safe q o (List.mem_cons_of_mem _ inside)⟩

/-- Commits leave all but the offsets. -/
theorem applyAll_commits (only : OnlyCommits config effects) (s : PipelineState) :
    (s.applyAll config effects).log = s.log ∧ (s.applyAll config effects).next = s.next ∧
      (s.applyAll config effects).delivered = s.delivered ∧
        ∀ partition, (s.applyAll config effects).Owns config partition ↔ s.Owns config partition := by
  induction effects generalizing s with
  | nil => exact ⟨rfl, rfl, rfl, fun _ => Iff.rfl⟩
  | cons effect effects ih =>
    obtain ⟨partition, inRange, offset, rfl⟩ := only effect List.mem_cons_self
    obtain ⟨log, next, delivered, owns⟩ := ih (fun e inside => only e (List.mem_cons_of_mem _ inside)) (s.commitOffset config partition offset)
    exact ⟨log, next, delivered, fun q => (owns q).trans (owns_commitOffset s partition offset q)⟩

/-- A partition that is not committed keeps its offset. -/
theorem committed_applyAll_of_not_mem (only : OnlyCommits config effects) (absent : ∀ offset, .commitOffset partition offset ∉ effects) (s : PipelineState) :
    (s.applyAll config effects).committed config partition = s.committed config partition := by
  induction effects generalizing s with
  | nil => rfl
  | cons effect effects ih =>
    obtain ⟨q, inRange, offset, rfl⟩ := only effect List.mem_cons_self
    have later := ih (fun e inside => only e (List.mem_cons_of_mem _ inside)) (fun o inside => absent o (List.mem_cons_of_mem _ inside))
      (s.commitOffset config q offset)
    have different : partition ≠ q := by
      rintro rfl
      exact absent offset List.mem_cons_self
    rw [committed_commitOffset_ne s offset different] at later
    exact later

end PipelineState

/-! ## The loop over the partitions -/

variable {config} {s : PipelineState} {conditions : PollConditions}

/-- The loop commits resets only, each after the partitions before it were read. -/
theorem mem_pollPartitions {partitions : List Nat} {effect : PipelineEffect} :
    effect ∈ (pollPartitions config s conditions partitions).1 ↔
      ∃ before partition after offset, partitions = before ++ partition :: after ∧ effect = .commitOffset partition offset ∧
        (∀ q ∈ before, ∃ poll, pollPartition config s conditions q = .ok poll) ∧
        pollPartition config s conditions partition = .ok (.reset offset) ∧ conditions.commitReset partition = none := by
  induction partitions with
  | nil =>
    refine iff_of_false (fun no => nomatch no) ?_
    rintro ⟨before, partition, after, offset, cut, -⟩
    cases before <;> cases cut
  | cons p partitions ih =>
    -- behind a partition that is passed, the effects of the others are in the same place
    have further : ∀ {poll}, pollPartition config s conditions p = .ok poll →
        ((∃ before partition after offset, p :: partitions = before ++ partition :: after ∧ effect = .commitOffset partition offset ∧
          (∀ q ∈ before, ∃ poll, pollPartition config s conditions q = .ok poll) ∧
          pollPartition config s conditions partition = .ok (.reset offset) ∧ conditions.commitReset partition = none) ↔
        (∃ offset, effect = .commitOffset p offset ∧ poll = .reset offset ∧ conditions.commitReset p = none) ∨
          effect ∈ (pollPartitions config s conditions partitions).1) := by
      intro poll outcome
      rw [ih]
      constructor
      · rintro ⟨before, partition, after, offset, cut, isEffect, passed, isReset, goes⟩
        cases before with
        | nil =>
          obtain ⟨rfl, rfl⟩ := List.cons.inj cut
          rw [outcome] at isReset
          exact .inl ⟨offset, isEffect, ok.inj isReset, goes⟩
        | cons q before =>
          obtain ⟨rfl, rfl⟩ := List.cons.inj cut
          exact .inr ⟨before, partition, after, offset, rfl, isEffect, fun q' inside => passed q' (List.mem_cons_of_mem _ inside), isReset, goes⟩
      · rintro (⟨offset, isEffect, rfl, goes⟩ | ⟨before, partition, after, offset, rfl, isEffect, passed, isReset, goes⟩)
        · exact ⟨[], p, partitions, offset, rfl, isEffect, (fun q no => nomatch no), outcome, goes⟩
        · refine ⟨p :: before, partition, after, offset, rfl, isEffect, fun q inside => ?_, isReset, goes⟩
          obtain rfl | earlier := List.mem_cons.mp inside
          · exact ⟨poll, outcome⟩
          · exact passed q earlier
    cases outcome : pollPartition config s conditions p with
    | error e =>
      rw [pollPartitions]
      simp only [outcome]
      refine iff_of_false (fun no => nomatch no) ?_
      rintro ⟨before, partition, after, offset, cut, -, passed, isReset, -⟩
      cases before with
      | nil =>
        obtain ⟨rfl, rfl⟩ := List.cons.inj cut
        rw [outcome] at isReset
        cases isReset
      | cons q before =>
        obtain ⟨rfl, rfl⟩ := List.cons.inj cut
        obtain ⟨poll, passes⟩ := passed p List.mem_cons_self
        rw [outcome] at passes
        cases passes
    | ok poll =>
      rw [further outcome, pollPartitions]
      cases poll with
      | wait => simp [outcome]
      | records records => simp [outcome]
      | reset earliest =>
        simp only [outcome, List.mem_append]
        refine or_congr_left ?_
        cases failed : conditions.commitReset p with
        | some e => simp
        | none => simp

/-- What the loop hands on: the records of partitions that were read, and the last offset of each. -/
structure Polled (config : PipelineConsumeLoopConfig) (s : PipelineState) (conditions : PollConditions) (partitions : List Nat)
    (records : List SinkRecord) (offsets : List (Nat × Nat)) : Prop where
  once : (offsets.map Prod.fst).Sublist partitions
  last : ∀ partition offset, (partition, offset) ∈ offsets → ∃ read last, pollPartition config s conditions partition = .ok (.records read) ∧
    read.getLast? = some last ∧ last.offset = offset ∧ ∀ r ∈ read, sinkRecord config partition r ∈ records
  empty : records = [] ↔ offsets = []

theorem polled {partitions : List Nat} {records : List SinkRecord} {offsets : List (Nat × Nat)}
    (done : (pollPartitions config s conditions partitions).2 = .ok (records, offsets)) :
    Polled config s conditions partitions records offsets := by
  induction partitions generalizing records offsets with
  | nil =>
    obtain ⟨rfl, rfl⟩ := Prod.mk.inj (ok.inj done)
    exact ⟨List.Sublist.refl _, (fun _ _ no => nomatch no), iff_of_true rfl rfl⟩
  | cons p partitions ih =>
    rw [pollPartitions] at done
    cases outcome : pollPartition config s conditions p with
    | error e =>
      simp only [outcome] at done
      cases done
    | ok poll =>
      cases poll with
      | wait =>
        simp only [outcome] at done
        obtain ⟨once, last, empty⟩ := ih done
        exact ⟨once.cons p, last, empty⟩
      | reset earliest =>
        simp only [outcome] at done
        obtain ⟨once, last, empty⟩ := ih done
        exact ⟨once.cons p, last, empty⟩
      | records read =>
        simp only [outcome] at done
        cases rest : (pollPartitions config s conditions partitions).2 with
        | error e =>
          rw [rest] at done
          cases done
        | ok both =>
          obtain ⟨records', offsets'⟩ := both
          rw [rest] at done
          obtain ⟨rfl, rfl⟩ := Prod.mk.inj (ok.inj done)
          obtain ⟨once, last, empty⟩ := ih rest
          cases isLast : read.getLast? with
          | none =>
            rw [List.getLast?_eq_none_iff.mp isLast]
            exact ⟨once.cons p, last, empty⟩
          | some final =>
            have some : read ≠ [] := by
              rintro rfl
              cases isLast
            refine ⟨once.cons_cons p, fun partition offset inside => ?_, ?_⟩
            · obtain same | further := List.mem_cons.mp inside
              · obtain ⟨rfl, rfl⟩ := Prod.mk.inj same
                exact ⟨read, final, outcome, isLast, rfl, fun r inRead => List.mem_append_left _ (List.mem_map_of_mem inRead)⟩
              · obtain ⟨read', final', outcome', isLast', isOffset, all⟩ := last partition offset further
                exact ⟨read', final', outcome', isLast', isOffset, fun r inRead => List.mem_append_right _ (all r inRead)⟩
            · refine iff_of_false (fun nothing => ?_) (fun no => nomatch no)
              exact some (List.map_eq_nil_iff.mp (List.append_eq_nil_iff.mp nothing).1)

/-! ## What a poll of a partition gives -/

/-- A partition is read from its starting offset on. -/
theorem pollPartition_records {read : List Record}
    (outcome : pollPartition config s conditions partition = .ok (.records read)) :
    ∃ result, ((s.log partition).view (conditions.reader partition)).read (s.startOffset config partition) config.maxRecordsPerPoll = .ok result ∧
      result.records = read := by
  rw [pollPartition] at outcome
  have never : ∀ segments : List SegmentInfo, resetOrWait segments (s.startOffset config partition) ≠ .records read := by
    intro segments same
    rw [resetOrWait] at same
    split at same
    · split at same
      · cases same
      · split at same <;> cases same
    · cases same
  split at outcome
  · cases outcome
  · split at outcome
    · next result isRead =>
      exact ⟨result, isRead, PartitionPoll.records.inj (ok.inj outcome)⟩
    · split at outcome
      · exact absurd (ok.inj outcome) (never _)
      · exact absurd (ok.inj outcome) (never _)
    · cases outcome

/-- A reset goes to the first offset of the first segment. -/
theorem pollPartition_reset {earliest : Nat} (outcome : pollPartition config s conditions partition = .ok (.reset earliest)) :
    ∃ first rest, (s.log partition).segments = first :: rest ∧ first.info.baseOffset = earliest := by
  have ofSegments : ∀ segments : List SegmentInfo, resetOrWait segments (s.startOffset config partition) = .reset earliest →
      ∃ first rest, segments = first :: rest ∧ first.baseOffset = earliest := by
    intro segments same
    rw [resetOrWait] at same
    split at same
    · next first last isFirst isLast =>
      obtain ⟨rest, cut⟩ := List.head?_eq_some_iff.mp isFirst
      refine ⟨first, rest, cut, ?_⟩
      split at same
      · exact PartitionPoll.reset.inj same
      · split at same
        · exact PartitionPoll.reset.inj same
        · cases same
    · cases same
  rw [pollPartition] at outcome
  split at outcome
  · cases outcome
  · split at outcome
    · cases outcome
    · split at outcome
      · obtain ⟨first, rest, no, -⟩ := ofSegments _ (ok.inj outcome)
        cases no
      · obtain ⟨first, rest, cut, base⟩ := ofSegments _ (ok.inj outcome)
        obtain ⟨segment, others, isFirst, rfl, rfl⟩ := List.map_eq_cons_iff.mp cut
        exact ⟨segment, others, isFirst, base⟩
    · cases outcome

/-- No record comes before the first offset of the first segment. -/
theorem first_le {log : StoredLog} {first : StoredSegment} {rest : List StoredSegment} (cut : log.segments = first :: rest) {r : Record}
    (stored : r ∈ log.records) : first.info.baseOffset ≤ r.offset := by
  rw [StoredLog.records, cut] at stored
  obtain ⟨segment, listed, inside⟩ := List.mem_flatMap.mp stored
  have base := (segment.within r inside).1
  obtain rfl | later := List.mem_cons.mp listed
  · exact base
  · have apart := log.apart
    rw [cut] at apart
    have := (List.pairwise_cons.mp apart).1 segment later
    have := first.ordered
    omega

/-! ## The invariant -/

namespace PipelineState

variable (config) in
/-- What is committed is delivered, and lies below the starting position or the offsets to come. -/
structure Inv (start : Nat → Nat) (s : PipelineState) : Prop where
  delivered : Delivered config start s
  below : ∀ partition c, s.committed config partition = some c → c < start partition ∨ c < s.next partition
  assigned : ∀ partition, ∀ segment ∈ (s.log partition).segments, segment.info.endOffset < s.next partition

variable {start : Nat → Nat}

theorem Inv.offset_lt (inv : Inv config start s) {r : Record} (stored : r ∈ (s.log partition).records) :
    r.offset < s.next partition := by
  obtain ⟨segment, listed, inside⟩ := List.mem_flatMap.mp stored
  have := (segment.within r inside).2
  have := inv.assigned partition segment listed
  omega

theorem Inv.initial (offsetRow : Nat → Option OffsetRow) (log : Nat → StoredLog) :
    Inv config ((PipelineState.start offsetRow log).startOffset config) (PipelineState.start offsetRow log) := by
  have below : ∀ partition c, (PipelineState.start offsetRow log).committed config partition = some c →
      c < (start offsetRow log).startOffset config partition := by
    intro partition c isCommitted
    rw [startOffset, isCommitted]
    exact Nat.lt_succ_self c
  refine ⟨fun partition inRange c isCommitted r stored least most => ?_, fun partition c isCommitted => .inl (below partition c isCommitted),
    fun partition => (lt_offsetAbove (log partition).segments 0).2⟩
  have := below partition c isCommitted
  omega

/-- A commit below the offsets to come. -/
theorem Inv.commit (inv : Inv config start s) (safe : SafeCommit config start s partition offset)
    (lower : offset < s.next partition) : Inv config start (s.commitOffset config partition offset) := by
  refine ⟨inv.delivered.commit safe, fun q c isCommitted => ?_, inv.assigned⟩
  by_cases here : q = partition
  · subst here
    have own : s.Owns config q := (owns_commitOffset s q offset q).mp (committed_eq_some isCommitted)
    rw [committed_commitOffset_self s q offset own] at isCommitted
    obtain rfl := some.inj isCommitted
    exact .inr lower
  · rw [committed_commitOffset_ne s offset here] at isCommitted
    exact inv.below q c isCommitted

theorem Inv.deliver (inv : Inv config start s) (records : List SinkRecord) : Inv config start (s.apply config (.deliver records)) :=
  ⟨inv.delivered.deliver records, inv.below, inv.assigned⟩

theorem Inv.commits {effects : List PipelineEffect} (inv : Inv config start s) (only : OnlyCommits config effects)
    (safe : ∀ partition offset, .commitOffset partition offset ∈ effects →
      SafeCommit config start s partition offset ∧ offset < s.next partition) : Inv config start (s.applyAll config effects) := by
  induction effects generalizing s with
  | nil => exact inv
  | cons effect effects ih =>
    obtain ⟨partition, inRange, offset, rfl⟩ := only effect List.mem_cons_self
    obtain ⟨first, lower⟩ := safe partition offset List.mem_cons_self
    apply ih (inv.commit first lower) fun e inside => only e (List.mem_cons_of_mem _ inside)
    intro q o inside
    obtain ⟨later, lower'⟩ := safe q o (List.mem_cons_of_mem _ inside)
    exact ⟨(safeCommit_commitOffset partition offset q o).mpr later, lower'⟩

/-- What writers and retention do keeps the invariant. -/
theorem Inv.store (inv : Inv config start s) (partition : Nat) (log : StoredLog) :
    Inv config start (s.step config (.store partition log)) := by
  rw [step]
  split
  · next follows =>
    obtain ⟨above, each⟩ := lt_offsetAbove log.segments (s.next partition)
    refine ⟨fun q inRange c isCommitted r stored least most => ?_, fun q c isCommitted => ?_, fun q segment listed => ?_⟩
    · change s.committed config q = some c at isCommitted
      by_cases here : q = partition
      · subst here
        simp only [update_self] at stored
        obtain old | new := follows r stored
        · exact inv.delivered q inRange c isCommitted r old least most
        · have := inv.below q c isCommitted
          omega
      · simp only [update_of_ne here] at stored
        exact inv.delivered q inRange c isCommitted r stored least most
    · change s.committed config q = some c at isCommitted
      have := inv.below q c isCommitted
      by_cases here : q = partition
      · subst here
        simp only [update_self]
        omega
      · simp only [update_of_ne here]
        exact this
    · by_cases here : q = partition
      · subst here
        simp only [update_self] at listed ⊢
        exact each segment listed
      · simp only [update_of_ne here] at listed ⊢
        exact inv.assigned q segment listed
  · exact inv

end PipelineState

/-! ## After the partitions were read -/

/-- The commits of a call. -/
def commitsOf (offsets : List (Nat × Nat)) : List PipelineEffect := offsets.map fun c => .commitOffset c.1 c.2

theorem mem_commitsOf {offsets : List (Nat × Nat)} :
    .commitOffset partition offset ∈ commitsOf offsets ↔ (partition, offset) ∈ offsets := by
  simp [commitsOf]

theorem commitOffsets_spec (conditions : PollConditions) (offsets : List (Nat × Nat)) :
    (commitOffsets conditions offsets).1 <+: commitsOf offsets ∧
      ((∃ u, (commitOffsets conditions offsets).2 = .ok u) ↔ ∀ partition offset, (partition, offset) ∈ offsets →
        conditions.commitOffset partition = none) ∧
      ((∃ u, (commitOffsets conditions offsets).2 = .ok u) → (commitOffsets conditions offsets).1 = commitsOf offsets) := by
  induction offsets with
  | nil => exact ⟨List.prefix_refl _, iff_of_true ⟨(), rfl⟩ (fun _ _ no => nomatch no), fun _ => rfl⟩
  | cons first offsets ih =>
    obtain ⟨partition, offset⟩ := first
    obtain ⟨front, ok, all⟩ := ih
    rw [commitOffsets]
    cases fails : conditions.commitOffset partition with
    | some e =>
      refine ⟨List.nil_prefix, iff_of_false (fun ⟨u, no⟩ => nomatch no) fun each => ?_, fun ⟨u, no⟩ => nomatch no⟩
      have := each partition offset List.mem_cons_self
      rw [fails] at this
      cases this
    | none =>
      refine ⟨List.cons_prefix_cons.mpr ⟨rfl, front⟩, ok.trans ⟨fun each q o inside => ?_, fun each q o inside => ?_⟩,
        fun done => congrArg (_ :: ·) (all done)⟩
      · obtain same | later := List.mem_cons.mp inside
        · rw [(Prod.mk.inj same).1, fails]
        · exact each q o later
      · exact each q o (List.mem_cons_of_mem _ inside)

/-- Either nothing happens any more, or the records go to the sink and commits follow. -/
theorem sinkRecords_cases (conditions : PollConditions) (records : List SinkRecord) (offsets : List (Nat × Nat)) :
    ((sinkRecords conditions records offsets).1 = [] ∧
      ((∃ answer, (sinkRecords conditions records offsets).2 = .ok answer) → records = [] ∨ transformed conditions records = .ok []) ∧
      ¬ (records ≠ [] ∧ GoesThrough conditions records offsets)) ∨
    (records ≠ [] ∧ (sinkRecords conditions records offsets).1 = .deliver records :: (commitOffsets conditions offsets).1 ∧
      transformed conditions records ≠ .ok [] ∧
      ((∃ answer, (sinkRecords conditions records offsets).2 = .ok answer) ↔ GoesThrough conditions records offsets)) := by
  rw [sinkRecords]
  by_cases nothing : records = []
  · rw [if_pos nothing]
    exact .inl ⟨rfl, fun _ => .inl nothing, fun h => h.1 nothing⟩
  · rw [if_neg nothing]
    cases outcome : transformed conditions records with
    | error e =>
      refine .inl ⟨rfl, (fun ⟨answer, no⟩ => nomatch no), fun ⟨_, goes⟩ => ?_⟩
      obtain ⟨out, isOut, -⟩ := goes.transforms
      rw [outcome] at isOut
      cases isOut
    | ok out =>
      by_cases empty : out = []
      · subst empty
        refine .inl ⟨by simp, (fun _ => .inr rfl), fun ⟨_, goes⟩ => ?_⟩
        obtain ⟨out, isOut, some⟩ := goes.transforms
        rw [outcome] at isOut
        exact some (ok.inj isOut).symm
      · simp only [if_neg empty]
        cases put : conditions.put with
        | some e =>
          refine .inl ⟨rfl, (fun ⟨answer, no⟩ => nomatch no), fun ⟨_, goes⟩ => ?_⟩
          have := goes.put
          rw [put] at this
          cases this
        | none =>
          cases flush : conditions.flush with
          | some e =>
            refine .inl ⟨rfl, (fun ⟨answer, no⟩ => nomatch no), fun ⟨_, goes⟩ => ?_⟩
            have := goes.flush
            rw [flush] at this
            cases this
          | none =>
            refine .inr ⟨nothing, rfl, fun same => empty (ok.inj same), ?_⟩
            obtain ⟨-, ok, -⟩ := commitOffsets_spec conditions offsets
            constructor
            · rintro ⟨answer, done⟩
              cases result : (commitOffsets conditions offsets).2 with
              | error e =>
                rw [result] at done
                cases done
              | ok u => exact ⟨⟨out, outcome, empty⟩, put, flush, ok.mp ⟨u, result⟩⟩
            · intro goes
              obtain ⟨u, result⟩ := ok.mpr goes.commits
              exact ⟨_, by rw [result]; rfl⟩

/-! ## One call -/

namespace PipelineState

variable {start : Nat → Nat}

/-- The effects of the loop over the partitions. -/
theorem onlyCommits_pollPartitions : OnlyCommits config (pollPartitions config s conditions (List.range config.partitionCount)).1 := by
  intro effect inside
  obtain ⟨before, partition, after, offset, cut, isEffect, -⟩ := mem_pollPartitions.mp inside
  refine ⟨partition, List.mem_range.mp ?_, offset, isEffect⟩
  rw [cut]
  exact List.mem_append_right _ List.mem_cons_self

theorem reset_iff :
    .commitOffset partition offset ∈ (pollPartitions config s conditions (List.range config.partitionCount)).1 ↔
      partition < config.partitionCount ∧ (∀ q < partition, ∃ poll, pollPartition config s conditions q = .ok poll) ∧
        pollPartition config s conditions partition = .ok (.reset offset) ∧ conditions.commitReset partition = none := by
  rw [mem_pollPartitions]
  constructor
  · rintro ⟨before, p, after, o, cut, same, passed, isReset, goes⟩
    obtain ⟨rfl, rfl⟩ := PipelineEffect.commitOffset.inj same
    have inRange : partition ∈ List.range config.partitionCount := by
      rw [cut]
      exact List.mem_append_right _ List.mem_cons_self
    refine ⟨List.mem_range.mp inRange, fun q less => passed q ?_, isReset, goes⟩
    have listed : q ∈ List.range config.partitionCount := List.mem_range.mpr (less.trans (List.mem_range.mp inRange))
    have ascending := List.pairwise_lt_range (n := config.partitionCount)
    rw [cut] at listed ascending
    obtain earlier | same | later := by simpa only [List.mem_append, List.mem_cons] using listed
    · exact earlier
    · omega
    · have := (List.pairwise_cons.mp (List.pairwise_append.mp ascending).2.1).1 q later
      omega
  · rintro ⟨inRange, passed, isReset, goes⟩
    obtain ⟨before, after, cut⟩ := List.append_of_mem (List.mem_range.mpr inRange)
    refine ⟨before, partition, after, offset, cut, rfl, fun q inside => passed q ?_, isReset, goes⟩
    have ascending := List.pairwise_lt_range (n := config.partitionCount)
    rw [cut] at ascending
    exact (List.pairwise_append.mp ascending).2.2 q inside partition List.mem_cons_self

/-- A reset is in place exactly if the record it begins behind is delivered. -/
theorem safeCommit_reset {earliest : Nat} (outcome : pollPartition config s conditions partition = .ok (.reset earliest)) :
    SafeCommit config start s partition earliest ↔ (s.Owns config partition → ∀ r ∈ (s.log partition).records, r.offset = earliest →
      start partition ≤ earliest → sinkRecord config partition r ∈ s.delivered) := by
  obtain ⟨first, rest, cut, base⟩ := pollPartition_reset outcome
  constructor
  · intro safe own r stored here least
    exact safe own r stored (by omega) (by omega)
  · intro safe own r stored least most
    have := first_le cut stored
    exact safe own r stored (by omega) (by omega)

theorem resets_iff : (∀ partition offset,
      .commitOffset partition offset ∈ (pollPartitions config s conditions (List.range config.partitionCount)).1 →
        SafeCommit config start s partition offset) ↔
    ∀ partition < config.partitionCount, (∀ q < partition, ∃ poll, pollPartition config s conditions q = .ok poll) →
      ∀ earliest, pollPartition config s conditions partition = .ok (.reset earliest) → conditions.commitReset partition = none →
        s.Owns config partition → ∀ r ∈ (s.log partition).records, r.offset = earliest → start partition ≤ earliest →
          sinkRecord config partition r ∈ s.delivered := by
  constructor
  · intro safe partition inRange passed earliest isReset goes
    exact (safeCommit_reset isReset).mp (safe partition earliest (reset_iff.mpr ⟨inRange, passed, isReset, goes⟩))
  · intro safe partition offset inside
    obtain ⟨inRange, passed, isReset, goes⟩ := reset_iff.mp inside
    exact (safeCommit_reset isReset).mpr (safe partition inRange passed offset isReset goes)

/-- A reset stays below the offsets to come. -/
theorem Inv.reset_lt (inv : Inv config start s) (inside : .commitOffset partition offset ∈ (pollPartitions config s conditions (List.range config.partitionCount)).1) :
    offset < s.next partition := by
  obtain ⟨-, -, isReset, -⟩ := reset_iff.mp inside
  obtain ⟨first, rest, cut, base⟩ := pollPartition_reset isReset
  have := inv.assigned partition first (by rw [cut]; exact List.mem_cons_self)
  have := first.ordered
  omega

variable {records : List SinkRecord} {offsets : List (Nat × Nat)}

/-- The offsets of a call are behind what was committed; up to them all is read or was delivered before. -/
theorem Inv.read_safe (inv : Inv config start s)
    (done : (pollPartitions config s conditions (List.range config.partitionCount)).2 = .ok (records, offsets)) (inside : (partition, offset) ∈ offsets) :
    partition < config.partitionCount ∧ offset < s.next partition ∧ (∀ c, s.committed config partition = some c → c < offset) ∧
      ∀ r ∈ (s.log partition).records, start partition ≤ r.offset → r.offset ≤ offset →
        sinkRecord config partition r ∈ s.delivered ++ records := by
  obtain ⟨once, last, -⟩ := polled done
  have inRange : partition < config.partitionCount :=
    List.mem_range.mp (once.subset (List.mem_map.mpr ⟨(partition, offset), inside, rfl⟩))
  obtain ⟨read, final, outcome, isLast, rfl, all⟩ := last partition offset inside
  obtain ⟨result, isRead, rfl⟩ := pollPartition_records outcome
  have given := List.mem_of_getLast? isLast
  obtain ⟨stored, least⟩ := List.mem_filter.mp ((StoredLog.read_prefix isRead).subset given)
  have least := of_decide_eq_true least
  refine ⟨inRange, inv.offset_lt stored, fun c isCommitted => ?_, fun r inLog from_ upTo => ?_⟩
  · rw [startOffset, isCommitted] at least
    exact Nat.lt_of_succ_le least
  · by_cases later : s.startOffset config partition ≤ r.offset
    · exact List.mem_append_right _ (all r (StoredLog.mem_of_read isRead inLog later given upTo))
    · apply List.mem_append_left
      cases isCommitted : s.committed config partition with
      | none =>
        rw [startOffset, isCommitted] at later
        exact absurd (Nat.zero_le _) later
      | some c =>
        rw [startOffset, isCommitted] at later
        exact inv.delivered partition inRange c isCommitted r inLog from_ (Nat.lt_succ_iff.mp (Nat.lt_of_not_le later))

/-- A partition that was read was not reset. -/
theorem not_reset_of_read
    (done : (pollPartitions config s conditions (List.range config.partitionCount)).2 = .ok (records, offsets)) (inside : (partition, offset) ∈ offsets) (o : Nat) :
    .commitOffset partition o ∉ (pollPartitions config s conditions (List.range config.partitionCount)).1 := by
  intro reset
  obtain ⟨read, final, outcome, -⟩ := (polled done).last partition offset inside
  obtain ⟨-, -, isReset, -⟩ := reset_iff.mp reset
  rw [outcome] at isReset
  cases isReset

theorem onlyCommits_commitsOf (inRange : ∀ partition offset, (partition, offset) ∈ offsets → partition < config.partitionCount) :
    OnlyCommits config (commitsOf offsets) := by
  intro effect inside
  obtain ⟨⟨partition, offset⟩, listed, rfl⟩ := List.mem_map.mp inside
  exact ⟨partition, inRange partition offset listed, offset, rfl⟩

/-- Each partition is committed once. -/
theorem committed_commitsOf (once : (offsets.map Prod.fst).Nodup)
    (inRange : ∀ partition offset, (partition, offset) ∈ offsets → partition < config.partitionCount) (inside : (partition, offset) ∈ offsets) (s : PipelineState) (own : s.Owns config partition) :
    (s.applyAll config (commitsOf offsets)).committed config partition = some offset := by
  induction offsets generalizing s with
  | nil => cases inside
  | cons first offsets ih =>
    obtain ⟨q, o⟩ := first
    obtain ⟨absent, others⟩ := List.nodup_cons.mp once
    have rest : ∀ partition offset, (partition, offset) ∈ offsets → partition < config.partitionCount :=
      fun p x listed => inRange p x (List.mem_cons_of_mem _ listed)
    obtain same | later := List.mem_cons.mp inside
    · obtain ⟨rfl, rfl⟩ := Prod.mk.inj same
      have kept : (applyAll config (s.commitOffset config partition offset) (commitsOf offsets)).committed config partition = _ :=
        committed_applyAll_of_not_mem (onlyCommits_commitsOf rest)
          (fun x listed => absent (List.mem_map.mpr ⟨(partition, x), mem_commitsOf.mp listed, rfl⟩)) _
      rw [committed_commitOffset_self s partition offset own] at kept
      exact kept
    · exact ih others rest later (s.commitOffset config q o) ((owns_commitOffset s q o partition).mpr own)

theorem OnlyCommits.front {effects whole : List PipelineEffect} (only : OnlyCommits config whole) (part : effects <+: whole) :
    OnlyCommits config effects :=
  fun effect inside => only effect (part.subset inside)

/-- What follows the loop over the partitions is always in order. -/
theorem Inv.sunk (inv : Inv config start s)
    (safe : ∀ partition offset, .commitOffset partition offset ∈
      (pollPartitions config s conditions (List.range config.partitionCount)).1 → SafeCommit config start s partition offset)
    (done : (pollPartitions config s conditions (List.range config.partitionCount)).2 = .ok (records, offsets)) :
    Throughout config start (s.applyAll config (pollPartitions config s conditions (List.range config.partitionCount)).1)
      (sinkRecords conditions records offsets).1 ∧
    Inv config start ((s.applyAll config (pollPartitions config s conditions (List.range config.partitionCount)).1).applyAll config
      (sinkRecords conditions records offsets).1) := by
  set resets := (pollPartitions config s conditions (List.range config.partitionCount)).1 with isResets
  have only : OnlyCommits config resets := onlyCommits_pollPartitions
  obtain ⟨log, next, delivered, owns⟩ := applyAll_commits only s
  have after : Inv config start (s.applyAll config resets) :=
    inv.commits only fun partition offset inside => ⟨safe partition offset inside, inv.reset_lt inside⟩
  obtain ⟨nothing, -⟩ | ⟨-, sunk, -⟩ := sinkRecords_cases conditions records offsets
  · rw [nothing]
    exact ⟨after.delivered, after⟩
  · rw [sunk]
    obtain ⟨front, -⟩ := commitOffsets_spec conditions offsets
    have inRange : ∀ partition offset, (partition, offset) ∈ offsets → partition < config.partitionCount :=
      fun partition offset listed => (inv.read_safe done listed).1
    have commits : OnlyCommits config (commitOffsets conditions offsets).1 := (onlyCommits_commitsOf inRange).front front
    have delivering := after.deliver records
    have each : ∀ partition offset, .commitOffset partition offset ∈ (commitOffsets conditions offsets).1 →
        SafeCommit config start ((s.applyAll config resets).apply config (.deliver records)) partition offset ∧
          offset < ((s.applyAll config resets).apply config (.deliver records)).next partition := by
      intro partition offset inside
      obtain ⟨-, lower, -, covered⟩ := inv.read_safe done (mem_commitsOf.mp (front.subset inside))
      constructor
      · intro own r stored least most
        change r ∈ ((s.applyAll config resets).log partition).records at stored
        rw [log] at stored
        show _ ∈ (s.applyAll config resets).delivered ++ records
        rw [delivered]
        exact covered r stored least most
      · show offset < (s.applyAll config resets).next partition
        rw [next]
        exact lower
    refine ⟨⟨after.delivered, ?_⟩, delivering.commits commits each⟩
    exact (throughout_commits commits _).mpr ⟨delivering.delivered, fun partition offset inside => (each partition offset inside).1⟩

/-- Where a call returns `Ok`, its offsets are committed exactly if the transform has left something
and they are the organization's own. -/
theorem Inv.committed_iff (inv : Inv config start s)
    (done : (pollPartitions config s conditions (List.range config.partitionCount)).2 = .ok (records, offsets)) :
    ((∃ answer, (sinkRecords conditions records offsets).2 = .ok answer) → ∀ partition offset, (partition, offset) ∈ offsets →
      ((s.applyAll config (pollPartitions config s conditions (List.range config.partitionCount)).1).applyAll config
        (sinkRecords conditions records offsets).1).committed config partition = some offset) ↔
    (records ≠ [] → transformed conditions records ≠ .ok []) ∧
      (GoesThrough conditions records offsets → ∀ partition offset, (partition, offset) ∈ offsets → s.Owns config partition) := by
  set resets := (pollPartitions config s conditions (List.range config.partitionCount)).1 with isResets
  have only : OnlyCommits config resets := onlyCommits_pollPartitions
  obtain ⟨-, -, -, owns⟩ := applyAll_commits only s
  have polled := polled done
  have some_of_some : records ≠ [] ↔ offsets ≠ [] := not_congr polled.empty
  obtain ⟨nothing, noRecords, notThrough⟩ | ⟨some, sunk, left, through⟩ := sinkRecords_cases conditions records offsets
  · rw [nothing]
    constructor
    · intro committed
      refine ⟨fun some leaves => ?_, fun goes partition offset inside => ?_⟩
      · obtain ⟨⟨partition, offset⟩, inside⟩ := List.exists_mem_of_ne_nil offsets (some_of_some.mp some)
        have answer : ∃ answer, (sinkRecords conditions records offsets).2 = .ok answer := by
          refine ⟨(0, -1), ?_⟩
          rw [sinkRecords, if_neg some, leaves]
          rfl
        have now := committed answer partition offset inside
        change (s.applyAll config resets).committed config partition = _ at now
        rw [committed_applyAll_of_not_mem only (not_reset_of_read done inside)] at now
        exact absurd ((inv.read_safe done inside).2.2.1 offset now) (Nat.lt_irrefl offset)
      · have some : offsets ≠ [] := by
          rintro rfl
          cases inside
        exact absurd ⟨some_of_some.mpr some, goes⟩ notThrough
    · rintro ⟨leaves, -⟩ answer partition offset inside
      have some : records ≠ [] := some_of_some.mpr (by
        rintro rfl
        cases inside)
      exact absurd ((noRecords answer).resolve_left some) (leaves some)
  · rw [sunk, through]
    have once : (offsets.map Prod.fst).Nodup := polled.once.nodup List.nodup_range
    have inRange : ∀ partition offset, (partition, offset) ∈ offsets → partition < config.partitionCount :=
      fun partition offset listed => (inv.read_safe done listed).1
    obtain ⟨front, ok, all⟩ := commitOffsets_spec conditions offsets
    constructor
    · intro committed
      refine ⟨fun _ => left, fun goes partition offset inside => ?_⟩
      have own := committed_eq_some (committed goes partition offset inside)
      have commits : OnlyCommits config (commitOffsets conditions offsets).1 := (onlyCommits_commitsOf inRange).front front
      have kept := (applyAll_commits commits ((s.applyAll config resets).apply config (.deliver records))).2.2.2 partition
      exact (owns partition).mp (kept.mp own)
    · rintro ⟨-, own⟩ goes partition offset inside
      rw [all (ok.mpr goes.commits)]
      exact committed_commitsOf once inRange inside _ ((owns partition).mpr (own goes partition offset inside))

theorem pollAndSink_error {e : PipelineError}
    (failed : (pollPartitions config s conditions (List.range config.partitionCount)).2 = .error e) :
    pollAndSink config s conditions = ((pollPartitions config s conditions (List.range config.partitionCount)).1, .error e) := by
  rw [pollAndSink]
  cases whole : pollPartitions config s conditions (List.range config.partitionCount) with
  | mk effects read =>
    rw [whole] at failed
    change read = .error e at failed
    rw [failed]

theorem pollAndSink_ok (done : (pollPartitions config s conditions (List.range config.partitionCount)).2 = .ok (records, offsets)) :
    pollAndSink config s conditions =
      ((pollPartitions config s conditions (List.range config.partitionCount)).1 ++ (sinkRecords conditions records offsets).1,
        (sinkRecords conditions records offsets).2) := by
  rw [pollAndSink]
  cases whole : pollPartitions config s conditions (List.range config.partitionCount) with
  | mk effects read =>
    rw [whole] at done
    change read = .ok (records, offsets) at done
    rw [done]

/-- The resets of a call are in place throughout. -/
theorem Inv.throughout_resets (inv : Inv config start s) :
    Throughout config start s (pollPartitions config s conditions (List.range config.partitionCount)).1 ↔
      ∀ partition offset, .commitOffset partition offset ∈ (pollPartitions config s conditions (List.range config.partitionCount)).1 →
        SafeCommit config start s partition offset :=
  (throughout_commits onlyCommits_pollPartitions s).trans (and_iff_right inv.delivered)

/-- **One call**: it is at least once exactly under the condition. -/
theorem Inv.poll_iff (inv : Inv config start s) :
    AtLeastOnce config start s (.poll conditions) ↔ SafePoll config start s conditions := by
  rw [AtLeastOnce, ← throughout_iff, step]
  cases done : (pollPartitions config s conditions (List.range config.partitionCount)).2 with
  | error e =>
    rw [pollAndSink_error done]
    simp only
    rw [inv.throughout_resets, resets_iff]
    constructor
    · rintro ⟨safe, -⟩
      refine ⟨safe, fun records offsets no => ?_, fun records offsets no => ?_⟩ <;>
      · rw [done] at no
        cases no
    · intro safe
      refine ⟨safe.resets, fun answer no => ?_⟩
      cases no
  | ok both =>
    obtain ⟨records, offsets⟩ := both
    rw [pollAndSink_ok done]
    simp only
    rw [throughout_append, inv.throughout_resets]
    have committed := inv.committed_iff done
    have joined : s.applyAll config ((pollPartitions config s conditions (List.range config.partitionCount)).1 ++
        (sinkRecords conditions records offsets).1) =
      (s.applyAll config (pollPartitions config s conditions (List.range config.partitionCount)).1).applyAll config
        (sinkRecords conditions records offsets).1 := List.foldl_append
    rw [joined]
    constructor
    · rintro ⟨⟨safe, -⟩, asked⟩
      have answered : (∃ answer, _) → _ := fun asks => asks.elim fun answer isAnswer => asked answer isAnswer records offsets rfl
      obtain ⟨leaves, own⟩ := committed.mp answered
      refine ⟨resets_iff.mp safe, fun records' offsets' same => ?_, fun records' offsets' same => ?_⟩ <;>
      · rw [done] at same
        obtain ⟨rfl, rfl⟩ := Prod.mk.inj (ok.inj same)
        assumption
    · intro safe
      have inPlace := resets_iff.mpr safe.resets
      refine ⟨⟨inPlace, (inv.sunk inPlace done).1⟩, fun answer isAnswer records' offsets' same => ?_⟩
      obtain ⟨rfl, rfl⟩ := Prod.mk.inj (ok.inj same)
      exact committed.mpr ⟨safe.transforms records offsets done, safe.own records offsets done⟩ ⟨answer, isAnswer⟩

theorem Inv.poll (inv : Inv config start s) (safe : SafePoll config start s conditions) :
    Inv config start (s.step config (.poll conditions)) := by
  have inPlace := resets_iff.mpr safe.resets
  rw [step]
  cases done : (pollPartitions config s conditions (List.range config.partitionCount)).2 with
  | error e =>
    rw [pollAndSink_error done]
    exact inv.commits onlyCommits_pollPartitions fun partition offset inside => ⟨inPlace partition offset inside, inv.reset_lt inside⟩
  | ok both =>
    obtain ⟨records, offsets⟩ := both
    rw [pollAndSink_ok done]
    have after := (inv.sunk inPlace done).2
    rw [applyAll, applyAll, ← List.foldl_append] at after
    exact after

end PipelineState

/-! ## Runs -/

open PipelineState in
/-- **When a pipeline delivers at least once and makes progress**: over every run from any committed
offsets and any contents of the topic, exactly if every call meets the condition. -/
theorem pipeline_at_least_once_iff (config : PipelineConsumeLoopConfig) (offsetRow : Nat → Option OffsetRow) (log : Nat → StoredLog)
    (events : List PipelineEvent) :
    (∀ before event after, events = before ++ event :: after →
      AtLeastOnce config ((start offsetRow log).startOffset config)
        (run (step config) (start offsetRow log) before) event) ↔
      Meets (step config) (Safe config ((start offsetRow log).startOffset config))
        (start offsetRow log) events := by
  rw [← meets_iff_forall]
  apply meets_congr (Inv config ((start offsetRow log).startOffset config))
  · intro s event inv
    cases event with
    | poll conditions => exact inv.poll_iff
    | store partition log => exact iff_of_true (inv.store partition log).delivered trivial
  · intro s event inv safe
    cases event with
    | poll conditions => exact inv.poll safe
    | store partition log => exact inv.store partition log
  · exact Inv.initial offsetRow log

namespace Example

def orders : PipelineConsumeLoopConfig := ⟨"org", "orders", 1, 1000⟩

def segment : StoredSegment where
  info := ⟨.segment "orders" 0 5, "orders", 0, 5, 6, 2, 60, "bucket", .segment .data "orders" 0 5, 0, 100, 101⟩
  ordered := by decide
  chunks := [[⟨5, 100, none, [1]⟩, ⟨6, 101, none, [2]⟩]]
  full := by decide
  within := by decide
  ascending := by decide

/-- Retention has removed what came before offset 5. -/
def log : StoredLog := ⟨[segment], List.pairwise_singleton _ _⟩

/-- Nothing fails. -/
def nothingFails : PollConditions where
  getCommittedOffset _ := none
  reader _ := ⟨none, fun _ => none, .ok (some 7)⟩
  getSegments _ := none
  commitReset _ := none
  transform := none
  put := none
  flush := none
  commitOffset _ := none

def fresh : PipelineState := .start (fun _ => none) fun _ => log

theorem read_fails : (log.view (nothingFails.reader 0)).read 0 1000 = .error (.offsetNotFound 0) := by
  rw [PartitionView.read, PartitionView.readLoop]
  rfl

theorem resets : pollPartition orders fresh nothingFails 0 = .ok (.reset 5) := by
  have start : fresh.startOffset orders 0 = 0 := rfl
  have read : ((fresh.log 0).view (nothingFails.reader 0)).read 0 orders.maxRecordsPerPoll = .error (.offsetNotFound 0) := read_fails
  rw [pollPartition, start, read]
  rfl

end Example

open Example

/-- A new pipeline skips the first record that is stored. -/
theorem pipeline_skips : ¬ ∀ (config : PipelineConsumeLoopConfig) (offsetRow : Nat → Option OffsetRow) (log : Nat → StoredLog)
    (events : List PipelineEvent), ∀ before event after, events = before ++ event :: after →
      AtLeastOnce config ((start offsetRow log).startOffset config)
        (run (step config) (start offsetRow log) before) event := by
  intro always
  have first := always orders (fun _ => none) (fun _ => log) [.poll nothingFails] [] (.poll nothingFails) [] rfl
  have inv : Inv orders (fresh.startOffset orders) fresh :=
    Inv.initial (fun _ => none) fun _ => log
  have safe := inv.poll_iff.mp first
  have delivered := safe.resets 0 (by decide) (fun q no => absurd no (Nat.not_lt_zero q)) 5 resets rfl (fun row no => nomatch no)
    ⟨5, 100, none, [1]⟩ (by decide) rfl (by decide)
  cases delivered

end StreamHouse.Connectors
