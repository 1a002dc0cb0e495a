import StreamHouse.Client.InFlight

/-!
# Offsets of sends

The senders of a partition wait in a queue of their own, and a batch is settled with as many of them as
it has records. Each gets the offset of its own record as long as the queue and the records in flight
are the same list.
-/

namespace StreamHouse.Client

open Metadata Lib Increasing List Function ProducerState

namespace ProducerState

variable {config : ProducerConfig} {s t : ProducerState}

/-! ## The condition -/

/-- When a sender is queued, no earlier send to the partition is still to be queued. -/
def QueuesInOrder (s : ProducerState) (send : Nat) : Prop :=
  ∀ w ∈ s.unqueued, w.1.number = send → ∀ w' ∈ s.unqueued, w'.2 = w.2 → ¬ w'.1.number < send

/-- When a batch is answered to be a duplicate, which says offset 0, its records are at the offsets from 0 on. -/
def AnswersTruly (s : ProducerState) (a : Attempt) : Flushing → Prop
  | .sending _ _ base batch _ => a.arrives = true → a.answerArrives = true → (s.check base batch).1 = .ok false →
      ∀ p ∈ batch.sends.zipIdx, p ∈ s.history.assigned
  | _ => True

/-- All records of the batch have their senders in the queue, no flusher has earlier ones of the partition, and if it is a
`flush()` call whose batch has failed, it has drained no others that are still to be sent. -/
def SettlesInOrder (s : ProducerState) (f : Nat) : Flushing → Prop
  | .answered _ _ batch firstOffset rest => (∀ w ∈ s.unqueued, w.2 = batch.key → w.1.number ∉ batch.sends) ∧
      (∀ g ∈ s.begun, ∀ b ∈ (s.flushers g).batches, b.key = batch.key → ∀ n ∈ batch.sends.head?, ∀ n' ∈ b.sends, ¬ n' < n) ∧
        (firstOffset = none → f ≠ 0 → rest = [])
  | _ => True

def OffsetsFit (s : ProducerState) : ProducerStep → Prop
  | .enqueue send => s.QueuesInOrder send
  | .attempt f a => s.AnswersTruly a (s.flushers f)
  | .deliver f => s.SettlesInOrder f (s.flushers f)
  | _ => True

instance QueuesInOrder.decidable (s : ProducerState) (send : Nat) : Decidable (s.QueuesInOrder send) :=
  inferInstanceAs (Decidable (∀ w ∈ s.unqueued, w.1.number = send → ∀ w' ∈ s.unqueued, w'.2 = w.2 → ¬ w'.1.number < send))

/-- The server takes the batch for one that it has had. -/
instance Duplicate.decidable (s : ProducerState) (base : Option Int) (batch : ReadyBatch) :
    Decidable ((s.check base batch).1 = .ok false) :=
  match (s.check base batch).1 with
  | .ok false => .isTrue rfl
  | .ok true => .isFalse fun equal => by cases equal
  | .error _ => .isFalse fun equal => by cases equal

instance AnswersTruly.decidable (s : ProducerState) (a : Attempt) : ∀ phase, Decidable (s.AnswersTruly a phase)
  | .sending _ _ base batch _ => inferInstanceAs (Decidable (a.arrives = true → a.answerArrives = true →
      (s.check base batch).1 = .ok false → ∀ p ∈ batch.sends.zipIdx, p ∈ s.history.assigned))
  | .idle | .drained _ _ | .flushing _ _ _ | .answered _ _ _ _ _ | .flushed _ | .committed _ => .isTrue trivial

instance SettlesInOrder.decidable (s : ProducerState) (f : Nat) : ∀ phase, Decidable (s.SettlesInOrder f phase)
  | .answered _ _ batch firstOffset rest => inferInstanceAs (Decidable ((∀ w ∈ s.unqueued, w.2 = batch.key → w.1.number ∉ batch.sends) ∧
      (∀ g ∈ s.begun, ∀ b ∈ (s.flushers g).batches, b.key = batch.key → ∀ n ∈ batch.sends.head?, ∀ n' ∈ b.sends, ¬ n' < n) ∧
        (firstOffset = none → f ≠ 0 → rest = [])))
  | .idle | .drained _ _ | .flushing _ _ _ | .sending _ _ _ _ _ | .flushed _ | .committed _ => .isTrue trivial

instance OffsetsFit.decidable (s : ProducerState) : ∀ a, Decidable (s.OffsetsFit a)
  | .enqueue send => inferInstanceAs (Decidable (s.QueuesInOrder send))
  | .attempt f a => inferInstanceAs (Decidable (s.AnswersTruly a (s.flushers f)))
  | .deliver f => inferInstanceAs (Decidable (s.SettlesInOrder f (s.flushers f)))
  | .append _ _ _ | .drain _ _ _ _ | .readIds _ | .number _ | .beginTransaction _ | .commitRequest _ _ | .commitEnd _ | .abortTransaction =>
    .isTrue trivial

/-! ## The queue -/

def unqueuedSends (s : ProducerState) (key : TopicPartition) : List Nat :=
  (s.unqueued.filter fun w => w.2 = key).map fun w => w.1.number

/-- The senders of a partition, those that are still to be queued at the end. -/
def queue (s : ProducerState) (key : TopicPartition) : List Nat := s.pendingRecords key ++ s.unqueuedSends key

/-- The sends of a partition whose records are in flight or in the buffer. -/
def Carried (s : ProducerState) (key : TopicPartition) (n : Nat) : Prop :=
  n ∈ s.bufferedSends key ∨ ∃ f, ∃ b ∈ (s.flushers f).batches, b.key = key ∧ n ∈ b.sends

structure Queued (s : ProducerState) : Prop where
  inFlight : InFlight s
  unqueued : (s.unqueued.map fun w => w.1.number).Pairwise (· < ·) ∧ ∀ w ∈ s.unqueued, w.1.number < s.sends
  increasing : ∀ key, (s.queue key).Pairwise (· < ·)
  members : ∀ key n, n ∈ s.queue key ↔ s.Carried key n

theorem queued_initial : Queued initial where
  inFlight := inFlight_initial
  unqueued := ⟨.nil, (by rintro _ ⟨⟩)⟩
  increasing key := .nil
  members key n := by
    constructor
    · rintro ⟨⟩
    · rintro (⟨⟨⟩⟩ | ⟨f, b, ⟨⟩, -⟩)

theorem Queued.lt_sends (queued : Queued s) {key : TopicPartition} {n : Nat} (inside : n ∈ s.queue key) : n < s.sends := by
  obtain buffered | ⟨f, b, held, -, inside⟩ := (queued.members key n).mp inside
  · exact (queued.inFlight.buffers key).2 n buffered
  · exact (queued.inFlight.batches f b held).2 n inside

theorem Keeps.carried (keeps : Keeps s t) (key : TopicPartition) (n : Nat) : t.Carried key n ↔ s.Carried key n := by
  unfold Carried
  rw [keeps.shrinks.bufferedSends]
  simp only [keeps.batches]

theorem Keeps.queue (keeps : Keeps s t) (key : TopicPartition) : t.queue key = s.queue key := by
  unfold ProducerState.queue unqueuedSends
  rw [keeps.pendingRecords, keeps.unqueued]

theorem Queued.keeps (queued : Queued s) (keeps : Keeps s t) : Queued t where
  inFlight := queued.inFlight.shrinks keeps.shrinks
  unqueued := by
    rw [keeps.unqueued, keeps.sends]
    exact queued.unqueued
  increasing key := by
    rw [keeps.queue]
    exact queued.increasing key
  members key n := by
    rw [keeps.queue, keeps.carried]
    exact queued.members key n

theorem unqueuedSends_append (s : ProducerState) (key other : TopicPartition) (record : BatchRecord) (now : Nat) :
    (s.append key record now).unqueuedSends other =
      if other = key then s.unqueuedSends other ++ [s.sends] else s.unqueuedSends other := by
  unfold unqueuedSends append
  by_cases same : other = key
  · subst same
    simp only [filter_append, map_append, if_pos]
    congr 1
    rw [filter_singleton]
    simp
  · have apart : ¬ key = other := fun equal => same equal.symm
    simp only [filter_append, map_append, if_neg same]
    rw [filter_singleton]
    simp [apart]

theorem Queued.append (queued : Queued s) (key : TopicPartition) (record : BatchRecord) (now : Nat) :
    Queued (s.append key record now) := by
  have queue : ∀ other, (s.append key record now).queue other = if other = key then s.queue other ++ [s.sends] else s.queue other := by
    intro other
    unfold queue
    rw [unqueuedSends_append]
    by_cases same : other = key
    · rw [if_pos same, if_pos same, append_assoc]
      rfl
    · rw [if_neg same, if_neg same]
      rfl
  refine ⟨queued.inFlight.append key record now, ⟨?_, fun w inside => ?_⟩, fun other => ?_, fun other n => ?_⟩
  · show ((s.unqueued ++ [_]).map _).Pairwise _
    rw [map_append, List.pairwise_append]
    refine ⟨queued.unqueued.1, pairwise_singleton _ _, fun n inside m last => ?_⟩
    obtain ⟨w, waits, rfl⟩ := mem_map.mp inside
    rw [mem_singleton.mp last]
    exact queued.unqueued.2 w waits
  · show w.1.number < s.sends + 1
    obtain old | new := mem_append.mp inside
    · exact Nat.lt_succ_of_lt (queued.unqueued.2 w old)
    · rw [mem_singleton.mp new]
      exact Nat.lt_succ_self _
  · rw [queue]
    by_cases same : other = key
    · rw [if_pos same, List.pairwise_append]
      refine ⟨queued.increasing other, pairwise_singleton _ _, fun n inside m last => ?_⟩
      rw [mem_singleton.mp last]
      exact queued.lt_sends inside
    · rw [if_neg same]
      exact queued.increasing other
  · unfold Carried
    rw [queue, bufferedSends_append]
    have before := queued.members other n
    unfold Carried at before
    show _ ↔ _ ∨ ∃ f, ∃ b ∈ (s.flushers f).batches, b.key = other ∧ n ∈ b.sends
    by_cases same : other = key
    · rw [if_pos same, if_pos same, mem_append, mem_append, before, or_right_comm]
    · rw [if_neg same, if_neg same, before]

theorem Queued.drained {f now : Nat} {commit : Option String} {order : List TopicPartition} (queued : Queued s)
    (drained : Drained config s t f commit now order) : Queued t := by
  have queue : ∀ key, t.queue key = s.queue key := by
    intro key
    rw [drained.rest]
    rfl
  refine ⟨queued.inFlight.drained drained, ?_, fun key => ?_, fun key n => ?_⟩
  · rw [drained.rest]
    exact queued.unqueued
  · rw [queue]
    exact queued.increasing key
  · rw [queue, queued.members]
    unfold Carried
    rw [drained.buffers]
    constructor
    · rintro (buffered | ⟨g, b, held, named, inside⟩)
      · by_cases taken : key ∈ s.ready config now order
        · refine .inr ⟨f, ⟨key, s.buffered key⟩, ?_, rfl, buffered⟩
          rw [drained.held]
          exact mem_readyBatches.mpr ⟨taken, rfl⟩
        · rw [if_neg taken]
          exact .inl buffered
      · have different : g ≠ f := by
          rintro rfl
          rw [drained.idle] at held
          cases held
        exact .inr ⟨g, b, by rw [drained.others g different]; exact held, named, inside⟩
    · rintro (buffered | ⟨g, b, held, named, inside⟩)
      · by_cases taken : key ∈ s.ready config now order
        · rw [if_pos taken] at buffered
          cases buffered
        · rw [if_neg taken] at buffered
          exact .inl buffered
      · by_cases here : g = f
        · rw [here, drained.held] at held
          rw [Drained.sends_eq held, named] at inside
          exact .inl inside
        · rw [drained.others g here] at held
          exact .inr ⟨g, b, held, named, inside⟩

/-- The send whose turn it is to be queued is the first of those that are not. -/
theorem unqueuedSends_eq_cons (queued : Queued s) {w : Sent × TopicPartition} (waits : w ∈ s.unqueued)
    (turn : ∀ w' ∈ s.unqueued, w'.2 = w.2 → ¬ w'.1.number < w.1.number) :
    ∃ rest, s.unqueued.filter (fun w' => w'.2 = w.2) = w :: rest ∧ ∀ w' ∈ rest, w.1.number < w'.1.number := by
  have increasing : ((s.unqueued.filter fun w' => w'.2 = w.2).map fun w' => w'.1.number).Pairwise (· < ·) :=
    queued.unqueued.1.sublist (filter_sublist.map _)
  have inside : w ∈ s.unqueued.filter fun w' => w'.2 = w.2 := mem_filter.mpr ⟨waits, decide_eq_true rfl⟩
  cases listed : s.unqueued.filter fun w' => w'.2 = w.2 with
  | nil =>
    rw [listed] at inside
    cases inside
  | cons first rest =>
    rw [listed] at inside increasing
    have least : ∀ w' ∈ rest, first.1.number < w'.1.number := fun w' later =>
      (pairwise_cons.mp increasing).1 _ (mem_map_of_mem later)
    obtain rfl | later := mem_cons.mp inside
    · exact ⟨rest, rfl, least⟩
    · have firstWaits := mem_filter.mp (listed ▸ mem_cons_self : first ∈ s.unqueued.filter fun w' => w'.2 = w.2)
      exact absurd (least w later) (turn first firstWaits.1 (of_decide_eq_true firstWaits.2))

theorem Queued.enqueue (queued : Queued s) (send : Nat) (turn : s.QueuesInOrder send) : Queued (s.enqueue send) := by
  cases found : s.unqueued.find? fun w => w.1.number = send with
  | none =>
    unfold ProducerState.enqueue
    rw [found]
    exact queued
  | some w =>
    have waits : w ∈ s.unqueued := mem_of_find?_eq_some found
    have number : w.1.number = send := by
      have holds := find?_some found
      exact of_decide_eq_true holds
    subst number
    obtain ⟨rest, listed, later⟩ := unqueuedSends_eq_cons queued waits (turn w waits rfl)
    have after : s.enqueue w.1.number = { s with
        pendingRecords := update s.pendingRecords w.2 (s.pendingRecords w.2 ++ [w.1.number])
        unqueued := s.unqueued.filter fun w' => w'.1.number ≠ w.1.number
        history := { s.history with sent := s.history.sent ++ [w] } } := by
      unfold ProducerState.enqueue
      rw [found]
    have pendingRecords : (s.enqueue w.1.number).pendingRecords =
        update s.pendingRecords w.2 (s.pendingRecords w.2 ++ [w.1.number]) := by rw [after]
    have unqueued : (s.enqueue w.1.number).unqueued = s.unqueued.filter fun w' => w'.1.number ≠ w.1.number := by rw [after]
    have queue : ∀ key, (s.enqueue w.1.number).queue key = s.queue key := by
      intro key
      unfold queue unqueuedSends
      rw [pendingRecords, unqueued, filter_comm]
      by_cases same : key = w.2
      · subst same
        rw [update_self, listed, filter_cons_of_neg (by simp), filter_eq_self.mpr, map_cons, append_assoc]
        · rfl
        · exact fun w' inside => decide_eq_true (later w' inside).ne'
      · rw [update_of_ne same, filter_eq_self.mpr]
        intro w' inside
        obtain ⟨waits', named⟩ := mem_filter.mp inside
        refine decide_eq_true fun equal => same ?_
        have once : (s.unqueued.map fun w => w.1.number).Nodup := queued.unqueued.1.imp fun below => below.ne
        have identical := inj_on_of_nodup_map once waits' waits equal
        exact (of_decide_eq_true named).symm.trans (congrArg Prod.snd identical)
    have shrinks := shrinks_enqueue s w.1.number
    have carried : ∀ key n, (s.enqueue w.1.number).Carried key n ↔ s.Carried key n := by
      intro key n
      rw [after]
      exact Iff.rfl
    refine ⟨queued.inFlight.shrinks shrinks, ?_, fun key => ?_, fun key n => ?_⟩
    · rw [unqueued, shrinks.sends]
      exact ⟨queued.unqueued.1.sublist (filter_sublist.map _), fun w' inside => queued.unqueued.2 w' (mem_of_mem_filter inside)⟩
    · rw [queue]
      exact queued.increasing key
    · rw [queue, carried]
      exact queued.members key n

/-! ## Settling -/

/-- The batch that is settled in order has the front of the queue. -/
theorem Queued.front (queued : Queued s) {f : Nat} {commit txn : Option String} {batch : ReadyBatch} {firstOffset : Option Nat}
    {rest : List ReadyBatch} (held : s.flushers f = .answered commit txn batch firstOffset rest)
    (turn : s.SettlesInOrder f (.answered commit txn batch firstOffset rest)) :
    ∃ more, s.pendingRecords batch.key = batch.sends ++ more ∧ s.queue batch.key = batch.sends ++ (more ++ s.unqueuedSends batch.key) := by
  have ours : batch ∈ (s.flushers f).batches := by
    rw [held]
    exact mem_cons_self
  have below : ∀ x ∈ batch.sends, ∀ y ∈ s.queue batch.key, y ∉ batch.sends → x < y := by
    intro x inside y queuedToo outside
    obtain buffered | ⟨g, b, theirs, named, insideToo⟩ := (queued.members batch.key y).mp queuedToo
    · exact queued.inFlight.before f batch ours x inside y buffered
    · have apart : g ≠ f := by
        rintro rfl
        have keys := queued.inFlight.keys g
        rw [held] at theirs keys
        obtain rfl | later := mem_cons.mp theirs
        · exact outside insideToo
        · exact (nodup_cons.mp keys).1 (named ▸ mem_map_of_mem later)
      have begun : g ∈ s.begun := by
        refine queued.inFlight.begun g fun idle => ?_
        rw [idle] at theirs
        cases theirs
      obtain later | earlier := queued.inFlight.apart f g apart.symm batch ours b theirs named.symm
      · exact later x inside y insideToo
      · obtain ⟨first, more, listed⟩ := exists_cons_of_ne_nil (ne_nil_of_mem inside)
        refine absurd (earlier y insideToo first (by rw [listed]; exact mem_cons_self)) ?_
        exact turn.2.1 g begun b theirs named first (by rw [listed]; rfl) y insideToo
  obtain ⟨others, all⟩ := eq_append_of_below (queued.inFlight.batches f batch ours).1 (queued.increasing batch.key)
    (fun x inside => (queued.members batch.key x).mpr (.inr ⟨f, batch, ours, rfl, inside⟩)) below
  have outside : ∀ x ∈ s.unqueuedSends batch.key, x ∉ batch.sends := by
    intro x inside
    obtain ⟨w, waits, rfl⟩ := mem_map.mp inside
    obtain ⟨waits, named⟩ := mem_filter.mp waits
    exact turn.1 w waits (of_decide_eq_true named)
  obtain ⟨more, front, rfl⟩ := eq_append_of_queue all outside
  exact ⟨more, front, all⟩

theorem ReadyBatch.length_sends (b : ReadyBatch) : b.sends.length = b.records.length := length_map _

theorem Queued.delivered (queued : Queued s) {f : Nat} {commit txn : Option String} {batch : ReadyBatch} {firstOffset : Option Nat}
    {rest : List ReadyBatch} (delivered : Delivered s t f commit txn batch firstOffset rest) (shrinks : Shrinks s t)
    (turn : s.SettlesInOrder f (.answered commit txn batch firstOffset rest)) : Queued t := by
  obtain ⟨more, pending, all⟩ := queued.front delivered.held turn
  have batches : (t.flushers f).batches = rest := by
    rw [delivered.flushers, update_self, afterAnswer_batches]
    split_ifs with spent
    · exact (turn.2.2 spent.1 spent.2).symm
    · rfl
  have others : ∀ g, g ≠ f → t.flushers g = s.flushers g := by
    intro g different
    rw [delivered.flushers, update_of_ne different]
  have unqueued : t.unqueued = s.unqueued := by rw [delivered.others]
  have ours : ∀ b, b ∈ (s.flushers f).batches ↔ b = batch ∨ b ∈ rest := by
    intro b
    rw [delivered.held]
    exact mem_cons
  have queue : t.queue batch.key = more ++ s.unqueuedSends batch.key := by
    unfold queue unqueuedSends
    rw [unqueued, delivered.pendingRecords, update_self, pending, ← ReadyBatch.length_sends, drop_left]
  have queues : ∀ key, key ≠ batch.key → t.queue key = s.queue key := by
    intro key different
    unfold ProducerState.queue unqueuedSends
    rw [unqueued, delivered.pendingRecords, update_of_ne different]
  have increasing := queued.increasing batch.key
  rw [all] at increasing
  refine ⟨queued.inFlight.shrinks shrinks, ?_, fun key => ?_, fun key n => ?_⟩
  · rw [unqueued, shrinks.sends]
    exact queued.unqueued
  · by_cases same : key = batch.key
    · rw [same, queue]
      exact (List.pairwise_append.mp increasing).2.1
    · rw [queues key same]
      exact queued.increasing key
  · have carried : t.Carried key n ↔ s.Carried key n ∧ ¬ (key = batch.key ∧ n ∈ batch.sends) := by
      unfold Carried
      rw [shrinks.bufferedSends]
      have member : batch ∈ (s.flushers f).batches := (ours batch).mpr (.inl rfl)
      constructor
      · rintro (buffered | ⟨g, b, held, named, inside⟩)
        · refine ⟨.inl buffered, ?_⟩
          rintro ⟨rfl, settled⟩
          exact (queued.inFlight.before f batch member n settled n buffered).false
        · refine ⟨.inr ⟨g, b, (shrinks.batches g).subset held, named, inside⟩, ?_⟩
          rintro ⟨rfl, settled⟩
          by_cases here : g = f
          · rw [here, batches] at held
            have keys := queued.inFlight.keys f
            rw [delivered.held] at keys
            exact (nodup_cons.mp keys).1 (named ▸ mem_map_of_mem held)
          · obtain earlier | later := queued.inFlight.apart g f here b ((shrinks.batches g).subset held) batch member named
            · exact (earlier n inside n settled).false
            · exact (later n settled n inside).false
      · rintro ⟨buffered | ⟨g, b, held, named, inside⟩, unsettled⟩
        · exact .inl buffered
        · refine .inr ⟨g, b, ?_, named, inside⟩
          by_cases here : g = f
          · rw [here] at held ⊢
            obtain rfl | left := (ours b).mp held
            · exact absurd ⟨named.symm, inside⟩ unsettled
            · rw [batches]
              exact left
          · rw [others g here]
            exact held
    rw [carried, ← queued.members]
    by_cases same : key = batch.key
    · rw [same, queue, all]
      have disjoint := (List.pairwise_append.mp increasing).2.2
      constructor
      · exact fun inside => ⟨mem_append_right _ inside, fun settled => (disjoint n settled.2 n inside).false⟩
      · rintro ⟨queuedStill, unsettled⟩
        obtain settled | inside := mem_append.mp queuedStill
        · exact absurd ⟨rfl, settled⟩ unsettled
        · exact inside
    · rw [queues key same]
      exact ⟨fun inside => ⟨inside, fun both => same both.1⟩, And.left⟩

/-! ## Answers and receivers -/

/-- What the answer to a batch says has happened. -/
def Backed (s : ProducerState) (batch : ReadyBatch) (firstOffset : Option Nat) : Prop :=
  (∀ first ∈ firstOffset, ∀ p ∈ batch.sends.zipIdx first, p ∈ s.history.assigned) ∧
    (firstOffset = none → ∀ n ∈ batch.sends, n ∈ s.history.failed)

structure Settled (s : ProducerState) : Prop where
  answers : ∀ f commit txn batch firstOffset rest, s.flushers f = .answered commit txn batch firstOffset rest → s.Backed batch firstOffset
  offsets : ∀ n o, s.receivers n = .offset o → (n, o) ∈ s.history.assigned
  failures : ∀ n, s.receivers n = .failed → n ∈ s.history.failed

theorem settled_initial : Settled initial where
  answers f commit txn batch firstOffset rest held := by cases held
  offsets n o got := by cases got
  failures n got := by cases got

/-- No batch gets an answer. -/
theorem Settled.unanswered (settled : Settled s) (assigned : t.history.assigned = s.history.assigned)
    (failed : t.history.failed = s.history.failed) (receivers : t.receivers = s.receivers)
    (answers : ∀ f commit txn batch firstOffset rest, t.flushers f = .answered commit txn batch firstOffset rest →
      s.flushers f = .answered commit txn batch firstOffset rest) : Settled t where
  answers f commit txn batch firstOffset rest held := by
    unfold Backed
    rw [assigned, failed]
    exact settled.answers f commit txn batch firstOffset rest (answers f commit txn batch firstOffset rest held)
  offsets n o got := by
    rw [assigned]
    exact settled.offsets n o (receivers ▸ got)
  failures n got := by
    rw [failed]
    exact settled.failures n (receivers ▸ got)

theorem Settled.phase (settled : Settled s) {f : Nat} {phase : Flushing}
    (unanswered : ∀ commit txn batch firstOffset rest, phase ≠ .answered commit txn batch firstOffset rest) :
    Settled (s.setFlusher f phase) := by
  refine settled.unanswered rfl rfl rfl fun g commit txn batch firstOffset rest held => ?_
  have held : update s.flushers f phase g = _ := held
  by_cases here : g = f
  · rw [here, update_self] at held
    exact absurd held (unanswered commit txn batch firstOffset rest)
  · rwa [update_of_ne here] at held

theorem Flushing.next_ne_answered (commit txn : Option String) (batches : List ReadyBatch) (commit' txn' : Option String)
    (batch : ReadyBatch) (firstOffset : Option Nat) (rest : List ReadyBatch) :
    Flushing.next commit txn batches ≠ .answered commit' txn' batch firstOffset rest := by
  cases batches with
  | nil => cases commit <;> exact fun equal => by cases equal
  | cons b bs => exact fun equal => by cases equal

/-- An agent says the offset at which it appends, or 0 for a duplicate. -/
theorem reply_cases {base : Option Int} {batch : ReadyBatch} {appends : Option Nat} {first : Nat}
    (replied : s.reply base batch appends = some first) :
    s.appended base batch appends = batch.sends.zipIdx first ∨ ((s.check base batch).1 = .ok false ∧ first = 0) := by
  unfold reply at replied
  unfold appended
  cases checked : (s.check base batch).1 with
  | error e =>
    rw [checked] at replied
    cases replied
  | ok accepted =>
    rw [checked] at replied
    cases accepted with
    | true =>
      have replied : appends = some first := replied
      rw [replied]
      exact .inl rfl
    | false => exact .inr ⟨rfl, (Option.some.inj replied).symm⟩

theorem Settled.arrive (settled : Settled s) (a : Attempt) (txn : Option String) (base : Option Int) (batch : ReadyBatch) :
    Settled (if a.arrives = true then s.arrive txn base batch a.appends else s) := by
  cases a.arrives with
  | false => exact settled
  | true =>
    refine ⟨fun f commit' txn' batch' firstOffset rest held => ?_, fun n o got => ?_, settled.failures⟩
    · obtain ⟨offsets, failures⟩ := settled.answers f commit' txn' batch' firstOffset rest held
      exact ⟨fun first said p inside => mem_append_left _ (offsets first said p inside), failures⟩
    · exact mem_append_left _ (settled.offsets n o got)

theorem Settled.attempt (settled : Settled s) (f : Nat) (a : Attempt) (truly : s.AnswersTruly a (s.flushers f)) :
    Settled (s.attempt f a) := by
  obtain same | ⟨commit, txn, base, batch, rest, held, outcome⟩ := attempt_cases s f a
  · rw [same]
    exact settled
  · rw [held] at truly
    have arrived := settled.arrive a txn base batch
    -- an answer is about this batch, or it was there before
    have answered : ∀ {u : ProducerState} {firstOffset : Option Nat}, Settled u → u.Backed batch firstOffset →
        Settled (u.setFlusher f (.answered commit txn batch firstOffset rest)) := by
      intro u firstOffset settled backed
      refine ⟨fun g commit' txn' batch' firstOffset' rest' phase => ?_, settled.offsets, settled.failures⟩
      have phase : update u.flushers f _ g = _ := phase
      by_cases here : g = f
      · rw [here, update_self] at phase
        cases phase
        exact backed
      · rw [update_of_ne here] at phase
        exact settled.answers g commit' txn' batch' firstOffset' rest' phase
    obtain ⟨first, arrives, answers, replied, after⟩ | ⟨-, after⟩ | after := outcome <;> rw [after]
    · refine answered arrived ⟨fun first' said p inside => ?_, fun none => by cases none⟩
      cases said
      rw [if_pos arrives]
      show p ∈ s.history.assigned ++ s.appended base batch a.appends
      obtain new | ⟨duplicate, rfl⟩ := reply_cases replied
      · rw [new]
        exact mem_append_right _ inside
      · exact mem_append_left _ (truly arrives answers duplicate p inside)
    · exact arrived
    · refine answered ⟨?_, arrived.offsets, fun n got => mem_append_left _ (arrived.failures n got)⟩
        ⟨(by rintro first ⟨⟩), fun _ n inside => mem_append_right _ inside⟩
      intro g commit' txn' batch' firstOffset' rest' phase
      obtain ⟨offsets, failures⟩ := arrived.answers g commit' txn' batch' firstOffset' rest' phase
      exact ⟨offsets, fun none n inside => mem_append_left _ (failures none n inside)⟩

theorem Settled.delivered (settled : Settled s) {f : Nat} {commit txn : Option String} {batch : ReadyBatch} {firstOffset : Option Nat}
    {rest : List ReadyBatch} (delivered : Delivered s t f commit txn batch firstOffset rest) {more : List Nat}
    (front : s.pendingRecords batch.key = batch.sends ++ more) : Settled t := by
  obtain ⟨offsets, failures⟩ := settled.answers f commit txn batch firstOffset rest delivered.held
  have assigned : t.history.assigned = s.history.assigned := by rw [delivered.history]
  have failed : t.history.failed = s.history.failed := by rw [delivered.history]
  have receivers : ∀ n, t.receivers n = ((batch.sends.idxOf? n).map fun i =>
      (firstOffset.map fun first => Receiver.offset (first + i)).getD .failed).getD (s.receivers n) := by
    intro n
    rw [delivered.receivers, front, ← ReadyBatch.length_sends, take_left]
  refine ⟨fun g commit' txn' batch' firstOffset' rest' held => ?_, fun n o got => ?_, fun n got => ?_⟩
  · unfold Backed
    rw [assigned, failed]
    rw [delivered.flushers] at held
    by_cases here : g = f
    · rw [here, update_self] at held
      unfold afterAnswer at held
      split_ifs at held
      exact absurd held (Flushing.next_ne_answered _ _ _ _ _ _ _ _)
    · rw [update_of_ne here] at held
      exact settled.answers g commit' txn' batch' firstOffset' rest' held
  · rw [assigned]
    rw [receivers] at got
    cases position : batch.sends.idxOf? n with
    | none =>
      rw [position] at got
      exact settled.offsets n o got
    | some i =>
      rw [position] at got
      cases said : firstOffset with
      | none =>
        rw [said] at got
        cases got
      | some first =>
        rw [said] at got
        cases got
        refine offsets first said _ ?_
        obtain ⟨inside, value, -⟩ := idxOf?_eq_some_iff.mp position
        exact mk_add_mem_zipIdx_iff_getElem?.mpr (by rw [getElem?_eq_getElem inside, value])
  · rw [failed]
    rw [receivers] at got
    cases position : batch.sends.idxOf? n with
    | none =>
      rw [position] at got
      exact settled.failures n got
    | some i =>
      rw [position] at got
      cases said : firstOffset with
      | none =>
        obtain ⟨inside, value, -⟩ := idxOf?_eq_some_iff.mp position
        exact failures said n (value ▸ getElem_mem inside)
      | some first =>
        rw [said] at got
        cases got

/-! ## Runs -/

structure Aligned (s : ProducerState) : Prop where
  queued : Queued s
  settled : Settled s

theorem Aligned.step (aligned : Aligned s) (config : ProducerConfig) (a : ProducerStep) (fit : s.OffsetsFit a) :
    Aligned (s.step config a) := by
  obtain ⟨queued, settled⟩ := aligned
  cases a with
  | append key record now =>
    exact ⟨queued.append key record now, settled.unanswered rfl rfl rfl fun _ _ _ _ _ _ held => held⟩
  | enqueue send =>
    refine ⟨queued.enqueue send fit, ?_⟩
    show Settled (s.enqueue send)
    unfold enqueue
    cases s.unqueued.find? fun w => w.1.number = send with
    | none => exact settled
    | some w => exact settled.unanswered rfl rfl rfl fun _ _ _ _ _ _ held => held
  | drain f commit now order =>
    show Aligned (s.drain config f commit now order)
    obtain same | drained := drain_cases config s f commit now order
    · rw [same]
      exact ⟨queued, settled⟩
    · refine ⟨queued.drained drained, ?_⟩
      refine settled.unanswered (by rw [drained.rest]) (by rw [drained.rest]) (by rw [drained.rest]) fun g _ _ _ _ _ held => ?_
      by_cases here : g = f
      · rw [here, drained.held] at held
        cases held
      · rwa [drained.others g here] at held
  | readIds f =>
    refine ⟨queued.keeps (keeps_readIds s f), ?_⟩
    show Settled (s.readIds f)
    unfold readIds
    cases s.flushers f with
    | drained commit batches => exact settled.phase (Flushing.next_ne_answered _ _ _)
    | _ => exact settled
  | number f =>
    refine ⟨queued.keeps (keeps_number config s f), ?_⟩
    show Settled (s.number config f)
    have counted : ∀ batch, Settled (s.countUp batch) := fun batch => settled.unanswered rfl rfl rfl fun _ _ _ _ _ _ held => held
    unfold number
    cases s.flushers f with
    | flushing commit txn batches =>
      cases batches with
      | nil => exact settled
      | cons batch rest =>
        cases config.idempotent with
        | true => exact (counted batch).phase (by simp)
        | false => exact settled.phase (by simp)
    | _ => exact settled
  | attempt f a => exact ⟨queued.keeps (keeps_attempt s f a), settled.attempt f a fit⟩
  | deliver f =>
    show Aligned (s.deliver f)
    obtain same | ⟨commit, txn, batch, firstOffset, rest, delivered⟩ := deliver_cases s f
    · rw [same]
      exact ⟨queued, settled⟩
    · have turn : s.SettlesInOrder f (s.flushers f) := fit
      rw [delivered.held] at turn
      obtain ⟨more, front, -⟩ := queued.front delivered.held turn
      exact ⟨queued.delivered delivered (shrinks_deliver s f) turn, settled.delivered delivered front⟩
  | commitRequest f succeeds =>
    refine ⟨queued.keeps (keeps_commitRequest s f succeeds), ?_⟩
    show Settled (s.commitRequest f succeeds)
    have noted : ∀ id, Settled (s.noteCommit id) := fun id => settled.unanswered rfl rfl rfl fun _ _ _ _ _ _ held => held
    unfold commitRequest
    cases s.flushers f with
    | flushed id =>
      cases succeeds with
      | true => exact (noted id).phase (by simp)
      | false => exact settled.phase (by simp)
    | _ => exact settled
  | commitEnd f =>
    refine ⟨queued.keeps (keeps_commitEnd s f), ?_⟩
    show Settled (s.commitEnd f)
    unfold commitEnd
    cases s.flushers f with
    | committed id =>
      have ended : Settled { s with currentTransactionId := none } := settled.unanswered rfl rfl rfl fun _ _ _ _ _ _ held => held
      exact ended.phase (by simp)
    | _ => exact settled
  | beginTransaction id =>
    exact ⟨queued.keeps (keeps_transaction s (some id)), settled.unanswered rfl rfl rfl fun _ _ _ _ _ _ held => held⟩
  | abortTransaction =>
    exact ⟨queued.keeps (keeps_transaction s none), settled.unanswered rfl rfl rfl fun _ _ _ _ _ _ held => held⟩

/-- **Each send learns its own offset**, in every run whose steps fit. -/
theorem send_offsets_own (config : ProducerConfig) (as : List ProducerStep)
    (fit : Meets (step config) OffsetsFit initial as) :
    (∀ n o, (run (step config) initial as).receivers n = .offset o →
      (n, o) ∈ (run (step config) initial as).history.assigned) ∧
    ∀ n, (run (step config) initial as).receivers n = .failed →
      n ∈ (run (step config) initial as).history.failed := by
  have aligned : Aligned (run (step config) initial as) :=
    fit.invariant (fun _ a aligned fit => aligned.step config a fit) ⟨queued_initial, settled_initial⟩
  exact ⟨aligned.settled.offsets, aligned.settled.failures⟩

/-! ## Two sends at once -/

def pairs : ProducerConfig := ⟨2, 1000000, 100, true⟩

def orders : TopicPartition := ⟨"orders", 0⟩

def payment : BatchRecord := ⟨none, [1, 2, 3], 0⟩

/-- The background task sends the records of two sends; a `flush()` call loses those of two others after a retry. -/
def twoBatches : List ProducerStep :=
  [.append orders payment 0, .append orders payment 0, .enqueue 0, .drain 0 none 0 [orders], .readIds 0, .number 0, .enqueue 1,
    .append orders payment 1, .attempt 0 ⟨true, some 7, true, true⟩, .enqueue 2, .append orders payment 1, .deliver 0, .enqueue 3,
    .drain 1 none 2 [orders], .readIds 1, .number 1, .attempt 1 ⟨false, none, false, true⟩, .attempt 1 ⟨true, none, true, false⟩,
    .deliver 1]

theorem send_offsets_own_twoBatches :
    ((run (step pairs) initial twoBatches).receivers 1 = .offset 8 ∧
      (run (step pairs) initial twoBatches).receivers 3 = .failed) ∧
    (∀ n o, (run (step pairs) initial twoBatches).receivers n = .offset o →
      (n, o) ∈ (run (step pairs) initial twoBatches).history.assigned) ∧
    ∀ n, (run (step pairs) initial twoBatches).receivers n = .failed →
      n ∈ (run (step pairs) initial twoBatches).history.failed :=
  ⟨by decide, send_offsets_own pairs twoBatches (by decide)⟩

/-- The second send comes between the two locks of the first. -/
def overtaking : List ProducerStep :=
  [.append orders payment 0, .append orders payment 0, .enqueue 1, .enqueue 0, .drain 0 none 0 [orders], .readIds 0, .number 0,
    .attempt 0 ⟨true, some 7, true, true⟩, .deliver 0]

theorem send_offsets_swapped : ¬ ∀ (config : ProducerConfig) (as : List ProducerStep),
    (∀ n o, (run (step config) initial as).receivers n = .offset o →
      (n, o) ∈ (run (step config) initial as).history.assigned) ∧
    ∀ n, (run (step config) initial as).receivers n = .failed →
      n ∈ (run (step config) initial as).history.failed := by
  intro own
  have given : (run (step pairs) initial overtaking).receivers 0 = .offset 8 := by decide
  have assigned : (0, 8) ∉ (run (step pairs) initial overtaking).history.assigned := by decide
  exact assigned ((own pairs overtaking).1 0 8 given)

end ProducerState

end StreamHouse.Client
