import StreamHouse.Client.InFlight

/-!
# Base sequences

A producer numbers its batches from a counter for each partition, after it has drained them, and the
server takes the next number only. The numbers that have been given out lie one behind the other; each
batch has been taken by the server, is still being sent, or was given up before the server took it.
-/

namespace StreamHouse.Client

open Metadata Lib Increasing Agent List Function ProducerState Flushing

/-- The batches that a flusher has drained and not yet numbered. -/
def Flushing.unnumbered : Flushing → List ReadyBatch
  | .idle | .flushed _ | .committed _ => []
  | .drained _ batches | .flushing _ _ batches => batches
  | .sending _ _ _ _ rest | .answered _ _ _ _ rest => rest

theorem Flushing.unnumbered_subset (phase : Flushing) : ∀ b ∈ phase.unnumbered, b ∈ phase.batches := by
  cases phase with
  | sending commit txn base batch rest => exact fun b inside => mem_cons_of_mem _ inside
  | answered commit txn batch firstOffset rest => exact fun b inside => mem_cons_of_mem _ inside
  | _ => exact fun b inside => inside

@[simp] theorem Flushing.unnumbered_next (commit txn : Option String) (batches : List ReadyBatch) :
    (next commit txn batches).unnumbered = batches := by
  cases batches with
  | nil => cases commit <;> rfl
  | cons batch rest => rfl

/-- The partition and the base sequence of the batch that is being sent. -/
def Flushing.base? : Flushing → Option (TopicPartition × Int)
  | .sending _ _ (some base) batch _ => some (batch.key, base)
  | _ => none

namespace ProducerState

variable {config : ProducerConfig} {s t : ProducerState}

/-! ## The condition -/

/-- No flusher has drained earlier records of the partition that are still to be numbered. -/
def NumbersInOrder (s : ProducerState) : Flushing → Prop
  | .flushing _ _ (batch :: _) =>
    ∀ g ∈ s.begun, ∀ b ∈ (s.flushers g).unnumbered, b.key = batch.key → ∀ n ∈ batch.sends.head?, ∀ n' ∈ b.sends, ¬ n' < n
  | _ => True

/-- No batch of the partition with a smaller number was given up before the server had taken it. -/
def ArrivesUnbroken (s : ProducerState) (a : Attempt) : Flushing → Prop
  | .sending _ _ (some base) batch _ => a.arrives = true → ∀ e ∈ s.history.lost, e.key = batch.key → ¬ e.base < base
  | _ => True

def SequencesFit (s : ProducerState) : ProducerStep → Prop
  | .number f => s.NumbersInOrder (s.flushers f)
  | .attempt f a => s.ArrivesUnbroken a (s.flushers f)
  | _ => True

instance NumbersInOrder.decidable (s : ProducerState) : ∀ phase, Decidable (s.NumbersInOrder phase)
  | .flushing _ _ (batch :: _) => inferInstanceAs (Decidable (∀ g ∈ s.begun, ∀ b ∈ (s.flushers g).unnumbered, b.key = batch.key →
      ∀ n ∈ batch.sends.head?, ∀ n' ∈ b.sends, ¬ n' < n))
  | .flushing _ _ [] | .idle | .drained _ _ | .sending _ _ _ _ _ | .answered _ _ _ _ _ | .flushed _ | .committed _ => .isTrue trivial

instance ArrivesUnbroken.decidable (s : ProducerState) (a : Attempt) : ∀ phase, Decidable (s.ArrivesUnbroken a phase)
  | .sending _ _ (some base) batch _ =>
    inferInstanceAs (Decidable (a.arrives = true → ∀ e ∈ s.history.lost, e.key = batch.key → ¬ e.base < base))
  | .sending _ _ none _ _ | .idle | .drained _ _ | .flushing _ _ _ | .answered _ _ _ _ _ | .flushed _ | .committed _ => .isTrue trivial

instance SequencesFit.decidable (s : ProducerState) : ∀ a, Decidable (s.SequencesFit a)
  | .number f => inferInstanceAs (Decidable (s.NumbersInOrder (s.flushers f)))
  | .attempt f a => inferInstanceAs (Decidable (s.ArrivesUnbroken a (s.flushers f)))
  | .append _ _ _ | .enqueue _ | .drain _ _ _ _ | .readIds _ | .deliver _ | .beginTransaction _ | .commitRequest _ _ | .commitEnd _
  | .abortTransaction => .isTrue trivial

/-! ## What is claimed of the numbers -/

/-- The base sequences of a partition increase in the order in which the records were sent. -/
def BasesInOrder (s : ProducerState) : Prop :=
  ∀ e ∈ s.history.numbered, ∀ e' ∈ s.history.numbered, e.key = e'.key → e.firstSend < e'.firstSend → e.base < e'.base

/-- The server refuses a batch as out of order only while one before it is still being sent. -/
def RefusedBehind (s : ProducerState) (a : Attempt) : Flushing → Prop
  | .sending _ _ (some base) batch _ => a.arrives = true → (s.check (some base) batch).1.isOk = false →
      ∃ g ∈ s.begun, ∃ p ∈ (s.flushers g).base?, p.1 = batch.key ∧ p.2 < base ∧ ¬ s.Taken p.1 p.2
  | _ => True

/-! ## The invariant -/

/-- A record of the partition that is still to be numbered. -/
def Waiting (s : ProducerState) (key : TopicPartition) (n : Nat) : Prop :=
  n ∈ s.bufferedSends key ∨ ∃ g, ∃ b ∈ (s.flushers g).unnumbered, b.key = key ∧ n ∈ b.sends

/-- The entry of a batch that gets a base sequence. -/
def entry (batch : ReadyBatch) (base : Int) : Numbering := ⟨batch.key, batch.sends.headD 0, base, batch.records.length⟩

/-- A batch with this base is being sent. -/
def SendingBase (s : ProducerState) (key : TopicPartition) (base : Int) : Prop :=
  ∃ g commit txn batch rest, s.flushers g = .sending commit txn (some base) batch rest ∧ batch.key = key

structure Numbered (s : ProducerState) : Prop where
  inFlight : InFlight s
  order : s.history.numbered.Pairwise fun e e' => e.key = e'.key → e.firstSend < e'.firstSend ∧ e.base < e'.base
  below : ∀ e ∈ s.history.numbered, 0 < e.count ∧ e.base + e.count ≤ s.sequenceNumbers e.key ∧ e.firstSend < s.sends
  later : ∀ e ∈ s.history.numbered, ∀ n, s.Waiting e.key n → e.firstSend < n
  start : ∀ key, s.sequenceNumbers key = 0 ∨ ∃ e ∈ s.history.numbered, e.key = key ∧ e.base = 0
  gapless : ∀ e ∈ s.history.numbered, s.sequenceNumbers e.key = e.base + e.count ∨
    ∃ e' ∈ s.history.numbered, e'.key = e.key ∧ e'.base = e.base + e.count
  sending : ∀ g commit txn base batch rest, s.flushers g = .sending commit txn (some base) batch rest → entry batch base ∈ s.history.numbered
  stored : ∀ key, s.lastSequence key = none ∨ ∃ e ∈ s.history.numbered, e.key = key ∧ s.lastSequence key = some (e.base + e.count - 1)
  accounted : ∀ e ∈ s.history.numbered, s.Taken e.key e.base ∨ (∃ e' ∈ s.history.lost, e'.key = e.key ∧ e'.base = e.base) ∨
    s.SendingBase e.key e.base

theorem numbered_initial : Numbered initial where
  inFlight := inFlight_initial
  order := .nil
  below e := by rintro ⟨⟩
  later e := by rintro ⟨⟩
  start key := .inl rfl
  gapless e := by rintro ⟨⟩
  sending g commit txn base batch rest held := by cases held
  stored key := .inl rfl
  accounted e := by rintro ⟨⟩

theorem Numbered.basesInOrder (numbered : Numbered s) : s.BasesInOrder := by
  intro e inside e' inside' same earlier
  have total : ∀ l : List Numbering, l.Pairwise (fun e e' => e.key = e'.key → e.firstSend < e'.firstSend ∧ e.base < e'.base) →
      ∀ e ∈ l, ∀ e' ∈ l, e.key = e'.key → e.firstSend < e'.firstSend → e.base < e'.base := by
    intro l order
    induction order with
    | nil => rintro _ ⟨⟩
    | cons first _ ih =>
      intro e inside e' inside' same earlier
      obtain rfl | tail := mem_cons.mp inside
      · obtain rfl | tail' := mem_cons.mp inside'
        · omega
        · exact (first e' tail' same).2
      · obtain rfl | tail' := mem_cons.mp inside'
        · have before := (first e tail same.symm).1
          omega
        · exact ih e tail e' tail' same earlier
  exact total _ numbered.order e inside e' inside' same earlier

/-- The check moves the server's number past the batch that it accepts, which is the next one. -/
theorem check_cases (s : ProducerState) (base : Int) (batch : ReadyBatch) :
    let last := (s.lastSequence batch.key).getD (-1)
    (s.check (some base) batch = (.ok true, some (base + batch.records.length - 1)) ∧ base = last + 1) ∨
      (s.check (some base) batch = (.ok false, s.lastSequence batch.key) ∧ base ≤ last) ∨
        ∃ e, s.check (some base) batch = (.error e, s.lastSequence batch.key) ∧ last + 1 < base := by
  intro last
  unfold check checkAndUpdateSequence Agent.lastSequence
  simp only [if_pos, Bool.true_eq_false, if_false]
  split_ifs with duplicate gap
  · exact .inr (.inl ⟨rfl, duplicate⟩)
  · exact .inr (.inr ⟨_, rfl, by omega⟩)
  · exact .inl ⟨rfl, by omega⟩

/-- A batch that is refused has one before it that was not taken, and not lost. -/
theorem Numbered.refusedBehind (numbered : Numbered s) (a : Attempt) (f : Nat) (unbroken : s.ArrivesUnbroken a (s.flushers f)) :
    s.RefusedBehind a (s.flushers f) := by
  cases held : s.flushers f with
  | sending commit txn base batch rest =>
    cases base with
    | none => exact trivial
    | some base =>
      intro arrives refused
      rw [held] at unbroken
      have mine := numbered.sending f commit txn base batch rest held
      obtain ⟨counted, upTo, -⟩ := numbered.below _ mine
      have upTo : base + batch.records.length ≤ s.sequenceNumbers batch.key := upTo
      have counted : 0 < batch.records.length := counted
      have ahead : (s.lastSequence batch.key).getD (-1) + 1 < base := by
        by_contra near
        obtain ⟨checked, -⟩ | ⟨checked, -⟩ | ⟨e, checked, gap⟩ := check_cases s base batch
        · rw [checked] at refused
          cases refused
        · rw [checked] at refused
          cases refused
        · omega
      -- the batch whose turn it would be
      have next : ∃ e ∈ s.history.numbered, e.key = batch.key ∧ e.base = (s.lastSequence batch.key).getD (-1) + 1 := by
        obtain none | ⟨e, inside, named, last⟩ := numbered.stored batch.key
        · rw [none] at ahead ⊢
          obtain zero | first := numbered.start batch.key
          · have ahead : (-1 : Int) + 1 < base := ahead
            omega
          · exact first
        · rw [last] at ahead ⊢
          obtain all | ⟨e', inside', named', base'⟩ := numbered.gapless e inside
          · rw [named] at all
            have ahead : e.base + e.count - 1 + 1 < base := ahead
            omega
          · refine ⟨e', inside', named'.trans named, ?_⟩
            show e'.base = e.base + e.count - 1 + 1
            omega
      obtain ⟨e, inside, named, turn⟩ := next
      have untaken : ¬ s.Taken batch.key e.base := by
        unfold Taken
        omega
      obtain taken | ⟨lost, gone, sameKey, sameBase⟩ | sends := numbered.accounted e inside
      · exact absurd (named ▸ taken) untaken
      · refine absurd ?_ (unbroken arrives lost gone (sameKey.trans named))
        omega
      · obtain ⟨g, commit', txn', batch', rest', sends', named'⟩ := sends
        have begun : g ∈ s.begun := numbered.inFlight.begun g (by rw [sends']; simp)
        refine ⟨g, begun, (batch'.key, e.base), by rw [sends']; rfl, named'.trans named, by omega, ?_⟩
        rwa [named', named]
  | _ => exact trivial

/-! ## Steps that number and send nothing -/

structure Calm (s t : ProducerState) : Prop where
  numbered : t.history.numbered = s.history.numbered
  lost : t.history.lost = s.history.lost
  sequenceNumbers : t.sequenceNumbers = s.sequenceNumbers
  lastSequence : t.lastSequence = s.lastSequence
  sends : s.sends ≤ t.sends
  sending : ∀ g commit txn base batch rest, t.flushers g = .sending commit txn (some base) batch rest ↔
    s.flushers g = .sending commit txn (some base) batch rest
  waiting : ∀ key n, t.Waiting key n → s.Waiting key n ∨ s.sends ≤ n

theorem Calm.refl (s : ProducerState) : Calm s s :=
  ⟨rfl, rfl, rfl, rfl, le_rfl, fun _ _ _ _ _ _ => Iff.rfl, fun _ _ waits => .inl waits⟩

theorem Numbered.calm (numbered : Numbered s) (calm : Calm s t) (inFlight : InFlight t) : Numbered t := by
  have sendingBase : ∀ key base, t.SendingBase key base ↔ s.SendingBase key base := by
    intro key base
    unfold SendingBase
    simp only [calm.sending]
  have taken : ∀ key base, t.Taken key base ↔ s.Taken key base := by
    intro key base
    unfold Taken
    rw [calm.lastSequence]
  refine ⟨inFlight, ?_, ?_, ?_, ?_, ?_, ?_, ?_, ?_⟩
  · rw [calm.numbered]
    exact numbered.order
  · rw [calm.numbered, calm.sequenceNumbers]
    intro e inside
    obtain ⟨counted, upTo, sent⟩ := numbered.below e inside
    exact ⟨counted, upTo, sent.trans_le calm.sends⟩
  · rw [calm.numbered]
    intro e inside n waits
    obtain before | new := calm.waiting e.key n waits
    · exact numbered.later e inside n before
    · exact (numbered.below e inside).2.2.trans_le new
  · rw [calm.numbered, calm.sequenceNumbers]
    exact numbered.start
  · rw [calm.numbered, calm.sequenceNumbers]
    exact numbered.gapless
  · rw [calm.numbered]
    intro g commit txn base batch rest held
    exact numbered.sending g commit txn base batch rest ((calm.sending g commit txn base batch rest).mp held)
  · rw [calm.numbered, calm.lastSequence]
    exact numbered.stored
  · rw [calm.numbered, calm.lost]
    intro e inside
    rw [taken, sendingBase]
    exact numbered.accounted e inside

/-- A flusher that sends nothing goes on to send nothing, with no more to number than before. -/
theorem Calm.of_phase {f : Nat} {old phase : Flushing} (held : s.flushers f = old) (calm : Calm s t) (same : t.flushers = s.flushers)
    (unnumbered : ∀ b ∈ phase.unnumbered, b ∈ old.unnumbered)
    (silent : ∀ commit txn base batch rest, old ≠ .sending commit txn (some base) batch rest)
    (silent' : ∀ commit txn base batch rest, phase ≠ .sending commit txn (some base) batch rest) : Calm s (t.setFlusher f phase) := by
  subst held
  refine ⟨calm.numbered, calm.lost, calm.sequenceNumbers, calm.lastSequence, calm.sends, fun g commit txn base batch rest => ?_,
    fun key n waits => calm.waiting key n ?_⟩
  · show update t.flushers f phase g = _ ↔ _
    by_cases here : g = f
    · rw [here, update_self]
      exact iff_of_false (silent' commit txn base batch rest) (silent commit txn base batch rest)
    · rw [update_of_ne here, same]
  · obtain buffered | ⟨g, b, there, named, inside⟩ := waits
    · exact .inl buffered
    · refine .inr ⟨g, b, ?_, named, inside⟩
      have there : b ∈ (update t.flushers f phase g).unnumbered := there
      by_cases here : g = f
      · rw [here, update_self] at there
        rw [here, same]
        exact unnumbered b there
      · rwa [update_of_ne here] at there

theorem Flushing.next_ne_sending (commit txn : Option String) (batches : List ReadyBatch) (commit' txn' : Option String) (base : Int)
    (batch : ReadyBatch) (rest : List ReadyBatch) : next commit txn batches ≠ .sending commit' txn' (some base) batch rest := by
  cases batches with
  | nil => cases commit <;> exact fun equal => by cases equal
  | cons b bs => exact fun equal => by cases equal

theorem calm_append (s : ProducerState) (key : TopicPartition) (record : BatchRecord) (now : Nat) : Calm s (s.append key record now) := by
  refine ⟨rfl, rfl, rfl, rfl, Nat.le_succ _, fun _ _ _ _ _ _ => Iff.rfl, fun other n waits => ?_⟩
  obtain buffered | held := waits
  · rw [bufferedSends_append] at buffered
    split_ifs at buffered
    · obtain old | new := mem_append.mp buffered
      · exact .inl (.inl old)
      · exact .inr (mem_singleton.mp new).ge
    · exact .inl (.inl buffered)
  · exact .inl (.inr held)

theorem calm_enqueue (s : ProducerState) (send : Nat) : Calm s (s.enqueue send) := by
  unfold enqueue
  cases s.unqueued.find? fun w => w.1.number = send with
  | none => exact .refl s
  | some w => exact ⟨rfl, rfl, rfl, rfl, le_rfl, fun _ _ _ _ _ _ => Iff.rfl, fun _ _ waits => .inl waits⟩

theorem calm_drain (config : ProducerConfig) (s : ProducerState) (f : Nat) (commit : Option String) (now : Nat)
    (order : List TopicPartition) : Calm s (s.drain config f commit now order) := by
  obtain same | drained := drain_cases config s f commit now order
  · rw [same]
    exact .refl s
  · refine ⟨by rw [drained.rest], by rw [drained.rest], by rw [drained.rest], by rw [drained.rest], by rw [drained.rest],
      fun g commit' txn base batch rest => ?_, fun key n waits => .inl ?_⟩
    · by_cases here : g = f
      · rw [here, drained.held, drained.idle]
        exact iff_of_false (fun equal => by cases equal) fun equal => by cases equal
      · rw [drained.others g here]
    · obtain buffered | ⟨g, b, held, named, inside⟩ := waits
      · rw [drained.buffers] at buffered
        split_ifs at buffered
        · cases buffered
        · exact .inl buffered
      · by_cases here : g = f
        · rw [here, drained.held] at held
          rw [Drained.sends_eq held, named] at inside
          exact .inl inside
        · rw [drained.others g here] at held
          exact .inr ⟨g, b, held, named, inside⟩

theorem calm_readIds (s : ProducerState) (f : Nat) : Calm s (s.readIds f) := by
  unfold readIds
  cases held : s.flushers f with
  | drained commit batches =>
    refine .of_phase held (.refl s) rfl (fun b inside => ?_) (by simp) (Flushing.next_ne_sending _ _ _)
    rwa [Flushing.unnumbered_next] at inside
  | _ => exact .refl s

theorem calm_deliver (s : ProducerState) (f : Nat) : Calm s (s.deliver f) := by
  unfold deliver
  cases held : s.flushers f with
  | answered commit txn batch firstOffset rest =>
    have settled : ∀ outcome, Calm s (s.settle batch.key batch.records.length outcome) := fun outcome =>
      ⟨rfl, rfl, rfl, rfl, le_rfl, fun _ _ _ _ _ _ => Iff.rfl, fun _ _ waits => .inl waits⟩
    have goesOn : ∀ b ∈ (next commit txn rest).unnumbered, b ∈ rest := by
      intro b inside
      rwa [unnumbered_next] at inside
    cases firstOffset with
    | some first => exact .of_phase held (settled _) rfl goesOn (by simp) (Flushing.next_ne_sending _ _ _)
    | none =>
      by_cases background : f = 0
      · simp only [if_pos background]
        exact .of_phase held (settled _) rfl goesOn (by simp) (Flushing.next_ne_sending _ _ _)
      · simp only [if_neg background]
        have abandoned : Calm s ((s.failPendingOffsets batch.key batch.records.length).abandon rest) :=
          ⟨rfl, rfl, rfl, rfl, le_rfl, fun _ _ _ _ _ _ => Iff.rfl, fun _ _ waits => .inl waits⟩
        exact .of_phase held abandoned rfl (by rintro _ ⟨⟩) (by simp) (by simp)
  | _ => exact .refl s

theorem calm_transaction (s : ProducerState) (current : Option String) : Calm s { s with currentTransactionId := current } :=
  ⟨rfl, rfl, rfl, rfl, le_rfl, fun _ _ _ _ _ _ => Iff.rfl, fun _ _ waits => .inl waits⟩

theorem calm_commitRequest (s : ProducerState) (f : Nat) (succeeds : Bool) : Calm s (s.commitRequest f succeeds) := by
  unfold commitRequest
  cases held : s.flushers f with
  | flushed id =>
    have noted : Calm s (s.noteCommit id) := ⟨rfl, rfl, rfl, rfl, le_rfl, fun _ _ _ _ _ _ => Iff.rfl, fun _ _ waits => .inl waits⟩
    cases succeeds with
    | true => exact .of_phase held noted rfl (by rintro _ ⟨⟩) (by simp) (by simp)
    | false => exact .of_phase held (.refl s) rfl (by rintro _ ⟨⟩) (by simp) (by simp)
  | _ => exact .refl s

theorem calm_commitEnd (s : ProducerState) (f : Nat) : Calm s (s.commitEnd f) := by
  unfold commitEnd
  cases held : s.flushers f with
  | committed id => exact .of_phase held (calm_transaction s none) rfl (by rintro _ ⟨⟩) (by simp) (by simp)
  | _ => exact .refl s

/-! ## Numbering -/

variable {commit txn : Option String} {batch : ReadyBatch} {rest : List ReadyBatch}

/-- The records that are still to be numbered come after the batch that is numbered in order. -/
theorem waiting_after (inFlight : InFlight s) {f : Nat} (held : s.flushers f = .flushing commit txn (batch :: rest)) (turn : s.NumbersInOrder (.flushing commit txn (batch :: rest)))
    {n : Nat} (waits : s.Waiting batch.key n) : n ∈ batch.sends ∨ batch.sends.headD 0 < n := by
  have ours : batch ∈ (s.flushers f).batches := by
    rw [held]
    exact mem_cons_self
  obtain ⟨first, more, sends⟩ : ∃ first more, batch.sends = first :: more :=
    exists_cons_of_ne_nil (mt map_eq_nil_iff.mp (inFlight.nonempty f batch ours))
  have head : batch.sends.headD 0 = first := by rw [sends]; rfl
  have isFirst : first ∈ batch.sends := by
    rw [sends]
    exact mem_cons_self
  rw [head]
  obtain buffered | ⟨g, b, there, named, inside⟩ := waits
  · exact .inr (inFlight.before f batch ours first isFirst n buffered)
  · by_cases here : g = f
    · have keys := inFlight.keys f
      rw [here, held] at there
      rw [held] at keys
      obtain rfl | later := mem_cons.mp there
      · exact .inl inside
      · exact absurd (named ▸ mem_map_of_mem later) (nodup_cons.mp keys).1
    · have theirs : b ∈ (s.flushers g).batches := unnumbered_subset _ b there
      obtain after | before := inFlight.apart f g (Ne.symm here) batch ours b theirs named.symm
      · exact .inr (after first isFirst n inside)
      · have begun : g ∈ s.begun := by
          refine inFlight.begun g fun idle => ?_
          rw [idle] at there
          cases there
        exact absurd (before n inside first isFirst) (turn g begun b there named first (by rw [sends]; rfl) n inside)

section

variable (numbered : Numbered s)
include numbered

/-- The batch that is numbered in order has the last number and the last records so far. -/
theorem Numbered.countUp {f : Nat} (held : s.flushers f = .flushing commit txn (batch :: rest)) (turn : s.NumbersInOrder (.flushing commit txn (batch :: rest)))
    (t : ProducerState)
    (after : t = (s.countUp batch).setFlusher f (.sending commit txn (some (s.sequenceNumbers batch.key)) batch rest))
    (inFlight : InFlight t) : Numbered t := by
  have ours : batch ∈ (s.flushers f).batches := by
    rw [held]
    exact mem_cons_self
  obtain ⟨first, more, sends⟩ : ∃ first more, batch.sends = first :: more :=
    exists_cons_of_ne_nil (mt map_eq_nil_iff.mp (numbered.inFlight.nonempty f batch ours))
  have head : batch.sends.headD 0 = first := by rw [sends]; rfl
  have isFirst : first ∈ batch.sends := by
    rw [sends]
    exact mem_cons_self
  have counted : 0 < batch.records.length := length_pos_iff.mpr (numbered.inFlight.nonempty f batch ours)
  have entries : t.history.numbered = s.history.numbered ++ [entry batch (s.sequenceNumbers batch.key)] := by rw [after]; rfl
  have counter : t.sequenceNumbers batch.key = s.sequenceNumbers batch.key + batch.records.length := by
    rw [after]
    exact update_self _ _ _
  have counters : ∀ key, key ≠ batch.key → t.sequenceNumbers key = s.sequenceNumbers key := by
    intro key different
    rw [after]
    exact update_of_ne different _ _
  have phase : t.flushers f = .sending commit txn (some (s.sequenceNumbers batch.key)) batch rest := by
    rw [after]
    exact update_self _ _ _
  have phases : ∀ g, g ≠ f → t.flushers g = s.flushers g := by
    intro g different
    rw [after]
    exact update_of_ne different _ _
  have mem : ∀ e, e ∈ t.history.numbered ↔ e ∈ s.history.numbered ∨ e = entry batch (s.sequenceNumbers batch.key) := by
    intro e
    rw [entries, mem_append, mem_singleton]
  have ownWaits : s.Waiting batch.key first := .inr ⟨f, batch, by rw [held]; exact mem_cons_self, rfl, isFirst⟩
  have older : ∀ e ∈ s.history.numbered, e.key = batch.key → e.firstSend < first := fun e inside same =>
    numbered.later e inside first (same ▸ ownWaits)
  have waiting : ∀ key n, t.Waiting key n → s.Waiting key n ∧ (key = batch.key → n ∉ batch.sends) := by
    rintro key n (buffered | ⟨g, b, there, named, inside⟩)
    · have buffered : n ∈ s.bufferedSends key := by
        rw [after] at buffered
        exact buffered
      refine ⟨.inl buffered, ?_⟩
      rintro rfl mine
      exact (numbered.inFlight.before f batch ours n mine n buffered).false
    · by_cases here : g = f
      · rw [here, phase] at there
        refine ⟨.inr ⟨f, b, by rw [held]; exact mem_cons_of_mem _ there, named, inside⟩, ?_⟩
        rintro rfl
        have keys := numbered.inFlight.keys f
        rw [held] at keys
        exact absurd (named ▸ mem_map_of_mem there) (nodup_cons.mp keys).1
      · rw [phases g here] at there
        refine ⟨.inr ⟨g, b, there, named, inside⟩, ?_⟩
        rintro rfl mine
        obtain before | before := numbered.inFlight.apart f g (Ne.symm here) batch ours b (unnumbered_subset _ b there) named.symm
        · exact (before n mine n inside).false
        · exact (before n inside n mine).false
  have sendingBase : ∀ key base, s.SendingBase key base → t.SendingBase key base := by
    rintro key base ⟨g, commit', txn', batch', rest', sends', named⟩
    have different : g ≠ f := by
      rintro rfl
      rw [held] at sends'
      cases sends'
    exact ⟨g, commit', txn', batch', rest', by rw [phases g different, sends'], named⟩
  refine ⟨inFlight, ?_, fun e inside => ?_, fun e inside n waits => ?_, fun key => ?_, fun e inside => ?_,
    fun g commit' txn' base' batch' rest' sends' => ?_, fun key => ?_, fun e inside => ?_⟩
  · rw [entries, List.pairwise_append]
    refine ⟨numbered.order, pairwise_singleton _ _, fun e inside e' last same => ?_⟩
    rw [mem_singleton.mp last] at same ⊢
    have same : e.key = batch.key := same
    obtain ⟨positive, upTo, -⟩ := numbered.below e inside
    rw [same] at upTo
    refine ⟨?_, ?_⟩
    · show e.firstSend < batch.sends.headD 0
      rw [head]
      exact older e inside same
    · show e.base < s.sequenceNumbers batch.key
      omega
  · obtain old | rfl := (mem e).mp inside
    · obtain ⟨positive, upTo, sent⟩ := numbered.below e old
      refine ⟨positive, ?_, by rw [after]; exact sent⟩
      by_cases same : e.key = batch.key
      · rw [same] at upTo ⊢
        rw [counter]
        omega
      · rw [counters _ same]
        exact upTo
    · refine ⟨counted, counter.ge, ?_⟩
      show batch.sends.headD 0 < t.sends
      rw [head, after]
      exact (numbered.inFlight.batches f batch ours).2 first isFirst
  · obtain ⟨before, apart⟩ := waiting e.key n waits
    obtain old | rfl := (mem e).mp inside
    · exact numbered.later e old n before
    · obtain mine | later := waiting_after numbered.inFlight held turn before
      · exact absurd mine (apart rfl)
      · exact later
  · by_cases same : key = batch.key
    · subst same
      obtain zero | ⟨e, inside, named, base⟩ := numbered.start batch.key
      · exact .inr ⟨_, (mem _).mpr (.inr rfl), rfl, zero⟩
      · exact .inr ⟨e, (mem e).mpr (.inl inside), named, base⟩
    · rw [counters key same]
      obtain zero | ⟨e, inside, both⟩ := numbered.start key
      · exact .inl zero
      · exact .inr ⟨e, (mem e).mpr (.inl inside), both⟩
  · obtain old | rfl := (mem e).mp inside
    · obtain all | ⟨e', inside', both⟩ := numbered.gapless e old
      · by_cases same : e.key = batch.key
        · refine .inr ⟨_, (mem _).mpr (.inr rfl), same.symm, ?_⟩
          rw [← all, same]
          rfl
        · rw [counters _ same]
          exact .inl all
      · exact .inr ⟨e', (mem e').mpr (.inl inside'), both⟩
    · exact .inl counter
  · by_cases here : g = f
    · rw [here, phase] at sends'
      cases sends'
      exact (mem _).mpr (.inr rfl)
    · rw [phases g here] at sends'
      exact (mem _).mpr (.inl (numbered.sending g commit' txn' base' batch' rest' sends'))
  · have same : t.lastSequence = s.lastSequence := by rw [after]; rfl
    rw [same]
    obtain none | ⟨e, inside, both⟩ := numbered.stored key
    · exact .inl none
    · exact .inr ⟨e, (mem e).mpr (.inl inside), both⟩
  · obtain old | rfl := (mem e).mp inside
    · obtain taken | lost | sends' := numbered.accounted e old
      · refine .inl ?_
        rw [after]
        exact taken
      · refine .inr (.inl ?_)
        rw [after]
        exact lost
      · exact .inr (.inr (sendingBase _ _ sends'))
    · exact .inr (.inr ⟨f, commit, txn, batch, rest, phase, rfl⟩)

theorem Numbered.number (config : ProducerConfig) (f : Nat) (turn : s.NumbersInOrder (s.flushers f)) :
    Numbered (s.number config f) := by
  have after := numbered.inFlight.shrinks (keeps_number config s f).shrinks
  unfold ProducerState.number at after ⊢
  cases held : s.flushers f with
  | flushing commit txn batches =>
    cases batches with
    | nil =>
      rw [held] at after
      exact numbered
    | cons batch rest =>
      rw [held] at turn after
      cases idempotent : config.idempotent with
      | false =>
        rw [idempotent] at after
        refine numbered.calm (.of_phase held (.refl s) rfl (fun b inside => ?_) (by simp) (by simp)) after
        exact mem_cons_of_mem _ inside
      | true =>
        rw [idempotent] at after
        exact numbered.countUp held turn _ rfl after
  | _ => exact numbered

/-! ## Sending -/

theorem Numbered.arrive {f : Nat} {base : Option Int} (held : s.flushers f = .sending commit txn base batch rest) (appends : Option Nat)
    (inFlight : InFlight (s.arrive txn base batch appends)) : Numbered (s.arrive txn base batch appends) := by
  have others : ∀ key, key ≠ batch.key → (s.arrive txn base batch appends).lastSequence key = s.lastSequence key :=
    fun key different => update_of_ne different _ _
  have own : (s.arrive txn base batch appends).lastSequence batch.key = (s.check base batch).2 := update_self _ _ _
  -- the number stays, or it is that of this batch now
  have moves : (s.check base batch).2 = s.lastSequence batch.key ∨ ∃ b, base = some b ∧ (s.lastSequence batch.key).getD (-1) < b ∧
      (s.check base batch).2 = some (b + batch.records.length - 1) := by
    cases base with
    | none => exact .inl rfl
    | some b =>
      obtain ⟨checked, next⟩ | ⟨checked, -⟩ | ⟨e, checked, -⟩ := check_cases s b batch
      · exact .inr ⟨b, rfl, by omega, by rw [checked]⟩
      · exact .inl (by rw [checked])
      · exact .inl (by rw [checked])
  have mine : ∀ b, base = some b → entry batch b ∈ s.history.numbered := by
    rintro b rfl
    exact numbered.sending f commit txn b batch rest held
  refine ⟨inFlight, numbered.order, numbered.below, numbered.later, numbered.start, numbered.gapless, numbered.sending, fun key => ?_,
    fun e inside => ?_⟩
  · by_cases same : key = batch.key
    · rw [same, own]
      obtain stays | ⟨b, isBase, -, moved⟩ := moves
      · rw [stays]
        exact numbered.stored batch.key
      · exact .inr ⟨entry batch b, mine b isBase, rfl, moved⟩
    · rw [others key same]
      exact numbered.stored key
  · obtain taken | rest' := numbered.accounted e inside
    · refine .inl ?_
      unfold Taken at taken ⊢
      by_cases same : e.key = batch.key
      · rw [same] at taken ⊢
        rw [own]
        obtain stays | ⟨b, isBase, ahead, moved⟩ := moves
        · rw [stays]
          exact taken
        · have positive : 0 < batch.records.length := (numbered.below _ (mine b isBase)).1
          rw [moved, Option.getD_some]
          omega
      · rw [others _ same]
        exact taken
    · exact .inr rest'

/-- A batch that is no longer being sent has been taken or lost. -/
theorem Numbered.answer {f : Nat} {base : Option Int} {firstOffset : Option Nat} (held : s.flushers f = .sending commit txn base batch rest)
    (t : ProducerState) (flushers : t.flushers = s.flushers) (entries : t.history.numbered = s.history.numbered)
    (sequenceNumbers : t.sequenceNumbers = s.sequenceNumbers) (lastSequence : t.lastSequence = s.lastSequence) (sends : t.sends = s.sends)
    (buffers : t.buffers = s.buffers) (lost : ∀ e ∈ s.history.lost, e ∈ t.history.lost)
    (accounted : ∀ b, base = some b → s.Taken batch.key b ∨ ∃ e ∈ t.history.lost, e.key = batch.key ∧ e.base = b)
    (inFlight : InFlight (t.setFlusher f (.answered commit txn batch firstOffset rest))) :
    Numbered (t.setFlusher f (.answered commit txn batch firstOffset rest)) := by
  have phase : (t.setFlusher f (.answered commit txn batch firstOffset rest)).flushers f = .answered commit txn batch firstOffset rest :=
    update_self _ _ _
  have phases : ∀ g, g ≠ f → (t.setFlusher f (.answered commit txn batch firstOffset rest)).flushers g = s.flushers g := by
    intro g different
    rw [← flushers]
    exact update_of_ne different _ _
  refine ⟨inFlight, ?_, ?_, ?_, ?_, ?_, ?_, ?_, ?_⟩
  · show t.history.numbered.Pairwise _
    rw [entries]
    exact numbered.order
  · show ∀ e ∈ t.history.numbered, 0 < e.count ∧ e.base + e.count ≤ t.sequenceNumbers e.key ∧ e.firstSend < t.sends
    rw [entries, sequenceNumbers, sends]
    exact numbered.below
  · show ∀ e ∈ t.history.numbered, _
    rw [entries]
    rintro e inside n (buffered | ⟨g, b, there, named, sent⟩)
    · refine numbered.later e inside n (.inl ?_)
      unfold bufferedSends ProducerState.buffered at buffered ⊢
      rw [← buffers]
      exact buffered
    · refine numbered.later e inside n (.inr ⟨g, b, ?_, named, sent⟩)
      by_cases here : g = f
      · rw [here, phase] at there
        rw [here, held]
        exact there
      · rwa [phases g here] at there
  · show ∀ key, t.sequenceNumbers key = 0 ∨ ∃ e ∈ t.history.numbered, _
    rw [entries, sequenceNumbers]
    exact numbered.start
  · show ∀ e ∈ t.history.numbered, t.sequenceNumbers e.key = _ ∨ ∃ e' ∈ t.history.numbered, _
    rw [entries, sequenceNumbers]
    exact numbered.gapless
  · intro g commit' txn' base' batch' rest' sends'
    show entry batch' base' ∈ t.history.numbered
    rw [entries]
    by_cases here : g = f
    · rw [here, phase] at sends'
      cases sends'
    · rw [phases g here] at sends'
      exact numbered.sending g commit' txn' base' batch' rest' sends'
  · show ∀ key, t.lastSequence key = none ∨ ∃ e ∈ t.history.numbered, _ ∧ t.lastSequence key = _
    rw [entries, lastSequence]
    exact numbered.stored
  · show ∀ e ∈ t.history.numbered, e.base ≤ (t.lastSequence e.key).getD (-1) ∨ (∃ e' ∈ t.history.lost, _) ∨ _
    rw [entries, lastSequence]
    intro e inside
    obtain taken | ⟨e', gone, both⟩ | ⟨g, commit', txn', batch', rest', sends', named⟩ := numbered.accounted e inside
    · exact .inl taken
    · exact .inr (.inl ⟨e', lost e' gone, both⟩)
    · by_cases here : g = f
      · rw [here, held] at sends'
        cases sends'
        obtain taken | gone := accounted e.base rfl
        · exact .inl (named ▸ taken)
        · exact .inr (.inl (named ▸ gone))
      · exact .inr (.inr ⟨g, commit', txn', batch', rest', by rw [phases g here, sends'], named⟩)

theorem Numbered.attempt (f : Nat) (a : Attempt) : Numbered (s.attempt f a) := by
  have after := numbered.inFlight.shrinks (keeps_attempt s f a).shrinks
  obtain same | ⟨commit, txn, base, batch, rest, held, outcome⟩ := attempt_cases s f a
  · rw [same]
    exact numbered
  · have arrived : Numbered (if a.arrives = true then s.arrive txn base batch a.appends else s) := by
      have shrinks := numbered.inFlight.shrinks (keeps_arrive s a txn base batch).shrinks
      cases arrives : a.arrives with
      | true =>
        rw [arrives] at shrinks
        exact numbered.arrive held a.appends shrinks
      | false => exact numbered
    have heldStill : (if a.arrives = true then s.arrive txn base batch a.appends else s).flushers f =
        .sending commit txn base batch rest := by
      cases a.arrives <;> exact held
    obtain ⟨first, arrives, -, replied, equal⟩ | ⟨-, equal⟩ | equal := outcome
    · rw [equal] at after ⊢
      refine arrived.answer heldStill _ rfl rfl rfl rfl rfl rfl (fun _ gone => gone) (fun b isBase => .inl ?_) after
      -- the server has answered, so it has had the batch
      subst isBase
      rw [if_pos arrives]
      show b ≤ (update s.lastSequence batch.key (s.check (some b) batch).2 batch.key).getD (-1)
      rw [update_self]
      have positive : 0 < batch.records.length := (numbered.below _ (numbered.sending f commit txn b batch rest held)).1
      obtain ⟨checked, -⟩ | ⟨checked, duplicate⟩ | ⟨e, checked, -⟩ := check_cases s b batch
      · rw [checked, Option.getD_some]
        omega
      · rw [checked]
        exact duplicate
      · unfold reply at replied
        rw [checked] at replied
        cases replied
    · rw [equal]
      exact arrived
    · rw [equal] at after ⊢
      refine arrived.answer heldStill _ rfl rfl rfl rfl rfl rfl (fun _ gone => mem_append_left _ gone) (fun b isBase => ?_) after
      subst isBase
      by_cases taken : (if a.arrives = true then s.arrive txn (some b) batch a.appends else s).Taken batch.key b
      · exact .inl taken
      · refine .inr ⟨entry batch b, mem_append_right _ (mem_map.mpr ⟨b, ?_, rfl⟩), rfl, rfl⟩
        exact mem_filter.mpr ⟨mem_singleton.mpr rfl, decide_eq_true taken⟩

/-! ## Runs -/

theorem Numbered.step (config : ProducerConfig) (a : ProducerStep) (fit : s.SequencesFit a) :
    Numbered (s.step config a) := by
  have inFlight := numbered.inFlight.step config a
  cases a with
  | append key record now => exact numbered.calm (calm_append s key record now) inFlight
  | enqueue send => exact numbered.calm (calm_enqueue s send) inFlight
  | drain f commit now order => exact numbered.calm (calm_drain config s f commit now order) inFlight
  | readIds f => exact numbered.calm (calm_readIds s f) inFlight
  | number f => exact numbered.number config f fit
  | attempt f a => exact numbered.attempt f a
  | deliver f => exact numbered.calm (calm_deliver s f) inFlight
  | beginTransaction id => exact numbered.calm (calm_transaction s (some id)) inFlight
  | commitRequest f succeeds => exact numbered.calm (calm_commitRequest s f succeeds) inFlight
  | commitEnd f => exact numbered.calm (calm_commitEnd s f) inFlight
  | abortTransaction => exact numbered.calm (calm_transaction s none) inFlight


end
/-- **Sequence numbers stay acceptable** in every run whose steps fit: they increase with the records, and a request is
refused as out of order only while an earlier batch is still being sent. -/
theorem base_sequences_acceptable (config : ProducerConfig) (as : List ProducerStep)
    (fit : Meets (step config) SequencesFit initial as) :
    (run (step config) initial as).BasesInOrder ∧ ∀ before f a after, as = before ++ .attempt f a :: after →
      (run (step config) initial before).RefusedBehind a ((run (step config) initial before).flushers f) := by
  have reached : ∀ before, Meets (step config) SequencesFit initial before →
      Numbered (run (step config) initial before) := fun before fit =>
    fit.invariant (fun _ a numbered fit => numbered.step config a fit) numbered_initial
  refine ⟨(reached as fit).basesInOrder, fun before f a after cut => ?_⟩
  have unbroken := meets_iff_forall.mp fit before (.attempt f a) after cut
  rw [cut] at fit
  exact (reached before (meets_append.mp fit).1).refusedBehind a f unbroken

/-! ## Two flushers -/

def single : ProducerConfig := ⟨1, 1000000, 100, true⟩

def clicks : TopicPartition := ⟨"clicks", 0⟩

def click : BatchRecord := ⟨none, [1], 0⟩

/-- The answer to the first batch is lost; the third batch overtakes the second, is refused and given up. -/
def threeBatches : List ProducerStep :=
  [.append clicks click 0, .enqueue 0, .drain 0 none 0 [clicks], .readIds 0, .number 0, .attempt 0 ⟨true, some 5, false, true⟩,
    .append clicks click 1, .enqueue 1, .drain 1 none 1 [clicks], .attempt 0 ⟨true, none, true, false⟩, .deliver 0, .readIds 1, .number 1,
    .append clicks click 2, .enqueue 2, .drain 0 none 2 [clicks], .readIds 0, .number 0, .attempt 0 ⟨true, some 6, true, false⟩,
    .attempt 1 ⟨true, some 6, true, false⟩]

theorem base_sequences_acceptable_threeBatches :
    ((run (step single) initial threeBatches).history.numbered.map Numbering.base = [0, 1, 2] ∧
      (run (step single) initial threeBatches).lastSequence clicks = some 1) ∧
    (run (step single) initial threeBatches).BasesInOrder ∧ ∀ before f a after, threeBatches = before ++ .attempt f a :: after →
      (run (step single) initial before).RefusedBehind a ((run (step single) initial before).flushers f) :=
  ⟨by decide, base_sequences_acceptable single threeBatches (by decide)⟩

/-- The request of the first batch never arrives. -/
def firstLost : List ProducerStep :=
  [.append clicks click 0, .enqueue 0, .drain 0 none 0 [clicks], .readIds 0, .number 0, .attempt 0 ⟨false, none, false, false⟩, .deliver 0,
    .append clicks click 1, .enqueue 1, .drain 0 none 1 [clicks], .readIds 0, .number 0]

theorem base_sequences_broken : ¬ ∀ (config : ProducerConfig) (as : List ProducerStep),
    (run (step config) initial as).BasesInOrder ∧ ∀ before f a after, as = before ++ .attempt f a :: after →
      (run (step config) initial before).RefusedBehind a ((run (step config) initial before).flushers f) := by
  intro acceptable
  have behind := (acceptable single (firstLost ++ [.attempt 0 ⟨true, some 5, true, false⟩])).2 firstLost 0 ⟨true, some 5, true, false⟩ [] rfl
  have alone : ∀ g ∈ (run (step single) initial firstLost).begun,
      ∀ p ∈ ((run (step single) initial firstLost).flushers g).base?, ¬ p.2 < 1 := by decide
  have held : (run (step single) initial firstLost).flushers 0 =
    .sending none none (some 1) ⟨clicks, [⟨click, 1, none⟩]⟩ [] := by decide
  rw [held] at behind
  obtain ⟨g, begun, p, sends, -, smaller, -⟩ := behind rfl (by decide)
  exact alone g begun p sends smaller

end ProducerState

end StreamHouse.Client
