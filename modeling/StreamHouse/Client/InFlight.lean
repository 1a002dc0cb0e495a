import Mathlib.Data.List.Dedup
import StreamHouse.Client.Producer
import StreamHouse.Lib.Increasing

/-!
# What is in flight

The records of a partition that the flushers hold lie in blocks: whatever the interleaving, of two batches
all records of the one were sent before all of the other, and what is still in the buffer was sent last.
-/

namespace StreamHouse.Client

open Metadata Lib Increasing List Function ReadyBatch

/-- The batches that a flusher has drained and not yet settled. -/
def Flushing.batches : Flushing → List ReadyBatch
  | .idle | .flushed _ | .committed _ => []
  | .drained _ batches | .flushing _ _ batches => batches
  | .sending _ _ _ batch rest | .answered _ _ batch _ rest => batch :: rest

@[simp] theorem Flushing.batches_next (commit txn : Option String) (batches : List ReadyBatch) :
    (Flushing.next commit txn batches).batches = batches := by
  cases batches with
  | nil => cases commit <;> rfl
  | cons batch rest => rfl

namespace ProducerState

variable {config : ProducerConfig} {s t : ProducerState}

/-- The numbers of the sends whose records are in a buffer. -/
def bufferedSends (s : ProducerState) (key : TopicPartition) : List Nat := (s.buffered key).map Sent.number

structure InFlight (s : ProducerState) : Prop where
  buffers : ∀ key, (s.bufferedSends key).Pairwise (· < ·) ∧ ∀ n ∈ s.bufferedSends key, n < s.sends
  nonempty : ∀ f, ∀ b ∈ (s.flushers f).batches, b.records ≠ []
  batches : ∀ f, ∀ b ∈ (s.flushers f).batches, b.sends.Pairwise (· < ·) ∧ ∀ n ∈ b.sends, n < s.sends
  before : ∀ f, ∀ b ∈ (s.flushers f).batches, Below b.sends (s.bufferedSends b.key)
  apart : ∀ f f', f ≠ f' → ∀ b ∈ (s.flushers f).batches, ∀ b' ∈ (s.flushers f').batches, b.key = b'.key →
    Below b.sends b'.sends ∨ Below b'.sends b.sends
  keys : ∀ f, ((s.flushers f).batches.map key).Nodup
  begun : ∀ f, s.flushers f ≠ .idle → f ∈ s.begun

theorem inFlight_initial : InFlight initial where
  buffers key := ⟨.nil, (by rintro _ ⟨⟩)⟩
  nonempty f := by rintro _ ⟨⟩
  batches f := by rintro _ ⟨⟩
  before f := by rintro _ ⟨⟩
  apart f f' different := by rintro _ ⟨⟩
  keys f := nodup_nil
  begun f busy := absurd rfl busy

/-! ## Steps that leave the buffers alone -/

/-- Flushers settle or abandon batches at most. -/
structure Shrinks (s t : ProducerState) : Prop where
  buffers : t.buffers = s.buffers
  sends : t.sends = s.sends
  batches : ∀ f, (t.flushers f).batches.Sublist (s.flushers f).batches
  busy : ∀ f, t.flushers f ≠ .idle → s.flushers f ≠ .idle
  begun : t.begun = s.begun

theorem Shrinks.refl (s : ProducerState) : Shrinks s s := ⟨rfl, rfl, fun _ => .refl _, fun _ => id, rfl⟩

theorem Shrinks.of_update {f : Nat} {old phase : Flushing} (held : s.flushers f = old) (buffers : t.buffers = s.buffers)
    (sends : t.sends = s.sends) (begun : t.begun = s.begun) (flushers : t.flushers = update s.flushers f phase)
    (batches : phase.batches.Sublist old.batches) (busy : old ≠ .idle) : Shrinks s t := by
  subst held
  refine ⟨buffers, sends, fun g => ?_, fun g => ?_, begun⟩
  · rw [flushers]
    by_cases same : g = f
    · rw [same, update_self]
      exact batches
    · rw [update_of_ne same]
  · rw [flushers]
    by_cases same : g = f
    · rw [same]
      exact fun _ => busy
    · rw [update_of_ne same]
      exact id

theorem Shrinks.bufferedSends (shrinks : Shrinks s t) (key : TopicPartition) : t.bufferedSends key = s.bufferedSends key := by
  unfold ProducerState.bufferedSends buffered
  rw [shrinks.buffers]

theorem InFlight.shrinks (inFlight : InFlight s) (shrinks : Shrinks s t) : InFlight t where
  buffers key := by
    rw [shrinks.bufferedSends, shrinks.sends]
    exact inFlight.buffers key
  nonempty f b held := inFlight.nonempty f b ((shrinks.batches f).subset held)
  batches f b held := by
    rw [shrinks.sends]
    exact inFlight.batches f b ((shrinks.batches f).subset held)
  before f b held := by
    rw [shrinks.bufferedSends]
    exact inFlight.before f b ((shrinks.batches f).subset held)
  apart f f' different b held b' held' :=
    inFlight.apart f f' different b ((shrinks.batches f).subset held) b' ((shrinks.batches f').subset held')
  keys f := (inFlight.keys f).sublist ((shrinks.batches f).map _)
  begun f busy := by
    rw [shrinks.begun]
    exact inFlight.begun f (shrinks.busy f busy)

theorem shrinks_enqueue (s : ProducerState) (send : Nat) : Shrinks s (s.enqueue send) := by
  unfold enqueue
  cases s.unqueued.find? fun w => w.1.number = send with
  | none => exact .refl s
  | some w => exact ⟨rfl, rfl, fun _ => .refl _, fun _ => id, rfl⟩

/-- The step neither sends nor settles anything. -/
structure Keeps (s t : ProducerState) : Prop where
  buffers : t.buffers = s.buffers
  sends : t.sends = s.sends
  batches : ∀ f, (t.flushers f).batches = (s.flushers f).batches
  busy : ∀ f, t.flushers f ≠ .idle → s.flushers f ≠ .idle
  begun : t.begun = s.begun
  pendingRecords : t.pendingRecords = s.pendingRecords
  unqueued : t.unqueued = s.unqueued
  receivers : t.receivers = s.receivers

theorem Keeps.refl (s : ProducerState) : Keeps s s := ⟨rfl, rfl, fun _ => rfl, fun _ => id, rfl, rfl, rfl, rfl⟩

theorem Keeps.shrinks (keeps : Keeps s t) : Shrinks s t :=
  ⟨keeps.buffers, keeps.sends, fun f => keeps.batches f ▸ .refl _, keeps.busy, keeps.begun⟩

/-- A flusher that is not idle goes on with the same batches. -/
theorem Keeps.of_phase {f : Nat} {old phase : Flushing} (held : s.flushers f = old) (keeps : Keeps s t) (batches : phase.batches = old.batches)
    (busy : old ≠ .idle) : Keeps s (t.setFlusher f phase) := by
  subst held
  refine ⟨keeps.buffers, keeps.sends, fun g => ?_, fun g => ?_, keeps.begun, keeps.pendingRecords, keeps.unqueued, keeps.receivers⟩
  · show (update t.flushers f phase g).batches = _
    by_cases same : g = f
    · rw [same, update_self, batches]
    · rw [update_of_ne same, keeps.batches]
  · show update t.flushers f phase g ≠ .idle → _
    by_cases same : g = f
    · rw [same]
      exact fun _ => busy
    · rw [update_of_ne same]
      exact keeps.busy g

theorem keeps_readIds (s : ProducerState) (f : Nat) : Keeps s (s.readIds f) := by
  unfold readIds
  cases held : s.flushers f with
  | drained commit batches => exact .of_phase held (.refl s) (Flushing.batches_next _ _ _) (by simp)
  | _ => exact .refl s

theorem keeps_countUp (s : ProducerState) (batch : ReadyBatch) : Keeps s (s.countUp batch) :=
  ⟨rfl, rfl, fun _ => rfl, fun _ => id, rfl, rfl, rfl, rfl⟩

theorem keeps_number (config : ProducerConfig) (s : ProducerState) (f : Nat) : Keeps s (s.number config f) := by
  unfold number
  cases held : s.flushers f with
  | flushing commit txn batches =>
    cases batches with
    | nil => exact .refl s
    | cons batch rest =>
      cases config.idempotent with
      | true => exact .of_phase held (keeps_countUp s batch) rfl (by simp)
      | false => exact .of_phase held (.refl s) rfl (by simp)
  | _ => exact .refl s

/-- What the flusher goes on with after an answer. -/
def afterAnswer (f : Nat) (commit txn : Option String) (firstOffset : Option Nat) (rest : List ReadyBatch) : Flushing :=
  if firstOffset = none ∧ f ≠ 0 then .idle else .next commit txn rest

/-- The batch is settled, and a `flush()` call whose batch has failed is over. -/
structure Delivered (s t : ProducerState) (f : Nat) (commit txn : Option String) (batch : ReadyBatch) (firstOffset : Option Nat)
    (rest : List ReadyBatch) : Prop where
  held : s.flushers f = .answered commit txn batch firstOffset rest
  flushers : t.flushers = update s.flushers f (afterAnswer f commit txn firstOffset rest)
  pendingRecords : t.pendingRecords =
    update s.pendingRecords batch.key ((s.pendingRecords batch.key).drop batch.records.length)
  receivers : ∀ send, t.receivers send = ((((s.pendingRecords batch.key).take batch.records.length).idxOf? send).map fun i =>
    (firstOffset.map fun first => Receiver.offset (first + i)).getD .failed).getD (s.receivers send)
  history : t.history = { s.history with dropped := t.history.dropped }
  dropped : t.history.dropped = s.history.dropped ++
    if firstOffset = none ∧ f ≠ 0 then rest.flatMap records else []
  others : t = { s with pendingRecords := t.pendingRecords, receivers := t.receivers, flushers := t.flushers, history := t.history }

theorem deliver_cases (s : ProducerState) (f : Nat) :
    s.deliver f = s ∨ ∃ commit txn batch firstOffset rest, Delivered s (s.deliver f) f commit txn batch firstOffset rest := by
  unfold deliver
  cases held : s.flushers f with
  | answered commit txn batch firstOffset rest =>
    refine .inr ⟨commit, txn, batch, firstOffset, rest, ?_⟩
    cases firstOffset with
    | some first => exact ⟨held, rfl, rfl, fun _ => rfl, rfl, (append_nil _).symm, rfl⟩
    | none =>
      by_cases background : f = 0
      · simp only [if_pos background]
        exact ⟨held, by rw [afterAnswer, if_neg fun both => both.2 background]; rfl, rfl, fun _ => rfl, rfl,
          by rw [if_neg fun both => both.2 background]; exact (append_nil _).symm, rfl⟩
      · simp only [if_neg background]
        exact ⟨held, by rw [afterAnswer, if_pos ⟨rfl, background⟩]; rfl, rfl, fun _ => rfl, rfl,
          by rw [if_pos ⟨rfl, background⟩]; rfl, rfl⟩
  | _ => exact .inl rfl

theorem afterAnswer_batches (f : Nat) (commit txn : Option String) (firstOffset : Option Nat) (rest : List ReadyBatch) :
    (afterAnswer f commit txn firstOffset rest).batches = if firstOffset = none ∧ f ≠ 0 then [] else rest := by
  unfold afterAnswer
  split_ifs
  · rfl
  · exact Flushing.batches_next _ _ _

theorem shrinks_deliver (s : ProducerState) (f : Nat) : Shrinks s (s.deliver f) := by
  obtain same | ⟨commit, txn, batch, firstOffset, rest, delivered⟩ := deliver_cases s f
  · rw [same]
    exact .refl s
  · refine .of_update delivered.held (by rw [delivered.others]) (by rw [delivered.others]) (by rw [delivered.others]) delivered.flushers
      ?_ (by simp)
    rw [afterAnswer_batches]
    split_ifs
    · exact nil_sublist _
    · exact sublist_cons_self batch rest

theorem keeps_commitRequest (s : ProducerState) (f : Nat) (succeeds : Bool) : Keeps s (s.commitRequest f succeeds) := by
  unfold commitRequest
  cases held : s.flushers f with
  | flushed transactionId =>
    cases succeeds with
    | true =>
      have noted : Keeps s (s.noteCommit transactionId) := ⟨rfl, rfl, fun _ => rfl, fun _ => id, rfl, rfl, rfl, rfl⟩
      exact .of_phase held noted rfl (by simp)
    | false => exact .of_phase held (.refl s) rfl (by simp)
  | _ => exact .refl s

/-- The id of the current transaction is another. -/
theorem keeps_transaction (s : ProducerState) (current : Option String) : Keeps s { s with currentTransactionId := current } :=
  ⟨rfl, rfl, fun _ => rfl, fun _ => id, rfl, rfl, rfl, rfl⟩

theorem keeps_commitEnd (s : ProducerState) (f : Nat) : Keeps s (s.commitEnd f) := by
  unfold commitEnd
  cases held : s.flushers f with
  | committed transactionId => exact .of_phase held (keeps_transaction s none) rfl (by simp)
  | _ => exact .refl s

/-! ## Attempts -/

/-- What one round of the retry loop comes to. -/
structure Attempted (s t : ProducerState) (f : Nat) (a : Attempt) (commit txn : Option String) (base : Option Int) (batch : ReadyBatch)
    (rest : List ReadyBatch) : Prop where
  held : s.flushers f = .sending commit txn base batch rest
  outcome : let s' := if a.arrives = true then s.arrive txn base batch a.appends else s
    (∃ first, a.arrives = true ∧ a.answerArrives = true ∧ s.reply base batch a.appends = some first ∧
      t = s'.setFlusher f (.answered commit txn batch (some first) rest)) ∨
    (a.retries = true ∧ t = s') ∨ t = (s'.giveUp txn base batch).setFlusher f (.answered commit txn batch none rest)

theorem attempt_cases (s : ProducerState) (f : Nat) (a : Attempt) :
    s.attempt f a = s ∨ ∃ commit txn base batch rest, Attempted s (s.attempt f a) f a commit txn base batch rest := by
  unfold attempt
  cases held : s.flushers f with
  | sending commit txn base batch rest =>
    refine .inr ⟨commit, txn, base, batch, rest, held, ?_⟩
    intro s'
    by_cases answers : a.arrives = true ∧ a.answerArrives = true
    · simp only [if_pos answers]
      cases replied : s.reply base batch a.appends with
      | some first => exact .inl ⟨first, answers.1, answers.2, rfl, rfl⟩
      | none =>
        cases retries : a.retries with
        | true => exact .inr (.inl ⟨rfl, rfl⟩)
        | false => exact .inr (.inr rfl)
    · simp only [if_neg answers]
      cases retries : a.retries with
      | true => exact .inr (.inl ⟨rfl, rfl⟩)
      | false => exact .inr (.inr rfl)
  | _ => exact .inl rfl

theorem keeps_arrive (s : ProducerState) (a : Attempt) (txn : Option String) (base : Option Int) (batch : ReadyBatch) :
    Keeps s (if a.arrives = true then s.arrive txn base batch a.appends else s) := by
  cases a.arrives with
  | true => exact ⟨rfl, rfl, fun _ => rfl, fun _ => id, rfl, rfl, rfl, rfl⟩
  | false => exact .refl s

theorem Keeps.giveUp (keeps : Keeps s t) (txn : Option String) (base : Option Int) (batch : ReadyBatch) : Keeps s (t.giveUp txn base batch) :=
  ⟨keeps.buffers, keeps.sends, keeps.batches, keeps.busy, keeps.begun, keeps.pendingRecords, keeps.unqueued, keeps.receivers⟩

theorem keeps_attempt (s : ProducerState) (f : Nat) (a : Attempt) : Keeps s (s.attempt f a) := by
  obtain same | ⟨commit, txn, base, batch, rest, held, outcome⟩ := attempt_cases s f a
  · rw [same]
    exact .refl s
  · have arrived := keeps_arrive s a txn base batch
    obtain ⟨first, -, -, -, after⟩ | ⟨-, after⟩ | after := outcome <;> rw [after]
    · exact .of_phase held arrived rfl (by simp)
    · exact arrived
    · exact .of_phase held (arrived.giveUp txn base batch) rfl (by simp)

/-! ## Sends and drains -/

theorem bufferedSends_append (s : ProducerState) (key other : TopicPartition) (record : BatchRecord) (now : Nat) :
    (s.append key record now).bufferedSends other =
      if other = key then s.bufferedSends other ++ [s.sends] else s.bufferedSends other := by
  unfold ProducerState.bufferedSends buffered append
  by_cases same : other = key
  · subst same
    simp only [update_self, Option.map_some, Option.getD_some, if_pos]
    cases s.buffers other with
    | none => rfl
    | some b => exact map_append
  · simp only [update_of_ne same, if_neg same]

theorem InFlight.append (inFlight : InFlight s) (key : TopicPartition) (record : BatchRecord) (now : Nat) :
    InFlight (s.append key record now) where
  buffers other := by
    obtain ⟨increasing, below⟩ := inFlight.buffers other
    rw [bufferedSends_append]
    show List.Pairwise _ _ ∧ ∀ n ∈ _, n < s.sends + 1
    by_cases same : other = key
    · rw [if_pos same]
      refine ⟨List.pairwise_append.mpr ⟨increasing, pairwise_singleton _ _, fun n inside m last => ?_⟩, fun n inside => ?_⟩
      · rw [mem_singleton.mp last]
        exact below n inside
      · obtain old | last := mem_append.mp inside
        · exact Nat.lt_succ_of_lt (below n old)
        · rw [mem_singleton.mp last]
          exact Nat.lt_succ_self _
    · rw [if_neg same]
      exact ⟨increasing, fun n inside => Nat.lt_succ_of_lt (below n inside)⟩
  nonempty := inFlight.nonempty
  batches f b held := ⟨(inFlight.batches f b held).1, fun n inside => Nat.lt_succ_of_lt ((inFlight.batches f b held).2 n inside)⟩
  before f b held := by
    rw [bufferedSends_append]
    by_cases same : b.key = key
    · rw [if_pos same]
      intro n inside m buffered
      obtain old | last := mem_append.mp buffered
      · exact inFlight.before f b held n inside m old
      · rw [mem_singleton.mp last]
        exact (inFlight.batches f b held).2 n inside
    · rw [if_neg same]
      exact inFlight.before f b held
  apart := inFlight.apart
  keys := inFlight.keys
  begun := inFlight.begun

variable {order : List TopicPartition}

theorem mem_ready {now : Nat} {key : TopicPartition} :
    key ∈ s.ready config now order ↔ key ∈ order ∧ ∃ b ∈ s.buffers key, b.shouldFlush config now = true := by
  unfold ready
  rw [mem_filter, mem_dedup, Option.any_eq_true]
  exact Iff.rfl

theorem mem_readyBatches {now : Nat} {b : ReadyBatch} :
    b ∈ s.readyBatches config now order ↔ b.key ∈ s.ready config now order ∧ b.records = s.buffered b.key := by
  unfold readyBatches
  rw [mem_map]
  constructor
  · rintro ⟨key, inside, rfl⟩
    exact ⟨inside, rfl⟩
  · rintro ⟨inside, records⟩
    exact ⟨b.key, inside, by rw [← records]⟩

/-- The drain of an idle flusher. -/
structure Drained (config : ProducerConfig) (s t : ProducerState) (f : Nat) (commit : Option String) (now : Nat)
    (order : List TopicPartition) : Prop where
  idle : s.flushers f = .idle
  held : t.flushers f = .drained commit (s.readyBatches config now order)
  others : ∀ g, g ≠ f → t.flushers g = s.flushers g
  buffers : ∀ key, t.bufferedSends key = if key ∈ s.ready config now order then [] else s.bufferedSends key
  buffered : ∀ key, t.buffered key = if key ∈ s.ready config now order then [] else s.buffered key
  rest : t = { s with buffers := t.buffers, begun := f :: s.begun, flushers := t.flushers }

theorem drain_cases (config : ProducerConfig) (s : ProducerState) (f : Nat) (commit : Option String) (now : Nat)
    (order : List TopicPartition) : s.drain config f commit now order = s ∨
      Drained config s (s.drain config f commit now order) f commit now order := by
  unfold drain
  cases held : s.flushers f with
  | idle =>
    have buffered : ∀ key, ((if key ∈ s.ready config now order then some (BatchBuffer.new now) else s.buffers key).map
        BatchBuffer.records).getD [] = if key ∈ s.ready config now order then [] else s.buffered key := by
      intro key
      by_cases taken : key ∈ s.ready config now order
      · rw [if_pos taken, if_pos taken]
        rfl
      · rw [if_neg taken, if_neg taken]
        rfl
    refine .inr ⟨held, update_self _ _ _, fun g different => update_of_ne different _ _, fun key => ?_, buffered, rfl⟩
    exact (congrArg (List.map Sent.number) (buffered key)).trans (apply_ite _ _ _ _)
  | _ => exact .inl rfl

theorem Drained.sends_eq {now : Nat} {b : ReadyBatch} (inside : b ∈ s.readyBatches config now order) :
    b.sends = s.bufferedSends b.key := by
  unfold ReadyBatch.sends bufferedSends
  rw [(mem_readyBatches.mp inside).2]

theorem InFlight.drained {f now : Nat} {commit : Option String} (inFlight : InFlight s)
    (drained : Drained config s t f commit now order) : InFlight t := by
  have sends : t.sends = s.sends := by rw [drained.rest]
  have batches : ∀ g, ∀ b ∈ (t.flushers g).batches, (g = f ∧ b ∈ s.readyBatches config now order) ∨
      (g ≠ f ∧ b ∈ (s.flushers g).batches) := by
    intro g b held
    by_cases same : g = f
    · rw [same, drained.held] at held
      exact .inl ⟨same, held⟩
    · rw [drained.others g same] at held
      exact .inr ⟨same, held⟩
  -- a batch that was in flight is before one that is drained now
  have older : ∀ g, ∀ b ∈ (s.flushers g).batches, ∀ b' ∈ s.readyBatches config now order, b.key = b'.key → Below b.sends b'.sends := by
    intro g b held b' taken same
    rw [Drained.sends_eq taken, ← same]
    exact inFlight.before g b held
  refine ⟨fun key => ?_, fun g b held => ?_, fun g b held => ?_, fun g b held => ?_, fun g g' different b held b' held' same => ?_,
    fun g => ?_, fun g busy => ?_⟩
  · rw [drained.buffers, sends]
    by_cases taken : key ∈ s.ready config now order
    · rw [if_pos taken]
      exact ⟨.nil, (by rintro _ ⟨⟩)⟩
    · rw [if_neg taken]
      exact inFlight.buffers key
  · obtain ⟨-, taken⟩ | ⟨-, held⟩ := batches g b held
    · obtain ⟨ready, records⟩ := mem_readyBatches.mp taken
      obtain ⟨-, buffer, there, flushes⟩ := mem_ready.mp ready
      rw [records]
      unfold ProducerState.buffered
      rw [Option.mem_def.mp there]
      unfold BatchBuffer.shouldFlush at flushes
      exact (of_decide_eq_true flushes).1
    · exact inFlight.nonempty g b held
  · rw [sends]
    obtain ⟨-, taken⟩ | ⟨-, held⟩ := batches g b held
    · rw [Drained.sends_eq taken]
      exact inFlight.buffers b.key
    · exact inFlight.batches g b held
  · rw [drained.buffers]
    by_cases taken : b.key ∈ s.ready config now order
    · rw [if_pos taken]
      rintro _ _ _ ⟨⟩
    · rw [if_neg taken]
      obtain ⟨-, now⟩ | ⟨-, held⟩ := batches g b held
      · exact absurd (mem_readyBatches.mp now).1 taken
      · exact inFlight.before g b held
  · obtain ⟨here, taken⟩ | ⟨-, held⟩ := batches g b held
    · obtain ⟨here', -⟩ | ⟨-, held'⟩ := batches g' b' held'
      · exact absurd (here.trans here'.symm) different
      · exact .inr (older g' b' held' b taken same.symm)
    · obtain ⟨-, taken'⟩ | ⟨-, held'⟩ := batches g' b' held'
      · exact .inl (older g b held b' taken' same)
      · exact inFlight.apart g g' different b held b' held' same
  · by_cases here : g = f
    · rw [here, drained.held]
      show ((s.readyBatches config now order).map key).Nodup
      unfold readyBatches
      rw [map_map]
      refine Nodup.map (fun _ _ same => same) ?_
      unfold ready
      exact (nodup_dedup order).filter _
    · rw [drained.others g here]
      exact inFlight.keys g
  · rw [drained.rest]
    by_cases here : g = f
    · rw [here]
      exact mem_cons_self
    · rw [drained.others g here] at busy
      exact mem_cons_of_mem _ (inFlight.begun g busy)

/-- **Batches stay in blocks**, whatever the interleaving. -/
theorem InFlight.step (inFlight : InFlight s) (config : ProducerConfig) (a : ProducerStep) : InFlight (s.step config a) := by
  cases a with
  | append key record now => exact inFlight.append key record now
  | drain f commit now order =>
    obtain same | drained := drain_cases config s f commit now order
    · show InFlight (s.drain config f commit now order)
      rw [same]
      exact inFlight
    · exact inFlight.drained drained
  | enqueue send => exact inFlight.shrinks (shrinks_enqueue s send)
  | readIds f => exact inFlight.shrinks (keeps_readIds s f).shrinks
  | number f => exact inFlight.shrinks (keeps_number config s f).shrinks
  | attempt f a => exact inFlight.shrinks (keeps_attempt s f a).shrinks
  | deliver f => exact inFlight.shrinks (shrinks_deliver s f)
  | commitRequest f succeeds => exact inFlight.shrinks (keeps_commitRequest s f succeeds).shrinks
  | commitEnd f => exact inFlight.shrinks (keeps_commitEnd s f).shrinks
  | beginTransaction transactionId => exact inFlight.shrinks (keeps_transaction s (some transactionId)).shrinks
  | abortTransaction => exact inFlight.shrinks (keeps_transaction s none).shrinks

end ProducerState

end StreamHouse.Client
