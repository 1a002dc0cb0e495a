import StreamHouse.Client.InFlight

/-!
# The records of a client's transaction

A batch goes out with the transaction id that is current when it is flushed, and a commit flushes the batches
that are ready by then. The records of a transaction are transmitted with its id, and before its commit, as long as
the one is still theirs and the other has left none of them behind.
-/

namespace StreamHouse.Client

open Metadata Lib List Function ProducerState Flushing

/-- The batches that a flusher has not done sending. -/
def Flushing.unsent : Flushing → List ReadyBatch
  | .idle | .flushed _ | .committed _ => []
  | .drained _ batches | .flushing _ _ batches => batches
  | .sending _ _ _ batch rest => batch :: rest
  | .answered _ _ _ _ rest => rest

/-- The transaction whose commit the flush belongs to. -/
def Flushing.committing : Flushing → Option String
  | .idle => none
  | .drained commit _ | .flushing commit _ _ | .sending commit _ _ _ _ | .answered commit _ _ _ _ => commit
  | .flushed transactionId | .committed transactionId => some transactionId

/-- The transaction id that a flusher has read. -/
def Flushing.idRead : Flushing → Option (Option String)
  | .flushing _ txn _ | .sending _ txn _ _ _ | .answered _ txn _ _ _ => some txn
  | .idle | .drained _ _ | .flushed _ | .committed _ => none

/-- The records that were sent in a transaction were sent in this one. -/
def Owned (txn : Option String) (batches : List ReadyBatch) : Prop :=
  ∀ b ∈ batches, ∀ r ∈ b.records, r.transaction ≠ none → r.transaction = txn

instance Owned.decidable (txn : Option String) (batches : List ReadyBatch) : Decidable (Owned txn batches) :=
  inferInstanceAs (Decidable (∀ b ∈ batches, ∀ r ∈ b.records, r.transaction ≠ none → r.transaction = txn))

section Next

variable (commit txn : Option String) (batches : List ReadyBatch)

@[simp] theorem Flushing.unsent_next : (next commit txn batches).unsent = batches := by
  cases batches with
  | nil => cases commit <;> rfl
  | cons batch rest => rfl

@[simp] theorem Flushing.committing_next : (next commit txn batches).committing = commit := by
  cases batches with
  | nil => cases commit <;> rfl
  | cons batch rest => rfl

theorem Flushing.idRead_next {id : Option String} (read : (next commit txn batches).idRead = some id) : txn = id := by
  cases batches with
  | nil => cases commit <;> cases read
  | cons batch rest => exact Option.some.inj read

end Next

namespace ProducerState

/-! ## Transactions that are carried -/

/-- A flusher reads the id of the transaction in which its records were sent. -/
def ReadsOwn (s : ProducerState) : Flushing → Prop
  | .drained _ batches => Owned s.currentTransactionId batches
  | _ => True

/-- No record of the transaction is with a flusher that has not transmitted it, and none has been given up. -/
def NothingOutstanding (s : ProducerState) : Flushing → Prop
  | .flushed transactionId => ∀ w ∈ s.history.sent, w.1.transaction = some transactionId → w.1 ∉ s.history.dropped ∧
      ∀ g ∈ s.begun, ∀ b ∈ (s.flushers g).unsent, w.1 ∈ b.records → (w.1, some transactionId) ∈ s.history.transmitted
  | _ => True

/-- No send overlaps a commit, a commit finds the transaction's buffers ready, and all its records transmitted in the
end, and no batch is flushed under another id. -/
def TransactionsFit (config : ProducerConfig) (s : ProducerState) : ProducerStep → Prop
  | .append _ _ _ | .enqueue _ => ∀ f ∈ s.begun, (s.flushers f).committing = none
  | .drain _ commit now order => ∀ w ∈ s.history.sent, w.1.transaction ≠ none → w.1.transaction = commit →
      w.1 ∈ s.buffered w.2 → w.2 ∈ s.ready config now order
  | .readIds f => s.ReadsOwn (s.flushers f)
  | .commitRequest f true => s.NothingOutstanding (s.flushers f)
  | _ => True

instance ReadsOwn.decidable (s : ProducerState) : ∀ phase, Decidable (s.ReadsOwn phase)
  | .drained _ batches => Owned.decidable s.currentTransactionId batches
  | .idle | .flushing _ _ _ | .sending _ _ _ _ _ | .answered _ _ _ _ _ | .flushed _ | .committed _ => .isTrue trivial

instance NothingOutstanding.decidable (s : ProducerState) : ∀ phase, Decidable (s.NothingOutstanding phase)
  | .flushed transactionId => inferInstanceAs (Decidable (∀ w ∈ s.history.sent, w.1.transaction = some transactionId →
      w.1 ∉ s.history.dropped ∧ ∀ g ∈ s.begun, ∀ b ∈ (s.flushers g).unsent, w.1 ∈ b.records →
        (w.1, some transactionId) ∈ s.history.transmitted))
  | .idle | .drained _ _ | .flushing _ _ _ | .sending _ _ _ _ _ | .answered _ _ _ _ _ | .committed _ => .isTrue trivial

instance TransactionsFit.decidable (config : ProducerConfig) (s : ProducerState) : ∀ a, Decidable (s.TransactionsFit config a)
  | .append _ _ _ | .enqueue _ => inferInstanceAs (Decidable (∀ f ∈ s.begun, (s.flushers f).committing = none))
  | .drain _ commit now order => inferInstanceAs (Decidable (∀ w ∈ s.history.sent, w.1.transaction ≠ none →
      w.1.transaction = commit → w.1 ∈ s.buffered w.2 → w.2 ∈ s.ready config now order))
  | .readIds f => ReadsOwn.decidable s (s.flushers f)
  | .commitRequest f true => NothingOutstanding.decidable s (s.flushers f)
  | .commitRequest _ false | .number _ | .attempt _ _ | .deliver _ | .beginTransaction _ | .commitEnd _ | .abortTransaction =>
    .isTrue trivial

/-! ## Where a record is -/

def Unsent (s : ProducerState) (r : Sent) : Prop := ∃ f, ∃ b ∈ (s.flushers f).unsent, r ∈ b.records

def Arrived (s : ProducerState) (r : Sent) : Prop := ∃ txn, (r, txn) ∈ s.history.transmitted

def Accounted (s : ProducerState) (w : Sent × TopicPartition) : Prop :=
  w.1 ∈ s.buffered w.2 ∨ s.Unsent w.1 ∨ s.Arrived w.1 ∨ w.1 ∈ s.history.dropped

structure Transacted (s : ProducerState) : Prop where
  inFlight : InFlight s
  accounted : ∀ w, w ∈ s.history.sent ∨ w ∈ s.unqueued → s.Accounted w
  own : ∀ p ∈ s.history.transmitted, p.1.transaction ≠ none → p.2 = p.1.transaction
  owned : ∀ f txn, (s.flushers f).idRead = some txn → Owned txn (s.flushers f).unsent
  /-- The drain of a commit has left nothing of its transaction in a buffer. -/
  drained : ∀ f transactionId, (s.flushers f).committing = some transactionId →
    ∀ w ∈ s.history.sent, w.1.transaction = some transactionId → w.1 ∉ s.buffered w.2
  commits : ∀ c ∈ s.history.commits, ∀ w ∈ c.sent, w.1.transaction = some c.transactionId →
    (w.1, some c.transactionId) ∈ c.transmitted

variable {config : ProducerConfig} {s t : ProducerState}

theorem transacted_initial : Transacted initial where
  inFlight := inFlight_initial
  accounted w := by rintro (⟨⟨⟩⟩ | ⟨⟨⟩⟩)
  own := by rintro _ ⟨⟩
  owned f txn read := by cases read
  drained f transactionId committing := by cases committing
  commits := by rintro _ ⟨⟩

variable {f : Nat} {phase : Flushing}

theorem Transacted.ownedBy (transacted : Transacted s) {txn : Option String} (held : s.flushers f = phase)
    (read : phase.idRead = some txn) : Owned txn phase.unsent := by
  subst held
  exact transacted.owned f txn read

/-! ## A flusher goes on -/

/-- A flusher has gone on to the phase, and what it no longer holds has arrived or is given up. -/
structure Moved (s t : ProducerState) (f : Nat) (phase : Flushing) : Prop where
  flushers : t.flushers = Function.update s.flushers f phase
  buffers : t.buffers = s.buffers
  unqueued : t.unqueued = s.unqueued
  sent : t.history.sent = s.history.sent
  commits : t.history.commits = s.history.commits
  transmitted : ∀ p ∈ t.history.transmitted, p ∈ s.history.transmitted ∨ (p.1.transaction ≠ none → p.2 = p.1.transaction)
  arrived : s.history.transmitted ⊆ t.history.transmitted
  dropped : s.history.dropped ⊆ t.history.dropped
  unsent : ∀ b ∈ (s.flushers f).unsent, b ∈ phase.unsent ∨ ∀ r ∈ b.records, t.Arrived r ∨ r ∈ t.history.dropped
  owned : ∀ txn, phase.idRead = some txn → Owned txn phase.unsent
  committing : ∀ transactionId, phase.committing = some transactionId → (s.flushers f).committing = some transactionId

theorem Moved.accounted (moved : Moved s t f phase) {w : Sent × TopicPartition}
    (accounted : s.Accounted w) : t.Accounted w := by
  have same : t.buffered w.2 = s.buffered w.2 := by
    unfold buffered
    rw [moved.buffers]
  obtain buffered | ⟨g, b, held, inside⟩ | ⟨txn, arrived⟩ | dropped := accounted
  · exact .inl (same ▸ buffered)
  · by_cases here : g = f
    · subst here
      obtain still | done := moved.unsent b held
      · exact .inr (.inl ⟨g, b, by rwa [moved.flushers, update_self], inside⟩)
      · exact .inr (.inr (done w.1 inside))
    · exact .inr (.inl ⟨g, b, by rwa [moved.flushers, update_of_ne here], inside⟩)
  · exact .inr (.inr (.inl ⟨txn, moved.arrived arrived⟩))
  · exact .inr (.inr (.inr (moved.dropped dropped)))

theorem Transacted.moved (transacted : Transacted s) (moved : Moved s t f phase) (inFlight : InFlight t) : Transacted t where
  inFlight := inFlight
  accounted w waits := by
    rw [moved.sent, moved.unqueued] at waits
    exact moved.accounted (transacted.accounted w waits)
  own p there := by
    obtain old | own := moved.transmitted p there
    · exact transacted.own p old
    · exact own
  owned g txn read := by
    rw [moved.flushers] at read ⊢
    by_cases here : g = f
    · rw [here, update_self] at read ⊢
      exact moved.owned txn read
    · rw [update_of_ne here] at read ⊢
      exact transacted.owned g txn read
  drained g transactionId committing := by
    have before : (s.flushers g).committing = some transactionId := by
      rw [moved.flushers] at committing
      by_cases here : g = f
      · rw [here, update_self] at committing
        exact here ▸ moved.committing transactionId committing
      · rwa [update_of_ne here] at committing
    unfold buffered
    rw [moved.sent, moved.buffers]
    exact transacted.drained g transactionId before
  commits := by
    rw [moved.commits]
    exact transacted.commits

/-- Only the phase is another. -/
theorem moved_phase (unsent : phase.unsent = (s.flushers f).unsent)
    (committing : phase.committing = none ∨ phase.committing = (s.flushers f).committing)
    (owned : ∀ txn, phase.idRead = some txn → Owned txn phase.unsent) : Moved s (s.setFlusher f phase) f phase where
  flushers := rfl
  buffers := rfl
  unqueued := rfl
  sent := rfl
  commits := rfl
  transmitted p there := .inl there
  arrived := List.Subset.refl _
  dropped := List.Subset.refl _
  unsent b held := .inl (unsent ▸ held)
  owned := owned
  committing transactionId is := by
    obtain spent | same := committing
    · rw [spent] at is
      cases is
    · rw [← same, is]

theorem Transacted.readIds (transacted : Transacted s) (f : Nat) (own : s.ReadsOwn (s.flushers f)) : Transacted (s.readIds f) := by
  have inFlight := transacted.inFlight.shrinks (keeps_readIds s f).shrinks
  unfold ProducerState.readIds at inFlight ⊢
  cases held : s.flushers f with
  | drained commit batches =>
    rw [held] at own
    rw [held] at inFlight
    refine transacted.moved (moved_phase ?_ (.inr ?_) fun txn read => ?_) inFlight
    · rw [unsent_next, held]
      rfl
    · rw [committing_next, held]
      rfl
    · rw [unsent_next, ← idRead_next _ _ _ read]
      exact own
  | _ => exact transacted

theorem Transacted.number (transacted : Transacted s) (config : ProducerConfig) (f : Nat) : Transacted (s.number config f) := by
  have inFlight := transacted.inFlight.shrinks (keeps_number config s f).shrinks
  unfold ProducerState.number at inFlight ⊢
  cases held : s.flushers f with
  | flushing commit txn batches =>
    have owned : Owned txn batches := transacted.ownedBy held rfl
    rw [held] at inFlight
    cases batches with
    | nil => exact transacted
    | cons batch rest =>
      cases idempotent : config.idempotent with
      | true =>
        simp only [idempotent, if_true] at inFlight ⊢
        have moved : Moved s (s.setFlusher f (.sending commit txn (some (s.sequenceNumbers batch.key)) batch rest)) f _ :=
          moved_phase (by rw [held]; rfl) (.inr (by rw [held]; rfl)) fun id read => Option.some.inj read ▸ owned
        exact transacted.moved ⟨moved.flushers, rfl, rfl, rfl, rfl, moved.transmitted, moved.arrived, moved.dropped, moved.unsent,
          moved.owned, moved.committing⟩ inFlight
      | false =>
        simp only [idempotent] at inFlight ⊢
        exact transacted.moved (moved_phase (by rw [held]; rfl) (.inr (by rw [held]; rfl)) fun id read =>
          Option.some.inj read ▸ owned) inFlight
  | _ => exact transacted

/-! ## Attempts -/

/-- What a request that may arrive adds is the batch, under the id that was read. -/
theorem mem_transmitted_arrive {a : Attempt} {txn : Option String} {base : Option Int} {batch : ReadyBatch} {p : Sent × Option String} :
    p ∈ (if a.arrives = true then s.arrive txn base batch a.appends else s).history.transmitted ↔
      p ∈ s.history.transmitted ∨ (a.arrives = true ∧ p.1 ∈ batch.records ∧ p.2 = txn) := by
  cases a.arrives with
  | false => simp
  | true =>
    show p ∈ s.history.transmitted ++ batch.records.map (fun r => (r, txn)) ↔ _
    rw [mem_append, mem_map]
    refine or_congr_right ⟨?_, ?_⟩
    · rintro ⟨r, inside, rfl⟩
      exact ⟨rfl, inside, rfl⟩
    · rintro ⟨-, inside, rfl⟩
      exact ⟨p.1, inside, rfl⟩

theorem Transacted.attempt (transacted : Transacted s) (f : Nat) (a : Attempt) : Transacted (s.attempt f a) := by
  have inFlight := transacted.inFlight.shrinks (keeps_attempt s f a).shrinks
  obtain same | ⟨commit, txn, base, batch, rest, held, outcome⟩ := attempt_cases s f a
  · rwa [same]
  · have owned : Owned txn (batch :: rest) := transacted.ownedBy held rfl
    have rest_owned : Owned txn rest := fun b inside => owned b (mem_cons_of_mem _ inside)
    have unsent : ∀ {u : ProducerState} {phase : Flushing}, phase.unsent = rest →
        (∀ r ∈ batch.records, u.Arrived r ∨ r ∈ u.history.dropped) →
        ∀ b ∈ (s.flushers f).unsent, b ∈ phase.unsent ∨ ∀ r ∈ b.records, u.Arrived r ∨ r ∈ u.history.dropped := by
      intro u phase others settled b inside
      rw [held] at inside
      obtain rfl | later := mem_cons.mp inside
      · exact .inr settled
      · exact .inl (others ▸ later)
    -- the state after the request, answered or not
    obtain ⟨u, is⟩ : ∃ u, u = if a.arrives = true then s.arrive txn base batch a.appends else s := ⟨_, rfl⟩
    have transmitted : ∀ p, p ∈ u.history.transmitted ↔
        p ∈ s.history.transmitted ∨ (a.arrives = true ∧ p.1 ∈ batch.records ∧ p.2 = txn) := fun p => by
      rw [is]
      exact mem_transmitted_arrive
    have own : ∀ p ∈ u.history.transmitted, p ∈ s.history.transmitted ∨ (p.1.transaction ≠ none → p.2 = p.1.transaction) := by
      intro p there
      obtain old | ⟨-, inside, under⟩ := (transmitted p).mp there
      · exact .inl old
      · exact .inr fun within => by rw [under, owned batch mem_cons_self p.1 inside within]
    have arrived : s.history.transmitted ⊆ u.history.transmitted := fun p there => (transmitted p).mpr (.inl there)
    have others : u = { s with lastSequence := u.lastSequence, history := u.history } ∧ u.history.sent = s.history.sent ∧
        u.history.commits = s.history.commits ∧ u.history.dropped = s.history.dropped := by
      rw [is]
      cases a.arrives with
      | true => exact ⟨rfl, rfl, rfl, rfl⟩
      | false => exact ⟨rfl, rfl, rfl, rfl⟩
    obtain ⟨rest_same, sent, commits, dropped⟩ := others
    rw [← is] at outcome
    obtain ⟨first, arrives, -, -, after⟩ | ⟨-, after⟩ | after := outcome <;> rw [after] at inFlight ⊢
    · have answered : Moved s (u.setFlusher f (.answered commit txn batch (some first) rest)) f
          (.answered commit txn batch (some first) rest) := by
        refine ⟨by rw [rest_same]; rfl, by rw [rest_same]; rfl, by rw [rest_same]; rfl, sent, commits, own, arrived,
          fun r there => dropped.symm ▸ there, unsent rfl fun r inside => ?_, fun id read => Option.some.inj read ▸ rest_owned,
          fun id is => ?_⟩
        · exact .inl ⟨txn, (transmitted _).mpr (.inr ⟨arrives, inside, rfl⟩)⟩
        · rw [held]
          exact is
      exact transacted.moved answered inFlight
    · have unmoved : Moved s u f (s.flushers f) := by
        refine ⟨by rw [rest_same]; exact (update_eq_self f s.flushers).symm, by rw [rest_same], by rw [rest_same], sent, commits,
          own, arrived, fun r there => dropped.symm ▸ there, fun b inside => .inl inside, transacted.owned f, fun id is => is⟩
      exact transacted.moved unmoved inFlight
    · have failed : Moved s ((u.giveUp txn base batch).setFlusher f (.answered commit txn batch none rest)) f
          (.answered commit txn batch none rest) := by
        refine ⟨by rw [rest_same]; rfl, by rw [rest_same]; rfl, by rw [rest_same]; rfl, sent, commits, own, arrived,
          fun r there => mem_append_left _ (dropped.symm ▸ there), unsent rfl fun r inside => ?_,
          fun id read => Option.some.inj read ▸ rest_owned, fun id is => ?_⟩
        · by_cases there : (r, txn) ∈ u.history.transmitted
          · exact .inl ⟨txn, there⟩
          · exact .inr (mem_append_right _ (mem_filter.mpr ⟨inside, decide_eq_true there⟩))
        · rw [held]
          exact is
      exact transacted.moved failed inFlight

theorem Transacted.deliver (transacted : Transacted s) (f : Nat) : Transacted (s.deliver f) := by
  have inFlight := transacted.inFlight.shrinks (shrinks_deliver s f)
  obtain same | ⟨commit, txn, batch, firstOffset, rest, delivered⟩ := deliver_cases s f
  · rwa [same]
  · have owned : Owned txn rest := transacted.ownedBy delivered.held rfl
    refine transacted.moved ⟨delivered.flushers, by rw [delivered.others], by rw [delivered.others], by rw [delivered.history],
      by rw [delivered.history], fun p there => .inl (by rwa [delivered.history] at there), by rw [delivered.history]; exact List.Subset.refl _,
      fun r there => by rw [delivered.dropped]; exact mem_append_left _ there, fun b inside => ?_, fun id read => ?_,
      fun id is => ?_⟩ inFlight
    · rw [delivered.held] at inside
      unfold afterAnswer
      by_cases spent : firstOffset = none ∧ f ≠ 0
      · refine .inr fun r within => .inr ?_
        rw [delivered.dropped, if_pos spent]
        exact mem_append_right _ (mem_flatMap.mpr ⟨b, inside, within⟩)
      · rw [if_neg spent, unsent_next]
        exact .inl inside
    · unfold afterAnswer at read ⊢
      split_ifs at read ⊢
      · cases read
      · rw [unsent_next, ← idRead_next _ _ _ read]
        exact owned
    · unfold afterAnswer at is
      split_ifs at is
      · cases is
      · rw [committing_next] at is
        rw [delivered.held]
        exact is

/-! ## Sends and drains -/

theorem buffered_append (s : ProducerState) (key other : TopicPartition) (record : BatchRecord) (now : Nat) :
    (s.append key record now).buffered other =
      if other = key then s.buffered other ++ [⟨record, s.sends, s.currentTransactionId⟩] else s.buffered other := by
  unfold buffered append
  by_cases same : other = key
  · subst same
    simp only [update_self, Option.map_some, Option.getD_some, if_pos]
    cases s.buffers other with
    | none => rfl
    | some b => rfl
  · simp only [update_of_ne same, if_neg same]

section

variable (transacted : Transacted s)
include transacted

/-- No commit is under way. -/
theorem Transacted.quiet (none : ∀ f ∈ s.begun, (s.flushers f).committing = none) (f : Nat) :
    (s.flushers f).committing = .none := by
  by_cases idle : s.flushers f = .idle
  · rw [idle]
    rfl
  · exact none f (transacted.inFlight.begun f idle)

theorem Transacted.append (key : TopicPartition) (record : BatchRecord) (now : Nat)
    (quiet : ∀ f ∈ s.begun, (s.flushers f).committing = none) : Transacted (s.append key record now) where
  inFlight := transacted.inFlight.append key record now
  accounted w waits := by
    have kept : s.Accounted w → (s.append key record now).Accounted w := by
      rintro (buffered | elsewhere)
      · refine .inl ?_
        rw [buffered_append]
        split_ifs
        · exact mem_append_left _ buffered
        · exact buffered
      · exact .inr elsewhere
    obtain sent | unqueued := waits
    · exact kept (transacted.accounted w (.inl sent))
    · obtain old | new := mem_append.mp unqueued
      · exact kept (transacted.accounted w (.inr old))
      · refine .inl ?_
        rw [mem_singleton.mp new, buffered_append, if_pos rfl]
        exact mem_append_right _ (mem_singleton_self _)
  own := transacted.own
  owned := transacted.owned
  drained f transactionId committing := by
    have committing : (s.flushers f).committing = some transactionId := committing
    rw [transacted.quiet quiet f] at committing
    cases committing
  commits := transacted.commits

theorem Transacted.enqueue (send : Nat) (quiet : ∀ f ∈ s.begun, (s.flushers f).committing = none) :
    Transacted (s.enqueue send) := by
  unfold ProducerState.enqueue
  cases found : s.unqueued.find? fun w => w.1.number = send with
  | none => exact transacted
  | some w =>
    refine ⟨transacted.inFlight.shrinks ⟨rfl, rfl, fun _ => .refl _, fun _ => id, rfl⟩, fun v waits => ?_, transacted.own,
      transacted.owned, fun f transactionId committing => ?_, transacted.commits⟩
    · refine transacted.accounted v ?_
      obtain sent | unqueued := waits
      · obtain old | new := mem_append.mp sent
        · exact .inl old
        · rw [mem_singleton.mp new]
          exact .inr (mem_of_find?_eq_some found)
      · exact .inr (mem_filter.mp unqueued).1
    · have committing : (s.flushers f).committing = some transactionId := committing
      rw [transacted.quiet quiet f] at committing
      cases committing

theorem Transacted.drainedBy {now : Nat} {commit : Option String} {order : List TopicPartition}
    (drained : Drained config s t f commit now order) (ready : ∀ w ∈ s.history.sent, w.1.transaction ≠ none →
      w.1.transaction = commit → w.1 ∈ s.buffered w.2 → w.2 ∈ s.ready config now order) : Transacted t := by
  have history : t.history = s.history := by rw [drained.rest]
  have unqueued : t.unqueued = s.unqueued := by rw [drained.rest]
  refine ⟨transacted.inFlight.drained drained, fun w waits => ?_, ?_, fun g txn read => ?_, fun g transactionId committing w sent within => ?_,
    ?_⟩
  · rw [history, unqueued] at waits
    obtain buffered | ⟨g, b, held, inside⟩ | gone := transacted.accounted w waits
    · by_cases taken : w.2 ∈ s.ready config now order
      · refine .inr (.inl ⟨f, ⟨w.2, s.buffered w.2⟩, ?_, buffered⟩)
        rw [drained.held]
        exact mem_readyBatches.mpr ⟨taken, rfl⟩
      · refine .inl ?_
        rw [drained.buffered, if_neg taken]
        exact buffered
    · refine .inr (.inl ⟨g, b, ?_, inside⟩)
      have different : g ≠ f := by
        intro same
        rw [same, drained.idle] at held
        cases held
      rwa [drained.others g different]
    · refine .inr (.inr ?_)
      unfold Arrived
      rwa [history]
  · rw [history]
    exact transacted.own
  · by_cases here : g = f
    · rw [here, drained.held] at read
      cases read
    · rw [drained.others g here] at read ⊢
      exact transacted.owned g txn read
  · rw [history] at sent
    rw [drained.buffered]
    split_ifs with taken
    · exact not_mem_nil
    · by_cases here : g = f
      · rw [here, drained.held] at committing
        have committing : commit = some transactionId := committing
        exact fun buffered => taken (ready w sent (by simp [within]) (within.trans committing.symm) buffered)
      · rw [drained.others g here] at committing
        exact transacted.drained g transactionId committing w sent within
  · rw [history]
    exact transacted.commits

/-! ## Commits -/

/-- All the records of a transaction have been transmitted with its id when the commit is asked for. -/
theorem Transacted.all_transmitted {transactionId : String} (held : s.flushers f = .flushed transactionId)
    (fit : s.NothingOutstanding (.flushed transactionId)) {w : Sent × TopicPartition} (sent : w ∈ s.history.sent)
    (within : w.1.transaction = some transactionId) : (w.1, some transactionId) ∈ s.history.transmitted := by
  obtain ⟨kept, flushed⟩ := fit w sent within
  obtain buffered | ⟨g, b, unsent, inside⟩ | ⟨txn, arrived⟩ | dropped := transacted.accounted w (.inl sent)
  · exact absurd buffered (transacted.drained f transactionId (by rw [held]; rfl) w sent within)
  · have begun : g ∈ s.begun := by
      refine transacted.inFlight.begun g fun idle => ?_
      rw [idle] at unsent
      cases unsent
    exact flushed g begun b unsent inside
  · have own : txn = w.1.transaction := transacted.own (w.1, txn) arrived (by simp [within])
    rwa [← within, ← own]
  · exact absurd dropped kept

theorem Transacted.commitRequest (f : Nat) (succeeds : Bool)
    (fit : succeeds = true → s.NothingOutstanding (s.flushers f)) : Transacted (s.commitRequest f succeeds) := by
  have inFlight := transacted.inFlight.shrinks (keeps_commitRequest s f succeeds).shrinks
  unfold ProducerState.commitRequest at inFlight ⊢
  cases held : s.flushers f with
  | flushed transactionId =>
    rw [held] at inFlight fit
    cases succeeds with
    | false =>
      exact transacted.moved (moved_phase (by rw [held]; rfl) (.inl rfl) fun txn read => by cases read) inFlight
    | true =>
      have noted : Transacted (s.noteCommit transactionId) := by
        refine ⟨transacted.inFlight.shrinks ⟨rfl, rfl, fun _ => .refl _, fun _ => id, rfl⟩, transacted.accounted, transacted.own,
          transacted.owned, transacted.drained, fun c inside w sent within => ?_⟩
        obtain old | new := mem_append.mp inside
        · exact transacted.commits c old w sent within
        · rw [mem_singleton] at new
          subst new
          exact transacted.all_transmitted held (fit rfl) sent within
      have held : (s.noteCommit transactionId).flushers f = .flushed transactionId := held
      exact noted.moved (moved_phase (by rw [held]; rfl) (.inr (by rw [held]; rfl)) fun txn read => by cases read) inFlight
  | _ => exact transacted

/-- Another transaction is current. -/
theorem Transacted.current (current : Option String) : Transacted { s with currentTransactionId := current } where
  inFlight := transacted.inFlight.shrinks (keeps_transaction s current).shrinks
  accounted := transacted.accounted
  own := transacted.own
  owned := transacted.owned
  drained := transacted.drained
  commits := transacted.commits

theorem Transacted.commitEnd (f : Nat) : Transacted (s.commitEnd f) := by
  have inFlight := transacted.inFlight.shrinks (keeps_commitEnd s f).shrinks
  unfold ProducerState.commitEnd at inFlight ⊢
  cases held : s.flushers f with
  | committed transactionId =>
    rw [held] at inFlight
    exact (transacted.current none).moved (moved_phase (by rw [show _ = s.flushers f from rfl, held]; rfl) (.inl rfl) fun txn read => by
      cases read) inFlight
  | _ => exact transacted

theorem Transacted.step (config : ProducerConfig) (a : ProducerStep) (fit : s.TransactionsFit config a) :
    Transacted (s.step config a) := by
  cases a with
  | append key record now => exact transacted.append key record now fit
  | enqueue send => exact transacted.enqueue send fit
  | drain f commit now order =>
    show Transacted (s.drain config f commit now order)
    obtain same | drained := drain_cases config s f commit now order
    · rwa [same]
    · exact transacted.drainedBy drained fit
  | readIds f => exact transacted.readIds f fit
  | number f => exact transacted.number config f
  | attempt f a => exact transacted.attempt f a
  | deliver f => exact transacted.deliver f
  | commitRequest f succeeds =>
    refine transacted.commitRequest f succeeds fun yes => ?_
    subst yes
    exact fit
  | commitEnd f => exact transacted.commitEnd f
  | beginTransaction transactionId => exact transacted.current (some transactionId)
  | abortTransaction => exact transacted.current none


end
/-- **Transactions carry their own records**, in every run whose steps fit. -/
theorem transactions_carry_own (config : ProducerConfig) (as : List ProducerStep)
    (fit : Meets (step config) (TransactionsFit config) initial as) :
    (∀ c ∈ (run (step config) initial as).history.commits, ∀ w ∈ c.sent,
      w.1.transaction = some c.transactionId → (w.1, some c.transactionId) ∈ c.transmitted) ∧
    ∀ p ∈ (run (step config) initial as).history.transmitted, p.1.transaction ≠ none → p.2 = p.1.transaction := by
  have transacted : Transacted (run (step config) initial as) :=
    fit.invariant (fun _ a transacted fit => transacted.step config a fit) transacted_initial
  exact ⟨transacted.commits, transacted.own⟩

/-! ## A commit within the linger time -/

def lingering : ProducerConfig := ⟨2, 1000000, 100, true⟩

def refunds : TopicPartition := ⟨"refunds", 0⟩

def refund : BatchRecord := ⟨none, [7], 0⟩

/-- The background task takes the two records of a transaction, and a third goes with the commit. -/
def fullBatches : List ProducerStep :=
  [.beginTransaction "txn-1", .append refunds refund 0, .enqueue 0, .append refunds refund 0, .enqueue 1, .drain 0 none 0 [refunds],
    .readIds 0, .append refunds refund 1, .enqueue 2, .number 0, .attempt 0 ⟨true, some 7, true, true⟩, .deliver 0,
    .drain 1 (some "txn-1") 200 [refunds], .readIds 1, .number 1, .attempt 1 ⟨true, some 9, true, true⟩, .deliver 1,
    .commitRequest 1 true, .commitEnd 1]

theorem transactions_carry_own_fullBatches :
    ((run (step lingering) initial fullBatches).history.commits.map fun c => (c.sent.length, c.transmitted.length)) = [(3, 3)] ∧
    (∀ c ∈ (run (step lingering) initial fullBatches).history.commits, ∀ w ∈ c.sent,
      w.1.transaction = some c.transactionId → (w.1, some c.transactionId) ∈ c.transmitted) ∧
    ∀ p ∈ (run (step lingering) initial fullBatches).history.transmitted,
      p.1.transaction ≠ none → p.2 = p.1.transaction :=
  ⟨by decide, transactions_carry_own lingering fullBatches (by decide)⟩

/-- A transaction of one record is committed at once, and the record goes out later. -/
def earlyCommit : List ProducerStep :=
  [.beginTransaction "txn-1", .append refunds refund 0, .enqueue 0, .drain 1 (some "txn-1") 0 [refunds], .readIds 1,
    .commitRequest 1 true, .commitEnd 1, .drain 0 none 200 [refunds], .readIds 0, .number 0, .attempt 0 ⟨true, some 7, true, true⟩]

theorem transactions_leave_records : ¬ ∀ (config : ProducerConfig) (as : List ProducerStep),
    (∀ c ∈ (run (step config) initial as).history.commits, ∀ w ∈ c.sent,
      w.1.transaction = some c.transactionId → (w.1, some c.transactionId) ∈ c.transmitted) ∧
    ∀ p ∈ (run (step config) initial as).history.transmitted, p.1.transaction ≠ none → p.2 = p.1.transaction := by
  intro own
  have without : (⟨refund, 0, some "txn-1"⟩, none) ∈ (run (step lingering) initial earlyCommit).history.transmitted := by
    decide
  exact absurd ((own lingering earlyCommit).2 _ without (by decide)) (by decide)

end ProducerState

end StreamHouse.Client
