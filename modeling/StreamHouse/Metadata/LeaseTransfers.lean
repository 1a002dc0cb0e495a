import StreamHouse.Metadata.Leases

/-!
# The lease transfer protocol

What the transfer table promises over whole runs of the cluster of
`Metadata.Leases`: a transfer is completed from `accepted` and in time, its last
state stays, and a `complete_lease_transfer` that returns `Ok` has moved the lease.

`accept_lease_transfer` and `complete_lease_transfer` check the transfer they read
and then write it whatever it has become; `complete_lease_transfer` looks neither at
the timeout nor at the lease it overwrites. `transfer_protocol_iff` says that the
promise is kept by exactly the runs in which those writes find what they expect.
-/

namespace StreamHouse.Metadata
open Lib List Option Cluster LeaseStore

/-- The states that end a transfer. -/
def LeaseTransferState.terminal : LeaseTransferState → Bool
  | .completed | .rejected | .timedOut | .failed => true
  | .pending | .accepted | .completing => false

namespace Cluster

/-- The `complete_lease_transfer` that returns `Ok` with this step: the transfer's id
and its row as the call has read it. -/
def completing (s : Cluster) : LeaseEvent → Option (Nat × LeaseTransfer)
  | .proceed i => match s.calls[i]? with
    | some (.completeMove id t _) => some (id, t)
    | _ => none
  | _ => none

/-- The step completes the transfer `t` as it should: the transfer was accepted and not
past its timeout, and the lease goes from the one agent to the other with a larger epoch. -/
structure Completes (s : Cluster) (e : LeaseEvent) (id : Nat) (t : LeaseTransfer) : Prop where
  accepted : s.store.transfers[id]? = some { t with state := .accepted }
  inTime : s.now ≤ t.timeoutAt
  completed : (s.step e).store.transfers[id]? = some { t with state := .completed }
  moved : ∃ l l', s.store.leases t.key = some l ∧ l.leaderAgentId = t.fromAgentId ∧
    (s.step e).store.leases t.key = some l' ∧ l'.leaderAgentId = t.toAgentId ∧ l.epoch < l'.epoch

/-- What a run promises about transfers. -/
structure TransferProtocol (s : Cluster) (events : List LeaseEvent) : Prop where
  /-- Whatever is completed at some point was completed as it should by an earlier step. -/
  completed : ∀ before after, events = before ++ after → ∀ (id : Nat) (t : LeaseTransfer), (run step s before).store.transfers[id]? = some t →
    t.state = .completed → ∃ earlier e later, before = earlier ++ e :: later ∧ (run step s earlier).Completes e id t
  /-- A row in a terminal state is the same ever after. -/
  settled : ∀ before middle after, events = before ++ (middle ++ after) → ∀ (id : Nat) (t : LeaseTransfer),
    (run step s before).store.transfers[id]? = some t → t.state.terminal = true →
      (run step (run step s before) middle).store.transfers[id]? = some t
  /-- A `complete_lease_transfer` that returns `Ok` has moved the lease. -/
  ok : ∀ before e after, events = before ++ e :: after → ∀ id t, (run step s before).completing e = some (id, t) →
    (run step s before).Completes e id t

/-- The checks the two writes leave out: `accept`'s update finds a transfer that has not
ended; `complete`'s transaction finds the transfer still accepted, its timeout ahead, and
the lease with the source, at no higher epoch than was offered. -/
def CallGuarded (s : Cluster) : Call → Prop
  | .acceptUpdate id => ∀ row ∈ s.store.transfers[id]?, row.state.terminal = false
  | .completeMove id t _ => (∀ row ∈ s.store.transfers[id]?, row.state = .accepted) ∧ s.now ≤ t.timeoutAt ∧
      ∃ l ∈ s.store.leases t.key, l.leaderAgentId = t.fromAgentId ∧ l.epoch ≤ t.fromEpoch
  | _ => True

def Guarded (s : Cluster) : LeaseEvent → Prop
  | .proceed i => ∀ c ∈ s.calls[i]?, s.CallGuarded c
  | _ => True

instance (s : Cluster) : ∀ c, Decidable (s.CallGuarded c)
  | .acceptUpdate _ => inferInstanceAs (Decidable (∀ row ∈ _, _))
  | .completeMove _ _ _ => inferInstanceAs (Decidable ((∀ row ∈ _, _) ∧ _ ∧ ∃ l ∈ _, _))
  | .acquire _ _ _ _ _ | .acquireVerify _ _ | .initiate _ _ _ _ | .initiateCheck _ _ _ _ _ | .initiateInsert _ _ _ _ _ |
    .accept _ _ _ | .complete _ _ => .isTrue trivial

instance (s : Cluster) : ∀ e, Decidable (s.Guarded e)
  | .proceed i => inferInstanceAs (Decidable (∀ c ∈ s.calls[i]?, s.CallGuarded c))
  | .tick _ | .start _ | .release _ _ | .reject _ | .cleanup => .isTrue trivial

/-! ## What a step does to a transfer -/

theorem getElem?_setTransferState (s : LeaseStore) (id j : Nat) (state : LeaseTransferState) :
    (s.setTransferState id state).transfers[j]? =
      (s.transfers[j]?).map fun t => if id = j then { t with state := state } else t := by
  unfold setTransferState
  rw [getElem?_modify]
  by_cases same : id = j
  · simp [same]
  · simp [same]

theorem moveLease_transfers (s : LeaseStore) (id : Nat) (t : LeaseTransfer) (now : Int) :
    (s.moveLease id t now).transfers = (s.setTransferState id .completed).transfers := by
  unfold moveLease
  dsimp only
  split <;> rfl

variable {s : Cluster} {id : Nat} {t : LeaseTransfer}

/-- What a statement of a call does to the transfers. -/
theorem next_transfers {now : Int} {store : LeaseStore} (c : Call) :
    (c.next now store).1.transfers = store.transfers ∨
      (∃ row, (c.next now store).1.transfers = store.transfers ++ [row] ∧ row.state = .pending) ∨
      (∃ id, c = .acceptUpdate id) ∨ ∃ id t started, c = .completeMove id t started := by
  cases c with
  | acquire k organizationId agentId started expiresAt =>
    obtain ⟨same, -⟩ | ⟨l, written, -⟩ := upsertLease_cases store k organizationId agentId started expiresAt
    · left
      simp only [Call.next, same]
    · left
      simp only [Call.next, written]
      rfl
  | acquireVerify k agentId =>
    left
    simp only [Call.next]
    split
    · split <;> rfl
    · rfl
  | initiate k fromAgentId toAgentId timeoutAt =>
    left
    simp only [Call.next]
    split
    · split <;> rfl
    · rfl
  | initiateCheck k fromAgentId toAgentId timeoutAt fromEpoch =>
    left
    simp only [Call.next]
    split <;> rfl
  | initiateInsert k fromAgentId toAgentId timeoutAt fromEpoch => exact .inr (.inl ⟨_, rfl, rfl⟩)
  | accept id agentId started =>
    left
    simp only [Call.next]
    split
    · rfl
    · split
      · rfl
      · split
        · rfl
        · split <;> rfl
  | acceptUpdate id => exact .inr (.inr (.inl ⟨id, rfl⟩))
  | complete id started =>
    left
    simp only [Call.next]
    split
    · rfl
    · split <;> rfl
  | completeMove id t started => exact .inr (.inr (.inr ⟨id, t, started, rfl⟩))

theorem step_proceed {i : Nat} {c : Call} (found : s.calls[i]? = some c) :
    s.step (.proceed i) = s.advance i c := by
  simp only [step, found]

theorem store_advance (i : Nat) (c : Call) : (s.advance i c).store = (c.next s.now s.store).1 := rfl

/-- What a step may do to the transfers. -/
inductive Writes (s : Cluster) (e : LeaseEvent) : List LeaseTransfer → Prop
  | nothing : Writes s e s.store.transfers
  | insert (row : LeaseTransfer) (pending : row.state = .pending) : Writes s e (s.store.transfers ++ [row])
  | accept (i id : Nat) (proceeds : e = .proceed i) (call : s.calls[i]? = some (.acceptUpdate id)) :
      Writes s e (s.store.setTransferState id .accepted).transfers
  | complete (id : Nat) (read : LeaseTransfer) (call : s.completing e = some (id, read)) :
      Writes s e (s.store.setTransferState id .completed).transfers
  | reject (id : Nat) (row : LeaseTransfer) (there : s.store.transfers[id]? = some row) (waiting : row.state.terminal = false) :
      Writes s e (s.store.setTransferState id .rejected).transfers
  | cleanup : Writes s e (s.store.cleanupTimedOutTransfers s.now).transfers

theorem not_terminal {state : LeaseTransferState} (waiting : state = .pending ∨ state = .accepted) : state.terminal = false := by
  obtain rfl | rfl := waiting
  · rfl
  · rfl

theorem step_writes (s : Cluster) (e : LeaseEvent) : Writes s e (s.step e).store.transfers := by
  cases e with
  | tick ms => exact .nothing
  | start r => exact .nothing
  | proceed i =>
    cases found : s.calls[i]? with
    | none =>
      simp only [step, found]
      exact .nothing
    | some c =>
      rw [step_proceed found, store_advance]
      obtain same | ⟨row, appended, pending⟩ | ⟨id, rfl⟩ | ⟨id, read, started, rfl⟩ := @next_transfers s.now s.store c
      · rw [same]
        exact .nothing
      · rw [appended]
        exact .insert row pending
      · exact .accept i id rfl found
      · rw [Call.next, moveLease_transfers]
        exact .complete id read (by simp only [completing, found])
  | release k agentId =>
    simp only [step, releasePartitionLease]
    cases s.store.leases k with
    | none => exact .nothing
    | some l =>
      by_cases own : l.leaderAgentId = agentId
      · simp only [own, if_true]
        exact .nothing
      · simp only [own, if_false]
        exact .nothing
  | reject id =>
    simp only [step, rejectLeaseTransfer]
    cases there : s.store.transfers[id]? with
    | none => exact .nothing
    | some row =>
      by_cases waiting : row.state = .pending ∨ row.state = .accepted
      · simp only [waiting, if_true]
        exact .reject id row there (not_terminal waiting)
      · simp only [waiting, if_false]
        exact .nothing
  | cleanup => exact .cleanup

/-- How a step may change a transfer's state. -/
inductive Change (s : Cluster) (e : LeaseEvent) (id : Nat) : LeaseTransferState → LeaseTransferState → Prop
  | same (state : LeaseTransferState) : Change s e id state state
  | accepted (state : LeaseTransferState) (i : Nat) (proceeds : e = .proceed i) (call : s.calls[i]? = some (.acceptUpdate id)) :
      Change s e id state .accepted
  | completed (state : LeaseTransferState) (read : LeaseTransfer) (call : s.completing e = some (id, read)) :
      Change s e id state .completed
  | ended (state last : LeaseTransferState) (notYet : state.terminal = false) (how : last = .rejected ∨ last = .timedOut) :
      Change s e id state last

variable {e : LeaseEvent}

theorem Change.set {j : Nat} {last : LeaseTransferState} (row : s.store.transfers[id]? = some t)
    (change : j = id → Change s e id t.state last) :
    ∃ state, (s.store.setTransferState j last).transfers[id]? = some { t with state := state } ∧ Change s e id t.state state := by
  rw [getElem?_setTransferState, row, map_some]
  by_cases same : j = id
  · exact ⟨last, by rw [if_pos same], change same⟩
  · exact ⟨t.state, by rw [if_neg same], .same t.state⟩

/-- No step changes anything of a transfer but its state. -/
theorem step_row (e : LeaseEvent) (row : s.store.transfers[id]? = some t) :
    ∃ state, (s.step e).store.transfers[id]? = some { t with state := state } ∧ Change s e id t.state state := by
  have written := step_writes s e
  generalize (s.step e).store.transfers = after at written
  cases written with
  | nothing => exact ⟨t.state, row, .same t.state⟩
  | insert new pending =>
    refine ⟨t.state, ?_, .same t.state⟩
    rw [getElem?_append_left (List.getElem?_eq_some_iff.mp row).1]
    exact row
  | accept i j proceeds call => exact Change.set row fun same => .accepted t.state i proceeds (same ▸ call)
  | complete j read call => exact Change.set row fun same => .completed t.state read (same ▸ call)
  | reject j x there waiting =>
    refine Change.set row fun same => .ended _ _ ?_ (.inl rfl)
    rw [same, row] at there
    rw [some.inj there]
    exact waiting
  | cleanup =>
    rw [cleanupTimedOutTransfers, getElem?_map, row, map_some]
    by_cases late : (t.state = .pending ∨ t.state = .accepted) ∧ t.timeoutAt < s.now
    · exact ⟨.timedOut, by rw [if_pos late], .ended _ _ (not_terminal late.1) (.inr rfl)⟩
    · exact ⟨t.state, by rw [if_neg late], .same t.state⟩

/-- A transfer is inserted as pending. -/
theorem step_new (absent : s.store.transfers[id]? = none)
    (there : (s.step e).store.transfers[id]? = some t) : t.state = .pending := by
  have unset : ∀ j last, (s.store.setTransferState j last).transfers[id]? = none := by
    intro j last
    rw [getElem?_setTransferState, absent]
    rfl
  have written := step_writes s e
  generalize (s.step e).store.transfers = after at written there
  cases written with
  | nothing => exact (nomatch absent.symm.trans there)
  | insert row pending =>
    rw [getElem?_append_right (List.getElem?_eq_none_iff.mp absent)] at there
    rw [mem_singleton.mp (mem_of_getElem? there)]
    exact pending
  | accept i j proceeds call => exact (nomatch (unset j .accepted).symm.trans there)
  | complete j read call => exact (nomatch (unset j .completed).symm.trans there)
  | reject j row found waiting => exact (nomatch (unset j .rejected).symm.trans there)
  | cleanup =>
    rw [cleanupTimedOutTransfers, getElem?_map, absent] at there
    cases there

/-! ## What the calls in flight have read -/

/-- A transfer being completed was accepted when it was read, and only its state may
be another by now. -/
def Fresh (s : Cluster) : Prop :=
  ∀ id t started, Call.completeMove id t started ∈ s.calls →
    t.state = .accepted ∧ ∃ state, s.store.transfers[id]? = some { t with state := state }

theorem next_completeMove {now started : Int} {store : LeaseStore} {c : Call}
    (more : (c.next now store).2 = .inl (.completeMove id t started)) :
    t.state = .accepted ∧ store.transfers[id]? = some t := by
  cases c with
  | complete j begun =>
    simp only [Call.next] at more
    split at more
    · cases more
    · next row found =>
      split at more
      · cases more
      · next accepted =>
        cases more
        exact ⟨not_not.mp accepted, found⟩
  | _ =>
    simp only [Call.next] at more
    (repeat' split at more) <;> cases more

/-- A call that completes a transfer was in flight before, or has just read its row. -/
theorem step_calls {started : Int} (pending : Call.completeMove id t started ∈ (s.step e).calls) :
    Call.completeMove id t started ∈ s.calls ∨ (t.state = .accepted ∧ s.store.transfers[id]? = some t) := by
  cases e with
  | tick ms => exact .inl pending
  | start r =>
    obtain old | new := mem_append.mp pending
    · exact .inl old
    · cases r <;> cases mem_singleton.mp new
  | proceed i =>
    cases found : s.calls[i]? with
    | none =>
      simp only [step, found] at pending
      exact .inl pending
    | some c =>
      rw [step_proceed found] at pending
      simp only [advance] at pending
      cases more : (c.next s.now s.store).2 with
      | inl d =>
        rw [more] at pending
        obtain old | rfl := mem_or_eq_of_mem_set pending
        · exact .inl old
        · exact .inr (next_completeMove more)
      | inr outcome =>
        rw [more] at pending
        exact .inl (mem_of_mem_eraseIdx pending)
  | release k agentId =>
    simp only [step] at pending
    split at pending <;> exact .inl pending
  | reject j =>
    simp only [step] at pending
    split at pending <;> exact .inl pending
  | cleanup => exact .inl pending

theorem Fresh.step (fresh : s.Fresh) (e : LeaseEvent) : (s.step e).Fresh := by
  intro id t started pending
  obtain old | ⟨accepted, row⟩ := step_calls pending
  · obtain ⟨accepted, state, row⟩ := fresh id t started old
    obtain ⟨last, row', -⟩ := step_row e row
    exact ⟨accepted, last, row'⟩
  · obtain ⟨last, row', -⟩ := step_row e row
    exact ⟨accepted, last, row'⟩

theorem Fresh.run (fresh : s.Fresh) (events : List LeaseEvent) : (run Cluster.step s events).Fresh :=
  run_invariant Cluster.Fresh (fun _ e fresh => fresh.step e) fresh events

theorem initial_fresh (now : Int) : (initial now).Fresh := by
  intro id t started pending
  cases pending

/-! ## The promise and the condition -/

theorem completing_eq (call : s.completing e = some (id, t)) :
    ∃ i started, e = .proceed i ∧ s.calls[i]? = some (.completeMove id t started) := by
  unfold completing at call
  split at call
  · next i =>
    split at call
    · next j read started found =>
      cases call
      exact ⟨i, started, rfl, found⟩
    · cases call
  · cases call

theorem moveLease_here {store : LeaseStore} {l : PartitionLease} (row : store.leases t.key = some l) (id : Nat) (now : Int) :
    ∃ l', (store.moveLease id t now).leases t.key = some l' ∧ l'.leaderAgentId = t.toAgentId ∧ l'.epoch = t.fromEpoch + 1 := by
  have untouched : (store.setTransferState id .completed).leases t.key = some l := row
  simp only [moveLease, untouched, setLease, Function.update_self]
  exact ⟨_, rfl, rfl, rfl⟩

theorem guarded_iff {i : Nat} {c : Call} (found : s.calls[i]? = some c) : s.Guarded (.proceed i) ↔ s.CallGuarded c := by
  rw [Guarded, found]
  exact ⟨fun all => all c rfl, fun one c' same => some.inj same ▸ one⟩

/-- A `complete_lease_transfer` that returns `Ok` has done its work exactly if it was guarded. -/
theorem completes_iff (fresh : s.Fresh) {i : Nat} {started : Int} (call : s.calls[i]? = some (.completeMove id t started)) :
    s.Completes (.proceed i) id t ↔ s.Guarded (.proceed i) := by
  obtain ⟨accepted, state, row⟩ := fresh id t started (mem_of_getElem? call)
  have after : (s.step (.proceed i)).store = s.store.moveLease id t started := by
    rw [step_proceed call, store_advance, Call.next]
  rw [guarded_iff call]
  constructor
  · intro completes
    obtain ⟨l, l', there, source, there', -, larger⟩ := completes.moved
    obtain ⟨moved, here, -, epoch⟩ := moveLease_here there id started
    rw [after, here] at there'
    obtain rfl := some.inj there'
    refine ⟨?_, completes.inTime, l, there, source, by omega⟩
    intro x found
    rw [completes.accepted] at found
    rw [← some.inj found]
  · rintro ⟨still, inTime, l, there, source, epoch⟩
    obtain ⟨moved, here, target, raised⟩ := moveLease_here there id started
    have isAccepted : state = .accepted := still _ row
    rw [isAccepted] at row
    refine ⟨row, inTime, ?_, l, moved, there, source, by rw [after]; exact here, target, by omega⟩
    rw [after, moveLease_transfers, getElem?_setTransferState, row, map_some, if_pos rfl]

/-- `accept_lease_transfer`'s update asks for nothing. -/
theorem acceptUpdate_overwrites {i : Nat} (call : s.calls[i]? = some (.acceptUpdate id)) (row : s.store.transfers[id]? = some t) :
    (s.step (.proceed i)).store.transfers[id]? = some { t with state := .accepted } := by
  rw [step_proceed call, store_advance, Call.next, getElem?_setTransferState, row, map_some, if_pos rfl]

theorem settled_step (guarded : s.Guarded e) (row : s.store.transfers[id]? = some t)
    (ended : t.state.terminal = true) : (s.step e).store.transfers[id]? = some t := by
  obtain ⟨state, row', change⟩ := step_row e row
  generalize former : t.state = before at change ended
  cases change with
  | same =>
    rw [row', ← former]
  | accepted i proceeds call =>
    subst proceeds
    rw [← former, (guarded_iff call).mp guarded t row] at ended
    cases ended
  | completed read call =>
    obtain ⟨i, started, rfl, found⟩ := completing_eq call
    rw [← former, ((guarded_iff found).mp guarded).1 t row] at ended
    cases ended
  | ended last notYet how =>
    rw [notYet] at ended
    cases ended

theorem completed_step (fresh : s.Fresh) (guarded : s.Guarded e)
    (there : (s.step e).store.transfers[id]? = some t) (completed : t.state = .completed) :
    s.store.transfers[id]? = some t ∨ s.Completes e id t := by
  cases former : s.store.transfers[id]? with
  | none =>
    rw [step_new former there] at completed
    cases completed
  | some row =>
    obtain ⟨state, row', change⟩ := step_row e former
    obtain rfl := some.inj (row'.symm.trans there)
    cases change with
    | same => exact .inl rfl
    | accepted i proceeds call => cases completed
    | ended last notYet how => obtain rfl | rfl := how <;> cases completed
    | completed read call =>
      right
      obtain ⟨i, started, rfl, found⟩ := completing_eq call
      have completes := (completes_iff fresh found).mpr guarded
      have same := some.inj (completes.completed.symm.trans there)
      rw [← same]
      exact ⟨completes.accepted, completes.inTime, completes.completed, completes.moved⟩

end Cluster

/-- **The transfer protocol** is kept by exactly the runs in which every accept and every
complete writes what it has checked. -/
theorem transfer_protocol_iff (now : Int) (events : List LeaseEvent) :
    (Cluster.initial now).TransferProtocol events ↔ Meets Cluster.step Cluster.Guarded (Cluster.initial now) events := by
  have fresh := (Cluster.initial_fresh now).run
  constructor
  · intro protocol
    refine meets_iff_forall.2 fun before e after cut => ?_
    have here := fresh before
    cases e with
    | proceed i =>
      intro c found
      cases c with
      | completeMove id t started =>
        have call : (run step (initial now) before).completing (.proceed i) = some (id, t) := by
          simp only [completing, mem_def.mp found]
        have completes := protocol.ok before _ after cut id t call
        exact (guarded_iff found).mp ((completes_iff here found).mp completes)
      | acceptUpdate id =>
        intro row there
        by_contra ended
        have settled := protocol.settled before [.proceed i] after cut id row there ((Bool.not_eq_false _).mp ended)
        rw [run_cons, run_nil, acceptUpdate_overwrites found there] at settled
        rw [← some.inj settled] at ended
        exact ended rfl
      | _ => trivial
    | _ => trivial
  · intro meets
    have guarded := meets_iff_forall.1 meets
    constructor
    · intro before after cut id t there completed
      have cause := exists_cause (fun s : Cluster => s.store.transfers[id]? = some t) (fun s e => s.Completes e id t)
        (fun earlier e later isBefore next => completed_step (fresh earlier) (guarded earlier e (later ++ after)
          (by rw [cut, isBefore, append_assoc, cons_append])) next completed) there
      obtain old | completes := cause
      · cases old
      · exact completes
    · intro before middle after cut id t there ended
      subst cut
      have settled : ∀ (s : Cluster) e, s.store.transfers[id]? = some t → s.Guarded e → (s.step e).store.transfers[id]? = some t :=
        fun s e row ok => settled_step ok row ended
      exact Meets.invariant settled meets.between there
    · intro before e after cut id t call
      obtain ⟨i, started, rfl, found⟩ := completing_eq call
      exact (completes_iff (fresh before) found).mpr (guarded before _ after cut)

namespace Example

/-- `b` accepts the lease of `a`, which is released before the transfer is completed. -/
def abandoned : List LeaseEvent :=
  acquires "a" ++ [.start offer, .proceed 0, .proceed 0, .proceed 0, .start (.accept 0 "b"),
    .proceed 0, .proceed 0, .release orders "a", .start (.complete 0), .proceed 0, .proceed 0]

end Example

open Example

theorem transfer_protocol_handover :
    (run step (initial 0) handover).store.transfers = [⟨orders, "a", "b", 1, .completed, 5000⟩] ∧
      (initial 0).TransferProtocol handover :=
  ⟨by decide, (transfer_protocol_iff 0 handover).mpr (by decide)⟩

/-- `complete_lease_transfer` returns `Ok` and the transfer is completed, but there is no lease. -/
theorem transfer_protocol_fails :
    (run step (initial 0) abandoned).store.transfers = [⟨orders, "a", "b", 1, .completed, 5000⟩] ∧
      (run step (initial 0) abandoned).store.leases orders = none ∧
      ¬ ∀ (now : Int) (events : List LeaseEvent), (initial now).TransferProtocol events := by
  refine ⟨by decide, by decide, ?_⟩
  intro always
  have completes := (always 0 abandoned).ok abandoned.dropLast (.proceed 0) [] (by decide) 0
    ⟨orders, "a", "b", 1, .accepted, 5000⟩ (by decide)
  obtain ⟨l, l', there, -⟩ := completes.moved
  have absent : (run step (initial 0) abandoned.dropLast).store.leases orders = none := by decide
  rw [absent] at there
  cases there

end StreamHouse.Metadata
