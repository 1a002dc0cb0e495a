import StreamHouse.Kafka.EndTxn

/-!
# Offsets committed in a transaction

Sequences of InitProducerId, AddOffsetsToTxn, TxnOffsetCommit, EndTxn, OffsetCommit
and OffsetFetch requests. An offset that was sent in a transaction should count once
EndTxn has committed the transaction, and not before. TxnOffsetCommit stores it at
once, and EndTxn does not come near the offsets.
-/

namespace StreamHouse.Kafka
open Lib Metadata Agent List

/-- An offset that was accepted, in a transaction (of this transactional id) or not, and what
has become of it: `committed`, or with its transaction `ongoing` or `aborted`. -/
structure SentOffset where
  orgId : String
  transactionalId : Option String
  key : OffsetKey
  offset : BitVec 64
  state : TransactionState

open SentOffset

/-- The topics of a request, with index, offset and metadata of each partition. -/
abbrev OffsetTopics := List (String × List (BitVec 32 × BitVec 64 × Option String))

inductive OffsetRequest where
  | initProducerId (env : InitEnv) (orgId : String) (transactionalId : Option String) (freshId : String)
      (plain : ∀ t ∈ freshId :: orgId :: transactionalId.toList, QuoteFree t)
  | addOffsetsToTxn (env : TxnEnv) (sender : TxnSender) (groupId : String) (freshId : TransactionId)
  | txnOffsetCommit (writes : List Bool) (sender : TxnSender) (groupId : String) (topics : OffsetTopics)
  | endTxn (env : TxnEnv) (sender : TxnSender) (marker : TransactionMarkerType) (freshId : TransactionId)
  | offsetCommit (writes : List Bool) (orgId groupId : String) (topics : OffsetTopics)
  | offsetFetch (reads : Bool) (orgId : String) (key : OffsetKey)

/-- The tables, and every offset that was answered without error, in order. -/
structure OffsetSession where
  tables : TxnTables
  sent : List SentOffset

/-- The offsets of a request that were answered without error. -/
def accepted (codes : List TxnErrorCode) (cs : List CommittedOffset) : List CommittedOffset :=
  ((cs.zip codes).filter fun a => a.2 = .none).map Prod.fst

/-- The transaction of the transactional id ends, and with it the offsets that were sent in it. -/
def SentOffset.settle (orgId transactionalId : String) (marker : TransactionMarkerType) (o : SentOffset) : SentOffset :=
  if o.orgId = orgId ∧ o.transactionalId = some transactionalId ∧ o.state = .ongoing then { o with state := marker.state } else o

namespace OffsetSession

def empty : OffsetSession := ⟨.empty, []⟩

def step (s : OffsetSession) : OffsetRequest → OffsetSession
  | .initProducerId env orgId transactionalId freshId _ =>
    { s with tables := (handleInitProducerId env s.tables orgId transactionalId freshId).1 }
  | .addOffsetsToTxn env sender groupId freshId =>
    { s with tables := (handleAddOffsetsToTxn env s.tables sender groupId freshId).1 }
  | .txnOffsetCommit writes sender groupId topics =>
    let (tables, codes) := handleTxnOffsetCommit writes s.tables sender groupId topics
    { tables
      sent := s.sent ++ (accepted codes (sentOffsets groupId topics)).map fun c =>
        ⟨sender.orgId, some sender.transactionalId, c.key, c.offset, .ongoing⟩ }
  | .endTxn env sender marker freshId =>
    let (tables, code) := handleEndTxn env s.tables sender marker freshId
    { tables
      sent := match code with
        | .none => s.sent.map (settle sender.orgId sender.transactionalId marker)
        | _ => s.sent }
  | .offsetCommit writes orgId groupId topics =>
    let (tables, codes) := handleOffsetCommit writes s.tables orgId groupId topics
    { tables
      sent := s.sent ++ (accepted codes (sentOffsets groupId topics)).map fun c => ⟨orgId, none, c.key, c.offset, .committed⟩ }
  | .offsetFetch _ _ _ => s

/-- The latest offset that counts. -/
def latest (s : OffsetSession) (orgId : String) (key : OffsetKey) : Option (BitVec 64) :=
  (s.sent.filter fun o => o.orgId = orgId ∧ o.key = key ∧ o.state = .committed).getLast?.map offset

/-- OffsetFetch returns the latest offset that counts, -1 where there is none. -/
def Atomic (s : OffsetSession) : Prop :=
  ∀ orgId key, fetchOffset true s.tables orgId key = ((s.latest orgId key).getD (-1), .none)

/-! ## The condition -/

/-- The offsets of a request whose writes are carried out. -/
def carried : List Bool → List CommittedOffset → List CommittedOffset
  | _, [] => []
  | writes, c :: rest => if writes.headD true then c :: carried writes.tail rest else carried writes.tail rest

/-- OffsetCommit meets no row of another organization, and TxnOffsetCommit sends only what the
group has for the partition already. -/
def Sound (s : OffsetSession) : OffsetRequest → Prop
  | .offsetCommit writes orgId groupId topics =>
    ∀ c ∈ carried writes (sentOffsets groupId topics), ∀ row ∈ s.tables.consumerOffsets c.key, row.organizationId = orgId
  | .txnOffsetCommit writes sender groupId topics =>
    ∀ c ∈ carried writes (sentOffsets groupId topics), ∃ row ∈ s.tables.consumerOffsets c.key,
      row.organizationId = sender.orgId ∧ row.committedOffset = c.offset.toNat
  | _ => True

instance (s : OffsetSession) : DecidablePred s.Sound
  | .offsetCommit writes _ groupId topics => inferInstanceAs (Decidable (∀ c ∈ carried writes (sentOffsets groupId topics), _))
  | .txnOffsetCommit writes _ groupId topics => inferInstanceAs (Decidable (∀ c ∈ carried writes (sentOffsets groupId topics), _))
  | .initProducerId _ _ _ _ _ => inferInstanceAs (Decidable True)
  | .addOffsetsToTxn _ _ _ _ => inferInstanceAs (Decidable True)
  | .endTxn _ _ _ _ => inferInstanceAs (Decidable True)
  | .offsetFetch _ _ _ => inferInstanceAs (Decidable True)

/-! ## One offset at a time -/

/-- An offset is stored and noted. -/
def put (s : OffsetSession) (orgId : String) (transactionalId : Option String) (state : TransactionState) (c : CommittedOffset) :
    OffsetSession :=
  { tables := { s.tables with consumerOffsets := s.tables.consumerOffsets.commitOffsetForOrg orgId c.key c.offset.toNat c.metadata }
    sent := s.sent ++ [⟨orgId, transactionalId, c.key, c.offset, state⟩] }

theorem commitOffsets_eq (orgId : String) (cs : List CommittedOffset) (s : TxnTables) (writes : List Bool) :
    (commitOffsets orgId s writes cs).1 = (carried writes cs).foldl (fun s c =>
        { s with consumerOffsets := s.consumerOffsets.commitOffsetForOrg orgId c.key c.offset.toNat c.metadata }) s ∧
      accepted (commitOffsets orgId s writes cs).2 cs = carried writes cs := by
  induction cs generalizing s writes with
  | nil => exact ⟨rfl, rfl⟩
  | cons c rest ih =>
    rw [commitOffsets, carried, commitOffset]
    by_cases ok : writes.headD true = true
    · rw [if_pos ok, if_pos ok]
      obtain ⟨tables, codes⟩ := ih { s with consumerOffsets := s.consumerOffsets.commitOffsetForOrg orgId c.key c.offset.toNat c.metadata } writes.tail
      refine ⟨tables, ?_⟩
      simp only [accepted, zip_cons_cons, filter_cons, decide_true, if_true, map_cons]
      rw [← codes]
      rfl
    · rw [if_neg ok, if_neg ok]
      obtain ⟨tables, codes⟩ := ih s writes.tail
      refine ⟨tables, ?_⟩
      have refused : ¬ TxnErrorCode.unknownServerError = TxnErrorCode.none := by decide
      simp only [accepted, zip_cons_cons, filter_cons, refused, decide_false, Bool.false_eq_true, if_false]
      exact codes

theorem foldl_put (s : OffsetSession) (orgId : String) (transactionalId : Option String) (state : TransactionState)
    (cs : List CommittedOffset) :
    cs.foldl (fun s c => s.put orgId transactionalId state c) s =
      ⟨cs.foldl (fun s c => { s with consumerOffsets := s.consumerOffsets.commitOffsetForOrg orgId c.key c.offset.toNat c.metadata }) s.tables,
        s.sent ++ cs.map fun c => ⟨orgId, transactionalId, c.key, c.offset, state⟩⟩ := by
  induction cs generalizing s with
  | nil => rw [map_nil, append_nil]; rfl
  | cons c rest ih =>
    rw [foldl_cons, ih, foldl_cons, map_cons]
    simp only [put, append_assoc, singleton_append]

theorem step_offsetCommit (s : OffsetSession) (writes : List Bool) (orgId groupId : String) (topics : OffsetTopics) :
    s.step (.offsetCommit writes orgId groupId topics) =
      (carried writes (sentOffsets groupId topics)).foldl (fun s c => s.put orgId none .committed c) s := by
  obtain ⟨tables, codes⟩ := commitOffsets_eq orgId (sentOffsets groupId topics) s.tables writes
  rw [foldl_put, ← tables, ← codes]
  rfl

theorem step_txnOffsetCommit (s : OffsetSession) (writes : List Bool) (sender : TxnSender) (groupId : String) (topics : OffsetTopics) :
    s.step (.txnOffsetCommit writes sender groupId topics) =
      (carried writes (sentOffsets groupId topics)).foldl
        (fun s c => s.put sender.orgId (some sender.transactionalId) .ongoing c) s := by
  obtain ⟨tables, codes⟩ := commitOffsets_eq sender.orgId (sentOffsets groupId topics) s.tables writes
  rw [foldl_put, ← tables, ← codes]
  rfl

/-! ## The invariant -/

/-- The value is that of the last committed offset, and of all that were sent after it. -/
def Agrees (value : BitVec 64) (sent : List SentOffset) : Prop :=
  ∃ before o after, sent = before ++ o :: after ∧ o.state = .committed ∧ o.offset = value ∧ ∀ x ∈ after, x.offset = value

theorem Agrees.last {value : BitVec 64} {sent : List SentOffset} (agrees : Agrees value sent) :
    (sent.filter fun o => o.state = .committed).getLast?.map offset = some value := by
  obtain ⟨before, o, after, rfl, committed, offset, later⟩ := agrees
  have kept : (o :: after).filter (fun o => decide (o.state = .committed)) =
      o :: after.filter (fun o => decide (o.state = .committed)) := by
    rw [filter_cons, if_pos (decide_eq_true committed)]
  rw [filter_append, kept, getLast?_append, getLast?_cons, Option.some_or, Option.map_some]
  congr 1
  cases last : (after.filter fun o => decide (o.state = .committed)).getLast? with
  | none => exact offset
  | some x => exact later x (mem_of_mem_filter (mem_of_getLast? last))

theorem Agrees.map {value : BitVec 64} {sent : List SentOffset} {f : SentOffset → SentOffset}
    (same : ∀ o, (f o).offset = o.offset) (stays : ∀ o, o.state = .committed → (f o).state = .committed)
    (agrees : Agrees value sent) : Agrees value (sent.map f) := by
  obtain ⟨before, o, after, rfl, committed, offset, later⟩ := agrees
  refine ⟨before.map f, f o, after.map f, by rw [map_append, map_cons], stays o committed, (same o).trans offset, ?_⟩
  intro x member
  obtain ⟨y, old, rfl⟩ := mem_map.mp member
  exact (same y).trans (later y old)

theorem Agrees.commit (sent : List SentOffset) {o : SentOffset} (committed : o.state = .committed) :
    Agrees o.offset (sent ++ [o]) :=
  ⟨sent, o, [], rfl, committed, rfl, fun _ no => nomatch no⟩

theorem Agrees.repeat {value : BitVec 64} {sent : List SentOffset} (agrees : Agrees value sent) {o : SentOffset}
    (same : o.offset = value) : Agrees value (sent ++ [o]) := by
  obtain ⟨before, c, after, rfl, committed, offset, later⟩ := agrees
  refine ⟨before, c, after ++ [o], by rw [append_assoc, cons_append], committed, offset, ?_⟩
  intro x member
  obtain old | new := mem_append.mp member
  · exact later x old
  · rw [mem_singleton.mp new]
    exact same

/-- What was sent for one key of the offsets' table. -/
def sentTo (s : OffsetSession) (key : OffsetKey) : List SentOffset := s.sent.filter fun o => o.key = key

/-- The row shows what counts: nothing was sent where there is no row, and else its
organization sent it all. -/
def Shown (row : Option ConsumerOffset) (sent : List SentOffset) : Prop :=
  match row with
  | none => sent = []
  | some row => (∀ o ∈ sent, o.orgId = row.organizationId) ∧ ∃ value : BitVec 64, row.committedOffset = value.toNat ∧ Agrees value sent

def Inv (s : OffsetSession) : Prop := ∀ key, Shown (s.tables.consumerOffsets key) (s.sentTo key)

theorem latest_eq (s : OffsetSession) (orgId : String) (key : OffsetKey) :
    s.latest orgId key =
      (((s.sentTo key).filter fun o => o.orgId = orgId).filter fun o => o.state = .committed).getLast?.map offset := by
  rw [latest, sentTo, filter_filter, filter_filter]
  congr 2
  apply filter_congr
  intro o _
  simp only [← Bool.decide_and]
  apply decide_eq_decide.mpr
  constructor
  · rintro ⟨org, here, committed⟩
    exact ⟨⟨committed, org⟩, here⟩
  · rintro ⟨⟨committed, org⟩, here⟩
    exact ⟨org, here, committed⟩

theorem Inv.atomic {s : OffsetSession} (inv : s.Inv) : s.Atomic := by
  intro orgId key
  have shown := inv key
  rw [latest_eq, fetchOffset, if_pos rfl, ConsumerOffsets.getCommittedOffsetForOrg]
  cases row : s.tables.consumerOffsets key with
  | none =>
    rw [row] at shown
    rw [show s.sentTo key = [] from shown]
    rfl
  | some r =>
    rw [row] at shown
    obtain ⟨owner, value, stored, agrees⟩ := shown
    dsimp only
    by_cases own : r.organizationId = orgId
    · have all : (s.sentTo key).filter (fun o => decide (o.orgId = orgId)) = s.sentTo key := by
        apply filter_eq_self.mpr
        intro o member
        exact decide_eq_true ((owner o member).trans own)
      rw [if_pos own, all, agrees.last, stored]
      simp
    · have nothing : (s.sentTo key).filter (fun o => decide (o.orgId = orgId)) = [] := by
        apply filter_eq_nil_iff.mpr
        intro o member
        have other : o.orgId ≠ orgId := fun same => own ((owner o member).symm.trans same)
        simpa using other
      rw [if_neg own, nothing]
      rfl

/-! ## What the requests keep -/

section Put

variable {s : OffsetSession} {orgId : String} {transactionalId : Option String} {state : TransactionState} {c : CommittedOffset}

theorem put_row_self : (s.put orgId transactionalId state c).tables.consumerOffsets c.key =
    some (match s.tables.consumerOffsets c.key with
      | some row => { row with committedOffset := c.offset.toNat, metadata := c.metadata }
      | none => ⟨orgId, c.offset.toNat, c.metadata⟩) :=
  Function.update_self _ _ _

theorem put_row_of_ne {key : OffsetKey} (other : key ≠ c.key) :
    (s.put orgId transactionalId state c).tables.consumerOffsets key = s.tables.consumerOffsets key :=
  Function.update_of_ne other _ _

theorem sentTo_put (key : OffsetKey) : (s.put orgId transactionalId state c).sentTo key =
    s.sentTo key ++ if c.key = key then [⟨orgId, transactionalId, c.key, c.offset, state⟩] else [] := by
  rw [sentTo, put, filter_append, filter_singleton]
  by_cases here : c.key = key
  · simp only [here, decide_true, if_true, sentTo]
    rfl
  · simp only [here, decide_false, if_false, sentTo]
    rfl

/-- Elsewhere than at its own key an offset changes nothing. -/
theorem shown_put_of_ne (inv : s.Inv) {key : OffsetKey} (other : key ≠ c.key) :
    Shown ((s.put orgId transactionalId state c).tables.consumerOffsets key) ((s.put orgId transactionalId state c).sentTo key) := by
  rw [put_row_of_ne other, sentTo_put, if_neg (Ne.symm other), append_nil]
  exact inv key

/-- An OffsetCommit that meets no row of another organization. -/
theorem Inv.put (inv : s.Inv) (own : ∀ row ∈ s.tables.consumerOffsets c.key, row.organizationId = orgId) :
    (s.put orgId transactionalId .committed c).Inv := by
  intro key
  by_cases here : key = c.key
  · subst here
    have shown := inv c.key
    rw [put_row_self, sentTo_put, if_pos rfl]
    cases row : s.tables.consumerOffsets c.key with
    | none =>
      rw [row] at shown
      refine ⟨?_, c.offset, rfl, Agrees.commit _ rfl⟩
      intro o member
      rw [show s.sentTo c.key = [] from shown, nil_append] at member
      rw [mem_singleton.mp member]
    | some r =>
      rw [row] at shown
      obtain ⟨owner, -⟩ := shown
      refine ⟨?_, c.offset, rfl, Agrees.commit _ rfl⟩
      intro o member
      obtain old | new := mem_append.mp member
      · exact owner o old
      · rw [mem_singleton.mp new]
        exact (own r row).symm
  · exact shown_put_of_ne inv here

/-- An offset that the organization's row has already. -/
theorem Inv.again (inv : s.Inv)
    (stored : ∃ row ∈ s.tables.consumerOffsets c.key, row.organizationId = orgId ∧ row.committedOffset = c.offset.toNat) :
    (s.put orgId transactionalId state c).Inv := by
  obtain ⟨r, row, own, offset⟩ := stored
  intro key
  by_cases here : key = c.key
  · subst here
    have shown := inv c.key
    rw [put_row_self, sentTo_put, if_pos rfl]
    rw [row] at shown ⊢
    obtain ⟨owner, value, stored, agrees⟩ := shown
    have same : c.offset = value := BitVec.eq_of_toNat_eq (offset.symm.trans stored)
    refine ⟨?_, value, by rw [← same], agrees.repeat same⟩
    intro o member
    obtain old | new := mem_append.mp member
    · exact owner o old
    · rw [mem_singleton.mp new]
      exact own.symm
  · exact shown_put_of_ne inv here

end Put

theorem Inv.puts {orgId : String} {cs : List CommittedOffset} {s : OffsetSession} (inv : s.Inv)
    (own : ∀ c ∈ cs, ∀ row ∈ s.tables.consumerOffsets c.key, row.organizationId = orgId) :
    (cs.foldl (fun s c => s.put orgId none .committed c) s).Inv := by
  induction cs generalizing s with
  | nil => exact inv
  | cons c rest ih =>
    refine ih (inv.put (own c mem_cons_self)) ?_
    intro c' member row there
    by_cases here : c'.key = c.key
    · rw [here, put_row_self] at there
      rw [← Option.some.inj there]
      cases before : s.tables.consumerOffsets c.key with
      | none => rfl
      | some r => exact own c mem_cons_self r before
    · rw [put_row_of_ne here] at there
      exact own c' (mem_cons_of_mem c member) row there

theorem Inv.agains {orgId : String} {transactionalId : Option String} {cs : List CommittedOffset} {s : OffsetSession} (inv : s.Inv)
    (stored : ∀ c ∈ cs, ∃ row ∈ s.tables.consumerOffsets c.key,
      row.organizationId = orgId ∧ row.committedOffset = c.offset.toNat) :
    (cs.foldl (fun s c => s.put orgId transactionalId .ongoing c) s).Inv := by
  induction cs generalizing s with
  | nil => exact inv
  | cons c rest ih =>
    refine ih (inv.again (stored c mem_cons_self)) ?_
    intro c' member
    obtain ⟨row, there, own, offset⟩ := stored c' (mem_cons_of_mem c member)
    by_cases here : c'.key = c.key
    · obtain ⟨row', there', -, offset'⟩ := stored c mem_cons_self
      rw [here] at there ⊢
      obtain rfl := Option.some.inj (there.symm.trans there')
      refine ⟨{ row with committedOffset := c.offset.toNat, metadata := c.metadata }, ?_, own, offset'.symm.trans offset⟩
      rw [put_row_self, there]
      rfl
    · refine ⟨row, ?_, own, offset⟩
      rw [put_row_of_ne here]
      exact there

/-- Where the offsets' table is the same and what was sent is settled or the same. -/
theorem Inv.settle {s s' : OffsetSession} (inv : s.Inv) (same : s'.tables.consumerOffsets = s.tables.consumerOffsets)
    {f : SentOffset → SentOffset} (sent : s'.sent = s.sent.map f) (offset : ∀ o, (f o).offset = o.offset)
    (key : ∀ o, (f o).key = o.key) (orgId : ∀ o, (f o).orgId = o.orgId) (stays : ∀ o, o.state = .committed → (f o).state = .committed) :
    s'.Inv := by
  intro k
  have sentTo : s'.sentTo k = (s.sentTo k).map f := by
    rw [OffsetSession.sentTo, OffsetSession.sentTo, sent, filter_map]
    congr 1
    apply filter_congr
    intro o _
    rw [Function.comp_apply, key]
  have shown := inv k
  rw [same, sentTo]
  cases row : s.tables.consumerOffsets k with
  | none =>
    rw [row] at shown
    rw [show s.sentTo k = [] from shown]
    rfl
  | some r =>
    rw [row] at shown
    obtain ⟨owner, value, stored, agrees⟩ := shown
    refine ⟨?_, value, stored, agrees.map offset stays⟩
    intro o member
    obtain ⟨x, old, rfl⟩ := mem_map.mp member
    exact (orgId x).trans (owner x old)

theorem Inv.same {s s' : OffsetSession} (inv : s.Inv) (same : s'.tables.consumerOffsets = s.tables.consumerOffsets)
    (sent : s'.sent = s.sent) : s'.Inv :=
  inv.settle same (sent.trans (map_id _).symm) (fun _ => rfl) (fun _ => rfl) (fun _ => rfl) (fun _ committed => committed)

theorem settle_offset (orgId transactionalId : String) (marker : TransactionMarkerType) (o : SentOffset) :
    (o.settle orgId transactionalId marker).offset = o.offset ∧ (o.settle orgId transactionalId marker).key = o.key ∧
      (o.settle orgId transactionalId marker).orgId = o.orgId := by
  unfold settle
  split <;> exact ⟨rfl, rfl, rfl⟩

theorem settle_committed {orgId transactionalId : String} {marker : TransactionMarkerType} {o : SentOffset}
    (committed : o.state = .committed) : (o.settle orgId transactionalId marker).state = .committed := by
  unfold settle
  split
  · next ongoing =>
    rw [committed] at ongoing
    cases ongoing.2.2
  · exact committed

/-- The handlers that work on transactions leave the offsets alone. -/
theorem addOffsets_offsets (env : TxnEnv) (s : TxnTables) (sender : TxnSender) (groupId : String) (freshId : TransactionId) :
    (handleAddOffsetsToTxn env s sender groupId freshId).1.consumerOffsets = s.consumerOffsets := by
  unfold handleAddOffsetsToTxn
  obtain ⟨-, code, -, failed⟩ | ⟨row, -, -, found⟩ := findTransaction_cases env s sender freshId
  · rw [failed]
  · rw [found]
    exact (addPartitions_extends _ _ _ _ _).offsets

theorem endTxn_offsets (env : TxnEnv) (s : TxnTables) (sender : TxnSender) (marker : TransactionMarkerType) (freshId : TransactionId) :
    (handleEndTxn env s sender marker freshId).1.consumerOffsets = s.consumerOffsets := by
  obtain ⟨-, code, -, failed⟩ | ⟨row, -, -, found⟩ := findTransaction_cases env s sender freshId
  · rw [handleEndTxn_error marker failed]
  · rw [handleEndTxn_ok row marker found]
    split <;> rfl

theorem initProducerId_offsets (env : InitEnv) (s : TxnTables) (orgId : String) (transactionalId : Option String) (freshId : String) :
    (handleInitProducerId env s orgId transactionalId freshId).1.consumerOffsets = s.consumerOffsets := by
  unfold handleInitProducerId
  split <;> rfl

theorem Inv.step {s : OffsetSession} (inv : s.Inv) {r : OffsetRequest} (sound : s.Sound r) : (s.step r).Inv := by
  cases r with
  | initProducerId env orgId transactionalId freshId =>
    exact inv.same (initProducerId_offsets env s.tables orgId transactionalId freshId) rfl
  | addOffsetsToTxn env sender groupId freshId => exact inv.same (addOffsets_offsets env s.tables sender groupId freshId) rfl
  | txnOffsetCommit writes sender groupId topics =>
    rw [step_txnOffsetCommit]
    exact inv.agains sound
  | endTxn env sender marker freshId =>
    have table := endTxn_offsets env s.tables sender marker freshId
    cases code : (handleEndTxn env s.tables sender marker freshId).2 with
    | none =>
      refine inv.settle table (f := SentOffset.settle sender.orgId sender.transactionalId marker) ?_ ?_ ?_ ?_ ?_
      · simp only [OffsetSession.step, code]
      · exact fun o => (settle_offset _ _ _ o).1
      · exact fun o => (settle_offset _ _ _ o).2.1
      · exact fun o => (settle_offset _ _ _ o).2.2
      · exact fun o committed => settle_committed committed
    | _ =>
      refine inv.same table ?_
      simp only [OffsetSession.step, code]
  | offsetCommit writes orgId groupId topics =>
    rw [step_offsetCommit]
    exact inv.puts sound
  | offsetFetch reads orgId key => exact inv

theorem empty_inv : empty.Inv := fun _ => rfl

end OffsetSession

open OffsetSession

/-- **Offsets are atomic with their transaction** in every run in which TxnOffsetCommit only
repeats what the group has, and no two organizations meet in one row. -/
theorem txn_offsets_run {requests : List OffsetRequest}
    (sound : Meets step Sound .empty requests) :
    ∀ before after, requests = before ++ after → (run step .empty before).Atomic := by
  rintro before after rfl
  have first := (meets_append.mp sound).1
  exact (first.invariant (fun _ _ inv ok => Inv.step inv ok) empty_inv).atomic

namespace Example

def commits (offset : BitVec 64) : OffsetRequest := .offsetCommit [] "o" "g" [("t", [(0, offset, none)])]

def sends (offset : BitVec 64) : OffsetRequest := .txnOffsetCommit [] txnSender "g" [("t", [(0, offset, none)])]

/-- A group commits an offset, and a transaction sends one that is aborted. -/
def offsetsAborted (committed sent : BitVec 64) : List OffsetRequest :=
  [.initProducerId ⟨true, true⟩ "o" (some "txn") "p" plain_ids, commits committed, .addOffsetsToTxn working txnSender "g" "x", sends sent,
    .endTxn working txnSender .abort "y"]

end Example

theorem txn_offsets_repeated :
    fetchOffset true (run step .empty (Example.offsetsAborted 5 5)).tables "o" ⟨"g", "t", 0⟩ = (5, .none) ∧
      (run step .empty (Example.offsetsAborted 5 5)).Atomic :=
  ⟨by decide, @txn_offsets_run (Example.offsetsAborted 5 5) (by decide) _ [] (by simp)⟩

/-- An offset that was sent in an aborted transaction is returned. -/
theorem txn_offsets_fails :
    fetchOffset true (run step .empty (Example.offsetsAborted 5 9)).tables "o" ⟨"g", "t", 0⟩ = (9, .none) ∧
      ¬ ∀ requests : List OffsetRequest, (run step .empty requests).Atomic := by
  refine ⟨by decide, ?_⟩
  intro always
  have atomic := always (Example.offsetsAborted 5 9) "o" ⟨"g", "t", 0⟩
  revert atomic
  decide

end StreamHouse.Kafka
