import Mathlib.Data.List.Flatten
import Mathlib.Data.List.Perm.Subperm
import StreamHouse.Lib.Ranges
import StreamHouse.Lib.Run
import StreamHouse.Api.Pitr

/-!
# Recovery to a point in time

The histories of a `PitrManager` beside the log of all that was ever written, what of that log
the manager still has, and which targets it recovers to exactly.
-/

namespace StreamHouse.Api

open Lib List Option PitrManager OrderedMap

variable (codec : Codec)

/-! ## Histories -/

/-- The state that a log leads to. -/
def stateReached (log : List WalEntry) : SystemSnapshot := log.foldl applyWalEntry .default

/-- The calls, with what the clock reads in them. -/
inductive PitrCall where
  | logChange (operation : WalOperation) (now closed : Int)
  | createBaseBackup (id : String) (created now closed : Int)
  | cleanupExpiredWal (now : Int)

/-- A manager, and every entry that was ever written. -/
structure PitrHistory where
  manager : PitrManager
  log : List WalEntry

namespace PitrHistory

/-- The entry that a call writes next. -/
def nextEntry (h : PitrHistory) (operation : WalOperation) (now : Int) : WalEntry :=
  WalEntry.new codec (h.manager.currentLsn + 1) operation h.manager.lastHash now

/-- One call. A backup is taken of the state that the changes so far have reached. -/
def step (h : PitrHistory) : PitrCall → PitrHistory
  | .logChange operation now closed =>
    ⟨(h.manager.logChange codec operation now closed).2, h.log ++ [h.nextEntry codec operation now]⟩
  | .createBaseBackup id created now closed =>
    ⟨(h.manager.createBaseBackup codec (stateReached h.log) id created now closed).2, h.log ++ [h.nextEntry codec (.checkpoint id) now]⟩
  | .cleanupExpiredWal now => ⟨(h.manager.cleanupExpiredWal now).2, h.log⟩

/-- The entries with an LSN up to `lsn`. -/
def upTo (h : PitrHistory) (lsn : Nat) : List WalEntry := h.log.filter fun entry => entry.lsn ≤ lsn

/-- The LSN that a target means: for a timestamp, that of the last entry written no later. -/
def targetLsn (h : PitrHistory) : RecoveryTarget → Option Nat
  | .timestamp timestamp => (h.log.reverse.find? fun entry => entry.timestamp ≤ timestamp).map WalEntry.lsn
  | .lsn lsn => some lsn
  | .latest => some h.manager.currentLsn
  | .backup id => (h.manager.backups.find? fun backup => backup.2.id = id).map Prod.fst

/-- The newest backup is the one to recover from: the target comes after it, or is this backup. -/
def FromNewest (h : PitrHistory) (target : RecoveryTarget) : Prop :=
  ∀ newest, h.manager.backups.getLast? = some newest → ∀ lsn, h.targetLsn target = some lsn → newest.1 ≤ lsn

end PitrHistory

open PitrHistory

/-- The entries that the manager still has. -/
def PitrManager.stored (m : PitrManager) : List WalEntry :=
  m.archivedSegments.flatMap (fun segment => segment.2.entries) ++ m.activeSegment.entries

/-! ## Segments -/

namespace PitrManager

/-- The segments follow each other, and no entry is beyond the end of its segment. -/
structure SegmentsInv (m : PitrManager) : Prop where
  ends : ∀ segment ∈ m.archivedSegments, ∀ entry ∈ segment.2.entries, entry.lsn ≤ segment.2.endLsn
  activeEnds : ∀ entry ∈ m.activeSegment.entries, entry.lsn ≤ m.activeSegment.endLsn
  before : ∀ segment ∈ m.archivedSegments, segment.1 < m.activeSegment.startLsn
  start : m.activeSegment.startLsn ≤ m.currentLsn + 1
  current : m.activeSegment.endLsn = m.currentLsn

variable {m : PitrManager}

theorem rotateSegment_spec (inv : m.SegmentsInv) (started : m.activeSegment.startLsn ≤ m.activeSegment.endLsn)
    (now : Int) :
    (m.rotateSegment now).SegmentsInv ∧ (m.rotateSegment now).stored = m.stored := by
  have last : insert m.activeSegment.startLsn { m.activeSegment with closedAt := some now } m.archivedSegments =
      m.archivedSegments ++ [(m.activeSegment.startLsn, { m.activeSegment with closedAt := some now })] :=
    insert_eq_append inv.before _
  have archived : (m.rotateSegment now).archivedSegments = m.archivedSegments ∧ m.activeSegment.entries = [] ∨
      (m.rotateSegment now).archivedSegments =
        m.archivedSegments ++ [(m.activeSegment.startLsn, { m.activeSegment with closedAt := some now })] := by
    simp only [rotateSegment, last]
    by_cases empty : m.activeSegment.entries = []
    · exact .inl ⟨by rw [empty]; rfl, empty⟩
    · exact .inr (if_neg (by simpa using empty))
  have segments : ∀ segment ∈ (m.rotateSegment now).archivedSegments, segment ∈ m.archivedSegments ∨
      segment = (m.activeSegment.startLsn, { m.activeSegment with closedAt := some now }) := by
    obtain ⟨same, -⟩ | more := archived
    · rw [same]
      exact fun segment inside => .inl inside
    · rw [more]
      intro segment inside
      exact (mem_append.mp inside).imp_right mem_singleton.mp
  constructor
  · refine ⟨fun segment inside => ?_, (fun entry no => nomatch no), fun segment inside => ?_, ?_, inv.current⟩
    · obtain old | rfl := segments segment inside
      · exact inv.ends segment old
      · exact inv.activeEnds
    · show segment.1 < m.activeSegment.endLsn + 1
      obtain old | rfl := segments segment inside
      · have := inv.before segment old
        omega
      · show m.activeSegment.startLsn < _
        omega
    · show m.activeSegment.endLsn + 1 ≤ m.currentLsn + 1
      have := inv.current
      omega
  · show (m.rotateSegment now).archivedSegments.flatMap (fun segment => segment.2.entries) ++ [] = m.stored
    rw [append_nil, stored]
    obtain ⟨same, empty⟩ | more := archived
    · rw [same, empty, append_nil]
    · rw [more, flatMap_append, flatMap_singleton]

/-- What a logged change does to the manager. -/
structure Logged (m m' : PitrManager) (entry : WalEntry) : Prop where
  segments : m'.SegmentsInv
  stored : m'.stored = m.stored ++ [entry]
  currentLsn : m'.currentLsn = m.currentLsn + 1
  config : m'.config = m.config
  backups : m'.backups = m.backups
  memoryState : m'.memoryState = m.memoryState

/-- A fresh entry verifies, so a change is always logged. -/
theorem logChange_spec (inv : m.SegmentsInv) (operation : WalOperation) (now closed : Int) :
    ∃ m', m.logChange codec operation now closed = (.ok (m.currentLsn + 1), m') ∧
      Logged m m' (WalEntry.new codec (m.currentLsn + 1) operation m.lastHash now) := by
  set entry := WalEntry.new codec (m.currentLsn + 1) operation m.lastHash now with isEntry
  set pushed : PitrManager := { m with
    currentLsn := m.currentLsn + 1, lastHash := entry.hash
    activeSegment := { m.activeSegment with entries := m.activeSegment.entries ++ [entry], endLsn := m.currentLsn + 1 } } with isPushed
  have verified : (m.config.verifyWal && !entry.verify codec) = false := by
    have holds : entry.verify codec = true := decide_eq_true rfl
    rw [holds, Bool.not_true, Bool.and_false]
  have segments : pushed.SegmentsInv := by
    refine ⟨inv.ends, fun e inside => ?_, inv.before, ?_, rfl⟩
    · show e.lsn ≤ m.currentLsn + 1
      obtain old | new := mem_append.mp inside
      · have := inv.activeEnds e old
        have := inv.current
        omega
      · rw [mem_singleton.mp new]
        exact le_refl _
    · show m.activeSegment.startLsn ≤ m.currentLsn + 1 + 1
      have := inv.start
      omega
  have stored : pushed.stored = m.stored ++ [entry] := by
    rw [stored, stored, append_assoc]
  rw [logChange]
  simp only [← isEntry, verified, ← isPushed]
  refine ⟨_, rfl, ?_⟩
  split
  · obtain ⟨rotated, same⟩ := rotateSegment_spec segments inv.start closed
    exact ⟨rotated, same.trans stored, rfl, rfl, rfl, rfl⟩
  · exact ⟨segments, stored, rfl, rfl, rfl, rfl⟩

/-! ## Pruning -/

theorem cleanupOldBackups_suffix (retained : Nat) (backups : List (Nat × BaseBackup)) :
    cleanupOldBackups retained backups <:+ backups := by
  induction backups with
  | nil => exact suffix_refl _
  | cons oldest rest ih =>
    rw [cleanupOldBackups]
    split
    · exact ih.trans (suffix_cons _ _)
    · exact suffix_refl _

theorem cleanupOldBackups_getLast? {retained : Nat} (some : 0 < retained) (backups : List (Nat × BaseBackup)) :
    (cleanupOldBackups retained backups).getLast? = backups.getLast? := by
  induction backups with
  | nil => rfl
  | cons oldest rest ih =>
    rw [cleanupOldBackups]
    split
    · next many =>
      cases rest with
      | nil =>
        simp only [length_nil] at many
        omega
      | cons next others => rw [ih, getLast?_cons_cons]
    · rfl

/-- What is pruned from the log comes before the oldest backup. -/
theorem cleanupExpiredWal_spec (inv : m.SegmentsInv) (now : Int) :
    ∃ archived, (m.cleanupExpiredWal now).2 = { m with archivedSegments := archived } ∧ archived.Sublist m.archivedSegments ∧
      ∀ segment ∈ m.archivedSegments, segment ∉ archived → ∀ entry ∈ segment.2.entries,
        ∃ oldest, m.backups.head? = some oldest ∧ entry.lsn < oldest.1 := by
  rw [cleanupExpiredWal]
  cases fromStd m.config.walRetention with
  | none => exact ⟨m.archivedSegments, rfl, Sublist.refl _, fun segment inside gone => absurd inside gone⟩
  | some retention =>
    refine ⟨_, rfl, filter_sublist, fun segment inside gone entry within => ?_⟩
    have below := inv.ends segment inside entry within
    rw [mem_filter, not_and] at gone
    have removed := gone inside
    cases closed : segment.2.closedAt with
    | none =>
      simp only [closed] at removed
      exact absurd trivial removed
    | some closedAt =>
      simp only [closed, Bool.or_eq_true, decide_eq_true_eq, not_or, not_le] at removed
      cases first : m.backups.head? with
      | none =>
        rw [first] at removed
        exact absurd removed.1 (Nat.not_lt_zero _)
      | some oldest =>
        rw [first] at removed
        exact ⟨oldest, rfl, below.trans_lt removed.1⟩

end PitrManager

/-! ## What a history keeps -/

namespace PitrHistory

/-- The log has ascending LSNs; the manager has all of it from its oldest backup on, and the
snapshot of its newest backup. -/
structure Inv (h : PitrHistory) : Prop where
  segments : h.manager.SegmentsInv
  retained : 0 < h.manager.config.backupRetentionCount
  ascending : h.log.Pairwise fun a b => a.lsn < b.lsn
  written : ∀ entry ∈ h.log, entry.lsn ≤ h.manager.currentLsn
  stored : h.manager.stored.Sublist h.log
  kept : ∀ entry ∈ h.log, (∀ oldest, h.manager.backups.head? = some oldest → oldest.1 ≤ entry.lsn) → entry ∈ h.manager.stored
  backups : Ascending h.manager.backups
  taken : ∀ backup ∈ h.manager.backups, backup.2.startLsn = backup.1 ∧ backup.1 < h.manager.currentLsn
  memory : ∀ newest, h.manager.backups.getLast? = some newest → h.manager.memoryState = some (stateReached (h.upTo newest.1))

variable {codec} {h : PitrHistory}

theorem Inv.new {config : PitrConfig} {m : PitrManager} (isNew : PitrManager.new codec config = .ok m) : Inv ⟨m, []⟩ := by
  rw [PitrManager.new, PitrConfig.validate] at isNew
  split at isNew
  · cases isNew
  · split at isNew
    · cases isNew
    · split at isNew
      · cases isNew
      · next some =>
        obtain rfl := Except.ok.inj isNew
        exact ⟨⟨(fun _ no => nomatch no), (fun _ no => nomatch no), (fun _ no => nomatch no), Nat.zero_le _, rfl⟩,
          Nat.pos_of_ne_zero some, .nil, (fun _ no => nomatch no), Sublist.refl _, (fun _ no => nomatch no), .nil,
          (fun _ no => nomatch no), fun _ no => nomatch no⟩

/-- A logged change keeps the invariant. -/
theorem Inv.logged (inv : h.Inv) {m' : PitrManager} {entry : WalEntry} (logged : Logged h.manager m' entry)
    (next : entry.lsn = h.manager.currentLsn + 1) : Inv ⟨m', h.log ++ [entry]⟩ := by
  refine ⟨logged.segments, by rw [logged.config]; exact inv.retained, ?_, fun e inside => ?_, ?_, fun e inside since => ?_,
    by rw [logged.backups]; exact inv.backups, fun backup inside => ?_, fun newest isNewest => ?_⟩
  · refine List.pairwise_append.mpr ⟨inv.ascending, pairwise_singleton _ _, fun e inside last isLast => ?_⟩
    rw [mem_singleton.mp isLast]
    have := inv.written e inside
    omega
  · show e.lsn ≤ m'.currentLsn
    rw [logged.currentLsn]
    obtain old | new := mem_append.mp inside
    · have := inv.written e old
      omega
    · rw [mem_singleton.mp new, next]
  · rw [logged.stored]
    exact inv.stored.append (Sublist.refl _)
  · show e ∈ m'.stored
    rw [logged.stored, mem_append]
    obtain old | new := mem_append.mp inside
    · exact .inl (inv.kept e old fun oldest isOldest => since oldest (by rw [logged.backups]; exact isOldest))
    · exact .inr new
  · rw [logged.backups] at inside
    obtain ⟨starts, before⟩ := inv.taken backup inside
    refine ⟨starts, ?_⟩
    show backup.1 < m'.currentLsn
    rw [logged.currentLsn]
    omega
  · rw [logged.backups] at isNewest
    have before := (inv.taken newest (mem_of_getLast? isNewest)).2
    have beyond : ¬ entry.lsn ≤ newest.1 := by omega
    show m'.memoryState = _
    rw [logged.memoryState, inv.memory newest isNewest, upTo, upTo, filter_append, filter_cons_of_neg (by simpa using beyond),
      filter_nil, append_nil]

/-- A backup of the state reached keeps it, with the checkpoint behind it in the log. -/
theorem Inv.backedUp (inv : h.Inv) {m' : PitrManager} {entry : WalEntry} (logged : Logged h.manager m' entry)
    (next : entry.lsn = h.manager.currentLsn + 1) (id : String) (created : Int) :
    Inv ⟨{ m' with
      backups := cleanupOldBackups h.manager.config.backupRetentionCount
        (insert h.manager.currentLsn ⟨id, created, h.manager.currentLsn, h.manager.currentLsn⟩ m'.backups)
      memoryState := some (stateReached h.log) }, h.log ++ [entry]⟩ := by
  have after := inv.logged logged next
  have last : insert h.manager.currentLsn (⟨id, created, h.manager.currentLsn, h.manager.currentLsn⟩ : BaseBackup) m'.backups =
      h.manager.backups ++ [(h.manager.currentLsn, ⟨id, created, h.manager.currentLsn, h.manager.currentLsn⟩)] := by
    rw [logged.backups]
    exact insert_eq_append (fun backup inside => (inv.taken backup inside).2) _
  rw [last]
  set backup : BaseBackup := ⟨id, created, h.manager.currentLsn, h.manager.currentLsn⟩
  set all := h.manager.backups ++ [(h.manager.currentLsn, backup)] with isAll
  have ascending : Ascending all := inv.backups.append (fun backup inside => (inv.taken backup inside).2) _
  have suffix := cleanupOldBackups_suffix h.manager.config.backupRetentionCount all
  have newestOfAll := cleanupOldBackups_getLast? inv.retained all
  have segments := after.segments
  refine ⟨⟨segments.ends, segments.activeEnds, segments.before, segments.start, segments.current⟩, after.retained, after.ascending, after.written, after.stored, fun e inside since => ?_,
    ascending.sublist suffix.sublist, fun b inside => ?_, fun newest isNewest => ?_⟩
  · -- the oldest backup moves on only
    refine after.kept e inside fun oldest isOldest => ?_
    change m'.backups.head? = some oldest at isOldest
    rw [logged.backups] at isOldest
    obtain ⟨others, split⟩ := head?_eq_some_iff.mp isOldest
    cases first : (cleanupOldBackups h.manager.config.backupRetentionCount all).head? with
    | none =>
      rw [head?_eq_none_iff.mp first, isAll, getLast?_concat] at newestOfAll
      cases newestOfAll
    | some oldest' =>
      have later : oldest'.1 ≤ e.lsn := since oldest' first
      have listed := suffix.mem (mem_of_head? first)
      rw [isAll, split, cons_append] at listed ascending
      obtain rfl | behind := mem_cons.mp listed
      · exact later
      · exact ((pairwise_cons.mp ascending).1 oldest' behind).le.trans later
  · show b.2.startLsn = b.1 ∧ b.1 < m'.currentLsn
    rw [logged.currentLsn]
    obtain old | new := mem_append.mp (suffix.mem inside)
    · obtain ⟨starts, before⟩ := inv.taken b old
      exact ⟨starts, by omega⟩
    · rw [mem_singleton.mp new]
      exact ⟨rfl, Nat.lt_succ_self _⟩
  · change (cleanupOldBackups h.manager.config.backupRetentionCount all).getLast? = some newest at isNewest
    rw [newestOfAll, isAll, getLast?_concat] at isNewest
    obtain rfl := some.inj isNewest
    have beyond : ¬ entry.lsn ≤ h.manager.currentLsn := by omega
    show some (stateReached h.log) = _
    rw [upTo, filter_append, filter_cons_of_neg (by rwa [decide_eq_true_eq]), filter_nil, append_nil,
      filter_eq_self.mpr fun e inside => decide_eq_true (inv.written e inside)]

theorem Inv.step (inv : h.Inv) (call : PitrCall) : (h.step codec call).Inv := by
  cases call with
  | logChange operation now closed =>
    obtain ⟨m', outcome, logged⟩ := logChange_spec codec inv.segments operation now closed
    rw [PitrHistory.step, outcome]
    exact inv.logged logged rfl
  | createBaseBackup id created now closed =>
    obtain ⟨m', outcome, logged⟩ := logChange_spec codec inv.segments (.checkpoint id) now closed
    rw [PitrHistory.step, createBaseBackup, outcome]
    exact inv.backedUp logged rfl id created
  | cleanupExpiredWal now =>
    obtain ⟨archived, pruned, fewer, gone⟩ := cleanupExpiredWal_spec inv.segments now
    rw [PitrHistory.step, pruned]
    refine ⟨⟨fun segment inside => inv.segments.ends segment (fewer.subset inside), inv.segments.activeEnds,
      fun segment inside => inv.segments.before segment (fewer.subset inside), inv.segments.start, inv.segments.current⟩, inv.retained,
      inv.ascending, inv.written, ?_, fun entry inside since => ?_, inv.backups, inv.taken, inv.memory⟩
    · exact ((fewer.flatMap _).append (Sublist.refl _)).trans inv.stored
    · have before := inv.kept entry inside since
      rw [PitrManager.stored, mem_append, mem_flatMap] at before ⊢
      refine before.imp_left fun ⟨segment, listed, within⟩ => ⟨segment, ?_, within⟩
      by_contra removed
      obtain ⟨oldest, isOldest, earlier⟩ := gone segment listed removed entry within
      have := since oldest isOldest
      omega

/-! ## Replay -/

variable {target : Nat} {backup : Nat × BaseBackup} {entries : List WalEntry}

/-- A log by parts: up to `base`, and on to `target`. -/
theorem filter_split {log : List WalEntry} (ascending : log.Pairwise fun a b => a.lsn < b.lsn) {base : Nat} (le : base ≤ target) :
    (log.filter fun e => e.lsn ≤ target) =
      (log.filter fun e => e.lsn ≤ base) ++ log.filter fun e => decide (base < e.lsn) && decide (e.lsn ≤ target) := by
  rw [filter_append_filter]
  · apply filter_congr
    intro e inside
    rw [Bool.eq_iff_iff]
    simp only [Bool.or_eq_true, Bool.and_eq_true, decide_eq_true_eq]
    omega
  · intro e inside early
    simp only [decide_eq_true_eq] at early
    simp only [Bool.and_eq_false_iff, decide_eq_false_iff_not]
    omega
  · apply ascending.imp
    intro a b less late
    simp only [Bool.and_eq_true, decide_eq_true_eq] at late
    simp only [decide_eq_false_iff_not]
    omega

/-- Replaying what follows on a state that the log has reached. -/
theorem stateReached_split (inv : h.Inv) {base : Nat} (le : base ≤ target) :
    (h.log.filter fun e => decide (base < e.lsn) && decide (e.lsn ≤ target)).foldl applyWalEntry (stateReached (h.upTo base)) =
      stateReached (h.upTo target) := by
  rw [upTo, upTo, filter_split inv.ascending le, stateReached, stateReached, foldl_append]

/-- The oldest backup has the least LSN. -/
theorem Inv.oldest_le (inv : h.Inv) {oldest : Nat × BaseBackup} (inside : backup ∈ h.manager.backups)
    (isOldest : h.manager.backups.head? = some oldest) : oldest.1 ≤ backup.1 := by
  obtain ⟨others, split⟩ := head?_eq_some_iff.mp isOldest
  have ascending := inv.backups
  rw [split] at inside ascending
  obtain rfl | behind := mem_cons.mp inside
  · exact le_refl _
  · exact ((pairwise_cons.mp ascending).1 backup behind).le

/-- From a backup on nothing is missing. -/
theorem Inv.filter_stored (inv : h.Inv) (inside : backup ∈ h.manager.backups) (target : Nat) :
    (h.manager.stored.filter fun e => decide (backup.1 < e.lsn) && decide (e.lsn ≤ target)) =
      h.log.filter fun e => decide (backup.1 < e.lsn) && decide (e.lsn ≤ target) := by
  apply (inv.stored.filter _).eq_of_length_le
  refine Subperm.length_le (Nodup.subperm ?_ fun e listed => ?_)
  · refine List.Pairwise.filter _ (inv.ascending.imp ?_)
    rintro a b less rfl
    exact lt_irrefl _ less
  · rw [mem_filter] at listed ⊢
    refine ⟨inv.kept e listed.1 fun oldest isOldest => ?_, listed.2⟩
    have after : backup.1 < e.lsn := by
      rw [Bool.and_eq_true, decide_eq_true_eq] at listed
      exact listed.2.1
    have := inv.oldest_le inside isOldest
    omega

theorem Inv.entriesWithin_ok (inv : h.Inv) {base : Nat} (collected : h.manager.entriesWithin codec base target = .ok entries) :
    entries = h.manager.stored.filter fun e => decide (base < e.lsn) && decide (e.lsn ≤ target) := by
  rw [entriesWithin] at collected
  simp only [← List.filter_flatMap, ← filter_append] at collected
  have sorted : (h.manager.stored.filter fun e => decide (base < e.lsn) && decide (e.lsn ≤ target)).Pairwise
      fun a b => decide (a.lsn ≤ b.lsn) = true :=
    ((inv.ascending.sublist inv.stored).filter _).imp fun less => decide_eq_true less.le
  change (do
    verifyWalChain codec ((h.manager.stored.filter fun e => decide (base < e.lsn) && decide (e.lsn ≤ target)).mergeSort
      fun a b => a.lsn ≤ b.lsn)
    Except.ok ((h.manager.stored.filter fun e => decide (base < e.lsn) && decide (e.lsn ≤ target)).mergeSort
      fun a b => a.lsn ≤ b.lsn)) = Except.ok entries at collected
  rw [mergeSort_of_pairwise sorted] at collected
  cases verified : verifyWalChain codec
      (h.manager.stored.filter fun e => decide (base < e.lsn) && decide (e.lsn ≤ target)) with
  | error e =>
    rw [verified] at collected
    cases collected
  | ok u =>
    rw [verified] at collected
    exact (Except.ok.inj collected).symm

/-- The search goes through what is stored, from the end. -/
theorem findLsnForTimestamp_ok {timestamp : Int} {lsn : Nat} (found : h.manager.findLsnForTimestamp codec timestamp = .ok lsn) :
    ∃ e, (h.manager.stored.reverse.find? fun e => e.timestamp ≤ timestamp) = some e ∧ e.lsn = lsn := by
  rw [findLsnForTimestamp] at found
  rw [stored, reverse_append, reverse_flatMap, find?_append, find?_flatMap]
  cases active : h.manager.activeSegment.entries.reverse.find? fun e => decide (e.timestamp ≤ timestamp) with
  | some e =>
    rw [active] at found
    exact ⟨e, rfl, Except.ok.inj found⟩
  | none =>
    simp only [active] at found
    rw [none_or]
    cases archived : h.manager.archivedSegments.reverse.findSome? fun segment =>
        segment.2.entries.reverse.find? fun e => decide (e.timestamp ≤ timestamp) with
    | some e =>
      rw [archived] at found
      exact ⟨e, archived, Except.ok.inj found⟩
    | none =>
      rw [archived] at found
      cases found

/-- The first entry from the end has the greatest LSN. -/
theorem lsn_le_of_find? {log : List WalEntry} (ascending : log.Pairwise fun a b => a.lsn < b.lsn) {p : WalEntry → Bool} {e f : WalEntry}
    (found : log.reverse.find? p = some e) (inside : f ∈ log) (holds : p f = true) : f.lsn ≤ e.lsn := by
  obtain ⟨-, later, earlier, split, none⟩ := find?_eq_some_iff_append.mp found
  have descending := pairwise_reverse.mpr ascending
  rw [split, List.pairwise_append, pairwise_cons] at descending
  rw [← mem_reverse, split, mem_append, mem_cons] at inside
  obtain after | rfl | before := inside
  · have fails := none f after
    rw [holds] at fails
    cases fails
  · exact le_refl _
  · exact (descending.2.1.1 f before).le

/-- Where there is a backup before it, the LSN found for a timestamp is the one in the whole log. -/
theorem Inv.targetLsn_timestamp (inv : h.Inv) {timestamp : Int} {lsn : Nat} (found : h.manager.findLsnForTimestamp codec timestamp = .ok lsn) (inside : backup ∈ h.manager.backups) (le : backup.1 ≤ lsn) :
    h.targetLsn (.timestamp timestamp) = some lsn := by
  obtain ⟨e, last, rfl⟩ := findLsnForTimestamp_ok found
  have written := inv.stored.subset (mem_reverse.mp (mem_of_find?_eq_some last))
  have noLater := find?_some last
  rw [targetLsn]
  cases whole : h.log.reverse.find? fun e => decide (e.timestamp ≤ timestamp) with
  | none => exact absurd noLater (by simpa using find?_eq_none.mp whole e (mem_reverse.mpr written))
  | some f =>
    have above : e.lsn ≤ f.lsn := lsn_le_of_find? inv.ascending whole written noLater
    have stillThere : f ∈ h.manager.stored := by
      apply inv.kept f (mem_reverse.mp (mem_of_find?_eq_some whole))
      intro oldest isOldest
      have := inv.oldest_le inside isOldest
      omega
    have holds := find?_some whole
    have below : f.lsn ≤ e.lsn := lsn_le_of_find? (inv.ascending.sublist inv.stored) last stillThere holds
    exact congrArg some (le_antisymm below above)

/-! ## Recovery -/

theorem snapshotInMemory_ok {m : PitrManager} {backup : BaseBackup} {result : BaseBackup × SystemSnapshot}
    (got : (do .ok (backup, ← m.snapshotInMemory) : Except PitrError (BaseBackup × SystemSnapshot)) = .ok result) :
    result.1 = backup ∧ m.memoryState = some result.2 := by
  rw [snapshotInMemory] at got
  cases memory : m.memoryState with
  | none =>
    rw [memory] at got
    cases got
  | some snapshot =>
    rw [memory] at got
    obtain rfl := Except.ok.inj got
    exact ⟨rfl, rfl⟩

/-- From the newest backup, the state at the target is reached. -/
theorem Inv.replayed (inv : h.Inv) {newest : Nat × BaseBackup} (isNewest : h.manager.backups.getLast? = some newest) (le : newest.1 ≤ target) {snapshot : SystemSnapshot} (memory : h.manager.memoryState = some snapshot) (collected : h.manager.entriesWithin codec newest.1 target = .ok entries) :
    entries.foldl applyWalEntry snapshot = stateReached (h.upTo target) := by
  have inside := mem_of_getLast? isNewest
  rw [inv.memory newest isNewest] at memory
  obtain rfl := some.inj memory
  rw [inv.entriesWithin_ok collected, inv.filter_stored inside target]
  exact stateReached_split inv le

/-- The targets that have an LSN of their own. -/
theorem Inv.recover_upTo (inv : h.Inv) {asked : Int} {lsn : Nat} {backup : BaseBackup} {snapshot : SystemSnapshot}
    (found : h.manager.backupUpTo lsn asked = .ok (backup, snapshot))
    (collected : h.manager.entriesWithin codec backup.startLsn lsn = .ok entries)
    (newest : ∀ newest, h.manager.backups.getLast? = some newest → newest.1 ≤ lsn) :
    entries.foldl applyWalEntry snapshot = stateReached (h.upTo lsn) := by
  rw [backupUpTo] at found
  cases last : lastUpTo h.manager.backups lsn with
  | none =>
    rw [last] at found
    cases found
  | some chosen =>
    simp only [last] at found
    obtain ⟨rfl, memory⟩ := snapshotInMemory_ok found
    have inside := (lastUpTo_some last).1
    cases isLast : h.manager.backups.getLast? with
    | none =>
      rw [getLast?_eq_none_iff.mp isLast] at inside
      cases inside
    | some top =>
      rw [lastUpTo_eq_last inv.backups isLast (newest top isLast)] at last
      obtain rfl := some.inj last
      rw [(inv.taken top inside).1] at collected
      exact inv.replayed isLast (newest top isLast) memory collected

theorem Inv.recover (inv : h.Inv) {target : RecoveryTarget} {now : Int} {result : RecoveryResult}
    (accepted : h.manager.recover codec target now = .ok result) (newest : h.FromNewest target) :
    ∃ lsn, h.targetLsn target = some lsn ∧ result.snapshot = stateReached (h.upTo lsn) := by
  rw [PitrManager.recover] at accepted
  cases found : h.manager.findBaseBackup codec target now with
  | error e =>
    rw [found] at accepted
    cases accepted
  | ok base =>
    obtain ⟨backup, snapshot⟩ := base
    rw [found] at accepted
    cases collected : h.manager.collectWalEntries codec backup.startLsn target with
    | error e =>
      change (h.manager.collectWalEntries codec backup.startLsn target >>= _) = _ at accepted
      rw [collected] at accepted
      cases accepted
    | ok entries =>
      change (h.manager.collectWalEntries codec backup.startLsn target >>= _) = _ at accepted
      rw [collected] at accepted
      obtain rfl := Except.ok.inj accepted
      cases target with
      | lsn lsn =>
        rw [findBaseBackup] at found
        rw [collectWalEntries] at collected
        exact ⟨lsn, rfl, inv.recover_upTo found collected fun top isTop => newest top isTop lsn rfl⟩
      | latest =>
        rw [findBaseBackup] at found
        rw [collectWalEntries] at collected
        exact ⟨_, rfl, inv.recover_upTo found collected fun top isTop => newest top isTop _ rfl⟩
      | timestamp timestamp =>
        rw [findBaseBackup] at found
        rw [collectWalEntries] at collected
        cases lookup : h.manager.findLsnForTimestamp codec timestamp with
        | error e =>
          rw [lookup] at found
          cases found
        | ok lsn =>
          rw [lookup] at found collected
          have aimed : h.targetLsn (.timestamp timestamp) = some lsn := by
            change h.manager.backupUpTo lsn timestamp = _ at found
            rw [backupUpTo] at found
            cases last : lastUpTo h.manager.backups lsn with
            | none =>
              rw [last] at found
              cases found
            | some chosen =>
              obtain ⟨inside, le⟩ := lastUpTo_some last
              exact inv.targetLsn_timestamp lookup inside le
          exact ⟨lsn, aimed, inv.recover_upTo found collected fun top isTop => newest top isTop lsn aimed⟩
      | backup id =>
        obtain rfl := Except.ok.inj collected
        rw [findBaseBackup] at found
        cases listed : h.manager.backups.find? fun backup => decide (backup.2.id = id) with
        | none =>
          rw [listed] at found
          cases found
        | some chosen =>
          simp only [listed] at found
          obtain ⟨rfl, memory⟩ := snapshotInMemory_ok found
          have inside := mem_of_find?_eq_some listed
          have aimed : h.targetLsn (.backup id) = some chosen.1 := by rw [targetLsn, listed]; rfl
          refine ⟨chosen.1, aimed, ?_⟩
          cases isLast : h.manager.backups.getLast? with
          | none =>
            rw [getLast?_eq_none_iff.mp isLast] at inside
            cases inside
          | some top =>
            -- the keys ascend, so the backup asked for is the newest itself
            have same : top = chosen := by
              have le := newest top isLast chosen.1 aimed
              obtain ⟨front, split⟩ := getLast?_eq_some_iff.mp isLast
              have ascending := inv.backups
              rw [split] at inside ascending
              obtain before | last := mem_append.mp inside
              · have := (List.pairwise_append.mp ascending).2.2 chosen before top mem_cons_self
                omega
              · exact (mem_singleton.mp last).symm
            subst same
            rw [inv.memory top isLast] at memory
            exact (some.inj memory).symm

end PitrHistory

/-- **When recovery is exact**: in every history of a manager, a recovery that is accepted gives
the state that all operations up to its target reach, provided the newest backup is not beyond
the target. -/
theorem recover_exact {config : PitrConfig} {m : PitrManager} (isNew : new codec config = .ok m) (history : List PitrCall)
    (target : RecoveryTarget) (now : Int) (result : RecoveryResult)
    (accepted : (run (step codec) ⟨m, []⟩ history).manager.recover codec target now = .ok result)
    (newest : (run (step codec) ⟨m, []⟩ history).FromNewest target) :
    ∃ lsn, (run (step codec) ⟨m, []⟩ history).targetLsn target = some lsn ∧
      result.snapshot = stateReached ((run (step codec) ⟨m, []⟩ history).upTo lsn) := by
  have inv : (run (step codec) ⟨m, []⟩ history).Inv :=
    run_invariant Inv (fun h call inv => inv.step call) (Inv.new isNew) history
  exact inv.recover accepted newest

namespace Example

/-- Some values for what SHA-256 and the rest give. -/
def constants : Codec where
  computeHash _ _ _ _ := "hash"
  genesis := "genesis"
  jsonLength _ := 300
  display _ := "time"

def manager : PitrManager := ⟨.default, 0, ⟨0, 0, [], none⟩, [], [], "genesis", none⟩

/-- A user before the first backup, and another one before the second. -/
def history : List PitrCall :=
  [.logChange (.userCreated "1" "ada") 10 10, .createBaseBackup "first" 11 11 11,
    .logChange (.userCreated "2" "bob") 12 12, .createBaseBackup "second" 13 13 13]

end Example

open Example

theorem recover_exact_second : ∃ result,
    (run (step constants) ⟨manager, []⟩ history).manager.recover constants
      (.backup "second") 14 = .ok result ∧
    ∃ lsn, (run (step constants) ⟨manager, []⟩ history).targetLsn (.backup "second") = some lsn ∧
      result.snapshot = stateReached ((run (step constants) ⟨manager, []⟩ history).upTo lsn) := by
  have isNew : new constants .default = .ok manager := rfl
  refine ⟨_, rfl, recover_exact constants isNew history (.backup "second") 14 _ rfl ?_⟩
  intro newest isNewest lsn aimed
  obtain rfl := some.inj isNewest
  obtain rfl := some.inj aimed
  decide

/-- Recovery to the first backup brings the second user, too. -/
theorem recover_fails : ¬ ∀ (codec : Codec) (config : PitrConfig) (m : PitrManager), new codec config = .ok m →
    ∀ (history : List PitrCall) (target : RecoveryTarget) (now : Int) (result : RecoveryResult),
      (run (step codec) ⟨m, []⟩ history).manager.recover codec target now = .ok result →
        ∃ lsn, (run (step codec) ⟨m, []⟩ history).targetLsn target = some lsn ∧
          result.snapshot = stateReached ((run (step codec) ⟨m, []⟩ history).upTo lsn) := by
  intro always
  obtain ⟨lsn, aimed, same⟩ := always constants .default manager rfl history (.backup "first") 14 _ rfl
  obtain rfl := some.inj aimed
  have users := congrArg (fun s => (s.users "2").isSome) same
  revert users
  decide

end StreamHouse.Api
