import Mathlib.Data.List.AList
import StreamHouse.Lib.Run

/-!
# Checkpoints on disk

`CheckpointManager` over `FileCheckpointStorage` of `streamhouse-sql/src/checkpoint_manager.rs`, a call of the file system
at a time. A save that does not go on has failed or crashed: what it has done stays. `latest` and `clock` are no fields
of the source: the checkpoint that was renamed last, and the time of the last write.
-/

namespace StreamHouse.Sql.Checkpoints
open Lib List AList

structure StateCheckpoint where
  checkpointId : List Char
  processorId : String
  timestamp : Int
  offsets : List (String × List (Nat × Nat))
  stateSnapshot : List UInt8

structure File where
  data : List UInt8
  modified : Nat

abbrev Directory := AList fun _ : List Char => File

/-- `bincode`, and the order that a directory is read in. -/
structure Host where
  serialize : StateCheckpoint → List UInt8
  deserialize : List UInt8 → Except String StateCheckpoint
  readDir : Directory → List (Sigma fun _ : List Char => File)
  readDir_perm : ∀ files, readDir files ~ files.entries

def ckpt : List Char := ['.', 'c', 'k', 'p', 't']

def checkpointPath (id : List Char) : List Char := id ++ ckpt

def tmpPath (id : List Char) : List Char := id ++ ckpt ++ ['.', 't', 'm', 'p']

/-- `trim_end_matches(".ckpt")` on the reversed text. -/
def trimCkptReversed : List Char → List Char
  | 't' :: 'p' :: 'k' :: 'c' :: '.' :: rest => trimCkptReversed rest
  | text => text

def trimCkpt (text : List Char) : List Char := (trimCkptReversed text.reverse).reverse

namespace Host

variable (h : Host)

/-- The `entries` of `list`. A file whose metadata cannot be read is as old as can be. -/
def entries (unread : List Char → Bool) (files : Directory) : List (List Char × Nat) :=
  ((h.readDir files).filter fun f => ckpt.isSuffixOf f.1).map fun f => (trimCkpt f.1, if unread f.1 then 0 else f.2.modified)

def older (a b : List Char × Nat) : Bool := a.2 ≤ b.2

def list (unread : List Char → Bool) (files : Directory) : List (List Char) := ((h.entries unread files).mergeSort older).map Prod.fst

def load (files : Directory) (id : List Char) : Except String (Option StateCheckpoint) :=
  match files.lookup (checkpointPath id) with
  | none => .ok none
  | some f =>
    match h.deserialize f.data with
    | .ok c => .ok (some c)
    | .error e => .error ("failed to deserialize checkpoint: " ++ e)

def loadLatest (unread : List Char → Bool) (files : Directory) : Except String (Option StateCheckpoint) :=
  match (h.list unread files).getLast? with
  | some id => h.load files id
  | none => .ok none

end Host

/-- Where a save is. -/
inductive Saving where
  | idle
  | written (c : StateCheckpoint)
  | renamed
  | removing (ids : List (List Char))

structure Saver where
  files : Directory
  saving : Saving
  latest : Option StateCheckpoint
  clock : Nat

inductive Act where
  /-- A save begins; if it crashes in the middle of the file, only so many bytes are there. -/
  | save (c : StateCheckpoint) (now bytes : Nat)
  /-- The next call of the save; when it lists the checkpoints, there may be metadata that it cannot read. -/
  | next (unread : List Char → Bool)
  | delete (id : List Char)

namespace Saver

def empty : Saver := ⟨∅, .idle, none, 0⟩

variable (h : Host) (retained : Nat)

/-- `save_checkpoint` and `cleanup_old_checkpoints`, and `delete_checkpoint`. -/
def step (s : Saver) : Act → Saver
  | .save c now bytes =>
    { s with
      files := s.files.insert (tmpPath c.checkpointId) ⟨(h.serialize c).take bytes, now⟩
      saving := if (h.serialize c).length ≤ bytes then .written c else .idle
      clock := now }
  | .next unread =>
    match s.saving with
    | .idle | .removing [] => s
    | .written c =>
      match s.files.lookup (tmpPath c.checkpointId) with
      | none => { s with saving := .idle }
      | some f =>
        ⟨(s.files.erase (tmpPath c.checkpointId)).insert (checkpointPath c.checkpointId) f, .renamed, some c, s.clock⟩
    | .renamed => { s with saving := .removing ((h.list unread s.files).take ((h.list unread s.files).length - retained)) }
    | .removing (id :: ids) => { s with files := s.files.erase (checkpointPath id), saving := .removing ids }
  | .delete id => { s with files := s.files.erase (checkpointPath id) }

/-- The metadata of the last checkpoint can be read. -/
def Sees (s : Saver) (unread : List Char → Bool) : Prop := ∀ c ∈ s.latest, unread (checkpointPath c.checkpointId) = false

/-- Times of writes rise, ids do not end in the suffix of the files (they are UUIDs), `bincode` reads what it wrote, only
checkpoints before the last are deleted by hand, and a cleanup can read the metadata of the last. -/
def Sound (s : Saver) : Act → Prop
  | .save c now _ => s.clock < now ∧ trimCkpt c.checkpointId = c.checkpointId ∧ h.deserialize (h.serialize c) = .ok c
  | .next unread => s.saving = .renamed → s.Sees unread
  | .delete id => ∀ c ∈ s.latest, c.checkpointId ≠ id

/-- `list` takes only the files of plain ids for checkpoints. -/
def Named (files : Directory) : Prop :=
  ∀ name ∈ files, ckpt.isSuffixOf name = true → ∃ id, trimCkpt id = id ∧ name = checkpointPath id

/-- No file of a checkpoint is as new as the one of `latest`. -/
def Newest (files : Directory) : Option StateCheckpoint → Prop
  | none => ∀ id, checkpointPath id ∉ files
  | some c => h.deserialize (h.serialize c) = .ok c ∧
    ∃ t, files.lookup (checkpointPath c.checkpointId) = some ⟨h.serialize c, t⟩ ∧
    ∀ id f, files.lookup (checkpointPath id) = some f → id ≠ c.checkpointId → f.modified < t

/-- What is known where a save is. -/
def Ongoing (s : Saver) : Saving → Prop
  | .written c => trimCkpt c.checkpointId = c.checkpointId ∧ h.deserialize (h.serialize c) = .ok c ∧
    s.files.lookup (tmpPath c.checkpointId) = some ⟨h.serialize c, s.clock⟩ ∧
    ∀ id f, s.files.lookup (checkpointPath id) = some f → f.modified < s.clock
  | .removing ids => (∀ c ∈ s.latest, c.checkpointId ∉ ids) ∧
    ∃ kept : List (List Char), kept.length ≤ retained ∧ ∀ id, checkpointPath id ∈ s.files → id ∈ ids ∨ id ∈ kept
  | _ => True

structure Inv (s : Saver) : Prop where
  named : Named s.files
  newest : Newest h s.files s.latest
  clock : ∀ id f, s.files.lookup (checkpointPath id) = some f → f.modified ≤ s.clock
  ongoing : Ongoing h retained s s.saving

end Saver

/-! ## Names -/

theorem trimCkpt_path {id : List Char} (plain : trimCkpt id = id) : trimCkpt (checkpointPath id) = id := by
  rw [checkpointPath, trimCkpt, reverse_append]
  exact plain

theorem isCkpt_path (id : List Char) : ckpt.isSuffixOf (checkpointPath id) = true :=
  isSuffixOf_iff_suffix.mpr (suffix_append id ckpt)

theorem not_isCkpt_tmp (id : List Char) : ckpt.isSuffixOf (tmpPath id) = false := by
  rw [isSuffixOf, tmpPath, reverse_append]
  rfl

theorem path_ne_tmp (id other : List Char) : checkpointPath id ≠ tmpPath other := fun same => by
  have no := not_isCkpt_tmp other
  rw [← same, isCkpt_path] at no
  cases no

theorem path_inj {id other : List Char} : checkpointPath id = checkpointPath other ↔ id = other := append_left_inj ckpt

/-! ## Lists of checkpoints -/

namespace Host

variable (h : Host) {files : Directory} (unread : List Char → Bool)

theorem mem_entries {e : List Char × Nat} (named : Saver.Named files) : e ∈ h.entries unread files ↔
    ∃ f, files.lookup (checkpointPath e.1) = some f ∧ (if unread (checkpointPath e.1) then 0 else f.modified) = e.2 := by
  rw [entries, mem_map]
  constructor
  · rintro ⟨⟨name, f⟩, inside, rfl⟩
    obtain ⟨inside, isCkpt⟩ := mem_filter.mp inside
    have there := mem_lookup_iff.mpr ((h.readDir_perm files).mem_iff.mp inside)
    obtain ⟨id, plain, rfl⟩ := named name (lookup_isSome.mp (Option.isSome_of_mem there)) isCkpt
    exact ⟨f, by rw [trimCkpt_path plain]; exact there, by rw [trimCkpt_path plain]⟩
  · rintro ⟨f, there, modified⟩
    obtain ⟨id, plain, same⟩ := named _ (lookup_isSome.mp (Option.isSome_of_mem there)) (isCkpt_path e.1)
    obtain rfl := path_inj.mp same
    refine ⟨⟨_, f⟩, mem_filter.mpr ⟨(h.readDir_perm files).mem_iff.mpr (mem_lookup_iff.mp there), isCkpt_path e.1⟩, ?_⟩
    rw [trimCkpt_path plain, modified]

variable (named : Saver.Named files)
include named

theorem mem_list {id : List Char} : id ∈ h.list unread files ↔ checkpointPath id ∈ files := by
  rw [← lookup_isSome, Option.isSome_iff_exists, list, mem_map]
  simp only [mem_mergeSort]
  constructor
  · rintro ⟨e, inside, rfl⟩
    obtain ⟨f, there, -⟩ := (h.mem_entries unread named).mp inside
    exact ⟨f, there⟩
  · rintro ⟨f, there⟩
    exact ⟨(id, if unread (checkpointPath id) then 0 else f.modified), (h.mem_entries unread named).mpr ⟨f, there, rfl⟩, rfl⟩

theorem nodup_list : (h.list unread files).Nodup := by
  have keys : ((h.readDir files).map Sigma.fst).Nodup := ((h.readDir_perm files).map Sigma.fst).nodup_iff.mpr files.nodupKeys
  refine ((mergeSort_perm (h.entries unread files) _).map Prod.fst).nodup_iff.mpr ?_
  rw [entries, map_map]
  refine (keys.of_map.filter _).map_on fun f inside g other same => ?_
  obtain ⟨inside, isCkpt⟩ := mem_filter.mp inside
  obtain ⟨other, isCkpt'⟩ := mem_filter.mp other
  have name (f : Sigma fun _ : List Char => File) (inside : f ∈ h.readDir files) (isCkpt : ckpt.isSuffixOf f.1 = true) :
      f.1 = checkpointPath (trimCkpt f.1) := by
    obtain ⟨id, plain, same⟩ := named f.1 (mem_keys_of_mem ((h.readDir_perm files).mem_iff.mp inside)) isCkpt
    rw [same, trimCkpt_path plain]
  refine inj_on_of_nodup_map keys inside other ?_
  rw [name f inside isCkpt, name g other isCkpt']
  exact congrArg checkpointPath same

/-- The newest is the last, if its metadata can be read. -/
theorem getLast?_list {id : List Char} {f : File} (there : files.lookup (checkpointPath id) = some f)
    (read : unread (checkpointPath id) = false) (newest : ∀ other g, files.lookup (checkpointPath other) = some g → other ≠ id → g.modified < f.modified) :
    (h.list unread files).getLast? = some id := by
  have sorted : ((h.entries unread files).mergeSort older).Pairwise fun a b => older a b = true :=
    pairwise_mergeSort (by simpa [older] using fun _ _ _ => Nat.le_trans) (by simpa [older] using Nat.le_total) _
  have entry (e : List Char × Nat) := (@mem_mergeSort _ older e _).trans (h.mem_entries unread named)
  have inside := (entry (id, f.modified)).mpr ⟨f, there, if_neg (Bool.eq_false_iff.mp read)⟩
  rw [list]
  obtain empty | ⟨front, last, cut⟩ := eq_nil_or_concat ((h.entries unread files).mergeSort older)
  · rw [empty] at inside
    cases inside
  · rw [cut, concat_eq_append] at sorted inside entry ⊢
    rw [map_append, map_singleton, getLast?_concat]
    obtain ⟨g, isLast, modified⟩ := (entry last).mp (mem_append_right _ mem_cons_self)
    by_contra other
    have earlier := newest _ g isLast fun same => other (congrArg some same)
    obtain before | isLast := mem_append.mp inside
    · have order := (List.pairwise_append.mp sorted).2.2 _ before last mem_cons_self
      rw [older, decide_eq_true_eq] at order
      dsimp only at order
      split at modified <;> omega
    · obtain rfl := mem_singleton.mp isLast
      exact other rfl

end Host

/-! ## Saves -/

namespace Saver

variable {h : Host} {retained : Nat} {s : Saver}

/-- What leaves the files of checkpoints alone. -/
theorem newest_congr {files files' : Directory} {latest : Option StateCheckpoint}
    (same : ∀ id, files'.lookup (checkpointPath id) = files.lookup (checkpointPath id)) (newest : Newest h files latest) :
    Newest h files' latest := by
  cases latest with
  | none => exact fun id there => newest id (lookup_isSome.mp (same id ▸ lookup_isSome.mpr there))
  | some c =>
    simp only [Newest, same]
    exact newest

theorem Inv.delete (inv : Inv h retained s) {id : List Char} (older : ∀ c ∈ s.latest, c.checkpointId ≠ id) :
    Named (s.files.erase (checkpointPath id)) ∧ Newest h (s.files.erase (checkpointPath id)) s.latest ∧
      ∀ other f, (s.files.erase (checkpointPath id)).lookup (checkpointPath other) = some f →
        s.files.lookup (checkpointPath other) = some f := by
  have left (other : List Char) (f : File) (there : (s.files.erase (checkpointPath id)).lookup (checkpointPath other) = some f) :
      s.files.lookup (checkpointPath other) = some f := by
    by_cases same : other = id
    · rw [same, lookup_erase] at there
      cases there
    · rwa [lookup_erase_ne fun paths => same (path_inj.mp paths)] at there
  refine ⟨fun name there => inv.named name (mem_erase.mp there).2, ?_, left⟩
  have newest := inv.newest
  cases last : s.latest with
  | none =>
    rw [last] at newest
    exact fun other there => newest other (mem_erase.mp there).2
  | some c =>
    rw [last] at newest older
    obtain ⟨reads, t, there, others⟩ := newest
    refine ⟨reads, t, ?_, fun other f inside => others other f (left other f inside)⟩
    rwa [lookup_erase_ne fun paths => older c rfl (path_inj.mp paths)]

theorem Inv.save (inv : Inv h retained s) {c : StateCheckpoint} {now bytes : Nat} (sound : Sound h s (.save c now bytes)) :
    Inv h retained (s.step h retained (.save c now bytes)) := by
  obtain ⟨later, plain, reads⟩ := sound
  have paths (f : File) (id : List Char) :
      (s.files.insert (tmpPath c.checkpointId) f).lookup (checkpointPath id) = s.files.lookup (checkpointPath id) :=
    lookup_insert_ne (path_ne_tmp id _)
  refine ⟨fun name there isCkpt => ?_, newest_congr (paths _) inv.newest, fun id f there => ?_, ?_⟩
  · obtain rfl | there := (mem_insert _).mp there
    · rw [not_isCkpt_tmp] at isCkpt
      cases isCkpt
    · exact inv.named name there isCkpt
  · exact Nat.le_trans (inv.clock id f (paths _ id ▸ there)) (Nat.le_of_lt later)
  · rw [Saver.step]
    dsimp only
    split
    · next whole =>
      refine ⟨plain, reads, ?_, fun id f there => Nat.lt_of_le_of_lt (inv.clock id f (paths _ id ▸ there)) later⟩
      rw [lookup_insert, take_of_length_le whole]
    · trivial

theorem Inv.remove (inv : Inv h retained s) {id : List Char} (sound : Sound h s (.delete id)) :
    Inv h retained (s.step h retained (.delete id)) := by
  obtain ⟨named, newest, left⟩ := inv.delete sound
  refine ⟨named, newest, fun other f there => inv.clock other f (left other f there), ?_⟩
  have ongoing := inv.ongoing
  cases saving : s.saving with
  | written c =>
    rw [saving] at ongoing
    obtain ⟨plain, reads, there, before⟩ := ongoing
    rw [Saver.step, saving]
    refine ⟨plain, reads, ?_, fun other f there => before other f (left other f there)⟩
    rwa [lookup_erase_ne (path_ne_tmp id _).symm]
  | removing ids =>
    rw [saving] at ongoing
    obtain ⟨spared, kept, few, all⟩ := ongoing
    rw [Saver.step, saving]
    exact ⟨spared, kept, few, fun other there => all other (mem_erase.mp there).2⟩
  | _ =>
    rw [Saver.step, saving]
    trivial

/-- The rename, the choice of what to remove, and each removal. -/
theorem Inv.next (room : 0 < retained) (inv : Inv h retained s) {unread : List Char → Bool} (sound : Sound h s (.next unread)) :
    Inv h retained (s.step h retained (.next unread)) := by
  have ongoing := inv.ongoing
  rw [Saver.step]
  cases saving : s.saving with
  | idle => exact inv
  | written c =>
    rw [saving] at ongoing
    obtain ⟨plain, reads, there, before⟩ := ongoing
    dsimp only
    rw [there]
    have old {id : List Char} (other : id ≠ c.checkpointId) (f : File) :
        ((s.files.erase (tmpPath c.checkpointId)).insert (checkpointPath c.checkpointId) f).lookup (checkpointPath id) =
          s.files.lookup (checkpointPath id) := by
      rw [lookup_insert_ne fun paths => other (path_inj.mp paths), lookup_erase_ne (path_ne_tmp id _)]
    refine ⟨fun name there isCkpt => ?_,
      ⟨reads, _, lookup_insert _, fun id f there other => before id f (old other _ ▸ there)⟩, fun id f there => ?_, trivial⟩
    · obtain rfl | there := (mem_insert _).mp there
      · exact ⟨_, plain, rfl⟩
      · exact inv.named name (mem_erase.mp there).2 isCkpt
    · by_cases same : id = c.checkpointId
      · rw [same, lookup_insert] at there
        cases there
        exact Nat.le_refl _
      · exact inv.clock id f (old same _ ▸ there)
  | renamed =>
    refine ⟨inv.named, inv.newest, inv.clock, fun c last spared => ?_,
      (h.list unread s.files).drop ((h.list unread s.files).length - retained), ?_, ?_⟩
    · have newest := inv.newest
      rw [show s.latest = some c from last] at newest
      obtain ⟨-, t, there, others⟩ := newest
      obtain ⟨front, cut⟩ := getLast?_eq_some_iff.mp (h.getLast?_list unread inv.named there (sound saving c last) others)
      have apart := h.nodup_list unread inv.named
      rw [cut] at spared apart
      rw [take_append_of_le_length (by rw [length_append, length_singleton]; omega)] at spared
      exact disjoint_of_nodup_append apart (mem_of_mem_take spared) mem_cons_self
    · rw [length_drop]
      omega
    · intro id there
      have inside := (h.mem_list unread inv.named).mpr there
      rw [← take_append_drop ((h.list unread s.files).length - retained) (h.list unread s.files)] at inside
      exact mem_append.mp inside
  | removing ids =>
    rw [saving] at ongoing
    cases ids with
    | nil => exact inv
    | cons id ids =>
      obtain ⟨spared, kept, few, all⟩ := ongoing
      obtain ⟨named, newest, left⟩ := inv.delete fun c last same => spared c last (same ▸ mem_cons_self)
      refine ⟨named, newest, fun other f there => inv.clock other f (left other f there),
        fun c last inside => spared c last (mem_cons_of_mem id inside), kept, few, fun other there => ?_⟩
      obtain ⟨apart, there⟩ := mem_erase.mp there
      obtain inside | inside := all other there
      · obtain rfl | inside := mem_cons.mp inside
        · exact absurd rfl apart
        · exact .inl inside
      · exact .inr inside

theorem Inv.step (room : 0 < retained) (inv : Inv h retained s) (a : Act) (sound : Sound h s a) : Inv h retained (s.step h retained a) := by
  cases a with
  | save c now bytes => exact inv.save sound
  | delete id => exact inv.remove sound
  | next unread => exact inv.next room sound

namespace Example

def checkpoint (id : Char) : StateCheckpoint := ⟨[id], "p", 0, [], []⟩

/-- The id alone stands for the contents. -/
def host : Host where
  serialize c := c.checkpointId.map fun id => UInt8.ofNat id.toNat
  deserialize data := .ok ⟨data.map fun b => Char.ofNat b.toNat, "p", 0, [], []⟩
  readDir files := files.entries
  readDir_perm _ := .refl _

def readable (_ : List Char) : Bool := false

/-- A checkpoint, and another, of which only the file that is still to be renamed is there. -/
def saves : List Act := [.save (checkpoint 'a') 1 1, .next readable, .next readable, .save (checkpoint 'b') 2 0]

end Example

open Example

end Saver

end StreamHouse.Sql.Checkpoints
