import Mathlib.Data.Prod.Lex
import StreamHouse.Core.Record
import StreamHouse.Lib.Preference

/-!
# Active-active regions

The conflict resolvers of `active_active.rs`, and what the regions hold after they have compared
the versions of a key with one another.
-/

namespace StreamHouse.Api

open Lib Preference List

structure ConflictRecord where
  topic : String
  key : Bytes
  localValue : Bytes
  remoteValue : Bytes
  localTimestamp : BitVec 64
  remoteTimestamp : BitVec 64
  localRegion : String
  remoteRegion : String

inductive ConflictResolution where
  | keepLocal
  | keepRemote
  | merge (value : Bytes)
deriving DecidableEq

inductive ConflictStrategy where
  | lastWriterWins
  | regionPriority (priority : List String)
  /-- Without a resolver of its own the coordinator uses the first strategy. -/
  | custom

/-- `LastWriterWinsResolver::resolve`. -/
def lastWriterWins (conflict : ConflictRecord) : ConflictResolution :=
  if conflict.remoteTimestamp ≤ conflict.localTimestamp then .keepLocal else .keepRemote

/-- `RegionPriorityResolver::resolve`. -/
def regionPriority (priority : List String) (conflict : ConflictRecord) : ConflictResolution :=
  match priority.idxOf? conflict.localRegion, priority.idxOf? conflict.remoteRegion with
  | some l, some r => if l ≤ r then .keepLocal else .keepRemote
  | some _, none => .keepLocal
  | none, some _ => .keepRemote
  | none, none => if conflict.remoteTimestamp ≤ conflict.localTimestamp then .keepLocal else .keepRemote

/-- The resolver that `ActiveActiveCoordinator::new` picks. -/
def ConflictStrategy.resolve : ConflictStrategy → ConflictRecord → ConflictResolution
  | .lastWriterWins => Api.lastWriterWins
  | .regionPriority priority => Api.regionPriority priority
  | .custom => Api.lastWriterWins

/-! ## The regions -/

/-- A version of a key. -/
structure Version where
  value : Bytes
  timestamp : BitVec 64
  region : String
deriving DecidableEq

def conflictOf (topic : String) (key : Bytes) (here there : Version) : ConflictRecord where
  topic := topic
  key := key
  localValue := here.value
  remoteValue := there.value
  localTimestamp := here.timestamp
  remoteTimestamp := there.timestamp
  localRegion := here.region
  remoteRegion := there.region

variable (strategy : ConflictStrategy) (topic : String) (key : Bytes)

/-- What a region holds after it has compared its version with another one. -/
def resolved (here there : Version) : Version :=
  match strategy.resolve (conflictOf topic key here there) with
  | .keepLocal => here
  | .keepRemote => there
  | .merge value => { here with value := value }

/-- A region compares what it holds, if anything, with a version. -/
def compareAt (held : String → Option Version) (comparison : String × Version) : String → Option Version :=
  Function.update held comparison.1 (some ((held comparison.1).elim comparison.2 fun here => resolved strategy topic key here comparison.2))

/-- The regions hold what they wrote. -/
def Written (versions : List Version) (held : String → Option Version) : Prop :=
  (∀ region v, held region = some v → v ∈ versions ∧ v.region = region) ∧ ∀ v ∈ versions, (held v.region).isSome = true

/-- Every region has compared its version with all, and with no others. -/
def AllCompared (regions : List String) (versions : List Version) (comparisons : List (String × Version)) : Prop :=
  (∀ comparison ∈ comparisons, comparison.2 ∈ versions) ∧ ∀ region ∈ regions, ∀ v ∈ versions, (region, v) ∈ comparisons

/-- All regions hold the same value, whatever each wrote last and in whatever order they compare. -/
def Converges (regions : List String) (versions : List Version) : Prop :=
  ∀ held comparisons, Written versions held → AllCompared regions versions comparisons → ∀ a ∈ regions, ∀ b ∈ regions,
    (comparisons.foldl (compareAt strategy topic key) held a).map Version.value =
      (comparisons.foldl (compareAt strategy topic key) held b).map Version.value

/-- A version that no other one is preferred to. -/
def Unbeaten (versions : List Version) (v : Version) : Prop :=
  v ∈ versions ∧ ∀ w ∈ versions, strategy.resolve (conflictOf topic key v w) = .keepLocal

/-! ## The rank of a version -/

/-- Where a region is listed, its place counts, and else the timestamp. -/
def rank (v : Version) : Nat ×ₗ Nat :=
  match strategy with
  | .regionPriority priority =>
    match priority.idxOf? v.region with
    | some i => toLex (priority.length - i, 0)
    | none => toLex (0, v.timestamp.toNat)
  | _ => toLex (0, v.timestamp.toNat)

theorem lastWriterWins_eq (here there : Version) :
    lastWriterWins (conflictOf topic key here there) =
      if (toLex (0, there.timestamp.toNat) : Nat ×ₗ Nat) ≤ toLex (0, here.timestamp.toNat) then .keepLocal else .keepRemote := by
  have order : there.timestamp ≤ here.timestamp ↔ (toLex (0, there.timestamp.toNat) : Nat ×ₗ Nat) ≤ toLex (0, here.timestamp.toNat) := by
    rw [Prod.Lex.toLex_le_toLex, BitVec.le_def]
    simp
  exact if_congr order rfl rfl

/-- The resolvers keep the local version exactly if the remote one does not rank higher. -/
theorem resolve_eq (here there : Version) :
    strategy.resolve (conflictOf topic key here there) = if rank strategy there ≤ rank strategy here then .keepLocal else .keepRemote := by
  cases strategy with
  | lastWriterWins => exact lastWriterWins_eq topic key here there
  | custom => exact lastWriterWins_eq topic key here there
  | regionPriority priority =>
    change regionPriority priority (conflictOf topic key here there) = _
    have within {region : String} {i : Nat} (listed : priority.idxOf? region = some i) : i < priority.length := by
      obtain ⟨bound, -⟩ := findIdx?_eq_some_iff_getElem.mp listed
      exact bound
    unfold regionPriority rank
    cases isLocal : priority.idxOf? here.region with
    | some l =>
      cases isRemote : priority.idxOf? there.region with
      | some r =>
        have lBound := within isLocal
        have rBound := within isRemote
        simp only [conflictOf, isLocal, isRemote, Prod.Lex.toLex_le_toLex]
        refine if_congr ?_ rfl rfl
        omega
      | none =>
        have lBound := within isLocal
        simp only [conflictOf, isLocal, isRemote, Prod.Lex.toLex_le_toLex]
        rw [if_pos]
        omega
    | none =>
      cases isRemote : priority.idxOf? there.region with
      | some r =>
        have rBound := within isRemote
        simp only [conflictOf, isLocal, isRemote, Prod.Lex.toLex_le_toLex]
        rw [if_neg]
        omega
      | none =>
        simp only [conflictOf, isLocal, isRemote]
        exact lastWriterWins_eq topic key here there

theorem resolved_eq (here there : Version) : resolved strategy topic key here there = prefer (rank strategy) here there := by
  unfold resolved prefer
  rw [resolve_eq]
  split_ifs <;> rfl

theorem unbeaten_iff {versions : List Version} {v : Version} : Unbeaten strategy topic key versions v ↔ Greatest (rank strategy) versions v := by
  refine and_congr_right fun _ => forall₂_congr fun w _ => ?_
  rw [resolve_eq]
  split_ifs with least <;> simp [least]

/-- A region holds what its own comparisons leave. -/
theorem held_eq (held : String → Option Version) (comparisons : List (String × Version)) (region : String) :
    comparisons.foldl (compareAt strategy topic key) held region =
      ((comparisons.filter fun comparison => comparison.1 = region).map Prod.snd).foldl (offer (rank strategy)) (held region) := by
  induction comparisons generalizing held with
  | nil => rfl
  | cons comparison rest ih =>
    rw [foldl_cons, ih]
    by_cases here : comparison.1 = region
    · rw [filter_cons_of_pos (by simpa using here), map_cons, foldl_cons]
      subst here
      rw [compareAt, Function.update_self, offer]
      simp only [resolved_eq]
    · rw [filter_cons_of_neg (by simpa using here), compareAt, Function.update_of_ne (Ne.symm here)]

/-! ## Convergence -/

variable {strategy topic key} {regions : List String} {versions : List Version}

theorem converges_of_one_value (one : ∀ v w, Unbeaten strategy topic key versions v → Unbeaten strategy topic key versions w → v.value = w.value) :
    Converges strategy topic key regions versions := by
  intro held comparisons written compared
  -- a region that has compared with all versions holds one that is unbeaten
  have unbeaten {region : String} (isRegion : region ∈ regions) {v : Version}
      (final : comparisons.foldl (compareAt strategy topic key) held region = some v) : Unbeaten strategy topic key versions v := by
    rw [held_eq] at final
    obtain ⟨source, -, above⟩ := foldl_offer final
    refine (unbeaten_iff strategy topic key).mpr ⟨?_, fun w inside => above w ?_⟩
    · obtain first | offered := source
      · exact (written.1 region v first).1
      · obtain ⟨comparison, isOne, rfl⟩ := mem_map.mp offered
        exact compared.1 comparison (mem_of_mem_filter isOne)
    · exact mem_map.mpr ⟨(region, w), mem_filter.mpr ⟨compared.2 region isRegion w inside, decide_eq_true rfl⟩, rfl⟩
  have holds {region : String} (isRegion : region ∈ regions) {v : Version} (inside : v ∈ versions) :
      (comparisons.foldl (compareAt strategy topic key) held region).isSome = true := by
    rw [held_eq]
    apply foldl_offer_isSome
    left
    exact ne_nil_of_mem
      (mem_map.mpr ⟨(region, v), mem_filter.mpr ⟨compared.2 region isRegion v inside, decide_eq_true rfl⟩, rfl⟩)
  intro a isA b isB
  cases finalA : comparisons.foldl (compareAt strategy topic key) held a with
  | none =>
    cases finalB : comparisons.foldl (compareAt strategy topic key) held b with
    | none => rfl
    | some w =>
      have some := holds isA (unbeaten isB finalB).1
      rw [finalA] at some
      cases some
  | some v =>
    obtain ⟨w, finalB⟩ := Option.isSome_iff_exists.mp (holds isB (unbeaten isA finalA).1)
    rw [finalB]
    exact congrArg some (one v w (unbeaten isA finalA) (unbeaten isB finalB))

/-- Every region holds a version of its own, and the regions of `v` and `w` hold these. -/
def holding (versions : List Version) (v w : Version) (region : String) : Option Version :=
  if region = v.region then some v else if region = w.region then some w else versions.find? fun u => u.region = region

theorem written_holding {v w : Version} (isV : v ∈ versions) (isW : w ∈ versions) : Written versions (holding versions v w) := by
  constructor
  · intro region u held
    unfold holding at held
    split_ifs at held with ofV ofW
    · rw [← Option.some.inj held]
      exact ⟨isV, ofV.symm⟩
    · rw [← Option.some.inj held]
      exact ⟨isW, ofW.symm⟩
    · exact ⟨mem_of_find?_eq_some held, by simpa using find?_some held⟩
  · intro u inside
    unfold holding
    split_ifs
    · rfl
    · rfl
    · exact find?_isSome.mpr ⟨u, inside, decide_eq_true rfl⟩

/-- Two regions, of which each keeps an unbeaten version, have the same value only if these have. -/
theorem value_eq_of_converges (converges : Converges strategy topic key regions versions) {v w : Version}
    (greatestV : Greatest (rank strategy) versions v) (greatestW : Greatest (rank strategy) versions w) (isRegion : v.region ∈ regions)
    {region : String} (isOther : region ∈ regions) (other : region ≠ v.region)
    (takes : offer (rank strategy) (holding versions v w region) w = some w) : v.value = w.value := by
  have compared : AllCompared regions versions ((region, w) :: regions.flatMap fun r => versions.map fun u => (r, u)) := by
    constructor
    · intro comparison inside
      obtain rfl | later := mem_cons.mp inside
      · exact greatestW.1
      · obtain ⟨r, -, listed⟩ := mem_flatMap.mp later
        obtain ⟨u, isVersion, rfl⟩ := mem_map.mp listed
        exact isVersion
    · intro r isR u isVersion
      exact mem_cons_of_mem _ (mem_flatMap.mpr ⟨r, isR, mem_map.mpr ⟨u, isVersion, rfl⟩⟩)
  have same := converges _ _ (written_holding greatestV.1 greatestW.1) compared v.region isRegion region isOther
  -- what a region is offered is a version
  have offered {r : String} {u : Version} (inside : u ∈ (((regions.flatMap fun r => versions.map fun u => (r, u)).filter fun comparison =>
      comparison.1 = r).map Prod.snd)) : u ∈ versions := by
    obtain ⟨comparison, isOne, rfl⟩ := mem_map.mp inside
    exact compared.1 comparison (mem_cons_of_mem _ (mem_of_mem_filter isOne))
  have first : holding versions v w v.region = some v := if_pos rfl
  rw [held_eq, held_eq, filter_cons_of_neg (by simpa using other), filter_cons_of_pos (by simp), map_cons, foldl_cons, takes,
    first, foldl_offer_of_greatest fun u inside => greatestV.2 u (offered inside),
    foldl_offer_of_greatest fun u inside => greatestW.2 u (offered inside)] at same
  exact Option.some.inj same

/-- **The regions converge exactly if there is but one, or the versions that no other is preferred to
have one value.** -/
theorem regions_converge_iff (strategy : ConflictStrategy) (topic : String) (key : Bytes) {regions : List String} {versions : List Version}
    (writtenIn : ∀ v ∈ versions, v.region ∈ regions) :
    Converges strategy topic key regions versions ↔ (∀ a ∈ regions, ∀ b ∈ regions, a = b) ∨
      ∀ v w, Unbeaten strategy topic key versions v → Unbeaten strategy topic key versions w → v.value = w.value := by
  by_cases single : ∀ a ∈ regions, ∀ b ∈ regions, a = b
  · refine iff_of_true (fun held comparisons _ _ a isA b isB => ?_) (.inl single)
    rw [single a isA b isB]
  rw [or_iff_right single]
  refine ⟨fun converges v w unbeatenV unbeatenW => ?_, converges_of_one_value⟩
  push Not at single
  have greatestV := (unbeaten_iff strategy topic key).mp unbeatenV
  have greatestW := (unbeaten_iff strategy topic key).mp unbeatenW
  have self (u : Version) : prefer (rank strategy) u u = u := if_pos le_rfl
  -- two regions hold the versions from the beginning
  have ofRegions {u u' : Version} (greatest : Greatest (rank strategy) versions u) (greatest' : Greatest (rank strategy) versions u')
      (apart : u'.region ≠ u.region) : u.value = u'.value := by
    apply value_eq_of_converges converges greatest greatest' (writtenIn u greatest.1) (writtenIn u' greatest'.1) apart
    rw [holding, if_neg apart, if_pos rfl]
    exact congrArg some (self u')
  by_cases sameRegion : w.region = v.region
  · obtain ⟨region, isRegion, other⟩ : ∃ region ∈ regions, region ≠ v.region := by
      obtain ⟨a, isA, b, isB, apart⟩ := single
      by_cases isV : a = v.region
      · exact ⟨b, isB, isV ▸ apart.symm⟩
      · exact ⟨a, isA, isV⟩
    by_cases own : ∃ u, Greatest (rank strategy) versions u ∧ u.region = region
    · obtain ⟨u, greatest, ofRegion⟩ := own
      exact (ofRegions greatestV greatest (ofRegion ▸ other)).trans
        (ofRegions greatestW greatest (by rw [ofRegion, sameRegion]; exact other)).symm
    · apply value_eq_of_converges converges greatestV greatestW (writtenIn v greatestV.1) isRegion other
      rw [holding, if_neg other, if_neg (sameRegion ▸ other)]
      cases held : versions.find? fun u => u.region = region with
      | none => rfl
      | some u =>
        have ofRegion : u.region = region := by simpa using find?_some held
        apply congrArg some
        apply if_neg
        intro ranked
        exact own ⟨u, ⟨mem_of_find?_eq_some held, fun x inside => (greatestW.2 x inside).trans ranked⟩, ofRegion⟩
  · exact ofRegions greatestV greatestW sameRegion

namespace Regions

def east : Version := ⟨[1], 5, "us-east-1"⟩

def west : Version := ⟨[2], 5, "us-west-2"⟩

def later : Version := ⟨[3], 6, "us-west-2"⟩

end Regions

open Regions

theorem later_converges : Converges .lastWriterWins "orders" [] ["us-east-1", "us-west-2"] [east, later] :=
  (regions_converge_iff .lastWriterWins "orders" [] (by decide)).mpr (.inr (by
    intro v w unbeatenV unbeatenW
    have last {u : Version} (unbeaten : Unbeaten .lastWriterWins "orders" [] [east, later] u) : u = later := by
      obtain ⟨inside, keeps⟩ := unbeaten
      obtain rfl | rest := mem_cons.mp inside
      · exact absurd (keeps later (by decide)) (by decide)
      · exact mem_singleton.mp rest
    rw [last unbeatenV, last unbeatenW]))

/-- Two regions that wrote at the same time keep their own values. -/
theorem same_time_diverges : ¬ ∀ (strategy : ConflictStrategy) (topic : String) (key : Bytes) (regions : List String) (versions : List Version),
    (strategy = .lastWriterWins ∨ ∃ priority, strategy = .regionPriority priority) → (∀ v ∈ versions, v.region ∈ regions) → Converges strategy topic key regions versions := by
  intro always
  have converges := always .lastWriterWins "orders" [] ["us-east-1", "us-west-2"] [east, west] (.inl rfl) (by decide)
  have same := converges (holding [east, west] east west)
    [("us-east-1", east), ("us-east-1", west), ("us-west-2", east), ("us-west-2", west)]
    (written_holding (by decide) (by decide)) ⟨by decide, by decide⟩ "us-east-1" (by decide) "us-west-2" (by decide)
  revert same
  decide

end StreamHouse.Api
