import StreamHouse.Lib.WrappingLoops
import StreamHouse.Sql.ExactWindows
import StreamHouse.Sql.SessionSweep

/-!
# The loops of the windows

The groupings with the arithmetic of `i64`: a division may panic, and the counter of the hopping windows wraps, so that
its loop may go on for ever.
-/

namespace StreamHouse.Sql

open Lib OrderedMap HashMaps I64 Multiples

variable (display : Json → String)

def tumbleKeyI64 (size : Int) (groupBy : List String) (msg : MessageRow) : Option WindowKey :=
  (checkedDiv msg.timestamp size).map fun quotient =>
    let windowStart := quotient * size
    windowKey windowStart (wrap (windowStart + size)) (extractGroupKey display msg groupBy)

/-- Nothing, where a division panics. -/
def groupIntoTumbleWindowsI64 (messages : List MessageRow) (size : Int) (groupBy : List String) : Option WindowGroups :=
  messages.foldlM (fun windows msg => (tumbleKeyI64 display size groupBy msg).map fun key => push windows (key, msg)) []

/-- The messages of the window at the counter. -/
def visitHop (messages : List MessageRow) (size : Int) (groupBy : List String) (windowStart : Int) (windows : WindowGroups) : WindowGroups :=
  let windowEnd := wrap (windowStart + size)
  (messages.filter fun msg => decide (windowStart ≤ msg.timestamp) && decide (msg.timestamp < windowEnd)).foldl
    (fun windows msg => push windows (windowKey windowStart windowEnd (extractGroupKey display msg groupBy), msg)) windows

/-- One turn of the loop. -/
def hopTurn (messages : List MessageRow) (size slide : Int) (groupBy : List String) (s : Int × WindowGroups) : Int × WindowGroups :=
  (wrap (s.1 + slide), visitHop display messages size groupBy s.1 s.2)

/-- Nothing, where the division panics or there are not enough turns. -/
def groupIntoHopWindowsI64 (fuel : Nat) (messages : List MessageRow) (size slide : Int) (groupBy : List String) : Option WindowGroups :=
  if messages = [] then some []
  else
    match checkedDiv (minTimestamp messages) slide with
    | none => none
    | some quotient =>
      (repeatWhile (fun s => decide (s.1 ≤ maxTimestamp messages)) (hopTurn display messages size slide groupBy) fuel
        (quotient * slide, [])).map Prod.snd

def groupIntoWindowsI64 (fuel : Nat) (iteration : HashOrder (Option String)) (window : WindowType) (messages : List MessageRow)
    (groupBy : List String) : Option WindowGroups :=
  match window with
  | .tumble size => groupIntoTumbleWindowsI64 display messages size groupBy
  | .hop size slide => groupIntoHopWindowsI64 display fuel messages size slide groupBy
  | .session gap => some (groupIntoSessionWindowsI64 display iteration messages gap groupBy)

/-- The grouping ends. -/
def GroupingEnds (iteration : HashOrder (Option String)) (window : WindowType) (messages : List MessageRow) (groupBy : List String) : Prop :=
  ∃ fuel, (groupIntoWindowsI64 display fuel iteration window messages groupBy).isSome

/-- What the grouping needs: divisors of the timestamps, and for hopping windows a step that gets past the last
timestamp. -/
def WindowFits (window : WindowType) (messages : List MessageRow) : Prop :=
  match window with
  | .tumble size => ∀ msg ∈ messages, size ≠ 0 ∧ ¬ (msg.timestamp = least ∧ size = -1)
  | .hop _ slide => messages ≠ [] → (slide ≠ 0 ∧ ¬ (minTimestamp messages = least ∧ slide = -1)) ∧
      maxTimestamp messages + Int.gcd slide (2 ^ 64 : Nat) < 2 ^ 63
  | .session _ => True

/-- The sizes of a window are `i64` numbers. -/
def SizesFit : WindowType → Prop
  | .tumble size => Fits size
  | .hop size slide => Fits size ∧ Fits slide
  | .session gap => Fits gap

variable {display} {messages : List MessageRow} {size slide : Int} {groupBy : List String}

theorem tumble_ends : (groupIntoTumbleWindowsI64 display messages size groupBy).isSome ↔
    ∀ msg ∈ messages, size ≠ 0 ∧ ¬ (msg.timestamp = least ∧ size = -1) := by
  unfold groupIntoTumbleWindowsI64
  have loop : ∀ windows : WindowGroups, (messages.foldlM (fun windows msg =>
      (tumbleKeyI64 display size groupBy msg).map fun key => push windows (key, msg)) windows).isSome ↔
      ∀ msg ∈ messages, (checkedDiv msg.timestamp size).isSome := by
    induction messages with
    | nil => simp
    | cons msg messages ih =>
      intro windows
      rw [List.foldlM_cons, List.forall_mem_cons, tumbleKeyI64]
      cases checkedDiv msg.timestamp size with
      | none => simp
      | some quotient => simpa using ih _
  rw [loop]
  simp only [checkedDiv_isSome]

/-- The greatest power of two in a step that is not zero divides half of the range. -/
theorem gcd_dvd_half (fits : Fits slide) (nonzero : slide ≠ 0) : Int.gcd slide (2 ^ 64 : Nat) ∣ 2 ^ 63 := by
  obtain ⟨low, high⟩ := fits
  unfold least at low
  obtain ⟨j, -, isPower⟩ := (Nat.dvd_prime_pow Nat.prime_two).mp (Int.natCast_dvd_natCast.mp (Int.gcd_dvd_right slide (2 ^ 64 : Nat)))
  have small : Int.gcd slide (2 ^ 64 : Nat) ≤ slide.natAbs :=
    Nat.le_of_dvd (Int.natAbs_pos.mpr nonzero) (Int.natCast_dvd.mp (Int.gcd_dvd_left slide (2 ^ 64 : Nat)))
  rw [isPower] at small ⊢
  have least : 2 ^ j ≤ 2 ^ 63 := by omega
  exact Nat.pow_dvd_pow 2 ((Nat.pow_le_pow_iff_right (by decide)).mp least)

theorem fits_truncated {a b : Int} (fits : Fits a) : Fits (truncated b a) := by
  obtain ⟨low, high⟩ := fits
  have split := truncated_add_tmod b a
  have small := Nat.mod_le a.natAbs b.natAbs
  rw [← Int.natAbs_tmod] at small
  unfold Fits
  rcases Int.le_total 0 a with sign | sign
  · have rest := Int.tmod_nonneg b sign
    unfold least at low ⊢
    omega
  · have rest := Int.tmod_nonneg b (Int.neg_nonneg.mpr sign)
    rw [Int.neg_tmod] at rest
    unfold least at low ⊢
    omega

/-- The counter after some turns. -/
theorem hopTurn_counter (k : Nat) (s : Int × WindowGroups) :
    ((hopTurn display messages size slide groupBy)^[k] s).1 = (fun n => wrap (n + slide))^[k] s.1 := by
  induction k generalizing s with
  | zero => rfl
  | succ k ih =>
    rw [Function.iterate_succ_apply, ih]
    rfl

theorem hop_ends (fits : Fits slide) (stamps : ∀ msg ∈ messages, Fits msg.timestamp) :
    (∃ fuel, (groupIntoHopWindowsI64 display fuel messages size slide groupBy).isSome) ↔
      (messages ≠ [] → (slide ≠ 0 ∧ ¬ (minTimestamp messages = least ∧ slide = -1)) ∧
        maxTimestamp messages + Int.gcd slide (2 ^ 64 : Nat) < 2 ^ 63) := by
  unfold groupIntoHopWindowsI64
  by_cases empty : messages = []
  · simp [empty]
  simp only [if_neg empty]
  rw [forall_prop_of_true empty, ← checkedDiv_isSome]
  have first : Fits (truncated slide (minTimestamp messages)) := by
    obtain ⟨msg, inside, least⟩ := minTimestamp_mem empty
    exact fits_truncated (least ▸ stamps msg inside)
  cases division : checkedDiv (minTimestamp messages) slide with
  | none => simp
  | some quotient =>
    have divides : slide ≠ 0 := (checkedDiv_isSome.mp (by rw [division]; rfl)).1
    have isFirst : quotient * slide = truncated slide (minTimestamp messages) := by
      unfold checkedDiv at division
      split_ifs at division
      rw [← Option.some.inj division, truncated]
    have counter : ∀ k, ((hopTurn display messages size slide groupBy)^[k] (truncated slide (minTimestamp messages), [])).1 =
        (truncated slide (minTimestamp messages) + k * slide).bmod (2 * 2 ^ 63) := fun k => by
      rw [hopTurn_counter]
      exact iterate_bmod (wrap_of_fits first) k
    simp only [isFirst, Option.isSome_map]
    rw [repeatWhile_ends]
    simp only [counter, decide_eq_false_iff_not, Int.not_le]
    rw [exists_turn_above (gcd_dvd_half fits divides) (by decide)
      (Int.dvd_trans (Int.gcd_dvd_left slide (2 ^ 64 : Nat)) (dvd_truncated slide (minTimestamp messages)))]
    simp

/-- The grouping ends exactly where the window fits the messages. -/
theorem grouping_ends_iff (iteration : HashOrder (Option String)) {window : WindowType} (fits : SizesFit window)
    (stamps : ∀ msg ∈ messages, Fits msg.timestamp) :
    GroupingEnds display iteration window messages groupBy ↔ WindowFits window messages := by
  unfold GroupingEnds
  cases window with
  | tumble size => exact (exists_const Nat).trans tumble_ends
  | hop size slide => exact hop_ends fits.2 stamps
  | session gap => exact iff_of_true ⟨0, rfl⟩ trivial

end StreamHouse.Sql
