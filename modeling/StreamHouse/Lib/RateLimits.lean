import Mathlib.Algebra.Order.Ring.Int
import Mathlib.Data.List.Basic

/-!
# What a rate limit admits

The account of one limiter: time passes, a limit comes into force, an amount is admitted. A limit is a
rate and a burst, and `Within` is what a limiter is for: whatever part of the account is looked at,
the amounts admitted in it are at most the burst of a limit in force there and what the rates gain in
its time. Rates gain in units of which an admitted token is `scale`.

A limiter that keeps a level shows it with `Kept`: for every part that ends now, the level is what is
left of that bound. The rules say what each entry allows the level to do. A new limit may raise it as far
as it raises the burst, as long as no earlier burst was greater.
-/

namespace StreamHouse.Lib.Account

open List Option

structure Limit where
  rate : Int
  burst : Int
deriving DecidableEq

inductive Entry where
  | pass (time : Nat)
  | limit (new : Limit)
  | take (amount : Int)
deriving DecidableEq

/-- The limit in force after the entries. -/
def limitAfter : Option Limit → List Entry → Option Limit
  | now, [] => now
  | now, .pass _ :: rest => limitAfter now rest
  | _, .limit new :: rest => limitAfter (some new) rest
  | now, .take _ :: rest => limitAfter now rest

/-- The limits in force during the entries. -/
def inForce : Option Limit → List Entry → List Limit
  | now, [] => now.toList
  | now, .pass _ :: rest => inForce now rest
  | now, .limit new :: rest => now.toList ++ inForce (some new) rest
  | now, .take _ :: rest => inForce now rest

/-- The integral of the rate. -/
def gained : Option Limit → List Entry → Int
  | _, [] => 0
  | now, .pass time :: rest => (now.elim 0 Limit.rate) * time + gained now rest
  | _, .limit new :: rest => gained (some new) rest
  | now, .take _ :: rest => gained now rest

def admitted : List Entry → Int
  | [] => 0
  | .take amount :: rest => amount + admitted rest
  | .pass _ :: rest => admitted rest
  | .limit _ :: rest => admitted rest

/-- **What a limiter is for.** Where no limit is in force yet, nothing is admitted. -/
def Within (scale : Int) (entries : List Entry) : Prop :=
  ∀ before middle after, entries = before ++ middle ++ after →
    (inForce (limitAfter none before) middle = [] ∧ admitted middle = 0) ∨
      ∃ limit ∈ inForce (limitAfter none before) middle,
        scale * admitted middle ≤ scale * limit.burst + gained (limitAfter none before) middle

/-- The same of one part, with a level that is still to be admitted. -/
def Covers (scale : Int) (now : Option Limit) (entries : List Entry) (level : Int) : Prop :=
  (inForce now entries = [] ∧ admitted entries = 0 ∧ level ≤ 0) ∨
    ∃ limit ∈ inForce now entries, scale * admitted entries + level ≤ scale * limit.burst + gained now entries

structure Kept (scale level : Int) (entries : List Entry) : Prop where
  within : Within scale entries
  covered : ∀ before after, entries = before ++ after → Covers scale (limitAfter none before) after level
  nonneg : 0 ≤ level

theorem limitAfter_append (now : Option Limit) (first second : List Entry) :
    limitAfter now (first ++ second) = limitAfter (limitAfter now first) second := by
  induction first generalizing now with
  | nil => rfl
  | cons entry first ih => cases entry <;> exact ih _

theorem gained_append (now : Option Limit) (first second : List Entry) :
    gained now (first ++ second) = gained now first + gained (limitAfter now first) second := by
  induction first generalizing now with
  | nil => exact (Int.zero_add _).symm
  | cons entry first ih =>
    cases entry with
    | pass time =>
      simp only [cons_append, gained, limitAfter, ih]
      omega
    | limit new => exact ih _
    | take amount => exact ih _

theorem admitted_append (first second : List Entry) : admitted (first ++ second) = admitted first + admitted second := by
  induction first with
  | nil => exact (Int.zero_add _).symm
  | cons entry first ih =>
    cases entry with
    | pass time => exact ih
    | limit new => exact ih
    | take amount =>
      simp only [cons_append, admitted, ih]
      omega

variable {now : Option Limit} {entries : List Entry} {scale level level' : Int}

/-- A limit that ends up in force was in force during the entries. -/
theorem limitAfter_mem {limit : Limit} (after : limitAfter now entries = some limit) : limit ∈ inForce now entries := by
  induction entries generalizing now with
  | nil => exact mem_toList.mpr after
  | cons entry entries ih =>
    cases entry with
    | pass time => exact ih after
    | limit new => exact mem_append_right _ (ih after)
    | take amount => exact ih after

theorem mem_inForce_of_start {limit : Limit} : limit ∈ inForce (some limit) entries := by
  induction entries with
  | nil => exact mem_cons_self
  | cons entry entries ih =>
    cases entry with
    | pass time => exact ih
    | limit new => exact mem_append_left _ mem_cons_self
    | take amount => exact ih

/-- Both parts of a list of entries have the limit at the cut. -/
theorem mem_inForce_append {first second : List Entry} {limit : Limit} :
    limit ∈ inForce now (first ++ second) ↔ limit ∈ inForce now first ∨ limit ∈ inForce (limitAfter now first) second := by
  induction first generalizing now with
  | nil =>
    refine ⟨.inr, Or.rec (fun start => ?_) id⟩
    rw [mem_toList.mp start]
    exact mem_inForce_of_start
  | cons entry first ih =>
    cases entry with
    | pass time => exact ih
    | limit new =>
      simp only [cons_append, inForce, limitAfter, mem_append, ih]
      exact or_assoc.symm
    | take amount => exact ih

theorem inForce_eq_nil : inForce now entries = [] ↔ limitAfter now entries = none := by
  induction entries generalizing now with
  | nil => exact toList_eq_nil_iff
  | cons entry entries ih =>
    cases entry with
    | pass time => exact ih
    | limit new =>
      rw [inForce, limitAfter, append_eq_nil_iff, ih, and_iff_right_iff_imp]
      intro never
      have started : new ∈ inForce (some new) entries := mem_inForce_of_start
      rw [ih.mpr never] at started
      exact absurd started not_mem_nil
    | take amount => exact ih

/-- Nothing is gained before there is a limit. -/
theorem gained_of_limitAfter (never : limitAfter now entries = none) : gained now entries = 0 := by
  induction entries generalizing now with
  | nil => rfl
  | cons entry entries ih =>
    cases entry with
    | pass time =>
      cases now with
      | none =>
        rw [gained, ih never]
        simp
      | some limit =>
        have started : limit ∈ inForce (some limit) (.pass time :: entries) := mem_inForce_of_start
        rw [inForce_eq_nil.mpr never] at started
        exact absurd started not_mem_nil
    | limit new => exact ih never
    | take amount => exact ih never

theorem Covers.mono (covers : Covers scale now entries level)
    (lower : level' ≤ level) : Covers scale now entries level' := by
  rcases covers with ⟨nothing, taken, level0⟩ | ⟨limit, member, bound⟩
  · exact .inl ⟨nothing, taken, by omega⟩
  · exact .inr ⟨limit, member, by omega⟩

/-- With no part left to look at, the level is at most the burst in force. -/
theorem Kept.level_le (kept : Kept scale level entries) :
    level ≤ (limitAfter none entries).elim 0 fun limit => scale * limit.burst := by
  have last := kept.covered entries [] (append_nil _).symm
  cases now : limitAfter none entries with
  | none => simpa [now, Covers, inForce, admitted] using last
  | some limit => simpa [now, Covers, inForce, admitted, gained] using last

theorem Kept.nil (scale : Int) : Kept scale 0 [] where
  within before middle after cut := by
    have empty : before = [] ∧ middle = [] := by simp_all
    rw [empty.1, empty.2]
    exact .inl ⟨rfl, rfl⟩
  covered before after cut := by
    obtain ⟨rfl, rfl⟩ := append_eq_nil_iff.mp cut.symm
    exact .inl ⟨rfl, rfl, Int.le_refl 0⟩
  nonneg := Int.le_refl 0

section

variable (kept : Kept scale level entries)
include kept

theorem Kept.lower
    (lower : level' ≤ level) (nonneg : 0 ≤ level') : Kept scale level' entries :=
  ⟨kept.within, fun before after cut => (kept.covered before after cut).mono lower, nonneg⟩

/-- **One entry more**: the parts that end before it are as they were, and of those that end with it the
level is the bound. -/
theorem Kept.push {entry : Entry}
    (nonneg : 0 ≤ level') (ends : Covers scale (limitAfter none (entries ++ [entry])) [] level')
    (extending : ∀ before after, entries = before ++ after → Covers scale (limitAfter none before) after level →
      Covers scale (limitAfter none before) (after ++ [entry]) level') :
    Kept scale level' (entries ++ [entry]) := by
  have covered : ∀ before after, entries ++ [entry] = before ++ after → Covers scale (limitAfter none before) after level' := by
    intro before after cut
    rcases eq_nil_or_concat' after with rfl | ⟨after, last, rfl⟩
    · rw [append_nil] at cut
      rw [← cut]
      exact ends
    · rw [← append_assoc] at cut
      obtain ⟨front, back⟩ := append_inj' cut rfl
      rw [← (cons.inj back).1]
      exact extending before after front (kept.covered before after front)
  refine ⟨fun before middle after cut => ?_, covered, nonneg⟩
  rcases eq_nil_or_concat' after with rfl | ⟨after, last, rfl⟩
  · rw [append_nil] at cut
    rcases covered before middle cut with ⟨nothing, taken, -⟩ | ⟨limit, member, bound⟩
    · exact .inl ⟨nothing, taken⟩
    · exact .inr ⟨limit, member, by omega⟩
  · rw [← append_assoc] at cut
    exact kept.within before middle after (append_inj' cut rfl).1

theorem Kept.pass {time : Nat}
    (nonneg : 0 ≤ level') (gain : level' ≤ level + (limitAfter none entries).elim 0 Limit.rate * time)
    (capped : level' ≤ (limitAfter none entries).elim 0 fun limit => scale * limit.burst) :
    Kept scale level' (entries ++ [.pass time]) := by
  refine kept.push nonneg ?_ fun before after cut covers => ?_
  · rw [limitAfter_append, limitAfter]
    cases now : limitAfter none entries with
    | none => exact .inl ⟨rfl, rfl, by simpa [now] using capped⟩
    | some limit => exact .inr ⟨limit, mem_cons_self, by simpa [admitted, gained, now] using capped⟩
  · rw [cut, limitAfter_append] at gain
    rcases covers with ⟨nothing, taken, level0⟩ | ⟨limit, member, bound⟩
    · have never := inForce_eq_nil.mp nothing
      rw [never, elim_none] at gain
      refine .inl ⟨?_, by rw [admitted_append, taken]; rfl, by omega⟩
      rw [inForce_eq_nil, limitAfter_append, never]
      rfl
    · refine .inr ⟨limit, mem_inForce_append.mpr (.inl member), ?_⟩
      simp only [admitted_append, gained_append, admitted, gained, Int.add_zero]
      omega

theorem Kept.take {amount : Int}
    (nonneg : 0 ≤ level') (positive : 0 < scale * amount) (spent : level' + scale * amount ≤ level) :
    Kept scale level' (entries ++ [.take amount]) := by
  have capped := kept.level_le
  refine kept.push nonneg ?_ fun before after cut covers => ?_
  · rw [limitAfter_append, limitAfter]
    cases now : limitAfter none entries with
    | none =>
      rw [now, elim_none] at capped
      omega
    | some limit =>
      rw [now, elim_some] at capped
      refine .inr ⟨limit, mem_cons_self, ?_⟩
      simp only [admitted, gained]
      omega
  · rcases covers with ⟨nothing, taken, level0⟩ | ⟨limit, member, bound⟩
    · omega
    · refine .inr ⟨limit, mem_inForce_append.mpr (.inl member), ?_⟩
      simp only [admitted_append, gained_append, admitted, gained, Int.add_zero, Int.mul_add]
      omega

/-- **A new limit** may raise the level by what it adds to the greatest burst so far. -/
theorem Kept.limit {new : Limit}
    (pos : 0 ≤ scale) (nonneg : 0 ≤ level') (capped : level' ≤ scale * new.burst)
    (raise : ∀ last, limitAfter none entries = some last → level' ≤ level ∨
      (∀ earlier ∈ inForce none entries, earlier.burst ≤ last.burst) ∧ level' ≤ level + scale * (new.burst - last.burst)) :
    Kept scale level' (entries ++ [.limit new]) := by
  refine kept.push nonneg ?_ fun before after cut covers => ?_
  · rw [limitAfter_append, limitAfter, limitAfter]
    exact .inr ⟨new, mem_cons_self, by simpa [admitted, gained] using capped⟩
  · have added : new ∈ inForce (limitAfter none before) (after ++ [.limit new]) :=
      limitAfter_mem (by rw [limitAfter_append]; rfl)
    rcases covers with ⟨nothing, taken, level0⟩ | ⟨limit, member, bound⟩
    · refine .inr ⟨new, added, ?_⟩
      simp only [admitted_append, gained_append, admitted, gained, taken, gained_of_limitAfter (inForce_eq_nil.mp nothing), Int.mul_zero, Int.add_zero]
      omega
    · cases now : limitAfter none entries with
      | none =>
        rw [cut, limitAfter_append] at now
        rw [inForce_eq_nil.mpr now] at member
        exact absurd member not_mem_nil
      | some last =>
        rcases raise last now with lower | ⟨greatest, raised⟩
        · refine .inr ⟨limit, mem_inForce_append.mpr (.inl member), ?_⟩
          simp only [admitted_append, gained_append, admitted, gained, Int.add_zero]
          omega
        · have least : scale * limit.burst ≤ scale * last.burst :=
            Int.mul_le_mul_of_nonneg_left (greatest limit (by rw [cut]; exact mem_inForce_append.mpr (.inr member))) pos
          refine .inr ⟨new, added, ?_⟩
          simp only [admitted_append, gained_append, admitted, gained, Int.add_zero]
          rw [Int.mul_sub] at raised
          omega


end
end StreamHouse.Lib.Account
