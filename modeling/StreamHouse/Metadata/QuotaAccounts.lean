import StreamHouse.Metadata.Quota

/-!
# The account of a token bucket

What a bucket may still give is its credit: its tokens and what the time since its last refill is worth, at
most the burst. In units of which a token is a million, a rate gains its own number in a
microsecond. The credit is a level as `Account.Kept` wants it. It falls when a bucket is refilled, since
what is less than a thousandth of a token is lost, and when tokens are taken, unless the bucket
is over its burst by then; a new rate is worth its number for all of the time since the last
refill, and has to be the greatest so far not to give more than it may.
-/

namespace StreamHouse.Metadata.Quota
open Lib Account Option

theorem scaled_of_fits {n : Int} (nonneg : 0 ≤ n) (fits : n * 1000 < 2 ^ 64) : (scaled n : Int) = n * 1000 := by
  unfold scaled asU64
  omega

theorem wrap_double {rate : Int} (nonneg : 0 ≤ rate) (fits : rate < 2 ^ 62) : I64.wrap (rate * 2) = rate * 2 := by
  apply I64.wrap_of_fits
  unfold I64.Fits I64.least
  omega

namespace TokenBucket

/-- Tokens, and what the time since the last refill is worth. -/
def uncapped (b : TokenBucket) (now : Nat) : Int := 1000 * b.tokens + b.rate * b.elapsedUs now

def credit (b : TokenBucket) (now : Nat) : Int := min (b.uncapped now) (1000000 * b.burst)

/-- A refill would fill the bucket. -/
def Full (b : TokenBucket) (now : Nat) : Prop := 1000000 * b.burst ≤ b.uncapped now

/-- The rate can be one, and the burst is that of the rate. -/
structure Sized (b : TokenBucket) : Prop where
  nonneg : 0 ≤ b.rate
  double : b.burst = b.rate * 2

variable {b : TokenBucket} {now : Nat}

theorem credit_le : b.credit now ≤ 1000000 * b.burst := Int.min_le_right _ _

theorem Sized.uncapped_nonneg (sized : b.Sized) (now : Nat) : 0 ≤ b.uncapped now := by
  have due := Int.mul_nonneg sized.nonneg (Int.natCast_nonneg (b.elapsedUs now))
  unfold uncapped
  omega

theorem Sized.credit_nonneg (sized : b.Sized) : 0 ≤ b.credit now := by
  have uncapped := sized.uncapped_nonneg now
  obtain ⟨nonneg, double⟩ := sized
  unfold credit
  omega

theorem elapsedUs_add (b : TokenBucket) (now time : Nat) : b.elapsedUs (now + time) ≤ b.elapsedUs now + time := by
  unfold elapsedUs nowUs
  omega

theorem Sized.credit_elapse (sized : b.Sized) (time : Nat) : b.credit (now + time) ≤ b.credit now + b.rate * time := by
  have due : b.rate * b.elapsedUs (now + time) ≤ b.rate * (b.elapsedUs now + time : Nat) :=
    Int.mul_le_mul_of_nonneg_left (Int.ofNat_le.mpr (b.elapsedUs_add now time)) sized.nonneg
  have gain := Int.mul_nonneg sized.nonneg (Int.natCast_nonneg time)
  rw [Int.natCast_add, Int.mul_add] at due
  unfold credit uncapped
  omega

@[simp] theorem refill_rate : (b.refill now).rate = b.rate := by
  unfold refill
  split_ifs <;> rfl

@[simp] theorem refill_burst : (b.refill now).burst = b.burst := by
  unfold refill
  split_ifs <;> rfl

theorem Sized.refill (sized : b.Sized) : (b.refill now).Sized := by
  constructor
  · rw [refill_rate]
    exact sized.nonneg
  · rw [refill_rate, refill_burst]
    exact sized.double

/-- What a refill adds is no more than the time is worth. -/
theorem Sized.tokensToAdd_le (sized : b.Sized) (now : Nat) : 1000 * (b.tokensToAdd now : Int) ≤ b.rate * b.elapsedUs now := by
  have rate : b.rate = (b.rate.toNat : Int) := (Int.toNat_of_nonneg sized.nonneg).symm
  rw [rate, ← Int.natCast_mul]
  unfold tokensToAdd
  omega

theorem Sized.credit_refill (sized : b.Sized) : (b.refill now).credit now ≤ b.credit now := by
  have added := sized.tokensToAdd_le now
  unfold TokenBucket.refill
  split_ifs with still blocked nothing
  · exact Int.le_refl _
  · exact Int.le_refl _
  · exact Int.le_refl _
  · have read : b.nowUs now - b.nowUs now = 0 := Nat.sub_self _
    simp only [credit, uncapped, elapsedUs] at added ⊢
    simp only [nowUs] at added read ⊢
    rw [read]
    omega

/-- **An acquisition** from a bucket that is not over its burst. -/
theorem credit_take {amount : Int} (small : 0 ≤ amount) (fits : amount * 1000 < 2 ^ 64) (enough : scaled amount ≤ b.tokens)
    (within : b.uncapped now ≤ 1000000 * b.burst) :
    { b with tokens := b.tokens - scaled amount }.credit now + 1000000 * amount ≤ b.credit now := by
  have exact_amount := scaled_of_fits small fits
  simp only [credit, uncapped, elapsedUs, nowUs] at within ⊢
  omega

/-- **A new rate** gives no more credit, or the burst grows by as much. -/
theorem Sized.credit_updateRate (sized : b.Sized) {rate : Int} (nonneg : 0 ≤ rate) (fits : rate < 2 ^ 62) :
    (b.updateRate rate).credit now ≤ b.credit now ∨
      (b.updateRate rate).credit now ≤ b.credit now + 1000000 * (rate * 2 - b.burst) := by
  have due := Int.mul_nonneg sized.nonneg (Int.natCast_nonneg (b.elapsedUs now))
  have double := sized.double
  have same : (b.updateRate rate).elapsedUs now = b.elapsedUs now := rfl
  simp only [credit, uncapped, same]
  simp only [updateRate, wrap_double nonneg fits]
  rcases Int.le_total rate b.rate with lower | higher
  · have less := Int.mul_le_mul_of_nonneg_right lower (Int.natCast_nonneg (b.elapsedUs now))
    left
    omega
  · right
    rcases Nat.le_total (b.elapsedUs now) 2000000 with short | long
    · have gain : (rate - b.rate) * b.elapsedUs now ≤ (rate - b.rate) * 2000000 :=
        Int.mul_le_mul_of_nonneg_left (by omega) (by omega)
      rw [Int.sub_mul, Int.sub_mul] at gain
      omega
    · have full : b.rate * 2000000 ≤ b.rate * b.elapsedUs now :=
        Int.mul_le_mul_of_nonneg_left (by omega) sized.nonneg
      omega

theorem credit_new {rate : Int} (now now' : Nat) : (new rate now).credit now = (new rate now').credit now' := by
  simp [credit, uncapped, new, elapsedUs, nowUs]

end TokenBucket

open TokenBucket

/-- What a limiter has to give. Where there is no bucket, one would be made full. -/
def credit (now : Nat) (entries : List Entry) (bucket : Option TokenBucket) : Int :=
  bucket.elim ((limitAfter none entries).elim 0 fun limit => 1000000 * limit.burst) fun b => b.credit now

@[simp] theorem credit_none (now : Nat) (entries : List Entry) :
    credit now entries none = (limitAfter none entries).elim 0 fun limit => 1000000 * limit.burst := rfl

@[simp] theorem credit_some (now : Nat) (entries : List Entry) (b : TokenBucket) : credit now entries (some b) = b.credit now := rfl

/-- No limit so far had a greater burst than the one in force. -/
def Greatest (entries : List Entry) : Prop :=
  ∀ last ∈ limitAfter none entries, ∀ earlier ∈ inForce none entries, earlier.burst ≤ last.burst

instance Greatest.decidable (entries : List Entry) : Decidable (Greatest entries) := inferInstanceAs (Decidable (∀ _ ∈ _, _))

/-- A limiter's account and its bucket agree. -/
structure Accounted (now : Nat) (entries : List Entry) (bucket : Option TokenBucket) : Prop where
  kept : Kept 1000000 (credit now entries bucket) entries
  rates : ∀ limit ∈ limitAfter none entries, 0 ≤ limit.rate
  sized : ∀ b ∈ bucket, b.Sized ∧ limitAfter none entries = some ⟨b.rate, b.burst⟩

namespace Accounted

variable {now : Nat} {entries : List Entry} {bucket : Option TokenBucket} {b : TokenBucket}

theorem start (now : Nat) : Accounted now [] none := ⟨.nil _, by simp [limitAfter], by simp⟩

theorem pass (accounted : Accounted now entries bucket) (time : Nat) : Accounted (now + time) (entries ++ [.pass time]) bucket := by
  obtain ⟨kept, rates, sized⟩ := accounted
  have after : limitAfter none (entries ++ [.pass time]) = limitAfter none entries := by
    rw [limitAfter_append]
    rfl
  refine ⟨?_, by rwa [after], by rwa [after]⟩
  have capped := kept.level_le
  cases bucket with
  | none =>
    rw [credit_none, after]
    rw [credit_none] at kept
    apply kept.pass kept.nonneg _ (Int.le_refl _)
    cases last : limitAfter none entries with
    | none => simp
    | some limit =>
      have gain := Int.mul_nonneg (rates limit last) (Int.natCast_nonneg time)
      simp only [elim_some]
      omega
  | some b =>
    obtain ⟨sized, last⟩ := sized b rfl
    rw [credit_some] at kept ⊢
    apply kept.pass sized.credit_nonneg
    · rw [last]
      exact sized.credit_elapse time
    · rw [last]
      exact credit_le

theorem refill (accounted : Accounted now entries (some b)) : Accounted now entries (some (b.refill now)) := by
  obtain ⟨kept, rates, sized⟩ := accounted
  obtain ⟨sized, last⟩ := sized b rfl
  refine ⟨kept.lower sized.credit_refill sized.refill.credit_nonneg, rates, fun b' is => ?_⟩
  obtain rfl := some.inj is
  rw [refill_rate, refill_burst]
  exact ⟨sized.refill, last⟩

theorem take {amount : Int} (accounted : Accounted now entries (some b)) (positive : 0 < amount) (fits : amount * 1000 < 2 ^ 64)
    (enough : scaled amount ≤ b.tokens) (within : b.uncapped now ≤ 1000000 * b.burst) :
    Accounted now (entries ++ [.take amount]) (some { b with tokens := b.tokens - scaled amount }) := by
  obtain ⟨kept, rates, sized⟩ := accounted
  obtain ⟨sized, last⟩ := sized b rfl
  have after : limitAfter none (entries ++ [.take amount]) = limitAfter none entries := by
    rw [limitAfter_append]
    rfl
  have left : { b with tokens := b.tokens - scaled amount }.Sized := ⟨sized.nonneg, sized.double⟩
  refine ⟨?_, by rwa [after], fun b' is => ?_⟩
  · apply kept.take left.credit_nonneg (by omega)
    exact credit_take (by omega) fits enough within
  · obtain rfl := some.inj is
    rw [after]
    exact ⟨left, last⟩

/-- A bucket that is full need not be kept. -/
theorem evict (accounted : Accounted now entries (some b)) (full : b.Full now) : Accounted now entries none := by
  obtain ⟨kept, rates, sized⟩ := accounted
  obtain ⟨sized, last⟩ := sized b rfl
  refine ⟨?_, rates, by simp⟩
  have credit : b.credit now = 1000000 * b.burst := Int.min_eq_right full
  rw [credit_some, credit] at kept
  rw [credit_none, last]
  exact kept

/-- A bucket with a new limit. -/
theorem limit {new : TokenBucket} (accounted : Accounted now entries bucket) (sized : new.Sized)
    (covered : new.credit now ≤ credit now entries bucket ∨ Greatest entries)
    (raised : ∀ last ∈ limitAfter none entries, new.credit now ≤ credit now entries bucket ∨
      new.credit now ≤ credit now entries bucket + 1000000 * (new.burst - last.burst)) :
    Accounted now (entries ++ [.limit ⟨new.rate, new.burst⟩]) (some new) := by
  have after : limitAfter none (entries ++ [.limit ⟨new.rate, new.burst⟩]) = some ⟨new.rate, new.burst⟩ := by
    rw [limitAfter_append]
    rfl
  refine ⟨?_, ?_, fun b' is => ?_⟩
  · apply accounted.kept.limit (by omega) sized.credit_nonneg credit_le
    intro last inForce
    rcases covered with lower | greatest
    · exact .inl lower
    · exact (raised last inForce).imp_right fun least => ⟨greatest last inForce, least⟩
  · rw [after]
    intro limit is
    obtain rfl := some.inj is
    exact sized.nonneg
  · obtain rfl := some.inj is
    exact ⟨sized, after⟩

end Accounted

/-- A rate that may be put in force with the bucket `new`: it is one, its double is an `i64`, and
it comes with no more credit than there was, or there has been no greater one than the last. -/
structure Grants (now : Nat) (entries : List Entry) (bucket : Option TokenBucket) (new : TokenBucket) : Prop where
  nonneg : 0 ≤ new.rate
  fits : new.rate < 2 ^ 62
  covered : new.credit now ≤ credit now entries bucket ∨ Greatest entries

instance Grants.decidable (now : Nat) (entries : List Entry) (bucket : Option TokenBucket) (new : TokenBucket) :
    Decidable (Grants now entries bucket new) :=
  decidable_of_iff (0 ≤ new.rate ∧ new.rate < 2 ^ 62 ∧ (new.credit now ≤ credit now entries bucket ∨ Greatest entries))
    ⟨fun ⟨nonneg, fits, covered⟩ => ⟨nonneg, fits, covered⟩, fun ⟨nonneg, fits, covered⟩ => ⟨nonneg, fits, covered⟩⟩

/-- It does not matter when a bucket is made. -/
theorem Grants.pass {now : Nat} {entries : List Entry} {rate : Int} (grants : Grants now entries none (.new rate now)) (time : Nat) :
    Grants (now + time) (entries ++ [.pass time]) none (.new rate (now + time)) := by
  refine ⟨grants.nonneg, grants.fits, ?_⟩
  rw [credit_new (now + time) now]
  unfold Greatest
  simp only [credit_none, limitAfter_append, limitAfter, mem_inForce_append, inForce, mem_toList]
  rcases grants.covered with lower | greatest
  · exact .inl lower
  · right
    rintro last is earlier (before | at_end)
    · exact greatest last is earlier before
    · rw [some.inj (at_end.symm.trans is)]

namespace Accounted

variable {now : Nat} {entries : List Entry} {b : TokenBucket} {rate : Int}

theorem updateRate (accounted : Accounted now entries (some b)) (grants : Grants now entries (some b) (b.updateRate rate)) :
    Accounted now (entries ++ [.limit ⟨rate, I64.wrap (rate * 2)⟩]) (some (b.updateRate rate)) := by
  obtain ⟨nonneg, fits, covered⟩ := grants
  obtain ⟨sized, inForce⟩ := accounted.sized b rfl
  apply accounted.limit ⟨nonneg, wrap_double nonneg fits⟩ covered
  intro last is
  obtain rfl := some.inj (inForce.symm.trans is)
  rw [credit_some, show (b.updateRate rate).burst = rate * 2 from wrap_double nonneg fits]
  exact sized.credit_updateRate nonneg fits

/-- A bucket is made, at whatever instant. -/
theorem new (accounted : Accounted now entries none) (grants : Grants now entries none (.new rate now)) :
    Accounted now (entries ++ [.limit ⟨rate, I64.wrap (rate * 2)⟩]) (some (.new rate now)) := by
  obtain ⟨nonneg, fits, covered⟩ := grants
  apply accounted.limit ⟨nonneg, wrap_double nonneg fits⟩ covered
  intro last is
  have full : (TokenBucket.new rate now).credit now ≤ 1000000 * (TokenBucket.new rate now).burst := TokenBucket.credit_le
  right
  rw [credit_none, is, elim_some, Int.mul_sub]
  omega

end Accounted

end StreamHouse.Metadata.Quota
