import Mathlib

/-!
Instants and durations (`crates/time/src/time.rs`).

An instant is a value of the time stamp counter.  The counter's period is measured at boot and is
given in femtoseconds; durations are turned into ticks and ticks into durations in 128 bits.

* `checkedAddDuration`, `checkedDurationSince`: the two conversions.
* `addDuration_monotone_iff`: where the narrowing of the ticks to 64 bits is noticed.
* `add_sub_bounds`: what is lost when a duration is added and measured.
-/

namespace Rhubarb.Time

/-! ### The model -/

/-- `Duration`: seconds in a `u64` and less than a second in nanoseconds. -/
structure Duration where
  asNanos : ℕ
  lt : asNanos < 2 ^ 64 * 10 ^ 9
  deriving DecidableEq

/-- `Instant`. -/
structure Instant where
  value : ℕ
  lt : value < 2 ^ 64
  deriving DecidableEq

/-- The ways in which the arithmetic panics. -/
inductive TimePanic where
  /-- A division by `TSC_PERIOD_FS`, which is zero until it is measured. -/
  | divisionByZero
  /-- `Duration::from_nanos_u128`: "overflow in Duration". -/
  | durationOverflow
  deriving DecidableEq, Repr

/-- `FEMTOS_PER_NANO`. -/
def femtosPerNano : ℕ := 10 ^ 6

/-- `Duration::from_nanos_u128`. -/
def Duration.fromNanosU128 (nanos : ℕ) : Except TimePanic Duration :=
  if h : nanos < 2 ^ 64 * 10 ^ 9 then .ok ⟨nanos, h⟩ else .error .durationOverflow

/-- `u64::checked_add`. -/
def checkedAdd (a b : ℕ) : Option Instant :=
  if h : a + b < 2 ^ 64 then some ⟨a + b, h⟩ else none

namespace Instant

/-- `Instant::MAX`. -/
def max : Instant := ⟨2 ^ 64 - 1, by norm_num⟩

/-- The product is one of 128 bits. -/
def checkedDurationSince (period : ℕ) (self earlier : Instant) :
    Except TimePanic (Option Duration) :=
  if self.value < earlier.value then .ok none
  else
    let delta := self.value - earlier.value
    let femtos := delta * period % 2 ^ 128
    (Duration.fromNanosU128 (femtos / femtosPerNano)).map some

def durationSince (period : ℕ) (self earlier : Instant) : Except TimePanic Duration :=
  (checkedDurationSince period self earlier).map (·.getD ⟨0, by norm_num⟩)

/-- The number of ticks is one of 128 bits, of which `delta as u64` keeps the low 64. -/
def checkedAddDuration (period : ℕ) (self : Instant) (duration : Duration) :
    Except TimePanic (Option Instant) :=
  let femtos := duration.asNanos * femtosPerNano % 2 ^ 128
  if period = 0 then .error .divisionByZero
  else
    let delta := femtos / period
    .ok (checkedAdd self.value (delta % 2 ^ 64))

def addDuration (period : ℕ) (self : Instant) (duration : Duration) : Except TimePanic Instant :=
  (checkedAddDuration period self duration).map (·.getD max)

/-- `Instant - Instant`. -/
def sub (period : ℕ) (self other : Instant) : Except TimePanic Duration :=
  durationSince period self other

/-- `Instant + Duration`. -/
def add (period : ℕ) (self : Instant) (duration : Duration) : Except TimePanic Instant :=
  addDuration period self duration

end Instant

/-! ### Ticks -/

/-- The ticks of a duration: the full count. -/
def ticks (period : ℕ) (d : Duration) : ℕ := d.asNanos * 10 ^ 6 / period

variable {period : ℕ} {t : Instant} {d d₁ d₂ : Duration}

open Instant

lemma checkedAddDuration_eq (hp : 0 < period) :
    checkedAddDuration period t d = .ok (checkedAdd t.value (ticks period d % 2 ^ 64)) := by
  have hd := d.lt
  rw [checkedAddDuration, if_neg hp.ne', Nat.mod_eq_of_lt (by rw [femtosPerNano]; omega)]
  rfl

lemma checkedAddDuration_eq_none_iff (hp : 0 < period) :
    checkedAddDuration period t d = .ok none ↔ 2 ^ 64 ≤ t.value + ticks period d % 2 ^ 64 := by
  rw [checkedAddDuration_eq hp, checkedAdd]
  split_ifs with h
  · simpa using h
  · simpa using h

/-- The sum saturates. -/
lemma addDuration_eq (hp : 0 < period) :
    ∃ u, addDuration period t d = .ok u
      ∧ u.value = min (t.value + ticks period d % 2 ^ 64) (2 ^ 64 - 1) := by
  rw [addDuration, checkedAddDuration_eq hp, checkedAdd]
  split_ifs with h
  · exact ⟨_, rfl, (min_eq_left (Nat.le_pred_of_lt h)).symm⟩
  · exact ⟨_, rfl, (min_eq_right (Nat.pred_le_iff.mpr ((not_lt.mp h).trans (Nat.le_succ _)))).symm⟩

lemma min_add_le_min_add_iff {n a b m : ℕ} :
    min (n + a) m ≤ min (n + b) m ↔ m ≤ n + b ∨ a ≤ b := by
  omega

/-- **Narrow ticks**: an addition reports an overflow exactly if the full tick count overflows
unless the ticks are more than 64 bits and the bits that are kept do not overflow; and then a longer
duration may lead to an earlier instant, if fewer ticks are kept of it. -/
theorem addDuration_monotone_iff {period : ℕ} (hp : 0 < period) (t : Instant)
    (d d₁ d₂ : Duration) :
    ((checkedAddDuration period t d = .ok none ↔ 2 ^ 64 - 1 < t.value + ticks period d)
      ↔ ticks period d < 2 ^ 64 ∨ 2 ^ 64 - 1 < t.value + ticks period d % 2 ^ 64)
    ∧ (checkedAddDuration period t d = .ok none → addDuration period t d = .ok max)
    ∧ (d₁.asNanos ≤ d₂.asNanos →
      ((∃ u₁ u₂, addDuration period t d₁ = .ok u₁ ∧ addDuration period t d₂ = .ok u₂
          ∧ u₁.value ≤ u₂.value)
        ↔ ticks period d₂ < 2 ^ 64 ∨ 2 ^ 64 - 1 ≤ t.value + ticks period d₂ % 2 ^ 64
          ∨ ticks period d₁ % 2 ^ 64 ≤ ticks period d₂ % 2 ^ 64)) := by
  have ht := t.lt
  refine ⟨?_, fun h => ?_, fun hle => ?_⟩
  · rw [checkedAddDuration_eq_none_iff hp]
    omega
  · rw [addDuration, h]
    rfl
  · obtain ⟨u₁, h₁, hu₁⟩ := addDuration_eq (t := t) (d := d₁) hp
    obtain ⟨u₂, h₂, hu₂⟩ := addDuration_eq (t := t) (d := d₂) hp
    have hticks : ticks period d₁ ≤ ticks period d₂ :=
      Nat.div_le_div_right (Nat.mul_le_mul_right _ hle)
    have hval : (∃ u₁ u₂, addDuration period t d₁ = .ok u₁ ∧ addDuration period t d₂ = .ok u₂
        ∧ u₁.value ≤ u₂.value) ↔ u₁.value ≤ u₂.value := by
      simp only [h₁, h₂, Except.ok.injEq, exists_and_left, exists_eq_left']
    rw [hval, hu₁, hu₂, min_add_le_min_add_iff]
    clear hval hu₁ hu₂ h₁ h₂
    omega

/-- A counter of one gigahertz, a minute and a day. -/
theorem addDuration_monotone_iff_day :
    checkedAddDuration 1000000 ⟨5, by norm_num⟩ ⟨86400 * 10 ^ 9, by norm_num⟩ ≠ .ok none
    ∧ ∃ u₁ u₂, addDuration 1000000 ⟨5, by norm_num⟩ ⟨60 * 10 ^ 9, by norm_num⟩ = .ok u₁
      ∧ addDuration 1000000 ⟨5, by norm_num⟩ ⟨86400 * 10 ^ 9, by norm_num⟩ = .ok u₂
      ∧ u₁.value ≤ u₂.value := by
  obtain ⟨hnone, -, hle⟩ := addDuration_monotone_iff (by norm_num : 0 < 1000000)
    ⟨5, by norm_num⟩ ⟨86400 * 10 ^ 9, by norm_num⟩ ⟨60 * 10 ^ 9, by norm_num⟩
    ⟨86400 * 10 ^ 9, by norm_num⟩
  exact ⟨fun h => absurd ((hnone.mpr (.inl (by decide))).mp h) (by decide),
    (hle (by norm_num)).mpr (.inl (by decide))⟩

/-- A counter of one gigahertz: `2^64` nanoseconds are no tick at all. -/
theorem addDuration_wraps :
    checkedAddDuration 1000000 ⟨5, by norm_num⟩ ⟨2 ^ 64, by norm_num⟩ = .ok (some ⟨5, by norm_num⟩)
    ∧ addDuration 1000000 ⟨5, by norm_num⟩ ⟨10, by norm_num⟩ = .ok ⟨15, by norm_num⟩
    ∧ addDuration 1000000 ⟨5, by norm_num⟩ ⟨2 ^ 64, by norm_num⟩ = .ok ⟨5, by norm_num⟩ := by
  decide +kernel

/-! ### Adding and measuring -/

/-- Two divisions lose less than a tick and a nanosecond. -/
lemma ticks_nanos_bounds (hp : 0 < period) :
    ticks period d * period / 10 ^ 6 ≤ d.asNanos
      ∧ d.asNanos * 10 ^ 6 < (ticks period d * period / 10 ^ 6 + 1) * 10 ^ 6 + period := by
  have hle : ticks period d * period ≤ d.asNanos * 10 ^ 6 := Nat.div_mul_le_self _ _
  have hlt : d.asNanos * 10 ^ 6 < ticks period d * period + period := Nat.lt_div_mul_add hp
  omega

/-- **Adding and measuring**: a duration that is added to an instant and measured from it loses less
than one tick and one nanosecond. -/
theorem add_sub_bounds (hp : 0 < period) (hp' : period ≤ 10 ^ 12)
    (hfit : t.value + ticks period d ≤ 2 ^ 64 - 1) :
    ∃ r, (do let u ← add period t d; sub period u t) = .ok r
      ∧ r.asNanos ≤ d.asNanos
      ∧ (d.asNanos : ℚ) - 1 - period / 10 ^ 6 < r.asNanos := by
  have hticks : ticks period d % 2 ^ 64 = ticks period d := Nat.mod_eq_of_lt (by omega)
  have hadd : add period t d = .ok ⟨t.value + ticks period d, by omega⟩ := by
    rw [add, addDuration, checkedAddDuration_eq hp, hticks, checkedAdd, dif_pos (by omega)]
    rfl
  obtain ⟨hle, hlt⟩ := ticks_nanos_bounds (d := d) hp
  have hprod : ticks period d * period < 2 ^ 128 := by
    have := Nat.mul_le_mul (show ticks period d ≤ 2 ^ 64 by omega) hp'
    omega
  have hsub : sub period ⟨t.value + ticks period d, by omega⟩ t
      = .ok ⟨ticks period d * period / 10 ^ 6, hle.trans_lt d.lt⟩ := by
    rw [sub, durationSince, checkedDurationSince, if_neg (by simp only; omega)]
    simp only [Nat.add_sub_cancel_left, Nat.mod_eq_of_lt hprod]
    rw [femtosPerNano, Duration.fromNanosU128, dif_pos (hle.trans_lt d.lt)]
    rfl
  refine ⟨⟨_, hle.trans_lt d.lt⟩, by simp only [hadd, bind, Except.bind, hsub], hle, ?_⟩
  have hcast : (d.asNanos : ℚ) * 10 ^ 6
      < ((ticks period d * period / 10 ^ 6 : ℕ) + 1) * 10 ^ 6 + period := by exact_mod_cast hlt
  rw [sub_sub, sub_lt_iff_lt_add, ← mul_lt_mul_iff_of_pos_right (show (0 : ℚ) < 10 ^ 6 by norm_num)]
  calc (d.asNanos : ℚ) * 10 ^ 6
      < ((ticks period d * period / 10 ^ 6 : ℕ) + 1) * 10 ^ 6 + period := hcast
    _ = ((ticks period d * period / 10 ^ 6 : ℕ) + (1 + period / 10 ^ 6)) * 10 ^ 6 := by
        rw [add_mul, add_mul, add_mul, div_mul_cancel₀ _ (by norm_num)]
        ring

/-- A counter of three gigahertz, and a second. -/
theorem add_sub_bounds_second :
    ∃ r, (do
        let u ← add 333333 ⟨7, by norm_num⟩ ⟨10 ^ 9, by norm_num⟩
        sub 333333 u ⟨7, by norm_num⟩) = .ok r
      ∧ r.asNanos ≤ 10 ^ 9 ∧ (10 ^ 9 : ℕ) - 1 - (333333 : ℕ) / 10 ^ 6 < (r.asNanos : ℚ) :=
  add_sub_bounds (by decide) (by decide) (by decide)

end Rhubarb.Time
