import Mathlib.Tactic

/-!
Bitmaps: sets of numbers kept as the bits of machine words.

The number `n` is the bit `n % w` of the word `n / w`.  `set` and `reset` change one bit of
one word; `test_set` and `test_reset` are the whole of what they do.  `lowestClear` is the
position of the lowest clear bit of a word, the number of trailing ones, and `clearCount`
the number of clear bits below a bound, which a single `set` or `reset` moves by one.
-/

namespace Foundations

/-- Words of `w` bits, numbered from zero. -/
abbrev Bitmap (w : ℕ) : Type := ℕ → BitVec w

namespace Bitmap

variable {w : ℕ} (b : Bitmap w)

/-- Whether the bit of `n` is set. -/
def test (n : ℕ) : Bool := b (n / w) &&& (1#w <<< (n % w)) != 0#w

/-- Setting the bit of `n`. -/
def set (n : ℕ) : Bitmap w := fun i =>
  if i = n / w then b i ||| (1#w <<< (n % w)) else b i

/-- Clearing the bit of `n`. -/
def reset (n : ℕ) : Bitmap w := fun i =>
  if i = n / w then b i &&& ~~~(1#w <<< (n % w)) else b i

/-- The position of the lowest clear bit of a word. -/
def lowestClear (x : BitVec w) : ℕ := (~~~x).ctz.toNat

/-- The number of clear bits below `bound`. -/
def clearCount (bound : ℕ) : ℕ := ((Finset.range bound).filter fun n => b.test n = false).card

/-! ### One bit at a time -/

lemma test_eq_getLsbD (hw : 0 < w) (n : ℕ) : b.test n = (b (n / w)).getLsbD (n % w) := by
  have hlt : n % w < w := Nat.mod_lt _ hw
  rw [test, ← BitVec.twoPow_eq, BitVec.and_twoPow]
  cases h : (b (n / w)).getLsbD (n % w) with
  | false => simp
  | true =>
    have hne : BitVec.twoPow w (n % w) ≠ 0#w := by
      intro h0
      have := congrArg (fun x : BitVec w => x.getLsbD (n % w)) h0
      simp [hlt] at this
    simp [hne]

/-- Two numbers are the same bit only if they are equal. -/
lemma eq_of_div_mod {m n : ℕ} (hd : m / w = n / w) (hm : m % w = n % w) : m = n := by
  rw [← Nat.div_add_mod m w, ← Nat.div_add_mod n w, hd, hm]

lemma test_set (hw : 0 < w) (n m : ℕ) : (b.set n).test m = (decide (m = n) || b.test m) := by
  have hlt : n % w < w := Nat.mod_lt _ hw
  rw [test_eq_getLsbD _ hw, test_eq_getLsbD _ hw, set]
  by_cases hd : m / w = n / w
  · rw [if_pos hd, BitVec.getLsbD_or, ← BitVec.twoPow_eq, BitVec.getLsbD_twoPow, Bool.or_comm]
    by_cases hm : m % w = n % w
    · simp [hlt, eq_of_div_mod hd hm]
    · have hne : m ≠ n := fun h => hm (by rw [h])
      simp [hlt, hne, Ne.symm hm]
  · have hne : m ≠ n := fun h => hd (by rw [h])
    simp [hd, hne]

lemma test_reset (hw : 0 < w) (n m : ℕ) :
    (b.reset n).test m = (!decide (m = n) && b.test m) := by
  have hlt : n % w < w := Nat.mod_lt _ hw
  have hltm : m % w < w := Nat.mod_lt _ hw
  rw [test_eq_getLsbD _ hw, test_eq_getLsbD _ hw, reset]
  by_cases hd : m / w = n / w
  · rw [if_pos hd, BitVec.getLsbD_and, BitVec.getLsbD_not, ← BitVec.twoPow_eq,
      BitVec.getLsbD_twoPow, Bool.and_comm]
    by_cases hm : m % w = n % w
    · simp [hlt, eq_of_div_mod hd hm]
    · have hne : m ≠ n := fun h => hm (by rw [h])
      simp [hltm, hne, Ne.symm hm]
  · have hne : m ≠ n := fun h => hd (by rw [h])
    simp [hd, hne]

lemma test_set_self (hw : 0 < w) (n : ℕ) : (b.set n).test n = true := by
  simp [test_set b hw]

lemma test_set_of_ne (hw : 0 < w) {n m : ℕ} (h : m ≠ n) : (b.set n).test m = b.test m := by
  simp [test_set b hw, h]

lemma test_reset_self (hw : 0 < w) (n : ℕ) : (b.reset n).test n = false := by
  simp [test_reset b hw]

lemma test_reset_of_ne (hw : 0 < w) {n m : ℕ} (h : m ≠ n) : (b.reset n).test m = b.test m := by
  simp [test_reset b hw, h]

/-! ### The lowest clear bit of a word -/

lemma not_ne_zero {x : BitVec w} (h : x ≠ BitVec.allOnes w) : ~~~x ≠ 0#w := by
  intro h0
  apply h
  rw [← BitVec.not_not (b := x), h0, BitVec.not_zero]

lemma lowestClear_lt {x : BitVec w} (h : x ≠ BitVec.allOnes w) : lowestClear x < w := by
  have h0 := BitVec.ctz_lt_iff_ne_zero.mpr (not_ne_zero h)
  rw [BitVec.lt_def] at h0
  have hle : (↑w : BitVec w).toNat ≤ w := by
    rw [BitVec.natCast_eq_ofNat, BitVec.toNat_ofNat]
    exact Nat.mod_le _ _
  exact lt_of_lt_of_le h0 hle

lemma getLsbD_lowestClear {x : BitVec w} (h : x ≠ BitVec.allOnes w) :
    x.getLsbD (lowestClear x) = false := by
  have h1 := BitVec.getLsbD_true_ctz_of_ne_zero (not_ne_zero h)
  rw [BitVec.getLsbD_not] at h1
  simp only [Bool.and_eq_true, Bool.not_eq_true', decide_eq_true_eq] at h1
  exact h1.2

/-- The lowest clear bit of word `i` is the clear bit of a number of that word. -/
lemma test_lowestClear {i : ℕ} (h : b i ≠ BitVec.allOnes w) :
    b.test (i * w + lowestClear (b i)) = false := by
  have hlt := lowestClear_lt h
  have hw : 0 < w := by omega
  have hdiv : (i * w + lowestClear (b i)) / w = i := by
    rw [Nat.mul_comm, Nat.mul_add_div hw, Nat.div_eq_of_lt hlt, Nat.add_zero]
  have hmod : (i * w + lowestClear (b i)) % w = lowestClear (b i) := by
    rw [Nat.mul_comm, Nat.mul_add_mod, Nat.mod_eq_of_lt hlt]
  rw [test_eq_getLsbD _ hw, hdiv, hmod, getLsbD_lowestClear h]

/-- The bits of a word below its lowest clear one are set. -/
lemma test_of_lt_lowestClear {i n : ℕ} (hi : i * w ≤ n) (hn : n < i * w + lowestClear (b i))
    (h : b i ≠ BitVec.allOnes w) : b.test n = true := by
  have hlt := lowestClear_lt h
  have hw : 0 < w := by omega
  obtain ⟨k, rfl⟩ := Nat.exists_eq_add_of_le hi
  have hk : k < w := by omega
  have hdiv : (i * w + k) / w = i := by
    rw [Nat.mul_comm, Nat.mul_add_div hw, Nat.div_eq_of_lt hk, Nat.add_zero]
  have hmod : (i * w + k) % w = k := by
    rw [Nat.mul_comm, Nat.mul_add_mod, Nat.mod_eq_of_lt hk]
  have hclear : (~~~(b i)).getLsbD k = false :=
    BitVec.getLsbD_false_of_lt_ctz (Nat.lt_of_add_lt_add_left hn)
  rw [test_eq_getLsbD _ hw, hdiv, hmod]
  simpa [BitVec.getLsbD_not, hk] using hclear

/-- A clear bit shows in its word. -/
lemma ne_allOnes_of_test (hw : 0 < w) {n : ℕ} (h : b.test n = false) :
    b (n / w) ≠ BitVec.allOnes w := by
  intro h1
  rw [test_eq_getLsbD _ hw, h1, BitVec.getLsbD_allOnes] at h
  simp [Nat.mod_lt _ hw] at h

lemma test_allOnes (hw : 0 < w) (n : ℕ) : test (fun _ => BitVec.allOnes w) n = true := by
  rw [test_eq_getLsbD _ hw, BitVec.getLsbD_allOnes]
  simp [Nat.mod_lt _ hw]

/-- A bitmap is determined by its bits. -/
lemma ext_test (hw : 0 < w) {b b' : Bitmap w} (h : ∀ n, b.test n = b'.test n) : b = b' := by
  funext i
  refine BitVec.eq_of_getLsbD_eq fun j hj => ?_
  have hbit := h (i * w + j)
  rw [test_eq_getLsbD _ hw, test_eq_getLsbD _ hw, Nat.mul_comm, Nat.mul_add_div hw,
    Nat.div_eq_of_lt hj, Nat.add_zero, Nat.mul_add_mod, Nat.mod_eq_of_lt hj] at hbit
  exact hbit

/-! ### Counting clear bits -/

lemma clearCount_set (hw : 0 < w) {n bound : ℕ} (hn : n < bound) (hc : b.test n = false) :
    (b.set n).clearCount bound + 1 = b.clearCount bound := by
  have heq : ((Finset.range bound).filter fun m => (b.set n).test m = false)
      = ((Finset.range bound).filter fun m => b.test m = false).erase n := by
    ext m
    by_cases h : m = n
    · simp [h, test_set_self b hw]
    · simp [h, test_set_of_ne b hw h]
  have hmem : n ∈ (Finset.range bound).filter fun m => b.test m = false := by
    simp [hn, hc]
  rw [clearCount, clearCount, heq, Finset.card_erase_add_one hmem]

lemma clearCount_reset (hw : 0 < w) {n bound : ℕ} (hn : n < bound) (hs : b.test n = true) :
    (b.reset n).clearCount bound = b.clearCount bound + 1 := by
  have heq : ((Finset.range bound).filter fun m => (b.reset n).test m = false)
      = insert n ((Finset.range bound).filter fun m => b.test m = false) := by
    ext m
    by_cases h : m = n
    · simp [h, test_reset_self b hw, hn]
    · simp [h, test_reset_of_ne b hw h]
  rw [clearCount, clearCount, heq, Finset.card_insert_of_notMem (by simp [hs])]

lemma clearCount_allOnes (hw : 0 < w) (bound : ℕ) :
    clearCount (fun _ => BitVec.allOnes w) bound = 0 := by
  simp [clearCount, test_allOnes hw]

lemma clearCount_le (bound : ℕ) : b.clearCount bound ≤ bound :=
  (Finset.card_filter_le _ _).trans (Finset.card_range bound).le

lemma clearCount_pos_iff {bound : ℕ} :
    0 < b.clearCount bound ↔ ∃ n < bound, b.test n = false := by
  rw [clearCount, Finset.card_pos]
  constructor
  · rintro ⟨n, hn⟩
    rw [Finset.mem_filter, Finset.mem_range] at hn
    exact ⟨n, hn⟩
  · rintro ⟨n, hn⟩
    exact ⟨n, by rw [Finset.mem_filter, Finset.mem_range]; exact hn⟩

end Bitmap

end Foundations
