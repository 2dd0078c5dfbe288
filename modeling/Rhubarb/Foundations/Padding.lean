import Mathlib.Tactic

/-!
Rounding up to multiples.

`roundUp n a` is the least multiple of `a` that is not below `n` (`dvd_roundUp`, `le_roundUp`,
`roundUp_le`), and it is monotone in `n` (`roundUp_mono`).  `padded` is the end of items that are laid
out one behind the other, each at a multiple of its alignment: it is not below the start (`le_padded`),
and beyond it if one of the items is not empty (`lt_padded`).
-/

namespace Foundations

variable {n m a : ℕ}

/-- The next multiple of `a`. -/
def roundUp (n a : ℕ) : ℕ := if n % a = 0 then n else n + (a - n % a)

lemma le_roundUp (n a : ℕ) : n ≤ roundUp n a := by
  rw [roundUp]
  split_ifs
  · exact le_rfl
  · exact Nat.le_add_right _ _

lemma dvd_roundUp (ha : 0 < a) (n : ℕ) : a ∣ roundUp n a := by
  rw [roundUp]
  split_ifs with hn
  · exact Nat.dvd_of_mod_eq_zero hn
  · have hlt := Nat.mod_lt n ha
    have hsum : n + (a - n % a) = n / a * a + a := by
      have := Nat.div_add_mod' n a
      omega
    rw [hsum]
    exact Dvd.dvd.add (Nat.dvd_mul_left _ _) dvd_rfl

/-- It is the least one. -/
lemma roundUp_le (hdvd : a ∣ m) (h : n ≤ m) : roundUp n a ≤ m := by
  rw [roundUp]
  split_ifs with hn
  · exact h
  · obtain ⟨k, rfl⟩ := hdvd
    have hdiv := Nat.div_add_mod n a
    -- a multiple that is not below `n` is beyond the quotient
    have hlt : n / a < k := by
      by_contra hge
      have hmul : a * k ≤ a * (n / a) := Nat.mul_le_mul_left a (not_lt.mp hge)
      omega
    have hnext : a * (n / a) + a ≤ a * k := by
      calc a * (n / a) + a = a * (n / a + 1) := by ring
        _ ≤ a * k := Nat.mul_le_mul_left a hlt
    omega

lemma roundUp_mono (ha : 0 < a) (h : n ≤ m) : roundUp n a ≤ roundUp m a :=
  roundUp_le (dvd_roundUp ha m) (h.trans (le_roundUp m a))

/-- From the lower half of a range it does not lead out of the range. -/
lemma roundUp_lt {r : ℕ} (hn : 2 * n < r) (ha : a < r) : roundUp n a < r := by
  rcases Nat.lt_or_ge n a with hlt | hge
  · exact (roundUp_le dvd_rfl hlt.le).trans_lt ha
  · rw [roundUp]
    split_ifs
    · omega
    · have := Nat.mod_le n a
      omega

/-- Where items, each with a size and an alignment, end if they are laid out from `n` on. -/
def padded : List (ℕ × ℕ) → ℕ → ℕ
  | [], n => n
  | item :: items, n => padded items (roundUp n item.2 + item.1)

lemma padded_append (items items' : List (ℕ × ℕ)) (n : ℕ) :
    padded (items ++ items') n = padded items' (padded items n) := by
  induction items generalizing n with
  | nil => rfl
  | cons item items ih => exact ih _

lemma le_padded (items : List (ℕ × ℕ)) (n : ℕ) : n ≤ padded items n := by
  induction items generalizing n with
  | nil => exact le_rfl
  | cons item items ih =>
    calc n ≤ roundUp n item.2 := le_roundUp n item.2
      _ ≤ roundUp n item.2 + item.1 := Nat.le_add_right _ _
      _ ≤ padded items (roundUp n item.2 + item.1) := ih _

lemma lt_padded {items : List (ℕ × ℕ)} (h : ∃ item ∈ items, 0 < item.1) (n : ℕ) :
    n < padded items n := by
  induction items generalizing n with
  | nil =>
    obtain ⟨item, hitem, -⟩ := h
    exact absurd hitem List.not_mem_nil
  | cons item items ih =>
    have hround := le_roundUp n item.2
    rcases Nat.eq_zero_or_pos item.1 with hzero | hpos
    · obtain ⟨other, hother, hpos⟩ := h
      rcases List.mem_cons.mp hother with rfl | hother
      · omega
      · have hlt := ih ⟨other, hother, hpos⟩ (roundUp n item.2 + item.1)
        rw [padded]
        omega
    · have hle := le_padded items (roundUp n item.2 + item.1)
      rw [padded]
      omega

/-- Empty items at the start take no room. -/
lemma padded_eq_zero {items : List (ℕ × ℕ)} (h : ∀ item ∈ items, item.1 = 0) :
    padded items 0 = 0 := by
  induction items with
  | nil => rfl
  | cons item items ih =>
    obtain ⟨hitem, hitems⟩ := List.forall_mem_cons.mp h
    have hround : roundUp 0 item.2 = 0 := by rw [roundUp, Nat.zero_mod, if_pos rfl]
    rw [padded, hround, hitem]
    exact ih hitems

end Foundations
