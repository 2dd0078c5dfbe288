import Mathlib.Data.List.Nodup
import Mathlib.Tactic.Common

/-!
Taking turns.

One member runs and the others wait in a queue; members come to the end of the queue, and the
next one is taken from its front.  `Turn` says what can happen to what is seen of it; members may
also wait elsewhere, so that one that is not in this queue can be taken too.  Between two turns of
a member, each other one that waited at the first of them is taken once: `Awaits` is the invariant,
by the order of the two in the queue.

* `Awaits.turn`: what one turn does.
* `Awaits.next_turn`: when the member is taken again, the other one has been taken.
-/

namespace Foundations

variable {κ : Type}

/-- Who runs, and who waits in the queue, in order. -/
@[ext] structure View (κ : Type) where
  current : Option κ
  queue : List κ

/-- What happens to a view, and who is taken. -/
inductive Turn : View κ → Option κ → View κ → Prop
  /-- Members may come to the end of the queue. -/
  | stay (current queue new) : Turn ⟨current, queue⟩ none ⟨current, queue ++ new⟩
  /-- The one that runs stops, and is not queued here. -/
  | leave (k queue) : Turn ⟨some k, queue⟩ none ⟨none, queue⟩
  /-- The one that runs goes to the end of the queue. -/
  | preempt (k queue) : Turn ⟨some k, queue⟩ none ⟨none, queue ++ [k]⟩
  /-- The first of the queue is taken, after others have come to its end. -/
  | take {k queue new rest} (h : queue ++ new = k :: rest) :
      Turn ⟨none, queue⟩ (some k) ⟨some k, rest⟩
  /-- A member that waited elsewhere is taken. -/
  | other (k queue new) : Turn ⟨none, queue⟩ (some k) ⟨some k, queue ++ new⟩

/-- Everyone who is seen. -/
def View.members (v : View κ) : List κ := v.current.toList ++ v.queue

/-- A pair stays in order in what follows a head that is not its first. -/
lemma sublist_of_cons {a b k : κ} {l : List κ} (h : [a, b].Sublist (k :: l)) (hne : k ≠ a) :
    [a, b].Sublist l := by
  cases h with
  | cons _ h => exact h
  | cons_cons => exact absurd rfl hne

lemma mem_of_sublist {a b : κ} {l : List κ} (h : [a, b].Sublist l) : a ∈ l ∧ b ∈ l :=
  ⟨h.subset (by simp), h.subset (by simp)⟩

/-- `q` has been taken `n` times since the last turn of `p`: not at all while it is before `p` or
`p` itself runs, once when it runs or has come after `p`. -/
def Awaits (p q : κ) (v : View κ) (n : ℕ) : Prop :=
  v.current = some p ∧ q ∈ v.queue ∧ n = 0
    ∨ [q, p].Sublist v.queue ∧ n = 0
    ∨ p ∈ v.queue ∧ v.current = some q ∧ n = 1
    ∨ [p, q].Sublist v.queue ∧ n = 1

namespace Awaits

variable {p q : κ} {v v' : View κ} {n : ℕ} {taken : Option κ}

/-- **One turn**, after which both are still seen and in which `p` is not taken. -/
lemma turn [DecidableEq κ] (h : Awaits p q v n) (ht : Turn v taken v') (hnodup : v.members.Nodup)
    (hnodup' : v'.members.Nodup) (hp : p ∈ v'.members) (hq : q ∈ v'.members)
    (htaken : taken ≠ some p) : Awaits p q v' (n + if taken = some q then 1 else 0) := by
  cases ht with
  | stay current queue new =>
    rcases h with ⟨hc, hmem, rfl⟩ | ⟨hsub, rfl⟩ | ⟨hmem, hc, rfl⟩ | ⟨hsub, rfl⟩
    · exact .inl ⟨hc, List.mem_append_left new hmem, rfl⟩
    · exact .inr (.inl ⟨hsub.trans (List.sublist_append_left _ _), rfl⟩)
    · exact .inr (.inr (.inl ⟨List.mem_append_left new hmem, hc, rfl⟩))
    · exact .inr (.inr (.inr ⟨hsub.trans (List.sublist_append_left _ _), rfl⟩))
  | leave k queue =>
    -- the one that stops is in no place that is seen
    have hk : k ∉ queue := (List.nodup_cons.mp hnodup).1
    rcases h with ⟨hc, -, -⟩ | ⟨hsub, rfl⟩ | ⟨-, hc, -⟩ | ⟨hsub, rfl⟩
    · cases hc
      exact absurd hp hk
    · exact .inr (.inl ⟨hsub, rfl⟩)
    · cases hc
      exact absurd hq hk
    · exact .inr (.inr (.inr ⟨hsub, rfl⟩))
  | preempt k queue =>
    rcases h with ⟨hc, hmem, rfl⟩ | ⟨hsub, rfl⟩ | ⟨hmem, hc, rfl⟩ | ⟨hsub, rfl⟩
    · cases hc
      refine .inr (.inl ⟨?_, rfl⟩)
      exact (List.singleton_sublist.mpr hmem).append (List.Sublist.refl _)
    · exact .inr (.inl ⟨hsub.trans (List.sublist_append_left _ _), rfl⟩)
    · cases hc
      refine .inr (.inr (.inr ⟨?_, rfl⟩))
      exact (List.singleton_sublist.mpr hmem).append (List.Sublist.refl _)
    · exact .inr (.inr (.inr ⟨hsub.trans (List.sublist_append_left _ _), rfl⟩))
  | @take k queue new rest heq =>
    have hk : k ∉ rest := (List.nodup_cons.mp hnodup').1
    have hkp : k ≠ p := fun hc => htaken (by rw [hc])
    rcases h with ⟨hc, -, -⟩ | ⟨hsub, rfl⟩ | ⟨-, hc, -⟩ | ⟨hsub, rfl⟩
    · cases hc
    · have hsub' : [q, p].Sublist (k :: rest) := heq ▸ hsub.trans (List.sublist_append_left _ _)
      by_cases hkq : k = q
      · subst hkq
        have hmem : p ∈ rest := by
          rcases List.mem_cons.mp (mem_of_sublist hsub').2 with hpk | hmem
          · exact absurd hpk.symm hkp
          · exact hmem
        exact .inr (.inr (.inl ⟨hmem, rfl, by simp⟩))
      · exact .inr (.inl ⟨sublist_of_cons hsub' hkq, by simp [hkq]⟩)
    · cases hc
    · have hsub' : [p, q].Sublist (k :: rest) := heq ▸ hsub.trans (List.sublist_append_left _ _)
      have hrest := sublist_of_cons hsub' hkp
      have hkq : k ≠ q := fun hc => hk (hc ▸ (mem_of_sublist hrest).2)
      exact .inr (.inr (.inr ⟨hrest, by simp [hkq]⟩))
  | other k queue new =>
    have hk : k ∉ queue ++ new := (List.nodup_cons.mp hnodup').1
    rcases h with ⟨hc, -, -⟩ | ⟨hsub, rfl⟩ | ⟨-, hc, -⟩ | ⟨hsub, rfl⟩
    · cases hc
    · have hkq : k ≠ q := fun hc => hk (List.mem_append_left new (hc ▸ (mem_of_sublist hsub).1))
      exact .inr (.inl ⟨hsub.trans (List.sublist_append_left _ _), by simp [hkq]⟩)
    · cases hc
    · have hkq : k ≠ q := fun hc => hk (List.mem_append_left new (hc ▸ (mem_of_sublist hsub).2))
      exact .inr (.inr (.inr ⟨hsub.trans (List.sublist_append_left _ _), by simp [hkq]⟩))

/-- **The next turn of `p`**: by then `q` has been taken once. -/
lemma next_turn (h : Awaits p q v n) (ht : Turn v (some p) v') (hnodup' : v'.members.Nodup)
    (hne : q ≠ p) : n = 1 := by
  cases ht with
  | @take k queue new rest heq =>
    rcases h with ⟨hc, -, -⟩ | ⟨hsub, -⟩ | ⟨-, -, rfl⟩ | ⟨-, rfl⟩
    · cases hc
    · -- otherwise `q` stands before `p`, which is at the front
      have hsub' : [q, p].Sublist (p :: rest) := heq ▸ hsub.trans (List.sublist_append_left _ _)
      have hmem := (mem_of_sublist (sublist_of_cons hsub' hne.symm)).2
      exact absurd hmem (List.nodup_cons.mp hnodup').1
    · rfl
    · rfl
  | other k queue new =>
    rcases h with ⟨hc, -, -⟩ | ⟨hsub, -⟩ | ⟨-, -, rfl⟩ | ⟨-, rfl⟩
    · cases hc
    · have hmem := List.mem_append_left new (mem_of_sublist hsub).2
      exact absurd hmem (List.nodup_cons.mp hnodup').1
    · rfl
    · rfl

end Awaits

end Foundations
