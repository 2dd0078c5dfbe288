import Rhubarb.Foundations.Runs
import Rhubarb.Kernel.ShellQueue

/-!
The order in which a `SizedQueue` gives back what was pushed (`process/src/process.rs`).

`push` does not look at the cursor of `pop`.  While every push finds a free cell the ring is a
queue, and what is popped comes in the order of the pushes.  A push to a full ring takes the place
of the oldest element, but it is the next to be popped, before the elements that are older than
it: with at least two cells the order is lost as soon as two more elements are popped.

* `order_run`: in every run whose pushes overwrite nothing, or of a ring with one cell, the popped
  elements are a sublist of the pushed ones.
* `overwrite_reorders`: after any other push two pops are enough to break the order.
* `order_lost`: nine pushes to a ring of the shell.
-/

namespace Rhubarb

open Foundations

/-- A call on the ring. -/
inductive QueueCall (α : Type) where
  | push (element : α)
  | pop
  deriving DecidableEq, Repr

/-- A ring, with all that was pushed and all that was popped, in order. -/
structure QueueSession (α : Type) (size : ℕ) where
  queue : SizedQueue α size
  pushed : List α
  popped : List α

namespace QueueSession

variable {α : Type} {size : ℕ}

/-- Nothing has been pushed yet. -/
def start (α : Type) (size : ℕ) (h : 0 < size) : QueueSession α size := ⟨.new α size h, [], []⟩

/-- One call; none of them can fail. -/
def step (s : QueueSession α size) : QueueCall α → Except Empty (QueueSession α size)
  | .push x => .ok { s with queue := s.queue.push x, pushed := s.pushed ++ [x] }
  | .pop => .ok { s with queue := s.queue.pop.2, popped := s.popped ++ s.queue.pop.1.toList }

/-- A push finds a free cell, or there is only one cell. -/
def Orderly (s : QueueSession α size) : QueueCall α → Prop
  | .push _ => size = 1 ∨ s.queue.inner s.queue.pushCursor = none
  | .pop => True

instance (s : QueueSession α size) (call : QueueCall α) : Decidable (s.Orderly call) :=
  match call with
  | .push _ => inferInstanceAs (Decidable (size = 1 ∨ s.queue.inner s.queue.pushCursor = none))
  | .pop => isTrue trivial

/-- **What is popped and what waits** comes in the order of the pushes. -/
structure InOrder (s : QueueSession α size) (waiting : List α) : Prop where
  holds : s.queue.Holds waiting
  sublist : (s.popped ++ waiting).Sublist s.pushed

variable {s s' : QueueSession α size} {waiting : List α} {x : α}

lemma start_inOrder (h : 0 < size) : (start α size h).InOrder [] :=
  ⟨SizedQueue.holds_new h, List.Sublist.refl _⟩

/-- A push to a ring that is not full. -/
lemma InOrder.push (h : s.InOrder waiting) (hlen : waiting.length < size) (x : α) :
    InOrder ⟨s.queue.push x, s.pushed ++ [x], s.popped⟩ (waiting ++ [x]) where
  holds := h.holds.push hlen x
  sublist := by
    rw [← List.append_assoc]
    exact h.sublist.append (List.Sublist.refl _)

/-- A push to a ring that is full of one element. -/
lemma InOrder.push_one (h : s.InOrder waiting) (hsize : size = 1) (x : α) :
    InOrder ⟨s.queue.push x, s.pushed ++ [x], s.popped⟩ [x] where
  holds := by
    subst hsize
    refine ⟨le_rfl, Subsingleton.elim _ _, fun k hk => ?_⟩
    obtain rfl : k = 0 := by omega
    have hcell : s.queue.pushCursor = SizedQueue.cell s.queue.popCursor 0 := Subsingleton.elim _ _
    simp only [SizedQueue.push, hcell, Function.update_self, List.getElem?_cons_zero]
  sublist := ((List.sublist_append_left _ _).trans h.sublist).append (List.Sublist.refl _)

/-- A pop. -/
lemma InOrder.pop (h : s.InOrder waiting) :
    InOrder ⟨s.queue.pop.2, s.pushed, s.popped ++ s.queue.pop.1.toList⟩ waiting.tail := by
  cases waiting with
  | nil =>
    rw [h.holds.pop_nil, Option.toList_none, List.append_nil]
    exact h
  | cons x rest =>
    obtain ⟨q, hpop, hq⟩ := h.holds.pop_cons
    rw [hpop]
    refine ⟨hq, ?_⟩
    rw [Option.toList_some, List.append_assoc]
    exact h.sublist

/-- The cell under the cursor of `push` is taken exactly if the ring is full. -/
lemma InOrder.inner_pushCursor (h : s.InOrder waiting) :
    s.queue.inner s.queue.pushCursor = none ↔ waiting.length < size := by
  rcases Nat.lt_or_eq_of_le h.holds.length_le with hlt | heq
  · rw [h.holds.pushCursor, h.holds.inner _ hlt, List.getElem?_eq_none le_rfl]
    exact iff_of_true rfl hlt
  · rw [h.holds.pushCursor, heq, SizedQueue.cell_size, h.holds.inner_popCursor]
    have hpos : 0 < waiting.length := heq ▸ s.queue.popCursor.pos
    rw [List.getElem?_eq_getElem hpos]
    exact iff_of_false (by simp) (by omega)

lemma step_inOrder (h : ∃ waiting, s.InOrder waiting) {call : QueueCall α} (hcall : s.Orderly call)
    (hs : s.step call = .ok s') : ∃ waiting, s'.InOrder waiting := by
  obtain ⟨waiting, h⟩ := h
  cases call with
  | pop =>
    cases hs
    exact ⟨_, h.pop⟩
  | push x =>
    cases hs
    rcases hcall with hsize | hfree
    · exact ⟨_, h.push_one hsize x⟩
    · exact ⟨_, h.push (h.inner_pushCursor.mp hfree) x⟩

/-- What is waiting after a run of such calls. -/
lemma run_inOrder {calls : List (QueueCall α)} (hsize : 0 < size)
    (hcalls : Meets step Orderly (start α size hsize) calls)
    (hrun : run step (start α size hsize) calls = .ok s) : ∃ waiting, s.InOrder waiting :=
  run_invariant_of_meets (I := fun s => ∃ waiting, s.InOrder waiting)
    (fun _ _ _ hs hcall hstep => step_inOrder hs hcall hstep) ⟨[], start_inOrder hsize⟩ hcalls hrun

/-- **Order**: as long as every push finds a free cell, or if there is only one cell, what is
popped is a sublist of what was pushed. -/
theorem order_run {calls : List (QueueCall α)} (hsize : 0 < size)
    (hcalls : Meets step Orderly (start α size hsize) calls)
    (hrun : run step (start α size hsize) calls = .ok s) : s.popped.Sublist s.pushed := by
  obtain ⟨waiting, h⟩ := run_inOrder hsize hcalls hrun
  exact (List.sublist_append_left _ _).trans h.sublist

/-- Five pushes and as many pops on a ring of four cells, never full when something is pushed. -/
theorem order_run_small :
    ∃ s, run step (start ℕ 4 (by decide)) [.push 0, .push 1, .pop, .push 2, .push 3, .push 4, .pop]
        = .ok s
      ∧ s.popped = [0, 1] ∧ s.popped.Sublist s.pushed := by
  obtain ⟨s, hrun, hpopped⟩ : ∃ s, run step (start ℕ 4 (by decide))
      [.push 0, .push 1, .pop, .push 2, .push 3, .push 4, .pop] = .ok s ∧ s.popped = [0, 1] := by
    decide
  exact ⟨s, hrun, hpopped, order_run (by decide) (by decide) hrun⟩

/-- After a push to a full ring the new element is popped, and then the second oldest one. -/
lemma InOrder.pop_overwritten (h : s.InOrder waiting) (hlen : waiting.length = size)
    (hsize : 1 < size) (x : α) :
    ∃ y, (s.queue.push x).pop.1 = some x ∧ (s.queue.push x).pop.2.pop.1 = some y := by
  have hcursor : s.queue.pushCursor = s.queue.popCursor := by
    rw [h.holds.pushCursor, hlen, SizedQueue.cell_size]
  have hlt : 1 < waiting.length := hlen ▸ hsize
  have hsecond : s.queue.inner (SizedQueue.cell s.queue.popCursor 1) = some waiting[1] := by
    rw [h.holds.inner 1 hsize, List.getElem?_eq_getElem hlt]
  -- the second cell is not the one that is written and emptied
  have hne : SizedQueue.cell s.queue.popCursor 1 ≠ s.queue.popCursor := by
    intro heq
    have := SizedQueue.cell_injective hsize (by omega) (heq.trans (SizedQueue.cell_zero _).symm)
    omega
  refine ⟨waiting[1], h.holds.push_full hlen x, ?_⟩
  simp only [SizedQueue.push, SizedQueue.pop, hcursor, Function.update_self,
    SizedQueue.advance_eq_cell, Function.update_of_ne hne, hsecond]

/-- **The order is lost** after every other push of an element that was not pushed before. -/
theorem overwrite_reorders {calls : List (QueueCall α)} (hsize : 0 < size)
    (hcalls : Meets step Orderly (start α size hsize) calls)
    (hrun : run step (start α size hsize) calls = .ok s) (hx : x ∉ s.pushed)
    (hpush : ¬s.Orderly (.push x)) (hrest : run step s [.push x, .pop, .pop] = .ok s') :
    ¬s'.popped.Sublist s'.pushed := by
  obtain ⟨waiting, h⟩ := run_inOrder hsize hcalls hrun
  obtain ⟨hone, hfull⟩ := not_or.mp hpush
  have hlen : waiting.length = size := by
    have hle := h.holds.length_le
    have hnot := mt h.inner_pushCursor.mpr hfull
    omega
  obtain ⟨y, hfirst, hsecond⟩ := h.pop_overwritten hlen (by omega) x
  cases hrest
  rw [hfirst, hsecond]
  intro hsub
  have hxy : [x, y].Sublist (s.pushed ++ [x]) :=
    (List.sublist_append_right s.popped [x, y]).trans
      (by simpa only [Option.toList_some, List.append_assoc, List.singleton_append] using hsub)
  -- the only `x` is the last element, and nothing comes after it
  obtain ⟨l₁, l₂, heq, hl₁, hl₂⟩ := List.sublist_append_iff.mp hxy
  cases l₁ with
  | nil =>
    have hle := hl₂.length_le
    rw [← List.nil_append l₂, ← heq] at hle
    simp at hle
  | cons a l₁ =>
    obtain rfl : x = a := (List.cons.inj heq).1
    exact hx (hl₁.subset List.mem_cons_self)

/-- A third push to a ring of two cells. -/
theorem overwrite_reorders_two :
    ∃ s s', run step (start ℕ 2 (by decide)) [.push 0, .push 1] = .ok s
      ∧ run step s [.push 2, .pop, .pop] = .ok s' ∧ ¬s'.popped.Sublist s'.pushed := by
  have hrun : run step (start ℕ 2 (by decide)) [.push 0, .push 1] = .ok _ := rfl
  exact ⟨_, _, hrun, rfl, overwrite_reorders (by decide) (by decide) hrun (x := 2) (by decide)
    (by decide) rfl⟩

/-- Nine pushes to a ring of the shell: the last of them is popped before the second. -/
theorem order_lost :
    ∃ s, run step (start ℕ shellInputQueueSize (by decide))
        ((List.range 9).map .push ++ [.pop, .pop]) = .ok s
      ∧ s.popped = [8, 1] ∧ ¬s.popped.Sublist s.pushed := by
  decide

end QueueSession

end Rhubarb
