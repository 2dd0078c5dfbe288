import Mathlib.Tactic.Common

/-!
Runs of a machine whose steps may stop it.

`step s l` is the state after the event `l`, or the reason the machine stopped.  `run` takes
a list of events; `run_invariant` is induction over a run, and `run_invariant_of_meets` the
same for the runs all of whose events meet a condition on the state they happen in.  `Ends` says
of one step both what its result satisfies and for which reasons it may stop; `Ends.bind` and
`run_ends` carry that through sequences and runs.  `tally` counts the events of a run of some
kind, and `run_tally` is induction with that count.
-/

namespace Foundations

variable {S L π : Type}

/-- The state after a list of events. -/
def run (step : S → L → Except π S) : S → List L → Except π S
  | s, [] => .ok s
  | s, l :: ls =>
    match step s l with
    | .ok s' => run step s' ls
    | .error p => .error p

variable {step : S → L → Except π S}

@[simp] lemma run_nil (s : S) : run step s [] = .ok s := rfl

variable {s s' : S} {ls : List L} {α β : Type} {x : Except π α} {I : S → Prop} {C : S → L → Prop}

lemma run_cons_ok {l : L} (h : step s l = .ok s') (ls : List L) :
    run step s (l :: ls) = run step s' ls := by
  simp only [run, h]

/-- The first step of a run that does not stop. -/
lemma run_cons_eq_ok {l : L} (h : run step s (l :: ls) = .ok s') :
    ∃ s₁, step s l = .ok s₁ ∧ run step s₁ ls = .ok s' := by
  match hs : step s l with
  | .ok s₁ => exact ⟨s₁, rfl, by simpa only [run, hs] using h⟩
  | .error p => simp [run, hs] at h

lemma run_append (ls ls' : List L) :
    run step s (ls ++ ls') = (run step s ls).bind fun s' => run step s' ls' := by
  induction ls generalizing s with
  | nil => rfl
  | cons l ls ih =>
    simp only [List.cons_append, run]
    cases step s l with
    | ok s' => exact ih
    | error p => rfl

lemma toOption_eq_some {a : α} : x.toOption = some a ↔ x = .ok a := by
  cases x <;> simp [Except.toOption]

/-! What a concrete computation gives is decidable: it is evaluated by `decide`. -/

section Evaluation

variable {ε : Type}

instance decidableOk (x : Except π α) (P : α → Prop) [DecidablePred P] :
    Decidable (∃ a, x = .ok a ∧ P a) :=
  match x with
  | .ok a => decidable_of_iff (P a) (by simp)
  | .error _ => isFalse (by simp)

instance decidableSome (x : Option α) (P : α → Prop) [DecidablePred P] :
    Decidable (∃ a, x = some a ∧ P a) :=
  match x with
  | some a => decidable_of_iff (P a) (by simp)
  | none => isFalse (by simp)

instance decidableStops [DecidableEq π] (x : Except π α) (p : π) : Decidable (x = .error p) :=
  match x with
  | .ok _ => isFalse (by simp)
  | .error q => decidable_of_iff (q = p) (by simp)

instance decidableReturns [DecidableEq α] (x : Except π (α × β)) (a : α) (P : β → Prop)
    [DecidablePred P] : Decidable (∃ b, x = .ok (a, b) ∧ P b) :=
  match x with
  | .ok (a', b) => decidable_of_iff (a' = a ∧ P b) (by aesop)
  | .error _ => isFalse (by simp)

instance decidableNested (x : Except π (Except ε α)) (P : α → Prop) [DecidablePred P] :
    Decidable (∃ a, x = .ok (.ok a) ∧ P a) :=
  match x with
  | .ok (.ok a) => decidable_of_iff (P a) (by simp)
  | .ok (.error _) => isFalse (by simp)
  | .error _ => isFalse (by simp)

end Evaluation

/-- **Induction over a run**: what every step keeps, every run keeps. -/
theorem run_invariant {I : S → Prop} (hstep : ∀ s l s', I s → step s l = .ok s' → I s')
    {s s' : S} {ls : List L} (hs : I s) (hrun : run step s ls = .ok s') : I s' := by
  induction ls generalizing s with
  | nil =>
    cases hrun
    exact hs
  | cons l ls ih =>
    obtain ⟨s₁, h1, h2⟩ := run_cons_eq_ok hrun
    exact ih (hstep s l s₁ hs h1) h2

/-- Every event of the run meets `C` in the state it happens in. -/
def Meets (step : S → L → Except π S) (C : S → L → Prop) : S → List L → Prop
  | _, [] => True
  | s, l :: ls => C s l ∧ ∀ s', step s l = .ok s' → Meets step C s' ls

/-- Whether the events of a run meet a decidable condition is found out by running it. -/
instance Meets.decidable {C : S → L → Prop} [∀ s l, Decidable (C s l)] :
    ∀ s ls, Decidable (Meets step C s ls)
  | _, [] => isTrue trivial
  | s, l :: ls =>
    match hs : step s l with
    | .ok s₁ =>
      have := Meets.decidable (C := C) s₁ ls
      decidable_of_iff (C s l ∧ Meets step C s₁ ls)
        (and_congr_right fun _ => by simp [hs])
    | .error _ => decidable_of_iff (C s l) (by simp [Meets, hs])

/-- Two conditions at once. -/
lemma Meets.and {D : S → L → Prop} (hC : Meets step C s ls) (hD : Meets step D s ls) :
    Meets step (fun s l => C s l ∧ D s l) s ls := by
  induction ls generalizing s with
  | nil => trivial
  | cons l ls ih =>
    exact ⟨⟨hC.1, hD.1⟩, fun s' hs' => ih (hC.2 s' hs') (hD.2 s' hs')⟩

/-- A run in two parts. -/
lemma meets_append {ls' : List L} (h : Meets step C s (ls ++ ls')) (hrun : run step s ls = .ok s') :
    Meets step C s ls ∧ Meets step C s' ls' := by
  induction ls generalizing s with
  | nil =>
    cases hrun
    exact ⟨trivial, h⟩
  | cons l ls ih =>
    obtain ⟨s₁, h₁, h₂⟩ := run_cons_eq_ok hrun
    obtain ⟨hls, hls'⟩ := ih (h.2 s₁ h₁) h₂
    refine ⟨⟨h.1, fun s₂ hs₂ => ?_⟩, hls'⟩
    rw [h₁] at hs₂
    exact Except.ok.inj hs₂ ▸ hls

/-- Induction over a run whose events meet a condition. -/
theorem run_invariant_of_meets {I : S → Prop} {C : S → L → Prop}
    (hstep : ∀ s l s', I s → C s l → step s l = .ok s' → I s')
    {s s' : S} {ls : List L} (hs : I s) (hC : Meets step C s ls)
    (hrun : run step s ls = .ok s') : I s' := by
  induction ls generalizing s with
  | nil =>
    cases hrun
    exact hs
  | cons l ls ih =>
    obtain ⟨s₁, h1, h2⟩ := run_cons_eq_ok hrun
    exact ih (hstep s l s₁ hs hC.1 h1) (hC.2 s₁ h1) h2

/-- **A run does not stop** if no step does from a state that the invariant holds of. -/
theorem run_total_of_meets (hstep : ∀ s l, I s → C s l → ∃ s', step s l = .ok s' ∧ I s') (hs : I s)
    (hC : Meets step C s ls) :
    ∃ s', run step s ls = .ok s' ∧ I s' := by
  induction ls generalizing s with
  | nil => exact ⟨s, rfl, hs⟩
  | cons l ls ih =>
    obtain ⟨s₁, h1, hs₁⟩ := hstep s l hs hC.1
    obtain ⟨s', h2, hs'⟩ := ih hs₁ (hC.2 s₁ h1)
    exact ⟨s', (run_cons_ok h1 ls).trans h2, hs'⟩

/-! ### Results and reasons to stop -/

/-- The computation ends with a result that `Q` holds of, or stops for a reason that `E` holds
of. -/
def Ends {α : Type} (E : π → Prop) (x : Except π α) (Q : α → Prop) : Prop :=
  match x with
  | .ok a => Q a
  | .error p => E p

section Ends

variable {E : π → Prop} {Q Q' : α → Prop}

lemma Ends.mono (h : Ends E x Q) (hQ : ∀ a, Q a → Q' a) : Ends E x Q' := by
  cases x with
  | ok a => exact hQ a h
  | error p => exact h

lemma Ends.stop {p : π} (h : E p) : Ends E (.error p : Except π α) Q := h

lemma Ends.result (h : Ends E x Q) {a : α} (hx : x = .ok a) : Q a := by
  subst hx
  exact h

lemma Ends.reason (h : Ends E x Q) {p : π} (hx : x = .error p) : E p := by
  subst hx
  exact h

/-- The rule of sequencing. -/
lemma Ends.bind {R : β → Prop} {f : α → Except π β} (hx : Ends E x Q)
    (hf : ∀ a, Q a → Ends E (f a) R) : Ends E (x >>= f) R := by
  cases x with
  | ok a => exact hf a hx
  | error p => exact hx

/-- **Induction over a run that may stop**, and whose events meet a condition. -/
theorem run_ends_of_meets (hstep : ∀ s l, I s → C s l → Ends E (step s l) I) (hs : I s)
    (hC : Meets step C s ls) : Ends E (run step s ls) I := by
  induction ls generalizing s with
  | nil => exact hs
  | cons l ls ih =>
    have hl := hstep s l hs hC.1
    rw [run]
    match h : step s l with
    | .ok s₁ => exact ih (hl.result h) (hC.2 s₁ h)
    | .error p => exact hl.reason h

/-- **Induction over a run that may stop**. -/
theorem run_ends {I : S → Prop} {E : π → Prop} (hstep : ∀ s l, I s → Ends E (step s l) I) {s : S}
    (hs : I s) (ls : List L) : Ends E (run step s ls) I := by
  induction ls generalizing s with
  | nil => exact hs
  | cons l ls ih =>
    have hl := hstep s l hs
    rw [run]
    match h : step s l with
    | .ok s₁ => exact ih (hl.result h)
    | .error p => exact hl.reason h

end Ends

/-! ### Counting events -/

/-- The number of events of a run at which `f` holds in the state they happen in. -/
def tally (step : S → L → Except π S) (f : S → L → Prop) [∀ s l, Decidable (f s l)] :
    S → List L → ℕ
  | _, [] => 0
  | s, l :: ls =>
    (if f s l then 1 else 0)
      + match step s l with
        | .ok s' => tally step f s' ls
        | .error _ => 0

/-- **Induction over a run with a count**. -/
theorem run_tally {f : S → L → Prop} [∀ s l, Decidable (f s l)] {I : S → ℕ → Prop}
    (hstep : ∀ s l s' n, I s n → C s l → step s l = .ok s' → I s' (n + if f s l then 1 else 0))
    {n : ℕ} (hs : I s n) (hC : Meets step C s ls) (hrun : run step s ls = .ok s') :
    I s' (n + tally step f s ls) := by
  induction ls generalizing s n with
  | nil =>
    cases hrun
    exact hs
  | cons l ls ih =>
    obtain ⟨s₁, h₁, h₂⟩ := run_cons_eq_ok hrun
    have hrest := ih (hstep s l s₁ n hs hC.1 h₁) (hC.2 s₁ h₁) h₂
    simpa only [tally, h₁, Nat.add_assoc] using hrest

end Foundations
