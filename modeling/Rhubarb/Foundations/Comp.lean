import Mathlib.Tactic.Common

/-!
Computations with state, recoverable errors and panics.

A computation reads and changes a state `σ` and ends in one of three ways: with a value, with
a recoverable error `ε`, in which case the changes made so far to the state stay, or with a
panic `π`, after which there is no state.  Programs are written in `do` notation and reasoned
about through two judgements.

* `wp c Q s`: every way `c` started in `s` can end without a panic satisfies `Q`; the rules
  `wp_bind`, `wp_pure` and so on compute it along the program.
* `Spec P E X Q c`: from a state with `P`, every panic of `c` is one `E` allows, every error
  leaves a state with `X`, and every value comes with a state as `Q` says.  It is inherited by
  sequencing (`Spec.bind`) and by loops (`Spec.each`); `Keeps P E c` is the case of one invariant.
-/

namespace Foundations

variable {π α β : Type} {x : Except π α} {f : α → Except π β}

/-- What a sequence of two steps that did not fail did. -/
lemma ok_of_bind {b : β} (h : x >>= f = .ok b) : ∃ a, x = .ok a ∧ f a = .ok b := by
  cases x with
  | ok a => exact ⟨a, rfl, h⟩
  | error p => cases h

/-- Where a sequence of two steps failed. -/
lemma error_of_bind {p : π} (h : x >>= f = .error p) :
    x = .error p ∨ ∃ a, x = .ok a ∧ f a = .error p := by
  cases x with
  | ok a => exact .inr ⟨a, rfl, h⟩
  | error q =>
    cases h
    exact .inl rfl

/-- What a step ended with after a function on its value. -/
lemma ok_of_map {f : α → β} {b : β} (h : x.map f = .ok b) : ∃ y, x = .ok y ∧ f y = b := by
  cases x with
  | error p => cases h
  | ok y => exact ⟨y, rfl, Except.ok.inj h⟩

/-- A function on the value does not change where a step failed. -/
lemma error_of_map {f : α → β} {p : π} (h : x.map f = .error p) : x = .error p := by
  cases x with
  | ok a => cases h
  | error q =>
    cases h
    rfl

lemma bind_of_ok {a : α} (h : x = .ok a) (f : α → Except π β) :
    x >>= f = f a := by
  rw [h]
  rfl

/-- A computation over the state `σ` with errors `ε` and panics `π`. -/
def Comp (π σ ε α : Type) : Type := σ → Except π (Except ε α × σ)

namespace Comp

variable {π σ τ ε ε' α β ι : Type}

/-- Ending with a value, the state unchanged. -/
def ret (a : α) : Comp π σ ε α := fun s => .ok (.ok a, s)

/-- Sequencing: an error or a panic of the first part is the end of the whole. -/
def seq (x : Comp π σ ε α) (f : α → Comp π σ ε β) : Comp π σ ε β := fun s =>
  match x s with
  | .ok (.ok a, s') => f a s'
  | .ok (.error e, s') => .ok (.error e, s')
  | .error p => .error p

instance : Monad (Comp π σ ε) where
  pure := ret
  bind := seq

instance : LawfulMonad (Comp π σ ε) := by
  refine LawfulMonad.mk' _ (fun x => ?_) (fun a f => rfl) fun x f g => ?_
  · funext s
    show seq x ret s = x s
    rw [seq]
    rcases x s with p | ⟨e | a, s'⟩ <;> rfl
  · funext s
    show seq (seq x f) g s = seq x (fun a => seq (f a) g) s
    simp only [seq]
    rcases x s with p | ⟨e | a, s'⟩ <;> rfl

/-- The current state. -/
def read : Comp π σ ε σ := fun s => .ok (.ok s, s)

/-- Changing the state. -/
def modify (f : σ → σ) : Comp π σ ε Unit := fun s => .ok (.ok (), f s)

/-- Ending with a recoverable error. -/
def fail (e : ε) : Comp π σ ε α := fun s => .ok (.error e, s)

/-- A pure part of the program that may panic. -/
def lift (x : Except π α) : Comp π σ ε α := fun s =>
  match x with
  | .ok a => .ok (.ok a, s)
  | .error p => .error p

/-- Ending in a panic. -/
def panic (p : π) : Comp π σ ε α := fun _ => .error p

/-- Running a computation and handing its error to the caller as a value. -/
def attempt (x : Comp π σ ε α) : Comp π σ ε' (Except ε α) := fun s =>
  match x s with
  | .ok (r, s') => .ok (.ok r, s')
  | .error p => .error p

/-- A loop over a list. -/
def each (f : ι → Comp π σ ε Unit) : List ι → Comp π σ ε Unit
  | [] => ret ()
  | i :: is => seq (f i) fun _ => each f is

/-! ### Running -/

@[simp] lemma pure_apply (a : α) (s : σ) :
    (pure a : Comp π σ ε α) s = .ok (.ok a, s) := rfl

@[simp] lemma ret_apply (a : α) (s : σ) : (ret a : Comp π σ ε α) s = .ok (.ok a, s) := rfl

@[simp] lemma read_apply (s : σ) : (read : Comp π σ ε σ) s = .ok (.ok s, s) := rfl

@[simp] lemma modify_apply (f : σ → σ) (s : σ) :
    (modify f : Comp π σ ε Unit) s = .ok (.ok (), f s) := rfl

@[simp] lemma fail_apply (e : ε) (s : σ) : (fail e : Comp π σ ε α) s = .ok (.error e, s) := rfl

@[simp] lemma panic_apply (p : π) (s : σ) : (panic p : Comp π σ ε α) s = .error p := rfl

@[simp] lemma lift_ok_apply (a : α) (s : σ) :
    (lift (.ok a) : Comp π σ ε α) s = .ok (.ok a, s) := rfl

@[simp] lemma lift_error_apply (p : π) (s : σ) :
    (lift (.error p) : Comp π σ ε α) s = .error p := rfl

variable {x : Comp π σ ε α} {f : α → Comp π σ ε β} {s s' : σ} {Q : Except ε α → σ → Prop}

lemma bind_apply_ok {a : α} (h : x s = .ok (.ok a, s')) : (x >>= f) s = f a s' := by
  show seq x f s = _
  simp only [seq, h]

lemma bind_apply_error {e : ε} (h : x s = .ok (.error e, s')) :
    (x >>= f) s = .ok (.error e, s') := by
  show seq x f s = _
  simp only [seq, h]

lemma bind_apply_panic {p : π} (h : x s = .error p) : (x >>= f) s = .error p := by
  show seq x f s = _
  simp only [seq, h]

/-- What a sequence that did not panic did. -/
lemma bind_eq_ok {r : Except ε β × σ} (h : (x >>= f) s = .ok r) :
    (∃ a s', x s = .ok (.ok a, s') ∧ f a s' = .ok r)
      ∨ ∃ e s', x s = .ok (.error e, s') ∧ r = (.error e, s') := by
  change seq x f s = _ at h
  match hx : x s with
  | .ok (.ok a, s') =>
    simp only [seq, hx] at h
    exact .inl ⟨a, s', rfl, h⟩
  | .ok (.error e, s') =>
    simp only [seq, hx, Except.ok.injEq] at h
    exact .inr ⟨e, s', rfl, h.symm⟩
  | .error p => simp [seq, hx] at h

/-- The error of an attempted computation is handed on with the state it left behind. -/
lemma attempt_eq_ok {r : Except ε' (Except ε α)} (h : attempt x s = .ok (r, s')) :
    ∃ r', x s = .ok (r', s') ∧ r = .ok r' := by
  match hx : x s with
  | .ok (r', s₁) =>
    simp only [attempt, hx, Except.ok.injEq, Prod.mk.injEq] at h
    exact ⟨r', by rw [h.2], h.1.symm⟩
  | .error p => simp [attempt, hx] at h

lemma attempt_apply {r : Except ε α} (h : x s = .ok (r, s')) :
    (attempt x : Comp π σ ε' (Except ε α)) s = .ok (.ok r, s') := by
  simp only [attempt, h]

lemma attempt_apply_panic {p : π} (h : x s = .error p) :
    (attempt x : Comp π σ ε' (Except ε α)) s = .error p := by
  simp only [attempt, h]

/-- What a concrete computation returns is decidable. -/
instance decidableReturned (c : Comp π σ ε α) (s : σ) (P : α → σ → Prop)
    [∀ a s', Decidable (P a s')] : Decidable (∃ a s', c s = .ok (.ok a, s') ∧ P a s') :=
  match c s with
  | .ok (.ok a, s') => decidable_of_iff (P a s') (by simp)
  | .ok (.error _, _) => isFalse (by simp)
  | .error _ => isFalse (by simp)

/-! ### Weakest preconditions -/

/-- Every end of `c` from `s` that is not a panic satisfies `Q`. -/
def wp (c : Comp π σ ε α) (Q : Except ε α → σ → Prop) (s : σ) : Prop :=
  ∀ r s', c s = .ok (r, s') → Q r s'

lemma wp.mono {c : Comp π σ ε α} {Q' : Except ε α → σ → Prop} (h : wp c Q s)
    (hQ : ∀ r s', Q r s' → Q' r s') : wp c Q' s :=
  fun r s' hc => hQ r s' (h r s' hc)

@[simp] lemma wp_pure {a : α} :
    wp (pure a : Comp π σ ε α) Q s ↔ Q (.ok a) s := by
  simp [wp]

@[simp] lemma wp_fail {e : ε} :
    wp (fail e : Comp π σ ε α) Q s ↔ Q (.error e) s := by
  simp [wp]

/-- The rule of sequencing: the second part has to be right after every end of the first. -/
lemma wp_bind {Q : Except ε β → σ → Prop}
    (h : wp x (fun r s' => match r with | .ok a => wp (f a) Q s' | .error e => Q (.error e) s') s) :
    wp (x >>= f) Q s := by
  intro r s' hr
  rcases bind_eq_ok hr with ⟨a, s₁, hx, hf⟩ | ⟨e, s₁, hx, he⟩
  · exact h _ _ hx r s' hf
  · cases he
    exact h _ _ hx

/-! ### Specifications with panics -/

/-- From a state with `P`: the panics of `c` are allowed by `E`, its errors leave a state with `X`
and its values come with a state as `Q` says. -/
def Spec (P : σ → Prop) (E : π → Prop) (X : σ → Prop) (Q : α → σ → Prop) (c : Comp π σ ε α) :
    Prop :=
  ∀ s, P s → (∀ p, c s = .error p → E p) ∧ (∀ e s', c s = .ok (.error e, s') → X s')
    ∧ ∀ a s', c s = .ok (.ok a, s') → Q a s'

/-- The invariant `P` is kept, and the panics are allowed by `E`. -/
def Keeps (P : σ → Prop) (E : π → Prop) (c : Comp π σ ε α) : Prop := Spec P E P (fun _ => P) c

section Specs

variable {P P' X X' : σ → Prop} {E E' : π → Prop} {Q Q' : α → σ → Prop} {R : β → σ → Prop}
  {c : Comp π σ ε α}

/-- A specification is checked end by end. -/
lemma Spec.intro
    (h : ∀ s, P s → match c s with
      | .error p => E p
      | .ok (.error _, s') => X s'
      | .ok (.ok a, s') => Q a s') : Spec P E X Q c := by
  refine fun s hs => ⟨fun p hp => ?_, fun e s' he => ?_, fun a s' ha => ?_⟩
  · have := h s hs
    rwa [hp] at this
  · have := h s hs
    rwa [he] at this
  · have := h s hs
    rwa [ha] at this

lemma Spec.mono (h : Spec P E X Q c) (hP : ∀ s, P' s → P s) (hE : ∀ p, E p → E' p)
    (hX : ∀ s, X s → X' s) (hQ : ∀ a s, Q a s → Q' a s) :
    Spec P' E' X' Q' c := by
  intro s hs
  obtain ⟨h₁, h₂, h₃⟩ := h s (hP s hs)
  exact ⟨fun p hp => hE p (h₁ p hp), fun e s' he => hX s' (h₂ e s' he),
    fun a s' ha => hQ a s' (h₃ a s' ha)⟩

/-- A part of the precondition that does not speak of the state is a hypothesis. -/
lemma Spec.assume {φ : Prop} (h : φ → Spec P E X Q c) :
    Spec (fun s => P s ∧ φ) E X Q c :=
  fun s hs => h hs.2 s hs.1

lemma Spec.pure {a : α} (h : ∀ s, P s → Q a s) : Spec P E X Q (Pure.pure a : Comp π σ ε α) :=
  Spec.intro h

lemma Spec.fail {e : ε} (h : ∀ s, P s → X s) : Spec P E X Q (fail e : Comp π σ ε α) :=
  Spec.intro h

lemma Spec.panic {p : π} (h : E p) : Spec P E X Q (panic p : Comp π σ ε α) :=
  Spec.intro fun _ _ => h

lemma Spec.read {Q : σ → σ → Prop} (h : ∀ s, P s → Q s s) :
    Spec P E X Q (read : Comp π σ ε σ) :=
  Spec.intro h

lemma Spec.read_same : Spec P E X (fun _ => P) (Comp.read : Comp π σ ε σ) := Spec.read fun _ hs => hs

lemma Spec.modify {f : σ → σ} {Q : Unit → σ → Prop} (h : ∀ s, P s → Q () (f s)) :
    Spec P E X Q (modify f : Comp π σ ε Unit) :=
  Spec.intro h

lemma Spec.lift {x : Except π α} (hE : ∀ p, x = .error p → E p)
    (h : ∀ a s, x = .ok a → P s → Q a s) : Spec P E X Q (lift x : Comp π σ ε α) := by
  cases x with
  | ok a => exact Spec.pure fun s hs => h a s rfl hs
  | error p => exact Spec.panic (hE p rfl)

/-- The rule of sequencing. -/
lemma Spec.bind {f : α → Comp π σ ε β} (h : Spec P E X Q c) (hf : ∀ a, Spec (Q a) E X R (f a)) :
    Spec P E X R (c >>= f) := by
  intro s hs
  obtain ⟨h₁, h₂, h₃⟩ := h s hs
  match hc : c s with
  | .error p =>
    rw [bind_apply_panic hc]
    refine ⟨fun p' hp => ?_, fun e s' he => ?_, fun b s' hb => ?_⟩
    · cases hp
      exact h₁ p hc
    · cases he
    · cases hb
  | .ok (.error e, s₁) =>
    rw [bind_apply_error hc]
    refine ⟨fun p' hp => ?_, fun e s' he => ?_, fun b s' hb => ?_⟩
    · cases hp
    · cases he
      exact h₂ _ _ hc
    · cases hb
  | .ok (.ok a, s₁) =>
    rw [bind_apply_ok hc]
    exact hf a s₁ (h₃ a s₁ hc)

/-- An error that is handed on as a value. -/
lemma Spec.attempt {Q : Except ε α → σ → Prop}
    (h : Spec P E (fun s => ∀ e, Q (.error e) s) (fun a => Q (.ok a)) c) :
    Spec P E X Q (attempt c : Comp π σ ε' (Except ε α)) := by
  intro s hs
  obtain ⟨h₁, h₂, h₃⟩ := h s hs
  refine ⟨fun p hp => ?_, fun e s' he => ?_, fun r s' hr => ?_⟩
  · match hc : c s with
    | .error q =>
      rw [attempt_apply_panic hc] at hp
      cases hp
      exact h₁ p hc
    | .ok (r, s₁) =>
      rw [attempt_apply hc] at hp
      cases hp
  · obtain ⟨r', -, hr'⟩ := attempt_eq_ok he
    cases hr'
  · obtain ⟨r', hc, hr'⟩ := attempt_eq_ok hr
    cases hr'
    cases r with
    | ok a => exact h₃ a s' hc
    | error e => exact h₂ e s' hc e

lemma Keeps.attempt (h : Keeps P E c) :
    Keeps P E (attempt c : Comp π σ ε' (Except ε α)) :=
  Spec.attempt (h.mono (fun _ hs => hs) (fun _ hp => hp) (fun _ hs _ => hs) fun _ _ hs => hs)

/-- A loop keeps what its body keeps. -/
lemma Spec.each {f : ι → Comp π σ ε Unit} {is : List ι}
    (h : ∀ i ∈ is, Spec P E X (fun _ => P) (f i)) :
    Spec P E X (fun _ => P) (each f is : Comp π σ ε Unit) := by
  induction is with
  | nil => exact Spec.pure fun _ hs => hs
  | cons i is ih =>
    exact Spec.bind (h i List.mem_cons_self) fun _ =>
      ih fun j hj => h j (List.mem_cons_of_mem i hj)

end Specs

/-! ### Bounded computations -/

/-- `c` is `d` with a tighter bound: it does the same, or runs into the bound, the panic `p`. -/
def Below (p : π) (c d : Comp π σ ε α) : Prop := ∀ s, c s = .error p ∨ c s = d s

section Bounds

variable {p : π} {c d : Comp π σ ε α}

lemma Below.refl (c : Comp π σ ε α) : Below p c c := fun _ => .inr rfl

lemma Below.trans {e : Comp π σ ε α} (h : Below p c d) (h' : Below p d e) : Below p c e := by
  intro s
  rcases h s with hc | hc
  · exact .inl hc
  · rcases h' s with hd | hd
    · exact .inl (hc.trans hd)
    · exact .inr (hc.trans hd)

lemma Below.bind {f g : α → Comp π σ ε β} (h : Below p c d) (hf : ∀ a, Below p (f a) (g a)) :
    Below p (c >>= f) (d >>= g) := by
  intro s
  rcases h s with hc | hc
  · exact .inl (bind_apply_panic hc)
  match hd : d s with
  | .error q =>
    rw [bind_apply_panic (hc.trans hd), bind_apply_panic hd]
    exact .inr rfl
  | .ok (.error e, s₁) =>
    rw [bind_apply_error (hc.trans hd), bind_apply_error hd]
    exact .inr rfl
  | .ok (.ok a, s₁) =>
    rw [bind_apply_ok (hc.trans hd), bind_apply_ok hd]
    exact hf a s₁

lemma Below.attempt (h : Below p c d) :
    Below p (attempt c : Comp π σ ε' (Except ε α)) (attempt d) := by
  intro s
  rcases h s with hc | hc
  · exact .inl (attempt_apply_panic hc)
  · exact .inr (by rw [Comp.attempt, Comp.attempt, hc])

lemma Below.each {f g : ι → Comp π σ ε Unit} (h : ∀ i, Below p (f i) (g i)) (is : List ι) :
    Below p (each f is) (each g is) := by
  induction is with
  | nil => exact Below.refl _
  | cons i is ih => exact Below.bind (h i) fun _ => ih

end Bounds

end Comp

end Foundations
