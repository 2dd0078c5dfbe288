import Rhubarb.Foundations.Comp
import Mathlib.Data.List.Basic

/-!
Reading a string of tokens from the left.

A reader is a computation whose state is a string and an offset in it.  What it reads is told by the
tokens it passes over, so that readers are composed by putting these one after the other.

* `token`: the one step that moves the offset.
* `Accepts c ts a`: wherever `ts` stands next, `c` passes over it and yields `a`.
* `Starves e c ts`: on a string that ends after `ts`, `c` ends with the error `e`.
* `Reads R c`: whenever `c` yields a value, it has passed over tokens as `R` says.
* `Needs e c ts a`: `c` accepts `ts` and starves on every shorter string; `Needs.bind`.
* `Parses e R c`: `c` reads what `R` says and nothing else, and needs it; `Parses.bind`.
-/

namespace Foundations

/-- A string with an offset. -/
structure Cursor (τ : Type) where
  input : List τ
  offset : ℕ
  deriving DecidableEq

namespace Cursor

variable {τ : Type}

/-- The tokens that are not read yet. -/
def rest (d : Cursor τ) : List τ := d.input.drop d.offset

/-- The offset is moved. -/
def skip (d : Cursor τ) (n : ℕ) : Cursor τ := { d with offset := d.offset + n }

@[simp] lemma skip_zero (d : Cursor τ) : d.skip 0 = d := rfl

@[simp] lemma skip_skip (d : Cursor τ) (m n : ℕ) : (d.skip m).skip n = d.skip (m + n) := by
  simp [skip, Nat.add_assoc]

lemma rest_skip (d : Cursor τ) (n : ℕ) : (d.skip n).rest = d.rest.drop n := by
  simp [rest, skip, List.drop_drop]

lemma rest_skip_of_eq {d : Cursor τ} {ts rest : List τ} (h : d.rest = ts ++ rest) :
    (d.skip ts.length).rest = rest := by
  rw [rest_skip, h, List.drop_left]

lemma getElem?_offset (d : Cursor τ) : d.input[d.offset]? = d.rest.head? := by
  rw [rest, List.head?_drop]

/-- What is passed over lies in the string. -/
lemma skip_le_length {d : Cursor τ} {ts rest : List τ} (h : d.rest = ts ++ rest) (hts : ts ≠ []) :
    d.offset + ts.length ≤ d.input.length := by
  have hlen := congrArg List.length h
  have hpos := List.length_pos_iff.mpr hts
  simp only [Cursor.rest, List.length_drop, List.length_append] at hlen
  omega

end Cursor

namespace Comp

variable {π τ ε α β : Type}

/-- The next token, or the error `e` at the end of the string. -/
def token (e : ε) : Comp π (Cursor τ) ε τ := fun d =>
  match d.input[d.offset]? with
  | some t => .ok (.ok t, d.skip 1)
  | none => .ok (.error e, d)

/-- `c` passes over `ts` and yields `a`, whatever comes behind. -/
def Accepts (c : Comp π (Cursor τ) ε α) (ts : List τ) (a : α) : Prop :=
  ∀ d rest, d.rest = ts ++ rest → c d = .ok (.ok a, d.skip ts.length)

/-- `c` ends with the error `e` on a string that ends after `ts`. -/
def Starves (e : ε) (c : Comp π (Cursor τ) ε α) (ts : List τ) : Prop :=
  ∀ d, d.rest = ts → ∃ d', c d = .ok (.error e, d')

/-- Whenever `c` yields a value, it has passed over tokens as `R` says. -/
def Reads (R : List τ → α → Prop) (c : Comp π (Cursor τ) ε α) : Prop :=
  ∀ d a d', c d = .ok (.ok a, d') → ∃ ts rest, d.rest = ts ++ rest ∧ d' = d.skip ts.length ∧ R ts a

/-- `c` accepts `ts`, and a string that ends within does not suffice. -/
structure Needs (e : ε) (c : Comp π (Cursor τ) ε α) (ts : List τ) (a : α) : Prop where
  accepts : Accepts c ts a
  starves : ∀ us, us <+: ts → us ≠ ts → Starves e c us

/-- `c` yields a value exactly from the strings that `R` says, and needs all of them. -/
structure Parses (e : ε) (R : List τ → α → Prop) (c : Comp π (Cursor τ) ε α) : Prop where
  reads : Reads R c
  needs : ∀ ts a, R ts a → Needs e c ts a

variable {e : ε} {c : Comp π (Cursor τ) ε α} {f : α → Comp π (Cursor τ) ε β} {ts us : List τ}
  {a : α} {b : β}

/-! ### Tokens -/

lemma token_cons {d : Cursor τ} {t : τ} {rest : List τ} (h : d.rest = t :: rest) :
    (token e : Comp π (Cursor τ) ε τ) d = .ok (.ok t, d.skip 1) := by
  simp only [token, Cursor.getElem?_offset, h, List.head?_cons]

lemma token_nil {d : Cursor τ} (h : d.rest = []) :
    (token e : Comp π (Cursor τ) ε τ) d = .ok (.error e, d) := by
  simp only [token, Cursor.getElem?_offset, h, List.head?_nil]

lemma accepts_token (t : τ) : Accepts (token e : Comp π (Cursor τ) ε τ) [t] t :=
  fun _ _ h => token_cons h

lemma starves_token : Starves e (token e : Comp π (Cursor τ) ε τ) [] :=
  fun d h => ⟨d, token_nil h⟩

lemma reads_token : Reads (fun ts t => ts = [t]) (token e : Comp π (Cursor τ) ε τ) := by
  intro d t d' h
  match hrest : d.rest with
  | [] =>
    rw [token_nil hrest] at h
    cases h
  | t' :: rest =>
    rw [token_cons hrest] at h
    cases h
    exact ⟨[t], rest, rfl, rfl, rfl⟩

/-! ### Acceptance -/

lemma accepts_pure (a : α) : Accepts (pure a : Comp π (Cursor τ) ε α) [] a := fun _ _ _ => rfl

/-- One reader after the other. -/
lemma Accepts.bind (h : Accepts c ts a) (hf : Accepts (f a) us b) :
    Accepts (c >>= f) (ts ++ us) b := by
  intro d rest hd
  rw [List.append_assoc] at hd
  rw [bind_apply_ok (h d _ hd), hf _ rest (Cursor.rest_skip_of_eq hd), Cursor.skip_skip,
    List.length_append]

lemma Starves.bind (h : Starves e c ts) : Starves e (c >>= f) ts := by
  intro d hd
  obtain ⟨d', hc⟩ := h d hd
  exact ⟨d', bind_apply_error hc⟩

lemma Accepts.starves (h : Accepts c ts a) (hf : Starves e (f a) us) :
    Starves e (c >>= f) (ts ++ us) := by
  intro d hd
  obtain ⟨d', hd'⟩ := hf _ (Cursor.rest_skip_of_eq hd)
  exact ⟨d', by rw [bind_apply_ok (h d _ hd), hd']⟩

/-! ### Successful readers -/

variable {R R' : List τ → α → Prop} {S : α → List τ → β → Prop} {T : List τ → β → Prop}

lemma Reads.mono (h : Reads R c) (hR : ∀ ts a, R ts a → R' ts a) : Reads R' c := by
  intro d a d' hc
  obtain ⟨ts, rest, hrest, hd', hts⟩ := h d a d' hc
  exact ⟨ts, rest, hrest, hd', hR ts a hts⟩

lemma reads_pure (h : R [] a) : Reads R (pure a : Comp π (Cursor τ) ε α) := by
  intro d a' d' hc
  cases hc
  exact ⟨[], d.rest, rfl, rfl, h⟩

lemma reads_fail (e' : ε) : Reads R (fail e' : Comp π (Cursor τ) ε α) := by
  intro d a d' hc
  cases hc

lemma reads_panic (p : π) : Reads R (panic p : Comp π (Cursor τ) ε α) := by
  intro d a d' hc
  cases hc

/-- **The rule of sequencing**: what was passed over is put together. -/
lemma Reads.bind (h : Reads R c) (hf : ∀ ts a, R ts a → Reads (S a) (f a))
    (hT : ∀ ts us a b, R ts a → S a us b → T (ts ++ us) b) : Reads T (c >>= f) := by
  intro d b d' hc
  rcases bind_eq_ok hc with ⟨a, d₁, hca, hfb⟩ | ⟨_, _, _, heq⟩
  swap
  · cases heq
  obtain ⟨ts, rest, hrest, rfl, hR⟩ := h d a d₁ hca
  obtain ⟨us, rest', hrest', rfl, hS⟩ := hf ts a hR _ _ _ hfb
  rw [Cursor.rest_skip_of_eq hrest] at hrest'
  refine ⟨ts ++ us, rest', by rw [hrest, hrest', List.append_assoc], ?_, hT ts us a b hR hS⟩
  rw [Cursor.skip_skip, List.length_append]

/-! ### Exact readers -/

lemma needs_pure (a : α) : Needs e (pure a : Comp π (Cursor τ) ε α) [] a :=
  ⟨accepts_pure a, fun _ hus hne => absurd (List.prefix_nil.mp hus) hne⟩

/-- **One reader after the other.**  A string that ends within ends within the first part, or behind
it within the second. -/
lemma Needs.bind (h : Needs e c ts a) (hf : Needs e (f a) us b) : Needs e (c >>= f) (ts ++ us) b := by
  refine ⟨h.accepts.bind hf.accepts, fun vs hvs hne => ?_⟩
  rcases List.prefix_or_prefix_of_prefix hvs (List.prefix_append ts us) with hvs | ⟨ws, rfl⟩
  · by_cases hvt : vs = ts
    · subst hvt
      have hnil : us ≠ [] := by
        rintro rfl
        exact hne (List.append_nil _).symm
      simpa using h.accepts.starves (hf.starves [] List.nil_prefix hnil.symm)
    · exact (h.starves vs hvs hvt).bind
  · have hws : ws <+: us := (List.prefix_append_right_inj ts).mp hvs
    exact h.accepts.starves (hf.starves ws hws fun heq => hne (by rw [heq]))

lemma Parses.congr (h : Parses e R c) (hR : ∀ ts a, R ts a ↔ R' ts a) : Parses e R' c :=
  ⟨h.reads.mono fun ts a => (hR ts a).mp, fun ts a hts => h.needs ts a ((hR ts a).mpr hts)⟩

lemma parses_token : Parses e (fun ts t => ts = [t]) (token e : Comp π (Cursor τ) ε τ) := by
  refine ⟨reads_token, ?_⟩
  rintro _ t rfl
  refine ⟨accepts_token t, fun us hus hne => ?_⟩
  rcases List.prefix_cons_iff.mp hus with rfl | ⟨vs, rfl, hvs⟩
  · exact starves_token
  · rw [List.prefix_nil.mp hvs] at hne
    exact absurd rfl hne

lemma parses_pure (a : α) :
    Parses e (fun ts b => ts = [] ∧ b = a) (pure a : Comp π (Cursor τ) ε α) := by
  refine ⟨reads_pure ⟨rfl, rfl⟩, ?_⟩
  rintro _ _ ⟨rfl, rfl⟩
  exact needs_pure _

/-- What never yields a value reads no string. -/
lemma parses_fail (hR : ∀ ts a, ¬R ts a) (e' : ε) : Parses e R (fail e' : Comp π (Cursor τ) ε α) :=
  ⟨reads_fail e', fun ts a h => absurd h (hR ts a)⟩

/-- **The rule of sequencing.** -/
lemma Parses.bind (h : Parses e R c) (hf : ∀ ts a, R ts a → Parses e (S a) (f a)) :
    Parses e (fun us b => ∃ ts vs a, us = ts ++ vs ∧ R ts a ∧ S a vs b) (c >>= f) := by
  refine ⟨h.reads.bind (fun ts a hts => (hf ts a hts).reads)
    fun ts vs a b hts hvs => ⟨ts, vs, a, rfl, hts, hvs⟩, ?_⟩
  rintro _ b ⟨ts, vs, a, rfl, hts, hvs⟩
  exact (h.needs ts a hts).bind ((hf ts a hts).needs vs b hvs)

/-- The value that was read goes through a function. -/
lemma Parses.map (h : Parses e R c) (g : α → β) :
    Parses e (fun ts b => ∃ a, R ts a ∧ b = g a) (c >>= fun a => pure (g a)) := by
  refine (h.bind fun _ a _ => parses_pure (g a)).congr fun us b => ?_
  constructor
  · rintro ⟨ts, _, a, rfl, hts, rfl, rfl⟩
    exact ⟨a, by rwa [List.append_nil], rfl⟩
  · rintro ⟨a, hts, rfl⟩
    exact ⟨us, [], a, (List.append_nil us).symm, hts, rfl, rfl⟩

/-- A token, and what is read behind it. -/
lemma parses_token_bind {f : τ → Comp π (Cursor τ) ε β}
    (hf : ∀ t, Parses e (fun us b => T (t :: us) b) (f t)) (hnil : ∀ b, ¬T [] b) :
    Parses e T (token e >>= f) := by
  refine (parses_token.bind fun _ t _ => hf t).congr fun us b => ?_
  constructor
  · rintro ⟨_, vs, t, rfl, rfl, hvs⟩
    exact hvs
  · intro h
    cases us with
    | nil => exact absurd h (hnil b)
    | cons t us => exact ⟨[t], us, t, rfl, rfl, h⟩

/-- A pure part that may panic reads nothing. -/
lemma parses_lift_bind {x : Except π α} (hf : ∀ a, x = .ok a → Parses e (S a) (f a)) :
    Parses e (fun us b => ∃ a, x = .ok a ∧ S a us b) (lift x >>= f) := by
  cases x with
  | error p => exact ⟨reads_panic p, fun _ _ ⟨_, h, _⟩ => nomatch h⟩
  | ok a =>
    refine (hf a rfl).congr fun us b => ⟨fun h => ⟨a, rfl, h⟩, ?_⟩
    rintro ⟨_, ⟨⟩, h⟩
    exact h

end Comp

end Foundations
