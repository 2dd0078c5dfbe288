import Mathlib.Tactic

/-!
Radix trees in a store.

A store is a family of tables `F → I → E`; an entry either leads to another table or stops the
descent with an answer, which is what `view : E → Except R F` says.  `descend` follows a list
of indices from a table and `lookup` reads one more entry at the end of it.  Nothing makes a
store a tree: the same table may be reached along several paths and from several roots.

* `descend_congr`: a descent only depends on the entries it passes.
* `Unique`: within `n` levels of a root no table is reached twice; `Once` says the same with
  entries, each table being referred to by exactly one of them.
* Three ways to change a store under a root, with what each does to every descent and every
  look-up: `relabel` (an entry that leads where it led), `link` (a blank entry that now
  leads to a fresh blank table) and `store` (an entry of a table at the bottom).
-/

namespace Foundations

namespace Radix

/-! ### Descents -/

variable {F I E R : Type} {view : E → Except R F} {leaf : E → R}

/-- Follow a list of indices down from a table. -/
def descend (view : E → Except R F) (mem : F → I → E) (f : F) : List I → Except R F
  | [] => .ok f
  | i :: is =>
    match view (mem f i) with
    | .ok g => descend view mem g is
    | .error r => .error r

/-- Follow a list of indices and read the entry at the end. -/
def lookup (view : E → Except R F) (leaf : E → R) (mem : F → I → E) (f : F) (p : List I)
    (j : I) : R :=
  match descend view mem f p with
  | .ok t => leaf (mem t j)
  | .error r => r

@[simp] lemma descend_nil (mem : F → I → E) (f : F) : descend view mem f [] = .ok f := rfl

variable {mem mem' : F → I → E} {f root : F} {p : List I} {n : ℕ}

lemma descend_cons_ok {g : F} {i : I} (h : view (mem f i) = .ok g) (is : List I) :
    descend view mem f (i :: is) = descend view mem g is := by
  simp only [descend, h]

lemma descend_cons_error {i : I} {r : R} (h : view (mem f i) = .error r) (is : List I) :
    descend view mem f (i :: is) = .error r := by
  simp only [descend, h]

/-- The first step of a descent that arrives. -/
lemma descend_cons_eq_ok {t : F} {i : I} {is : List I}
    (h : descend view mem f (i :: is) = .ok t) :
    ∃ g, view (mem f i) = .ok g ∧ descend view mem g is = .ok t := by
  cases hv : view (mem f i) with
  | ok g => exact ⟨g, rfl, (descend_cons_ok hv is).symm.trans h⟩
  | error r =>
    rw [descend_cons_error hv] at h
    cases h

/-- A descent continues where its first part ended. -/
lemma descend_append {g : F} (h : descend view mem f p = .ok g) (q : List I) :
    descend view mem f (p ++ q) = descend view mem g q := by
  induction p generalizing f with
  | nil =>
    cases h
    rfl
  | cons i p ih =>
    obtain ⟨f', hv, h⟩ := descend_cons_eq_ok h
    rw [List.cons_append, descend_cons_ok hv, ih h]

lemma descend_append_error {r : R} (h : descend view mem f p = .error r) (q : List I) :
    descend view mem f (p ++ q) = .error r := by
  induction p generalizing f with
  | nil => cases h
  | cons i p ih =>
    cases hv : view (mem f i) with
    | ok f' =>
      rw [descend_cons_ok hv] at h
      rw [List.cons_append, descend_cons_ok hv, ih h]
    | error r' =>
      rw [descend_cons_error hv] at h
      rw [List.cons_append, descend_cons_error hv, h]

/-- A descent that arrives has passed through the end of each of its beginnings. -/
lemma descend_append_ok {t : F} {q : List I} (h : descend view mem f (p ++ q) = .ok t) :
    ∃ g, descend view mem f p = .ok g ∧ descend view mem g q = .ok t := by
  cases hp : descend view mem f p with
  | ok g => exact ⟨g, rfl, by rw [← h, descend_append hp]⟩
  | error r =>
    rw [descend_append_error hp] at h
    cases h

lemma descend_singleton {i : I} :
    descend view mem f [i] = view (mem f i) := by
  cases h : view (mem f i) with
  | ok g => rw [descend_cons_ok h, descend_nil]
  | error r => rw [descend_cons_error h]

/-- **A descent depends only on the entries it passes.** -/
lemma descend_congr
    (h : ∀ q i, q ++ [i] <+: p → ∀ t, descend view mem f q = .ok t → view (mem' t i) = view (mem t
      i)) :
    descend view mem' f p = descend view mem f p := by
  induction p generalizing f with
  | nil => rfl
  | cons i p ih =>
    have hi : view (mem' f i) = view (mem f i) := h [] i ⟨p, rfl⟩ f rfl
    cases hv : view (mem f i) with
    | error r => rw [descend_cons_error hv, descend_cons_error (hi.trans hv)]
    | ok g =>
      rw [descend_cons_ok hv, descend_cons_ok (hi.trans hv)]
      refine ih fun q j hq t ht => h (i :: q) j ?_ t ?_
      · obtain ⟨r, hr⟩ := hq
        exact ⟨r, by rw [List.cons_append, List.cons_append, hr]⟩
      · rw [descend_cons_ok hv, ht]

/-- A descent that arrives still arrives where the entries it passes lead as they led. -/
lemma descend_ok_congr {t : F}
    (h : ∀ q i, q ++ [i] <+: p → ∀ u g, descend view mem f q = .ok u → view (mem u i) = .ok g → view
      (mem' u i) = .ok g) (ht : descend view mem f p = .ok t) :
    descend view mem' f p = .ok t := by
  rw [← ht]
  refine descend_congr fun q i hq u hu => ?_
  obtain ⟨q', rfl⟩ := hq
  rw [List.append_assoc, descend_append hu] at ht
  obtain ⟨g, hv, -⟩ := descend_cons_eq_ok ht
  rw [h q i ⟨q', rfl⟩ u g hu hv, hv]

lemma lookup_of_ok {t : F} {j : I} (h : descend view mem f p = .ok t) :
    lookup view leaf mem f p j = leaf (mem t j) := by
  rw [lookup, h]

lemma lookup_of_error {j : I} {r : R} (h : descend view mem f p = .error r) :
    lookup view leaf mem f p j = r := by
  rw [lookup, h]

/-- A look-up depends only on its descent and the entry it reads. -/
lemma lookup_congr {j : I} (hd : descend view mem' f p = descend view mem f p)
    (hl : ∀ t, descend view mem f p = .ok t → leaf (mem' t j) = leaf (mem t j)) :
    lookup view leaf mem' f p j = lookup view leaf mem f p j := by
  cases h : descend view mem f p with
  | ok t => rw [lookup_of_ok h, lookup_of_ok (hd.trans h), hl t h]
  | error r => rw [lookup_of_error h, lookup_of_error (hd.trans h)]

/-! ### Trees -/

/-- Within `n` levels of the root no table is reached along two paths. -/
def Unique (view : E → Except R F) (n : ℕ) (mem : F → I → E) (root : F) : Prop :=
  ∀ p q t, p.length ≤ n → q.length ≤ n → descend view mem root p = .ok t →
    descend view mem root q = .ok t → p = q

lemma Unique.congr (hu : Unique view n mem root)
    (h : ∀ p, p.length ≤ n → descend view mem' root p = descend view mem root p) :
    Unique view n mem' root := by
  intro p q t hp hq hpt hqt
  rw [h p hp] at hpt
  rw [h q hq] at hqt
  exact hu p q t hp hq hpt hqt

/-- The tables at most `n` levels below the root. -/
def Table (view : E → Except R F) (n : ℕ) (mem : F → I → E) (root t : F) : Prop :=
  ∃ p, p.length ≤ n ∧ descend view mem root p = .ok t

lemma table_congr {t : F}
    (h : ∀ p, p.length ≤ n → descend view mem' root p = descend view mem root p) :
    Table view n mem' root t ↔ Table view n mem root t := by
  constructor
  · rintro ⟨p, hp, ht⟩
    exact ⟨p, hp, by rw [← h p hp, ht]⟩
  · rintro ⟨p, hp, ht⟩
    exact ⟨p, hp, by rw [h p hp, ht]⟩

/-- Each table is referred to by one entry of the tables above the last level, and the root by
none. -/
structure Once (view : E → Except R F) (n : ℕ) (mem : F → I → E) (root : F) : Prop where
  inj : ∀ f g, Table view n mem root f → Table view n mem root g → ∀ i j t,
    view (mem f i) = .ok t → view (mem g j) = .ok t → f = g ∧ i = j
  root : ∀ f, Table view n mem root f → ∀ i, view (mem f i) ≠ .ok root

lemma Once.unique (h : Once view n mem root) :
    Unique view (n + 1) mem root := by
  intro p
  -- both paths are taken apart from the end, where the referring entries are
  induction p using List.reverseRecOn with
  | nil =>
    intro q t _ hq hp ht
    cases hp
    rcases List.eq_nil_or_concat q with rfl | ⟨q, j, rfl⟩
    · rfl
    · rw [List.length_concat] at hq
      rw [List.concat_eq_append] at ht ⊢
      obtain ⟨g, hg, hj⟩ := descend_append_ok ht
      rw [descend_singleton] at hj
      exact absurd hj (h.root g ⟨q, by omega, hg⟩ j)
  | append_singleton p i ih =>
    intro q t hp hq hpt ht
    rw [List.length_append, List.length_singleton] at hp
    obtain ⟨f, hf, hi⟩ := descend_append_ok hpt
    rw [descend_singleton] at hi
    rcases List.eq_nil_or_concat q with rfl | ⟨q, j, rfl⟩
    · cases ht
      exact absurd hi (h.root f ⟨p, by omega, hf⟩ i)
    · rw [List.length_concat] at hq
      rw [List.concat_eq_append] at ht ⊢
      obtain ⟨g, hg, hj⟩ := descend_append_ok ht
      rw [descend_singleton] at hj
      obtain ⟨rfl, rfl⟩ := h.inj f g ⟨p, by omega, hf⟩ ⟨q, by omega, hg⟩ i j t hi hj
      rw [ih q f (by omega) (by omega) hf hg]

lemma Unique.once (h : Unique view (n + 1) mem root) :
    Once view n mem root where
  inj := by
    rintro f g ⟨p, hp, hf⟩ ⟨q, hq, hg⟩ i j t hi hj
    have hpq : p ++ [i] = q ++ [j] := by
      refine h _ _ t (by simpa using hp) (by simpa using hq) ?_ ?_
      · rw [descend_append hf, descend_singleton, hi]
      · rw [descend_append hg, descend_singleton, hj]
    obtain ⟨rfl, hij⟩ := List.append_inj' hpq rfl
    rw [hf] at hg
    exact ⟨Except.ok.inj hg, List.head_eq_of_cons_eq hij⟩
  root := by
    rintro f ⟨p, hp, hf⟩ i hi
    have hnil : p ++ [i] = [] := by
      refine h _ _ root (by simpa using hp) (Nat.zero_le _) ?_ rfl
      rw [descend_append hf, descend_singleton, hi]
    simp at hnil

/-! ### Changing a store -/

lemma length_lt_of_extends {q : List I} {i : I} (h : q ++ [i] <+: p) : q.length < p.length := by
  simpa using h.length_le

lemma not_extends_self (p : List I) (i : I) : ¬p ++ [i] <+: p := fun h =>
  lt_irrefl _ (length_lt_of_extends h)

section Change

variable [DecidableEq F]

/-- Fill a table with one entry. -/
def clear (mem : F → I → E) (t : F) (e : E) : F → I → E := fun f j =>
  if f = t then e else mem f j

@[simp] lemma clear_self (mem : F → I → E) (t : F) (e : E) (j : I) : clear mem t e t j = e := by
  simp [clear]

variable {mem : F → I → E} {t : F} {e : E} {j : I} {p : List I} {r : R}

lemma clear_of_ne {f : F} (h : f ≠ t) (j : I) :
    clear mem t e f j = mem f j := by
  rw [clear, if_neg h]

variable [DecidableEq I]

/-- Change one entry. -/
def write (mem : F → I → E) (t : F) (i : I) (e : E) : F → I → E := fun f j =>
  if f = t ∧ j = i then e else mem f j

/-- Make an entry lead to a table and fill that table with a blank entry. -/
def link (mem : F → I → E) (t : F) (i : I) (e : E) (f : F) (blank : E) : F → I → E :=
  clear (write mem t i e) f blank

@[simp] lemma write_self (mem : F → I → E) (t : F) (i : I) (e : E) : write mem t i e t i = e := by
  simp [write]

lemma write_of_ne {f : F} {i : I} (h : ¬(f = t ∧ j = i)) :
    write mem t i e f j = mem f j := by
  rw [write, if_neg h]

lemma link_self {f : F} {i : I} {blank : E} (h : t ≠ f) :
    link mem t i e f blank t i = e := by
  rw [link, clear_of_ne h, write_self]

lemma link_of_ne {f g : F} {i : I} {blank : E} (hf : g ≠ f) (h : ¬(g = t ∧ j = i)) :
    link mem t i e f blank g j = mem g j := by
  rw [link, clear_of_ne hf, write_of_ne h]

/-- **Relabelling**: an entry that leads where it led changes no descent. -/
lemma descend_relabel {i : I} (h : view e = view (mem t i)) (f : F) (p : List I) :
    descend view (write mem t i e) f p = descend view mem f p := by
  refine descend_congr fun q j _ g _ => ?_
  by_cases hs : g = t ∧ j = i
  · obtain ⟨rfl, rfl⟩ := hs
    rw [write_self, h]
  · rw [write_of_ne hs]

variable {n : ℕ} {mem : F → I → E} {root t f : F} {i : I} {e blank : E} {pt : List I}

/-- **Storing at the bottom** changes no descent within the levels. -/
lemma descend_store (hu : Unique view n mem root) (hlen : pt.length = n)
    (ht : descend view mem root pt = .ok t) (hp : p.length ≤ n) :
    descend view (write mem t i e) root p = descend view mem root p := by
  refine descend_congr fun q j hq g hg => ?_
  have hq' : q.length < n := (length_lt_of_extends hq).trans_le hp
  -- the changed table is one level below every table the descent passes
  have hne : g ≠ t := by
    rintro rfl
    have := hu q pt g (by omega) (by omega) hg ht
    rw [this, hlen] at hq'
    omega
  rw [write_of_ne fun hs => hne hs.1]

lemma lookup_store_self (hu : Unique view n mem root) (hlen : pt.length = n)
    (ht : descend view mem root pt = .ok t) :
    lookup view leaf (write mem t i e) root pt i = leaf e := by
  rw [lookup_of_ok ((descend_store hu hlen ht hlen.le).trans ht), write_self]

/-- Storing at the bottom changes the look-up of one key. -/
lemma lookup_store_of_ne (hu : Unique view n mem root) (hlen : pt.length = n)
    (ht : descend view mem root pt = .ok t) (hp : p.length = n) (hne : ¬(p = pt ∧ j = i)) :
    lookup view leaf (write mem t i e) root p j = lookup view leaf mem root p j := by
  refine lookup_congr (descend_store hu hlen ht hp.le) fun g hg => ?_
  rw [write_of_ne]
  rintro ⟨rfl, rfl⟩
  exact hne ⟨hu p pt g hp.le hlen.le hg ht, rfl⟩

/-- Relabelling above the bottom changes no look-up. -/
lemma lookup_relabel (hu : Unique view n mem root) (hlen : pt.length < n)
    (ht : descend view mem root pt = .ok t) (h : view e = view (mem t i)) (hp : p.length = n) :
    lookup view leaf (write mem t i e) root p j = lookup view leaf mem root p j := by
  refine lookup_congr (descend_relabel h root p) fun g hg => ?_
  rw [write_of_ne]
  rintro ⟨rfl, -⟩
  have := hu p pt g hp.le hlen.le hg ht
  rw [this] at hp
  omega

/-! A link hangs a fresh blank table below a blank entry. -/

section Link

variable (hu : Unique view n mem root) (hlen : pt.length < n)
  (ht : descend view mem root pt = .ok t) (hf : ¬Table view n mem root f)
include hu hlen ht hf

lemma descend_link_elsewhere (hp : p.length ≤ n) (hpre : ¬pt ++ [i] <+: p) :
    descend view (link mem t i e f blank) root p = descend view mem root p := by
  refine descend_congr fun q j hq g hg => ?_
  have hq' : q.length < n := (length_lt_of_extends hq).trans_le hp
  have hgf : g ≠ f := by
    rintro rfl
    exact hf ⟨q, hq'.le, hg⟩
  rw [link_of_ne hgf]
  rintro ⟨rfl, rfl⟩
  rw [hu q pt g hq'.le hlen.le hg ht] at hq
  exact hpre hq

variable (he : view e = .ok f)
include he

/-- The new entry leads to the new table. -/
lemma descend_link_self :
    descend view (link mem t i e f blank) root (pt ++ [i]) = .ok f := by
  have htf : t ≠ f := by
    rintro rfl
    exact hf ⟨pt, hlen.le, ht⟩
  have ht' : descend view (link mem t i e f blank) root pt = .ok t := by
    rw [descend_link_elsewhere hu hlen ht hf hlen.le (not_extends_self pt i), ht]
  rw [descend_append ht', descend_singleton, link_self htf, he]

/-- Nothing is found in the new table. -/
lemma descend_link_below (hb : view blank = .error r) (j : I) (q : List I) :
    descend view (link mem t i e f blank) root (pt ++ [i] ++ j :: q) = .error r := by
  rw [descend_append (descend_link_self hu hlen ht hf he), descend_cons_error]
  rw [link, clear_self, hb]

/-- A path that arrives after a link is an old one or the new one. -/
lemma descend_link_ok (hb : view blank = .error r) {g : F} (hp : p.length ≤ n)
    (hg : descend view (link mem t i e f blank) root p = .ok g) :
    (p = pt ++ [i] ∧ g = f) ∨ descend view mem root p = .ok g := by
  by_cases hpre : pt ++ [i] <+: p
  · obtain ⟨q, rfl⟩ := hpre
    cases q with
    | nil =>
      rw [List.append_nil] at hg ⊢
      rw [descend_link_self hu hlen ht hf he] at hg
      exact .inl ⟨rfl, (Except.ok.inj hg).symm⟩
    | cons j q =>
      rw [descend_link_below hu hlen ht hf he hb] at hg
      cases hg
  · rw [descend_link_elsewhere hu hlen ht hf hp hpre] at hg
    exact .inr hg

/-- **A link adds one path**, to a table that no other path leads to. -/
lemma unique_link (hb : view blank = .error r) : Unique view n (link mem t i e f blank) root := by
  intro p q g hp hq hpg hqg
  rcases descend_link_ok hu hlen ht hf he hb hp hpg with ⟨rfl, rfl⟩ | hpg <;>
    rcases descend_link_ok hu hlen ht hf he hb hq hqg with ⟨rfl, hgf⟩ | hqg
  · rfl
  · exact absurd ⟨q, hq, hqg⟩ hf
  · rw [hgf] at hpg
    exact absurd ⟨p, hp, hpg⟩ hf
  · exact hu p q g hp hq hpg hqg

/-- The tables after a link: the old ones and the new one. -/
lemma table_link (hb : view blank = .error r) {g : F}
    (hg : Table view n (link mem t i e f blank) root g) : g = f ∨ Table view n mem root g := by
  obtain ⟨p, hp, hg⟩ := hg
  rcases descend_link_ok hu hlen ht hf he hb hp hg with ⟨-, rfl⟩ | hg
  · exact .inl rfl
  · exact .inr ⟨p, hp, hg⟩

/-- **A link changes no look-up**: below the new entry everything is as blank as the entry
was. -/
lemma lookup_link (hold : view (mem t i) = .error r) (hb : view blank = .error r)
    (hl : leaf blank = r) (hp : p.length = n) :
    lookup view leaf (link mem t i e f blank) root p j = lookup view leaf mem root p j := by
  by_cases hpre : pt ++ [i] <+: p
  · obtain ⟨q, rfl⟩ := hpre
    have hbefore : descend view mem root (pt ++ [i] ++ q) = .error r := by
      rw [List.append_assoc, descend_append ht, List.singleton_append, descend_cons_error hold]
    rw [lookup_of_error hbefore]
    cases q with
    | nil =>
      rw [List.append_nil, lookup_of_ok (descend_link_self hu hlen ht hf he), link, clear_self, hl]
    | cons k q => rw [lookup_of_error (descend_link_below hu hlen ht hf he hb k q)]
  · refine lookup_congr (descend_link_elsewhere hu hlen ht hf hp.le hpre) fun g hg => ?_
    have hgf : g ≠ f := by
      rintro rfl
      exact hf ⟨p, hp.le, hg⟩
    rw [link_of_ne hgf]
    rintro ⟨rfl, -⟩
    rw [hu p pt g hp.le hlen.le hg ht] at hp
    omega

end Link

end Change

end Radix

end Foundations
