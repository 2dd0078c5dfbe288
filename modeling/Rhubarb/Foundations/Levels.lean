import Mathlib.Tactic

/-!
Levelled graphs with several roots.

Where tables are shared, a store is no tree any more: the edges `next : F → I → Option F`
form a graph, and what remains is that every node has a level, its distance from the roots.
`Level next roots d t` says that `t` is `d` edges below some root.

* `level_congr`: the levels depend only on the edges that leave them.
* `level_addEdge`: hanging a fresh node without edges below a free slot adds that node, one
  level further down, and changes nothing else.
* `Levelled`: no node has two levels; `Parents`: below the first level, a node has one parent
  edge, and a node of the first level hangs under one index of the roots.
-/

namespace Foundations

namespace Levels

variable {F I : Type}

/-- The node `t` is `d` edges below a root. -/
def Level (next : F → I → Option F) (roots : Set F) : ℕ → F → Prop
  | 0, t => t ∈ roots
  | d + 1, t => ∃ u i, Level next roots d u ∧ next u i = some t

/-- The nodes of the first `n` levels below the roots. -/
def Node (next : F → I → Option F) (roots : Set F) (n : ℕ) (t : F) : Prop :=
  ∃ d ≤ n, Level next roots d t

variable {next next' : F → I → Option F} {roots roots' : Set F} {n d : ℕ} {t : F}

lemma level_mono (h : roots ⊆ roots') (ht : Level next roots d t) :
    Level next roots' d t := by
  induction d generalizing t with
  | zero => exact h ht
  | succ d ih =>
    obtain ⟨u, i, hu, hi⟩ := ht
    exact ⟨u, i, ih hu, hi⟩

/-- A node below several roots is below one of them. -/
lemma level_singleton (ht : Level next roots d t) :
    ∃ r ∈ roots, Level next {r} d t := by
  induction d generalizing t with
  | zero => exact ⟨t, ht, rfl⟩
  | succ d ih =>
    obtain ⟨u, i, hu, hi⟩ := ht
    obtain ⟨r, hr, hur⟩ := ih hu
    exact ⟨r, hr, u, i, hur, hi⟩

/-- A node below a node of level `e` is that much further down. -/
lemma level_trans {e k : ℕ} {c u : F} (hc : Level next roots e c) (hu : Level next {c} k u) :
    Level next roots (e + k) u := by
  induction k generalizing u with
  | zero =>
    obtain rfl : u = c := hu
    exact hc
  | succ k ih =>
    obtain ⟨v, i, hv, hi⟩ := hu
    exact ⟨v, i, ih hv, hi⟩

/-- **The levels depend only on the edges that leave them.** -/
lemma level_congr (h : ∀ d < n, ∀ u, Level next roots d u → ∀ i, next' u i = next u i) (hd : d ≤ n) :
    Level next' roots d t ↔ Level next roots d t := by
  induction d generalizing t with
  | zero => exact Iff.rfl
  | succ d ih =>
    constructor
    · rintro ⟨u, i, hu, hi⟩
      have hu' := (ih (by omega)).mp hu
      exact ⟨u, i, hu', by rw [← h d (by omega) u hu' i, hi]⟩
    · rintro ⟨u, i, hu, hi⟩
      exact ⟨u, i, (ih (by omega)).mpr hu, by rw [h d (by omega) u hu i, hi]⟩

/-- Adding edges takes no node away. -/
lemma level_of_edges
    (h : ∀ d < n, ∀ u, Level next roots d u → ∀ i v, next u i = some v → next' u i = some v)
    (hd : d ≤ n) (ht : Level next roots d t) :
    Level next' roots d t := by
  induction d generalizing t with
  | zero => exact ht
  | succ d ih =>
    obtain ⟨u, i, hu, hi⟩ := ht
    exact ⟨u, i, ih (by omega) hu, h d (by omega) u hu i t hi⟩

lemma node_congr (h : ∀ d < n, ∀ u, Level next roots d u → ∀ i, next' u i = next u i) :
    Node next' roots n t ↔ Node next roots n t := by
  constructor
  · rintro ⟨d, hd, ht⟩
    exact ⟨d, hd, (level_congr h hd).mp ht⟩
  · rintro ⟨d, hd, ht⟩
    exact ⟨d, hd, (level_congr h hd).mpr ht⟩

/-- No node of the first `n` levels has two levels. -/
def Levelled (next : F → I → Option F) (roots : Set F) (n : ℕ) : Prop :=
  ∀ d d' t, d ≤ n → d' ≤ n → Level next roots d t → Level next roots d' t → d = d'

lemma Levelled.mono (hl : Levelled next roots' n) (h : roots ⊆ roots') :
    Levelled next roots n :=
  fun d d' t hd hd' ht ht' => hl d d' t hd hd' (level_mono h ht) (level_mono h ht')

lemma Levelled.congr (hl : Levelled next roots n)
    (h : ∀ d < n, ∀ u, Level next roots d u → ∀ i, next' u i = next u i) :
    Levelled next' roots n := by
  intro d d' t hd hd' ht ht'
  exact hl d d' t hd hd' ((level_congr h hd).mp ht) ((level_congr h hd').mp ht')

/-- Nodes of the first level hang under one index of the roots, and nodes further down have
one parent edge. -/
structure Parents (next : F → I → Option F) (roots : Set F) (n : ℕ) : Prop where
  index : ∀ r ∈ roots, ∀ r' ∈ roots, ∀ i i' t, next r i = some t → next r' i' = some t → i = i'
  parent : ∀ d, 1 ≤ d → d < n → ∀ u u', Level next roots d u → Level next roots d u' →
    ∀ i i' t, next u i = some t → next u' i' = some t → u = u' ∧ i = i'

lemma Parents.congr (hp : Parents next roots n) (hn : 0 < n)
    (h : ∀ d < n, ∀ u, Level next roots d u → ∀ i, next' u i = next u i) :
    Parents next' roots n where
  index := by
    intro r hr r' hr' i i' t hi hi'
    rw [h 0 hn r hr] at hi
    rw [h 0 hn r' hr'] at hi'
    exact hp.index r hr r' hr' i i' t hi hi'
  parent := by
    intro d hd hdn u u' hu hu' i i' t hi hi'
    have hu := (level_congr h hdn.le).mp hu
    have hu' := (level_congr h hdn.le).mp hu'
    rw [h d hdn u hu] at hi
    rw [h d hdn u' hu'] at hi'
    exact hp.parent d hd hdn u u' hu hu' i i' t hi hi'

lemma Parents.mono (hp : Parents next roots' n) (h : roots ⊆ roots') : Parents next roots n where
  index := fun r hr r' hr' => hp.index r (h hr) r' (h hr')
  parent := fun d hd hdn u u' hu hu' =>
    hp.parent d hd hdn u u' (level_mono h hu) (level_mono h hu')

/-- With one parent edge each, what lies below two nodes of the first level is disjoint. -/
lemma Parents.disjoint_below (hp : Parents next roots n) {a b : F} (ha : Level next roots 1 a)
    (hb : Level next roots 1 b) (hd : d < n) (hat : Level next {a} d t) (hbt : Level next {b} d t) :
    a = b := by
  induction d generalizing t with
  | zero => exact hat.symm.trans hbt
  | succ d ih =>
    obtain ⟨u, i, hu, hi⟩ := hat
    obtain ⟨v, j, hv, hj⟩ := hbt
    have hu₁ := level_trans ha hu
    have hv₁ := level_trans hb hv
    obtain ⟨rfl, -⟩ := hp.parent (1 + d) (by omega) (by omega) u v hu₁ hv₁ i j t hi hj
    exact ih (by omega) hu hv

/-! ### A new node -/

section AddEdge

variable [DecidableEq F] [DecidableEq I] {t f : F} {i : I}

/-- Hang the node `f`, without edges, below the slot `i` of `t`. -/
def addEdge (next : F → I → Option F) (t : F) (i : I) (f : F) : F → I → Option F := fun u j =>
  if u = f then none else if u = t ∧ j = i then some f else next u j

lemma addEdge_new (j : I) : addEdge next t i f f j = none := by
  rw [addEdge, if_pos rfl]

lemma addEdge_self (h : t ≠ f) : addEdge next t i f t i = some f := by
  rw [addEdge, if_neg h, if_pos ⟨rfl, rfl⟩]

lemma addEdge_of_ne {u : F} {j : I} (hf : u ≠ f) (h : ¬(u = t ∧ j = i)) :
    addEdge next t i f u j = next u j := by
  rw [addEdge, if_neg hf, if_neg h]

/-- **A new edge adds one node**, one level below the node it leaves. -/
lemma level_addEdge (hfree : next t i = none) (hf : ¬Node next roots n f) (hd : d ≤ n) {u : F} :
    Level (addEdge next t i f) roots d u
      ↔ Level next roots d u ∨ u = f ∧ ∃ d₀, d = d₀ + 1 ∧ Level next roots d₀ t := by
  have hne : ∀ {k v}, k ≤ n → Level next roots k v → v ≠ f := by
    rintro k v hk hv rfl
    exact hf ⟨k, hk, hv⟩
  induction d generalizing u with
  | zero => simp [Level]
  | succ d ih =>
    constructor
    · rintro ⟨v, j, hv, hj⟩
      rcases (ih (by omega)).mp hv with hold | ⟨rfl, -⟩
      · by_cases hslot : v = t ∧ j = i
        · obtain ⟨rfl, rfl⟩ := hslot
          rw [addEdge_self (hne (by omega) hold)] at hj
          exact .inr ⟨(Option.some.inj hj).symm, d, rfl, hold⟩
        · rw [addEdge_of_ne (hne (by omega) hold) hslot] at hj
          exact .inl ⟨v, j, hold, hj⟩
      · rw [addEdge_new] at hj
        cases hj
    · rintro (⟨v, j, hv, hj⟩ | ⟨rfl, d₀, hd', ht⟩)
      · have hslot : ¬(v = t ∧ j = i) := by
          rintro ⟨rfl, rfl⟩
          rw [hfree] at hj
          cases hj
        refine ⟨v, j, (ih (by omega)).mpr (.inl hv), ?_⟩
        rw [addEdge_of_ne (hne (by omega) hv) hslot, hj]
      · obtain rfl : d = d₀ := by omega
        exact ⟨t, i, (ih (by omega)).mpr (.inl ht), addEdge_self (hne (by omega) ht)⟩

lemma node_addEdge (hfree : next t i = none) (hf : ¬Node next roots n f) {u : F}
    (hu : Node (addEdge next t i f) roots n u) : Node next roots n u ∨ u = f := by
  obtain ⟨d, hd, hu⟩ := hu
  rcases (level_addEdge hfree hf hd).mp hu with hu | ⟨rfl, -⟩
  · exact .inl ⟨d, hd, hu⟩
  · exact .inr rfl

lemma Levelled.addEdge (hl : Levelled next roots n) (hfree : next t i = none)
    (hf : ¬Node next roots n f) : Levelled (addEdge next t i f) roots n := by
  intro d d' u hd hd' hu hu'
  rcases (level_addEdge hfree hf hd).mp hu with hold | ⟨hnew, k, rfl, hk⟩ <;>
    rcases (level_addEdge hfree hf hd').mp hu' with hold' | ⟨hnew', k', rfl, hk'⟩
  · exact hl d d' u hd hd' hold hold'
  · exact absurd ⟨d, hd, hnew' ▸ hold⟩ hf
  · exact absurd ⟨d', hd', hnew ▸ hold'⟩ hf
  · rw [hl k k' t (by omega) (by omega) hk hk']

/-- An edge after the addition is an old one or the new one. -/
lemma addEdge_eq_some {u v : F} {j : I} (h : addEdge next t i f u j = some v) :
    next u j = some v ∨ (u = t ∧ j = i) ∧ v = f := by
  rw [Levels.addEdge] at h
  split_ifs at h with huf hslot
  · exact .inr ⟨hslot, (Option.some.inj h).symm⟩
  · exact .inl h

lemma Parents.addEdge (hp : Parents next roots n) (hn : 0 < n) (hfree : next t i = none)
    (hf : ¬Node next roots n f) : Parents (Levels.addEdge next t i f) roots n where
  index := by
    intro r hr r' hr' j j' v hj hj'
    rcases addEdge_eq_some hj with hold | ⟨⟨-, hji⟩, hv⟩ <;>
      rcases addEdge_eq_some hj' with hold' | ⟨⟨-, hji'⟩, hv'⟩
    · exact hp.index r hr r' hr' j j' v hold hold'
    · exact absurd ⟨1, by omega, r, j, hr, hv' ▸ hold⟩ hf
    · exact absurd ⟨1, by omega, r', j', hr', hv ▸ hold'⟩ hf
    · rw [hji, hji']
  parent := by
    intro d hd hdn u u' hu hu' j j' v hj hj'
    -- the new node has no edges, so both parents are old nodes
    have hold : ∀ {w k}, Level (Levels.addEdge next t i f) roots d w →
        Levels.addEdge next t i f w k = some v → Level next roots d w := by
      intro w k hw hk
      rcases (level_addEdge hfree hf hdn.le).mp hw with hw | ⟨rfl, -⟩
      · exact hw
      · rw [addEdge_new] at hk
        cases hk
    have hw := hold hu hj
    have hw' := hold hu' hj'
    rcases addEdge_eq_some hj with hk | ⟨⟨hut, hji⟩, hv⟩ <;>
      rcases addEdge_eq_some hj' with hk' | ⟨⟨hut', hji'⟩, hv'⟩
    · exact hp.parent d hd hdn u u' hw hw' j j' v hk hk'
    · exact absurd ⟨d + 1, hdn, u, j, hw, hv' ▸ hk⟩ hf
    · exact absurd ⟨d + 1, hdn, u', j', hw', hv ▸ hk'⟩ hf
    · exact ⟨hut.trans hut'.symm, hji.trans hji'.symm⟩

end AddEdge

end Levels

end Foundations
