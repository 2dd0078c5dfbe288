import Rhubarb.Memory.Isolation
import Rhubarb.MemoryTypes.Progress

/-!
Mapping calls as insertions, in every address space at once.

Seen from outside, the page tables below a root are a partial map from pages to leaf entries
(`found`, `pageEntry`).  The tables of several roots overlap, so one call of `map_to` may add a
page to several of these maps; but it adds that page only, and only to the roots whose L4 entry
leads to the same table (`Inserted`), and it never takes or changes an entry.

* `found_eq_some_iff`: the partial map is what the walks answer.
* `found_link`, `found_congr`, `found_leaf`: the actions of a walk on the partial maps.
* `Tidy.mapTo_inserted`: one call of `map_to`; `Tidy.mapPagesLoop_inserted`,
  `Tidy.mapPagesUntrackedLoop_inserted` and `Tidy.mapKernelPagesLoop_inserted`: the loops.
-/

namespace Rhubarb

open Foundations Level4PageTable Levels Radix

/-! ### The partial map below a table -/

/-- The leaf entry at the end of a path, if it is used. -/
def found (mem : PhysMem) : Frame → List TableIndex → TableIndex → Option PageTableEntry
  | t, [], j => if (mem t j).isUnused then none else some (mem t j)
  | t, i :: p, j =>
    match (mem t i).table with
    | some g => found mem g p j
    | none => none

/-- The leaf entry of a page below a root, if it is used. -/
def pageEntry (mem : PhysMem) (root : Frame) (page : Page) : Option PageTableEntry :=
  found mem root (upperIndices page) page.l1Index

section Found

variable {mem mem' : PhysMem} {t u g : Frame} {i j : TableIndex} {p : List TableIndex}
  {e : PageTableEntry}

lemma found_cons_some (h : (mem t i).table = some g) :
    found mem t (i :: p) j = found mem g p j := by
  simp only [found, h]

lemma found_cons_none (h : (mem t i).table = none) : found mem t (i :: p) j = none := by
  simp only [found, h]

lemma found_of_descend (h : descend view mem t p = .ok u) :
    found mem t p j = if (mem u j).isUnused then none else some (mem u j) := by
  induction p generalizing t with
  | nil =>
    cases h
    rfl
  | cons i p ih =>
    obtain ⟨g, hv, h⟩ := descend_cons_eq_ok h
    rw [found_cons_some (view_eq_ok_iff_table.mp hv), ih h]

/-- What was found stands in the table at the end of the path. -/
lemma descend_of_found (h : found mem t p j = some e) :
    ∃ u, descend view mem t p = .ok u ∧ (mem u j).isUnused = false ∧ mem u j = e := by
  induction p generalizing t with
  | nil =>
    rw [found] at h
    split_ifs at h with hu
    exact ⟨t, rfl, by simpa using hu, Option.some.inj h⟩
  | cons i p ih =>
    cases ht : (mem t i).table with
    | none =>
      rw [found_cons_none ht] at h
      cases h
    | some g =>
      rw [found_cons_some ht] at h
      obtain ⟨u, hu, hrest⟩ := ih h
      exact ⟨u, by rw [descend_cons_ok (view_eq_ok_iff_table.mpr ht), hu], hrest⟩

/-- **The partial map is what the walks answer.** -/
lemma found_eq_some_iff : found mem t p j = some e ↔ walk mem t p j = .ok (.ok e) := by
  constructor
  · intro h
    obtain ⟨u, hd, hu, rfl⟩ := descend_of_found h
    rw [walk, lookup_of_ok hd, leafAnswer, hu]
    rfl
  · intro h
    cases hd : descend view mem t p with
    | ok u =>
      rw [walk, lookup_of_ok hd, leafAnswer] at h
      split_ifs at h with hu
      · cases h
      · rw [found_of_descend hd, if_neg hu, Except.ok.inj (Except.ok.inj h)]
    | error a =>
      -- the answers that end a walk early are errors
      exfalso
      rw [walk, lookup_of_error hd] at h
      subst h
      induction p generalizing t with
      | nil => cases hd
      | cons i p ih =>
        cases hv : view (mem t i) with
        | ok g =>
          rw [descend_cons_ok hv] at hd
          exact ih hd
        | error x =>
          rw [descend_cons_error hv] at hd
          cases hd
          rw [view] at hv
          split at hv <;> cases hv

end Found

/-! ### The actions of a walk -/

section Actions

variable {mem mem' : PhysMem} {g : FrameAllocator} {roots : Set Frame} {d : ℕ} {t u : Frame}
  {i j : TableIndex} {p : List TableIndex} {e : PageTableEntry}

/-- The partial map depends on the edges of the upper tables and the entries of the last. -/
lemma found_congr
    (hedges : ∀ d < 3, ∀ v, Level (edges mem) roots d v → ∀ k, edges mem' v k = edges mem v k)
    (hleaf : ∀ v, Level (edges mem) roots 3 v → mem' v j = mem v j)
    (hu : Level (edges mem) roots d u) (hlen : d + p.length = 3) :
    found mem' u p j = found mem u p j := by
  induction p generalizing d u with
  | nil =>
    obtain rfl : d = 3 := by simpa using hlen
    rw [found, found, hleaf u hu]
  | cons i p ih =>
    rw [List.length_cons] at hlen
    have hi : (mem' u i).table = (mem u i).table := hedges d (by omega) u hu i
    cases hg : (mem u i).table with
    | none => rw [found_cons_none hg, found_cons_none (hi.trans hg)]
    | some v =>
      have hv : Level (edges mem) roots (d + 1) v := ⟨u, i, hu, hg⟩
      rw [found_cons_some hg, found_cons_some (hi.trans hg), ih hv (by omega)]

/-- A rewritten entry of an upper table that leads where it led. -/
lemma found_rewrite (h : Tables mem g roots) {d₀ : ℕ} (ht : Level (edges mem) roots d₀ t)
    (hd₀ : d₀ < 3) (he : e.table = (mem t i).table) (hu : Level (edges mem) roots d u)
    (hlen : d + p.length = 3) :
    found (write mem t i e) u p j = found mem u p j := by
  have hedges := edges_write_eq he
  refine found_congr (fun _ _ v _ k => congrFun (congrFun hedges v) k) (fun v hv => ?_) hu hlen
  rw [write_of_ne]
  rintro ⟨rfl, -⟩
  have := h.levelled 3 d₀ v le_rfl hd₀.le hv ht
  omega

/-- Nothing is found in a cleared table. -/
lemma found_of_cleared (h : ∀ k, mem t k = .unused) : found mem t p j = none := by
  cases p with
  | nil =>
    rw [found, h j]
    rfl
  | cons i p => exact found_cons_none (by rw [h i, table_unused])

/-- **A fresh table below an unused entry** changes no partial map. -/
lemma found_link (h : Tables mem g roots) {d₀ n : ℕ} {flags : PageTableFlags}
    (ht : Level (edges mem) roots d₀ t) (hd₀ : d₀ < 3) (hn : n < maxFrames)
    (hc : g.isAllocated n = false) (hun : (mem t i).isUnused = true)
    (hframe : (PageTableEntry.ofFrame ⟨n⟩ flags).frame = .ok (.ok ⟨n⟩))
    (hu : Level (edges mem) roots d u) (hlen : d + p.length = 3) :
    found (Radix.link mem t i (.ofFrame ⟨n⟩ flags) ⟨n⟩ .unused) u p j = found mem u p j := by
  have hfresh := h.fresh hn hc
  have hne : ∀ {k v}, k ≤ 3 → Level (edges mem) roots k v → v ≠ ⟨n⟩ := by
    rintro k v hk hv rfl
    exact hfresh ⟨k, hk, hv⟩
  induction p generalizing d u with
  | nil =>
    obtain rfl : d = 3 := by simpa using hlen
    have hslot : ¬(u = t ∧ j = i) := by
      rintro ⟨rfl, -⟩
      have := h.levelled 3 d₀ u le_rfl hd₀.le hu ht
      omega
    rw [found, found, link_of_ne (hne le_rfl hu) hslot]
  | cons k p ih =>
    rw [List.length_cons] at hlen
    by_cases hslot : u = t ∧ k = i
    · -- the new table is as empty as the entry was
      obtain ⟨rfl, rfl⟩ := hslot
      have hbefore : (mem u k).table = none := by rw [eq_unused hun, table_unused]
      have hafter : (Radix.link mem u k (.ofFrame ⟨n⟩ flags) ⟨n⟩ .unused u k).table = some ⟨n⟩ := by
        rw [link_self (hne (by omega) hu)]
        exact PageTableEntry.table_eq_some.mpr hframe
      rw [found_cons_none hbefore, found_cons_some hafter]
      exact found_of_cleared fun k' => by rw [Radix.link, clear_self]
    · have hsame : Radix.link mem t i (.ofFrame ⟨n⟩ flags) ⟨n⟩ .unused u k = mem u k :=
        link_of_ne (hne (by omega) hu) hslot
      cases hg : (mem u k).table with
      | none => rw [found_cons_none hg, found_cons_none (hsame ▸ hg)]
      | some v =>
        have hv : Level (edges mem) roots (d + 1) v := ⟨u, k, hu, hg⟩
        rw [found_cons_some hg, found_cons_some (hsame ▸ hg), ih hv (by omega)]

/-- **A write to a table of the last level** is seen along the paths that lead there. -/
lemma found_leaf (h : Tables mem g roots) (ht : Level (edges mem) roots 3 t)
    (hu : Level (edges mem) roots d u) (hlen : d + p.length = 3) :
    (descend view mem u p = .ok t ∧ j = i
        ∧ found (write mem t i e) u p j = if e.isUnused then none else some e)
      ∨ (¬(descend view mem u p = .ok t ∧ j = i)
        ∧ found (write mem t i e) u p j = found mem u p j) := by
  induction p generalizing d u with
  | nil =>
    by_cases hslot : u = t ∧ j = i
    · obtain ⟨rfl, rfl⟩ := hslot
      exact .inl ⟨rfl, rfl, by rw [found, write_self]⟩
    · refine .inr ⟨fun hc => hslot ⟨Except.ok.inj hc.1, hc.2⟩, ?_⟩
      rw [found, found, write_of_ne hslot]
  | cons k p ih =>
    rw [List.length_cons] at hlen
    have hsame : write mem t i e u k = mem u k :=
      write_of_ne fun hc => h.hierarchy.ne_of_level ht (by omega) hu hc.1
    cases hg : (mem u k).table with
    | none =>
      refine .inr ⟨fun hc => ?_, ?_⟩
      · obtain ⟨v, hv, -⟩ := descend_append_ok (p := [k]) (q := p) hc.1
        rw [descend_singleton, view_eq_ok_iff_table, hg] at hv
        cases hv
      · rw [found_cons_none hg, found_cons_none (hsame ▸ hg)]
    | some v =>
      have hv : Level (edges mem) roots (d + 1) v := ⟨u, k, hu, hg⟩
      have hview : view (mem u k) = .ok v := view_eq_ok_iff_table.mpr hg
      rw [found_cons_some hg, found_cons_some (hsame ▸ hg), descend_cons_ok hview]
      exact ih hv (by omega)

end Actions

/-! ### Paths are unique -/

namespace Tidy

variable {mem : PhysMem} {g : FrameAllocator} {roots : Set Frame} {r b c c' t : Frame}
  {i i' : TableIndex} {p q : List TableIndex}

/-- Below the first level, a table is reached along one path. -/
lemma path_below (h : Tidy mem g roots) (hc : Level (edges mem) roots 1 c)
    (hc' : Level (edges mem) roots 1 c') (hlen : q.length = p.length) (hq₂ : q.length ≤ 2)
    (hq : descend view mem c q = .ok t) (hp : descend view mem c' p = .ok t) :
    c = c' ∧ q = p := by
  induction q using List.reverseRecOn generalizing p t with
  | nil =>
    obtain rfl : p = [] := List.eq_nil_of_length_eq_zero hlen.symm
    cases hq
    cases hp
    exact ⟨rfl, rfl⟩
  | append_singleton q k ih =>
    rcases List.eq_nil_or_concat p with rfl | ⟨p, k', rfl⟩
    · simp at hlen
    rw [List.concat_eq_append] at hp hlen ⊢
    simp only [List.length_append, List.length_singleton, Nat.add_right_cancel_iff] at hlen hq₂
    obtain ⟨u, hu, hk⟩ := descend_append_ok hq
    obtain ⟨u', hu', hk'⟩ := descend_append_ok hp
    rw [descend_singleton, view_eq_ok_iff_table] at hk hk'
    have hlev := level_of_descend hc hu
    have hlev' := level_of_descend hc' hu'
    rw [← hlen] at hlev'
    obtain ⟨rfl, rfl⟩ := h.parents.parent (1 + q.length) (by omega) (by omega) u u' hlev hlev'
      k k' t hk hk'
    obtain ⟨hcc, rfl⟩ := ih hlen (by omega) hu hu'
    exact ⟨hcc, rfl⟩

/-- **Two roots that reach one table** do so along one path, through one table of the first
level. -/
lemma path_unique (h : Tidy mem g roots) (hr : r ∈ roots) (hb : b ∈ roots)
    (hlen : q.length = p.length) (hq₂ : q.length ≤ 2)
    (hq : descend view mem r (i :: q) = .ok t)
    (hp : descend view mem b (i' :: p) = .ok t) :
    i = i' ∧ q = p ∧ ∃ c, edges mem r i = some c ∧ edges mem b i = some c := by
  obtain ⟨c, hc, hq⟩ := descend_append_ok (p := [i]) (q := q) hq
  obtain ⟨c', hc', hp⟩ := descend_append_ok (p := [i']) (q := p) hp
  rw [descend_singleton, view_eq_ok_iff_table] at hc hc'
  obtain ⟨rfl, rfl⟩ := h.path_below ⟨r, i, hr, hc⟩ ⟨b, i', hb, hc'⟩ hlen hq₂ hq hp
  obtain rfl := h.parents.index r hr b hb i i' c hc hc'
  exact ⟨rfl, rfl, c, hc, hc'⟩

end Tidy

/-! ### Insertions -/

/-- **What a mapping call does to all partial maps**: edges and entries stay; an entry that is
new is new for a page of the call, and is seen from the roots whose L4 entry leads to the same
table as that of the call's root. -/
structure Inserted (roots : Set Frame) (r : Frame) (new : Page → PageTableEntry → Prop)
    (mem mem' : PhysMem) : Prop where
  links : ∀ d < 3, ∀ u, Level (edges mem) roots d u → ∀ i c, edges mem u i = some c →
    edges mem' u i = some c
  kept : ∀ b ∈ roots, ∀ p j e, p.length = 3 → found mem b p j = some e →
    found mem' b p j = some e
  added : ∀ b ∈ roots, ∀ p j e, p.length = 3 → found mem' b p j = some e →
    found mem b p j = some e
      ∨ ∃ page, new page e ∧ p = upperIndices page ∧ j = page.l1Index
        ∧ ∃ c, edges mem' r page.l4Index = some c ∧ edges mem' b page.l4Index = some c

namespace Inserted

variable {roots : Set Frame} {r b : Frame} {new new' : Page → PageTableEntry → Prop}
  {mem mem' mem'' : PhysMem} {page : Page} {e : PageTableEntry}

lemma refl (roots : Set Frame) (r : Frame) (new : Page → PageTableEntry → Prop)
    (mem : PhysMem) : Inserted roots r new mem mem :=
  ⟨fun _ _ _ _ _ _ h => h, fun _ _ _ _ _ _ h => h, fun _ _ _ _ _ _ h => .inl h⟩

lemma mono (h : Inserted roots r new mem mem') (hnew : ∀ page e, new page e → new' page e) :
    Inserted roots r new' mem mem' := by
  refine ⟨h.links, h.kept, fun b hb p j e hp hf => (h.added b hb p j e hp hf).imp_right ?_⟩
  rintro ⟨page, hpage, hrest⟩
  exact ⟨page, hnew page e hpage, hrest⟩

/-- The tables below the roots are still there. -/
lemma level (h : Inserted roots r new mem mem') {d : ℕ} (hd : d ≤ 3) {u : Frame}
    (hu : Level (edges mem) roots d u) : Level (edges mem') roots d u :=
  level_of_edges h.links hd hu

lemma trans (h : Inserted roots r new mem mem') (h' : Inserted roots r new mem' mem'')
    (hr : r ∈ roots) : Inserted roots r new mem mem'' := by
  refine ⟨fun d hd u hu i c hc => ?_, fun b hb p j e hp hf => ?_, fun b hb p j e hp hf => ?_⟩
  · exact h'.links d hd u (h.level hd.le hu) i c (h.links d hd u hu i c hc)
  · exact h'.kept b hb p j e hp (h.kept b hb p j e hp hf)
  · rcases h'.added b hb p j e hp hf with hf | hnew
    · refine (h.added b hb p j e hp hf).imp_right ?_
      rintro ⟨page, hpage, hpi, hji, c, hc, hc'⟩
      exact ⟨page, hpage, hpi, hji, c, h'.links 0 (by omega) r hr _ c hc,
        h'.links 0 (by omega) b hb _ c hc'⟩
    · exact .inr hnew

/-! The same for pages. -/

lemma kept_page (h : Inserted roots r new mem mem') (hb : b ∈ roots)
    (he : pageEntry mem b page = some e) : pageEntry mem' b page = some e :=
  h.kept b hb (upperIndices page) page.l1Index e rfl he

lemma isSome_kept (h : Inserted roots r new mem mem') (hb : b ∈ roots)
    (he : (pageEntry mem b page).isSome) : (pageEntry mem' b page).isSome := by
  obtain ⟨e, he⟩ := Option.isSome_iff_exists.mp he
  rw [h.kept_page hb he]
  rfl

/-- Without new entries the partial maps are what they were. -/
lemma found_eq (h : Inserted roots r (fun _ _ => False) mem mem') (hb : b ∈ roots)
    {p : List TableIndex} {j : TableIndex} (hp : p.length = 3) :
    found mem' b p j = found mem b p j := by
  cases hf : found mem b p j with
  | some e => exact h.kept b hb p j e hp hf
  | none =>
    cases hf' : found mem' b p j with
    | none => rfl
    | some e =>
      rcases h.added b hb p j e hp hf' with hold | ⟨_, hnew, -⟩
      · rw [hf] at hold
        cases hold
      · exact hnew.elim

/-- A page that is not mapped now was not mapped before. -/
lemma none_kept (h : Inserted roots r new mem mem') (hb : b ∈ roots)
    (he : pageEntry mem' b page = none) : pageEntry mem b page = none := by
  cases hp : pageEntry mem b page with
  | none => rfl
  | some e =>
    rw [h.kept_page hb hp] at he
    cases he

end Inserted

/-! ### `map_to` -/

variable {mem : PhysMem} {res : Except MappingError Frame} {e : PageTableEntry} {f : Frame}
  {page : Page} {a : ProxyAllocator} {pages : List Page} {pairs : List (Page × Page)}

/-- The leaf entry as the partial map shows it. -/
def usedEntry (e : PageTableEntry) : Option PageTableEntry := if e.isUnused then none else some e

section MapTo

variable {roots : Set Frame} {r t frame : Frame} {i : TableIndex} {page : Page}
  {flags : PageTableFlags} {s s' : PagingState ProxyAllocator}
  {new : Page → PageTableEntry → Prop}

/-- A call that changes no partial map. -/
lemma Inserted.of_found {mem' : PhysMem}
    (hlinks : ∀ d < 3, ∀ u, Level (edges mem) roots d u → ∀ i c, edges mem u i = some c → edges mem'
      u i = some c) (hfound : ∀ b ∈ roots, ∀ p j, p.length = 3 → found mem' b p j = found mem b p j) :
    Inserted roots r new mem mem' :=
  ⟨hlinks, fun b hb p j e hp hf => by rw [hfound b hb p j hp, hf],
    fun b hb p j e hp hf => .inl (by rw [← hfound b hb p j hp, hf])⟩

/-- **One step down** changes no partial map. -/
lemma Tidy.nextTable_inserted {d : ℕ} (h : s.Tidy roots)
    (ht : Level (edges s.mem) roots d t) (hd : d < 3) (hh : flags.get .hugePage = false)
    (hnext : nextTable t i flags s = .ok (res, s')) :
    Inserted roots r new s.mem s'.mem := by
  have hroot : ∀ {b p}, b ∈ roots → p.length = 3 → Level (edges s.mem) roots 0 b
      ∧ 0 + List.length (α := TableIndex) p = 3 := fun hb hp => ⟨hb, by omega⟩
  -- a used entry gets flags and leads where it led
  have hrelabel : (s.mem t i).isUnused = false → Inserted roots r new s.mem
      (write s.mem t i (withFlags (s.mem t i) flags)) := by
    intro hused
    have htable := table_withFlags hused (h.tables.filled d hd t ht i) hh
    refine Inserted.of_found (fun _ _ u _ k c hc => ?_) fun b hb p j hp => ?_
    · rw [edges_write_eq htable, hc]
    · exact found_rewrite h.tables ht hd htable (hroot hb hp).1 (hroot hb hp).2
  rcases nextTable_cases hnext with ⟨-, a, -, -, rfl⟩ | ⟨hun, f, a, g, hal, hg, -, rfl⟩
    | ⟨hused, g, -, -, rfl⟩ | ⟨hused, -, -, rfl⟩
  · exact Inserted.refl roots r new s.mem
  · obtain ⟨n, hn, hc, rfl, -⟩ := proxyAllocator_some h.tables.hint hal
    obtain rfl := frame_ofFrame_eq hn hg
    refine Inserted.of_found (fun k hk u hu j c hc' => ?_) fun b hb p j hp => ?_
    · -- the new edge leaves a free slot
      rw [edges_link hg, addEdge_of_ne, hc']
      · rintro rfl
        exact h.tables.fresh hn hc ⟨k, hk.le, hu⟩
      · rintro ⟨rfl, rfl⟩
        rw [edges, eq_unused hun, table_unused] at hc'
        cases hc'
    · exact found_link h.tables ht hd hn hc hun hg (hroot hb hp).1 (hroot hb hp).2
  · exact hrelabel hused
  · exact hrelabel hused

/-- The three steps of `map_to`. -/
lemma Tidy.level1Table_inserted (h : s.Tidy roots) (hr : r ∈ roots)
    (hh : flags.get .hugePage = false)
    (hl : level1Table r page flags s = .ok (res, s')) :
    Inserted roots r new s.mem s'.mem := by
  have hW : WalkInvariant r (fun _ => True) (·.Tidy roots) := walkInvariant_tidy hr
  have hnext : ∀ {q i t s₁ res s₂}, q ++ [i] <+: upperIndices page → s₁.Tidy roots →
      descend view s₁.mem r q = .ok t → nextTable t i flags s₁ = .ok (res, s₂) →
      Inserted roots r new s.mem s₁.mem → Inserted roots r new s.mem s₂.mem :=
    fun hq ht hd h₂ hins => hins.trans (ht.nextTable_inserted (level_of_mem hr hd)
      (length_lt_of_extends hq) hh h₂) hr
  have hdown : StepsDown page flags fun q t s₁ => (s₁.Tidy roots
      ∧ descend view s₁.mem r q = .ok t) ∧ Inserted roots r new s.mem s₁.mem :=
    ⟨fun hq hw h₂ => ⟨(hW.stepsDown trivial hh).step hq hw.1 h₂, hnext hq hw.1.1 hw.1.2 h₂ hw.2⟩⟩
  rcases hdown.level1Table ⟨⟨h, descend_nil _ _⟩, .refl _ _ _ _⟩ hl with
    ⟨g, -, -, hins⟩ | ⟨x, q, i, is, t, s₁, -, hq, ⟨⟨ht, hd⟩, hins⟩, hx⟩
  · exact hins
  · exact hnext ⟨is, hq.symm⟩ ht hd hx hins

/-- The walk down stops for want of a frame or at a huge page. -/
lemma level1Table_error {x : MappingError}
    (h : level1Table r page flags s = .ok (.error x, s')) :
    x = .frameAllocationFailed ∨ x = .mappedToHugePage := by
  have hW : StepsDown page flags fun _ _ (_ : PagingState ProxyAllocator) => True :=
    ⟨fun _ _ _ => trivial⟩
  rcases hW.level1Table trivial h with ⟨g, hg, -⟩ | ⟨y, q, i, is, t, s₁, hy, -, -, hx⟩
  · cases hg
  rcases nextTable_cases hx with ⟨-, a, -, hx, -⟩ | ⟨-, f, a, g, -, -, hx, -⟩
    | ⟨-, g, -, hx, -⟩ | ⟨-, -, hx, -⟩
  · exact .inl (Except.error.inj (hy.trans hx))
  · cases hx
  · cases hx
  · exact .inr (Except.error.inj (hy.trans hx))

/-- An entry written to the last table of a page is inserted for that page, if there was
none. -/
lemma Tidy.leaf_inserted {g : FrameAllocator} {l1 : Frame} (h : Tidy mem g roots) (hr : r ∈ roots)
    (hd : descend view mem r (upperIndices page) = .ok l1)
    (hun : (mem l1 page.l1Index).isUnused = true) :
    Inserted roots r (fun p e' => p = page ∧ e' = e) mem (write mem l1 page.l1Index e) := by
  have hl1 : Level (edges mem) roots 3 l1 := level_of_mem hr hd
  have hleaf := fun {b} (hb : b ∈ roots) (p : List TableIndex) j (hp : p.length = 3) =>
    found_leaf (d := 0) (u := b) (p := p) (j := j) (i := page.l1Index) (e := e) h.tables hl1 hb
      (by omega)
  refine ⟨fun d hd u hu i c hc => ?_, fun b hb p j e' hp hf => ?_, fun b hb p j e' hp hf => ?_⟩
  · rw [h.tables.hierarchy.leaf_edges hl1 e d hd u hu i, hc]
  · rcases hleaf hb p j hp with ⟨hlead, rfl, -⟩ | ⟨-, hsame⟩
    · rw [found_of_descend hlead, if_pos hun] at hf
      cases hf
    · rw [hsame, hf]
  · rcases hleaf hb p j hp with ⟨hlead, rfl, hnew⟩ | ⟨-, hsame⟩
    · rw [hnew] at hf
      split_ifs at hf
      obtain ⟨i, q, rfl⟩ : ∃ i q, p = i :: q := List.exists_cons_of_length_eq_add_one hp
      obtain ⟨rfl, rfl, c, hc, hc'⟩ := h.path_unique hr hb (by simp at hp; simp [hp])
        (by simp) hd hlead
      refine .inr ⟨page, ⟨rfl, (Option.some.inj hf).symm⟩, rfl, rfl, c, ?_, ?_⟩
      · rw [h.tables.hierarchy.leaf_edges hl1 e 0 (by omega) r hr, hc]
      · rw [h.tables.hierarchy.leaf_edges hl1 e 0 (by omega) b hb, hc']
    · exact .inl (by rw [← hsame, hf])

/-- What one call of `map_to` does. -/
structure MapsTo (roots : Set Frame) (r : Frame) (page : Page) (frame : Frame)
    (flags : PageTableFlags) (s s' : PagingState ProxyAllocator)
    (res : Except MappingError Unit) : Prop where
  tidy : Tidy s'.mem s'.allocator.frameAllocator roots
  inserted : Inserted roots r (fun p e => p = page ∧ e = .ofFrame frame flags) s.mem s'.mem
  ok : res = .ok () → pageEntry s.mem r page = none
    ∧ pageEntry s'.mem r page = usedEntry (.ofFrame frame flags)
  taken : ∀ f, res = .error (.pageAlreadyMapped f) → (pageEntry s.mem r page).isSome

/-- **`map_to` inserts one page**, or nothing. -/
lemma Tidy.mapTo_inserted {res : Except MappingError Unit}
    (h : s.Tidy roots) (hr : r ∈ roots)
    (hm : mapTo r page frame flags s = .ok (res, s')) :
    MapsTo roots r page frame flags s s' res := by
  have hW : WalkInvariant r (fun _ => True) (·.Tidy roots) := walkInvariant_tidy hr
  have hh := parentTableFlags_hugePage flags
  have htidy := hW.mapTo frame flags h trivial _ _ hm
  rcases mapTo_cases hm with ⟨x, h₁, rfl⟩ | ⟨l1, s₁, h₁, hcases⟩
  · refine ⟨htidy, h.level1Table_inserted hr hh h₁, nofun, fun f hc => ?_⟩
    cases hc
    rcases level1Table_error h₁ with hx | hx <;> cases hx
  have hins₁ : ∀ {new}, Inserted roots r new s.mem s₁.mem := h.level1Table_inserted hr hh h₁
  have hsame : Inserted roots r (fun _ _ => False) s.mem s₁.mem := hins₁
  obtain ⟨ht₁, hd⟩ := hW.level1Table h trivial hh _ _ h₁
  have hd := hd l1 rfl
  have hentry : pageEntry s₁.mem r page = usedEntry (s₁.mem l1 page.l1Index) := found_of_descend hd
  rcases hcases with ⟨hused, rfl, rfl⟩ | ⟨hun, rfl, rfl⟩
  · refine ⟨htidy, hins₁, nofun, fun f _ => ?_⟩
    have hsome : pageEntry s'.mem r page = some (s'.mem l1 page.l1Index) := by
      rw [hentry, usedEntry, hused]
      rfl
    rcases hsame.added r hr _ _ _ rfl hsome with hold | ⟨_, hc, -⟩
    · exact Option.isSome_iff_exists.mpr ⟨_, hold⟩
    · exact hc.elim
  · have hleaf : Inserted roots r (fun p e => p = page ∧ e = .ofFrame frame flags) s₁.mem
        (write s₁.mem l1 page.l1Index (.ofFrame frame flags)) :=
      ht₁.leaf_inserted hr hd hun
    refine ⟨htidy, hins₁.trans hleaf hr, fun _ => ⟨?_, ?_⟩, nofun⟩
    · refine hsame.none_kept hr ?_
      rw [hentry, usedEntry, if_pos hun]
    · have hr₀ : Level (edges s₁.mem) roots 0 r := hr
      have hl1 : Level (edges s₁.mem) roots 3 l1 := level_of_mem hr hd
      rcases found_leaf (i := page.l1Index) (j := page.l1Index) (e := .ofFrame frame flags)
        ht₁.tables hl1 hr₀ (p := upperIndices page) rfl with ⟨-, -, hnew⟩ | ⟨hne, -⟩
      · exact hnew
      · exact absurd ⟨hd, rfl⟩ hne

end MapTo

/-! ### What the allocator has given -/

/-- The frames given so far stay given, and those given since were free. -/
structure ProxyAllocator.Grown (a a' : ProxyAllocator) : Prop where
  hint : a'.frameAllocator.nextFreeHint ≤ maxFrames
  frames : a.proxy.allocatedFrames <+: a'.proxy.allocatedFrames
  used : ∀ n, a.frameAllocator.isAllocated n = true → a'.frameAllocator.isAllocated n = true
  fresh : ∀ f ∈ a'.proxy.allocatedFrames, f ∈ a.proxy.allocatedFrames
    ∨ a.frameAllocator.isAllocated f.number = false

namespace ProxyAllocator.Grown

variable {a a' a'' : ProxyAllocator}

lemma refl (h : a.frameAllocator.nextFreeHint ≤ maxFrames) : Grown a a :=
  ⟨h, List.prefix_refl _, fun _ h => h, fun _ h => .inl h⟩

/-- What was free later was free before. -/
lemma free (h : Grown a a') {n : ℕ} (hn : a'.frameAllocator.isAllocated n = false) :
    a.frameAllocator.isAllocated n = false := by
  by_contra hc
  rw [h.used n (by simpa using hc)] at hn
  cases hn

lemma trans (h : Grown a a') (h' : Grown a' a'') : Grown a a'' := by
  refine ⟨h'.hint, h.frames.trans h'.frames, fun n hn => h'.used n (h.used n hn), fun f hf => ?_⟩
  rcases h'.fresh f hf with hf | hfree
  · exact h.fresh f hf
  · exact .inr (h.free hfree)

lemma allocate (h : Grown a a') {f : Option Frame}
    (hal : AllocateFrame.allocateFrame a' = (f, a'')) : Grown a a'' := by
  rcases proxyAllocator_cases h.hint hal with ⟨-, rfl⟩ | ⟨n, hn, hc, -, rfl⟩
  · exact h
  · refine ⟨hn, h.frames.trans (List.prefix_append _ _), fun m hm => ?_, fun f hf => ?_⟩
    · rw [FrameAllocator.isAllocated_take, h.used m hm, Bool.or_true]
    · rcases List.mem_append.mp hf with hf | hf
      · exact h.fresh f hf
      · rw [List.mem_singleton.mp hf]
        exact .inr (h.free hc)

/-- A frame just given is one of those remembered, and not frame 0 if that is in use. -/
lemma given (h : a.frameAllocator.nextFreeHint ≤ maxFrames)
    (hz : a.frameAllocator.isAllocated 0 = true)
    (hal : AllocateFrame.allocateFrame a = (some f, a')) :
    f.number < maxFrames ∧ f.number ≠ 0 ∧ f ∈ a'.proxy.allocatedFrames
      ∧ a'.proxy.allocatedFrames.length = a.proxy.allocatedFrames.length + 1 := by
  rcases proxyAllocator_cases h hal with ⟨hf, -⟩ | ⟨n, hn, hc, hf, rfl⟩
  · cases hf
  · cases hf
    refine ⟨hn, ?_, by simp, by simp⟩
    rintro rfl
    rw [hz] at hc
    cases hc

end ProxyAllocator.Grown

/-- An entry made from a frame that is not frame 0 is used. -/
lemma usedEntry_ofFrame (hf : f.Physical) (hz : f.number ≠ 0) (flags : PageTableFlags) :
    usedEntry (.ofFrame f flags) = some (.ofFrame f flags) := by
  rw [usedEntry, if_neg]
  intro hu
  have haddr := PageTableEntry.addr_ofFrame hf flags
  rw [eq_unused hu] at haddr
  have hzero : (PageTableEntry.unused.addr).toRaw = 0 := by decide
  omega

/-! ### Loops over pages -/

section Loops

variable {roots : Set Frame} {r kroot : Frame} {flags : PageTableFlags}
  {s s' : PagingState ProxyAllocator} {res : Except MappingError Unit}

lemma mapTo_grown {frame : Frame} (ha : a.Grown s.allocator)
    (h : mapTo r page frame flags s = .ok (res, s')) : a.Grown s'.allocator :=
  mapTo_allocator (J := fun a' => a.Grown a') (fun _ _ _ h hal => h.allocate hal) ha h

/-- A new entry of `map_pages`: for one of the pages, with a frame the proxy remembers. -/
def GivenEntry (pages : List Page) (flags : PageTableFlags) (a : ProxyAllocator) (page : Page)
    (e : PageTableEntry) : Prop :=
  page ∈ pages ∧ ∃ f ∈ a.proxy.allocatedFrames, f.number < maxFrames ∧ f.number ≠ 0
    ∧ e = .ofFrame f flags

lemma GivenEntry.mono {pages' : List Page} {a' : ProxyAllocator}
    (h : GivenEntry pages flags a page e) (hpages : pages ⊆ pages')
    (hframes : a.proxy.allocatedFrames <+: a'.proxy.allocatedFrames) :
    GivenEntry pages' flags a' page e := by
  obtain ⟨hpage, f, hf, hrest⟩ := h
  exact ⟨hpages hpage, f, hframes.subset hf, hrest⟩

/-- What the loops of `map_pages` and `map_pages_untracked` do. -/
structure MapsPages (roots : Set Frame) (r : Frame) (pages : List Page) (flags : PageTableFlags)
    (s s' : PagingState ProxyAllocator) (res : Except MappingError Unit) : Prop where
  tidy : Tidy s'.mem s'.allocator.frameAllocator roots
  grown : s.allocator.Grown s'.allocator
  inserted : Inserted roots r (GivenEntry pages flags s'.allocator) s.mem s'.mem
  mapped : res = .ok () → ∀ page ∈ pages, (pageEntry s'.mem r page).isSome
  length : res = .ok () → s.allocator.proxy.allocatedFrames.length + pages.length
    ≤ s'.allocator.proxy.allocatedFrames.length

namespace MapsPages

lemma nil (h : s.Tidy roots) :
    MapsPages roots r [] flags s s (.ok ()) :=
  ⟨h, .refl h.tables.hint, .refl _ _ _ _, nofun, fun _ => le_rfl⟩

variable {page : Page} {pages : List Page} {f : Frame} {a : ProxyAllocator}
  {s₂ : PagingState ProxyAllocator} {res₂ : Except MappingError Unit}

/-- A frame is taken and the first page mapped to it: what that does, if the loop ends there. -/
lemma first (pages : List Page) (h : s.Tidy roots)
    (hz : s.allocator.frameAllocator.isAllocated 0 = true)
    (hal : AllocateFrame.allocateFrame s.allocator = (some f, a)) (hr : r ∈ roots)
    (hm : mapTo r page f flags ⟨s.mem, a⟩ = .ok (res₂, s₂)) :
    MapsTo roots r page f flags ⟨s.mem, a⟩ s₂ res₂ ∧ s.allocator.Grown s₂.allocator
      ∧ Inserted roots r (GivenEntry (page :: pages) flags s₂.allocator) s.mem s₂.mem
      ∧ s.allocator.proxy.allocatedFrames.length + 1 ≤ s₂.allocator.proxy.allocatedFrames.length
      ∧ (res₂ = .ok () → (pageEntry s₂.mem r page).isSome) := by
  obtain ⟨hlt, hne, hmem, hlen⟩ := ProxyAllocator.Grown.given h.tables.hint hz hal
  have hgrown := (ProxyAllocator.Grown.refl h.tables.hint).allocate hal
  have hW : WalkInvariant r (fun _ => True) (·.Tidy roots) := walkInvariant_tidy hr
  have htidy : Tidy s.mem a.frameAllocator roots := hW.allocate h hal
  have hto := htidy.mapTo_inserted (s := ⟨s.mem, a⟩) hr hm
  have hgrown₂ := mapTo_grown (.refl hgrown.hint) hm
  refine ⟨hto, hgrown.trans hgrown₂, hto.inserted.mono ?_, ?_, fun hok => ?_⟩
  · rintro p e ⟨rfl, rfl⟩
    exact ⟨by simp, f, hgrown₂.frames.subset hmem, hlt, hne, rfl⟩
  · rw [← hlen]
    exact hgrown₂.frames.length_le
  · have hphys : f.Physical := physical_of_lt (n := f.number) hlt
    rw [(hto.ok hok).2, usedEntry_ofFrame hphys hne]
    rfl

/-- The rest of the loop after a first page. -/
lemma cons (hgrown : s.allocator.Grown s₂.allocator)
    (hins : Inserted roots r (GivenEntry (page :: pages) flags s₂.allocator) s.mem s₂.mem)
    (hlen : s.allocator.proxy.allocatedFrames.length + 1
      ≤ s₂.allocator.proxy.allocatedFrames.length)
    (hfirst : (pageEntry s₂.mem r page).isSome) (hr : r ∈ roots)
    (hrest : MapsPages roots r pages flags s₂ s' res) :
    MapsPages roots r (page :: pages) flags s s' res := by
  refine ⟨hrest.tidy, hgrown.trans hrest.grown, ?_, fun hok p hp => ?_, fun hok => ?_⟩
  · refine (hins.mono fun p e h => ?_).trans (hrest.inserted.mono fun p e h => ?_) hr
    · exact h.mono (List.Subset.refl _) hrest.grown.frames
    · exact h.mono (List.subset_cons_self _ _) (List.prefix_refl _)
  · rcases List.mem_cons.mp hp with rfl | hp
    · exact hrest.inserted.isSome_kept hr hfirst
    · exact hrest.mapped hok p hp
  · have := hrest.length hok
    rw [List.length_cons]
    omega

end MapsPages

/-- **`map_pages` inserts its pages**, passing over those that are mapped. -/
lemma Tidy.mapPagesLoop_inserted (h : s.Tidy roots)
    (hz : s.allocator.frameAllocator.isAllocated 0 = true) (hr : r ∈ roots)
    (hm : Rhubarb.mapPagesLoop r flags pages s = .ok (res, s')) :
    MapsPages roots r pages flags s s' res := by
  induction pages generalizing s with
  | nil =>
    cases hm
    exact .nil h
  | cons page pages ih =>
    obtain ⟨f, a, res₂, s₂, hal, hmap, hrest⟩ := mapPagesLoop_cons hm
    obtain ⟨hto, hgrown, hins, hlen, hok⟩ := MapsPages.first pages h hz hal hr hmap
    rcases hrest with ⟨hres, hm⟩ | ⟨x, -, -, rfl, rfl⟩
    · have hsome : (pageEntry s₂.mem r page).isSome := by
        rcases hres with hres | hres
        · exact hok hres
        · -- the page was mapped before: it stays mapped as it was
          exact hto.inserted.isSome_kept hr (hto.taken f hres)
      exact .cons hgrown hins hlen hsome hr (ih hto.tidy (hgrown.used 0 hz) hm)
    · exact ⟨hto.tidy, hgrown, hins, nofun, nofun⟩

/-- **`map_pages_untracked` inserts its pages**, none of which was mapped if it succeeds. -/
lemma Tidy.mapPagesUntrackedLoop_inserted (h : s.Tidy roots)
    (hz : s.allocator.frameAllocator.isAllocated 0 = true) (hr : r ∈ roots)
    (hm : Rhubarb.mapPagesUntrackedLoop r flags pages s = .ok (res, s')) :
    MapsPages roots r pages flags s s' res
      ∧ (res = .ok () → ∀ page ∈ pages, pageEntry s.mem r page = none) := by
  induction pages generalizing s with
  | nil =>
    cases hm
    exact ⟨.nil h, nofun⟩
  | cons page pages ih =>
    rcases Comp.bind_eq_ok hm with ⟨frame, s₁, h₁, hm⟩ | ⟨x, s₁, h₁, -⟩
    · obtain ⟨f, a, hal, hf, rfl⟩ := unwrapFrame_eq_ok h₁
      cases hf
      rcases Comp.bind_eq_ok hm with ⟨u, s₂, h₂, hm⟩ | ⟨x, s₂, h₂, hx⟩
      · obtain ⟨hto, hgrown, hins, hlen, hok⟩ := MapsPages.first pages h hz hal hr h₂
        obtain ⟨hrest, hnone⟩ := ih hto.tidy (hgrown.used 0 hz) hm
        refine ⟨.cons hgrown hins hlen (hok rfl) hr hrest, fun hres p hp => ?_⟩
        rcases List.mem_cons.mp hp with rfl | hp
        · exact (hto.ok rfl).1
        · exact hto.inserted.none_kept hr (hnone hres p hp)
      · cases hx
        obtain ⟨hto, hgrown, hins, -, -⟩ := MapsPages.first pages h hz hal hr h₂
        exact ⟨⟨hto.tidy, hgrown, hins, nofun, nofun⟩, nofun⟩
    · obtain ⟨f, a, -, hx, -⟩ := unwrapFrame_eq_ok h₁
      cases hx

/-! Pages that share the frames of kernel pages. -/

/-- A page is translated to a frame if its entry is used and holds that frame. -/
lemma translatePage_eq_pure {root : Frame} :
    translatePage mem root page = pure f
      ↔ ∃ e, pageEntry mem root page = some e ∧ usedFrame e = pure f := by
  rw [translatePage_eq]
  constructor
  · intro h
    cases hw : walk mem root (upperIndices page) page.l1Index with
    | error p =>
      rw [hw] at h
      cases h
    | ok x =>
      cases x with
      | error y =>
        rw [hw] at h
        cases h
      | ok e =>
        rw [hw] at h
        exact ⟨e, found_eq_some_iff.mpr hw, h⟩
  · rintro ⟨e, he, hf⟩
    rw [found_eq_some_iff.mp he]
    exact hf

lemma Inserted.translatePage_kept {new : Page → PageTableEntry → Prop} {mem' : PhysMem} {b : Frame}
    (h : Inserted roots r new mem mem') (hb : b ∈ roots) (ht : translatePage mem b page = pure f) :
    translatePage mem' b page = pure f := by
  obtain ⟨e, he, hf⟩ := translatePage_eq_pure.mp ht
  exact translatePage_eq_pure.mpr ⟨e, h.kept_page hb he, hf⟩

/-- The frame of a used entry is the one at its address. -/
lemma baseAddr_of_usedFrame (h : usedFrame e = pure f) :
    f.Physical ∧ e.addr.toRaw = f.baseAddr.toRaw := by
  have haligned := e.addr_toRaw_bounds.1
  rw [usedFrame] at h
  cases hb : Frame.fromBaseAddr e.addr with
  | error p =>
    rw [hb] at h
    cases h
  | ok x =>
    rw [Frame.fromBaseAddr, if_pos ((Address.isPageAligned_iff _).mpr haligned)] at hb
    cases hc : Frame.containingAddr e.addr with
    | error p =>
      rw [hc] at hb
      cases hb
    | ok g =>
      rw [hc] at hb
      cases hb
      rw [Frame.fromBaseAddr, if_pos ((Address.isPageAligned_iff _).mpr haligned), hc] at h
      cases h
      obtain ⟨hlt, rfl⟩ := Frame.containingAddr_eq_ok hc
      have hphys : (⟨e.addr.toRaw / 4096⟩ : Frame).Physical := by
        show e.addr.toRaw / 4096 < 2 ^ 35
        omega
      refine ⟨hphys, ?_⟩
      rw [Frame.baseAddr_toRaw hphys]
      show e.addr.toRaw = e.addr.toRaw / 4096 * 4096
      omega

/-- A new entry of `map_kernel_pages_to`: for a local page, with the frame of its kernel page. -/
def SharedEntry (kroot : Frame) (pairs : List (Page × Page)) (flags : PageTableFlags)
    (mem : PhysMem) (page : Page) (e : PageTableEntry) : Prop :=
  ∃ kernelPage f, (page, kernelPage) ∈ pairs ∧ translatePage mem kroot kernelPage = pure f
    ∧ e = .ofFrame f flags

/-- What the loop of `map_kernel_pages_to` does. -/
structure SharesPages (roots : Set Frame) (kroot r : Frame) (pairs : List (Page × Page))
    (flags : PageTableFlags) (s s' : PagingState ProxyAllocator)
    (res : Except MappingError Unit) : Prop where
  tidy : Tidy s'.mem s'.allocator.frameAllocator roots
  grown : s.allocator.Grown s'.allocator
  inserted : Inserted roots r (SharedEntry kroot pairs flags s'.mem) s.mem s'.mem
  fresh : res = .ok () → ∀ page kernelPage, (page, kernelPage) ∈ pairs →
    pageEntry s.mem r page = none
  entry : res = .ok () → ∀ page kernelPage, (page, kernelPage) ∈ pairs →
    ∃ f, translatePage s'.mem kroot kernelPage = pure f
      ∧ ((PageTableEntry.ofFrame f flags).isUnused = false →
        pageEntry s'.mem r page = some (.ofFrame f flags))

/-- **`map_kernel_pages_to` inserts its pages** with the frames of the kernel pages. -/
lemma Tidy.mapKernelPagesLoop_inserted (h : s.Tidy roots)
    (hr : r ∈ roots) (hk : kroot ∈ roots)
    (hm : Rhubarb.mapKernelPagesLoop kroot r flags pairs s = .ok (res, s')) :
    SharesPages roots kroot r pairs flags s s' res := by
  induction pairs generalizing s with
  | nil =>
    cases hm
    exact ⟨h, .refl h.tables.hint, .refl _ _ _ _,
      nofun,
      nofun⟩
  | cons pair pairs ih =>
    obtain ⟨page, kernelPage⟩ := pair
    rcases Comp.bind_eq_ok hm with ⟨frame, s₁, h₁, hm'⟩ | ⟨x, s₁, h₁, -⟩
    swap
    · obtain ⟨-, f, hx, -⟩ := kernelFrame_eq_ok h₁
      cases hx
    obtain ⟨rfl, f, hf, htrans⟩ := kernelFrame_eq_ok h₁
    cases hf
    rcases Comp.bind_eq_ok hm' with ⟨u, s₂, h₂, hm⟩ | ⟨x, s₂, h₂, hx⟩
    · have hto := h.mapTo_inserted hr h₂
      have hgrown := mapTo_grown (.refl h.tables.hint) h₂
      have hrest := ih hto.tidy hm
      have htrans' := hrest.inserted.translatePage_kept hk
        (hto.inserted.translatePage_kept hk htrans)
      refine ⟨hrest.tidy, hgrown.trans hrest.grown, ?_, fun hok p k hp => ?_, fun hok p k hp => ?_⟩
      · refine (hto.inserted.mono ?_).trans (hrest.inserted.mono ?_) hr
        · rintro p e ⟨rfl, rfl⟩
          exact ⟨kernelPage, frame, by simp, htrans', rfl⟩
        · rintro p e ⟨k, g, hp, hrest⟩
          exact ⟨k, g, List.mem_cons_of_mem _ hp, hrest⟩
      · rcases List.mem_cons.mp hp with heq | hp
        · cases heq
          exact (hto.ok rfl).1
        · exact hto.inserted.none_kept hr (hrest.fresh hok p k hp)
      · rcases List.mem_cons.mp hp with heq | hp
        · cases heq
          refine ⟨frame, htrans', fun hused => hrest.inserted.kept_page hr ?_⟩
          rw [(hto.ok rfl).2, usedEntry, hused]
          rfl
        · exact hrest.entry hok p k hp
    · cases hx
      have hto := h.mapTo_inserted hr h₂
      refine ⟨hto.tidy, mapTo_grown (.refl h.tables.hint) h₂, hto.inserted.mono ?_, nofun, nofun⟩
      rintro p e ⟨rfl, rfl⟩
      exact ⟨kernelPage, frame, by simp, hto.inserted.translatePage_kept hk htrans, rfl⟩

/-- With a present entry the page is mapped where its kernel page is. -/
lemma SharesPages.shared (h : SharesPages roots kroot r pairs flags s s' res)
    (hpres : flags.get .present = true) (hok : res = .ok ()) {kernelPage : Page}
    (hp : (page, kernelPage) ∈ pairs) :
    ∃ f, translatePage s'.mem kroot kernelPage = pure f
      ∧ pageEntry s'.mem r page = some (.ofFrame f flags) := by
  obtain ⟨f, htrans, hentry⟩ := h.entry hok page kernelPage hp
  refine ⟨f, htrans, hentry (PageTableEntry.isUnused_of_isPresent ?_)⟩
  rw [PageTableEntry.isPresent_ofFrame, hpres]

end Loops

end Rhubarb
