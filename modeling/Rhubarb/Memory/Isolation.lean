import Rhubarb.Foundations.Runs
import Rhubarb.Memory.Tables

/-!
Isolation of grants between processes.

A page is usable from user mode when `PRESENT` and `USER_ACCESSIBLE` stand at every level of
its walk (`userAccess`).  The L4 entries of two processes are their own, but the tables below
a copied L4 entry are shared, so a grant to one process is half a grant to every other: it
becomes a whole one as soon as the other's L4 entry is user-accessible
(`grant_leaks_through_shared_table`).

* `access_of_change`: a change on the path of a page of one process changes no access of
  another one, unless the two L4 entries of that page lead to the same table and the other's
  grants user access (`Apart`).
* `grants_isolated_run`: along every run of calls on a process whose pages are apart from
  those of another process, the access of the other process is unchanged.
-/

namespace Rhubarb

open Foundations Level4PageTable Levels Radix

/-! ### User access -/

/-- Whether a page can be used, and whether it can be written, from user mode. -/
structure UserAccess where
  user : Bool
  writable : Bool
  deriving DecidableEq, Repr

/-- The entry has `PRESENT` and `USER_ACCESSIBLE`. -/
def grants (e : PageTableEntry) : Bool := e.isPresent && e.flags.get .userAccessible

/-- The access through the entry `i` of the table `t` and the indices after it.  A huge leaf
ends the walk early, except in the last table, where its bit means something else. -/
def access (mem : PhysMem) : Frame → TableIndex → List TableIndex → UserAccess
  | t, i, [] =>
    if grants (mem t i) then ⟨true, (mem t i).flags.get .writable⟩ else ⟨false, false⟩
  | t, i, j :: p =>
    if grants (mem t i) then
      if (mem t i).isHugePage then ⟨true, (mem t i).flags.get .writable⟩
      else
        match (mem t i).table with
        | some g =>
          ⟨(access mem g j p).user,
            (access mem g j p).writable && (mem t i).flags.get .writable⟩
        | none => ⟨false, false⟩
    else ⟨false, false⟩

/-- The access to a page of an address space from user mode. -/
def userAccess (mem : PhysMem) (root : Frame) (page : Page) : UserAccess :=
  access mem root page.l4Index [page.l3Index, page.l2Index, page.l1Index]

variable {mem mem' mem₀ : PhysMem} {g : FrameAllocator} {m m' : MemoryState}

/-- Access depends only on the tables below. -/
lemma access_congr {c : Frame} {n : ℕ}
    (h : ∀ d ≤ n, ∀ u, Level (edges mem) {c} d u → ∀ k, mem' u k = mem u k) {d : ℕ} {t : Frame}
    (ht : Level (edges mem) {c} d t) {i : TableIndex} {p : List TableIndex}
    (hlen : d + p.length ≤ n) : access mem' t i p = access mem t i p := by
  induction p generalizing d t i with
  | nil =>
    have hslot := h d (by simpa using hlen) t ht i
    simp only [access, hslot]
  | cons j p ih =>
    rw [List.length_cons] at hlen
    have hslot := h d (by omega) t ht i
    simp only [access, hslot]
    cases hg : (mem t i).table with
    | none => rfl
    | some g =>
      have hlevel : Level (edges mem) {c} (d + 1) g := ⟨t, i, ht, hg⟩
      simp only [ih hlevel (by omega)]

/-! ### Pages apart -/

/-- At an L4 index, the entry of the root `r` is unused, or leads elsewhere than that of the
root `b`, or `b` grants nothing there. -/
def Apart (mem : PhysMem) (r b : Frame) (i : TableIndex) : Prop :=
  (mem r i).isUnused = true ∨ (mem r i).table ≠ (mem b i).table ∨ grants (mem b i) = false

section Change

variable {mem mem' : PhysMem} {g : FrameAllocator} {roots : Set Frame} {r b t : Frame}
  {i j : TableIndex} {q p : List TableIndex}

/-- A table on a path that starts with `i` is below the table of that entry. -/
lemma level_below {d : ℕ} (hq : q.length = d + 1) (hpre : q <+: i :: p)
    (hd : descend view mem r q = .ok t) :
    ∃ c, (mem r i).table = some c ∧ Level (edges mem) {c} d t := by
  cases q with
  | nil => cases hq
  | cons k q =>
    obtain ⟨rfl, -⟩ := List.cons_prefix_cons.mp hpre
    obtain ⟨c, hv, hd⟩ := descend_cons_eq_ok hd
    have hc : Level (edges mem) {c} 0 c := rfl
    have ht := level_of_descend hc hd
    rw [Nat.zero_add, show q.length = d from by simpa using hq] at ht
    exact ⟨c, view_eq_ok_iff_table.mp hv, ht⟩

/-- A table that a walk from `r` passes is not another root. -/
lemma ne_root (hT : Tables mem g roots) (hr : r ∈ roots) (hb : b ∈ roots) (hrb : r ≠ b)
    (hq : q.length ≤ 3) (hd : descend view mem r q = .ok t) : b ≠ t := by
  rintro rfl
  cases q with
  | nil =>
    cases hd
    exact hrb rfl
  | cons k q =>
    have hlevel : Level (edges mem) roots 0 r := hr
    have ht := level_of_descend hlevel hd
    have := hT.levelled 0 _ b (by omega) (by simpa using hq) hb ht
    simp at this

/-- A table on a path of `r` is not below an entry of `b` that grants access: otherwise both L4
entries would lead to one table. -/
lemma ne_of_below (hT : Tables mem g roots) (hP : Parents (edges mem) roots 3) (hr : r ∈ roots)
    (hb : b ∈ roots) (hpre : q <+: i :: p) (hq : q.length ≤ 3)
    (hd : descend view mem r q = .ok t) (hapart : Apart mem r b i) {w : TableIndex}
    {c u : Frame} (hgr : grants (mem b w) = true) (hc : (mem b w).table = some c) {d : ℕ}
    (hd₂ : d ≤ 2) (hu : Level (edges mem) {c} d u) : u ≠ t := by
  rintro rfl
  have hc₁ : Level (edges mem) roots 1 c := ⟨b, w, hb, hc⟩
  have hlevel := level_trans hc₁ hu
  have hroot : Level (edges mem) roots 0 r := hr
  have hqlen : q.length = d + 1 := by
    have := hT.levelled _ _ u (by omega) (by omega) (level_of_descend hroot hd) hlevel
    omega
  obtain ⟨c', hc', hu'⟩ := level_below hqlen hpre hd
  obtain rfl := hP.disjoint_below ⟨r, i, hr, hc'⟩ hc₁ (by omega) hu' hu
  obtain rfl := hP.index r hr b hb i w c' hc' hc
  rcases hapart with hun | hne | hno
  · rw [eq_unused hun, table_unused] at hc'
    cases hc'
  · exact hne (hc'.trans hc.symm)
  · rw [hgr] at hno
    cases hno

/-- **A change on a path of one root changes no access below another**, if the two are apart
at the path's L4 index. -/
lemma access_of_change (hT : Tables mem g roots) (hP : Parents (edges mem) roots 3)
    (hr : r ∈ roots) (hb : b ∈ roots) (hrb : r ≠ b) (hpre : q <+: i :: p) (hq : q.length ≤ 3)
    (hd : descend view mem r q = .ok t) (hapart : Apart mem r b i)
    (hsame : ∀ u k, Node (edges mem) roots 3 u → ¬(u = t ∧ k = j) → mem' u k = mem u k)
    (w : TableIndex) (w' : List TableIndex) (hw : w'.length ≤ 3) :
    access mem' b w w' = access mem b w w' := by
  have hbnode : Node (edges mem) roots 3 b := ⟨0, by omega, hb⟩
  have hslot : mem' b w = mem b w := hsame b w hbnode fun hc => ne_root hT hr hb hrb hq hd hc.1
  cases w' with
  | nil => simp only [access, hslot]
  | cons w₁ w' =>
    rw [List.length_cons] at hw
    simp only [access, hslot]
    cases hgr : grants (mem b w) with
    | false => rfl
    | true =>
      cases hc : (mem b w).table with
      | none => rfl
      | some c =>
        have hkeep : ∀ d ≤ 2, ∀ u, Level (edges mem) {c} d u → ∀ k, mem' u k = mem u k := by
          intro d hd₂ u hu k
          have hc₁ : Level (edges mem) roots 1 c := ⟨b, w, hb, hc⟩
          refine hsame u k ⟨1 + d, by omega, level_trans hc₁ hu⟩ fun hslot => ?_
          exact ne_of_below hT hP hr hb hpre hq hd hapart hgr hc hd₂ hu hslot.1
        have hc₀ : Level (edges mem) {c} 0 c := rfl
        have hrest : access mem' c w₁ w' = access mem c w₁ w' := access_congr hkeep hc₀ (by omega)
        simp only [hrest]

end Change

/-! ### Tidy tables -/

/-- Sound tables in which, below the first level, every table has one parent entry. -/
structure Tidy (mem : PhysMem) (g : FrameAllocator) (roots : Set Frame) : Prop where
  tables : Tables mem g roots
  parents : Parents (edges mem) roots 3

/-- The tables and the allocator of a call are tidy. -/
abbrev PagingState.Tidy (s : PagingState ProxyAllocator) (roots : Set Frame) : Prop :=
  Rhubarb.Tidy s.mem s.allocator.frameAllocator roots

namespace Tidy

variable {mem : PhysMem} {g : FrameAllocator} {roots : Set Frame} {n : ℕ} {kroot t : Frame}
  {i : TableIndex} {flags : PageTableFlags}

lemma link (h : Tidy mem g roots) (hn : n < maxFrames) (hc : g.isAllocated n = false)
    (hun : (mem t i).isUnused = true)
    (hframe : (PageTableEntry.ofFrame ⟨n⟩ flags).frame = .ok (.ok ⟨n⟩)) :
    Tidy (Radix.link mem t i (.ofFrame ⟨n⟩ flags) ⟨n⟩ .unused) (g.take n).2 roots := by
  refine ⟨h.tables.link hn hc hun hframe, ?_⟩
  rw [edges_link hframe]
  refine h.parents.addEdge (by omega) ?_ (h.tables.fresh hn hc)
  rw [edges, eq_unused hun, table_unused]

lemma rewrite (h : Tidy mem g roots) {e : PageTableEntry} (he : e.table = (mem t i).table)
    (hfilled : Filled e) : Tidy (write mem t i e) g roots := by
  refine ⟨h.tables.rewrite he hfilled, ?_⟩
  rw [edges_write_eq he]
  exact h.parents

lemma leaf (h : Tidy mem g roots) (ht : Level (edges mem) roots 3 t) (e : PageTableEntry) :
    Tidy (write mem t i e) g roots :=
  ⟨h.tables.leaf ht e, h.parents.congr (by omega) (h.tables.hierarchy.leaf_edges ht e)⟩

/-- A new address space has its shared entries where the kernel has them. -/
lemma newSpace (h : Tidy mem g roots) (hk : kroot ∈ roots) (hn : n < maxFrames)
    (hc : g.isAllocated n = false) :
    Tidy (MemoryState.newTable mem kroot ⟨n⟩ none) (g.take n).2 (insert ⟨n⟩ roots) := by
  have hfresh := h.tables.fresh hn hc
  have hne : kroot ≠ ⟨n⟩ := by
    rintro rfl
    exact hfresh ⟨0, by omega, hk⟩
  have hold : ∀ {u}, u ≠ ⟨n⟩ → ∀ j,
      edges (MemoryState.newTable mem kroot ⟨n⟩ none) u j = edges mem u j := by
    intro u hu j
    rw [edges_newTable hne, if_neg hu]
  -- an edge of a root, old or new, is an edge of an old root under the same index
  have hroot : ∀ {r j u}, r ∈ insert ⟨n⟩ roots →
      edges (MemoryState.newTable mem kroot ⟨n⟩ none) r j = some u →
      ∃ r' ∈ roots, edges mem r' j = some u := by
    rintro r j u (rfl | hr) hj
    · rw [edges_newTable hne, if_pos rfl] at hj
      split_ifs at hj
      exact ⟨kroot, hk, hj⟩
    · have hrn : r ≠ ⟨n⟩ := by
        rintro rfl
        exact hfresh ⟨0, by omega, hr⟩
      exact ⟨r, hr, by rw [← hold hrn, hj]⟩
  refine ⟨h.tables.newSpace hk hn hc, ⟨?_, ?_⟩⟩
  · intro r hr r' hr' j j' u hj hj'
    obtain ⟨s, hs, hsj⟩ := hroot hr hj
    obtain ⟨s', hs', hsj'⟩ := hroot hr' hj'
    exact h.parents.index s hs s' hs' j j' u hsj hsj'
  · intro d hd₁ hd₃ u u' hu hu' j j' v hj hj'
    have hlevel : ∀ {w}, Level (edges (MemoryState.newTable mem kroot ⟨n⟩ none))
        (insert ⟨n⟩ roots) d w → Level (edges mem) roots d w ∧ w ≠ ⟨n⟩ := by
      intro w hw
      rcases h.tables.level_newSpace hk hn hc hd₃.le hw with ⟨rfl, -⟩ | hw
      · omega
      · refine ⟨hw, ?_⟩
        rintro rfl
        exact hfresh ⟨d, hd₃.le, hw⟩
    obtain ⟨hu, hun⟩ := hlevel hu
    obtain ⟨hu', hun'⟩ := hlevel hu'
    rw [hold hun] at hj
    rw [hold hun'] at hj'
    exact h.parents.parent d hd₁ hd₃ u u' hu hu' j j' v hj hj'

end Tidy

section Walk

variable {roots : Set Frame} {r b : Frame} {pages : Page → Prop}

/-- The five actions keep tidy tables. -/
lemma walkInvariant_tidy (hr : r ∈ roots) :
    WalkInvariant r pages (·.Tidy roots) where
  allocate := by
    intro s f a hs hal
    rcases proxyAllocator_cases hs.tables.hint hal with ⟨-, rfl⟩ | ⟨n, hn, hc, -, rfl⟩
    · exact hs
    · exact ⟨hs.tables.allocate hn, hs.parents⟩
  link := by
    intro s page q i t flags f a g hs hpage hq hd hun hal hg
    obtain ⟨n, hn, hc, rfl, rfl⟩ := proxyAllocator_some hs.tables.hint hal
    obtain rfl := frame_ofFrame_eq hn hg
    have hlen : q.length < 3 := length_lt_of_extends hq
    exact ⟨hs.link hn hc hun hg, hs.tables.hierarchy.descend_link hr (by omega) hd
      (hs.tables.fresh hn hc) hg⟩
  relabel := by
    intro s page q i t flags hs hpage hq hd hused hh
    have hlen : q.length < 3 := length_lt_of_extends hq
    have hroot : Level (edges s.mem) roots 0 r := hr
    have hlevel := level_of_descend hroot hd
    have hfilled := hs.tables.filled (0 + q.length) (by omega) t hlevel i
    have htable := table_withFlags hused hfilled hh
    exact ⟨hs.rewrite htable (filled_withFlags flags hused hfilled).1,
      fun g hg => Hierarchy.descend_rewrite htable hd hg⟩
  huge := by
    intro s page q i t flags hs _ _ _ hhuge
    have hhuge' := isHugePage_setFlags_or (s.mem t i) flags
    refine hs.rewrite ?_ (.inr (.inr hhuge'))
    rw [table_of_isHugePage hhuge', table_of_isHugePage hhuge]
  leaf := by
    intro s page t e hs hpage hd
    have hroot : Level (edges s.mem) roots 0 r := hr
    exact hs.leaf (by simpa [upperIndices] using level_of_descend hroot hd) e

/-- What a call on `r` with pages apart from `b` keeps: tidy tables, the pages apart, and the
access of `b`. -/
structure Isolated (mem₀ : PhysMem) (roots : Set Frame) (r b : Frame) (pages : Page → Prop)
    (mem : PhysMem) (g : FrameAllocator) : Prop where
  tidy : Tidy mem g roots
  apart : ∀ page, pages page → Apart mem r b page.l4Index
  access : ∀ w w', w'.length ≤ 3 → access mem b w w' = access mem₀ b w w'

/-- A change of one entry on the path of a page keeps the isolation, if it keeps the tables tidy
and, at the L4 entry itself, the page apart. -/
lemma Isolated.of_change {g' : FrameAllocator} {page : Page} {q : List TableIndex} {t : Frame}
    {j : TableIndex} (hs : Isolated mem₀ roots r b pages mem g) (hr : r ∈ roots) (hb : b ∈ roots)
    (hrb : r ≠ b) (hpage : pages page) (hq : q <+: upperIndices page)
    (hd : descend view mem r q = .ok t) (htidy : Tidy mem' g' roots)
    (hsame : ∀ u k, Node (edges mem) roots 3 u → ¬(u = t ∧ k = j) → mem' u k = mem u k)
    (hroot : r = t → mem' b j = mem b j → Apart mem r b j → Apart mem' r b j) :
    Isolated mem₀ roots r b pages mem' g' := by
  have hlen : q.length ≤ 3 := hq.length_le
  have hbt := ne_root hs.tidy.tables hr hb hrb hlen hd
  have hbsame : ∀ k, mem' b k = mem b k := fun k =>
    hsame b k ⟨0, by omega, hb⟩ fun hc => hbt hc.1
  refine ⟨htidy, fun page' hpage' => ?_, fun w w' hw => ?_⟩
  · by_cases hslot : r = t ∧ page'.l4Index = j
    · rw [hslot.2]
      exact hroot hslot.1 (hbsame j) (hslot.2 ▸ hs.apart page' hpage')
    · have hrsame := hsame r page'.l4Index ⟨0, by omega, hr⟩ hslot
      rw [Apart, hrsame, hbsame]
      exact hs.apart page' hpage'
  · rw [access_of_change hs.tidy.tables hs.tidy.parents hr hb hrb hq hlen hd
      (hs.apart page hpage) hsame w w' hw]
    exact hs.access w w' hw

/-- Rewriting a used entry that leads where it led keeps an L4 index apart. -/
lemma Apart.rewrite {j : TableIndex} (h : Apart mem r b j) (hused : (mem r j).isUnused = false)
    (htable : (mem' r j).table = (mem r j).table) (hb : mem' b j = mem b j) : Apart mem' r b j := by
  rcases h with hun | hne | hno
  · rw [hused] at hun
    cases hun
  · exact .inr (.inl (by rw [htable, hb]; exact hne))
  · exact .inr (.inr (by rw [hb]; exact hno))

/-- **The five actions on the pages of one process** change no access of the other. -/
lemma walkInvariant_isolated (hr : r ∈ roots) (hb : b ∈ roots) (hrb : r ≠ b) :
    WalkInvariant r pages fun s : PagingState ProxyAllocator =>
      Isolated mem₀ roots r b pages s.mem s.allocator.frameAllocator where
  allocate := by
    intro s f a hs hal
    have hW : WalkInvariant r pages (·.Tidy roots) := walkInvariant_tidy hr
    exact ⟨hW.allocate hs.tidy hal, hs.apart, hs.access⟩
  link := by
    intro s page q i t flags f a g hs hpage hq hd hun hal hg
    have htidy := (walkInvariant_tidy hr).link hs.tidy hpage hq hd hun hal hg
    obtain ⟨n, hn, hc, rfl, rfl⟩ := proxyAllocator_some hs.tidy.tables.hint hal
    obtain rfl := frame_ofFrame_eq hn hg
    have hfresh := hs.tidy.tables.fresh hn hc
    refine ⟨hs.of_change (j := i) hr hb hrb hpage ((List.prefix_append q [i]).trans hq) hd
      htidy.1 ?_ ?_, htidy.2⟩
    · intro u k hu hslot
      refine link_of_ne ?_ hslot
      rintro rfl
      exact hfresh hu
    · -- the new table is not one that the other process reaches
      rintro rfl hbi -
      have hrn : r ≠ ⟨n⟩ := by
        rintro rfl
        exact hfresh ⟨0, by omega, hr⟩
      refine .inr (.inl ?_)
      rw [hbi]
      simp only [link_self hrn, PageTableEntry.table_eq_some.mpr hg]
      intro heq
      exact hfresh ⟨1, by omega, b, i, hb, heq.symm⟩
  relabel := by
    intro s page q i t flags hs hpage hq hd hused hh
    have htidy := (walkInvariant_tidy hr).relabel hs.tidy hpage hq hd hused hh
    have hlen : q.length < 3 := length_lt_of_extends hq
    have hroot : Level (edges s.mem) roots 0 r := hr
    have hfilled := hs.tidy.tables.filled (0 + q.length) (by omega) t (level_of_descend hroot hd) i
    refine ⟨hs.of_change hr hb hrb hpage ((List.prefix_append q [i]).trans hq) hd htidy.1
      (fun u k _ hslot => write_of_ne hslot) ?_, htidy.2⟩
    rintro rfl hbi hapart
    refine hapart.rewrite hused ?_ hbi
    simp only [write_self, table_withFlags hused hfilled hh]
  huge := by
    intro s page q i t flags hs hpage hq hd hhuge
    refine hs.of_change hr hb hrb hpage ((List.prefix_append q [i]).trans hq) hd
      ((walkInvariant_tidy hr).huge hs.tidy hpage hq hd hhuge) (fun u k _ hslot => write_of_ne hslot) ?_
    rintro rfl hbi hapart
    refine hapart.rewrite (PageTableEntry.isUnused_of_isHugePage hhuge) ?_ hbi
    simp only [write_self, table_of_isHugePage hhuge,
      table_of_isHugePage (isHugePage_setFlags_or _ flags)]
  leaf := by
    intro s page t e hs hpage hd
    refine hs.of_change hr hb hrb hpage (List.prefix_refl _) hd
      ((walkInvariant_tidy hr).leaf hs.tidy hpage hd) (fun u k _ hslot => write_of_ne hslot) ?_
    rintro rfl - -
    -- the root is not a level-1 table
    have hroot : Level (edges s.mem) roots 0 r := hr
    have := hs.tidy.tables.levelled 0 3 r (by omega) le_rfl hroot
      (by simpa [upperIndices] using level_of_descend hroot hd)
    omega

end Walk

/-! ### Runs -/

namespace MemoryState

/-- The address spaces have distinct roots on tidy tables, and the kernel's exists. -/
structure TidyRoots (m : MemoryState) : Prop where
  tidy : Tidy m.mem m.frameAllocator (rootSet m.rootOf)
  kernel : ∃ kroot, m.rootOf .kernel = some kroot
  distinct : ∀ id id' r, m.rootOf id = some r → m.rootOf id' = some r → id = id'

/-- A mapping call keeps the roots, and the tables tidy. -/
lemma mapping_tidyRoots {op : Op} {id : SpaceId} {pages : PageRange} (hm : m.TidyRoots)
    (htarget : op.target = some (id, pages)) (h : m.step op = .ok m') :
    m'.rootOf = m.rootOf ∧ m'.TidyRoots := by
  cases ha : m.spaces id with
  | none =>
    rw [step_missing htarget ha h]
    exact ⟨rfl, hm⟩
  | some a =>
    have hroot : a.frame ∈ rootSet m.rootOf := ⟨id, by rw [rootOf, ha]; rfl⟩
    obtain ⟨s, t, ht, rfl⟩ := step_mapping htarget ha (walkInvariant_tidy hroot).calls hm.tidy h
    have hr := rootOf_put ha s
    exact ⟨hr, hr.symm ▸ ht, hr.symm ▸ hm.kernel, hr.symm ▸ hm.distinct⟩

lemma newSpace_tidyRoots {k : ℕ} {name : String} (hm : m.TidyRoots)
    (hk : m.spaces (.process k) = none) (h : m.newSpace (.process k) name none = .ok m') :
    m'.TidyRoots := by
  obtain ⟨kroot, hkernel⟩ := hm.kernel
  obtain ⟨n, hn, hc, hmem, hg, hspaces⟩ := newSpace_cases hkernel hm.tidy.tables.hint h
  have hnone : m.rootOf (.process k) = none := by rw [rootOf, hk]; rfl
  have hroot' : m'.rootOf = Function.update m.rootOf (.process k) (some ⟨n⟩) :=
    rootOf_of_spaces hspaces
  have hfresh : ∀ id, m.rootOf id ≠ some ⟨n⟩ := by
    intro id hid
    exact hm.tidy.tables.fresh hn hc ⟨0, by omega, id, hid⟩
  refine ⟨?_, ⟨kroot, ?_⟩, fun id id' r hid hid' => ?_⟩
  · rw [hmem, hg, hroot', rootSet_update hnone]
    exact hm.tidy.newSpace ⟨_, hkernel⟩ hn hc
  · rw [hroot', Function.update_of_ne (by simp), hkernel]
  · rw [hroot'] at hid hid'
    by_cases hik : id = .process k <;> by_cases hik' : id' = .process k
    · rw [hik, hik']
    · rw [hik, Function.update_self] at hid
      cases hid
      rw [Function.update_of_ne hik'] at hid'
      exact absurd hid' (hfresh id')
    · rw [hik', Function.update_self] at hid'
      cases hid'
      rw [Function.update_of_ne hik] at hid
      exact absurd hid (hfresh id)
    · rw [Function.update_of_ne hik] at hid
      rw [Function.update_of_ne hik'] at hid'
      exact hm.distinct id id' r hid hid'

/-- Every call except a drop keeps tidy roots. -/
lemma step_tidyRoots (m : MemoryState) (op : Op) (m' : MemoryState) (hm : m.TidyRoots)
    (hop : ∀ k, op ≠ .drop k) (h : m.step op = .ok m') : m'.TidyRoots := by
  cases op with
  | newSpace k name =>
    cases hk : m.spaces (.process k) with
    | some a =>
      simp only [step, hk] at h
      cases h
      exact hm
    | none =>
      simp only [step, hk] at h
      exact newSpace_tidyRoots hm hk h
  | drop k => exact absurd rfl (hop k)
  | mapPages id name pages flags => exact (mapping_tidyRoots hm rfl h).2
  | mapPagesUntracked id pages flags => exact (mapping_tidyRoots hm rfl h).2
  | mapInto id mapping pages flags => exact (mapping_tidyRoots hm rfl h).2
  | setFlags id pages flags => exact (mapping_tidyRoots hm rfl h).2

/-- A mapping call on the process `i`, each page of which is apart from the root `b`. -/
def Op.ApartFrom (i : ℕ) (b : Frame) (m : MemoryState) (op : Op) : Prop :=
  ∃ pages, op.target = some (.process i, pages) ∧ ∀ a, m.spaces (.process i) = some a →
    ∀ page ∈ pages.pages, Apart m.mem a.frame b page.l4Index

/-- One call on a process changes no access of another one whose pages are apart. -/
lemma step_isolated {op : Op} {i : ℕ} {id : SpaceId} {b : Frame} (hm : m.TidyRoots)
    (hb : m.rootOf id = some b) (hid : id ≠ .process i) (hop : op.ApartFrom i b m)
    (h : m.step op = .ok m') :
    ∀ page, userAccess m'.mem b page = userAccess m.mem b page := by
  obtain ⟨pages, htarget, hapart⟩ := hop
  cases ha : m.spaces (.process i) with
  | none =>
    rw [step_missing htarget ha h]
    exact fun _ => rfl
  | some a =>
    have hroot : m.rootOf (.process i) = some a.frame := by rw [rootOf, ha]; rfl
    have hne : a.frame ≠ b := by
      rintro rfl
      exact hid (hm.distinct _ _ _ hb hroot)
    have hW : WalkInvariant a.frame (· ∈ pages.pages) fun s : PagingState ProxyAllocator =>
        Isolated m.mem (rootSet m.rootOf) a.frame b (· ∈ pages.pages) s.mem
          s.allocator.frameAllocator :=
      walkInvariant_isolated ⟨_, hroot⟩ ⟨_, hb⟩ hne
    obtain ⟨s, t, hiso, rfl⟩ := step_mapping htarget ha hW.calls
      ⟨hm.tidy, hapart a ha, fun _ _ _ => rfl⟩ h
    intro page
    exact hiso.access _ _ (by simp)

/-- **Isolation of grants**: after any history of new address spaces and mapping calls, no run
of calls on one process whose pages are apart from another process changes what that process
can use or write from user mode. -/
theorem grants_isolated_run {m₀ m₁ m₂ : MemoryState} {history ops : List Op} {i j : ℕ}
    {b : AddressSpace} (hboot : m₀.TidyRoots)
    (hhistory : Meets step (fun _ op => ∀ k, op ≠ .drop k) m₀ history)
    (hrun₁ : run step m₀ history = .ok m₁) (hb : m₁.spaces (.process j) = some b) (hij : j ≠ i)
    (hops : Meets step (Op.ApartFrom i b.frame) m₁ ops) (hrun₂ : run step m₁ ops = .ok m₂) :
    ∀ page, userAccess m₂.mem b.frame page = userAccess m₁.mem b.frame page := by
  have hm₁ : m₁.TidyRoots := run_invariant_of_meets step_tidyRoots hboot hhistory hrun₁
  have hroot : m₁.rootOf (.process j) = some b.frame := by rw [rootOf, hb]; rfl
  have hne : SpaceId.process j ≠ .process i := fun hc => hij (SpaceId.process.inj hc)
  suffices h : m₂.TidyRoots ∧ m₂.rootOf (.process j) = some b.frame
      ∧ ∀ page, userAccess m₂.mem b.frame page = userAccess m₁.mem b.frame page from h.2.2
  refine run_invariant_of_meets (I := fun m => m.TidyRoots
    ∧ m.rootOf (.process j) = some b.frame
    ∧ ∀ page, userAccess m.mem b.frame page = userAccess m₁.mem b.frame page)
    (fun m op m' hm hop h => ?_) ⟨hm₁, hroot, fun _ => rfl⟩ hops hrun₂
  obtain ⟨htidy, hr, hacc⟩ := hm
  obtain ⟨pages, htarget, -⟩ := id hop
  obtain ⟨hroots, htidy'⟩ := mapping_tidyRoots htidy htarget h
  refine ⟨htidy', by rw [hroots, hr], fun page => ?_⟩
  rw [step_isolated htidy hr hne hop h page, hacc page]

lemma smallMachine_tidyRoots (hg : g.nextFreeHint ≤ maxFrames) :
    (smallMachine g).TidyRoots := by
  have hroots : rootSet (smallMachine g).rootOf = {⟨300000⟩} := by
    ext r
    constructor
    · rintro ⟨id, hid⟩
      cases id <;> cases hid
      rfl
    · rintro rfl
      exact ⟨.kernel, rfl⟩
  refine ⟨⟨hroots ▸ tables_smallMem hg, ?_⟩, ⟨⟨300000⟩, rfl⟩, fun id id' r hid hid' => ?_⟩
  · rw [hroots]
    refine ⟨fun r hr r' hr' j j' t hj hj' => ?_, fun d _ hd u u' hu hu' j j' t hj hj' => ?_⟩
    · rw [hr] at hj
      rw [hr'] at hj'
      rw [(edges_smallMem (d := 0) (by omega) hj).1, (edges_smallMem (d := 0) (by omega) hj').1]
    · rw [level_smallMem hd.le hu] at hj ⊢
      rw [level_smallMem hd.le hu'] at hj' ⊢
      exact ⟨rfl, by rw [(edges_smallMem hd hj).1, (edges_smallMem hd hj').1]⟩
  · cases id with
    | process k => cases hid
    | kernel =>
      cases id' with
      | process k => cases hid'
      | kernel => rfl

lemma smallMemory_tidyRoots : smallMemory.TidyRoots :=
  smallMachine_tidyRoots (g := smallAllocator) (by decide)

/-- A grant to a process leaves another one, to which nothing has been granted, as it was. -/
theorem grants_isolated_run_small :
    ∃ m₁ m₂, run step smallMemory [.newSpace 0 "a", .newSpace 1 "b"] = .ok m₁
      ∧ run step m₁ [.setFlags (.process 0) ⟨⟨0⟩, ⟨1⟩⟩
          (PageTableFlags.present.or .userAccessible)] = .ok m₂
      ∧ userAccess m₂.mem ⟨257⟩ ⟨0⟩ = userAccess m₁.mem ⟨257⟩ ⟨0⟩ := by
  obtain ⟨m₁, hm₁, hb, hgrants, m₂, hm₂, -⟩ :
      ∃ m₁, run step smallMemory [.newSpace 0 "a", .newSpace 1 "b"] = .ok m₁
        ∧ m₁.spaces (.process 1) = some ⟨"b", ⟨257⟩, ⟨[⟨257⟩]⟩⟩ ∧ grants (m₁.mem ⟨257⟩ 0) = false
        ∧ ∃ m₂, run step m₁ [.setFlags (.process 0) ⟨⟨0⟩, ⟨1⟩⟩
          (PageTableFlags.present.or .userAccessible)] = .ok m₂ ∧ True := by
    decide +kernel
  refine ⟨m₁, m₂, hm₁, hm₂, grants_isolated_run smallMemory_tidyRoots ?_ hm₁ hb
    (i := 0) (by decide) ?_ hm₂ ⟨0⟩⟩
  · exact ⟨fun k => by simp, fun _ _ => ⟨fun k => by simp, fun _ _ => trivial⟩⟩
  · refine ⟨⟨_, rfl, fun a _ page hpage => ?_⟩, fun _ _ => trivial⟩
    obtain rfl : page = ⟨0⟩ := by simpa [PageRange.pages] using hpage
    exact Or.inr (Or.inr hgrants)

/-- **A grant that leaks**: after page 0 has been granted to process 1, granting page 1 to
process 0 lets process 1 use page 1. -/
theorem grant_leaks_through_shared_table :
    smallMemory.TidyRoots
      ∧ ∃ m₁ m₂, run step smallMemory [.newSpace 0 "a", .newSpace 1 "b",
          .setFlags (.process 1) ⟨⟨0⟩, ⟨1⟩⟩ (PageTableFlags.present.or .userAccessible)] = .ok m₁
        ∧ run step m₁ [.setFlags (.process 0) ⟨⟨1⟩, ⟨2⟩⟩
          (PageTableFlags.present.or .userAccessible)] = .ok m₂
        ∧ m₁.rootOf (.process 1) = some ⟨257⟩
        ∧ userAccess m₁.mem ⟨257⟩ ⟨1⟩ = ⟨false, false⟩
        ∧ userAccess m₂.mem ⟨257⟩ ⟨1⟩ = ⟨true, false⟩ := by
  refine ⟨smallMemory_tidyRoots, ?_⟩
  simp only [exists_and_left]
  decide +kernel

end MemoryState

end Rhubarb
