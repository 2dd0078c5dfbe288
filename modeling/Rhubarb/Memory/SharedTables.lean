import Rhubarb.Foundations.Runs
import Rhubarb.Memory.Tables

/-!
Page tables shared between address spaces.

`AddressSpace::new` copies the kernel's L4 entries of the physical range and of the kernel
heap, so the tables below them belong to every address space at once, while every table frame
is allocated by one of them and freed with it.  `Shared` relates the two: whatever an address
space reaches is its own or the kernel's, and the kernel reaches nothing that a process owns.
Then no address space reaches a freed table.

A process breaks this when it links a table of its own into a table that it shares with the
kernel.  The code does not keep it from doing so (`shared_table_freed`); `LinksOwn` is the
condition on a page under which it does not happen, and along every run of calls that meet it
no table in use is freed (`tables_inUse_run`).
-/

namespace Rhubarb

open Foundations Level4PageTable Levels Radix

/-- **Sound sharing**: what a process reaches is its own or the kernel's, level by level, and
what the kernel reaches no process owns. -/
structure Shared (mem : PhysMem) (g : FrameAllocator) (rootOf : SpaceId → Option Frame)
    (owned : SpaceId → List Frame) (kroot : Frame) : Prop where
  tables : Tables mem g (rootSet rootOf)
  partition : Partition g owned
  kernel : rootOf .kernel = some kroot
  own : ∀ i r, rootOf (.process i) = some r → ∀ d ≤ 3, ∀ t, Level (edges mem) {r} d t →
    t ∈ owned (.process i) ∨ Level (edges mem) {kroot} d t
  notOwned : ∀ t, Node (edges mem) {kroot} 3 t → ∀ i, t ∉ owned (.process i)

/-- The first unused entry on a path from a table, if there is one, is in a table of which
`own` holds. -/
def LinksOwn (mem : PhysMem) (own : Frame → Prop) : Frame → List TableIndex → Prop
  | _, [] => True
  | t, i :: p => ((mem t i).isUnused = true → own t)
      ∧ ∀ g, (mem t i).table = some g → LinksOwn mem own g p

variable {e : PageTableEntry} {t kroot : Frame} {p : List TableIndex}
  {s : PagingState ProxyAllocator} {m : MemoryState}

instance LinksOwn.decidable (mem : PhysMem) (own : Frame → Prop) [DecidablePred own] :
    ∀ t p, Decidable (LinksOwn mem own t p)
  | _, [] => isTrue trivial
  | t, i :: p =>
    match hg : (mem t i).table with
    | none => decidable_of_iff ((mem t i).isUnused = true → own t) (by simp [LinksOwn, hg])
    | some g =>
      have := LinksOwn.decidable mem own g p
      decidable_of_iff (((mem t i).isUnused = true → own t) ∧ LinksOwn mem own g p)
        (by simp [LinksOwn, hg])

namespace Shared

variable {mem : PhysMem} {g : FrameAllocator} {rootOf : SpaceId → Option Frame}
  {owned : SpaceId → List Frame} {kroot root t : Frame} {id : SpaceId} {n : ℕ} {i : TableIndex}
  {flags : PageTableFlags}

lemma not_node (h : Shared mem g rootOf owned kroot) (hid : rootOf id = some root)
    (hn : n < maxFrames) (hc : g.isAllocated n = false) : ¬Node (edges mem) {root} 3 ⟨n⟩ := by
  rintro ⟨d, hd, hl⟩
  exact h.tables.fresh hn hc ⟨d, hd, level_mono (subset_rootSet hid) hl⟩

/-- The owners after a frame has gone to `id`. -/
lemma mem_update_owned {j : SpaceId} {f : Frame} :
    f ∈ Function.update owned id (owned id ++ [⟨n⟩]) j ↔ f ∈ owned j ∨ j = id ∧ f = ⟨n⟩ := by
  by_cases hj : j = id
  · subst hj
    simp
  · simp [hj]

/-- A frame that is allocated and mapped as a page. -/
lemma allocate (h : Shared mem g rootOf owned kroot) (hn : n < maxFrames)
    (hc : g.isAllocated n = false) :
    Shared mem (g.take n).2 rootOf (Function.update owned id (owned id ++ [⟨n⟩])) kroot where
  tables := h.tables.allocate hn
  partition := h.partition.take id hn hc
  kernel := h.kernel
  own := by
    intro j r hr d hd u hu
    exact (h.own j r hr d hd u hu).imp_left fun hu => mem_update_owned.mpr (.inl hu)
  notOwned := by
    intro u hu j hmem
    rcases mem_update_owned.mp hmem with hmem | ⟨-, rfl⟩
    · exact h.notOwned u hu j hmem
    · exact h.not_node h.kernel hn hc hu

/-- What only `id` may reach is reached by nobody else. -/
lemma reached_by_owner (h : Shared mem g rootOf owned kroot) {j k : ℕ} {r : Frame}
    (hmem : t ∈ owned (.process k)) (hr : rootOf (.process j) = some r) {d : ℕ} (hd : d ≤ 3)
    (ht : Level (edges mem) {r} d t) : j = k := by
  rcases h.own j r hr d hd t ht with hj | hk
  · by_contra hne
    have hne' : SpaceId.process j ≠ .process k := fun hc => hne (SpaceId.process.inj hc)
    exact h.partition.disjoint _ _ hne' hj hmem
  · exact absurd hmem (h.notOwned t ⟨d, hd, hk⟩ k)

/-- **A linked table** belongs to whom links it; the kernel may link anywhere, a process only
below tables of its own. -/
lemma link (h : Shared mem g rootOf owned kroot) (hid : rootOf id = some root) {d₀ : ℕ}
    (hd₀ : d₀ < 3) (ht : Level (edges mem) {root} d₀ t)
    (hown : id = .kernel ∨ t ∈ owned id) (hn : n < maxFrames) (hc : g.isAllocated n = false)
    (hun : (mem t i).isUnused = true)
    (hframe : (PageTableEntry.ofFrame ⟨n⟩ flags).frame = .ok (.ok ⟨n⟩)) :
    Shared (Radix.link mem t i (.ofFrame ⟨n⟩ flags) ⟨n⟩ .unused) (g.take n).2 rootOf
      (Function.update owned id (owned id ++ [⟨n⟩])) kroot := by
  have hfree : edges mem t i = none := by rw [edges, eq_unused hun, table_unused]
  have hlev := fun {j r} (hr : rootOf j = some r) {d} (hd : d ≤ 3) {u} =>
    level_addEdge (d := d) (u := u) hfree (h.not_node hr hn hc) hd
  refine ⟨h.tables.link hn hc hun hframe, h.partition.take id hn hc, h.kernel, ?_, ?_⟩
  · intro j r hr d hd u hu
    rw [edges_link hframe] at hu ⊢
    rw [mem_update_owned]
    rcases (hlev hr hd).mp hu with hold | ⟨rfl, d₁, rfl, ht₁⟩
    · rcases h.own j r hr d hd u hold with hu | hu
      · exact .inl (.inl hu)
      · exact .inr ((hlev h.kernel hd).mpr (.inl hu))
    · -- the new table is reached from `r`, so `t` is: `r` is the root of `id` or `t` the kernel's
      cases id with
      | kernel =>
        obtain rfl : root = kroot := by
          rw [h.kernel] at hid
          exact (Option.some.inj hid).symm
        have hlevel := h.tables.levelled d₁ d₀ t (by omega) hd₀.le
          (level_mono (subset_rootSet hr) ht₁) (level_mono (subset_rootSet hid) ht)
        exact .inr ((hlev h.kernel hd).mpr (.inr ⟨rfl, d₁, rfl, hlevel ▸ ht⟩))
      | process k =>
        have hmem : t ∈ owned (.process k) := by
          rcases hown with hk | hk
          · cases hk
          · exact hk
        have := h.reached_by_owner hmem hr (by omega) ht₁
        exact .inl (.inr ⟨by rw [this], rfl⟩)
  · rintro u ⟨d, hd, hu⟩ j hmem
    rw [edges_link hframe] at hu
    rcases (hlev h.kernel hd).mp hu with hold | ⟨rfl, d₁, rfl, ht₁⟩
    · rcases mem_update_owned.mp hmem with hmem | ⟨-, rfl⟩
      · exact h.notOwned u ⟨d, hd, hold⟩ j hmem
      · exact h.not_node h.kernel hn hc ⟨d, hd, hold⟩
    · rcases mem_update_owned.mp hmem with hmem | ⟨hj, -⟩
      · exact h.partition.notMem_of_free hc _ hmem
      · -- a process does not link below a table of the kernel
        rcases hown with rfl | hmem
        · cases hj
        · subst hj
          exact h.notOwned t ⟨d₁, by omega, ht₁⟩ j hmem

/-- Rewriting an entry that leads where it led. -/
lemma rewrite (h : Shared mem g rootOf owned kroot) (he : e.table = (mem t i).table)
    (hfilled : Filled e) :
    Shared (write mem t i e) g rootOf owned kroot := by
  have hedges := edges_write_eq he
  refine ⟨h.tables.rewrite he hfilled, h.partition, h.kernel, ?_, ?_⟩
  · rw [hedges]
    exact h.own
  · rw [hedges]
    exact h.notOwned

/-- Writing an entry of a level-1 table. -/
lemma leaf (h : Shared mem g rootOf owned kroot) (ht : Level (edges mem) (rootSet rootOf) 3 t)
    (e : PageTableEntry) : Shared (write mem t i e) g rootOf owned kroot := by
  have hedges := fun {j r} (hr : rootOf j = some r) d (hd : d < 3) u hu k =>
    h.tables.hierarchy.leaf_edges (i := i) ht e d hd u (level_mono (subset_rootSet hr) hu) k
  refine ⟨h.tables.leaf ht e, h.partition, h.kernel, fun j r hr d hd u hu => ?_, fun u hu => ?_⟩
  · have hu := (level_congr (hedges hr) hd).mp hu
    exact (h.own j r hr d hd u hu).imp_right (level_congr (hedges h.kernel) hd).mpr
  · exact h.notOwned u ((node_congr (hedges h.kernel)).mp hu)

/-! Address spaces come and go. -/

/-- **A new address space** reaches its own root and tables of the kernel. -/
lemma newSpace (h : Shared mem g rootOf owned kroot) {k : ℕ}
    (hroot : rootOf (.process k) = none) (hk : owned (.process k) = []) (hn : n < maxFrames)
    (hc : g.isAllocated n = false) :
    Shared (MemoryState.newTable mem kroot ⟨n⟩ none) (g.take n).2
      (Function.update rootOf (.process k) (some ⟨n⟩))
      (Function.update owned (.process k) [⟨n⟩]) kroot := by
  have hnode := h.not_node h.kernel hn hc
  have hne : kroot ≠ ⟨n⟩ := by
    rintro rfl
    exact hnode ⟨0, by omega, rfl⟩
  have hedges : ∀ {roots : Set Frame}, ¬Node (edges mem) roots 3 ⟨n⟩ → ∀ d < 3, ∀ u,
      Level (edges mem) roots d u → ∀ j,
      edges (MemoryState.newTable mem kroot ⟨n⟩ none) u j = edges mem u j := by
    intro roots hroots d hd u hu j
    rw [edges_newTable hne, if_neg]
    rintro rfl
    exact hroots ⟨d, hd.le, hu⟩
  refine ⟨?_, ?_, ?_, ?_, ?_⟩
  · rw [rootSet_update hroot]
    exact h.tables.newSpace ⟨_, h.kernel⟩ hn hc
  · have := h.partition.take (.process k) hn hc
    rwa [hk, List.nil_append] at this
  · rw [Function.update_of_ne (by simp)]
    exact h.kernel
  · intro j r hr d hd u hu
    by_cases hjk : j = k
    · subst hjk
      rw [Function.update_self] at hr ⊢
      cases hr
      cases d with
      | zero => exact .inl (by rw [hu]; simp)
      | succ d =>
        exact .inr ((level_congr (hedges hnode) hd).mpr (level_newTable hnode hd hu))
    · have hjk' : SpaceId.process j ≠ .process k := fun hc => hjk (SpaceId.process.inj hc)
      rw [Function.update_of_ne hjk'] at hr ⊢
      have hu := (level_congr (hedges (h.not_node hr hn hc)) hd).mp hu
      exact (h.own j r hr d hd u hu).imp_right (level_congr (hedges hnode) hd).mpr
  · intro u hu j hmem
    have hu := (node_congr (hedges hnode)).mp hu
    by_cases hjk : j = k
    · subst hjk
      rw [Function.update_self, List.mem_singleton] at hmem
      exact hnode (hmem ▸ hu)
    · have hjk' : SpaceId.process j ≠ .process k := fun hc => hjk (SpaceId.process.inj hc)
      rw [Function.update_of_ne hjk'] at hmem
      exact h.notOwned u hu j hmem

/-- **A dropped address space** takes no table of another one with it. -/
lemma dropSpace (h : Shared mem g rootOf owned kroot) (k : ℕ) :
    Shared mem ((owned (.process k)).foldl (fun g f => (g.deallocate f).2) g)
      (Function.update rootOf (.process k) none)
      (Function.update owned (.process k) []) kroot := by
  have hsub : rootSet (Function.update rootOf (.process k) none) ⊆ rootSet rootOf := by
    rintro r ⟨j, hj⟩
    by_cases hjk : j = .process k
    · subst hjk
      simp at hj
    · rw [Function.update_of_ne hjk] at hj
      exact ⟨j, hj⟩
  have hpart := h.partition.release (.process k)
  refine ⟨⟨hpart.hint, h.tables.levelled.mono hsub, fun d hd u hu => ?_, ?_⟩, hpart, ?_, ?_, ?_⟩
  · exact h.tables.filled d hd u (level_mono hsub hu)
  · rintro u ⟨d, hd, hu⟩
    obtain ⟨r, ⟨j, hj⟩, hu⟩ := level_singleton hu
    have hjk : j ≠ .process k := by
      rintro rfl
      simp at hj
    rw [Function.update_of_ne hjk] at hj
    -- the table belongs to the kernel or to another process
    have hnot : u ∉ owned (.process k) := by
      intro hmem
      cases j with
      | kernel =>
        rw [h.kernel] at hj
        cases hj
        exact h.notOwned u ⟨d, hd, hu⟩ k hmem
      | process j =>
        have := h.reached_by_owner hmem hj hd hu
        exact hjk (by rw [this])
    refine (h.tables.inUse u ⟨d, hd, level_mono (subset_rootSet hj) hu⟩).imp_right fun hu => ?_
    rw [h.partition.isAllocated_release, hu]
    simp [hnot]
  · rw [Function.update_of_ne (by simp)]
    exact h.kernel
  · intro j r hr d hd u hu
    by_cases hjk : j = k
    · subst hjk
      simp at hr
    · have hjk' : SpaceId.process j ≠ .process k := fun hc => hjk (SpaceId.process.inj hc)
      rw [Function.update_of_ne hjk'] at hr ⊢
      exact h.own j r hr d hd u hu
  · intro u hu j hmem
    by_cases hjk : j = k
    · subst hjk
      simp at hmem
    · have hjk' : SpaceId.process j ≠ .process k := fun hc => hjk (SpaceId.process.inj hc)
      rw [Function.update_of_ne hjk'] at hmem
      exact h.notOwned u hu j hmem

end Shared

/-! ### Linking into tables of one's own -/

section LinksOwn

variable {mem mem' : PhysMem} {own own' : Frame → Prop}

/-- The table a walk links into is one it may link into. -/
lemma LinksOwn.of_descend {u : Frame} {q : List TableIndex} {i : TableIndex}
    (h : LinksOwn mem own t p) (hq : q ++ [i] <+: p) (hd : descend view mem t q = .ok u)
    (hun : (mem u i).isUnused = true) : own u := by
  induction q generalizing t p with
  | nil =>
    cases hd
    obtain ⟨r, rfl⟩ := hq
    exact h.1 hun
  | cons j q ih =>
    obtain ⟨r, rfl⟩ := hq
    obtain ⟨g, hv, hd⟩ := descend_cons_eq_ok hd
    exact ih (h.2 g (view_eq_ok_iff_table.mp hv)) ⟨r, rfl⟩ hd

/-- A cleared table that one may link into is no obstacle. -/
lemma linksOwn_of_cleared (hb : ∀ j, mem t j = .unused) (ht : own t) :
    ∀ p, LinksOwn mem own t p
  | [] => trivial
  | j :: p => by
    refine ⟨fun _ => ht, fun g hg => ?_⟩
    rw [hb j, table_unused] at hg
    cases hg

/-- The condition survives changes that make no entry unused and add only edges to tables
without obstacle. -/
lemma LinksOwn.congr {roots : Set Frame} {d : ℕ} (ht : Level (edges mem) roots d t)
    (hlen : d + p.length ≤ 3)
    (hstep : ∀ d < 3, ∀ u, Level (edges mem) roots d u → ∀ j, ((mem' u j).isUnused = true → (mem u
      j).isUnused = true) ∧ ∀ g, (mem' u j).table = some g → (mem u j).table = some g ∨ ∀ p,
      LinksOwn mem' own' g p) (hown : ∀ u, own u → own' u) (h : LinksOwn mem own t p) :
    LinksOwn mem' own' t p := by
  induction p generalizing d t with
  | nil => trivial
  | cons j p ih =>
    rw [List.length_cons] at hlen
    obtain ⟨hun, hedge⟩ := hstep d (by omega) t ht j
    refine ⟨fun hu => hown t (h.1 (hun hu)), fun g hg => ?_⟩
    rcases hedge g hg with hg | hg
    · have hlevel : Level (edges mem) roots (d + 1) g := ⟨t, j, ht, hg⟩
      exact ih hlevel (by omega) (h.2 g hg)
    · exact hg p

end LinksOwn

section Walk

variable {rootOf : SpaceId → Option Frame} {owned : SpaceId → List Frame} {id : SpaceId}
  {root kroot : Frame} {pages : Page → Prop}

/-- What a mapping call on `id` keeps: sound sharing, and that its pages link into tables it
may link into. -/
def KeepsShared (rootOf : SpaceId → Option Frame) (owned : SpaceId → List Frame) (id : SpaceId)
    (root kroot : Frame) (pages : Page → Prop) (s : PagingState ProxyAllocator) : Prop :=
  Shared s.mem s.allocator.frameAllocator rootOf
      (Function.update owned id s.allocator.proxy.allocatedFrames) kroot
    ∧ ∀ page, pages page →
      LinksOwn s.mem (fun t => id = .kernel ∨ t ∈ s.allocator.proxy.allocatedFrames) root
        (upperIndices page)

lemma update_push (frames : List Frame) (f : Frame) :
    Function.update owned id (frames ++ [f])
      = Function.update (Function.update owned id frames) id
        (Function.update owned id frames id ++ [f]) := by
  rw [Function.update_self, Function.update_idem]

/-- A change of the tables that makes no entry unused and moves no edge keeps the pages'
condition. -/
lemma KeepsShared.links {s' : PagingState ProxyAllocator}
    (h : KeepsShared rootOf owned id root kroot pages s) (hroot : rootOf id = some root)
    (hframes : s.allocator.proxy.allocatedFrames ⊆ s'.allocator.proxy.allocatedFrames)
    (hstep : ∀ d < 3, ∀ u, Level (edges s.mem) (rootSet rootOf) d u → ∀ j, ((s'.mem u j).isUnused =
      true → (s.mem u j).isUnused = true) ∧ ∀ g, (s'.mem u j).table = some g → (s.mem u j).table =
      some g ∨ ∀ p, LinksOwn s'.mem (fun t => id = .kernel ∨ t ∈ s'.allocator.proxy.allocatedFrames)
      g p) (page : Page) (hpage : pages page) :
    LinksOwn s'.mem (fun t => id = .kernel ∨ t ∈ s'.allocator.proxy.allocatedFrames) root
      (upperIndices page) := by
  have hlevel : Level (edges s.mem) (rootSet rootOf) 0 root := ⟨id, hroot⟩
  refine LinksOwn.congr hlevel (by simp [upperIndices]) hstep (fun u hu => ?_) (h.2 page hpage)
  exact hu.imp_right fun hu => hframes hu

/-- Rewriting a used entry that stays used and leads where it led. -/
lemma KeepsShared.rewrite {i : TableIndex} (h : KeepsShared rootOf owned id root kroot pages s)
    (hroot : rootOf id = some root) (he : e.table = (s.mem t i).table) (hfilled : Filled e)
    (hused : e.isUnused = false) :
    KeepsShared rootOf owned id root kroot pages ⟨write s.mem t i e, s.allocator⟩ := by
  refine ⟨h.1.rewrite he hfilled, h.links hroot (List.Subset.refl _) ?_⟩
  intro d _ u _ j
  by_cases hslot : u = t ∧ j = i
  · obtain ⟨rfl, rfl⟩ := hslot
    simp only [write_self, hused, he]
    exact ⟨by simp, fun g hg => .inl hg⟩
  · simp only [write_of_ne hslot]
    exact ⟨fun hu => hu, fun g hg => .inl hg⟩

/-- **The five actions keep sound sharing.** -/
lemma walkInvariant_keepsShared (hroot : rootOf id = some root) :
    WalkInvariant root pages (KeepsShared rootOf owned id root kroot pages) where
  allocate := by
    intro s f a hs hal
    rcases proxyAllocator_cases hs.1.tables.hint hal with ⟨-, rfl⟩ | ⟨n, hn, hc, -, rfl⟩
    · exact hs
    · refine ⟨?_, hs.links hroot (List.subset_append_left _ _) fun d _ u _ j => ?_⟩
      · rw [update_push]
        exact hs.1.allocate hn hc
      · exact ⟨fun hu => hu, fun g hg => .inl hg⟩
  link := by
    intro s page q i t flags f a g hs hpage hq hd hun hal hg
    obtain ⟨n, hn, hc, rfl, rfl⟩ := proxyAllocator_some hs.1.tables.hint hal
    obtain rfl := frame_ofFrame_eq hn hg
    have hlen : q.length < 3 := by
      have := hq.length_le
      simp only [upperIndices, List.length_append, List.length_cons, List.length_nil] at this
      omega
    have hown := (hs.2 page hpage).of_descend hq hd hun
    have hlevel : Level (edges s.mem) {root} q.length t := by
      have hr : Level (edges s.mem) {root} 0 root := rfl
      simpa using level_of_descend hr hd
    refine ⟨⟨?_, ?_⟩, hs.1.tables.hierarchy.descend_link ⟨id, hroot⟩ hlen hd
      (hs.1.tables.fresh hn hc) hg⟩
    · rw [update_push]
      refine hs.1.link hroot hlen hlevel ?_ hn hc hun hg
      rwa [Function.update_self]
    · refine hs.links hroot (List.subset_append_left _ _) fun d hd u hu j => ?_
      have hne : u ≠ ⟨n⟩ := by
        rintro rfl
        exact hs.1.tables.fresh hn hc ⟨d, hd.le, hu⟩
      by_cases hslot : u = t ∧ j = i
      · -- the new edge leads to the new table, which is cleared and owned
        obtain ⟨rfl, rfl⟩ := hslot
        simp only [link_self hne]
        refine ⟨fun _ => hun, fun g' hg' => .inr ?_⟩
        rw [PageTableEntry.table_eq_some, hg] at hg'
        cases hg'
        exact linksOwn_of_cleared (fun j => by rw [Radix.link, clear_self]) (.inr (by simp))
      · simp only [link_of_ne hne hslot]
        exact ⟨fun hu => hu, fun g' hg' => .inl hg'⟩
  relabel := by
    intro s page q i t flags hs hpage hq hd hused hh
    have hlen : q.length < 3 := length_lt_of_extends hq
    have hfilled := hs.1.tables.filled q.length (by omega) t (level_rootSet hroot hd) i
    have htable := table_withFlags hused hfilled hh
    obtain ⟨hfilled', hused'⟩ := filled_withFlags flags hused hfilled
    exact ⟨hs.rewrite hroot htable hfilled' hused',
      fun g hg => Hierarchy.descend_rewrite htable hd hg⟩
  huge := by
    intro s page q i t flags hs _ _ _ hhuge
    have hhuge' := isHugePage_setFlags_or (s.mem t i) flags
    refine hs.rewrite hroot ?_ (.inr (.inr hhuge')) (PageTableEntry.isUnused_of_isHugePage hhuge')
    rw [table_of_isHugePage hhuge', table_of_isHugePage hhuge]
  leaf := by
    intro s page t e hs hpage hd
    have hlevel : Level (edges s.mem) (rootSet rootOf) 3 t := level_rootSet hroot hd
    refine ⟨hs.1.leaf hlevel e, hs.links hroot (List.Subset.refl _) fun d hd u hu j => ?_⟩
    simp only [write_of_ne fun hc => hs.1.tables.hierarchy.ne_of_level hlevel hd hu hc.1]
    exact ⟨fun hu => hu, fun g hg => .inl hg⟩

end Walk

namespace MemoryState

/-- The frames an address space has allocated. -/
def owned (m : MemoryState) (id : SpaceId) : List Frame :=
  FrameAllocatorProxy.framesOf ((m.spaces id).map (·.frameAllocator))

/-- An address space may link into every table if it is the kernel's, and otherwise into the
tables it has allocated itself. -/
def MayLink (m : MemoryState) (id : SpaceId) (t : Frame) : Prop :=
  id = .kernel ∨ t ∈ m.owned id

instance (m : MemoryState) (id : SpaceId) : DecidablePred (m.MayLink id) :=
  fun _ => inferInstanceAs (Decidable (_ ∨ _))

/-- Sound sharing between the address spaces that exist. -/
def SharesSoundly (m : MemoryState) (kroot : Frame) : Prop :=
  Shared m.mem m.frameAllocator m.rootOf m.owned kroot

/-- For each page of a mapping call, the first unused entry on its walk is in a table that the
address space may link into. -/
def Op.LinksOwn (m : MemoryState) (op : Op) : Prop :=
  ∀ id pages a, op.target = some (id, pages) → m.spaces id = some a → ∀ page ∈ pages.pages,
    Rhubarb.LinksOwn m.mem (m.MayLink id) a.frame (upperIndices page)

section Views

variable {m m' : MemoryState} {id : SpaceId} {x : Option AddressSpace}

lemma owned_of_spaces (h : m'.spaces = Function.update m.spaces id x) :
    m'.owned = Function.update m.owned id
      (FrameAllocatorProxy.framesOf (x.map (·.frameAllocator))) := by
  funext j
  by_cases hj : j = id
  · subst hj
    simp [owned, h]
  · simp [owned, h, hj]

lemma owned_put (a : AddressSpace) (s : PagingState ProxyAllocator) :
    (m.put id a s).owned = Function.update m.owned id s.allocator.proxy.allocatedFrames :=
  owned_of_spaces (spaces_put a s)

end Views

/-- What a mapping call keeps, seen from the whole memory. -/
lemma keepsShared_put {id : SpaceId} {a : AddressSpace} (ha : m.spaces id = some a) (kroot : Frame)
    (pages : Page → Prop) :
    (fun s => (m.put id a s).SharesSoundly kroot ∧ ∀ page, pages page →
        Rhubarb.LinksOwn (m.put id a s).mem ((m.put id a s).MayLink id) a.frame (upperIndices page))
      = KeepsShared m.rootOf m.owned id a.frame kroot pages := by
  funext s
  have hmay : (m.put id a s).MayLink id
      = fun t => id = .kernel ∨ t ∈ s.allocator.proxy.allocatedFrames := by
    funext t
    rw [MayLink, owned_put, Function.update_self]
  rw [hmay, SharesSoundly, rootOf_put ha, owned_put]
  rfl

/-- **Every call that links into its own tables keeps sound sharing.** -/
lemma step_sharesSoundly (m : MemoryState) (op : Op) (m' : MemoryState) (hm : m.SharesSoundly kroot)
    (hop : op.LinksOwn m) (h : m.step op = .ok m') :
    m'.SharesSoundly kroot := by
  have hmapping : ∀ {id pages}, op.target = some (id, pages) → m'.SharesSoundly kroot := by
    intro id pages htarget
    cases ha : m.spaces id with
    | none =>
      rw [step_missing htarget ha h]
      exact hm
    | some a =>
      have hroot : m.rootOf id = some a.frame := by rw [rootOf, ha]; rfl
      have hW : WalkInvariant a.frame (· ∈ pages.pages)
          (KeepsShared m.rootOf m.owned id a.frame kroot (· ∈ pages.pages)) :=
        walkInvariant_keepsShared hroot
      rw [← keepsShared_put ha] at hW
      have hstart := hop id pages a htarget ha
      rw [← put_paging ha] at hm hstart
      obtain ⟨s, t, hs, rfl⟩ := step_mapping htarget ha hW.calls ⟨hm, hstart⟩ h
      exact hs.1
  cases op with
  | newSpace k name =>
    cases hk : m.spaces (.process k) with
    | some a =>
      simp only [step, hk] at h
      cases h
      exact hm
    | none =>
      simp only [step, hk] at h
      obtain ⟨n, hn, hc, hmem, hg, hspaces⟩ := newSpace_cases hm.kernel hm.tables.hint h
      have hroot : m.rootOf (.process k) = none := by rw [rootOf, hk]; rfl
      have howned : m.owned (.process k) = [] := by rw [owned, hk]; rfl
      have hroot' : m'.rootOf = Function.update m.rootOf (.process k) (some ⟨n⟩) :=
        rootOf_of_spaces hspaces
      have howned' : m'.owned = Function.update m.owned (.process k) [⟨n⟩] :=
        owned_of_spaces hspaces
      rw [SharesSoundly, hmem, hg, hroot', howned']
      exact hm.newSpace hroot howned hn hc
  | drop k =>
    cases hk : m.spaces (.process k) with
    | none =>
      simp only [step, hk] at h
      cases h
      exact hm
    | some a =>
      simp only [step, hk] at h
      cases h
      have howned : m.owned (.process k) = a.frameAllocator.allocatedFrames := by
        rw [owned, hk]; rfl
      have hroot' : (m.dropSpace (.process k) a).rootOf
          = Function.update m.rootOf (.process k) none :=
        rootOf_of_spaces (spaces_dropSpace a)
      have howned' : (m.dropSpace (.process k) a).owned
          = Function.update m.owned (.process k) [] := owned_of_spaces (spaces_dropSpace a)
      have hdrop := hm.dropSpace k
      rw [howned] at hdrop
      rw [SharesSoundly, hroot', howned']
      exact hdrop
  | mapPages id name pages flags => exact hmapping rfl
  | mapPagesUntracked id pages flags => exact hmapping rfl
  | mapInto id mapping pages flags => exact hmapping rfl
  | setFlags id pages flags => exact hmapping rfl

/-- The memory after boot: the kernel's address space alone, on sound tables. -/
structure Booted (m : MemoryState) (kroot : Frame) : Prop where
  kernel : m.rootOf .kernel = some kroot
  alone : ∀ i, m.spaces (.process i) = none
  partition : Partition m.frameAllocator m.owned
  tables : Tables m.mem m.frameAllocator {kroot}

lemma Booted.rootSet_eq (h : m.Booted kroot) :
    rootSet m.rootOf = {kroot} := by
  ext r
  constructor
  · rintro ⟨id, hid⟩
    cases id with
    | kernel =>
      rw [h.kernel] at hid
      exact (Option.some.inj hid).symm
    | process i =>
      rw [rootOf, h.alone i] at hid
      cases hid
  · rintro rfl
    exact ⟨.kernel, h.kernel⟩

lemma Booted.sharesSoundly (h : m.Booted kroot) :
    m.SharesSoundly kroot := by
  refine ⟨h.rootSet_eq ▸ h.tables, h.partition, h.kernel, fun i r hr => ?_, fun t _ i => ?_⟩
  · rw [rootOf, h.alone i] at hr
    cases hr
  · rw [owned, h.alone i]
    exact List.not_mem_nil

/-- **No table in use is freed**, along every run of calls that link into tables of their
own: every table below the root of an address space that exists is in use. -/
theorem tables_inUse_run {m₀ m : MemoryState} {kroot : Frame} {ops : List Op}
    (hboot : m₀.Booted kroot) (hops : Meets step (fun m op => op.LinksOwn m) m₀ ops)
    (hrun : run step m₀ ops = .ok m) :
    ∀ id a, m.spaces id = some a → ∀ t, Node (edges m.mem) {a.frame} 3 t →
      InUse m.frameAllocator t := by
  have hm : m.SharesSoundly kroot :=
    run_invariant_of_meets step_sharesSoundly hboot.sharesSoundly hops hrun
  rintro id a ha t ⟨d, hd, ht⟩
  have hroot : m.rootOf id = some a.frame := by rw [rootOf, ha]; rfl
  exact hm.tables.inUse t ⟨d, hd, level_mono (subset_rootSet hroot) ht⟩

/-! The small machine of `Memory/Tables.lean`, with the kernel's address space alone. -/

lemma smallMachine_booted {g : FrameAllocator} (hg : g.nextFreeHint ≤ maxFrames) :
    (smallMachine g).Booted ⟨300000⟩ where
  kernel := rfl
  alone _ := rfl
  partition := by
    refine ⟨hg, fun i => ?_, fun i j _ => ?_, fun i f hf => ?_⟩
    · cases i <;> exact List.nodup_nil
    · cases i <;> exact List.disjoint_nil_left _
    · cases i <;> exact absurd hf List.not_mem_nil
  tables := tables_smallMem hg

lemma smallMemory_booted : smallMemory.Booted ⟨300000⟩ :=
  smallMachine_booted (g := smallAllocator) (by decide)

/-- The kernel sets the flags of a page in the second gigabyte; the tables linked for it stay
in use. -/
theorem tables_inUse_run_small :
    ∃ m, run step smallMemory [.setFlags .kernel ⟨⟨262144⟩, ⟨262145⟩⟩ .present] = .ok m
      ∧ edges m.mem ⟨300001⟩ 1 = some ⟨256⟩ ∧ InUse m.frameAllocator ⟨256⟩ := by
  obtain ⟨m, hm, hspace, hroot, hedge⟩ : ∃ m, run step smallMemory
      [.setFlags .kernel ⟨⟨262144⟩, ⟨262145⟩⟩ .present] = .ok m
        ∧ m.spaces .kernel = some ⟨"", ⟨300000⟩, ⟨[⟨256⟩, ⟨257⟩]⟩⟩
        ∧ edges m.mem ⟨300000⟩ 0 = some ⟨300001⟩ ∧ edges m.mem ⟨300001⟩ 1 = some ⟨256⟩ := by
    decide +kernel
  refine ⟨m, hm, hedge, tables_inUse_run smallMemory_booted ?_ hm .kernel _ hspace ⟨256⟩
    ⟨2, by omega, ⟨300001⟩, 1, ⟨⟨300000⟩, 0, rfl, hroot⟩, hedge⟩⟩
  refine ⟨fun id pages a htarget ha page _ => ?_, fun _ _ => trivial⟩
  cases htarget
  have hall : ∀ p t, LinksOwn smallMemory.mem (smallMemory.MayLink .kernel) t p := by
    intro p
    induction p with
    | nil => exact fun t => trivial
    | cons i p ih => exact fun t => ⟨fun _ => Or.inl rfl, fun g _ => ih g⟩
  exact hall _ _

/-- **A freed table under the kernel's root**: a process sets the flags of a page in the second
gigabyte, the two new tables are linked below the kernel's shared L3 table, and dropping the
process frees them. -/
theorem shared_table_freed :
    smallMemory.Booted ⟨300000⟩
      ∧ ∃ m, run step smallMemory
          [.newSpace 0 "a", .setFlags (.process 0) ⟨⟨262144⟩, ⟨262145⟩⟩
            (PageTableFlags.present.or .userAccessible), .drop 0] = .ok m
        ∧ m.rootOf .kernel = some ⟨300000⟩
        ∧ Node (edges m.mem) {⟨300000⟩} 3 ⟨257⟩
        ∧ ¬InUse m.frameAllocator ⟨257⟩ := by
  obtain ⟨m, hm, hkernel, hroot, hedge, hfree⟩ : ∃ m, run step smallMemory [.newSpace 0 "a",
      .setFlags (.process 0) ⟨⟨262144⟩, ⟨262145⟩⟩ (PageTableFlags.present.or .userAccessible),
      .drop 0] = .ok m ∧ m.rootOf .kernel = some ⟨300000⟩ ∧ edges m.mem ⟨300000⟩ 0 = some ⟨300001⟩
        ∧ edges m.mem ⟨300001⟩ 1 = some ⟨257⟩ ∧ m.frameAllocator.isAllocated 257 = false := by
    decide +kernel
  refine ⟨smallMemory_booted, m, hm, hkernel, ?_, ?_⟩
  · exact ⟨2, by omega, ⟨300001⟩, 1, ⟨⟨300000⟩, 0, rfl, hroot⟩, hedge⟩
  · rintro (h | h)
    · exact absurd h (by decide)
    · rw [hfree] at h
      cases h

end MemoryState

end Rhubarb
