import Rhubarb.Memory.SetFlags
import Rhubarb.Memory.SharedTables

/-!
What each address space maps, whatever the others do.

The L4 entries of the physical range and of the kernel heap are copied into every address
space; at every other index two address spaces never lead to the same table (`Private`).  So the
pages under such an index are mapped by calls on that address space only, and the calls of this
development are insertions into a partial map from pages to addresses (`leafOf`, `Extends`).

* `walkInvariant_private`: the five actions of a walk keep the indices private.
* `mapPages_called`, `mapPagesUntracked_called`, `mapKernelPagesTo_called`, `setFlags_called`:
  the methods of an address space as insertions.
* `Sound`: private indices together with sound sharing, which also survives the drop of an
  address space; `Sound.linksOwn`: calls on pages under a private index meet its condition.
-/

namespace Rhubarb

open Foundations Level4PageTable Levels

/-! ### Private indices -/

variable {mem : PhysMem} {g : FrameAllocator} {t f kroot : Frame}
  {c : Comp Panic (PagingState ProxyAllocator) MappingError Unit} {ps : Page → Prop}
  {new : Page → PageTableEntry → Prop} {kernelPages : PageRange} {page : Page}
  {p : List TableIndex}

/-- Two address spaces lead to the same table only under an index that is copied. -/
def Private (mem : PhysMem) (rootOf : SpaceId → Option Frame) : Prop :=
  ∀ id id' r r', rootOf id = some r → rootOf id' = some r' → id ≠ id' →
    ∀ i, MemoryState.sharedIndex i = false → ∀ c, edges mem r i = some c → edges mem r' i ≠ some c

section Walk

variable {rootOf : SpaceId → Option Frame} {r : Frame} {pages : Page → Prop}

/-- Rewriting an entry that leads where it led. -/
lemma Private.congr {mem' : PhysMem} (h : Private mem rootOf)
    (hedges : ∀ id r, rootOf id = some r → ∀ i, edges mem' r i = edges mem r i) :
    Private mem' rootOf := by
  intro id id' r r' hr hr' hne i hi c hc
  rw [hedges id r hr] at hc
  rw [hedges id' r' hr']
  exact h id id' r r' hr hr' hne i hi c hc

/-- A fresh table is led to from one root only. -/
lemma Private.link {n : ℕ} {i : TableIndex} {flags : PageTableFlags} (h : Private mem rootOf)
    (hT : Tables mem g (rootSet rootOf))
    (hdist : ∀ id id' r, rootOf id = some r → rootOf id' = some r → id = id') (hn : n < maxFrames)
    (hc : g.isAllocated n = false)
    (hframe : (PageTableEntry.ofFrame ⟨n⟩ flags).frame = .ok (.ok ⟨n⟩)) :
    Private (Radix.link mem t i (.ofFrame ⟨n⟩ flags) ⟨n⟩ .unused) rootOf := by
  have hfresh := hT.fresh hn hc
  intro id id' r r' hr hr' hne j hj c hrc hrc'
  rw [edges_link hframe] at hrc hrc'
  rcases addEdge_eq_some hrc with hold | ⟨⟨hrt, -⟩, hcn⟩ <;>
    rcases addEdge_eq_some hrc' with hold' | ⟨⟨hrt', -⟩, hcn'⟩
  · exact h id id' r r' hr hr' hne j hj c hold hold'
  · exact hfresh ⟨1, by omega, r, j, ⟨id, hr⟩, hcn' ▸ hold⟩
  · exact hfresh ⟨1, by omega, r', j, ⟨id', hr'⟩, hcn ▸ hold'⟩
  · exact hne (hdist id id' r hr (by rw [hr', hrt, hrt']))

/-- **The five actions keep the indices private.** -/
lemma walkInvariant_private {id : SpaceId} (hr : rootOf id = some r)
    (hdist : ∀ id id' r, rootOf id = some r → rootOf id' = some r → id = id') :
    WalkInvariant r pages fun s : PagingState ProxyAllocator =>
      s.Tidy (rootSet rootOf) ∧ Private s.mem rootOf := by
  have hW : WalkInvariant r pages (·.Tidy (rootSet rootOf)) := walkInvariant_tidy ⟨id, hr⟩
  refine ⟨?_, ?_, ?_, ?_, ?_⟩
  · intro s f a hs hal
    exact ⟨hW.allocate hs.1 hal, hs.2⟩
  · intro s page q i t flags f a g hs hpage hq hd hun hal hg
    obtain ⟨htidy, hdesc⟩ := hW.link hs.1 hpage hq hd hun hal hg
    obtain ⟨n, hn, hc, rfl, rfl⟩ := proxyAllocator_some hs.1.tables.hint hal
    obtain rfl := frame_ofFrame_eq hn hg
    exact ⟨⟨htidy, hs.2.link hs.1.tables hdist hn hc hg⟩, hdesc⟩
  · intro s page q i t flags hs hpage hq hd hused hh
    obtain ⟨htidy, hdesc⟩ := hW.relabel hs.1 hpage hq hd hused hh
    have hlen : q.length < 3 := Radix.length_lt_of_extends hq
    have hfilled := hs.1.tables.filled q.length (by omega) t (level_rootSet hr hd) i
    have hedges := edges_write_eq (table_withFlags hused hfilled hh)
    exact ⟨⟨htidy, hs.2.congr fun _ r _ j => congrFun (congrFun hedges r) j⟩, hdesc⟩
  · intro s page q i t flags hs hpage hq hd hhuge
    have htable : ((s.mem t i).setFlags (flags.or .hugePage)).table = (s.mem t i).table := by
      rw [table_of_isHugePage hhuge, table_of_isHugePage (isHugePage_setFlags_or _ flags)]
    have hedges := edges_write_eq htable
    exact ⟨hW.huge hs.1 hpage hq hd hhuge, hs.2.congr fun _ r _ j => congrFun (congrFun hedges r) j⟩
  · intro s page t e hs hpage hd
    have hlevel : Level (edges s.mem) (rootSet rootOf) 3 t := level_rootSet hr hd
    refine ⟨hW.leaf hs.1 hpage hd, hs.2.congr fun id r hr j => ?_⟩
    have hr₀ : Level (edges s.mem) (rootSet rootOf) 0 r := ⟨id, hr⟩
    exact hs.1.tables.hierarchy.leaf_edges hlevel e 0 (by omega) r hr₀ j

end Walk

/-! ### Computations made of walks -/

/-- What every walk below `root` on the given pages keeps, the computation keeps. -/
def Walks (root : Frame) (pages : Page → Prop)
    (c : Comp Panic (PagingState ProxyAllocator) MappingError Unit) : Prop :=
  ∀ I : PagingState ProxyAllocator → Prop, WalkInvariant root pages I → ∀ s, I s →
    Comp.wp c (fun _ s' => I s') s

lemma walks_mapPagesLoop (root : Frame) (flags : PageTableFlags) (ps : List Page) :
    Walks root (· ∈ ps) (mapPagesLoop root flags ps) :=
  fun _ hI _ hs => hI.calls.mapPagesLoop flags (fun _ hp => hp) hs

lemma walks_mapPagesUntrackedLoop (root : Frame) (flags : PageTableFlags) (ps : List Page) :
    Walks root (· ∈ ps) (mapPagesUntrackedLoop root flags ps) :=
  fun _ hI _ hs => hI.calls.mapPagesUntrackedLoop flags (fun _ hp => hp) hs

lemma walks_mapKernelPagesLoop (kroot root : Frame) (flags : PageTableFlags)
    (ps ks : List Page) :
    Walks root (· ∈ ps) (mapKernelPagesLoop kroot root flags (ps.zip ks)) :=
  fun _ hI _ hs => hI.calls.mapKernelPagesLoop kroot flags (fun _ hp => (List.of_mem_zip hp).1) hs

lemma walks_setFlags (root : Frame) (flags : PageTableFlags) (range : PageRange) :
    Walks root (· ∈ range.pages) (setFlags root range flags) :=
  fun _ hI _ hs => hI.calls.setFlagsLoop flags (fun _ hp => hp) 0 hs

namespace MemoryState

/-! ### Separated address spaces -/

/-- Tidy tables with private indices. -/
structure Separated (m : MemoryState) : Prop where
  roots : m.TidyRoots
  priv : Private m.mem m.rootOf

/-- The address a page of an address space is mapped to. -/
def leafOf (m : MemoryState) (id : SpaceId) (page : Page) : Option Address :=
  (m.rootOf id).bind fun r => (pageEntry m.mem r page).map (·.addr)

section LeafOf

variable {m m' : MemoryState} {id : SpaceId} {page : Page} {r : Frame}

lemma leafOf_of_root (hr : m.rootOf id = some r) :
    m.leafOf id page = (pageEntry m.mem r page).map (·.addr) := by
  rw [leafOf, hr]
  rfl

lemma rootOf_of_space {a : AddressSpace} (ha : m.spaces id = some a) :
    m.rootOf id = some a.frame := by
  rw [rootOf, ha]
  rfl

/-- A call that keeps the names and the roots keeps both of an address space. -/
lemma space_of_names {a' : AddressSpace}
    (hname : (m'.spaces id).map (·.name) = (m.spaces id).map (·.name))
    (hroot : m'.rootOf id = m.rootOf id) (ha' : m'.spaces id = some a') :
    ∃ a, m.spaces id = some a ∧ a.name = a'.name ∧ a.frame = a'.frame := by
  rw [ha', Option.map_some, eq_comm, Option.map_eq_some_iff] at hname
  obtain ⟨a, ha, hname⟩ := hname
  rw [rootOf_of_space ha', rootOf_of_space ha] at hroot
  exact ⟨a, ha, hname, (Option.some.inj hroot).symm⟩

end LeafOf

/-- Two pages with the same four indices. -/
def SameIndices (p q : Page) : Prop := upperIndices p = upperIndices q ∧ p.l1Index = q.l1Index

lemma SameIndices.eq {p q : Page} (h : SameIndices p q) (hp : p.Canonical) (hq : q.Canonical) :
    p = q :=
  upperIndices_injective hp hq h.1 h.2

lemma SameIndices.l4Index {p q : Page} (h : SameIndices p q) : p.l4Index = q.l4Index := by
  have := h.1
  simp only [upperIndices, List.cons.injEq] at this
  exact this.1

/-- **What mapping calls do to the address spaces**: no page is unmapped or moved, and a page
under a private index that is mapped now was mapped before, or is new. -/
structure Extends (m m' : MemoryState) (new : SpaceId → Page → Address → Prop) : Prop where
  rootOf : m'.rootOf = m.rootOf
  kept : ∀ id page a, m.leafOf id page = some a → m'.leafOf id page = some a
  added : ∀ id page a, sharedIndex page.l4Index = false → m'.leafOf id page = some a →
    m.leafOf id page = some a ∨ new id page a

namespace Extends

variable {m m' m'' : MemoryState} {new new' : SpaceId → Page → Address → Prop} {id : SpaceId}
  {page : Page}

lemma refl (m : MemoryState) (new : SpaceId → Page → Address → Prop) : Extends m m new :=
  ⟨rfl, fun _ _ _ h => h, fun _ _ _ _ h => .inl h⟩

lemma mono (h : Extends m m' new) (hnew : ∀ id page a, new id page a → new' id page a) :
    Extends m m' new' :=
  ⟨h.rootOf, h.kept, fun id page a hi ha => (h.added id page a hi ha).imp_right (hnew id page a)⟩

lemma trans (h : Extends m m' new) (h' : Extends m' m'' new) : Extends m m'' new := by
  refine ⟨h'.rootOf.trans h.rootOf, fun id page a ha => ?_, fun id page a hi ha => ?_⟩
  · exact h'.kept id page a (h.kept id page a ha)
  · rcases h'.added id page a hi ha with ha | hnew
    · exact h.added id page a hi ha
    · exact .inr hnew

lemma isSome_kept (h : Extends m m' new) (hs : (m.leafOf id page).isSome) :
    (m'.leafOf id page).isSome := by
  obtain ⟨a, ha⟩ := Option.isSome_iff_exists.mp hs
  rw [h.kept id page a ha]
  rfl

/-- A page that is not new is mapped where it was, or not mapped. -/
lemma leafOf_eq (h : Extends m m' new) (hi : sharedIndex page.l4Index = false)
    (hnew : ∀ a, ¬new id page a) : m'.leafOf id page = m.leafOf id page := by
  cases ha : m.leafOf id page with
  | some a => exact h.kept id page a ha
  | none =>
    cases ha' : m'.leafOf id page with
    | none => rfl
    | some a =>
      rcases h.added id page a hi ha' with hold | hc
      · rw [ha] at hold
        cases hold
      · exact absurd hc (hnew a)

end Extends

/-- What a call on the address space `id` leaves behind: `new` are the pages it may have
mapped, with their addresses. -/
structure Called (m m' : MemoryState) (id : SpaceId) (new : Page → Address → Prop) : Prop where
  separated : m'.Separated
  extend : Extends m m' fun id' page a => id' = id ∧ ∃ page', SameIndices page page' ∧ new page' a
  frames : m.owned id <+: m'.owned id
  others : ∀ id', id' ≠ id → m'.spaces id' = m.spaces id'
  names : ∀ id', (m'.spaces id').map (·.name) = (m.spaces id').map (·.name)
  used : ∀ n, m.frameAllocator.isAllocated n = true → m'.frameAllocator.isAllocated n = true
  fresh : ∀ f ∈ m'.owned id, f ∈ m.owned id ∨ m.frameAllocator.isAllocated f.number = false
  cr3 : m'.cr3 = m.cr3

section Calls

variable {m m' : MemoryState} {id : SpaceId} {a : AddressSpace} {pages : PageRange}
  {flags : PageTableFlags} {res : Except MappingError Unit}
  {s' : PagingState ProxyAllocator}

/-- Recording a range changes nothing that matters here. -/
lemma Called.track {new : Page → Address → Prop} (h : Called m m' id new)
    (t : String × Frame → Option (List (String × PageRange))) :
    Called m { m' with tracker := t } id new :=
  ⟨⟨⟨h.separated.roots.tidy, h.separated.roots.kernel, h.separated.roots.distinct⟩,
    h.separated.priv⟩, ⟨h.extend.rootOf, h.extend.kept, h.extend.added⟩, h.frames, h.others,
    h.names, h.used, h.fresh, h.cr3⟩

lemma owned_of_space (ha : m.spaces id = some a) :
    m.owned id = a.frameAllocator.allocatedFrames := by
  rw [owned, ha]
  rfl

/-- A walk keeps the address spaces separated. -/
lemma Separated.put (hm : m.Separated) (ha : m.spaces id = some a) (hc : Walks a.frame ps c)
    (h : c (m.paging a) = .ok (res, s')) : (m.put id a s').Separated := by
  obtain ⟨htidy, hpriv⟩ := hc _ (walkInvariant_private (rootOf_of_space ha) hm.roots.distinct)
    (m.paging a) ⟨hm.roots.tidy, hm.priv⟩ _ _ h
  have hroot := rootOf_put ha s'
  exact ⟨⟨by rw [hroot]; exact htidy, by rw [hroot]; exact hm.roots.kernel,
    by rw [hroot]; exact hm.roots.distinct⟩, by rw [hroot]; exact hpriv⟩

/-- **From the tables to the address spaces**: an insertion below the root of one address space
is an insertion into what that address space maps under its private indices. -/
lemma Extends.of_inserted (ha : m.spaces id = some a) (hsep : (m.put id a s').Separated)
    (hins : Inserted (rootSet m.rootOf) a.frame new m.mem s'.mem) :
    Extends m (m.put id a s') fun id' page x =>
      id' = id ∧ ∃ page', SameIndices page page' ∧ ∃ e, new page' e ∧ e.addr = x := by
  have hroot := rootOf_put ha s'
  have hra := rootOf_of_space ha
  refine ⟨hroot, fun id' page x hx => ?_, fun id' page x hi hx => ?_⟩
  · cases hr : m.rootOf id' with
    | none =>
      rw [leafOf, hr] at hx
      cases hx
    | some r =>
      rw [leafOf_of_root hr, Option.map_eq_some_iff] at hx
      obtain ⟨e, he, rfl⟩ := hx
      have he' : pageEntry (m.put id a s').mem r page = some e := hins.kept_page ⟨id', hr⟩ he
      rw [leafOf_of_root (hroot ▸ hr), he']
      rfl
  · cases hr : m.rootOf id' with
    | none =>
      rw [leafOf, hroot, hr] at hx
      cases hx
    | some r =>
      rw [leafOf_of_root (hroot ▸ hr), Option.map_eq_some_iff] at hx
      obtain ⟨e, he, rfl⟩ := hx
      rcases hins.added r ⟨id', hr⟩ _ _ e rfl he with hold | ⟨page', hnew, hup, hl1, c, hc, hc'⟩
      · refine .inl ?_
        have hold : pageEntry m.mem r page = some e := hold
        rw [leafOf_of_root hr, hold]
        rfl
      · -- only `id` leads to the table of the new page
        have hsame : SameIndices page page' := ⟨hup, hl1⟩
        rw [hsame.l4Index] at hi
        refine .inr ⟨?_, page', hsame, e, hnew, rfl⟩
        by_contra hne
        exact hsep.priv id' id r a.frame (hroot ▸ hr) (hroot ▸ hra) hne _ hi c hc' hc

/-- The address spaces keep their names. -/
lemma names_put (ha : m.spaces id = some a) (id' : SpaceId) (s' : PagingState ProxyAllocator) :
    ((m.put id a s').spaces id').map (·.name) = (m.spaces id').map (·.name) := by
  by_cases hid : id' = id
  · subst hid
    rw [spaces_put, Function.update_self, ha]
    rfl
  · rw [spaces_put, Function.update_of_ne hid]

/-- The books of a call: owners, allocator and the other address spaces. -/
lemma Called.of_grown {new' : Page → Address → Prop} (ha : m.spaces id = some a)
    (hsep : (m.put id a s').Separated) (hins : Inserted (rootSet m.rootOf) a.frame new m.mem s'.mem)
    (hgrown : (m.paging a).allocator.Grown s'.allocator)
    (hnew : ∀ page e, new page e → new' page e.addr) : Called m (m.put id a s') id new' := by
  have howned : (m.put id a s').owned id = s'.allocator.proxy.allocatedFrames := by
    rw [owned_put, Function.update_self]
  refine ⟨hsep, (Extends.of_inserted ha hsep hins).mono ?_, ?_, fun id' hid => ?_, fun id' => ?_,
    hgrown.used, fun f hf => ?_, rfl⟩
  · rintro id' page x ⟨hid, page', hsame, e, he, rfl⟩
    exact ⟨hid, page', hsame, hnew page' e he⟩
  · rw [owned_of_space ha, howned]
    exact hgrown.frames
  · rw [spaces_put, Function.update_of_ne hid]
  · exact names_put ha id' s'
  · rw [howned] at hf
    rw [owned_of_space ha]
    exact hgrown.fresh f hf

/-- A new page of `map_pages`: with a frame the address space has taken. -/
def GivenLeaf (m' : MemoryState) (id : SpaceId) (pages : PageRange) (page : Page) (x : Address) :
    Prop :=
  page ∈ pages.pages ∧ ∃ f ∈ m'.owned id, f.number < maxFrames ∧ x = f.baseAddr

lemma addr_ofFrame_eq (hf : f.number < maxFrames) (flags : PageTableFlags) :
    (PageTableEntry.ofFrame f flags).addr = f.baseAddr := by
  have hphys : f.Physical := physical_of_lt hf
  have hraw : (PageTableEntry.ofFrame f flags).addr.toRaw = f.baseAddr.toRaw := by
    rw [PageTableEntry.addr_ofFrame hphys, Frame.baseAddr_toRaw hphys]
  exact Address.ext hraw

/-- What the loops of `map_pages` and `map_pages_untracked` mean for the address spaces. -/
lemma called_of_mapsPages (ha : m.spaces id = some a) (hsep : (m.put id a s').Separated)
    (h : MapsPages (rootSet m.rootOf) a.frame pages.pages flags (m.paging a) s' res) :
    Called m (m.put id a s') id (GivenLeaf (m.put id a s') id pages)
      ∧ (res = .ok () → ∀ page ∈ pages.pages, ((m.put id a s').leafOf id page).isSome)
      ∧ (res = .ok () → (m.owned id).length + pages.pages.length
        ≤ ((m.put id a s').owned id).length) := by
  have howned : (m.put id a s').owned id = s'.allocator.proxy.allocatedFrames := by
    rw [owned_put, Function.update_self]
  refine ⟨Called.of_grown ha hsep h.inserted h.grown ?_, fun hok page hpage => ?_, fun hok => ?_⟩
  · rintro page e ⟨hpage, f, hf, hlt, -, rfl⟩
    exact ⟨hpage, f, by rw [howned]; exact hf, hlt, addr_ofFrame_eq hlt flags⟩
  · have hsome : (pageEntry (m.put id a s').mem a.frame page).isSome := h.mapped hok page hpage
    rw [leafOf_of_root (rootOf_put ha s' ▸ rootOf_of_space ha), Option.isSome_map]
    exact hsome
  · rw [howned, owned_of_space ha]
    exact h.length hok

/-- **`map_pages`** maps its pages to frames of the address space, passing over those that are
mapped. -/
lemma mapPages_called {name : String} (hm : m.Separated)
    (hz : m.frameAllocator.isAllocated 0 = true) (ha : m.spaces id = some a)
    (h : m.mapPages id a name pages flags = .ok (res, m')) :
    Called m m' id (GivenLeaf m' id pages)
      ∧ (res = .ok () → ∀ page ∈ pages.pages, (m'.leafOf id page).isSome)
      ∧ (res = .ok () → (m.owned id).length + pages.pages.length ≤ (m'.owned id).length) := by
  obtain ⟨⟨r, m₁⟩, hx, hy⟩ := ok_of_map h
  obtain ⟨s', hs, rfl⟩ := withPageTable_eq_ok hx
  have hroot : a.frame ∈ rootSet m.rootOf := ⟨id, rootOf_of_space ha⟩
  have hmaps := hm.roots.tidy.mapPagesLoop_inserted (s := m.paging a) hz hroot hs
  have hsep := hm.put ha (walks_mapPagesLoop _ _ _) hs
  obtain ⟨hcalled, hmapped, hlength⟩ := called_of_mapsPages ha hsep hmaps
  cases r with
  | error x =>
    cases hy
    exact ⟨hcalled, hmapped, hlength⟩
  | ok u =>
    cases hy
    exact ⟨hcalled.track _, hmapped, hlength⟩

/-- **`map_pages_untracked`** maps its pages, none of which was mapped if it succeeds. -/
lemma mapPagesUntracked_called (hm : m.Separated) (hz : m.frameAllocator.isAllocated 0 = true)
    (ha : m.spaces id = some a) (h : m.mapPagesUntracked id a pages flags = .ok (res, m')) :
    Called m m' id (GivenLeaf m' id pages)
      ∧ (res = .ok () → ∀ page ∈ pages.pages, (m'.leafOf id page).isSome)
      ∧ (res = .ok () → (m.owned id).length + pages.pages.length ≤ (m'.owned id).length)
      ∧ (res = .ok () → ∀ page ∈ pages.pages, m.leafOf id page = none) := by
  obtain ⟨s', hs, rfl⟩ := withPageTable_eq_ok h
  have hroot : a.frame ∈ rootSet m.rootOf := ⟨id, rootOf_of_space ha⟩
  obtain ⟨hmaps, hnone⟩ :=
    hm.roots.tidy.mapPagesUntrackedLoop_inserted (s := m.paging a) hz hroot hs
  have hsep := hm.put ha (walks_mapPagesUntrackedLoop _ _ _) hs
  obtain ⟨hcalled, hmapped, hlength⟩ := called_of_mapsPages ha hsep hmaps
  refine ⟨hcalled, hmapped, hlength, fun hok page hpage => ?_⟩
  have hold : pageEntry m.mem a.frame page = none := hnone hok page hpage
  rw [leafOf_of_root (rootOf_of_space ha), hold]
  rfl

/-- A new page of `map_kernel_pages_to`: mapped where its kernel page is. -/
def SharedLeaf (m' : MemoryState) (kernelPages localPages : PageRange) (page : Page)
    (x : Address) : Prop :=
  ∃ kernelPage, (page, kernelPage) ∈ localPages.pages.zip kernelPages.pages
    ∧ m'.leafOf .kernel kernelPage = some x

/-- What `map_kernel_pages_to` runs, if none of its assertions fails. -/
lemma mapKernelPagesTo_eq_ok (h : m.mapKernelPagesTo id a kernelPages pages flags = .ok (res, m')) :
    kernelPages.pages.length = pages.pages.length ∧ (id = .kernel → pages.pages = [])
      ∧ ∃ k s', m.spaces .kernel = some k
      ∧ mapKernelPagesLoop k.frame a.frame flags (pages.pages.zip kernelPages.pages) (m.paging a)
        = .ok (res, s') ∧ m' = m.put id a s' := by
  rw [mapKernelPagesTo] at h
  split_ifs at h with hlen hlock
  rw [not_not] at hlen
  have hkernel : id = .kernel → pages.pages = [] := fun hid =>
    by_contra fun hne => hlock ⟨hid, hne⟩
  rw [kernelAddressSpace] at h
  cases hk : m.spaces .kernel with
  | none =>
    rw [hk] at h
    cases h
  | some k =>
    rw [hk] at h
    obtain ⟨s', hs, rfl⟩ := withPageTable_eq_ok h
    exact ⟨hlen, hkernel, k, s', rfl, hs, rfl⟩

/-- A kernel page that is translated is mapped to the base of its frame. -/
lemma leafOf_of_translatePage (h : translatePage mem kroot page = pure f) :
    f.Physical ∧ (pageEntry mem kroot page).map (·.addr) = some f.baseAddr := by
  obtain ⟨e, he, hf⟩ := translatePage_eq_pure.mp h
  obtain ⟨hphys, haddr⟩ := baseAddr_of_usedFrame hf
  refine ⟨hphys, ?_⟩
  rw [he]
  exact congrArg some (Address.ext haddr)

/-- A page is translated to the frame at whose base it is mapped. -/
lemma translatePage_eq_pure_iff {r : Frame} (hr : m.rootOf id = some r) :
    translatePage m.mem r page = pure f ↔ f.Physical ∧ m.leafOf id page = some f.baseAddr := by
  constructor
  · intro h
    obtain ⟨hphys, hleaf⟩ := leafOf_of_translatePage h
    exact ⟨hphys, by rw [leafOf_of_root hr, hleaf]⟩
  · rintro ⟨hphys, hleaf⟩
    rw [leafOf_of_root hr, Option.map_eq_some_iff] at hleaf
    obtain ⟨e, he, haddr⟩ := hleaf
    refine translatePage_eq_pure.mpr ⟨e, he, ?_⟩
    rw [usedFrame, haddr, Frame.fromBaseAddr_baseAddr hphys]
    rfl

/-- **`map_kernel_pages_to`** maps its pages where the kernel pages are. -/
lemma mapKernelPagesTo_called (hm : m.Separated) (ha : m.spaces id = some a)
    (h : m.mapKernelPagesTo id a kernelPages pages flags = .ok (res, m')) :
    Called m m' id (SharedLeaf m' kernelPages pages)
      ∧ (res = .ok () → ∀ page kernelPage,
        (page, kernelPage) ∈ pages.pages.zip kernelPages.pages → m.leafOf id page = none)
      ∧ (flags.get .present = true → res = .ok () → ∀ page kernelPage,
        (page, kernelPage) ∈ pages.pages.zip kernelPages.pages →
          ∃ x, m'.leafOf id page = some x ∧ m'.leafOf .kernel kernelPage = some x) := by
  obtain ⟨-, -, k, s', hk, hs, rfl⟩ := mapKernelPagesTo_eq_ok h
  have hroot : a.frame ∈ rootSet m.rootOf := ⟨id, rootOf_of_space ha⟩
  have hkroot := rootOf_of_space hk
  have hsh := hm.roots.tidy.mapKernelPagesLoop_inserted (s := m.paging a) hroot ⟨_, hkroot⟩ hs
  have hsep := hm.put ha (walks_mapKernelPagesLoop _ _ _ _ _) hs
  have hput := rootOf_put ha s'
  refine ⟨Called.of_grown ha hsep hsh.inserted hsh.grown ?_, fun hok page kernelPage hp => ?_,
    fun hpres hok page kernelPage hp => ?_⟩
  · rintro page e ⟨kernelPage, f, hp, htrans, rfl⟩
    obtain ⟨hphys, hleaf⟩ := leafOf_of_translatePage htrans
    refine ⟨kernelPage, hp, ?_⟩
    rw [leafOf_of_root (hput ▸ hkroot)]
    refine hleaf.trans (congrArg some (Address.ext ?_))
    rw [Frame.baseAddr_toRaw hphys, PageTableEntry.addr_ofFrame hphys]
  · have hold : pageEntry m.mem a.frame page = none := hsh.fresh hok page kernelPage hp
    rw [leafOf_of_root (rootOf_of_space ha), hold]
    rfl
  · obtain ⟨f, htrans, hentry⟩ := hsh.shared hpres hok hp
    obtain ⟨hphys, hleaf⟩ := leafOf_of_translatePage htrans
    have hentry : pageEntry (m.put id a s').mem a.frame page = some (.ofFrame f flags) := hentry
    refine ⟨f.baseAddr, ?_, ?_⟩
    · rw [leafOf_of_root (hput ▸ rootOf_of_space ha), hentry]
      refine congrArg some (Address.ext ?_)
      rw [Frame.baseAddr_toRaw hphys, PageTableEntry.addr_ofFrame hphys]
    · rw [leafOf_of_root (hput ▸ hkroot)]
      exact hleaf

/-- Every element of a list has a partner in a list of the same length. -/
lemma exists_mem_zip {α β : Type} {l : List α} {l' : List β} (hlen : l'.length = l.length) {x : α}
    (hx : x ∈ l) : ∃ y ∈ l', (x, y) ∈ l.zip l' := by
  obtain ⟨n, hn, rfl⟩ := List.getElem_of_mem hx
  refine ⟨l'[n], List.getElem_mem _, List.mem_iff_getElem.mpr ⟨n, ?_, List.getElem_zip⟩⟩
  rw [List.length_zip]
  omega

/-- **`map_kernel_pages_to`** maps every page whose entry is not the unused one. -/
lemma mapKernelPagesTo_mapped (hm : m.Separated) (ha : m.spaces id = some a)
    (h : m.mapKernelPagesTo id a kernelPages pages flags = .ok (.ok (), m'))
    (hused : flags.bits ≠ 0 ∨ ∀ kernelPage ∈ kernelPages.pages, ∃ x, m.leafOf .kernel kernelPage =
      some x ∧ x.toRaw ≠ 0) :
    ∀ page ∈ pages.pages, (m'.leafOf id page).isSome := by
  obtain ⟨hcalled, -⟩ := mapKernelPagesTo_called hm ha h
  obtain ⟨hlen, -, k, s', hk, hs, rfl⟩ := mapKernelPagesTo_eq_ok h
  have hkroot := rootOf_of_space hk
  have hsh := hm.roots.tidy.mapKernelPagesLoop_inserted (s := m.paging a)
    ⟨id, rootOf_of_space ha⟩ ⟨_, hkroot⟩ hs
  have hput := rootOf_put ha s'
  intro page hpage
  obtain ⟨kernelPage, hkernelPage, hp⟩ := exists_mem_zip hlen hpage
  obtain ⟨f, htrans, hentry⟩ := hsh.entry rfl _ _ hp
  obtain ⟨hphys, hleaf⟩ := leafOf_of_translatePage htrans
  have hnumber : flags.bits ≠ 0 ∨ f.number ≠ 0 := by
    refine hused.imp_right fun hframes => ?_
    obtain ⟨x, hx, hne⟩ := hframes kernelPage hkernelPage
    have hx' := hcalled.extend.kept _ _ _ hx
    rw [leafOf_of_root (hput ▸ hkroot)] at hx'
    obtain rfl := Option.some.inj (hleaf.symm.trans hx')
    rw [Frame.baseAddr_toRaw hphys] at hne
    omega
  rw [leafOf_of_root (hput ▸ rootOf_of_space ha), Option.isSome_map]
  rw [show pageEntry (m.put id a s').mem a.frame _ = _ from
    hentry (PageTableEntry.isUnused_ofFrame hphys hnumber)]
  rfl

/-- **`set_flags`** maps no page. -/
lemma setFlags_called (hm : m.Separated) (ha : m.spaces id = some a)
    (hp : flags.get .present = true) (h : m.setFlags id a pages flags = .ok (res, m')) :
    Called m m' id fun _ _ => False := by
  obtain ⟨s', hs, rfl⟩ := withPageTable_eq_ok h
  have hroot : a.frame ∈ rootSet m.rootOf := ⟨id, rootOf_of_space ha⟩
  have hsep := hm.put ha (walks_setFlags _ _ _) hs
  have hput := rootOf_put ha s'
  have hsame := hm.roots.tidy.setFlagsLoop_sameLeaves (s := m.paging a) hroot hp hs
  have hleaf : ∀ id' page, (m.put id a s').leafOf id' page = m.leafOf id' page := by
    intro id' page
    rw [leafOf, leafOf, hput]
    cases hr : m.rootOf id' with
    | none => rfl
    | some r => exact hsame r ⟨id', hr⟩ _ _ rfl
  have hgrown : (m.paging a).allocator.Grown s'.allocator :=
    setFlagsLoop_grown (.refl hm.roots.tidy.tables.hint) hs
  have howned : (m.put id a s').owned id = s'.allocator.proxy.allocatedFrames := by
    rw [owned_put, Function.update_self]
  refine ⟨hsep, ⟨hput, fun _ _ _ hx => by rw [hleaf, hx], fun _ _ _ _ hx => ?_⟩, ?_,
    fun id' hid => ?_, fun id' => ?_, hgrown.used, fun f hf => ?_, rfl⟩
  · rw [hleaf] at hx
    exact .inl hx
  · rw [owned_of_space ha, howned]
    exact hgrown.frames
  · rw [spaces_put, Function.update_of_ne hid]
  · exact names_put ha id' s'
  · rw [howned] at hf
    rw [owned_of_space ha]
    exact hgrown.fresh f hf

end Calls

/-! ### New address spaces -/

section New

variable {m m' : MemoryState} {k : ℕ} {name : String}

/-- A new root changes nothing below the others. -/
lemma found_newTable {roots : Set Frame} {b : Frame} {n : ℕ} (h : Tables mem g roots)
    (hk : kroot ∈ roots) (hb : b ∈ roots) (hn : n < maxFrames) (hc : g.isAllocated n = false)
    {j : TableIndex} (hp : p.length = 3) :
    found (newTable mem kroot ⟨n⟩ none) b p j = found mem b p j := by
  have hne : ∀ {d v}, d ≤ 3 → Level (edges mem) roots d v → v ≠ ⟨n⟩ := by
    rintro d v hd hv rfl
    exact h.fresh hn hc ⟨d, hd, hv⟩
  have hkroot : Level (edges mem) roots 0 kroot := hk
  have hroot : Level (edges mem) roots 0 b := hb
  refine found_congr (fun d hd v hv k => ?_) (fun v hv => ?_) hroot (by omega)
  · rw [edges_newTable (hne (by omega) hkroot), if_neg (hne hd.le hv)]
  · have hv := hne le_rfl hv
    simp [newTable, hv, Radix.clear_of_ne hv]

/-- **A new address space** maps nothing under a private index, and the others map what they
mapped. -/
lemma newSpace_separated (hm : m.Separated) (hk : m.spaces (.process k) = none)
    (h : m.newSpace (.process k) name none = .ok m') :
    m'.Separated
      ∧ (∀ id, id ≠ .process k → ∀ page, m'.leafOf id page = m.leafOf id page)
      ∧ (∀ page, sharedIndex page.l4Index = false → m'.leafOf (.process k) page = none)
      ∧ ∃ n < maxFrames, m.frameAllocator.isAllocated n = false
        ∧ m'.frameAllocator = (m.frameAllocator.take n).2
        ∧ m'.spaces = Function.update m.spaces (.process k) (some ⟨name, ⟨n⟩, ⟨[⟨n⟩]⟩⟩) := by
  obtain ⟨kroot, hkernel⟩ := hm.roots.kernel
  have htidy' := newSpace_tidyRoots hm.roots hk h
  obtain ⟨n, hn, hc, hmem, hg, hspaces⟩ := newSpace_cases hkernel hm.roots.tidy.tables.hint h
  have hroot' : m'.rootOf = Function.update m.rootOf (.process k) (some ⟨n⟩) :=
    rootOf_of_spaces hspaces
  have hkn : kroot ≠ ⟨n⟩ := by
    rintro rfl
    exact hm.roots.tidy.tables.fresh hn hc ⟨0, by omega, .kernel, hkernel⟩
  -- the new root has no edge under a private index, the others have those they had
  have hnew : ∀ i, sharedIndex i = false → edges m'.mem ⟨n⟩ i = none := by
    intro i hi
    rw [hmem, edges_newTable hkn, if_pos rfl, hi]
    rfl
  have hold : ∀ id r, id ≠ .process k → m'.rootOf id = some r →
      m.rootOf id = some r ∧ ∀ i, edges m'.mem r i = edges m.mem r i := by
    intro id r hid hr
    rw [hroot', Function.update_of_ne hid] at hr
    refine ⟨hr, fun i => ?_⟩
    rw [hmem, edges_newTable hkn, if_neg]
    rintro rfl
    exact hm.roots.tidy.tables.fresh hn hc ⟨0, by omega, id, hr⟩
  have hself : m'.rootOf (.process k) = some ⟨n⟩ := by rw [hroot', Function.update_self]
  refine ⟨⟨htidy', fun id id' r r' hr hr' hne i hi c hrc hrc' => ?_⟩, fun id hid page => ?_,
    fun page hi => ?_, n, hn, hc, hg, hspaces⟩
  · by_cases hid : id = .process k
    · rw [hid, hself] at hr
      rw [← Option.some.inj hr, hnew i hi] at hrc
      cases hrc
    by_cases hid' : id' = .process k
    · rw [hid', hself] at hr'
      rw [← Option.some.inj hr', hnew i hi] at hrc'
      cases hrc'
    obtain ⟨hr, he⟩ := hold id r hid hr
    obtain ⟨hr', he'⟩ := hold id' r' hid' hr'
    rw [he] at hrc
    rw [he'] at hrc'
    exact hm.priv id id' r r' hr hr' hne i hi c hrc hrc'
  · rw [leafOf, leafOf, hroot', Function.update_of_ne hid]
    cases hr : m.rootOf id with
    | none => rfl
    | some r =>
      simp only [Option.bind_some, pageEntry, hmem]
      rw [found_newTable hm.roots.tidy.tables ⟨_, hkernel⟩ ⟨_, hr⟩ hn hc rfl]
  · have hnone : pageEntry m'.mem ⟨n⟩ page = none := found_cons_none (hnew _ hi)
    rw [leafOf_of_root hself, hnone]
    rfl

end New

/-! ### Sound memory -/

/-- Private indices and sound sharing, with frame 0 kept out of all use. -/
structure Sound (m : MemoryState) (kroot : Frame) : Prop where
  separated : m.Separated
  shares : m.SharesSoundly kroot
  zero : m.frameAllocator.isAllocated 0 = true
  unowned : ∀ id, (⟨0⟩ : Frame) ∉ m.owned id

/-- A condition on the walk of a page, seen from the tables it passes. -/
lemma linksOwn_of_forall {own : Frame → Prop}
    (h : ∀ q i u, q ++ [i] <+: p → Radix.descend view mem t q = .ok u → own u) :
    LinksOwn mem own t p := by
  induction p generalizing t with
  | nil => trivial
  | cons i p ih =>
    refine ⟨fun _ => h [] i t ⟨p, rfl⟩ (Radix.descend_nil _ _), fun g hg => ih ?_⟩
    intro q j u hq hu
    refine h (i :: q) j u (List.cons_prefix_cons.mpr ⟨rfl, hq⟩) ?_
    rw [Radix.descend_cons_ok (view_eq_ok_iff_table.mpr hg), hu]

/-- A table below a root is reached by a walk. -/
lemma descend_of_level {r : Frame} {d : ℕ} (h : Level (edges mem) {r} d t) :
    ∃ q, q.length = d ∧ Radix.descend view mem r q = .ok t := by
  induction d generalizing t with
  | zero => exact ⟨[], rfl, by rw [show t = r from h]; exact Radix.descend_nil _ _⟩
  | succ d ih =>
    obtain ⟨u, i, hu, hi⟩ := h
    obtain ⟨q, hq, hd⟩ := ih hu
    refine ⟨q ++ [i], by simp [hq], ?_⟩
    rw [Radix.descend_append hd, Radix.descend_singleton]
    exact view_eq_ok_iff_table.mpr hi

namespace Sound

variable {m m' : MemoryState} {kroot : Frame} {id : SpaceId} {a : AddressSpace}

lemma length_owned_le (h : m.Sound kroot) (id : SpaceId) : (m.owned id).length ≤ maxFrames :=
  h.shares.partition.length_le id

/-- **Pages under a private index link own tables**: every table on the walk of such a page
belongs to the address space. -/
lemma linksOwn (h : m.Sound kroot) (ha : m.spaces id = some a)
    (hpage : id = .kernel ∨ sharedIndex page.l4Index = false) :
    Rhubarb.LinksOwn m.mem (m.MayLink id) a.frame (upperIndices page) := by
  have hroot := rootOf_of_space ha
  refine linksOwn_of_forall fun q i u hq hu => ?_
  cases id with
  | kernel => exact .inl rfl
  | process k =>
    have hpriv : sharedIndex page.l4Index = false := by
      rcases hpage with hc | hc
      · cases hc
      · exact hc
    have hlen : q.length < 3 := Radix.length_lt_of_extends hq
    have hr₀ : Level (edges m.mem) {a.frame} 0 a.frame := rfl
    have hlevel := level_of_descend hr₀ hu
    rw [Nat.zero_add] at hlevel
    refine .inr ((h.shares.own k a.frame hroot q.length (by omega) u hlevel).resolve_right ?_)
    intro hkernel
    obtain ⟨p, hp, hd⟩ := descend_of_level hkernel
    cases q with
    | nil =>
      -- the root is not the kernel's
      obtain rfl : p = [] := List.eq_nil_of_length_eq_zero hp
      cases hu
      cases hd
      have := h.separated.roots.distinct _ _ _ hroot h.shares.kernel
      cases this
    | cons j q =>
      obtain ⟨rfl, -⟩ := List.cons_prefix_cons.mp hq
      obtain ⟨j', p, rfl⟩ : ∃ j' p', p = j' :: p' := List.exists_cons_of_length_eq_add_one hp
      simp only [List.length_cons, Nat.add_right_cancel_iff] at hp hlen
      obtain ⟨-, -, c, hc, hc'⟩ := h.separated.roots.tidy.path_unique ⟨_, hroot⟩
        ⟨_, h.shares.kernel⟩ hp.symm (by omega) hu hd
      exact h.separated.priv _ _ _ _ hroot h.shares.kernel (by simp) _ hpriv c hc hc'

/-- Sound sharing survives a walk that links own tables. -/
lemma shares_put {res : Except MappingError Unit} {s' : PagingState ProxyAllocator}
    (h : m.Sound kroot) (ha : m.spaces id = some a) (hc : Walks a.frame ps c)
    (hlinks : ∀ page, ps page → Rhubarb.LinksOwn m.mem (m.MayLink id) a.frame (upperIndices page))
    (hs : c (m.paging a) = .ok (res, s')) : (m.put id a s').SharesSoundly kroot := by
  have hW : WalkInvariant a.frame ps (KeepsShared m.rootOf m.owned id a.frame kroot ps) :=
    walkInvariant_keepsShared (rootOf_of_space ha)
  rw [← keepsShared_put ha] at hW
  refine (hc _ hW (m.paging a) ?_ _ _ hs).1
  rw [put_paging ha]
  exact ⟨h.shares, hlinks⟩

/-- A call keeps the memory sound if it keeps the sharing sound. -/
lemma called {new : Page → Address → Prop} (h : m.Sound kroot) (hc : Called m m' id new)
    (hs : m'.SharesSoundly kroot) : m'.Sound kroot := by
  refine ⟨hc.separated, hs, hc.used 0 h.zero, fun id' hmem => ?_⟩
  by_cases hid : id' = id
  · subst hid
    rcases hc.fresh _ hmem with hold | hfree
    · exact h.unowned id' hold
    · rw [h.zero] at hfree
      cases hfree
  · rw [owned, hc.others id' hid] at hmem
    exact h.unowned id' hmem

/-- **A new address space** in a sound memory. -/
lemma newSpace {k : ℕ} {name : String} (h : m.Sound kroot) (hk : m.spaces (.process k) = none)
    (hs : m.newSpace (.process k) name none = .ok m') : m'.Sound kroot := by
  obtain ⟨hsep, -, -, n, hn, hc, hg, hspaces⟩ := newSpace_separated h.separated hk hs
  have hop : (Op.newSpace k name).LinksOwn m := nofun
  have hstep : m.step (.newSpace k name) = .ok m' := by rw [step, hk]; exact hs
  refine ⟨hsep, step_sharesSoundly m _ m' h.shares hop hstep, ?_, fun id hmem => ?_⟩
  · rw [hg, FrameAllocator.isAllocated_take, h.zero, Bool.or_true]
  · rw [owned_of_spaces hspaces] at hmem
    by_cases hid : id = .process k
    · rw [hid, Function.update_self] at hmem
      have hzero : (⟨0⟩ : Frame) = ⟨n⟩ := List.mem_singleton.mp hmem
      rw [← Frame.mk.inj hzero, h.zero] at hc
      cases hc
    · rw [Function.update_of_ne hid] at hmem
      exact h.unowned id hmem

/-- **A dropped address space** leaves the others as they were. -/
lemma dropSpace {k : ℕ} (h : m.Sound kroot) (hk : m.spaces (.process k) = some a) :
    (m.dropSpace (.process k) a).Sound kroot
      ∧ ∀ id, id ≠ .process k → ∀ page,
        (m.dropSpace (.process k) a).leafOf id page = m.leafOf id page := by
  have hop : (Op.drop k).LinksOwn m := nofun
  have hstep : m.step (.drop k) = .ok (m.dropSpace (.process k) a) := by rw [step, hk]
  have hshares := step_sharesSoundly m _ _ h.shares hop hstep
  have hroot' : (m.dropSpace (.process k) a).rootOf = Function.update m.rootOf (.process k) none :=
    rootOf_of_spaces (spaces_dropSpace a)
  have hsub : ∀ id r, (m.dropSpace (.process k) a).rootOf id = some r → m.rootOf id = some r := by
    intro id r hr
    rw [hroot'] at hr
    by_cases hid : id = .process k
    · rw [hid, Function.update_self] at hr
      cases hr
    · rwa [Function.update_of_ne hid] at hr
  have hset : rootSet (m.dropSpace (.process k) a).rootOf ⊆ rootSet m.rootOf := by
    rintro r ⟨id, hr⟩
    exact ⟨id, hsub id r hr⟩
  refine ⟨⟨⟨⟨⟨hshares.tables, h.separated.roots.tidy.parents.mono hset⟩, ⟨_, hshares.kernel⟩,
    fun id id' r hr hr' => h.separated.roots.distinct id id' r (hsub id r hr) (hsub id' r hr')⟩,
    fun id id' r r' hr hr' => h.separated.priv id id' r r' (hsub id r hr) (hsub id' r' hr')⟩,
    hshares, ?_, fun id hmem => ?_⟩, fun id hid page => ?_⟩
  · have hrel := h.shares.partition.isAllocated_release (.process k) 0
    rw [owned_of_space hk] at hrel
    refine hrel.trans ?_
    have hnot : (⟨0⟩ : Frame) ∉ a.frameAllocator.allocatedFrames :=
      owned_of_space hk ▸ h.unowned (.process k)
    simp [hnot, h.zero]
  · rw [owned_of_spaces (spaces_dropSpace a)] at hmem
    by_cases hid : id = .process k
    · rw [hid, Function.update_self] at hmem
      cases hmem
    · rw [Function.update_of_ne hid] at hmem
      exact h.unowned id hmem
  · rw [leafOf, leafOf, hroot', Function.update_of_ne hid]
    rfl

end Sound

/-- The memory after boot is sound. -/
lemma Booted.sound {m : MemoryState} (h : m.Booted kroot) (ht : m.TidyRoots)
    (hz : m.frameAllocator.isAllocated 0 = true) (hun : (⟨0⟩ : Frame) ∉ m.owned .kernel) :
    m.Sound kroot := by
  refine ⟨⟨ht, fun id id' r r' hr hr' hne => ?_⟩, h.sharesSoundly, hz, fun id => ?_⟩
  · cases id with
    | process i =>
      rw [rootOf, h.alone i] at hr
      cases hr
    | kernel =>
      cases id' with
      | kernel => exact absurd rfl hne
      | process i =>
        rw [rootOf, h.alone i] at hr'
        cases hr'
  · cases id with
    | kernel => exact hun
    | process i =>
      rw [owned, h.alone i]
      exact List.not_mem_nil

lemma roomyMemory_sound : roomyMemory.Sound ⟨300000⟩ :=
  (smallMachine_booted (by decide)).sound (smallMachine_tidyRoots (by decide)) (by decide)
    List.not_mem_nil

/-- The roomy machine maps nothing under the other L4 indices. -/
lemma roomyMemory_leafOf (h : page.l4Index ≠ 0) :
    roomyMemory.leafOf .kernel page = none := by
  have htable : (smallMem ⟨300000⟩ page.l4Index).table = none := by
    rw [smallMem, if_neg (by decide), if_neg (fun hc => h hc.2.2), table_unused]
  rw [leafOf_of_root (r := ⟨300000⟩) rfl]
  show (found smallMem ⟨300000⟩ (page.l4Index :: _) _).map _ = none
  rw [found_cons_none htable]
  rfl

end MemoryState

end Rhubarb
