import Rhubarb.Kernel.UserMemory

/-!
What the calls of `Kernel/UserMemory.lean` do to the address spaces.

Every call that maps something is one relation, `Advances`: the memory stays sound, no page is
unmapped or moved, and the pages under private indices that are new are those the call names.
The invariants of the processes are about such pages only, so they are derived from `Advances`
and from what a new and a dropped address space leave alone.

* `KernelMemory.Sound`: sound memory, and a mapping area that is as long as the frames the
  kernel owns at most, which keeps it far below the end of the address space.
* `new_advances`, `mapInto_advances`, `mapStack_advances`, `extend_advances`,
  `setFlags_advances`, `loadObjects_advances`: one lemma for each call.
-/

namespace Rhubarb

open Foundations Level4PageTable

variable {stop page : Page} {ranges : List (String × PageRange)} {m' : MemoryState}
  {a' a : AddressSpace} {c : Comp Panic (PagingState ProxyAllocator) MappingError Unit}
  {pages : PageRange} {s : LoadedSection} {known known' : List LoadedSection}

/-! ### Tracked ranges -/

namespace MemoryState

variable {m : MemoryState} {key : String × Frame} {name : String}

/-- A range of that name is tracked under the address space. -/
def Tracked (m : MemoryState) (key : String × Frame) (name : String) : Prop :=
  ∃ ranges, m.tracker key = some ranges ∧ name ∈ ranges.map Prod.fst

lemma Tracked.track (h : m.Tracked key name) (space : AddressSpace) (name' : String)
    (pages : PageRange) : (m.track space name' pages).Tracked key name := by
  obtain ⟨ranges, hr, hname⟩ := h
  by_cases hkey : key = (space.name, space.frame)
  · subst hkey
    refine ⟨ranges ++ [(name', pages)], ?_, by simp [hname]⟩
    rw [MemoryState.track, hr]
    exact Function.update_self _ _ _
  · refine ⟨ranges, ?_, hname⟩
    rw [MemoryState.track, ← hr]
    exact Function.update_of_ne hkey _ _

lemma tracked_track (m : MemoryState) (space : AddressSpace) (name : String) (pages : PageRange) :
    (m.track space name pages).Tracked (space.name, space.frame) name :=
  ⟨_, Function.update_self _ _ _, by simp⟩

/-- Setting an end keeps the names. -/
lemma setEnd_names {ranges' : List (String × PageRange)}
    (h : setEnd name stop ranges = some ranges') :
    ranges'.map Prod.fst = ranges.map Prod.fst := by
  induction ranges generalizing ranges' with
  | nil => cases h
  | cons r ranges ih =>
    obtain ⟨n, range⟩ := r
    rw [setEnd] at h
    split_ifs at h with hn
    · cases h
      rfl
    · obtain ⟨rest, hrest, rfl⟩ := Option.map_eq_some_iff.mp h
      simp [ih hrest]

/-- The range to be extended is found if it is tracked. -/
lemma setEnd_isSome (h : name ∈ ranges.map Prod.fst) : (setEnd name stop ranges).isSome := by
  induction ranges with
  | nil => cases h
  | cons r ranges ih =>
    obtain ⟨n, range⟩ := r
    rw [setEnd]
    split_ifs with hn
    · rfl
    · rw [Option.isSome_map]
      refine ih ?_
      rcases List.mem_cons.mp h with hc | hc
      · exact absurd hc.symm hn
      · exact hc

lemma Tracked.trackEnd {space : AddressSpace} {name' : String} (h : m.Tracked key name)
    (ht : m.trackEnd space name' stop = .ok m') :
    m'.Tracked key name := by
  obtain ⟨ranges, hr, hname⟩ := h
  rw [MemoryState.trackEnd] at ht
  split at ht
  · cases ht
    exact ⟨ranges, hr, hname⟩
  · next old hold =>
      split at ht
      · next new hnew =>
          cases ht
          by_cases hkey : key = (space.name, space.frame)
          · subst hkey
            obtain rfl : old = ranges := Option.some.inj (hold.symm.trans hr)
            exact ⟨new, Function.update_self _ _ _, by rw [setEnd_names hnew]; exact hname⟩
          · exact ⟨ranges, (Function.update_of_ne hkey _ _).trans hr, hname⟩
      · cases ht

end MemoryState

/-! ### Sound kernel memory -/

namespace KernelMemory

open MemoryState

variable {k k' k'' : KernelMemory} {kroot : Frame} {id : SpaceId} {i : ℕ}
  {new new' : SpaceId → Page → Address → Prop}

/-- **Sound kernel memory**: the mapping area is no longer than the frames the kernel owns. -/
structure Sound (k : KernelMemory) (kroot : Frame) : Prop where
  memory : k.memory.Sound kroot
  area : k.Area
  offset : k.mappingOffset ≤ kernelMappingBase + (k.memory.owned .kernel).length * pageSize

/-- The area ends within the first gigabyte of its L4 entry. -/
lemma Sound.offset_le (h : k.Sound kroot) : k.mappingOffset ≤ kernelMappingBase + 2 ^ 30 := by
  have hlen : (k.memory.owned .kernel).length ≤ 2 ^ 18 := h.memory.length_owned_le .kernel
  have hoff : k.mappingOffset ≤ kernelMappingBase + (k.memory.owned .kernel).length * 4096 :=
    h.offset
  omega

/-- **What the calls of the kernel do**: nothing is unmapped or moved, and the pages under
private indices that are mapped now were mapped before or are `new`. -/
structure Advances (k k' : KernelMemory) (kroot : Frame)
    (new : SpaceId → Page → Address → Prop) : Prop where
  sound : k'.Sound kroot
  rootOf : k'.memory.rootOf = k.memory.rootOf
  kept : ∀ id page x, k.memory.leafOf id page = some x → k'.memory.leafOf id page = some x
  added : ∀ id page x, page.Canonical → sharedIndex page.l4Index = false →
    k'.memory.leafOf id page = some x → k.memory.leafOf id page = some x ∨ new id page x
  names : ∀ id, (k'.memory.spaces id).map (·.name) = (k.memory.spaces id).map (·.name)
  tracked : ∀ key name, k.memory.Tracked key name → k'.memory.Tracked key name
  offset : k.mappingOffset ≤ k'.mappingOffset
  frames : ∀ id, k.memory.owned id <+: k'.memory.owned id

namespace Advances

lemma refl (h : k.Sound kroot) (new : SpaceId → Page → Address → Prop) :
    Advances k k kroot new :=
  ⟨h, rfl, fun _ _ _ hx => hx, fun _ _ _ _ _ hx => .inl hx, fun _ => rfl, fun _ _ ht => ht,
    le_rfl, fun _ => List.prefix_rfl⟩

lemma mono (h : Advances k k' kroot new) (hnew : ∀ id page x, new id page x → new' id page x) :
    Advances k k' kroot new' :=
  ⟨h.sound, h.rootOf, h.kept,
    fun id page x hc hi hx => (h.added id page x hc hi hx).imp_right (hnew id page x), h.names,
    h.tracked, h.offset, h.frames⟩

lemma trans (h : Advances k k' kroot new) (h' : Advances k' k'' kroot new) :
    Advances k k'' kroot new := by
  refine ⟨h'.sound, h'.rootOf.trans h.rootOf, fun id page x hx => ?_,
    fun id page x hc hi hx => ?_, fun id => (h'.names id).trans (h.names id),
    fun key name ht => h'.tracked key name (h.tracked key name ht), h.offset.trans h'.offset,
    fun id => (h.frames id).trans (h'.frames id)⟩
  · exact h'.kept id page x (h.kept id page x hx)
  · rcases h'.added id page x hc hi hx with hx | hnew
    · exact h.added id page x hc hi hx
    · exact .inr hnew

lemma isSome_kept (h : Advances k k' kroot new) (hs : (k.memory.leafOf id page).isSome) :
    (k'.memory.leafOf id page).isSome := by
  obtain ⟨x, hx⟩ := Option.isSome_iff_exists.mp hs
  rw [h.kept id page x hx]
  rfl

/-- A page that is not new is mapped where it was, or not mapped. -/
lemma leafOf_eq (h : Advances k k' kroot new) (hc : page.Canonical)
    (hi : sharedIndex page.l4Index = false) (hnew : ∀ x, ¬new id page x) :
    k'.memory.leafOf id page = k.memory.leafOf id page := by
  cases hx : k.memory.leafOf id page with
  | some x => exact h.kept id page x hx
  | none =>
    cases hx' : k'.memory.leafOf id page with
    | none => rfl
    | some x =>
      rcases h.added id page x hc hi hx' with hold | hn
      · rw [hx] at hold
        cases hold
      · exact absurd hn (hnew x)

/-- An address space keeps its name and its frame. -/
lemma space (h : Advances k k' kroot new) (ha' : k'.memory.spaces id = some a') :
    ∃ a, k.memory.spaces id = some a ∧ a.name = a'.name ∧ a.frame = a'.frame :=
  space_of_names (h.names id) (congrFun h.rootOf id) ha'

lemma spaces_isSome (h : Advances k k' kroot new) (id : SpaceId) :
    (k'.memory.spaces id).isSome = (k.memory.spaces id).isSome := by
  rw [← Option.isSome_map (f := (·.name)), h.names, Option.isSome_map]

end Advances

/-- The address space of a process. -/
lemma space_eq_ok (h : k.space i = .ok a) :
    k.memory.spaces (.process i) = some a := by
  rw [space] at h
  split at h
  · next b hb =>
      cases h
      exact hb
  · cases h

end KernelMemory

namespace MemoryState

variable {m m' : MemoryState} {kroot : Frame} {id : SpaceId} {a : AddressSpace}
  {res : Except MappingError Unit}

/-- Sound sharing survives a method of an address space that links own tables. -/
lemma Sound.shares_withPageTable {ps : Page → Prop} (h : m.Sound kroot) (ha : m.spaces id = some a)
    (hc : Walks a.frame ps c)
    (hlinks : ∀ page, ps page → Rhubarb.LinksOwn m.mem (m.MayLink id) a.frame (upperIndices page))
    (hs : m.withPageTable id a c = .ok (res, m')) : m'.SharesSoundly kroot := by
  obtain ⟨s', hrun, rfl⟩ := withPageTable_eq_ok hs
  exact h.shares_put ha hc hlinks hrun

/-- A new address space is tracked when something is mapped in it. -/
lemma newSpace_tracker {name : String} (h : m.newSpace id name none = .ok m') :
    m'.tracker = m.tracker := by
  obtain ⟨kernel, -, h⟩ := ok_of_bind h
  split_ifs at h
  split at h
  · cases h
  · cases h
    rfl

lemma tracker_withPageTable (hs : m.withPageTable id a c = .ok (res, m')) :
    m'.tracker = m.tracker := by
  obtain ⟨s', -, rfl⟩ := withPageTable_eq_ok hs
  rfl

lemma Tracked.of_tracker_eq {key : String × Frame} {name : String} (h : m.Tracked key name)
    (he : m'.tracker = m.tracker) : m'.Tracked key name := by
  rw [Tracked, he]
  exact h

end MemoryState

namespace KernelMemory

open MemoryState

variable {k : KernelMemory} {m' : MemoryState} {kroot : Frame} {i : ℕ} {offset : ℕ}
  {P : Page → Address → Prop}

/-- A call that leaves sound memory. -/
lemma Advances.of_called {id : SpaceId} (hc : Called k.memory m' id P)
    (hsound : Sound ⟨m', offset⟩ kroot) (hle : k.mappingOffset ≤ offset)
    (hcan : ∀ page x, P page x → page.Canonical)
    (htr : ∀ key name, k.memory.Tracked key name → m'.Tracked key name) :
    Advances k ⟨m', offset⟩ kroot fun id' page x => id' = id ∧ P page x := by
  refine ⟨hsound, hc.extend.rootOf, hc.extend.kept, fun id' page x hcp hi hx => ?_, hc.names, htr,
    hle, fun id' => ?_⟩
  · rcases hc.extend.added id' page x hi hx with hold | ⟨hid, page', hsame, hp⟩
    · exact .inl hold
    · rw [hsame.eq hcp (hcan page' x hp)]
      exact .inr ⟨hid, hp⟩
  · by_cases hid : id' = id
    · exact hid ▸ hc.frames
    · rw [show (⟨m', offset⟩ : KernelMemory).memory.owned id' = m'.owned id' from rfl, owned, owned,
        hc.others id' hid]

/-- A call on the address space of a process. -/
lemma Advances.of_process (hk : k.Sound kroot) (hc : Called k.memory m' (.process i) P)
    (hs : m'.SharesSoundly kroot) (hcan : ∀ page x, P page x → page.Canonical)
    (htr : ∀ key name, k.memory.Tracked key name → m'.Tracked key name) :
    Advances k ⟨m', k.mappingOffset⟩ kroot fun id page x => id = .process i ∧ P page x := by
  have howned : m'.owned .kernel = k.memory.owned .kernel := by
    rw [owned, owned, hc.others .kernel (by simp)]
  have hleaf : ∀ page : Page, page.InArea →
      m'.leafOf .kernel page = k.memory.leafOf .kernel page := by
    intro page hpage
    refine hc.extend.leafOf_eq hpage.sharedIndex ?_
    rintro x ⟨hid, -⟩
    cases hid
  refine .of_called hc ⟨hk.memory.called hc hs, hk.area.other_called hleaf (by rw [howned]), ?_⟩
    le_rfl hcan htr
  show k.mappingOffset ≤ kernelMappingBase + (m'.owned .kernel).length * pageSize
  rw [howned]
  exact hk.offset

/-- A call that maps pages of the area into the kernel's address space: the frames of the pages
bound the offset, which does not wrap. -/
lemma Advances.of_kernel {n : ℕ} (hk : k.Sound kroot)
    (hc : Called k.memory m' .kernel (GivenLeaf m' .kernel pages)) (hs : m'.SharesSoundly kroot)
    (hn : (k.memory.owned .kernel).length + n ≤ (m'.owned .kernel).length)
    (hoff : offset = bumpOffset k.mappingOffset n)
    (hbase : kernelMappingBase ≤ pages.start.number * pageSize)
    (hstop : pages.stop.number * pageSize ≤ k.mappingOffset + n * pageSize)
    (htr : ∀ key name, k.memory.Tracked key name → m'.Tracked key name) :
    Advances k ⟨m', offset⟩ kroot (fun id page _ => id = .kernel ∧ page ∈ pages.pages)
      ∧ offset = k.mappingOffset + n * pageSize := by
  have hsound := hk.memory.called hc hs
  have hle := Nat.le_add_right k.mappingOffset (n * pageSize)
  have hfit : k.mappingOffset + n * pageSize < usizeRange := by
    have hown : (m'.owned .kernel).length ≤ 2 ^ 18 := hsound.length_owned_le .kernel
    have hoff := hk.offset_le
    rw [kernelMappingBase_eq] at hoff
    show k.mappingOffset + n * 4096 < 2 ^ 64
    omega
  rw [bumpOffset_of_fits hfit] at hoff
  subst hoff
  have hal : (k.mappingOffset + n * pageSize) % pageSize = 0 := by
    rw [Nat.add_mul_mod_self_right, hk.area.aligned]
  have hbound : k.mappingOffset + n * pageSize
      ≤ kernelMappingBase + (m'.owned .kernel).length * pageSize := by
    have hoff := hk.offset
    have hnew := Nat.mul_le_mul_right pageSize hn
    rw [add_mul] at hnew
    omega
  have harea := hk.area.kernel_called hc hle hfit hal hbase hstop
  refine ⟨(Advances.of_called hc ⟨hsound, harea, hbound⟩ hle (fun page x hp => ?_) htr).mono
    fun id page x hp => ⟨hp.1, hp.2.1⟩, rfl⟩
  obtain ⟨h₁, h₂⟩ := PageRange.bounds_of_mem hbase hstop hp.1
  exact Page.InArea.canonical ⟨h₁, h₂.trans hfit⟩

end KernelMemory

/-! ### Kernel mappings -/

/-- The pages of a mapping lie in the area, below the offset, and are mapped. -/
structure KernelMemory.Holds (k : KernelMemory) (mapping : KernelMapping) : Prop where
  base : kernelMappingBase ≤ mapping.pages.start.number * pageSize
  le : mapping.pages.start.number ≤ mapping.pages.stop.number
  stop : mapping.pages.stop.number * pageSize ≤ k.mappingOffset
  mapped : ∀ page ∈ mapping.pages.pages, (k.memory.leafOf .kernel page).isSome

namespace KernelMemory

open MemoryState

variable {k k' : KernelMemory} {kroot : Frame} {new : SpaceId → Page → Address → Prop}
  {mapping : KernelMapping}

lemma Holds.advances (h : k.Holds mapping) (ha : Advances k k' kroot new) :
    k'.Holds mapping :=
  ⟨h.base, h.le, h.stop.trans ha.offset, fun page hp => ha.isSome_kept (h.mapped page hp)⟩

lemma Holds.inArea (h : k.Holds mapping) (hk : k.Sound kroot) (hp : page ∈ mapping.pages.pages) :
    page.InArea := by
  obtain ⟨h₁, h₂⟩ := PageRange.bounds_of_mem h.base h.stop hp
  exact ⟨h₁, h₂.trans hk.area.bounded⟩

/-- The number of pages of a mapping. -/
lemma Holds.len (h : k.Holds mapping) (hk : k.Sound kroot) :
    mapping.pages.len = mapping.pages.stop.number - mapping.pages.start.number := by
  refine PageRange.len_of_le h.le ?_
  have hstop : mapping.pages.stop.number * 4096 ≤ k.mappingOffset := h.stop
  have hoff : k.mappingOffset < 2 ^ 64 := hk.area.bounded
  show mapping.pages.stop.number < 2 ^ 64
  omega

end KernelMemory

lemma PageRange.length_pages (r : PageRange) :
    r.pages.length = r.stop.number - r.start.number := by
  rw [PageRange.pages, List.length_map, List.length_range']

namespace KernelMapping

open MemoryState KernelMemory

variable {k k' : KernelMemory} {kroot : Frame} {mapping mapping' : KernelMapping} {name : String}
  {size : ℕ} {flags : PageTableFlags}

/-- **A new mapping** adds its pages to the kernel's address space, and nothing else. -/
lemma new_advances (hk : k.Sound kroot) (h : new k name size flags = .ok (mapping, k')) :
    Advances k k' kroot (fun id page _ => id = .kernel ∧ page ∈ mapping.pages.pages)
      ∧ k'.Holds mapping
      ∧ (k.memory.owned .kernel).length + pageCount size ≤ (k'.memory.owned .kernel).length := by
  obtain ⟨kernel, hkernel, hmap, hoffset, -, -, -, hstart, hstop⟩ := new_eq_ok h
  obtain ⟨hcalled, hmapped, hlength⟩ :=
    mapPages_called hk.memory.separated hk.memory.zero hkernel hmap
  have hlength := hlength rfl
  rw [PageRange.length_pages, hstop, Nat.add_sub_cancel_left] at hlength
  -- the sharing stays sound, since the kernel links its own tables
  obtain ⟨⟨r, m₁⟩, hx, hy⟩ := ok_of_map hmap
  have hshares₁ : m₁.SharesSoundly kroot :=
    hk.memory.shares_withPageTable hkernel (walks_mapPagesLoop _ _ _)
      (fun page _ => hk.memory.linksOwn hkernel (.inl rfl)) hx
  obtain ⟨hshares, htracked⟩ : k'.memory.SharesSoundly kroot
      ∧ ∀ key name, k.memory.Tracked key name → k'.memory.Tracked key name := by
    have htr := tracker_withPageTable hx
    cases r with
    | error e => cases hy
    | ok u =>
      obtain ⟨-, hm⟩ := Prod.mk.inj hy
      rw [← hm]
      exact ⟨hshares₁, fun key n ht => (ht.of_tracker_eq htr).track _ _ _⟩
  have hbase : mapping.pages.start.number * pageSize = k.mappingOffset := by
    rw [hstart, hk.area.page_number]
  have hend : mapping.pages.stop.number * pageSize
      = k.mappingOffset + pageCount size * pageSize := by
    rw [hstop, add_mul, hbase]
  obtain ⟨hadv, hoff⟩ := Advances.of_kernel hk hcalled hshares hlength hoffset
    (hbase ▸ hk.area.base) hend.le htracked
  exact ⟨hadv, ⟨hbase ▸ hk.area.base, by omega, (hend.trans hoff.symm).le, hmapped rfl⟩, hlength⟩

end KernelMapping

namespace KernelMemory

open MemoryState

variable {k k' : KernelMemory} {kroot : Frame} {mapping : KernelMapping} {i : ℕ}
  {pages : PageRange} {flags : PageTableFlags} {res : Except MappingError Unit}

/-- Pages of an address space that are its own. -/
def Own (pages : PageRange) : Prop :=
  ∀ page ∈ pages.pages, page.Canonical ∧ sharedIndex page.l4Index = false

/-- What `map_into` has mapped: pages with their kernel pages, to the same address. -/
def Mirrors (k' : KernelMemory) (i : ℕ) (kernelPages pages : PageRange) (id : SpaceId)
    (page : Page) (x : Address) : Prop :=
  id = .process i ∧ ∃ kernelPage, (page, kernelPage) ∈ pages.pages.zip kernelPages.pages
    ∧ k'.memory.leafOf .kernel kernelPage = some x

/-- `map_kernel_pages_to`, and what is recorded afterwards. -/
lemma mapKernelPagesTo_advances {m₁ : MemoryState} {kernelPages : PageRange} (hk : k.Sound kroot)
    (hown : Own pages) (ha : k.memory.spaces (.process i) = some a)
    (hm : m' = m₁ ∨ ∃ t, m' = { m₁ with tracker := t })
    (htr : ∀ key name, k.memory.Tracked key name → m'.Tracked key name)
    (h : k.memory.mapKernelPagesTo (.process i) a kernelPages pages flags = .ok (res, m₁)) :
    Advances k ⟨m', k.mappingOffset⟩ kroot (Mirrors ⟨m', k.mappingOffset⟩ i kernelPages pages)
      ∧ kernelPages.pages.length = pages.pages.length
      ∧ (res = .ok () → ∀ page kernelPage,
        (page, kernelPage) ∈ pages.pages.zip kernelPages.pages →
          k.memory.leafOf (.process i) page = none)
      ∧ (flags.get .present = true → res = .ok () → ∀ page kernelPage,
        (page, kernelPage) ∈ pages.pages.zip kernelPages.pages →
          ∃ x, m'.leafOf (.process i) page = some x ∧ m'.leafOf .kernel kernelPage = some x) := by
  obtain ⟨hlen, -, kernel, s', hkernel, hrun, rfl⟩ := mapKernelPagesTo_eq_ok h
  obtain ⟨hcalled, hfresh, hmirrored⟩ := mapKernelPagesTo_called hk.memory.separated ha h
  have hshares := hk.memory.shares_put ha (walks_mapKernelPagesLoop _ _ _ _ _)
    (fun page hp => hk.memory.linksOwn ha (.inr (hown page hp).2)) hrun
  have hcan : ∀ page x, SharedLeaf (k.memory.put (.process i) a s') kernelPages pages page x →
      page.Canonical := fun page x hp => (hown page (List.of_mem_zip hp.choose_spec.1).1).1
  obtain ⟨t, rfl⟩ : ∃ t, m' = { k.memory.put (.process i) a s' with tracker := t } := by
    rcases hm with rfl | ⟨t, rfl⟩
    · exact ⟨_, rfl⟩
    · exact ⟨t, rfl⟩
  exact ⟨.of_process hk (hcalled.track t) hshares hcan htr, hlen, hfresh, hmirrored⟩

lemma mapInto_others (h : k.mapInto i mapping pages flags = .ok (res, k')) (id : SpaceId)
    (hid : id ≠ .process i) : k'.memory.spaces id = k.memory.spaces id := by
  obtain ⟨a, -, h⟩ := ok_of_bind h
  obtain ⟨⟨r, m'⟩, hmap, hrest⟩ := ok_of_bind h
  cases hrest
  obtain ⟨⟨r₁, m₁⟩, hx, hy⟩ := ok_of_map hmap
  obtain ⟨-, -, kernel, s', -, -, rfl⟩ := mapKernelPagesTo_eq_ok hx
  have hput : (k.memory.put (.process i) a s').spaces id = k.memory.spaces id := by
    rw [spaces_put, Function.update_of_ne hid]
  cases r₁ <;> cases hy <;> exact hput

/-- **`map_into`** adds pages that are mapped where the kernel's are. -/
lemma mapInto_advances (hk : k.Sound kroot) (hown : Own pages)
    (h : k.mapInto i mapping pages flags = .ok (res, k')) :
    Advances k k' kroot (Mirrors k' i mapping.pages pages)
      ∧ mapping.pages.pages.length = pages.pages.length
      ∧ (res = .ok () → ∀ page kernelPage,
        (page, kernelPage) ∈ pages.pages.zip mapping.pages.pages →
          k.memory.leafOf (.process i) page = none)
      ∧ (flags.get .present = true → res = .ok () → ∀ page kernelPage,
        (page, kernelPage) ∈ pages.pages.zip mapping.pages.pages →
          ∃ x, k'.memory.leafOf (.process i) page = some x
            ∧ k'.memory.leafOf .kernel kernelPage = some x)
      ∧ (res = .ok () → ∀ a, k.memory.spaces (.process i) = some a →
        k'.memory.Tracked (a.name, a.frame) mapping.name) := by
  obtain ⟨a, ha, h⟩ := ok_of_bind h
  have ha := space_eq_ok ha
  obtain ⟨⟨r, m'⟩, hmap, hrest⟩ := ok_of_bind h
  cases hrest
  obtain ⟨⟨r₁, m₁⟩, hx, hy⟩ := ok_of_map hmap
  have htr₁ : m₁.tracker = k.memory.tracker := by
    obtain ⟨-, -, -, s', -, -, rfl⟩ := mapKernelPagesTo_eq_ok hx
    rfl
  cases r₁ with
  | error e =>
    cases hy
    obtain ⟨hadv, hlen, hfresh, hmirrored⟩ := mapKernelPagesTo_advances hk hown ha (.inl rfl)
      (fun key name ht => ht.of_tracker_eq htr₁) hx
    exact ⟨hadv, hlen, hfresh, hmirrored, nofun⟩
  | ok u =>
    cases hy
    obtain ⟨hadv, hlen, hfresh, hmirrored⟩ := mapKernelPagesTo_advances hk hown ha
      (.inr ⟨_, rfl⟩) (fun key name ht => (ht.of_tracker_eq htr₁).track a _ _) hx
    refine ⟨hadv, hlen, hfresh, hmirrored, fun _ a' ha' => ?_⟩
    obtain rfl : a = a' := Option.some.inj (ha.symm.trans ha')
    exact tracked_track m₁ a mapping.name pages

end KernelMemory

/-! ### Pages under an L4 index -/

/-- The pages under an index of the upper half are a range. -/
lemma Page.l4Index_eq_iff {p : Page} (hp : p.Canonical) {j : TableIndex} (hj : 256 ≤ (j : ℕ)) :
    p.l4Index = j ↔ 2 ^ 52 - (512 - j) * 2 ^ 27 ≤ p.number
      ∧ p.number < 2 ^ 52 - (511 - j) * 2 ^ 27 := by
  have hval := p.l4Index_val hp
  have hlt := j.isLt
  rw [Fin.ext_iff, hval]
  rcases hp with hp | hp
  · omega
  · omega

/-- A page between two pages of the upper half. -/
lemma Page.canonical_of_le {p : Page} (h : 2 ^ 52 - 2 ^ 35 ≤ p.number) (h' : p.number < 2 ^ 52) :
    p.Canonical :=
  Or.inr ⟨h, h'⟩

namespace KernelMemory

open MemoryState

variable {k k' : KernelMemory} {kroot : Frame} {i : ℕ}

/-- **The stack** lies under its own L4 index. -/
lemma mapStack_advances {id : ℕ} (hk : k.Sound kroot) (h : k.mapStack i id none = .ok k') :
    Advances k k' kroot fun id page _ => id = .process i ∧ page.l4Index = userStackL4Index := by
  obtain ⟨pages, hpages, h⟩ := ok_of_bind h
  obtain rfl : pages = ⟨⟨2 ^ 52 - 5 * 2 ^ 27 - 16⟩, ⟨2 ^ 52 - 5 * 2 ^ 27⟩⟩ :=
    Except.ok.inj (hpages.symm.trans (by decide))
  obtain ⟨a, ha, h⟩ := ok_of_bind h
  have ha := space_eq_ok ha
  obtain ⟨⟨r, m'⟩, hmap, h⟩ := ok_of_bind h
  have hstack : ∀ page ∈ (PageRange.mk ⟨2 ^ 52 - 5 * 2 ^ 27 - 16⟩ ⟨2 ^ 52 - 5 * 2 ^ 27⟩).pages,
      page.Canonical ∧ page.l4Index = userStackL4Index := by
    intro page hp
    have hp : 2 ^ 52 - 5 * 2 ^ 27 - 16 ≤ page.number ∧ page.number < 2 ^ 52 - 5 * 2 ^ 27 :=
      PageRange.mem_pages.mp hp
    have hcan : page.Canonical := Page.canonical_of_le (by omega) (by omega)
    refine ⟨hcan, (Page.l4Index_eq_iff hcan (by decide)).mpr ?_⟩
    show 2 ^ 52 - (512 - 506) * 2 ^ 27 ≤ page.number ∧ page.number < 2 ^ 52 - (511 - 506) * 2 ^ 27
    omega
  obtain ⟨hcalled, -⟩ := mapPages_called hk.memory.separated hk.memory.zero ha hmap
  obtain ⟨⟨r₁, m₁⟩, hx, hy⟩ := ok_of_map hmap
  have hshares₁ : m₁.SharesSoundly kroot := by
    refine hk.memory.shares_withPageTable ha (walks_mapPagesLoop _ _ _) (fun page hp => ?_) hx
    refine hk.memory.linksOwn ha (.inr ?_)
    rw [(hstack page hp).2]
    rfl
  have htr := tracker_withPageTable hx
  cases r₁ with
  | error e =>
    cases hy
    cases h
  | ok u =>
    cases hy
    cases h
    exact (Advances.of_process hk hcalled hshares₁ (fun page x hp => (hstack page hp.1).1)
      fun key name ht => (ht.of_tracker_eq htr).track _ _ _).mono
        fun id page x hp => ⟨hp.1, (hstack page hp.2.1).2⟩

/-- The tables that a call of `set_flags` links are linked below tables of the process. -/
def LinksOwn (k : KernelMemory) (i : ℕ) (pages : PageRange) : Prop :=
  ∀ a, k.memory.spaces (.process i) = some a → ∀ page ∈ pages.pages,
    Rhubarb.LinksOwn k.memory.mem (k.memory.MayLink (.process i)) a.frame (upperIndices page)

instance LinksOwn.decidable (k : KernelMemory) (i : ℕ) (pages : PageRange) :
    Decidable (k.LinksOwn i pages) :=
  match ha : k.memory.spaces (.process i) with
  | none => isTrue fun a hc => by rw [ha] at hc; cases hc
  | some a =>
    decidable_of_iff (∀ page ∈ pages.pages, Rhubarb.LinksOwn k.memory.mem
      (k.memory.MayLink (.process i)) a.frame (upperIndices page)) (by simp [LinksOwn, ha])

/-- **`set_flags`** maps no page. -/
lemma setFlags_advances {flags : PageTableFlags} {res : Except MappingError Unit}
    (hk : k.Sound kroot) (hp : flags.get .present = true) (hlinks : k.LinksOwn i pages)
    (h : k.setFlags i pages flags = .ok (res, k')) :
    Advances k k' kroot fun _ _ _ => False := by
  obtain ⟨a, ha, h⟩ := ok_of_bind h
  have ha := space_eq_ok ha
  obtain ⟨⟨r, m'⟩, hset, hrest⟩ := ok_of_bind h
  cases hrest
  have hcalled := setFlags_called hk.memory.separated ha hp hset
  have hshares := hk.memory.shares_withPageTable ha (walks_setFlags _ _ _) (hlinks a ha) hset
  have htr := tracker_withPageTable hset
  exact (Advances.of_process hk hcalled hshares (fun page x hc => hc.elim)
    fun key name ht => ht.of_tracker_eq htr).mono fun id page x hc => hc.2.elim

end KernelMemory

namespace KernelMapping

open MemoryState KernelMemory

variable {k k' : KernelMemory} {kroot : Frame} {mapping mapping' : KernelMapping} {i : ℕ}
  {a : AddressSpace} {userPages : PageRange}

/-- **A successful extension** adds the kernel pages behind the mapping, and the user pages that
are mapped where they are. -/
lemma extend_advances (hk : k.Sound kroot) (hh : k.Holds mapping) (hown : Own userPages)
    (ha : k.memory.spaces (.process i) = some a) (hpres : mapping.flags.get .present = true)
    (h : extend k mapping (.process i) a userPages = .ok (.ok (), mapping', k')) :
    ∃ stop, mapping' = { mapping with pages := ⟨mapping.pages.start, stop⟩ }
      ∧ stop.number = mapping.pages.stop.number + userPages.len
      ∧ (PageRange.mk mapping.pages.stop stop).pages.length = userPages.pages.length
      ∧ Advances k k' kroot (fun id page x =>
        id = .kernel ∧ page ∈ (PageRange.mk mapping.pages.stop stop).pages
          ∨ Mirrors k' i ⟨mapping.pages.stop, stop⟩ userPages id page x)
      ∧ k'.Holds mapping'
      ∧ (∀ page kernelPage,
        (page, kernelPage) ∈ userPages.pages.zip (PageRange.mk mapping.pages.stop stop).pages →
          ∃ x, k'.memory.leafOf (.process i) page = some x
            ∧ k'.memory.leafOf .kernel kernelPage = some x) := by
  obtain ⟨kernel, stop, hkernel, hnum, hoffset, hcases⟩ := extend_eq_ok h
  rcases hcases with ⟨e, -, hc, -⟩ | ⟨m₁, hmap, ⟨e, -, hc, -⟩ | ⟨-, m₂, hto, htrack, rfl⟩⟩
  · cases hc
  · cases hc
  -- the kernel's side
  obtain ⟨hcalled, hmapped, hlength, -⟩ :=
    mapPagesUntracked_called hk.memory.separated hk.memory.zero hkernel hmap
  have hshares₁ := hk.memory.shares_withPageTable hkernel (walks_mapPagesUntrackedLoop _ _ _)
    (fun page _ => hk.memory.linksOwn hkernel (.inl rfl)) hmap
  have hlength := hlength rfl
  rw [PageRange.length_pages, hnum, Nat.add_sub_cancel_left] at hlength
  have hend : stop.number * pageSize ≤ k.mappingOffset + userPages.len * pageSize := by
    rw [hnum, add_mul]
    exact Nat.add_le_add_right hh.stop _
  have htr₁ := tracker_withPageTable hmap
  obtain ⟨hadv₁, hoff⟩ := Advances.of_kernel hk hcalled hshares₁ hlength hoffset
    (hh.base.trans (Nat.mul_le_mul_right pageSize hh.le)) hend
    fun key name ht => ht.of_tracker_eq htr₁
  -- the user's side
  have ha₁ : m₁.spaces (.process i) = some a := by rw [hcalled.others _ (by simp), ha]
  have htr₂ : m₂.tracker = m₁.tracker := by
    obtain ⟨-, -, -, s', -, -, rfl⟩ := mapKernelPagesTo_eq_ok hto
    rfl
  obtain ⟨hadv₂, hlens, -, hmirrored⟩ := mapKernelPagesTo_advances hadv₁.sound hown ha₁
    (.inr (trackEnd_eq_ok htrack))
    (fun key name ht => (ht.of_tracker_eq htr₂).trackEnd htrack) hto
  have hadv : Advances k k' kroot fun id page x =>
      id = .kernel ∧ page ∈ (PageRange.mk mapping.pages.stop stop).pages
        ∨ Mirrors k' i ⟨mapping.pages.stop, stop⟩ userPages id page x :=
    (hadv₁.mono fun _ _ _ hp => .inl hp).trans (hadv₂.mono fun _ _ _ hp => .inr hp)
  refine ⟨stop, rfl, hnum, hlens, hadv, ⟨hh.base, ?_, hend.trans hoff.ge, fun page hp => ?_⟩,
    hmirrored hpres rfl⟩
  · show mapping.pages.start.number ≤ stop.number
    have := hh.le
    omega
  · by_cases hold : page ∈ mapping.pages.pages
    · exact hadv.isSome_kept (hh.mapped page hold)
    · refine hadv₂.isSome_kept (hmapped rfl page ?_)
      simp only [PageRange.mem_pages] at hp hold ⊢
      omega

end KernelMapping

/-! ### Loading -/

/-- A known section: its mapping is held, and was made by `allocate_section_mappings`. -/
structure KernelMemory.Loaded (k : KernelMemory) (s : LoadedSection) : Prop where
  holds : k.Holds s.mapping
  count : s.mapping.pages.stop.number = s.mapping.pages.start.number + pageCount s.mapping.size
  present : s.mapping.flags.get .present = true
  user : s.mapping.flags.get .userAccessible = true

lemma LoadedSection.mem_insert {t : LoadedSection} (h : t ∈ s.insert known) :
    t = s ∨ t ∈ known := by
  induction known with
  | nil => exact .inl (List.mem_singleton.mp h)
  | cons u known ih =>
    rw [insert] at h
    split_ifs at h
    · exact List.mem_cons.mp h
    · rcases List.mem_cons.mp h with rfl | h
      · exact .inr List.mem_cons_self
      · exact (ih h).imp_right (List.mem_cons_of_mem u)
    · exact (List.mem_cons.mp h).imp_right (List.mem_cons_of_mem u)

/-- The sections that become known are those of the object's mappings. -/
lemma addSections_mem {owner : String} {mappings : ObjectPart → Option KernelMapping}
    {images : List SectionImage} (h : addSections owner mappings images known = .ok known')
    (hs : s ∈ known') : s ∈ known ∨ ∃ part, mappings part = some s.mapping := by
  induction images generalizing known with
  | nil =>
    cases h
    exact .inl hs
  | cons image images ih =>
    rw [addSections] at h
    split at h
    · exact ih h
    · next mapping hmapping =>
        obtain ⟨t, ht, h⟩ := ok_of_bind h
        refine (ih h).elim (fun hmem => ?_) Or.inr
        rcases LoadedSection.mem_insert hmem with rfl | hmem
        · refine .inr ⟨image.part, ?_⟩
          rw [LoadedSection.load] at ht
          split at ht
          · cases ht
          · split_ifs at ht
            cases ht
            exact hmapping
        · exact .inl hmem

namespace KernelMemory

open MemoryState

variable {k k' k'' : KernelMemory} {kroot : Frame} {i : ℕ} {image : ObjectImage}
  {part : ObjectPart} {mapping : Option KernelMapping} {start start' : Page} {base : ℕ}

lemma Loaded.advances {new : SpaceId → Page → Address → Prop} (h : k.Loaded s)
    (ha : Advances k k' kroot new) : k'.Loaded s :=
  ⟨h.holds.advances ha, h.count, h.present, h.user⟩

/-- What loading may map: kernel mappings, and pages of the process from `base` on. -/
def LoadPages (i base : ℕ) (id : SpaceId) (page : Page) (_ : Address) : Prop :=
  id = .kernel ∧ page.InArea
    ∨ id = .process i ∧ base ≤ page.number ∧ page.number < base + maxFrames

/-- The number of pages of a part. -/
def partLen (mapping : Option KernelMapping) : ℕ :=
  mapping.elim 0 fun m => m.pages.stop.number - m.pages.start.number

/-- A part of an object, as `allocate_section_mappings` makes it. -/
def PartOf (k : KernelMemory) (part : ObjectPart) (mapping : Option KernelMapping) : Prop :=
  ∀ m, mapping = some m → k.Holds m
    ∧ m.pages.stop.number = m.pages.start.number + pageCount m.size ∧ m.flags = part.flags

lemma PartOf.advances {new : SpaceId → Page → Address → Prop} (h : PartOf k part mapping)
    (ha : Advances k k' kroot new) : PartOf k' part mapping :=
  fun m hm => ⟨(h m hm).1.advances ha, (h m hm).2⟩

lemma newPart_advances (i base : ℕ) (hk : k.Sound kroot)
    (h : k.newPart image part = .ok (mapping, k')) :
    Advances k k' kroot (LoadPages i base) ∧ PartOf k' part mapping
      ∧ (k.memory.owned .kernel).length + partLen mapping ≤ (k'.memory.owned .kernel).length := by
  rw [newPart] at h
  split_ifs at h
  · obtain ⟨⟨m, k₁⟩, hnew, hrest⟩ := ok_of_bind h
    cases hrest
    obtain ⟨hadv, hholds, hlen⟩ := KernelMapping.new_advances hk hnew
    obtain ⟨-, -, -, -, -, hsize, hflags, -, hstop⟩ := KernelMapping.new_eq_ok hnew
    refine ⟨hadv.mono fun id page x hp => .inl ⟨hp.1, hholds.inArea hadv.sound hp.2⟩,
      fun m' hm' => ?_, ?_⟩
    · cases hm'
      exact ⟨hholds, by rw [hsize]; exact hstop, hflags⟩
    · show _ + (m.pages.stop.number - m.pages.start.number) ≤ _
      omega
  · cases h
    exact ⟨.refl hk _, nofun, le_rfl⟩

/-- Pages from `base` on are the process's own. -/
def OwnFrom (base : ℕ) : Prop :=
  ∀ page : Page, base ≤ page.number → page.number < base + maxFrames →
    page.Canonical ∧ sharedIndex page.l4Index = false

lemma mapPart_advances (hk : k.Sound kroot) (hbase : OwnFrom base) (hpart : PartOf k part mapping)
    (hstart : base ≤ start.number) (hroom : start.number + partLen mapping ≤ base + maxFrames)
    (h : k.mapPart i start mapping = .ok (start', k')) :
    Advances k k' kroot (LoadPages i base)
      ∧ start'.number = start.number + partLen mapping
      ∧ k'.memory.owned .kernel = k.memory.owned .kernel := by
  cases mapping with
  | none =>
    cases h
    exact ⟨.refl hk _, rfl, rfl⟩
  | some m =>
    obtain ⟨pages, hpages, h⟩ := ok_of_bind h
    obtain ⟨stop, hstop, hrange⟩ := ok_of_bind hpages
    cases hrange
    obtain ⟨hnum, -⟩ := KernelMapping.page_add_eq_ok hstop
    have hholds := (hpart m rfl).1
    rw [hholds.len hk] at hnum
    have hstop' : stop.number ≤ base + maxFrames := by rw [hnum]; exact hroom
    have hin : ∀ page ∈ (PageRange.mk start stop).pages,
        base ≤ page.number ∧ page.number < base + maxFrames := by
      intro page hp
      obtain ⟨h₁, h₂⟩ := PageRange.mem_pages.mp hp
      exact ⟨hstart.trans h₁, lt_of_lt_of_le h₂ hstop'⟩
    obtain ⟨⟨r, k₁⟩, hmap, h⟩ := ok_of_bind h
    obtain ⟨hadv, -⟩ := mapInto_advances hk
      (fun page hp => hbase page (hin page hp).1 (hin page hp).2) hmap
    have howned : k₁.memory.owned .kernel = k.memory.owned .kernel := by
      rw [owned, owned, mapInto_others hmap .kernel (by simp)]
    cases r with
    | error e => cases h
    | ok u =>
      cases h
      refine ⟨hadv.mono fun id page x hp => .inr ⟨hp.1, ?_⟩, hnum, howned⟩
      obtain ⟨kernelPage, hzip, -⟩ := hp.2
      exact hin page (List.of_mem_zip hzip).1

/-- **Loading an object**: the page after its last one is bounded by the frames of the
kernel. -/
lemma loadObject_advances (hk : k.Sound kroot) (hbase : OwnFrom base) (hstart : base ≤ start.number)
    (hroom : start.number ≤ base + (k.memory.owned .kernel).length)
    (hknown : ∀ s ∈ known, k.Loaded s)
    (h : loadObject i image start k known = .ok (start', k', known')) :
    Advances k k' kroot (LoadPages i base) ∧ base ≤ start'.number
      ∧ start'.number ≤ base + (k'.memory.owned .kernel).length
      ∧ ∀ s ∈ known', k'.Loaded s := by
  obtain ⟨⟨x, k₁⟩, hx, h⟩ := ok_of_bind h
  obtain ⟨⟨r, k₂⟩, hr, h⟩ := ok_of_bind h
  obtain ⟨⟨w, k₃⟩, hw, h⟩ := ok_of_bind h
  obtain ⟨⟨s₁, k₄⟩, hmx, h⟩ := ok_of_bind h
  obtain ⟨⟨s₂, k₅⟩, hmr, h⟩ := ok_of_bind h
  obtain ⟨⟨s₃, k₆⟩, hmw, h⟩ := ok_of_bind h
  obtain ⟨known₁, hadd, hrest⟩ := ok_of_bind h
  cases hrest
  obtain ⟨hadv₁, hpx, hlx⟩ := newPart_advances i base hk hx
  obtain ⟨hadv₂, hpr, hlr⟩ := newPart_advances i base hadv₁.sound hr
  obtain ⟨hadv₃, hpw, hlw⟩ := newPart_advances i base hadv₂.sound hw
  have hmax := hadv₃.sound.memory.length_owned_le .kernel
  have hpx := (hpx.advances hadv₂).advances hadv₃
  have hpr := hpr.advances hadv₃
  obtain ⟨hadv₄, hn₁, ho₄⟩ := mapPart_advances hadv₃.sound hbase hpx hstart (by omega) hmx
  obtain ⟨hadv₅, hn₂, ho₅⟩ :=
    mapPart_advances hadv₄.sound hbase (hpr.advances hadv₄) (by omega) (by omega) hmr
  obtain ⟨hadv₆, hn₃, ho₆⟩ := mapPart_advances hadv₅.sound hbase
    ((hpw.advances hadv₄).advances hadv₅) (by omega) (by omega) hmw
  have hadv := ((((hadv₁.trans hadv₂).trans hadv₃).trans hadv₄).trans hadv₅).trans hadv₆
  have hlate := (hadv₄.trans hadv₅).trans hadv₆
  refine ⟨hadv, by omega, ?_, fun s hs => ?_⟩
  · rw [ho₆, ho₅, ho₄]
    omega
  · rcases addSections_mem hadd hs with hold | ⟨part, hpart⟩
    · exact (hknown s hold).advances hadv
    · have hof : PartOf k' part (objectMappings x r w part) := by
        cases part with
        | executable => exact hpx.advances hlate
        | readOnly => exact hpr.advances hlate
        | readWrite => exact hpw.advances hlate
      obtain ⟨hholds, hcount, hflags⟩ := hof s.mapping hpart
      refine ⟨hholds, hcount, ?_, ?_⟩ <;> rw [hflags] <;> cases part <;> decide

/-- **Loading an object with the objects it needs**. -/
lemma loadObjects_advances {images : List ObjectImage} (hk : k.Sound kroot) (hbase : OwnFrom base)
    (hstart : base ≤ start.number) (hroom : start.number ≤ base + (k.memory.owned .kernel).length)
    (hknown : ∀ s ∈ known, k.Loaded s) (h : loadObjects i images start k known = .ok (k', known')) :
    Advances k k' kroot (LoadPages i base) ∧ ∀ s ∈ known', k'.Loaded s := by
  induction images generalizing start k known with
  | nil =>
    cases h
    exact ⟨.refl hk _, hknown⟩
  | cons image images ih =>
    obtain ⟨⟨start₁, k₁, known₁⟩, hload, h⟩ := ok_of_bind h
    obtain ⟨hadv, hstart₁, hroom₁, hknown₁⟩ :=
      loadObject_advances hk hbase hstart hroom hknown hload
    obtain ⟨hadv', hknown'⟩ := ih hadv.sound hstart₁ hroom₁ hknown₁ h
    exact ⟨hadv.trans hadv', hknown'⟩

end KernelMemory

/-! ### Address spaces that come and go -/

namespace KernelMemory

open MemoryState

variable {k k' k'' : KernelMemory} {kroot : Frame} {i : ℕ} {name : String}

/-- **What a call leaves alone outside the address space of one process**: nothing is unmapped
or moved there, and only the kernel's address space may have new pages. -/
structure Elsewhere (k k' : KernelMemory) (kroot : Frame) (i : ℕ) : Prop where
  sound : k'.Sound kroot
  rootOf : ∀ id, id ≠ .process i → k'.memory.rootOf id = k.memory.rootOf id
  names : ∀ id, id ≠ .process i →
    (k'.memory.spaces id).map (·.name) = (k.memory.spaces id).map (·.name)
  kept : ∀ id, id ≠ .process i → ∀ page x, k.memory.leafOf id page = some x →
    k'.memory.leafOf id page = some x
  same : ∀ j, j ≠ i → ∀ page : Page, page.Canonical → sharedIndex page.l4Index = false →
    k'.memory.leafOf (.process j) page = k.memory.leafOf (.process j) page
  tracked : ∀ id a, id ≠ .process i → k.memory.spaces id = some a → ∀ n,
    k.memory.Tracked (a.name, a.frame) n → k'.memory.Tracked (a.name, a.frame) n
  offset : k.mappingOffset ≤ k'.mappingOffset

/-- A space that is left alone keeps its name and its frame. -/
lemma Elsewhere.space {id : SpaceId} (h : Elsewhere k k' kroot i) (hid : id ≠ .process i)
    (ha' : k'.memory.spaces id = some a') :
    ∃ a, k.memory.spaces id = some a ∧ a.name = a'.name ∧ a.frame = a'.frame :=
  space_of_names (h.names id hid) (h.rootOf id hid) ha'

lemma Elsewhere.trans (h : Elsewhere k k' kroot i) (h' : Elsewhere k' k'' kroot i) :
    Elsewhere k k'' kroot i := by
  refine ⟨h'.sound, fun id hid => (h'.rootOf id hid).trans (h.rootOf id hid),
    fun id hid => (h'.names id hid).trans (h.names id hid),
    fun id hid page x hx => h'.kept id hid page x (h.kept id hid page x hx),
    fun j hj page hc hi => (h'.same j hj page hc hi).trans (h.same j hj page hc hi),
    fun id a hid ha n ht => ?_, h.offset.trans h'.offset⟩
  have hname := h.names id hid
  rw [ha, Option.map_some, Option.map_eq_some_iff] at hname
  obtain ⟨a', ha', hn⟩ := hname
  have hroot := h.rootOf id hid
  rw [rootOf_of_space ha', rootOf_of_space ha, Option.some.injEq] at hroot
  have ht' := h'.tracked id a' hid ha' n
  rw [hn, hroot] at ht'
  exact ht' (h.tracked id a hid ha n ht)

lemma Advances.elsewhere {new : SpaceId → Page → Address → Prop} (h : Advances k k' kroot new)
    (hnew : ∀ j page x, j ≠ i → page.Canonical → ¬new (.process j) page x) :
    Elsewhere k k' kroot i :=
  ⟨h.sound, fun id _ => congrFun h.rootOf id, fun id _ => h.names id,
    fun id _ page x hx => h.kept id page x hx,
    fun j hj page hc hi => h.leafOf_eq hc hi fun x => hnew j page x hj hc,
    fun _ _ _ _ _ ht => h.tracked _ _ ht, h.offset⟩

/-- Entering the kernel's address space. -/
lemma enterKernel_sound (hk : k.Sound kroot) (h : k.enterKernel = .ok k') :
    Advances k k' kroot fun _ _ _ => False := by
  obtain ⟨kernel, -, hrest⟩ := ok_of_bind h
  cases hrest
  refine ⟨⟨⟨⟨⟨hk.memory.separated.roots.tidy, hk.memory.separated.roots.kernel,
    hk.memory.separated.roots.distinct⟩, hk.memory.separated.priv⟩, hk.memory.shares,
    hk.memory.zero, hk.memory.unowned⟩, ⟨hk.area.base, hk.area.bounded, hk.area.aligned,
    hk.area.below, hk.area.frames⟩, hk.offset⟩, rfl, fun _ _ _ hx => hx,
    fun _ _ _ _ _ hx => .inl hx, fun _ => rfl, fun _ _ ht => ht, le_rfl,
    fun _ => List.prefix_rfl⟩

/-- A call that changes nothing in the other address spaces. -/
lemma Elsewhere.of_others (hk : k.Sound kroot) (hsound : m'.Sound kroot)
    (hothers : ∀ id, id ≠ .process i → m'.spaces id = k.memory.spaces id)
    (hleaf : ∀ id, id ≠ .process i → ∀ page, m'.leafOf id page = k.memory.leafOf id page)
    (htr : ∀ id a, id ≠ .process i → k.memory.spaces id = some a → ∀ n,
      k.memory.Tracked (a.name, a.frame) n → m'.Tracked (a.name, a.frame) n) :
    Elsewhere k ⟨m', k.mappingOffset⟩ kroot i := by
  have howned : m'.owned .kernel = k.memory.owned .kernel := by
    rw [owned, owned, hothers .kernel (by simp)]
  refine ⟨⟨hsound, hk.area.other_called (fun page _ => hleaf .kernel (by simp) page)
      (by rw [howned]), ?_⟩,
    fun id hid => congrArg (Option.map AddressSpace.frame) (hothers id hid),
    fun id hid => congrArg (Option.map AddressSpace.name) (hothers id hid),
    fun id hid page x hx => (hleaf id hid page).trans hx,
    fun j hj page _ _ => hleaf _ (by simpa using hj) page, htr, le_rfl⟩
  show k.mappingOffset ≤ kernelMappingBase + (m'.owned .kernel).length * pageSize
  rw [howned]
  exact hk.offset

/-- **A new address space** maps nothing under a private index. -/
lemma newSpace_elsewhere (hk : k.Sound kroot) (hi : k.memory.spaces (.process i) = none)
    (h : k.newSpace i name = .ok k') :
    Elsewhere k k' kroot i ∧ (k'.memory.spaces (.process i)).isSome
      ∧ ∀ page, sharedIndex page.l4Index = false → k'.memory.leafOf (.process i) page = none := by
  obtain ⟨m', hm, hrest⟩ := ok_of_bind h
  cases hrest
  obtain ⟨-, hleaf, hnone, n, -, -, -, hspaces⟩ := newSpace_separated hk.memory.separated hi hm
  refine ⟨.of_others hk (hk.memory.newSpace hi hm) (fun id hid => ?_) hleaf
    (fun _ _ _ _ _ ht => ht.of_tracker_eq (newSpace_tracker hm)), ?_, hnone⟩
  · rw [hspaces, Function.update_of_ne hid]
  · show (m'.spaces (.process i)).isSome
    rw [hspaces, Function.update_self]
    rfl

/-- **A dropped address space** leaves the others as they were. -/
lemma dropSpace_elsewhere (hk : k.Sound kroot) (h : k.dropSpace i = .ok k') :
    Elsewhere k k' kroot i ∧ k'.memory.spaces (.process i) = none := by
  obtain ⟨a, ha, hrest⟩ := ok_of_bind h
  cases hrest
  have ha := space_eq_ok ha
  obtain ⟨hsound, hleaf⟩ := hk.memory.dropSpace ha
  refine ⟨.of_others hk hsound (fun id hid => ?_) hleaf fun id b hid hb n ht => ?_,
    Function.update_self _ _ _⟩
  · rw [spaces_dropSpace, Function.update_of_ne hid]
  · -- the tracked ranges of another address space are under another frame
    obtain ⟨ranges, hr, hn⟩ := ht
    refine ⟨ranges, ?_, hn⟩
    have hkey : (b.name, b.frame) ≠ (a.name, a.frame) := by
      intro hc
      have hframe : b.frame = a.frame := (Prod.mk.inj hc).2
      exact hid (hk.memory.separated.roots.distinct _ _ _ (rootOf_of_space hb)
        (hframe ▸ rootOf_of_space ha))
    exact (Function.update_of_ne hkey _ _).trans hr

end KernelMemory

end Rhubarb
