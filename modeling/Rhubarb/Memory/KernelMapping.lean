import Rhubarb.Memory.Separation

/-!
Kernel mappings (`KernelMapping::new` and `KernelMapping::extend` of `kernel/src/memory.rs`).

A mapping is carved from the area above `KERNEL_MAPPING_BASE` at an offset that only grows; a
mapping is extended at its own end, where later mappings may already be.  `extend` bumps the
offset before it maps anything and may fail on the kernel's side or on the user's, so the area
has gaps and pages that belong to no mapping.

* `new_eq_ok`, `extend_eq_ok`: what the two functions call, the only places where their bodies
  are opened.
* `mappings_run`: along every run of the two in which the offset does not pass the end of the
  address space, the recorded ranges are disjoint and mapped, and everything mapped in the
  area lies below the offset.
* `mapping_above_offset`: the offset does wrap, after an extension that maps nothing.
-/

namespace Rhubarb

open Foundations Level4PageTable Levels

/-- `KERNEL_MAPPING_BASE`. -/
def kernelMappingBase : ℕ := (Address.fromTableIndices kernelMappingL4Index 0 0 0).toRaw

/-- The memory and `KERNEL_MAPPING_OFFSET`. -/
structure KernelMemory where
  memory : MemoryState
  mappingOffset : ℕ

/-- `size.div_ceil(PAGE_SIZE)`. -/
def pageCount (size : ℕ) : ℕ := (size + pageSize - 1) / pageSize

/-- `KERNEL_MAPPING_OFFSET` after `fetch_add(len * PAGE_SIZE)`: both the product and the sum
wrap. -/
def bumpOffset (offset len : ℕ) : ℕ := wrappingAdd offset (len * pageSize % usizeRange)

/-- Set the end of the first range of that name. -/
def setEnd (name : String) (stop : Page) :
    List (String × PageRange) → Option (List (String × PageRange))
  | [] => none
  | (n, range) :: mappings =>
    if n = name then some ((n, { range with stop }) :: mappings)
    else (setEnd name stop mappings).map ((n, range) :: ·)

variable {p stop : Page} {n : ℕ} {m m' : MemoryState} {kernelPages userPages : PageRange}
  {kernel space : AddressSpace} {mapping : KernelMapping} {flags : PageTableFlags} {id : SpaceId}
  {e : MappingError}

lemma PageRange.mem_pages {r : PageRange} :
    p ∈ r.pages ↔ r.start.number ≤ p.number ∧ p.number < r.stop.number := by
  rw [PageRange.pages, List.mem_map]
  constructor
  · rintro ⟨n, hn, rfl⟩
    rw [List.mem_range'_1] at hn
    show _ ≤ n ∧ n < _
    omega
  · intro h
    exact ⟨p.number, by rw [List.mem_range'_1]; omega, rfl⟩

/-- The pages of a range that lies between two addresses. -/
lemma PageRange.bounds_of_mem {r : PageRange} {lo hi : ℕ} (hlo : lo ≤ r.start.number * pageSize)
    (hhi : r.stop.number * pageSize ≤ hi) (hp : p ∈ r.pages) :
    lo ≤ p.number * pageSize ∧ p.number * pageSize < hi := by
  rw [PageRange.mem_pages] at hp
  exact ⟨hlo.trans (Nat.mul_le_mul_right _ hp.1),
    (Nat.mul_lt_mul_of_pos_right hp.2 (by decide)).trans_le hhi⟩

/-- A range that does not wrap has as many pages as the difference of its ends. -/
lemma PageRange.len_of_le {r : PageRange} (h : r.start.number ≤ r.stop.number)
    (hlt : r.stop.number < usizeRange) : r.len = r.stop.number - r.start.number := by
  have hlt : r.stop.number < 2 ^ 64 := hlt
  show (r.stop.number + 2 ^ 64 - r.start.number) % 2 ^ 64 = _
  omega

/-- The last statement of `KernelMapping::extend`. -/
def MemoryState.trackEnd (m : MemoryState) (space : AddressSpace) (name : String) (stop : Page) :
    Except Panic MemoryState :=
  match m.tracker (space.name, space.frame) with
  | none => .ok m
  | some mappings =>
    match setEnd name stop mappings with
    | some mappings =>
      .ok { m with tracker := Function.update m.tracker (space.name, space.frame) (some mappings) }
    | none => .error .untrackedMapping

namespace KernelMapping

/-- `KernelMapping::new`. -/
def new (k : KernelMemory) (name : String) (size : ℕ) (flags : PageTableFlags) :
    Except Panic (KernelMapping × KernelMemory) := do
  let mappingOffset := bumpOffset k.mappingOffset (pageCount size)
  let pages ← PageRange.fromBaseLen (Address.new k.mappingOffset) (pageCount size)
  if pages.len ≠ pageCount size then .error .mappingLen
  else
    let kernel ← k.memory.kernelAddressSpace
    match ← k.memory.mapPages .kernel kernel name pages flags with
    | (.ok _, memory) => .ok (⟨name, size, pages, flags⟩, { memory, mappingOffset })
    | (.error _, _) => .error .newMapping

/-- `KernelMapping::extend`; with the result come the mapping and the memory as the call leaves
them. -/
def extend (k : KernelMemory) (mapping : KernelMapping) (id : SpaceId) (space : AddressSpace)
    (userPages : PageRange) :
    Except Panic (Except MappingError Unit × KernelMapping × KernelMemory) := do
  let stop ← mapping.pages.stop.add userPages.len
  let kernelPages : PageRange := ⟨mapping.pages.stop, stop⟩
  let mappingOffset := bumpOffset k.mappingOffset kernelPages.len
  let kernel ← k.memory.kernelAddressSpace
  match ← k.memory.mapPagesUntracked .kernel kernel kernelPages mapping.flags with
  | (.error e, memory) => .ok (.error e, mapping, { memory, mappingOffset })
  | (.ok _, memory) =>
    match ← memory.mapKernelPagesTo id space kernelPages userPages mapping.flags with
    | (.error e, memory) => .ok (.error e, mapping, { memory, mappingOffset })
    | (.ok _, memory) =>
      let memory ← memory.trackEnd space mapping.name stop
      .ok (.ok (), { mapping with pages := ⟨mapping.pages.start, stop⟩ },
        { memory, mappingOffset })

section Calls

variable {k k' : KernelMemory} {mapping mapping' : KernelMapping} {name : String} {size : ℕ}
  {flags : PageTableFlags} {id : SpaceId} {space : AddressSpace} {userPages : PageRange}
  {res : Except MappingError Unit}

lemma page_add_eq_ok {q : Page} (h : p.add n = .ok q) :
    q.number = p.number + n ∧ q.number < usizeRange := by
  rw [Page.add] at h
  split_ifs at h with hlt
  cases h
  exact ⟨rfl, hlt⟩

lemma kernelAddressSpace_eq_ok {a : AddressSpace} (h : m.kernelAddressSpace = .ok a) :
    m.spaces .kernel = some a := by
  rw [MemoryState.kernelAddressSpace] at h
  split at h
  · next b hb =>
      cases h
      exact hb
  · cases h

/-- **What `new` does**: it maps its pages into the kernel's address space from the offset on. -/
lemma new_eq_ok (h : new k name size flags = .ok (mapping, k')) :
    ∃ kernel, k.memory.spaces .kernel = some kernel
      ∧ k.memory.mapPages .kernel kernel name mapping.pages flags = .ok (.ok (), k'.memory)
      ∧ k'.mappingOffset = bumpOffset k.mappingOffset (pageCount size)
      ∧ mapping.name = name ∧ mapping.size = size ∧ mapping.flags = flags
      ∧ mapping.pages.start = (Address.new k.mappingOffset).page
      ∧ mapping.pages.stop.number = mapping.pages.start.number + pageCount size := by
  rw [new] at h
  obtain ⟨pages, hpages, h⟩ := ok_of_bind h
  rw [PageRange.fromBaseLen] at hpages
  obtain ⟨stop, hstop, hrange⟩ := ok_of_bind hpages
  obtain rfl := Except.ok.inj hrange
  by_cases hlen : (PageRange.mk (Address.new k.mappingOffset).page stop).len ≠ pageCount size
  · rw [if_pos hlen] at h
    cases h
  rw [if_neg hlen] at h
  obtain ⟨kernel, hkernel, h⟩ := ok_of_bind h
  obtain ⟨⟨r, memory⟩, hmap, h⟩ := ok_of_bind h
  have hnum := (page_add_eq_ok hstop).1
  cases r with
  | error e => cases h
  | ok u =>
    obtain ⟨rfl, rfl⟩ := Prod.mk.inj (Except.ok.inj h)
    exact ⟨kernel, kernelAddressSpace_eq_ok hkernel, hmap, rfl, rfl, rfl, rfl, rfl, hnum⟩

/-- The end of an extension that was successful in both address spaces. -/
def Extended (k' : KernelMemory) (mapping mapping' : KernelMapping) (m₁ : MemoryState)
    (id : SpaceId) (space : AddressSpace) (userPages : PageRange) (stop : Page) : Prop :=
  ∃ m₂, m₁.mapKernelPagesTo id space ⟨mapping.pages.stop, stop⟩ userPages mapping.flags
      = .ok (.ok (), m₂)
    ∧ m₂.trackEnd space mapping.name stop = .ok k'.memory
    ∧ mapping' = { mapping with pages := ⟨mapping.pages.start, stop⟩ }

/-- **What `extend` does**: it fails on the kernel's side, or on the user's, or the mapping and
the tracked range get a new end. -/
lemma extend_eq_ok (h : extend k mapping id space userPages = .ok (res, mapping', k')) :
    ∃ kernel stop, k.memory.spaces .kernel = some kernel
      ∧ stop.number = mapping.pages.stop.number + userPages.len
      ∧ k'.mappingOffset = bumpOffset k.mappingOffset userPages.len
      ∧ ((∃ e, k.memory.mapPagesUntracked .kernel kernel ⟨mapping.pages.stop, stop⟩ mapping.flags
            = .ok (.error e, k'.memory) ∧ res = .error e ∧ mapping' = mapping)
        ∨ ∃ m₁, k.memory.mapPagesUntracked .kernel kernel ⟨mapping.pages.stop, stop⟩ mapping.flags
            = .ok (.ok (), m₁)
          ∧ ((∃ e, m₁.mapKernelPagesTo id space ⟨mapping.pages.stop, stop⟩ userPages mapping.flags
              = .ok (.error e, k'.memory) ∧ res = .error e ∧ mapping' = mapping)
            ∨ res = .ok () ∧ Extended k' mapping mapping' m₁ id space userPages stop)) := by
  rw [extend] at h
  obtain ⟨stop, hstop, h⟩ := ok_of_bind h
  obtain ⟨kernel, hkernel, h⟩ := ok_of_bind h
  obtain ⟨⟨r₁, m₁⟩, hmap, h⟩ := ok_of_bind h
  obtain ⟨hnum, hlt⟩ := page_add_eq_ok hstop
  have hlen : (PageRange.mk mapping.pages.stop stop).len = userPages.len := by
    rw [PageRange.len_of_le (by simp only; omega) hlt]
    simp only
    omega
  rw [hlen] at h
  refine ⟨kernel, stop, kernelAddressSpace_eq_ok hkernel, hnum, ?_⟩
  cases r₁ with
  | error e =>
    obtain ⟨rfl, hx⟩ := Prod.mk.inj (Except.ok.inj h)
    obtain ⟨rfl, rfl⟩ := Prod.mk.inj hx
    exact ⟨rfl, .inl ⟨e, hmap, rfl, rfl⟩⟩
  | ok u =>
    obtain ⟨⟨r₂, m₂⟩, hto, h⟩ := ok_of_bind h
    cases r₂ with
    | error e =>
      obtain ⟨rfl, hx⟩ := Prod.mk.inj (Except.ok.inj h)
      obtain ⟨rfl, rfl⟩ := Prod.mk.inj hx
      exact ⟨rfl, .inr ⟨m₁, hmap, .inl ⟨e, hto, rfl, rfl⟩⟩⟩
    | ok u =>
      obtain ⟨m₃, htrack, h⟩ := ok_of_bind h
      obtain ⟨rfl, hx⟩ := Prod.mk.inj (Except.ok.inj h)
      obtain ⟨rfl, rfl⟩ := Prod.mk.inj hx
      exact ⟨rfl, .inr ⟨m₁, hmap, .inr ⟨rfl, m₂, hto, htrack, rfl⟩⟩⟩

/-- The tracker is all that the last statement of `extend` changes. -/
lemma trackEnd_eq_ok (h : m.trackEnd space name stop = .ok m') :
    ∃ t, m' = { m with tracker := t } := by
  rw [MemoryState.trackEnd] at h
  split at h
  · cases h
    exact ⟨m.tracker, rfl⟩
  · split at h
    · cases h
      exact ⟨_, rfl⟩
    · cases h

end Calls

end KernelMapping

/-! ### The area -/

lemma kernelMappingBase_eq : kernelMappingBase = 2 ^ 64 - 2 ^ 40 := by decide

/-- A page at or above `KERNEL_MAPPING_BASE`. -/
def Page.InArea (p : Page) : Prop :=
  kernelMappingBase ≤ p.number * pageSize ∧ p.number * pageSize < usizeRange

namespace Page

variable {p : Page}

lemma inArea_iff : p.InArea ↔ 2 ^ 52 - 2 ^ 28 ≤ p.number ∧ p.number < 2 ^ 52 := by
  rw [InArea, kernelMappingBase_eq]
  show 2 ^ 64 - 2 ^ 40 ≤ p.number * 4096 ∧ p.number * 4096 < 2 ^ 64 ↔ _
  omega

lemma InArea.canonical (h : p.InArea) : p.Canonical := by
  rw [inArea_iff] at h
  exact .inr ⟨by omega, h.2⟩

lemma l4Index_val (h : p.Canonical) : (p.l4Index : ℕ) = p.number * 4096 / 2 ^ 39 % 512 := by
  rw [l4Index, Address.l4Index, Address.indexAt_val, baseAddr_toRaw h.lt]

/-- The area lies under private indices. -/
lemma InArea.sharedIndex (h : p.InArea) : MemoryState.sharedIndex p.l4Index = false := by
  have hval := l4Index_val h.canonical
  rw [inArea_iff] at h
  have h510 : 510 ≤ (p.l4Index : ℕ) := by omega
  rw [MemoryState.sharedIndex, decide_eq_false_iff_not]
  rintro (hle | heq)
  · have : (p.l4Index : ℕ) ≤ 255 := hle
    omega
  · have : (p.l4Index : ℕ) = 509 := by rw [heq]; rfl
    omega

/-- The pages under the L4 index of the kernel mappings are in the area. -/
lemma inArea_of_l4Index (hp : p.Canonical) (h : p.l4Index = kernelMappingL4Index) :
    p.InArea := by
  have hval := l4Index_val hp
  have h510 : (p.l4Index : ℕ) = 510 := by rw [h]; rfl
  rw [inArea_iff]
  rcases hp with hp | hp <;> omega

end Page

lemma Address.new_of_base_le (h : kernelMappingBase ≤ n) (hn : n < usizeRange) :
    (Address.new n).toRaw = n := by
  rw [kernelMappingBase_eq] at h
  have hn : n < 2 ^ 64 := hn
  rw [Address.new_toRaw]
  split <;> omega

lemma bumpOffset_of_fits {offset len : ℕ} (h : offset + len * pageSize < usizeRange) :
    bumpOffset offset len = offset + len * pageSize := by
  rw [bumpOffset, Nat.mod_eq_of_lt (by omega), wrappingAdd_eq h]

/-- **The area as the kernel sees it**: what is mapped there lies below the offset, with frames
the kernel owns. -/
structure KernelMemory.Area (k : KernelMemory) : Prop where
  base : kernelMappingBase ≤ k.mappingOffset
  bounded : k.mappingOffset < usizeRange
  aligned : k.mappingOffset % pageSize = 0
  below : ∀ page : Page, page.InArea → (k.memory.leafOf .kernel page).isSome →
    page.number * pageSize < k.mappingOffset
  frames : ∀ (page : Page) x, page.InArea → k.memory.leafOf .kernel page = some x →
    ∃ f ∈ k.memory.owned .kernel, f.number < maxFrames ∧ x = f.baseAddr

namespace KernelMemory.Area

open MemoryState

variable {k : KernelMemory} {m' : MemoryState} {offset : ℕ} {pages : PageRange}

/-- The offset is at the start of a page. -/
lemma page_number (h : k.Area) :
    (Address.new k.mappingOffset).page.number * pageSize = k.mappingOffset := by
  change (Address.new k.mappingOffset).toRaw / pageSize * pageSize = _
  rw [Address.new_of_base_le h.base h.bounded]
  exact Nat.div_mul_cancel (Nat.dvd_of_mod_eq_zero h.aligned)

/-- The kernel maps pages of the area. -/
lemma kernel_called (h : k.Area) (hc : Called k.memory m' .kernel (GivenLeaf m' .kernel pages))
    (hle : k.mappingOffset ≤ offset) (hlt : offset < usizeRange) (hal : offset % pageSize = 0)
    (hstart : kernelMappingBase ≤ pages.start.number * pageSize)
    (hstop : pages.stop.number * pageSize ≤ offset) : Area ⟨m', offset⟩ := by
  have hpages : ∀ page ∈ pages.pages, page.InArea ∧ page.number * pageSize < offset := by
    intro page hpage
    obtain ⟨h₁, h₂⟩ := PageRange.bounds_of_mem hstart hstop hpage
    exact ⟨⟨h₁, h₂.trans hlt⟩, h₂⟩
  -- a page of the area that is new is one of the pages
  have hnew : ∀ (page : Page) x, page.InArea → m'.leafOf .kernel page = some x →
      k.memory.leafOf .kernel page = some x ∨ GivenLeaf m' .kernel pages page x := by
    intro page x hpage hx
    rcases hc.extend.added .kernel page x hpage.sharedIndex hx with hold | ⟨-, page', hsame, hgiven⟩
    · exact .inl hold
    · rw [hsame.eq hpage.canonical (hpages page' hgiven.1).1.canonical]
      exact .inr hgiven
  refine ⟨h.base.trans hle, hlt, hal, fun page hpage hsome => ?_, fun page x hpage hx => ?_⟩
  · obtain ⟨x, hx⟩ := Option.isSome_iff_exists.mp hsome
    rcases hnew page x hpage hx with hold | hgiven
    · exact lt_of_lt_of_le (h.below page hpage (by rw [hold]; rfl)) hle
    · exact (hpages page hgiven.1).2
  · rcases hnew page x hpage hx with hold | ⟨-, f, hf, hlt, hxf⟩
    · obtain ⟨f, hf, hrest⟩ := h.frames page x hpage hold
      exact ⟨f, hc.frames.subset hf, hrest⟩
    · exact ⟨f, hf, hlt, hxf⟩

/-- A call that does not change what the kernel maps in the area. -/
lemma other_called (h : k.Area)
    (hleaf : ∀ page : Page, page.InArea → m'.leafOf .kernel page = k.memory.leafOf .kernel page)
    (howned : k.memory.owned .kernel <+: m'.owned .kernel) : Area ⟨m', k.mappingOffset⟩ := by
  refine ⟨h.base, h.bounded, h.aligned, fun page hpage hsome => ?_, fun page x hpage hx => ?_⟩
  · exact h.below page hpage (hleaf page hpage ▸ hsome)
  · obtain ⟨f, hf, hrest⟩ := h.frames page x hpage (hleaf page hpage ▸ hx)
    exact ⟨f, howned.subset hf, hrest⟩

end KernelMemory.Area

/-! ### The two calls on the area -/

namespace KernelMapping

open MemoryState

variable {k k' : KernelMemory} {mapping mapping' : KernelMapping} {name : String} {size : ℕ}
  {flags : PageTableFlags} {id : SpaceId} {space : AddressSpace} {userPages : PageRange}
  {res : Except MappingError Unit}

/-- **`new` takes the pages from the offset on**, all of which are mapped afterwards. -/
lemma new_called (hm : k.memory.Separated) (hz : k.memory.frameAllocator.isAllocated 0 = true)
    (ha : k.Area) (hfit : k.mappingOffset + pageCount size * pageSize < usizeRange)
    (h : new k name size flags = .ok (mapping, k')) :
    Called k.memory k'.memory .kernel (GivenLeaf k'.memory .kernel mapping.pages) ∧ k'.Area
      ∧ mapping.pages.start.number * pageSize = k.mappingOffset
      ∧ mapping.pages.stop.number * pageSize = k'.mappingOffset
      ∧ ∀ page ∈ mapping.pages.pages, (k'.memory.leafOf .kernel page).isSome := by
  obtain ⟨kernel, hkernel, hmap, hoffset, -, -, -, hstart, hstop⟩ := new_eq_ok h
  obtain ⟨hcalled, hmapped, -⟩ := mapPages_called hm hz hkernel hmap
  rw [bumpOffset_of_fits hfit] at hoffset
  have hbase : mapping.pages.start.number * pageSize = k.mappingOffset := by
    rw [hstart, ha.page_number]
  have hend : mapping.pages.stop.number * pageSize = k'.mappingOffset := by
    rw [hstop, add_mul, hbase, hoffset]
  refine ⟨hcalled, ?_, hbase, hend, hmapped rfl⟩
  have hal' : k'.mappingOffset % pageSize = 0 := by
    rw [← hend]
    exact Nat.mul_mod_left _ _
  exact ha.kernel_called hcalled (by omega) (by omega) hal' (hbase ▸ ha.base) hend.le

/-- What an extension leaves behind. -/
structure ExtendsTo (k k' : KernelMemory) (mapping mapping' : KernelMapping)
    (res : Except MappingError Unit) : Prop where
  separated : k'.memory.Separated
  zero : k'.memory.frameAllocator.isAllocated 0 = true
  area : k'.Area
  offset : k.mappingOffset ≤ k'.mappingOffset
  kept : ∀ id page x, k.memory.leafOf id page = some x → k'.memory.leafOf id page = some x
  failed : ∀ e, res = .error e → mapping' = mapping
  start : mapping'.pages.start = mapping.pages.start
  stop : mapping.pages.stop.number ≤ mapping'.pages.stop.number
    ∧ mapping'.pages.stop.number * pageSize ≤ k'.mappingOffset
  grown : ∀ page, page ∈ mapping'.pages.pages → page ∉ mapping.pages.pages →
    k.memory.leafOf .kernel page = none ∧ (k'.memory.leafOf .kernel page).isSome

/-- The user's side of an extension maps nothing in the kernel's area. -/
lemma mapKernelPagesTo_area (hm : m.Separated) (hs : m.spaces id = some space)
    (h : m.mapKernelPagesTo id space kernelPages userPages flags = .ok (res, m')) :
    (∀ page : Page, page.InArea → m'.leafOf .kernel page = m.leafOf .kernel page)
      ∧ m.owned .kernel <+: m'.owned .kernel := by
  obtain ⟨-, hkernel, -⟩ := mapKernelPagesTo_eq_ok h
  obtain ⟨hcalled, -⟩ := mapKernelPagesTo_called hm hs h
  refine ⟨fun page hpage => hcalled.extend.leafOf_eq hpage.sharedIndex ?_, ?_⟩
  · rintro x ⟨rfl, page', -, kernelPage, hp, -⟩
    rw [hkernel rfl] at hp
    exact absurd hp List.not_mem_nil
  · by_cases hid : id = .kernel
    · exact hid ▸ hcalled.frames
    · rw [owned, owned, hcalled.others .kernel (fun hc => hid hc.symm)]

/-- The kernel's side of an extension leaves the address space of the user's side as it was; the
kernel's own address space would lock itself out, unless there is nothing to map. -/
lemma spaces_of_extended {m₁ m₂ : MemoryState} {r : Except MappingError Unit} (hm : m.Separated)
    (hz : m.frameAllocator.isAllocated 0 = true) (hkernel : m.spaces .kernel = some kernel)
    (hspace : m.spaces id = some space)
    (hmap : m.mapPagesUntracked .kernel kernel kernelPages flags = .ok (.ok (), m₁))
    (hto : m₁.mapKernelPagesTo id space kernelPages userPages flags = .ok (r, m₂)) :
    m₁.spaces id = some space := by
  by_cases hid : id = .kernel
  · obtain ⟨hlens, hempty, -⟩ := mapKernelPagesTo_eq_ok hto
    rw [hempty hid, List.length_nil, List.length_eq_zero_iff] at hlens
    obtain ⟨s', hs, rfl⟩ := withPageTable_eq_ok hmap
    rw [hlens] at hs
    cases hs
    rw [put_paging hkernel, hspace]
  · rw [(mapPagesUntracked_called hm hz hkernel hmap).1.others id hid, hspace]

/-- **`extend` in the area**: it maps pages that were not mapped, if it succeeds. -/
lemma extend_called (hm : k.memory.Separated)
    (hz : k.memory.frameAllocator.isAllocated 0 = true) (ha : k.Area)
    (hstart : kernelMappingBase ≤ mapping.pages.stop.number * pageSize)
    (hend : mapping.pages.stop.number * pageSize ≤ k.mappingOffset)
    (hspace : k.memory.spaces id = some space)
    (hfit : k.mappingOffset + userPages.len * pageSize < usizeRange)
    (h : extend k mapping id space userPages = .ok (res, mapping', k')) :
    ExtendsTo k k' mapping mapping' res := by
  obtain ⟨kernel, stop, hkernel, hnum, hoffset, hcases⟩ := extend_eq_ok h
  rw [bumpOffset_of_fits hfit] at hoffset
  have hstop' : stop.number * pageSize ≤ k'.mappingOffset := by
    rw [hnum, add_mul, hoffset]
    omega
  have hal' : k'.mappingOffset % pageSize = 0 := by
    rw [hoffset, Nat.add_mul_mod_self_right, ha.aligned]
  have hoff : k.mappingOffset ≤ k'.mappingOffset := by omega
  have hlt' : k'.mappingOffset < usizeRange := by omega
  -- the kernel's side
  have hkernelSide : ∀ {r m₁},
      k.memory.mapPagesUntracked .kernel kernel ⟨mapping.pages.stop, stop⟩ mapping.flags
        = .ok (r, m₁) →
      Called k.memory m₁ .kernel (GivenLeaf m₁ .kernel ⟨mapping.pages.stop, stop⟩)
        ∧ KernelMemory.Area ⟨m₁, k'.mappingOffset⟩ := by
    intro r m₁ hmap
    obtain ⟨hcalled, -⟩ := mapPagesUntracked_called hm hz hkernel hmap
    exact ⟨hcalled, ha.kernel_called hcalled hoff hlt' hal' hstart hstop'⟩
  have hsame : mapping.pages.stop.number * pageSize ≤ k'.mappingOffset := hend.trans hoff
  rcases hcases with ⟨e, hmap, rfl, rfl⟩ | ⟨m₁, hmap, hcases⟩
  · obtain ⟨hcalled, harea⟩ := hkernelSide hmap
    exact ⟨hcalled.separated, hcalled.used 0 hz, harea, hoff, hcalled.extend.kept,
      fun _ _ => rfl, rfl, ⟨le_rfl, hsame⟩, fun page hp hnp => absurd hp hnp⟩
  obtain ⟨hcalled₁, harea₁⟩ := hkernelSide hmap
  obtain ⟨-, hmapped, -, hfresh⟩ := mapPagesUntracked_called hm hz hkernel hmap
  -- the user's side
  have huserSide : ∀ {r m₂}, m₁.mapKernelPagesTo id space ⟨mapping.pages.stop, stop⟩ userPages
      mapping.flags = .ok (r, m₂) → m₂.Separated ∧ m₂.frameAllocator.isAllocated 0 = true
        ∧ KernelMemory.Area ⟨m₂, k'.mappingOffset⟩
        ∧ (∀ id page x, k.memory.leafOf id page = some x → m₂.leafOf id page = some x)
        ∧ ∀ page ∈ (PageRange.mk mapping.pages.stop stop).pages,
          (m₂.leafOf .kernel page).isSome := by
    intro r m₂ hto
    have hspace₁ := spaces_of_extended hm hz hkernel hspace hmap hto
    obtain ⟨hcalled₂, -⟩ := mapKernelPagesTo_called hcalled₁.separated hspace₁ hto
    obtain ⟨hleaf, howned⟩ := mapKernelPagesTo_area hcalled₁.separated hspace₁ hto
    refine ⟨hcalled₂.separated, hcalled₂.used 0 (hcalled₁.used 0 hz),
      harea₁.other_called hleaf howned, fun id page x hx => ?_, fun page hpage => ?_⟩
    · exact hcalled₂.extend.kept id page x (hcalled₁.extend.kept id page x hx)
    · exact hcalled₂.extend.isSome_kept (hmapped rfl page hpage)
  rcases hcases with ⟨e, hto, rfl, rfl⟩ | ⟨rfl, m₂, hto, htrack, rfl⟩
  · obtain ⟨hsep, hzero, harea, hkept, -⟩ := huserSide hto
    exact ⟨hsep, hzero, harea, hoff, hkept, fun _ _ => rfl, rfl, ⟨le_rfl, hsame⟩,
      fun page hp hnp => absurd hp hnp⟩
  · obtain ⟨hsep, hzero, harea, hkept, hsome⟩ := huserSide hto
    obtain ⟨t, ht⟩ := trackEnd_eq_ok htrack
    have hk' : k' = ⟨{ m₂ with tracker := t }, k'.mappingOffset⟩ := by rw [← ht]
    have hgrown : ∀ page, page ∈ (PageRange.mk mapping.pages.start stop).pages →
        page ∉ mapping.pages.pages → page ∈ (PageRange.mk mapping.pages.stop stop).pages := by
      intro page hp hnp
      simp only [PageRange.mem_pages] at hp hnp ⊢
      omega
    refine ⟨?_, ?_, ?_, hoff, ?_, nofun, rfl, ⟨?_, hstop'⟩,
      fun page hp hnp => ⟨hfresh rfl page (hgrown page hp hnp), ?_⟩⟩
    · rw [ht]
      exact ⟨⟨hsep.roots.tidy, hsep.roots.kernel, hsep.roots.distinct⟩, hsep.priv⟩
    · rw [ht]
      exact hzero
    · rw [hk']
      exact ⟨harea.base, harea.bounded, harea.aligned, harea.below, harea.frames⟩
    · rw [ht]
      exact hkept
    · show mapping.pages.stop.number ≤ stop.number
      omega
    · rw [ht]
      exact hsome page (hgrown page hp hnp)

end KernelMapping

/-! ### Runs -/

/-- The memory with the mappings made so far; new address spaces may come in between. -/
structure Mappings where
  kernel : KernelMemory
  mappings : ℕ → Option KernelMapping
  made : ℕ

inductive MappingEvent where
  | newSpace (i : ℕ) (name : String)
  | new (name : String) (size : ℕ) (flags : PageTableFlags)
  | extend (n : ℕ) (id : SpaceId) (userPages : PageRange)

namespace Mappings

open MemoryState

/-- The state after a call; an extension that fails is reported and the run goes on. -/
def step (s : Mappings) : MappingEvent → Except Panic Mappings
  | .newSpace i name => do
    let memory ← s.kernel.memory.step (.newSpace i name)
    .ok { s with kernel := ⟨memory, s.kernel.mappingOffset⟩ }
  | .new name size flags => do
    let (mapping, kernel) ← KernelMapping.new s.kernel name size flags
    .ok ⟨kernel, Function.update s.mappings s.made (some mapping), s.made + 1⟩
  | .extend n id userPages =>
    match s.mappings n, s.kernel.memory.spaces id with
    | some mapping, some space => do
      let (_, mapping, kernel) ← KernelMapping.extend s.kernel mapping id space userPages
      .ok { s with kernel, mappings := Function.update s.mappings n (some mapping) }
    | _, _ => .ok s

/-- The call does not take the offset to the end of the address space or past it. -/
def Fits (s : Mappings) : MappingEvent → Prop
  | .newSpace _ _ => True
  | .new _ size _ => s.kernel.mappingOffset + pageCount size * pageSize < usizeRange
  | .extend _ _ userPages => s.kernel.mappingOffset + userPages.len * pageSize < usizeRange

instance Fits.decidable (s : Mappings) : ∀ ev, Decidable (s.Fits ev)
  | .newSpace _ _ => inferInstanceAs (Decidable True)
  | .new _ _ _ => inferInstanceAs (Decidable (_ < _))
  | .extend _ _ _ => inferInstanceAs (Decidable (_ < _))

/-- Before the first mapping: nothing is mapped in the area, and the offset is at its base. -/
structure Start (s : Mappings) : Prop where
  separated : s.kernel.memory.Separated
  zero : s.kernel.memory.frameAllocator.isAllocated 0 = true
  offset : s.kernel.mappingOffset = kernelMappingBase
  empty : ∀ page : Page, page.InArea → s.kernel.memory.leafOf .kernel page = none
  none : ∀ n, s.mappings n = none

/-- **Sound mappings**: the ranges recorded lie between the base and the offset, are mapped and
do not overlap. -/
structure Sound (s : Mappings) : Prop where
  separated : s.kernel.memory.Separated
  zero : s.kernel.memory.frameAllocator.isAllocated 0 = true
  area : s.kernel.Area
  fresh : ∀ n, s.made ≤ n → s.mappings n = none
  bounds : ∀ n a, s.mappings n = some a → kernelMappingBase ≤ a.pages.start.number * pageSize
    ∧ a.pages.start.number ≤ a.pages.stop.number
    ∧ a.pages.stop.number * pageSize ≤ s.kernel.mappingOffset
  mapped : ∀ n a, s.mappings n = some a → ∀ page ∈ a.pages.pages,
    (s.kernel.memory.leafOf .kernel page).isSome
  disjoint : ∀ i j a b, i ≠ j → s.mappings i = some a → s.mappings j = some b →
    a.pages.pages.Disjoint b.pages.pages

lemma Start.sound {s : Mappings} (h : s.Start) : s.Sound where
  separated := h.separated
  zero := h.zero
  area := by
    refine ⟨h.offset.ge, by rw [h.offset]; decide, by rw [h.offset]; decide,
      fun page hpage hsome => ?_, fun page x hpage hx => ?_⟩
    · rw [h.empty page hpage] at hsome
      cases hsome
    · rw [h.empty page hpage] at hx
      cases hx
  fresh := fun n _ => h.none n
  bounds := fun n a ha => by rw [h.none n] at ha; cases ha
  mapped := fun n a ha => by rw [h.none n] at ha; cases ha
  disjoint := fun i _ a _ _ ha => by rw [h.none i] at ha; cases ha

variable {s s' : Mappings}

/-- A recorded page lies in the area. -/
lemma Sound.inArea (hs : s.Sound) {a : KernelMapping} (ha : s.mappings n = some a) {page : Page}
    (hpage : page ∈ a.pages.pages) : page.InArea := by
  obtain ⟨hbase, -, hstop⟩ := hs.bounds n a ha
  obtain ⟨h₁, h₂⟩ := PageRange.bounds_of_mem hbase hstop hpage
  exact ⟨h₁, h₂.trans hs.area.bounded⟩

/-- A new address space leaves the mappings as they are. -/
lemma newSpace_sound {i : ℕ} {name : String} (hs : s.Sound)
    (h : s.step (.newSpace i name) = .ok s') : s'.Sound := by
  obtain ⟨memory, hm, hrest⟩ := ok_of_bind h
  cases hrest
  cases hi : s.kernel.memory.spaces (.process i) with
  | some a =>
    simp only [MemoryState.step, hi] at hm
    cases hm
    exact hs
  | none =>
    simp only [MemoryState.step, hi] at hm
    obtain ⟨hsep, hleaf, -, n, -, -, hg, hspaces⟩ := newSpace_separated hs.separated hi hm
    have hkernel : ∀ page, memory.leafOf .kernel page = s.kernel.memory.leafOf .kernel page :=
      hleaf .kernel (by simp)
    refine ⟨hsep, ?_, hs.area.other_called (fun page _ => hkernel page) ?_, hs.fresh, hs.bounds,
      fun n a ha page hpage => ?_, hs.disjoint⟩
    · show memory.frameAllocator.isAllocated 0 = true
      rw [hg, FrameAllocator.isAllocated_take, hs.zero, Bool.or_true]
    · rw [owned_of_spaces hspaces, Function.update_of_ne (by simp)]
    · show (memory.leafOf .kernel page).isSome
      rw [hkernel]
      exact hs.mapped n a ha page hpage

/-- Recording a mapping under `n`: one whose pages are mapped and recorded nowhere else. -/
lemma Sound.record {made : ℕ} {kernel : KernelMemory} (hs : s.Sound)
    (hsep : kernel.memory.Separated) (hz : kernel.memory.frameAllocator.isAllocated 0 = true)
    (harea : kernel.Area) (hoffset : s.kernel.mappingOffset ≤ kernel.mappingOffset)
    (hkept : ∀ page, (s.kernel.memory.leafOf .kernel page).isSome → (kernel.memory.leafOf .kernel
      page).isSome) (hmade : ∀ m, made ≤ m → m ≠ n ∧ s.made ≤ m)
    (hbounds : kernelMappingBase ≤ mapping.pages.start.number * pageSize ∧
      mapping.pages.start.number ≤ mapping.pages.stop.number ∧ mapping.pages.stop.number * pageSize
      ≤ kernel.mappingOffset)
    (hmapped : ∀ page ∈ mapping.pages.pages, (kernel.memory.leafOf .kernel page).isSome)
    (hnot : ∀ m a, m ≠ n → s.mappings m = some a → mapping.pages.pages.Disjoint a.pages.pages) :
    Sound ⟨kernel, Function.update s.mappings n (some mapping), made⟩ := by
  have hcases : ∀ {m a}, Function.update s.mappings n (some mapping) m = some a →
      m = n ∧ a = mapping ∨ m ≠ n ∧ s.mappings m = some a := by
    intro m a ha
    by_cases hmn : m = n
    · rw [hmn, Function.update_self] at ha
      exact .inl ⟨hmn, (Option.some.inj ha).symm⟩
    · rw [Function.update_of_ne hmn] at ha
      exact .inr ⟨hmn, ha⟩
  refine ⟨hsep, hz, harea, fun m hm => ?_, fun m a ha => ?_, fun m a ha page hpage => ?_,
    fun i j a b hij ha hb => ?_⟩
  · obtain ⟨hmn, hle⟩ := hmade m hm
    show Function.update s.mappings n (some mapping) m = none
    rw [Function.update_of_ne hmn]
    exact hs.fresh m hle
  · rcases hcases ha with ⟨-, rfl⟩ | ⟨-, ha⟩
    · exact hbounds
    · obtain ⟨h₁, h₂, h₃⟩ := hs.bounds m a ha
      exact ⟨h₁, h₂, h₃.trans hoffset⟩
  · rcases hcases ha with ⟨-, rfl⟩ | ⟨-, ha⟩
    · exact hmapped page hpage
    · exact hkept page (hs.mapped m a ha page hpage)
  · rcases hcases ha with ⟨rfl, rfl⟩ | ⟨hi, hia⟩ <;>
      rcases hcases hb with ⟨rfl, rfl⟩ | ⟨hj, hjb⟩
    · exact absurd rfl hij
    · exact hnot j b hj hjb
    · exact (hnot i a hi hia).symm
    · exact hs.disjoint i j a b hij hia hjb

/-- **A new mapping** takes pages that nothing is mapped in. -/
lemma new_sound {name : String} {size : ℕ} (hs : s.Sound) (hfit : s.Fits (.new name size flags))
    (h : s.step (.new name size flags) = .ok s') :
    s'.Sound := by
  obtain ⟨⟨mapping, kernel⟩, hnew, hrest⟩ := ok_of_bind h
  cases hrest
  obtain ⟨hcalled, harea, hstart, hstop, hmapped⟩ :=
    KernelMapping.new_called hs.separated hs.zero hs.area hfit hnew
  obtain ⟨-, -, -, hoffset, -⟩ := KernelMapping.new_eq_ok hnew
  rw [bumpOffset_of_fits hfit] at hoffset
  have hle : mapping.pages.start.number ≤ mapping.pages.stop.number :=
    Nat.le_of_mul_le_mul_right (by omega) (show 0 < pageSize by decide)
  refine hs.record hcalled.separated (hcalled.used 0 hs.zero) harea (by omega)
    (fun page => hcalled.extend.isSome_kept) (fun m hm => ⟨by omega, by omega⟩)
    ⟨hstart ▸ hs.area.base, hle, hstop.le⟩ hmapped ?_
  -- the recorded pages are below the offset, the new ones are not
  intro m a _ ha page hpage hold
  have hlt := hs.area.below page (hs.inArea ha hold) (hs.mapped m a ha page hold)
  have hge := (PageRange.bounds_of_mem hstart.ge le_rfl hpage).1
  omega

/-- **An extension** adds pages that nothing was mapped in, or none. -/
lemma extend_sound (hs : s.Sound) (hfit : s.Fits (.extend n id userPages))
    (h : s.step (.extend n id userPages) = .ok s') :
    s'.Sound := by
  rw [step] at h
  split at h
  swap
  · cases h
    exact hs
  next mapping space hmapping hspace =>
  obtain ⟨⟨res, mapping', kernel⟩, hext, hrest⟩ := ok_of_bind h
  cases hrest
  obtain ⟨hbase, hle, hstop⟩ := hs.bounds n mapping hmapping
  have hto := KernelMapping.extend_called hs.separated hs.zero hs.area
    (hbase.trans (Nat.mul_le_mul_right pageSize hle)) hstop hspace hfit hext
  have hkept : ∀ page, (s.kernel.memory.leafOf .kernel page).isSome →
      (kernel.memory.leafOf .kernel page).isSome := by
    intro page hsome
    obtain ⟨x, hx⟩ := Option.isSome_iff_exists.mp hsome
    rw [hto.kept .kernel page x hx]
    rfl
  refine hs.record hto.separated hto.zero hto.area hto.offset hkept (fun m hm => ⟨?_, hm⟩)
    ⟨hto.start ▸ hbase, hto.start ▸ hle.trans hto.stop.1, hto.stop.2⟩ (fun page hpage => ?_) ?_
  · rintro rfl
    rw [hs.fresh m hm] at hmapping
    cases hmapping
  · by_cases hin : page ∈ mapping.pages.pages
    · exact hkept page (hs.mapped n mapping hmapping page hin)
    · exact (hto.grown page hpage hin).2
  -- a page the mapping has grown by was not mapped, so no other mapping records it
  intro m a hmn ha page hpage hold
  by_cases hin : page ∈ mapping.pages.pages
  · exact hs.disjoint n m mapping a (Ne.symm hmn) hmapping ha hin hold
  · have hsome := hs.mapped m a ha page hold
    rw [(hto.grown page hpage hin).1] at hsome
    cases hsome

lemma step_sound (s : Mappings) (ev : MappingEvent) (s' : Mappings) (hs : s.Sound)
    (hev : s.Fits ev) (h : s.step ev = .ok s') : s'.Sound := by
  cases ev with
  | newSpace i name => exact newSpace_sound hs h
  | new name size flags => exact new_sound hs hev h
  | extend n id userPages => exact extend_sound hs hev h

/-- A page of the area that is mapped is translated. -/
lemma Sound.translatePage (hs : s.Sound) {kroot : Frame}
    (hk : s.kernel.memory.rootOf .kernel = some kroot) {page : Page} (hpage : page.InArea)
    (hsome : (s.kernel.memory.leafOf .kernel page).isSome) :
    ∃ f, translatePage s.kernel.memory.mem kroot page = pure f := by
  obtain ⟨x, hx⟩ := Option.isSome_iff_exists.mp hsome
  obtain ⟨f, -, hlt, rfl⟩ := hs.area.frames page x hpage hx
  exact ⟨f, (translatePage_eq_pure_iff hk).mpr ⟨physical_of_lt hlt, hx⟩⟩

/-- **Kernel mappings do not overlap**: along every run of `KernelMapping::new` and
`KernelMapping::extend`, some of which may fail half-way, that keeps the offset below the end
of the address space, the recorded ranges are pairwise disjoint, every recorded page is
translated in the kernel's address space, and every page that is mapped under the L4 index of
the kernel mappings lies below `KERNEL_MAPPING_OFFSET`. -/
theorem mappings_run {s₀ s : Mappings} {evs : List MappingEvent} (hstart : s₀.Start)
    (hevs : Meets step Fits s₀ evs) (hrun : run step s₀ evs = .ok s) :
    (∀ i j a b, i ≠ j → s.mappings i = some a → s.mappings j = some b →
        a.pages.pages.Disjoint b.pages.pages)
      ∧ (∀ n a kroot, s.mappings n = some a → s.kernel.memory.rootOf .kernel = some kroot →
        ∀ page ∈ a.pages.pages,
          ∃ f, Level4PageTable.translatePage s.kernel.memory.mem kroot page = pure f)
      ∧ ∀ page : Page, page.Canonical → page.l4Index = kernelMappingL4Index →
        (s.kernel.memory.leafOf .kernel page).isSome →
          page.baseAddr.toRaw < s.kernel.mappingOffset := by
  have hs : s.Sound := run_invariant_of_meets step_sound hstart.sound hevs hrun
  refine ⟨hs.disjoint, fun n a kroot ha hk page hpage => ?_, fun page hcan hl4 hsome => ?_⟩
  · exact hs.translatePage hk (hs.inArea ha hpage) (hs.mapped n a ha page hpage)
  · rw [Page.baseAddr_toRaw hcan.lt]
    exact hs.area.below page (Page.inArea_of_l4Index hcan hl4) hsome

/-! ### Runs on the small machine -/

/-- The small machine before the first mapping. -/
def roomyMappings : Mappings := ⟨⟨roomyMemory, kernelMappingBase⟩, fun _ => none, 0⟩

lemma roomyMappings_start : roomyMappings.Start where
  separated := roomyMemory_sound.separated
  zero := roomyMemory_sound.zero
  offset := rfl
  empty := fun page hpage => by
    refine roomyMemory_leafOf fun hc => ?_
    have h := hpage.sharedIndex
    rw [hc] at h
    cases h
  none := fun _ => rfl

/-- Two mappings, of which the second can be extended and the first cannot. -/
def twoMappings : List MappingEvent :=
  [.newSpace 0 "a", .new "x" 1 .present, .new "y" 4097 .present,
    .extend 1 (.process 0) ⟨⟨2 ^ 52 - 2 ^ 29⟩, ⟨2 ^ 52 - 2 ^ 29 + 1⟩⟩,
    .extend 0 (.process 0) ⟨⟨2 ^ 52 - 2 ^ 29 + 1⟩, ⟨2 ^ 52 - 2 ^ 29 + 2⟩⟩]

theorem mappings_run_two :
    ∃ s a b, run step roomyMappings twoMappings = .ok s
      ∧ s.mappings 0 = some a ∧ s.mappings 1 = some b
      ∧ a.pages.pages.length = 1 ∧ b.pages.pages.length = 3
      ∧ a.pages.pages.Disjoint b.pages.pages := by
  obtain ⟨s, hs, a, ha, b, hb, hla, hlb⟩ : ∃ s, run step roomyMappings twoMappings = .ok s
      ∧ ∃ a, s.mappings 0 = some a ∧ ∃ b, s.mappings 1 = some b
        ∧ a.pages.pages.length = 1 ∧ b.pages.pages.length = 3 := by
    decide +kernel
  exact ⟨s, a, b, hs, ha, hb, hla, hlb,
    (mappings_run roomyMappings_start (by decide +kernel) hs).1 0 1 a b (by decide) ha hb⟩

/-- The loop of an extension fails at its first page whatever pages follow. -/
lemma mapPagesUntracked_of_first (hlt : p.number < stop.number)
    (h : m.mapPagesUntracked id space ⟨p, ⟨p.number + 1⟩⟩ flags = .ok (.error e, m')) :
    m.mapPagesUntracked id space ⟨p, stop⟩ flags = .ok (.error e, m') := by
  obtain ⟨s', hs, rfl⟩ := withPageTable_eq_ok h
  have hone : (PageRange.mk p ⟨p.number + 1⟩).pages = [p] := by
    simp [PageRange.pages]
  obtain ⟨rest, hrest⟩ : ∃ rest, (PageRange.mk p stop).pages = p :: rest := by
    obtain ⟨n, hn⟩ := Nat.exists_eq_add_of_lt hlt
    refine ⟨(List.range' (p.number + 1) n).map Page.mk, ?_⟩
    rw [PageRange.pages, hn, Nat.add_assoc, Nat.add_sub_cancel_left, List.range'_succ]
    rfl
  rw [hone, mapPagesUntrackedLoop] at hs
  have hloop : mapPagesUntrackedLoop space.frame flags (p :: rest) (m.paging space)
      = .ok (.error e, s') := by
    rw [mapPagesUntrackedLoop]
    rcases Comp.bind_eq_ok hs with ⟨f, s₁, hframe, hs⟩ | ⟨e', s₁, hframe, hr⟩
    · rw [Comp.bind_apply_ok hframe]
      rcases Comp.bind_eq_ok hs with ⟨u, s₂, -, hs⟩ | ⟨e', s₂, hmap, hr⟩
      · cases hs
      · cases hr
        exact Comp.bind_apply_error hmap
    · cases hr
      exact Comp.bind_apply_error hframe
  rw [mapPagesUntracked, withPageTable, hrest, hloop]

/-- An extension whose first page is in use changes the offset by all of its pages. -/
lemma extend_of_first {k : KernelMemory} {memory : MemoryState}
    (hkernel : k.memory.spaces .kernel = some kernel)
    (hstop : mapping.pages.stop.add userPages.len = .ok stop)
    (hlt : mapping.pages.stop.number < stop.number)
    (h : k.memory.mapPagesUntracked .kernel kernel ⟨mapping.pages.stop, ⟨mapping.pages.stop.number +
      1⟩⟩ mapping.flags = .ok (.error e, memory)) :
    KernelMapping.extend k mapping id space userPages = .ok (.error e, mapping,
      ⟨memory, bumpOffset k.mappingOffset (PageRange.mk mapping.pages.stop stop).len⟩) := by
  have hspace : k.memory.kernelAddressSpace = .ok kernel := by
    rw [kernelAddressSpace, hkernel]
  rw [KernelMapping.extend, bind_of_ok hstop, bind_of_ok hspace,
    bind_of_ok (mapPagesUntracked_of_first hlt h)]

/-- Two mappings of one page each. -/
def onePageMappings : List MappingEvent :=
  [.newSpace 0 "a", .new "x" 1 .present, .new "y" 1 .present]

/-- As many user pages as take the offset from behind the second mapping to zero. -/
def hugeUserPages : PageRange := ⟨⟨2 ^ 52 - 2 ^ 29⟩, ⟨2 ^ 52 - 2 ^ 28 - 2⟩⟩

/-- **The offset wraps**: the first of two mappings is extended by all the pages that remain
below the end of the address space.  The second one is in its way, so nothing is mapped, but
the offset is zero afterwards and both mappings lie above it. -/
theorem mapping_above_offset :
    roomyMappings.Start
      ∧ ∃ s page, run step roomyMappings
          (onePageMappings ++ [.extend 0 (.process 0) hugeUserPages]) = .ok s
        ∧ page.Canonical ∧ page.l4Index = kernelMappingL4Index
        ∧ (s.kernel.memory.leafOf .kernel page).isSome
        ∧ ¬page.baseAddr.toRaw < s.kernel.mappingOffset := by
  -- the second mapping is in the way of the first page behind the first one
  obtain ⟨s, hs, hoffset, space, hspace, kernel, hkernel, a, ha, hstop, ⟨res, memory⟩, hmap, hres,
      hway⟩ : ∃ s, run step roomyMappings onePageMappings = .ok s
        ∧ s.kernel.mappingOffset = 2 ^ 64 - 2 ^ 40 + 8192
        ∧ ∃ space, s.kernel.memory.spaces (.process 0) = some space
          ∧ ∃ kernel, s.kernel.memory.spaces .kernel = some kernel
            ∧ ∃ a, s.mappings 0 = some a ∧ a.pages.stop = ⟨2 ^ 52 - 2 ^ 28 + 1⟩
              ∧ ∃ y, s.kernel.memory.mapPagesUntracked .kernel kernel
                  ⟨a.pages.stop, ⟨a.pages.stop.number + 1⟩⟩ a.flags = .ok y
                ∧ y.1.toOption = none ∧ (y.2.leafOf .kernel ⟨2 ^ 52 - 2 ^ 28⟩).isSome := by
    decide +kernel
  obtain ⟨e, rfl⟩ : ∃ e, res = .error e := by
    cases res with
    | ok u => cases hres
    | error e => exact ⟨e, rfl⟩
  have hadd : a.pages.stop.add hugeUserPages.len = .ok ⟨2 ^ 52 - 1⟩ := by
    rw [hstop]
    decide +kernel
  have hext : KernelMapping.extend s.kernel a (.process 0) space hugeUserPages = .ok (.error e, a,
      ⟨memory, bumpOffset s.kernel.mappingOffset (PageRange.mk a.pages.stop ⟨2 ^ 52 - 1⟩).len⟩) :=
    extend_of_first hkernel hadd (by rw [hstop]; decide) hmap
  have hzero : bumpOffset s.kernel.mappingOffset (PageRange.mk a.pages.stop ⟨2 ^ 52 - 1⟩).len
      = 0 := by
    rw [hoffset, hstop]
    decide +kernel
  refine ⟨roomyMappings_start, ⟨⟨memory, 0⟩, Function.update s.mappings 0 (some a), s.made⟩,
    ⟨2 ^ 52 - 2 ^ 28⟩, ?_, Or.inr (by decide), by decide, hway, Nat.not_lt_zero _⟩
  rw [hzero] at hext
  have hstep : s.step (.extend 0 (.process 0) hugeUserPages)
      = .ok ⟨⟨memory, 0⟩, Function.update s.mappings 0 (some a), s.made⟩ := by
    simp only [step, ha, hspace]
    rw [bind_of_ok hext]
  rw [run_append, hs]
  exact run_cons_ok hstep []

end Mappings

end Rhubarb
