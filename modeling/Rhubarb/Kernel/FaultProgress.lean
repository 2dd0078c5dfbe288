import Rhubarb.Kernel.KernelRuns
import Rhubarb.Memory.UserGrants

/-!
Progress of page faults: whether the instruction that faulted can go on.

A heap fault and a section that is given map the page that faulted, and `map_to` gives access
at every level.  The grants for the framebuffer, PCI BARs and physical pages set flags, which
maps nothing and passes over pages behind huge leaves.

* `mapKernelPagesTo_accessible`, `setFlags_accessible_iff`: the two calls, on an address space.
* `pageFault_accessible_iff`: in every state a run reaches, when a fault that is resumed leaves
  its page accessible.
-/

namespace Rhubarb

open Foundations MemoryState KernelMemory Level4PageTable

/-! ### Calls on an address space -/

namespace MemoryState

variable {m m' : MemoryState} {id : SpaceId} {a : AddressSpace} {pages : PageRange}
  {flags : PageTableFlags} {page : Page}

/-- **The pages that `map_kernel_pages_to` mapped** are accessible. -/
lemma mapKernelPagesTo_accessible {kernelPages : PageRange} (hm : m.Separated)
    (ha : m.spaces id = some a) (hflags : flags.Opens)
    (h : m.mapKernelPagesTo id a kernelPages pages flags = .ok (.ok (), m'))
    (hpage : page ∈ pages.pages) : Accessible m'.mem a.frame page := by
  obtain ⟨hlen, -, kernel, s', -, hrun, rfl⟩ := mapKernelPagesTo_eq_ok h
  have hroot : a.frame ∈ rootSet m.rootOf := ⟨id, rootOf_of_space ha⟩
  have htidy : Tidy (m.paging a).mem (m.paging a).allocator.frameAllocator (rootSet m.rootOf) :=
    hm.roots.tidy
  have hall := ((walkable_tidy hroot).mapKernelPagesLoop_accessible hflags htidy hrun).2
  have hfst : (pages.pages.zip kernelPages.pages).map Prod.fst = pages.pages :=
    List.map_fst_zip hlen.ge
  rw [← hfst, List.mem_map] at hpage
  obtain ⟨pair, hpair, rfl⟩ := hpage
  exact hall pair hpair

/-- The walk of a page may go on after `set_flags`: the page is mapped, and every entry on its
walk grants access or is on the walk of a page at which the loop stops. -/
def OpenedBy (m : MemoryState) (root : Frame) (page : Page) (pages : PageRange) : Prop :=
  ¬Dead m.mem root page.indices
    ∧ ∀ slot ∈ slots m.mem root page.indices, grants (m.mem slot.1 slot.2) = true
      ∨ ∃ stop ∈ stops m.mem root 0 pages.pages, slot ∈ slots m.mem root stop.indices

instance (m : MemoryState) (root : Frame) (page : Page) (pages : PageRange) :
    Decidable (m.OpenedBy root page pages) :=
  inferInstanceAs (Decidable (_ ∧ _))

/-- **A page is accessible after `set_flags`** if and only if the call opens it. -/
lemma setFlags_accessible_iff (hm : m.Separated) (ha : m.spaces id = some a)
    (hflags : flags.Opens) (h : m.setFlags id a pages flags = .ok (.ok (), m')) :
    Accessible m'.mem a.frame page ↔ m.OpenedBy a.frame page pages := by
  obtain ⟨s', hrun, rfl⟩ := withPageTable_eq_ok h
  have hroot : a.frame ∈ rootSet m.rootOf := ⟨id, rootOf_of_space ha⟩
  have htidy : Tidy (m.paging a).mem (m.paging a).allocator.frameAllocator (rootSet m.rootOf) :=
    hm.roots.tidy
  exact (walkable_tidy hroot).setFlags_accessible_iff htidy hflags hrun

end MemoryState

/-! ### The paths of the handler -/

lemma userDataFlags_opens : userDataFlags.Opens := ⟨by decide, by decide⟩

namespace KernelMemory

variable {k k' : KernelMemory} {kroot : Frame} {i : ℕ} {a : AddressSpace}
  {process process' : UserProcess} {page : Page}

/-- `map_into` the address space of a process. -/
lemma mapInto_accessible {mapping : KernelMapping} {pages : PageRange} {flags : PageTableFlags}
    (hk : k.Sound kroot) (ha : k.memory.spaces (.process i) = some a) (hflags : flags.Opens)
    (h : k.mapInto i mapping pages flags = .ok (.ok (), k')) (hpage : page ∈ pages.pages) :
    Accessible k'.memory.mem a.frame page := by
  obtain ⟨a', ha', h⟩ := ok_of_bind h
  obtain rfl : a = a' := Option.some.inj (ha.symm.trans (space_eq_ok ha'))
  obtain ⟨⟨r, m'⟩, hmap, hrest⟩ := ok_of_bind h
  cases hrest
  obtain ⟨⟨r₁, m₁⟩, hx, hy⟩ := ok_of_map hmap
  cases r₁ with
  | error e => cases hy
  | ok u =>
    cases hy
    have hacc : Accessible m₁.mem a.frame page :=
      mapKernelPagesTo_accessible hk.memory.separated ha hflags hx hpage
    exact hacc

/-- A heap that was created. -/
lemma createHeap_accessible {pages : PageRange} (hk : k.Sound kroot)
    (ha : k.memory.spaces (.process i) = some a)
    (hc : createHeap k i process pages = .ok (.resume, process', k'))
    (hpage : page ∈ pages.pages) : Accessible k'.memory.mem a.frame page := by
  obtain ⟨⟨h, k₁⟩, hnew, hc⟩ := ok_of_bind hc
  obtain ⟨⟨r, k₂⟩, hmap, hc⟩ := ok_of_bind hc
  cases r with
  | error e => cases hc
  | ok u =>
    cases hc
    obtain ⟨hadv, -, -⟩ := KernelMapping.new_advances hk hnew
    obtain ⟨a₁, ha₁, -⟩ := ok_of_bind hmap
    have ha₁ := space_eq_ok ha₁
    obtain ⟨a', ha', -, hframe⟩ := hadv.space ha₁
    obtain rfl : a = a' := Option.some.inj (ha.symm.trans ha')
    rw [hframe]
    exact mapInto_accessible hadv.sound ha₁ userDataFlags_opens hmap hpage

/-- A heap that was extended. -/
lemma extendHeap_accessible {h : KernelMapping} {pages : PageRange} (hk : k.Sound kroot)
    (hflags : h.flags = userDataFlags) (ha : k.memory.spaces (.process i) = some a)
    (hc : extendHeap k i process h pages = .ok (.resume, process', k'))
    (hpage : page ∈ pages.pages) : Accessible k'.memory.mem a.frame page := by
  obtain ⟨a', ha', hc⟩ := ok_of_bind hc
  obtain rfl : a = a' := Option.some.inj (ha.symm.trans (space_eq_ok ha'))
  split_ifs at hc
  obtain ⟨⟨r, h', k₁⟩, hext, hc⟩ := ok_of_bind hc
  cases r with
  | error e => cases hc
  | ok u =>
    cases hc
    obtain ⟨kernel, stop, hkernel, -, -, hcases⟩ := KernelMapping.extend_eq_ok hext
    rcases hcases with ⟨e, -, hc, -⟩ | ⟨m₁, hmap, ⟨e, -, hc, -⟩ | ⟨-, m₂, hto, htrack, -⟩⟩
    · cases hc
    · cases hc
    obtain ⟨hcalled, -⟩ := mapPagesUntracked_called hk.memory.separated hk.memory.zero hkernel hmap
    have ha₁ : m₁.spaces (.process i) = some a := by rw [hcalled.others _ (by simp), ha]
    obtain ⟨t, ht⟩ := KernelMapping.trackEnd_eq_ok htrack
    have hacc : Accessible m₂.mem a.frame page :=
      mapKernelPagesTo_accessible hcalled.separated ha₁ (hflags ▸ userDataFlags_opens) hto hpage
    rw [ht]
    exact hacc

/-- **A heap fault** leaves its page accessible. -/
lemma heapFault_accessible {cr2 : ℕ} (hk : k.Sound kroot)
    (hheap : k.HeapOf i process.heapMapping) (ha : k.memory.spaces (.process i) = some a)
    (hdom : (Address.new cr2).domain = .userHeap)
    (hf : heapFault k i process (Address.new cr2) = .ok (.resume, process', k')) :
    Accessible k'.memory.mem a.frame (Address.new cr2).page := by
  obtain ⟨h, hprocess, hheap', hend, -⟩ := heapFault_sound hk hheap hdom hf
  have hpos := hheap'.pos
  obtain ⟨offset, -, hf⟩ := ok_of_bind hf
  split_ifs at hf
  · cases hf
  obtain ⟨stop, hstop, hf⟩ := ok_of_bind hf
  obtain ⟨hnum, -⟩ := KernelMapping.page_add_eq_ok hstop
  cases hm : process.heapMapping with
  | none =>
    rw [hm] at hf
    refine createHeap_accessible hk ha hf (PageRange.mem_pages.mpr ⟨?_, ?_⟩)
    · show heapBasePage.number ≤ (Address.new cr2).page.number
      omega
    · show (Address.new cr2).page.number < stop.number
      omega
  | some h₀ =>
    rw [hm] at hheap hf
    have hheap : k.Heap i h₀ := hheap
    obtain ⟨current, hcurrent, hf⟩ := ok_of_bind hf
    obtain ⟨hcnum, -⟩ := KernelMapping.page_add_eq_ok hcurrent
    rw [hheap.holds.len hk] at hcnum
    obtain rfl : current = ⟨heapBasePage.number + heapLen h₀⟩ := congrArg Page.mk hcnum
    have hbound := hheap'.bound
    obtain ⟨h₁, -, -, hend₁, hlt, -, -⟩ := extendHeap_sound hk hheap (by omega) hf
    refine extendHeap_accessible hk hheap.flags ha hf (PageRange.mem_pages.mpr ⟨?_, ?_⟩)
    · show heapBasePage.number + heapLen h₀ ≤ (Address.new cr2).page.number
      omega
    · show (Address.new cr2).page.number < stop.number
      omega

/-- The page of an address in a known section is a page of the section's mapping. -/
lemma Loaded.mem_pages {sec : LoadedSection} {addr stop : Address} (hk : k.Sound kroot)
    (h : k.Loaded sec) (hle : sec.addr.toRaw ≤ addr.toRaw)
    (hstop : sec.addr.add sec.size = .ok stop) (hlt : addr.toRaw < stop.toRaw) :
    addr.page ∈ sec.mapping.pages.pages := by
  have hbase : kernelMappingBase ≤ sec.mapping.pages.start.number * 4096 := h.holds.base
  have hend : sec.mapping.pages.stop.number * 4096 ≤ k.mappingOffset := h.holds.stop
  have hoff := hk.offset_le
  have hfits := sec.within
  have hcount := h.count
  have hpages : sec.mapping.size ≤ pageCount sec.mapping.size * 4096 := by
    show sec.mapping.size ≤ (sec.mapping.size + 4096 - 1) / 4096 * 4096
    omega
  have hstart : sec.mapping.addr.toRaw = sec.mapping.pages.start.number * 4096 := by
    show sec.mapping.pages.start.number * 4096 % 2 ^ 64 = _
    rw [kernelMappingBase_eq] at hoff
    have := h.holds.le
    omega
  have hraw : sec.addr.toRaw = sec.mapping.pages.start.number * 4096 + sec.mappingOffset := by
    have haddr := sec.addr_eq
    rw [Address.add, hstart] at haddr
    split_ifs at haddr with hfit
    rw [← Except.ok.inj haddr]
    exact Address.new_of_base_le (hbase.trans (Nat.le_add_right _ _)) hfit
  have hlast : stop.toRaw = sec.addr.toRaw + sec.size := by
    rw [Address.add] at hstop
    split_ifs at hstop with hfit
    rw [← Except.ok.inj hstop]
    refine Address.new_of_base_le (hbase.trans ?_) hfit
    rw [hraw, Nat.add_assoc]
    exact Nat.le_add_right _ _
  have hpage : addr.page.number = addr.toRaw / 4096 := rfl
  rw [PageRange.mem_pages]
  clear hbase hoff
  omega

end KernelMemory

/-! ### Faults in reachable states -/

namespace KernelState

variable {s₀ s s' : KernelState} {kroot r : Frame} {i cr2 : ℕ} {process : UserProcess}
  {evs : List KernelEvent} {weak : WeakRefs}

/-- A grant, if the handler makes one for this address, opens the page that faulted. -/
def GrantOpens (s : KernelState) (r : Frame) (cr2 : ℕ) (weak : WeakRefs) : Prop :=
  ∀ pages flags, (Address.new cr2).domain ≠ .userHeap →
    s.sectionAt (Address.new cr2) weak = .ok none →
    grantFor s.framebuffer s.pciBars (Address.new cr2) = .ok (some (pages, flags)) →
      s.kernel.memory.OpenedBy r (Address.new cr2).page pages

/-- A fault that is resumed, in a sound state. -/
lemma Sound.accessible_iff (hs : s.Sound kroot) (hi : s.processes i = some process)
    (hr : s.kernel.memory.rootOf (.process i) = some r)
    (hfault : s.pageFault i process cr2 weak = .ok (.resume, s')) :
    s'.kernel.memory.rootOf (.process i) = some r
      ∧ (Accessible s'.kernel.memory.mem r (Address.new cr2).page ↔ s.GrantOpens r cr2 weak) := by
  obtain ⟨a, ha, rfl⟩ := Option.map_eq_some_iff.mp hr
  have hheap := (hs.processes i process hi).heap
  obtain ⟨hdom, -, process', kernel, hf, rfl⟩ | ⟨hdom, -, pages, flags, kernel, hsec, hgrant, hset,
    rfl⟩ | ⟨-, -, -, sec, kernel, hsec, hmap, rfl⟩ | ⟨-, -, ⟨_, _, _, hc⟩, -⟩ :=
      pageFault_cases (by simp) hfault
  · obtain ⟨-, -, -, -, hadv⟩ := heapFault_sound hs.kernel hheap hdom hf
    refine ⟨by rw [hadv.rootOf, hr], iff_of_true ?_ fun _ _ hc => absurd hdom hc⟩
    exact heapFault_accessible hs.kernel hheap ha hdom hf
  · obtain ⟨a', ha', hgranted⟩ := ok_of_bind hset
    obtain rfl : a = a' := Option.some.inj (ha.symm.trans (space_eq_ok ha'))
    obtain ⟨⟨res, m'⟩, hflags, hrest⟩ := ok_of_bind hgranted
    cases hrest
    have hopens : flags.Opens := grantFor_flags hs.framebuffer hgrant
    have hiff : Accessible m'.mem a.frame (Address.new cr2).page ↔ _ :=
      setFlags_accessible_iff hs.kernel.memory.separated ha hopens hflags
    refine ⟨?_, hiff.trans ⟨fun hopen pages' flags' _ _ hgrant' => ?_, fun hall =>
      hall pages flags hdom hsec hgrant⟩⟩
    · obtain ⟨p', -, rfl⟩ := withPageTable_eq_ok hflags
      rw [← hr]
      exact congrFun (rootOf_put ha p') _
    · rw [hgrant] at hgrant'
      cases hgrant'
      exact hopen
  · obtain ⟨hmem, hle, stop, hstop, hlt⟩ := getSectionForAddr_eq_some (sectionAt_eq_some hsec)
    have hloaded := hs.sections sec hmem
    have hadv := mapSection_advances hs.kernel hloaded hmap
    refine ⟨by rw [hadv.rootOf, hr], iff_of_true ?_ fun pages flags _ hnone => ?_⟩
    · exact mapInto_accessible hs.kernel ha ⟨hloaded.present, hloaded.user⟩ hmap
        (hloaded.mem_pages hs.kernel hle hstop hlt)
    · rw [hsec] at hnone
      cases hnone
  · cases hc

/-- **Fault progress**: in every state that a run reaches, a fault that the handler resumes
leaves the page present and accessible from user mode at every level if and only if it is a
heap fault, or the page of a section, or the grant opens the page: the page is mapped, and every
entry on its walk grants access or is on the walk of a page at which `set_flags` stops. -/
theorem pageFault_accessible_iff (hstart : s₀.Start kroot) (hevs : Meets step GrantsOwn s₀ evs)
    (hrun : run step s₀ evs = .ok s) (hi : s.processes i = some process)
    (hfault : s.pageFault i process cr2 weak = .ok (.resume, s')) :
    ∃ r, s.kernel.memory.rootOf (.process i) = some r
      ∧ s'.kernel.memory.rootOf (.process i) = some r
      ∧ (Accessible s'.kernel.memory.mem r (Address.new cr2).page
        ↔ s.GrantOpens r cr2 weak) := by
  have hs := hstart.run_sound hevs hrun
  obtain ⟨a, ha⟩ := hs.exists_space hi
  have hr := rootOf_of_space ha
  exact ⟨a.frame, hr, hs.accessible_iff hi hr hfault⟩

/-- A new process, and nothing else. -/
def oneProcess : List KernelEvent := [.startProcess "a" .normal []]

/-- The first access to the heap of a new process can go on. -/
theorem pageFault_accessible_iff_heap :
    ∃ s process s' r, run step roomyKernel oneProcess = .ok s ∧ s.processes 0 = some process
      ∧ s.pageFault 0 process heapBasePage.baseAddr.toRaw allAlive = .ok (.resume, s')
      ∧ s'.kernel.memory.rootOf (.process 0) = some r
      ∧ Accessible s'.kernel.memory.mem r heapBasePage := by
  obtain ⟨s, hs, process, hi, s', hfault, -⟩ : ∃ s, run step roomyKernel oneProcess = .ok s
      ∧ ∃ process, s.processes 0 = some process
        ∧ ∃ s', s.pageFault 0 process heapBasePage.baseAddr.toRaw allAlive = .ok (.resume, s')
          ∧ True := by
    decide +kernel
  obtain ⟨r, -, hr, hiff⟩ := pageFault_accessible_iff roomyKernel_start (by decide +kernel) hs hi
    hfault
  have hpage : (Address.new heapBasePage.baseAddr.toRaw).page = heapBasePage := by decide
  rw [hpage] at hiff
  refine ⟨s, process, s', r, hs, hi, hfault, hr, hiff.mpr fun _ _ hdom => ?_⟩
  exact absurd (by decide) hdom

/-- **A fault that does not go on**: the process touches a physical page that is not mapped.
`set_flags` succeeds without changing anything for it, the process is resumed, and its page is
as inaccessible as before. -/
theorem fault_resumed_inaccessible :
    roomyKernel.Start ⟨300000⟩ ∧ ∃ s process s' r, run step roomyKernel oneProcess = .ok s
      ∧ s.processes 0 = some process
      ∧ s.pageFault 0 process (Page.mk 262144).baseAddr.toRaw allAlive = .ok (.resume, s')
      ∧ s'.kernel.memory.rootOf (.process 0) = some r
      ∧ ¬Accessible s'.kernel.memory.mem r ⟨262144⟩ := by
  refine ⟨roomyKernel_start, ?_⟩
  simp only [exists_and_left]
  decide +kernel

end KernelState

end Rhubarb
