import Rhubarb.Kernel.KernelSteps

/-!
Runs of the kernel: the heaps of the processes, and what processes with `AccessPolicy::Normal`
reach of the kernel mappings.

* `userHeap_run`: the heap of a process is a range of pages that mirrors its kernel mapping, holds
  every page that faulted and keeps the frames of its pages.
* `area_approved_run`: a process with `AccessPolicy::Normal` has no page of the kernel-mapping
  area mapped that was not approved.
-/

namespace Rhubarb

open Foundations MemoryState KernelMemory Level4PageTable

/-- The length of the heap mapping; a process without one has no heap. -/
def UserProcess.heapPages (process : UserProcess) : ℕ :=
  match process.heapMapping with
  | none => 0
  | some mapping => mapping.pages.len

lemma UserProcess.heapPages_none {process : UserProcess} (h : process.heapMapping = none) :
    process.heapPages = 0 := by
  rw [heapPages, h]

lemma UserProcess.heapPages_some {process : UserProcess} {mapping : KernelMapping}
    (h : process.heapMapping = some mapping) : process.heapPages = mapping.pages.len := by
  rw [heapPages, h]

namespace KernelState

variable {s₀ s s' : KernelState} {kroot r : Frame} {i : ℕ} {process : UserProcess}
  {evs evs' : List KernelEvent} {page : Page} {f : Frame}

/-- **The kernel after `memory::init`**: its own address space alone, nothing in the mapping area,
no sections and no processes. -/
structure Start (s : KernelState) (kroot : Frame) : Prop where
  booted : s.kernel.memory.Booted kroot
  tidy : s.kernel.memory.TidyRoots
  zero : s.kernel.memory.frameAllocator.isAllocated 0 = true
  unowned : (⟨0⟩ : Frame) ∉ s.kernel.memory.owned .kernel
  offset : s.kernel.mappingOffset = kernelMappingBase
  empty : ∀ page : Page, page.InArea → s.kernel.memory.leafOf .kernel page = none
  sections : s.sections = []
  framebuffer : ∀ fb, s.framebuffer = some fb → fb.flags.get .present = true
  processes : ∀ i, s.processes i = none
  approvals : s.approvals = []

lemma Start.sound (h : s.Start kroot) : s.Sound kroot where
  kernel := by
    refine ⟨h.booted.sound h.tidy h.zero h.unowned, ⟨h.offset.ge, by rw [h.offset]; decide,
      by rw [h.offset]; decide, fun page hpage hsome => ?_, fun page x hpage hx => ?_⟩, ?_⟩
    · rw [h.empty page hpage] at hsome
      cases hsome
    · rw [h.empty page hpage] at hx
      cases hx
    · rw [h.offset]
      exact Nat.le_add_right _ _
  sections := fun sec hsec => by
    rw [h.sections] at hsec
    cases hsec
  live := fun i => by rw [h.booted.alone i, h.processes i]; rfl
  fresh := fun i _ => h.processes i
  framebuffer := h.framebuffer
  processes := fun i process hp => by
    rw [h.processes i] at hp
    cases hp

lemma Start.run_sound (h : s₀.Start kroot) (hevs : Meets step GrantsOwn s₀ evs)
    (hrun : run step s₀ evs = .ok s) : s.Sound kroot :=
  (run_follows h.sound hevs hrun).sound

/-! ### A small machine -/

/-- No object is dropped. -/
def allAlive : WeakRefs := ⟨fun _ => true, fun _ => true⟩

/-- The roomy machine with a framebuffer on its first page. -/
def roomyKernel : KernelState where
  kernel := ⟨roomyMemory, kernelMappingBase⟩
  sections := []
  framebuffer := some ⟨"framebuffer", 4096, ⟨⟨0⟩, ⟨1⟩⟩, PageTableFlags.present.or .writable⟩
  pciBars := []
  processes := fun _ => none
  blocked := []
  nextProcess := 0
  processId := 1
  approvals := []

lemma roomyKernel_start : roomyKernel.Start ⟨300000⟩ where
  booted := smallMachine_booted (by decide)
  tidy := smallMachine_tidyRoots (by decide)
  zero := by decide
  unowned := List.not_mem_nil
  offset := rfl
  empty := fun page hpage => by
    refine roomyMemory_leafOf fun hc => ?_
    have h := hpage.sharedIndex
    rw [hc] at h
    cases h
  sections := rfl
  framebuffer := fun fb hfb => by
    cases hfb
    decide
  processes := fun _ => rfl
  approvals := rfl

/-- An object with one function. -/
def oneSection : ObjectImage :=
  ⟨"m", fun | .executable => 1 | _ => 0, [⟨"f", .executable, 0, 1⟩]⟩

/-! ### The kernel-mapping area -/

/-- **Deny by default**: in every run, a page of the kernel-mapping area that is mapped in the
address space of a process with `AccessPolicy::Normal` belongs to the mapping of a section for
which an `AllowModuleAccess` with the id of the process was handled. -/
theorem area_approved_run (hstart : s₀.Start kroot) (hevs : Meets step GrantsOwn s₀ evs)
    (hrun : run step s₀ evs = .ok s) :
    ∀ i process, s.processes i = some process → process.accessPolicy = .normal →
      ∀ page : Page, page.Canonical → page.l4Index = kernelMappingL4Index →
        (s.kernel.memory.leafOf (.process i) page).isSome →
          ∃ a ∈ s.approvals, a.processId = process.id
            ∧ page ∈ a.loadedSection.mapping.pages.pages := by
  intro i process hi hpolicy page hcan hl4 hsome
  obtain ⟨x, hx⟩ := Option.isSome_iff_exists.mp hsome
  have hs := hstart.run_sound hevs hrun
  exact (hs.processes i process hi).approved hpolicy page x (Page.inArea_of_l4Index hcan hl4) hx

/-- The first page of the kernel-mapping area. -/
def areaPage : Page := ⟨2 ^ 52 - 2 ^ 28⟩

/-- A process asks for a module, and the shell allows it. -/
def askForModule : List KernelEvent :=
  [.loadObject "load_m" [oneSection], .startProcess "b" .normal [],
    .pageFault 0 areaPage.baseAddr.toRaw allAlive,
    .allowModuleAccess areaPage.baseAddr.toRaw 1 allAlive]

theorem area_approved_run_asked :
    ∃ s process, run step roomyKernel askForModule = .ok s ∧ s.processes 0 = some process
      ∧ process.accessPolicy = .normal ∧ (s.kernel.memory.leafOf (.process 0) areaPage).isSome
      ∧ ∃ a ∈ s.approvals, a.processId = process.id
        ∧ areaPage ∈ a.loadedSection.mapping.pages.pages := by
  obtain ⟨s, hs, process, hi, hpolicy, hsome⟩ : ∃ s, run step roomyKernel askForModule = .ok s
      ∧ ∃ process, s.processes 0 = some process ∧ process.accessPolicy = .normal
        ∧ (s.kernel.memory.leafOf (.process 0) areaPage).isSome := by
    decide +kernel
  exact ⟨s, process, hs, hi, hpolicy, hsome, area_approved_run roomyKernel_start (by decide +kernel)
    hs 0 process hi hpolicy areaPage (by decide) (by decide) hsome⟩

/-- Process 0 sets the flags of two physical pages and exits; the tables that were linked for it
below the kernel's L3 table are free.  Process 1 is given a module, and for that one of these
frames as a table of its own. -/
def reuseTable : List KernelEvent :=
  [.loadObject "load_m" [oneSection], .startProcess "a" .normal [],
    .pageFault 0 (Page.mk 524288).baseAddr.toRaw allAlive,
    .pageFault 0 (Page.mk 262144).baseAddr.toRaw allAlive, .exit 0,
    .startProcess "b" .normal [], .pageFault 1 areaPage.baseAddr.toRaw allAlive,
    .allowModuleAccess areaPage.baseAddr.toRaw 2 allAlive,
    .pageFault 1 (Page.mk (262144 + 512 * 5)).baseAddr.toRaw allAlive]

/-- **A page that was not approved**: a table that was freed under the kernel's root is a table
of the area of process 1 by then, so that a fault on a physical page links a frame there. -/
theorem unapproved_page_mapped :
    roomyKernel.Start ⟨300000⟩
      ∧ (⟨2 ^ 52 - 2 ^ 28 + 5⟩ : Page).Canonical
      ∧ (⟨2 ^ 52 - 2 ^ 28 + 5⟩ : Page).l4Index = kernelMappingL4Index
      ∧ ∃ s process, run step roomyKernel reuseTable = .ok s ∧ s.processes 1 = some process
        ∧ process.accessPolicy = .normal
        ∧ (s.kernel.memory.leafOf (.process 1) ⟨2 ^ 52 - 2 ^ 28 + 5⟩).isSome
        ∧ ∀ a ∈ s.approvals,
          (⟨2 ^ 52 - 2 ^ 28 + 5⟩ : Page) ∉ a.loadedSection.mapping.pages.pages := by
  refine ⟨roomyKernel_start, by decide, by decide, ?_⟩
  simp only [exists_and_left]
  decide +kernel

/-! ### Heaps -/

/-- The pages of a sound heap. -/
lemma Sound.isSome_leafOf_iff (hs : s.Sound kroot) (hi : s.processes i = some process)
    (hpage : page.InHeap) :
    (s.kernel.memory.leafOf (.process i) page).isSome
      ↔ page.number < heapBasePage.number + process.heapPages := by
  have hheap := (hs.processes i process hi).heap
  have hbase := (Page.inHeap_iff.mp hpage).1
  have hnum : heapBasePage.number = 2 ^ 52 - 2 ^ 29 := by rw [heapBasePage_eq]
  cases hm : process.heapMapping with
  | none =>
    rw [hm] at hheap
    rw [hheap page hpage, UserProcess.heapPages_none hm]
    simp only [Option.isSome_none, Bool.false_eq_true, false_iff]
    omega
  | some h =>
    rw [hm] at hheap
    have hheap : s.kernel.Heap i h := hheap
    have hlen : h.pages.len = heapLen h := hheap.holds.len hs.kernel
    rw [UserProcess.heapPages_some hm, hlen]
    constructor
    · intro hsome
      by_contra hc
      rw [hheap.rest page hpage (not_lt.mp hc)] at hsome
      cases hsome
    · intro hlt
      have hpg : page = ⟨heapBasePage.number + (page.number - heapBasePage.number)⟩ := by
        refine congrArg Page.mk ?_
        omega
      have hn : page.number - heapBasePage.number < heapLen h := by omega
      rw [hpg, hheap.pages _ hn]
      exact hheap.kernel_isSome hn

/-- A heap page is translated where the kernel page with the same number is. -/
lemma Sound.translatePage_heap (hs : s.Sound kroot) (hi : s.processes i = some process)
    (hr : s.kernel.memory.rootOf (.process i) = some r) {h : KernelMapping}
    (hm : process.heapMapping = some h) {j : ℕ} (hj : j < h.pages.len) :
    ∃ f, translatePage s.kernel.memory.mem r ⟨heapBasePage.number + j⟩ = pure f
      ∧ translatePage s.kernel.memory.mem kroot ⟨h.pages.start.number + j⟩ = pure f := by
  have hheap := (hs.processes i process hi).heap
  rw [hm] at hheap
  have hheap : s.kernel.Heap i h := hheap
  rw [hheap.holds.len hs.kernel] at hj
  have hmem : (⟨h.pages.start.number + j⟩ : Page) ∈ h.pages.pages := by
    refine PageRange.mem_pages.mpr ⟨Nat.le_add_right _ _, ?_⟩
    show h.pages.start.number + j < h.pages.stop.number
    omega
  obtain ⟨x, hx⟩ := Option.isSome_iff_exists.mp (hheap.kernel_isSome hj)
  obtain ⟨f, -, hlt, rfl⟩ := hs.kernel.area.frames _ x (hheap.holds.inArea hs.kernel hmem) hx
  have hphys : f.Physical := physical_of_lt hlt
  refine ⟨f, (translatePage_eq_pure_iff hr).mpr ⟨hphys, ?_⟩,
    (translatePage_eq_pure_iff hs.kernel.memory.shares.kernel).mpr ⟨hphys, hx⟩⟩
  rw [hheap.pages j hj, hx]

/-- A heap page is mapped as soon as its translation succeeds. -/
lemma Sound.translatePage_iff (hs : s.Sound kroot) (hi : s.processes i = some process)
    (hr : s.kernel.memory.rootOf (.process i) = some r) (hpage : page.InHeap) :
    (∃ f, translatePage s.kernel.memory.mem r page = pure f)
      ↔ heapBasePage.number ≤ page.number
        ∧ page.number < heapBasePage.number + process.heapPages := by
  have hbase : heapBasePage.number ≤ page.number := by
    rw [heapBasePage_eq]
    exact (Page.inHeap_iff.mp hpage).1
  rw [and_iff_right hbase]
  constructor
  · rintro ⟨f, hf⟩
    rw [← hs.isSome_leafOf_iff hi hpage, ((translatePage_eq_pure_iff hr).mp hf).2]
    rfl
  · intro hlt
    cases hm : process.heapMapping with
    | none =>
      rw [UserProcess.heapPages_none hm] at hlt
      omega
    | some h =>
      rw [UserProcess.heapPages_some hm] at hlt
      obtain ⟨f, hf, -⟩ := hs.translatePage_heap hi hr hm (j := page.number - heapBasePage.number)
        (by omega)
      rw [Nat.add_sub_cancel' hbase] at hf
      exact ⟨f, hf⟩

/-- **A heap fault that was handled** leaves its page mapped. -/
lemma step_heapFault {cr2 : ℕ} {weak : WeakRefs} (hs : s.Sound kroot)
    (hi : (s.processes i).isSome) (hb : i ∉ s.blocked)
    (hdom : (Address.new cr2).domain = .userHeap)
    (h : s.step (.pageFault i cr2 weak) = .ok s') :
    (Address.new cr2).page.InHeap
      ∧ (s'.kernel.memory.leafOf (.process i) (Address.new cr2).page).isSome := by
  obtain ⟨hno | hno, -⟩ | ⟨process, res, s₁, hp, -, hres, hfault, hcases⟩ := step_pageFault_cases h
  · rw [hno] at hi
    cases hi
  · exact absurd hno hb
  obtain ⟨-, -, process', kernel, hheap, rfl⟩ | ⟨hc, -⟩ | ⟨hc, -⟩ | ⟨hc, -⟩ :=
    pageFault_cases hres hfault
  · obtain ⟨mapping, rfl, hheap, hlen, -⟩ :=
      heapFault_sound hs.kernel (hs.processes i process hp).heap hdom hheap
    have hpos := hheap.pos
    generalize (Address.new cr2).page = page at hlen ⊢
    obtain rfl : page = ⟨heapBasePage.number + (heapLen mapping - 1)⟩ := congrArg Page.mk (by omega)
    have hlast : heapLen mapping - 1 < heapLen mapping := by omega
    have hsome : (kernel.memory.leafOf (.process i)
        ⟨heapBasePage.number + (heapLen mapping - 1)⟩).isSome := by
      rw [hheap.pages _ hlast]
      exact hheap.kernel_isSome hlast
    refine ⟨hheap.inHeap hlast, ?_⟩
    obtain ⟨-, rfl⟩ | rfl := hcases
    · exact hsome
    · exact hsome
  · exact absurd hdom hc
  · exact absurd hdom hc
  · exact absurd hdom hc

/-- **The heap of a process**: in every run, however its faults are interleaved with other
mappings, the pages of the heap's domain that a process has mapped are those from the base on,
as many as its heap mapping has; they are translated as the kernel pages of the mapping; a page
that faulted earlier is one of them; and a page that was mapped earlier has kept its frame. -/
theorem userHeap_run (hstart : s₀.Start kroot) (hevs : Meets step GrantsOwn s₀ (evs ++ evs'))
    (hrun : run step s₀ evs = .ok s) (hrun' : run step s evs' = .ok s')
    (hi : s'.processes i = some process) (hr : s'.kernel.memory.rootOf (.process i) = some r) :
    (∀ page : Page, page.Canonical → page.l4Index = userHeapL4Index →
        ((∃ f, translatePage s'.kernel.memory.mem r page = pure f)
          ↔ heapBasePage.number ≤ page.number
            ∧ page.number < heapBasePage.number + process.heapPages))
      ∧ (∀ mapping, process.heapMapping = some mapping → ∀ j < mapping.pages.len,
        ∃ f, translatePage s'.kernel.memory.mem r ⟨heapBasePage.number + j⟩ = pure f
          ∧ translatePage s'.kernel.memory.mem kroot ⟨mapping.pages.start.number + j⟩ = pure f)
      ∧ (∀ cr2 weak rest, evs' = .pageFault i cr2 weak :: rest → (s.processes i).isSome →
        i ∉ s.blocked → (Address.new cr2).domain = .userHeap →
          heapBasePage.number ≤ (Address.new cr2).page.number
            ∧ (Address.new cr2).page.number < heapBasePage.number + process.heapPages)
      ∧ ∀ r₁ (page : Page) f, s.kernel.memory.rootOf (.process i) = some r₁ → page.Canonical →
        page.l4Index = userHeapL4Index → translatePage s.kernel.memory.mem r₁ page = pure f →
          translatePage s'.kernel.memory.mem r page = pure f := by
  obtain ⟨hevs, hevs'⟩ := meets_append hevs hrun
  have hs := hstart.run_sound hevs hrun
  have hf := run_follows hs hevs' hrun'
  have hs' := hf.sound
  refine ⟨fun page hc hl4 => hs'.translatePage_iff hi hr ⟨hc, hl4⟩,
    fun mapping hm j hj => hs'.translatePage_heap hi hr hm hj, ?_, ?_⟩
  · rintro cr2 weak rest rfl hold hb hdom
    obtain ⟨s₁, h₁, h₂⟩ := run_cons_eq_ok hrun'
    have hf₁ := step_follows hs hevs'.1 h₁
    obtain ⟨hpage, hsome⟩ := step_heapFault hs hold hb hdom h₁
    have hf₂ := run_follows hf₁.sound (hevs'.2 s₁ h₁) h₂
    have halive : (s'.processes i).isSome := by
      rw [hi]
      rfl
    obtain ⟨x, hx⟩ := Option.isSome_iff_exists.mp hsome
    have hx' := hf₂.kept i (hf₁.isSome_between hs hf₂ hold halive) halive _ x hx
    refine ⟨?_, (hs'.isSome_leafOf_iff hi hpage).mp (by rw [hx']; rfl)⟩
    rw [heapBasePage_eq]
    exact (Page.inHeap_iff.mp hpage).1
  · intro r₁ page f hr₁ hcan hl4 ht
    obtain ⟨hphys, hleaf⟩ := (translatePage_eq_pure_iff hr₁).mp ht
    have hold : (s.processes i).isSome := by
      rw [← hs.live i]
      rw [rootOf, Option.map_eq_some_iff] at hr₁
      obtain ⟨a, ha, -⟩ := hr₁
      rw [ha]
      rfl
    have hleaf' := hf.kept i hold (by rw [hi]; rfl) page _ hleaf
    exact (translatePage_eq_pure_iff hr).mpr ⟨hphys, hleaf'⟩

/-- A process with a heap of one page. -/
def oneHeapPage : List KernelEvent :=
  [.startProcess "a" .normal [], .pageFault 0 heapBasePage.baseAddr.toRaw allAlive]

/-- Two pages further on, and then an object is loaded. -/
def threeHeapPages : List KernelEvent :=
  [.pageFault 0 (Page.mk (2 ^ 52 - 2 ^ 29 + 2)).baseAddr.toRaw allAlive,
    .loadObject "load_m" [oneSection]]

theorem userHeap_run_three :
    ∃ s s' process r, run step roomyKernel oneHeapPage = .ok s
      ∧ run step s threeHeapPages = .ok s' ∧ s'.processes 0 = some process
      ∧ process.heapPages = 3 ∧ s'.kernel.memory.rootOf (.process 0) = some r
      ∧ ∃ f, translatePage s'.kernel.memory.mem r ⟨2 ^ 52 - 2 ^ 29 + 1⟩ = pure f := by
  obtain ⟨s, hs, s', hs', process, hi, hthree, r, hr, -⟩ :
      ∃ s, run step roomyKernel oneHeapPage = .ok s ∧ ∃ s', run step s threeHeapPages = .ok s'
        ∧ ∃ process, s'.processes 0 = some process ∧ process.heapPages = 3
          ∧ ∃ r, s'.kernel.memory.rootOf (.process 0) = some r ∧ True := by
    decide +kernel
  have hheap := (userHeap_run roomyKernel_start (by decide +kernel) hs hs' hi hr).1
  refine ⟨s, s', process, r, hs, hs', hi, hthree, hr, (hheap _ (by decide) (by decide)).mpr ?_⟩
  rw [hthree, heapBasePage_eq]
  exact ⟨by decide, by decide⟩

end KernelState

end Rhubarb
