import Rhubarb.Kernel.KernelRuns
import Rhubarb.Memory.MapProgress

/-!
The lifetime of a heap: how it grows, and what is left of it when its process exits.

`KernelMapping::extend` maps the kernel pages after the end of the mapping, and whether these are
free is up to the mappings that were made since.  The frames of a heap are the kernel's, so an
exit gives back the frames of the process and not those of its heap.

* `extend_ok_iff`: an extension succeeds if and only if the kernel pages after the mapping are
  not mapped.
* `exit_frees_iff`: an exit frees all frames of a process if and only if it has no heap.
-/

namespace Rhubarb

open Foundations MemoryState KernelMemory Level4PageTable

/-! ### Extensions -/

/-- The `len` pages after the end of a range. -/
def PageRange.following (r : PageRange) (len : ℕ) : PageRange :=
  ⟨r.stop, ⟨r.stop.number + len⟩⟩

namespace MemoryState

/-- A range that is tracked gets its new end. -/
lemma Tracked.trackEnd_ok {m : MemoryState} {space : AddressSpace} {name : String}
    (h : m.Tracked (space.name, space.frame) name) (stop : Page) :
    ∃ m', m.trackEnd space name stop = .ok m' := by
  obtain ⟨ranges, hr, hname⟩ := h
  have hsome : (setEnd name stop ranges).isSome := setEnd_isSome hname
  obtain ⟨ranges', hr'⟩ := Option.isSome_iff_exists.mp hsome
  rw [MemoryState.trackEnd, hr]
  simp only [hr']
  exact ⟨_, rfl⟩

end MemoryState

/-- **An extension that succeeds**, from its calls. -/
lemma KernelMapping.extend_of_calls {k : KernelMemory} {mapping : KernelMapping} {id : SpaceId}
    {space kernel : AddressSpace} {userPages : PageRange} {stop : Page} {m₁ m₂ m₃ : MemoryState}
    (hkernel : k.memory.spaces .kernel = some kernel)
    (hstop : mapping.pages.stop.add userPages.len = .ok stop)
    (hmap : k.memory.mapPagesUntracked .kernel kernel ⟨mapping.pages.stop, stop⟩ mapping.flags
      = .ok (.ok (), m₁))
    (hto : m₁.mapKernelPagesTo id space ⟨mapping.pages.stop, stop⟩ userPages mapping.flags
      = .ok (.ok (), m₂))
    (htrack : m₂.trackEnd space mapping.name stop = .ok m₃) :
    mapping.extend k id space userPages
      = .ok (.ok (), { mapping with pages := ⟨mapping.pages.start, stop⟩ }, ⟨m₃,
        bumpOffset k.mappingOffset (PageRange.mk mapping.pages.stop stop).len⟩) := by
  have hspace : k.memory.kernelAddressSpace = .ok kernel := by rw [kernelAddressSpace, hkernel]
  rw [KernelMapping.extend, hstop]
  show (k.memory.kernelAddressSpace >>= _) = _
  rw [hspace]
  show (k.memory.mapPagesUntracked .kernel kernel ⟨mapping.pages.stop, stop⟩ mapping.flags >>= _)
    = _
  rw [hmap]
  show (m₁.mapKernelPagesTo id space ⟨mapping.pages.stop, stop⟩ userPages mapping.flags >>= _) = _
  rw [hto]
  show (m₂.trackEnd space mapping.name stop >>= _) = _
  rw [htrack]
  rfl

namespace KernelMemory

variable {k k' : KernelMemory} {kroot : Frame} {i : ℕ} {mapping mapping' : KernelMapping}
  {a kernel : AddressSpace} {userPages : PageRange} {len : ℕ}

/-- The end of a heap mapping is far below the end of the address space. -/
lemma Heap.stop_le (hk : k.Sound kroot) (hh : k.Heap i mapping) :
    2 ^ 52 - 2 ^ 28 ≤ mapping.pages.stop.number
      ∧ mapping.pages.stop.number ≤ 2 ^ 52 - 2 ^ 28 + 2 ^ 18 := by
  have hbase := hh.holds.base
  have hle := hh.holds.le
  have hstop := hh.holds.stop.trans hk.offset_le
  have hps : pageSize = 4096 := rfl
  rw [kernelMappingBase_eq, hps] at hbase hstop
  omega

/-- The kernel pages after a heap mapping lie in the area. -/
lemma Heap.inArea_following (hk : k.Sound kroot) (hh : k.Heap i mapping) (hlen : len ≤ 2 ^ 18)
    {page : Page} (hpage : page ∈ (mapping.pages.following len).pages) : page.InArea := by
  obtain ⟨h₁, h₂⟩ := PageRange.mem_pages.mp hpage
  have h₁ : mapping.pages.stop.number ≤ page.number := h₁
  have h₂ : page.number < mapping.pages.stop.number + len := h₂
  have hstop := hh.stop_le hk
  rw [Page.inArea_iff]
  omega

lemma Heap.add_following (hk : k.Sound kroot) (hh : k.Heap i mapping) (hlen : len ≤ 2 ^ 18) :
    mapping.pages.stop.add len = .ok (mapping.pages.following len).stop := by
  have hstop := hh.stop_le hk
  have hus : usizeRange = 2 ^ 64 := rfl
  rw [Page.add, if_pos]
  · rfl
  · rw [hus]
    omega

lemma length_following (mapping : KernelMapping) (len : ℕ) :
    (mapping.pages.following len).pages.length = len := by
  rw [PageRange.length_pages]
  show mapping.pages.stop.number + len - mapping.pages.stop.number = len
  omega

/-- **The kernel's side of an extension** succeeds if the pages after the mapping are not mapped;
the pages of the process are as they were. -/
lemma Heap.extend_kernel (hk : k.Sound kroot) (hh : k.Heap i mapping) (hlen : len ≤ 2 ^ 18)
    (hkernel : k.memory.spaces .kernel = some kernel)
    (ha : k.memory.spaces (.process i) = some a)
    (hfree : ∀ page ∈ (mapping.pages.following len).pages,
      Dead k.memory.mem kernel.frame page.indices)
    (hsup : Supplies (7 * len) k.memory.frameAllocator) :
    ∃ m₁ kernel₁, k.memory.mapPagesUntracked .kernel kernel (mapping.pages.following len)
        mapping.flags = .ok (.ok (), m₁)
      ∧ m₁.Separated ∧ m₁.spaces .kernel = some kernel₁ ∧ m₁.spaces (.process i) = some a
      ∧ m₁.tracker = k.memory.tracker ∧ Supplies (3 * len) m₁.frameAllocator
      ∧ (∀ page ∈ (mapping.pages.following len).pages, ∃ f : Frame, f.Physical
        ∧ translatePage m₁.mem kernel₁.frame page = pure f)
      ∧ ∀ page : Page, Dead k.memory.mem a.frame page.indices →
        Dead m₁.mem a.frame page.indices := by
  have hsep := hk.memory.separated
  have hflags : mapping.flags.get .present = true ∧ mapping.flags.get .hugePage = false := by
    rw [hh.flags]
    decide
  have hshort : (mapping.pages.following len).stop.number
      - (mapping.pages.following len).start.number ≤ 2 ^ 36 := by
    show mapping.pages.stop.number + len - mapping.pages.stop.number ≤ 2 ^ 36
    omega
  obtain ⟨m₁, hmap, hsup₁, hframes⟩ := mapPagesUntracked_ok hsep hk.memory.zero hkernel hflags.1
    hflags.2 (PageRange.pairwise_indices hshort) hfree
    (by rw [length_following, ← Nat.add_mul 4 3]; exact hsup)
  obtain ⟨hcalled, -⟩ := mapPagesUntracked_called hsep hk.memory.zero hkernel hmap
  have hroot : m₁.rootOf .kernel = some kernel.frame := by
    rw [hcalled.extend.rootOf]
    exact rootOf_of_space hkernel
  obtain ⟨kernel₁, hkernel₁, hframe₁⟩ := Option.map_eq_some_iff.mp hroot
  refine ⟨m₁, kernel₁, hmap, hcalled.separated, hkernel₁, ?_, tracker_withPageTable hmap, hsup₁,
    by rw [hframe₁]; exact hframes, fun page hdead => ?_⟩
  · rw [hcalled.others _ (by simp), ha]
  · exact mapPagesUntracked_others hsep hkernel ha (by simp)
      (fun q hq => (hh.inArea_following hk hlen hq).sharedIndex) hdead hmap

/-- **When an extension succeeds**: on pages of the process that are not mapped, with seven frames
for each of them, if the kernel pages after the mapping are not mapped, and only then. -/
lemma Heap.extend_succeeds_iff (hk : k.Sound kroot) (hh : k.Heap i mapping)
    (ha : k.memory.spaces (.process i) = some a)
    (hle : userPages.start.number ≤ userPages.stop.number)
    (hlt : userPages.stop.number < usizeRange)
    (hdead : ∀ page ∈ userPages.pages, Dead k.memory.mem a.frame page.indices)
    (hlen : userPages.len ≤ 2 ^ 18)
    (hsup : Supplies (7 * userPages.len) k.memory.frameAllocator) :
    (∃ mapping' k', mapping.extend k (.process i) a userPages = .ok (.ok (), mapping', k'))
      ↔ ∀ page ∈ (mapping.pages.following userPages.len).pages,
        Dead k.memory.mem kroot page.indices := by
  obtain ⟨kernel, hkernel, rfl⟩ := Option.map_eq_some_iff.mp hk.memory.shares.kernel
  constructor
  · rintro ⟨mapping', k', hext⟩
    obtain ⟨kernel', stop, hkernel', hstop, -, hcases⟩ := KernelMapping.extend_eq_ok hext
    obtain rfl : kernel = kernel' := Option.some.inj (hkernel.symm.trans hkernel')
    obtain rfl : stop = ⟨mapping.pages.stop.number + userPages.len⟩ := congrArg Page.mk hstop
    obtain ⟨e, -, hc, -⟩ | ⟨m₁, hmap, -⟩ := hcases
    · cases hc
    · exact mapPagesUntracked_dead hk.memory.separated hkernel hmap
  · intro hfree
    obtain ⟨m₁, kernel₁, hmap, hsep₁, hkernel₁, ha₁, htracker, hsup₁, hframes, hkept⟩ :=
      hh.extend_kernel hk hlen hkernel ha hfree hsup
    have hcount := PageRange.len_of_le hle hlt
    have hlength : userPages.pages.length = userPages.len := by
      rw [PageRange.length_pages, hcount]
    have hflags : mapping.flags.get .present = true ∧ mapping.flags.get .hugePage = false := by
      rw [hh.flags]
      decide
    obtain ⟨s', hto⟩ := mapKernelPagesTo_ok hsep₁ ha₁ hkernel₁ hflags.1 hflags.2
      ((length_following mapping userPages.len).trans hlength.symm)
      (PageRange.pairwise_indices (by omega)) (fun page hp => hkept page (hdead page hp)) hframes
      (by rw [hlength]; exact hsup₁)
    have htracked : (m₁.put (.process i) a s').Tracked (a.name, a.frame) mapping.name :=
      (hh.tracked a ha).of_tracker_eq htracker
    obtain ⟨m₃, htrack⟩ := htracked.trackEnd_ok (mapping.pages.following userPages.len).stop
    exact ⟨_, _, KernelMapping.extend_of_calls hkernel (hh.add_following hk hlen) hmap hto htrack⟩

end KernelMemory

/-! ### Heaps in reachable states -/

namespace KernelState

variable {s₀ s s' : KernelState} {kroot : Frame} {i : ℕ} {process : UserProcess}
  {mapping : KernelMapping} {a : AddressSpace} {userPages : PageRange} {evs : List KernelEvent}

/-- **The growth of a heap**: in every state that a run reaches, `KernelMapping::extend` of the
heap mapping of a process by pages that are not mapped, with seven free frames for each of them,
succeeds if and only if the kernel pages after the mapping are not mapped. -/
theorem extend_ok_iff (hstart : s₀.Start kroot) (hevs : Meets step GrantsOwn s₀ evs)
    (hrun : run step s₀ evs = .ok s) (hi : s.processes i = some process)
    (hmapping : process.heapMapping = some mapping)
    (ha : s.kernel.memory.spaces (.process i) = some a)
    (hle : userPages.start.number ≤ userPages.stop.number)
    (hlt : userPages.stop.number < usizeRange)
    (hdead : ∀ page ∈ userPages.pages, Dead s.kernel.memory.mem a.frame page.indices)
    (hfree : Supplies (7 * userPages.len) s.kernel.memory.frameAllocator) :
    (∃ mapping' k', mapping.extend s.kernel (.process i) a userPages
        = .ok (.ok (), mapping', k'))
      ↔ ∀ page ∈ (mapping.pages.following userPages.len).pages,
        Dead s.kernel.memory.mem kroot page.indices := by
  have hs := hstart.run_sound hevs hrun
  have hheap := (hs.processes i process hi).heap
  rw [hmapping] at hheap
  have hbound : 7 * userPages.len ≤ 2 ^ 18 :=
    supplies_le hs.kernel.memory.separated.roots.tidy.tables.hint hfree
  exact Heap.extend_succeeds_iff hs.kernel hheap ha hle hlt hdead (by omega) hfree

/-- The second and third pages of a heap. -/
def nextHeapPages : PageRange := ⟨⟨2 ^ 52 - 2 ^ 29 + 1⟩, ⟨2 ^ 52 - 2 ^ 29 + 3⟩⟩

/-- The heap of a process that is alone grows. -/
theorem extend_ok_iff_alone :
    ∃ s process mapping a, run step roomyKernel oneHeapPage = .ok s
      ∧ s.processes 0 = some process ∧ process.heapMapping = some mapping
      ∧ s.kernel.memory.spaces (.process 0) = some a
      ∧ ∃ mapping' k', mapping.extend s.kernel (.process 0) a nextHeapPages
        = .ok (.ok (), mapping', k') := by
  obtain ⟨s, hs, process, hi, mapping, hmapping, a, ha, hdead, hsup, hfollow⟩ :
      ∃ s, run step roomyKernel oneHeapPage = .ok s ∧ ∃ process, s.processes 0 = some process
        ∧ ∃ mapping, process.heapMapping = some mapping
          ∧ ∃ a, s.kernel.memory.spaces (.process 0) = some a
            ∧ (∀ page ∈ nextHeapPages.pages, Dead s.kernel.memory.mem a.frame page.indices)
            ∧ Supplies (7 * nextHeapPages.len) s.kernel.memory.frameAllocator
            ∧ ∀ page ∈ (mapping.pages.following nextHeapPages.len).pages,
              Dead s.kernel.memory.mem ⟨300000⟩ page.indices := by
    decide +kernel
  exact ⟨s, process, mapping, a, hs, hi, hmapping, ha, (extend_ok_iff roomyKernel_start
    (by decide +kernel) hs hi hmapping ha (by decide) (by decide) hdead hsup).mpr hfollow⟩

/-- **An extension that fails**: an object is loaded after the heap was created, so the kernel
pages after the heap mapping are taken.  The pages of the process are not mapped, and there are
frames. -/
theorem extend_fails_after_load :
    roomyKernel.Start ⟨300000⟩ ∧ ∃ s process mapping a e mapping' k',
      run step roomyKernel (oneHeapPage ++ [.loadObject "load_m" [oneSection]]) = .ok s
        ∧ s.processes 0 = some process ∧ process.heapMapping = some mapping
        ∧ s.kernel.memory.spaces (.process 0) = some a
        ∧ (∀ page ∈ nextHeapPages.pages, Dead s.kernel.memory.mem a.frame page.indices)
        ∧ Supplies (7 * nextHeapPages.len) s.kernel.memory.frameAllocator
        ∧ mapping.extend s.kernel (.process 0) a nextHeapPages = .ok (.error e, mapping', k') := by
  obtain ⟨s, hs, process, hi, mapping, hmapping, a, ha, hdead, hsup, ⟨res, mapping', k'⟩, hext,
      hres⟩ : ∃ s, run step roomyKernel (oneHeapPage ++ [.loadObject "load_m" [oneSection]]) = .ok s
        ∧ ∃ process, s.processes 0 = some process
          ∧ ∃ mapping, process.heapMapping = some mapping
            ∧ ∃ a, s.kernel.memory.spaces (.process 0) = some a
              ∧ (∀ page ∈ nextHeapPages.pages, Dead s.kernel.memory.mem a.frame page.indices)
              ∧ Supplies (7 * nextHeapPages.len) s.kernel.memory.frameAllocator
              ∧ ∃ y, mapping.extend s.kernel (.process 0) a nextHeapPages = .ok y
                ∧ y.1.toOption = none := by
    decide +kernel
  cases res with
  | ok u => cases hres
  | error e =>
    exact ⟨roomyKernel_start, s, process, mapping, a, e, mapping', k', hs, hi, hmapping, ha,
      hdead, hsup, hext⟩

/-! ### Exits -/

/-- A frame that backs a page of the heap of a process. -/
def BacksHeap (s : KernelState) (kroot : Frame) (process : UserProcess) (f : Frame) : Prop :=
  ∃ mapping, process.heapMapping = some mapping ∧ ∃ page ∈ mapping.pages.pages,
    translatePage s.kernel.memory.mem kroot page = pure f

/-- The frames of a heap are the kernel's. -/
lemma Sound.owned_of_backsHeap {f : Frame} (hs : s.Sound kroot) (hi : s.processes i = some process)
    (hf : s.BacksHeap kroot process f) : f ∈ s.kernel.memory.owned .kernel := by
  obtain ⟨mapping, hmapping, page, hpage, htrans⟩ := hf
  have hheap := (hs.processes i process hi).heap
  rw [hmapping] at hheap
  have hheap : s.kernel.Heap i mapping := hheap
  obtain ⟨hphys, hleaf⟩ := (translatePage_eq_pure_iff hs.kernel.memory.shares.kernel).mp htrans
  obtain ⟨g, hg, hlt, heq⟩ := hs.kernel.area.frames page _
    (hheap.holds.inArea hs.kernel hpage) hleaf
  have hfg : f = g := by
    have hraw := congrArg Address.toRaw heq
    rw [Frame.baseAddr_toRaw hphys, Frame.baseAddr_toRaw (physical_of_lt hlt)] at hraw
    cases f
    cases g
    exact congrArg Frame.mk (by simpa using hraw)
  exact hfg ▸ hg

/-- A heap has a frame. -/
lemma Sound.exists_backsHeap (hs : s.Sound kroot) (hi : s.processes i = some process)
    (hmapping : process.heapMapping = some mapping) : ∃ f, s.BacksHeap kroot process f := by
  have hheap := (hs.processes i process hi).heap
  rw [hmapping] at hheap
  have hheap : s.kernel.Heap i mapping := hheap
  obtain ⟨a, ha⟩ := hs.exists_space hi
  have hpos : 0 < mapping.pages.len := by
    rw [hheap.holds.len hs.kernel]
    exact hheap.pos
  obtain ⟨f, -, hf⟩ := hs.translatePage_heap hi (rootOf_of_space ha) hmapping hpos
  refine ⟨f, mapping, hmapping, _, PageRange.mem_pages.mpr ⟨Nat.le_add_right _ 0, ?_⟩, hf⟩
  have hlen : heapLen mapping = mapping.pages.stop.number - mapping.pages.start.number := rfl
  have hpos' := hheap.pos
  show mapping.pages.start.number + 0 < mapping.pages.stop.number
  omega

/-- A process is dropped, and its proxy gives its frames back. -/
lemma dropProcess_ok {kernel : AddressSpace} (hkernel : s.kernel.memory.spaces .kernel = some kernel)
    (ha : s.kernel.memory.spaces (.process i) = some a) :
    ∃ s', s.dropProcess i = .ok s'
      ∧ s'.kernel.memory.frameAllocator = a.frameAllocator.drop s.kernel.memory.frameAllocator := by
  refine ⟨{ s with
    kernel := { s.kernel with
      memory := { s.kernel.memory with cr3 := kernel.frame }.dropSpace (.process i) a }
    processes := Function.update s.processes i none }, ?_, rfl⟩
  rw [dropProcess, enterKernel, kernelAddressSpace, hkernel]
  show (KernelMemory.dropSpace _ i >>= _) = _
  rw [KernelMemory.dropSpace, KernelMemory.space]
  simp only [ha]
  rfl

/-- **What an exit frees**: the frames of the process, and no others. -/
lemma Sound.exit_frees (hs : s.Sound kroot) (hi : s.processes i = some process)
    (hb : i ∉ s.blocked) :
    ∃ s', s.step (.exit i) = .ok s' ∧ ∀ n, s'.kernel.memory.frameAllocator.isAllocated n
      = (!decide (⟨n⟩ ∈ s.kernel.memory.owned (.process i))
        && s.kernel.memory.frameAllocator.isAllocated n) := by
  obtain ⟨a, ha⟩ := hs.exists_space hi
  obtain ⟨kernel, hkernel, -⟩ := Option.map_eq_some_iff.mp hs.kernel.memory.shares.kernel
  obtain ⟨s', hdrop, hfree⟩ := dropProcess_ok hkernel ha
  refine ⟨s', ?_, fun n => ?_⟩
  · rw [step, if_pos ⟨by rw [hi]; rfl, hb⟩, hdrop]
  · rw [hfree, FrameAllocatorProxy.drop, ← owned_of_space ha]
    exact hs.kernel.memory.shares.partition.isAllocated_release _ n

/-- The frames of a heap stay in use when its process exits. -/
lemma Sound.exit_keeps {f : Frame} (hs : s.Sound kroot) (hi : s.processes i = some process)
    (hf : s.BacksHeap kroot process f)
    (hfrees : ∀ n, s'.kernel.memory.frameAllocator.isAllocated n
      = (!decide (⟨n⟩ ∈ s.kernel.memory.owned (.process i))
        && s.kernel.memory.frameAllocator.isAllocated n)) :
    s'.kernel.memory.frameAllocator.isAllocated f.number = true := by
  have hkernel := hs.owned_of_backsHeap hi hf
  have hpart := hs.kernel.memory.shares.partition
  have hnot : f ∉ s.kernel.memory.owned (.process i) :=
    fun hc => hpart.disjoint .kernel (.process i) (by simp) hkernel hc
  rw [hfrees, (hpart.used .kernel f hkernel).2, decide_eq_false hnot]
  rfl

/-- **The frames of a process that exits**: in every state that a run reaches, an exit frees the
frames that were allocated for the address space of the process, its stack and its tables; it
also frees those of its heap if and only if there is no heap. -/
theorem exit_frees_iff (hstart : s₀.Start kroot) (hevs : Meets step GrantsOwn s₀ evs)
    (hrun : run step s₀ evs = .ok s) (hi : s.processes i = some process) (hb : i ∉ s.blocked) :
    ∃ s', s.step (.exit i) = .ok s'
      ∧ (∀ f ∈ s.kernel.memory.owned (.process i),
        s'.kernel.memory.frameAllocator.isAllocated f.number = false)
      ∧ ((∀ f, f ∈ s.kernel.memory.owned (.process i) ∨ s.BacksHeap kroot process f →
          s'.kernel.memory.frameAllocator.isAllocated f.number = false)
        ↔ process.heapMapping = none) := by
  have hs := hstart.run_sound hevs hrun
  obtain ⟨s', hexit, hfrees⟩ := hs.exit_frees hi hb
  have hown : ∀ f ∈ s.kernel.memory.owned (.process i),
      s'.kernel.memory.frameAllocator.isAllocated f.number = false := by
    intro f hf
    rw [hfrees, decide_eq_true hf]
    rfl
  refine ⟨s', hexit, hown, fun hall => ?_, fun hnone f hf => ?_⟩
  · cases hmapping : process.heapMapping with
    | none => rfl
    | some mapping =>
      obtain ⟨f, hf⟩ := hs.exists_backsHeap hi hmapping
      have hfree := hall f (Or.inr hf)
      rw [hs.exit_keeps hi hf hfrees] at hfree
      cases hfree
  · rcases hf with hf | ⟨mapping, hmapping, -⟩
    · exact hown f hf
    · rw [hnone] at hmapping
      cases hmapping

/-- A process without a heap exits, and its frames are free. -/
theorem exit_frees_iff_no_heap :
    ∃ s process s', run step roomyKernel [.startProcess "a" .normal []] = .ok s
      ∧ s.processes 0 = some process ∧ s.step (.exit 0) = .ok s'
      ∧ s.kernel.memory.owned (.process 0) ≠ []
      ∧ ∀ f, f ∈ s.kernel.memory.owned (.process 0) ∨ s.BacksHeap ⟨300000⟩ process f →
        s'.kernel.memory.frameAllocator.isAllocated f.number = false := by
  obtain ⟨s, hs, process, hi, hnone, hb, hne⟩ :
      ∃ s, run step roomyKernel [.startProcess "a" .normal []] = .ok s
        ∧ ∃ process, s.processes 0 = some process ∧ process.heapMapping.isNone
          ∧ s.blocked = [] ∧ s.kernel.memory.owned (.process 0) ≠ [] := by
    decide +kernel
  obtain ⟨s', hexit, -, hiff⟩ := exit_frees_iff roomyKernel_start (by decide +kernel) hs hi
    (by rw [hb]; exact List.not_mem_nil)
  exact ⟨s, process, s', hs, hi, hexit, hne, hiff.mpr (Option.isNone_iff_eq_none.mp hnone)⟩

/-- **Frames that are lost**: a process with a heap of one page exits, and the frame of that page
is still in use. -/
theorem exit_keeps_heap_frame :
    roomyKernel.Start ⟨300000⟩ ∧ ∃ s process s' f, run step roomyKernel oneHeapPage = .ok s
      ∧ s.processes 0 = some process ∧ s.step (.exit 0) = .ok s'
      ∧ s.BacksHeap ⟨300000⟩ process f
      ∧ s'.kernel.memory.frameAllocator.isAllocated f.number = true := by
  obtain ⟨s, hs, hb, process, hi, hsome⟩ : ∃ s, run step roomyKernel oneHeapPage = .ok s
      ∧ s.blocked = [] ∧ ∃ process, s.processes 0 = some process
        ∧ process.heapMapping.isSome := by
    decide +kernel
  obtain ⟨mapping, hmapping⟩ := Option.isSome_iff_exists.mp hsome
  have hsound := roomyKernel_start.run_sound (by decide +kernel) hs
  obtain ⟨f, hf⟩ := hsound.exists_backsHeap hi hmapping
  obtain ⟨s', hexit, hfrees⟩ := hsound.exit_frees hi (by rw [hb]; exact List.not_mem_nil)
  exact ⟨roomyKernel_start, s, process, s', f, hs, hi, hexit, hf, hsound.exit_keeps hi hf hfrees⟩

end KernelState

end Rhubarb
