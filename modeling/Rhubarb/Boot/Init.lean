import Rhubarb.Foundations.Spans
import Rhubarb.Memory.AddressSpace
import Rhubarb.MemoryTypes.Progress

/-!
Booting: what the bootloader hands to the kernel (`bootloader/src/main.rs`, `boot-info`) and
what `memory::init` of the kernel does with it.

The bootloader puts the root objects, the array of memory regions and the array of root objects
into memory the firmware lists as `LOADER_DATA`, and turns the firmware's list into the memory
map of the kernel.  `memory::init` frees the `Free` regions of that map, reserves three ranges
again, and maps the kernel heap with frames from what is left.

* `MemoryState.init`: the part of `memory::init` up to the mapped heap.  What follows it there
  (a test of the heap, the mapping of the framebuffer, the list of PCI BARs) asks for no frame.
* `isAllocated_reserve`: the frames that are used after the reservations.
* `init_isAllocated`: a frame that is used then is used when `memory::init` returns.
-/

namespace Rhubarb

open Foundations Level4PageTable

/-! ### The bootloader -/

/-- `uefi::MemoryType`. -/
inductive MemoryType where
  | conventional
  | loaderCode
  | loaderData
  | bootServicesCode
  | bootServicesData
  | other (tag : ℕ)
  deriving DecidableEq, Repr

/-- `uefi::MemoryDescriptor`. -/
structure MemoryDescriptor where
  ty : MemoryType
  physStart : ℕ
  pageCount : ℕ
  deriving DecidableEq, Repr

/-- The kind of region the bootloader reports for a type of memory. -/
def MemoryType.kind : MemoryType → MemoryRegionKind
  | .conventional | .loaderCode | .loaderData | .bootServicesCode | .bootServicesData => .free
  | .other tag => .uefi tag

def MemoryDescriptor.region (desc : MemoryDescriptor) : MemoryRegion where
  base := desc.physStart
  size := desc.pageCount * pageSize % usizeRange
  kind := desc.ty.kind

/-- `RootObjectInfo`. -/
structure RootObjectInfo where
  addr : ℕ
  size : ℕ
  deriving DecidableEq, Repr

/-- `DisplayInfo`, the framebuffer of it. -/
structure DisplayInfo where
  framebufferAddr : ℕ
  framebufferSize : ℕ
  deriving DecidableEq, Repr

/-- `BootInfo`. -/
structure BootInfo where
  kernelStart : ℕ
  kernelEnd : ℕ
  memoryMap : MemoryMap
  rootObjectMap : List RootObjectInfo
  displayInfo : DisplayInfo
  deriving DecidableEq, Repr

/-- What the bootloader has when it leaves the boot services: the kernel and the root objects it
loaded, the framebuffer, the final memory map of the firmware, and where its two arrays lie. -/
structure Boot where
  kernelStart : ℕ
  kernelEnd : ℕ
  rootObjects : List RootObjectInfo
  displayInfo : DisplayInfo
  memoryMap : List MemoryDescriptor
  memoryRegionsPtr : ℕ
  rootObjectsPtr : ℕ
  deriving DecidableEq, Repr

namespace Boot

/-- The boot info the bootloader builds. -/
def bootInfo (b : Boot) : BootInfo where
  kernelStart := b.kernelStart
  kernelEnd := b.kernelEnd
  memoryMap := b.memoryMap.map MemoryDescriptor.region
  rootObjectMap := b.rootObjects
  displayInfo := b.displayInfo

/-- The bytes the kernel still reads after `memory::init`: the root objects, the array of
memory regions (24 bytes each) and the array of root objects (48 bytes each). -/
def data (b : Boot) : List Span :=
  b.rootObjects.map (fun object => ⟨object.addr, object.size⟩)
    ++ [⟨b.memoryRegionsPtr, 24 * b.memoryMap.length⟩, ⟨b.rootObjectsPtr, 48 * b.rootObjects.length⟩]

/-- The frame overlaps bytes the kernel still reads. -/
def Holds (b : Boot) (n : ℕ) : Prop := ∃ s ∈ b.data, ∃ x ∈ s, x / 4096 = n

/-- What is assumed of the firmware: memory allocated as `LOADER_DATA` is listed as such. -/
def LoaderData (b : Boot) : Prop :=
  ∀ s ∈ b.data, ∀ x ∈ s, ∃ desc ∈ b.memoryMap, desc.ty = .loaderData
    ∧ desc.physStart ≤ x ∧ x < desc.physStart + desc.pageCount * pageSize

end Boot

/-! ### `memory::init` -/

/-- The reservation phase of `memory::init`. -/
def FrameAllocator.reserve (a : FrameAllocator) (info : BootInfo) : Except Panic FrameAllocator := do
  let a ← a.init info.memoryMap
  let a ← a.reserveRange (Address.new 0) mebibyte
  let a ← a.reserveRange (Address.new info.kernelStart)
    (wrappingSub info.kernelEnd info.kernelStart)
  a.reserveRange (Address.new info.displayInfo.framebufferAddr)
    (wrappingAdd info.displayInfo.framebufferAddr info.displayInfo.framebufferSize)

/-- `initial_frame_allocation_test`. -/
def FrameAllocator.initialTest (a : FrameAllocator) : Except Panic FrameAllocator :=
  match a.allocate with
  | (.ok frame, a) =>
    match a.deallocate frame with
    | (.ok _, a) => .ok a
    | (.error _, _) => .error .testFrameDeallocate
  | (.error _, _) => .error .testFrameAllocate

/-- `KERNEL_HEAP_BASE`. -/
def kernelHeapBase : Address := Address.fromTableIndices kernelHeapL4Index 0 0 0

/-- The loop of `memory::init` that maps the kernel heap. -/
def mapHeapLoop (root : Frame) (flags : PageTableFlags) :
    List Page → Comp Panic (PagingState FrameAllocator) MappingError Unit
  | [] => pure ()
  | page :: pages => do
    let frame ← unwrapFrame .heapFrame
    match ← Comp.attempt (mapTo root page frame flags) with
    | .ok _ => mapHeapLoop root flags pages
    | .error _ => Comp.panic .heapMapping

namespace MemoryState

/-- `init_kernel_address_space`. -/
def initKernelAddressSpace (m : MemoryState) : Except Panic MemoryState := do
  match ← Frame.fromBaseAddr m.cr3.baseAddr with
  | some frame =>
    .ok { m with spaces := Function.update m.spaces .kernel (some ⟨"", frame, ⟨[]⟩⟩) }
  | none => .error .kernelFrameAddr

/-- The kernel heap, mapped with the frames the reservations have left. -/
def mapHeap (m : MemoryState) (root : Frame) (a : FrameAllocator) : Except Panic MemoryState := do
  let heapPages ← PageRange.fromBaseSize (Address.new kernelHeapBase.toRaw) (32 * mebibyte)
  let (_, s) ← mapHeapLoop root (PageTableFlags.present.or .writable) heapPages.pages ⟨m.mem, a⟩
  match ← (translateAddr s.mem root (Address.new kernelHeapBase.toRaw)).run with
  | .ok _ => .ok { m with mem := s.mem, frameAllocator := s.allocator }
  | .error _ => .error .heapTranslation

/-- `memory::init`. -/
def init (m : MemoryState) (info : BootInfo) : Except Panic MemoryState := do
  let m ← m.initKernelAddressSpace
  let space ← m.kernelAddressSpace
  if m.isCurrent space = false then .error .kernelSpaceNotCurrent
  else do
    let reserved ← m.frameAllocator.reserve info
    let tested ← reserved.initialTest
    if reserved.freeFrames * pageSize ≤ 64 * mebibyte then .error .notEnoughMemory
    else m.mapHeap space.frame tested

end MemoryState

/-! ### The frames that are used after `memory::init` -/

/-- The frame is one of those `reserve_range` goes over. -/
def Reserves (base : Address) (size n : ℕ) : Prop :=
  base.toRaw / 4096 ≤ n ∧ n < base.toRaw / 4096 + (size + 4095) / 4096

variable {a a' : FrameAllocator} {info : BootInfo} {m m' : MemoryState}

/-- The frame is in one of the three ranges `memory::init` reserves. -/
def BootInfo.Reserved (info : BootInfo) (n : ℕ) : Prop :=
  Reserves (Address.new 0) mebibyte n
    ∨ Reserves (Address.new info.kernelStart) (wrappingSub info.kernelEnd info.kernelStart) n
    ∨ Reserves (Address.new info.displayInfo.framebufferAddr)
      (wrappingAdd info.displayInfo.framebufferAddr info.displayInfo.framebufferSize) n

namespace FrameAllocator

lemma isAllocated_reserveRange {base : Address} {size : ℕ} (h : a.reserveRange base size = .ok a')
    {n : ℕ} (hn : n < maxFrames) :
    a'.isAllocated n = true ↔ a.isAllocated n = true ∨ Reserves base size n := by
  obtain ⟨-, rfl⟩ := reserveRange_eq_ok h
  rw [isAllocated_foldl_reserveFrame]
  simp [hn, Reserves, List.mem_range'_1]

/-- **The reservation phase**: used are the frames no region frees and the reserved ones. -/
lemma isAllocated_reserve (h : a.reserve info = .ok a') {n : ℕ} (hn : n < maxFrames) :
    a'.isAllocated n = true ↔ (¬∃ region ∈ info.memoryMap, Frees region n) ∨ info.Reserved n := by
  obtain ⟨a₁, h₁, h⟩ := ok_of_bind h
  obtain ⟨a₂, h₂, h⟩ := ok_of_bind h
  obtain ⟨a₃, h₃, h₄⟩ := ok_of_bind h
  rw [isAllocated_reserveRange h₄ hn, isAllocated_reserveRange h₃ hn,
    isAllocated_reserveRange h₂ hn, isAllocated_init h₁, BootInfo.Reserved]
  simp only [hn, true_and, or_assoc]

/-- The reservation phase comes to an end. -/
lemma reserve_of_physical (a : FrameAllocator)
    (hmap : ∀ region ∈ info.memoryMap, region.base + region.size < 2 ^ 47)
    (hkernel : info.kernelStart < 2 ^ 47) (hfb : info.displayInfo.framebufferAddr < 2 ^ 47) :
    ∃ a', a.reserve info = .ok a' := by
  obtain ⟨a₁, h₁⟩ := a.init_of_lt hmap
  obtain ⟨a₂, h₂⟩ := a₁.reserveRange_of_physical (Address.new 0) mebibyte
    (by rw [Address.new_of_lt (by norm_num)]; norm_num)
  obtain ⟨a₃, h₃⟩ := a₂.reserveRange_of_physical (Address.new info.kernelStart)
    (wrappingSub info.kernelEnd info.kernelStart) (by rwa [Address.new_of_lt hkernel])
  obtain ⟨a₄, h₄⟩ := a₃.reserveRange_of_physical (Address.new info.displayInfo.framebufferAddr)
    (wrappingAdd info.displayInfo.framebufferAddr info.displayInfo.framebufferSize)
    (by rwa [Address.new_of_lt hfb])
  exact ⟨a₄, by rw [reserve, bind_of_ok h₁, bind_of_ok h₂, bind_of_ok h₃, h₄]⟩

/-- What `init` establishes and reserving a range keeps holds after the reservations. -/
lemma reserve_invariant {I : FrameAllocator → Prop}
    (hinit : ∀ a₁, a.init info.memoryMap = .ok a₁ → I a₁)
    (hstep : ∀ s op s', I s → step s op = .ok s' → I s') (h : a.reserve info = .ok a') : I a' := by
  obtain ⟨a₁, h₁, h⟩ := ok_of_bind h
  obtain ⟨a₂, h₂, h⟩ := ok_of_bind h
  obtain ⟨a₃, h₃, h₄⟩ := ok_of_bind h
  have ha₂ := hstep a₁ (.reserveRange _ _) a₂ (hinit a₁ h₁) h₂
  have ha₃ := hstep a₂ (.reserveRange _ _) a₃ ha₂ h₃
  exact hstep a₃ (.reserveRange _ _) a' ha₃ h₄

/-- The frames of a set are used, in a state with a hint that stays inside the bitmap. -/
structure Held (P : ℕ → Prop) (a : FrameAllocator) : Prop where
  hint : a.nextFreeHint ≤ maxFrames
  used : ∀ n, P n → a.isAllocated n = true

variable {P : ℕ → Prop} {a a' : FrameAllocator}

/-- An allocation gives none of the frames that are used, and they stay used. -/
lemma Held.allocate (h : Held P a) :
    Held P a.allocate.2 ∧ ∀ f, a.allocate.1 = .ok f → f.number < maxFrames ∧ ¬P f.number := by
  rcases allocate_cases h.hint with ⟨heq, -⟩ | ⟨m, hm, hfree, -, heq⟩
  · rw [heq]
    exact ⟨h, nofun⟩
  · rw [heq]
    refine ⟨⟨hm, fun n hn => by rw [isAllocated_take, h.used n hn, Bool.or_true]⟩, ?_⟩
    rintro f hf
    obtain rfl := Except.ok.inj hf
    refine ⟨hm, fun hP => ?_⟩
    rw [h.used m hP] at hfree
    cases hfree

lemma Held.allocateFrame (h : Held P a) {f : Option Frame}
    (hal : AllocateFrame.allocateFrame a = (f, a')) : Held P a' := by
  have hsnd : (FrameAllocator.allocateFrame a).2 = a.allocate.2 := by
    rw [FrameAllocator.allocateFrame]
    split <;> simp_all
  have ha' : a' = (FrameAllocator.allocateFrame a).2 := congrArg Prod.snd hal.symm
  rw [ha', hsnd]
  exact h.allocate.1

lemma initialTest_eq_ok (h : a.initialTest = .ok a') :
    ∃ f, a.allocate.1 = .ok f ∧ a' = (a.allocate.2.deallocate f).2 := by
  rw [initialTest] at h
  rcases hal : a.allocate with ⟨_ | f, a₁⟩
  · rw [hal] at h
    cases h
  · rw [hal] at h
    rcases hde : a₁.deallocate f with ⟨_ | u, a₂⟩
    · simp only [hde] at h
      cases h
    · simp only [hde, Except.ok.injEq] at h
      exact ⟨f, rfl, by rw [hde, h]⟩

/-- The test of the allocator gives back no other frame than it was given. -/
lemma Held.initialTest (h : Held P a) (ha : a.initialTest = .ok a') : Held P a' := by
  obtain ⟨f, hf, rfl⟩ := initialTest_eq_ok ha
  obtain ⟨h₁, hout⟩ := h.allocate
  obtain ⟨hlt, hnot⟩ := hout f hf
  refine ⟨(deallocate_nextFreeHint_le _ f).trans h₁.hint, fun n hn => ?_⟩
  have hne : n ≠ f.number := fun heq => hnot (heq ▸ hn)
  rw [isAllocated_deallocate _ f n hlt, h₁.used n hn]
  simp [hne]

end FrameAllocator

open FrameAllocator

/-- Mapping the heap only ever asks the allocator for frames. -/
lemma mapHeapLoop_allocator {J : FrameAllocator → Prop}
    (hJ : ∀ a f a', J a → AllocateFrame.allocateFrame a = (f, a') → J a') {root : Frame}
    {flags : PageTableFlags} {pages : List Page} {s s' : PagingState FrameAllocator}
    {r : Except MappingError Unit} (hs : J s.allocator)
    (h : mapHeapLoop root flags pages s = .ok (r, s')) : J s'.allocator := by
  induction pages generalizing s with
  | nil =>
    cases h
    exact hs
  | cons page pages ih =>
    rcases Comp.bind_eq_ok h with ⟨frame, s₁, h₁, h⟩ | ⟨x, s₁, h₁, -⟩
    · obtain ⟨f, a, hal, -, rfl⟩ := unwrapFrame_eq_ok h₁
      have hs₁ := hJ _ _ _ hs hal
      rcases Comp.bind_eq_ok h with ⟨r₂, s₂, h₂, h⟩ | ⟨x, s₂, h₂, -⟩
      · obtain ⟨r', hmap, hr⟩ := Comp.attempt_eq_ok h₂
        cases hr
        have hs₂ := mapTo_allocator hJ hs₁ hmap
        cases r₂ with
        | ok u => exact ih hs₂ h
        | error x => cases h
      · obtain ⟨r', -, hr⟩ := Comp.attempt_eq_ok h₂
        cases hr
    · obtain ⟨f, a, -, hr, -⟩ := unwrapFrame_eq_ok h₁
      cases hr

namespace MemoryState

lemma initKernelAddressSpace_eq_ok (h : m.initKernelAddressSpace = .ok m') :
    m'.mem = m.mem ∧ m'.frameAllocator = m.frameAllocator := by
  obtain ⟨r, -, h⟩ := ok_of_bind h
  cases r with
  | none => cases h
  | some frame =>
    cases h
    exact ⟨rfl, rfl⟩

lemma mapHeap_eq_ok {root : Frame} (h : m.mapHeap root a = .ok m') :
    ∃ pages r s, mapHeapLoop root (PageTableFlags.present.or .writable) pages ⟨m.mem, a⟩
      = .ok (r, s) ∧ m'.frameAllocator = s.allocator := by
  obtain ⟨heapPages, -, h⟩ := ok_of_bind h
  obtain ⟨⟨r, s⟩, hloop, h⟩ := ok_of_bind h
  obtain ⟨t, -, h⟩ := ok_of_bind h
  cases t with
  | error x => cases h
  | ok t =>
    cases h
    exact ⟨heapPages.pages, r, s, hloop, rfl⟩

/-- **What is used after the reservations is used after `memory::init`.** -/
lemma init_held {P : ℕ → Prop} (h : m.init info = .ok m')
    (hP : ∀ reserved, m.frameAllocator.reserve info = .ok reserved → Held P reserved) :
    Held P m'.frameAllocator := by
  obtain ⟨m₁, h₁, h⟩ := ok_of_bind h
  obtain ⟨space, -, h⟩ := ok_of_bind h
  obtain ⟨-, hm₁⟩ := initKernelAddressSpace_eq_ok h₁
  split at h
  · cases h
  obtain ⟨reserved, hres, h⟩ := ok_of_bind h
  obtain ⟨tested, htest, h⟩ := ok_of_bind h
  split at h
  · cases h
  obtain ⟨pages, r, s, hloop, hm'⟩ := mapHeap_eq_ok h
  rw [hm₁] at hres
  rw [hm']
  exact mapHeapLoop_allocator (fun a f a' ha hal => Held.allocateFrame ha hal)
    ((hP reserved hres).initialTest htest) hloop

end MemoryState

end Rhubarb
