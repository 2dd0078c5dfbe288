import Rhubarb.Memory.Proxy
import Rhubarb.MemoryTypes.Paging

/-!
Address spaces (`AddressSpace` and `KernelMapping::map_into` of `kernel/src/memory.rs`).

`MemoryState` is what the memory code of the kernel shares: the page tables in physical
memory, the global frame allocator, the address spaces that exist, the control register that
says which one is active, and the tracker of mapped ranges.  An address space is a root table
and a proxy; its methods run over the tables and over the allocator seen through that proxy,
and both are put back afterwards, whether the method succeeds or not.

* `MemoryState.step`: one call on one address space; a `Panic` ends the run.
-/

namespace Rhubarb

open Foundations Level4PageTable

/-- The global allocator seen through the proxy of one address space. -/
structure ProxyAllocator where
  frameAllocator : FrameAllocator
  proxy : FrameAllocatorProxy

instance : AllocateFrame FrameAllocator where
  allocateFrame := FrameAllocator.allocateFrame

instance : AllocateFrame ProxyAllocator where
  allocateFrame a :=
    let (frame, proxy, g) := a.proxy.allocateFrame a.frameAllocator
    (frame, ⟨g, proxy⟩)

/-- `AddressSpace`; its page table is the one in `frame`. -/
structure AddressSpace where
  name : String
  frame : Frame
  frameAllocator : FrameAllocatorProxy
  deriving DecidableEq, Repr

/-- Which address space: the kernel's, or that of a process. -/
inductive SpaceId where
  | kernel
  | process (id : ℕ)
  deriving DecidableEq, Repr

/-- `KernelMapping`. -/
structure KernelMapping where
  name : String
  size : ℕ
  pages : PageRange
  flags : PageTableFlags

/-- The state of the kernel's memory code. -/
structure MemoryState where
  mem : PhysMem
  frameAllocator : FrameAllocator
  spaces : SpaceId → Option AddressSpace
  cr3 : Frame
  tracker : String × Frame → Option (List (String × PageRange))

/-! ### Loops over pages -/

section Loops

variable {A : Type} [AllocateFrame A]

/-- `frame_allocator.allocate_frame().unwrap()`. -/
def unwrapFrame (p : Panic) : Comp Panic (PagingState A) MappingError Frame := do
  match ← allocateFrame with
  | some frame => pure frame
  | none => Comp.panic p

lemma unwrapFrame_apply {p : Panic} {s : PagingState A} {f : Frame} {a : A}
    (h : AllocateFrame.allocateFrame s.allocator = (some f, a)) :
    unwrapFrame p s = .ok (.ok f, ⟨s.mem, a⟩) := by
  have happ : allocateFrame s = .ok (.ok (some f), ⟨s.mem, a⟩) := by
    simp only [allocateFrame, h]
  rw [unwrapFrame, Comp.bind_apply_ok happ]
  rfl

/-- The frame was there to be unwrapped. -/
lemma unwrapFrame_eq_ok {p : Panic} {s s' : PagingState A} {r : Except MappingError Frame}
    (h : unwrapFrame p s = .ok (r, s')) :
    ∃ f a, AllocateFrame.allocateFrame s.allocator = (some f, a) ∧ r = .ok f ∧ s' = ⟨s.mem, a⟩ := by
  rcases hal : AllocateFrame.allocateFrame s.allocator with ⟨_ | f, a⟩
  · have happ : allocateFrame s = .ok (.ok none, ⟨s.mem, a⟩) := by
      simp only [allocateFrame, hal]
    rw [unwrapFrame, Comp.bind_apply_ok happ] at h
    cases h
  · rw [unwrapFrame_apply hal] at h
    cases h
    exact ⟨f, a, rfl, rfl, rfl⟩

/-- The loop of `map_pages`: a page that is "already mapped to the same frame" is passed
over. -/
def mapPagesLoop (root : Frame) (flags : PageTableFlags) :
    List Page → Comp Panic (PagingState A) MappingError Unit
  | [] => pure ()
  | page :: pages => do
    let frame ← unwrapFrame .mapPagesFrame
    match ← Comp.attempt (mapTo root page frame flags) with
    | .ok _ => mapPagesLoop root flags pages
    | .error e =>
      if e = .pageAlreadyMapped frame then mapPagesLoop root flags pages
      else Comp.fail e

/-- One turn of the loop: a frame is taken, and the page is mapped to it or was mapped before. -/
lemma mapPagesLoop_cons {root : Frame} {flags : PageTableFlags} {page : Page} {pages : List Page}
    {s s' : PagingState A} {res : Except MappingError Unit}
    (h : mapPagesLoop root flags (page :: pages) s = .ok (res, s')) :
    ∃ f a res₁ s₁, AllocateFrame.allocateFrame s.allocator = (some f, a)
      ∧ mapTo root page f flags ⟨s.mem, a⟩ = .ok (res₁, s₁)
      ∧ ((res₁ = .ok () ∨ res₁ = .error (.pageAlreadyMapped f))
          ∧ mapPagesLoop root flags pages s₁ = .ok (res, s')
        ∨ ∃ e, res₁ = .error e ∧ e ≠ .pageAlreadyMapped f ∧ res = .error e ∧ s' = s₁) := by
  rcases Comp.bind_eq_ok h with ⟨frame, s₁, h₁, hm⟩ | ⟨x, s₁, h₁, -⟩
  · obtain ⟨f, a, hal, hf, rfl⟩ := unwrapFrame_eq_ok h₁
    cases hf
    rcases Comp.bind_eq_ok hm with ⟨r₂, s₂, h₂, hm⟩ | ⟨x, s₂, h₂, -⟩
    · obtain ⟨res₂, hmap, hres⟩ := Comp.attempt_eq_ok h₂
      cases hres
      refine ⟨frame, a, r₂, s₂, hal, hmap, ?_⟩
      cases r₂ with
      | ok u => exact .inl ⟨.inl rfl, hm⟩
      | error x =>
        by_cases hx : x = .pageAlreadyMapped frame
        · simp only [hx, if_true] at hm
          exact .inl ⟨.inr (by rw [hx]), hm⟩
        · simp only [hx, if_false] at hm
          cases hm
          exact .inr ⟨x, rfl, hx, rfl, rfl⟩
    · obtain ⟨res₂, -, hres⟩ := Comp.attempt_eq_ok h₂
      cases hres
  · obtain ⟨f, a, -, hx, -⟩ := unwrapFrame_eq_ok h₁
    cases hx

/-- The loop of `map_pages_untracked`. -/
def mapPagesUntrackedLoop (root : Frame) (flags : PageTableFlags) :
    List Page → Comp Panic (PagingState A) MappingError Unit
  | [] => pure ()
  | page :: pages => do
    let frame ← unwrapFrame .mapPagesFrame
    mapTo root page frame flags
    mapPagesUntrackedLoop root flags pages

/-- The frame of a kernel page: `translate_page(..).expect(..)`. -/
def kernelFrame (kernelRoot : Frame) (page : Page) :
    Comp Panic (PagingState A) MappingError Frame := do
  let s ← Comp.read
  match ← Comp.lift (translatePage s.mem kernelRoot page).run with
  | .ok frame => pure frame
  | .error _ => Comp.panic .kernelPageNotMapped

omit [AllocateFrame A] in
/-- The frame of a kernel page is read off the tables, which stay as they are. -/
lemma kernelFrame_eq_ok {kernelRoot : Frame} {page : Page} {s s' : PagingState A}
    {x : Except MappingError Frame} (h : kernelFrame kernelRoot page s = .ok (x, s')) :
    s' = s ∧ ∃ f, x = .ok f ∧ translatePage s.mem kernelRoot page = pure f := by
  rw [kernelFrame, Comp.bind_apply_ok (Comp.read_apply s)] at h
  cases hr : (translatePage s.mem kernelRoot page).run with
  | error p =>
    rw [hr, Comp.bind_apply_panic (Comp.lift_error_apply p s)] at h
    cases h
  | ok y =>
    rw [hr, Comp.bind_apply_ok (Comp.lift_ok_apply y s)] at h
    cases y with
    | error e => cases h
    | ok f =>
      cases h
      exact ⟨rfl, f, rfl, hr⟩

/-- The loop of `map_kernel_pages_to` over the local pages with their kernel pages. -/
def mapKernelPagesLoop (kernelRoot root : Frame) (flags : PageTableFlags) :
    List (Page × Page) → Comp Panic (PagingState A) MappingError Unit
  | [] => pure ()
  | (localPage, kernelPage) :: pages => do
    let frame ← kernelFrame kernelRoot kernelPage
    mapTo root localPage frame flags
    mapKernelPagesLoop kernelRoot root flags pages

end Loops

namespace MemoryState

/-- `kernel_address_space`. -/
def kernelAddressSpace (m : MemoryState) : Except Panic AddressSpace :=
  match m.spaces .kernel with
  | some k => .ok k
  | none => .error .kernelSpaceMissing

/-- `AddressSpace::is_current`. -/
def isCurrent (m : MemoryState) (space : AddressSpace) : Bool :=
  m.cr3.baseAddr = space.frame.baseAddr

/-- The L4 entries `AddressSpace::new` copies from the kernel's table. -/
def sharedIndex (i : TableIndex) : Bool := i ≤ maxPhysicalL4Index ∨ i = kernelHeapL4Index

/-- The tables after `AddressSpace::new` has filled the table of the new address space: a copy
of the parent's, or the shared entries of the kernel's. -/
def newTable (mem : PhysMem) (kernelRoot frame : Frame) (inherit : Option Frame) : PhysMem :=
  let cleared := Radix.clear mem frame .unused
  match inherit with
  | some parent => fun f i => if f = frame then cleared parent i else cleared f i
  | none => fun f i => if f = frame ∧ sharedIndex i then cleared kernelRoot i else cleared f i

/-- `AddressSpace::new`. -/
def newSpace (m : MemoryState) (id : SpaceId) (name : String) (inherit : Option Frame) :
    Except Panic MemoryState := do
  let kernel ← m.kernelAddressSpace
  if m.isCurrent kernel = false then .error .kernelSpaceNotCurrent
  else
    match (FrameAllocatorProxy.mk []).allocateFrame m.frameAllocator with
    | (none, _) => .error .newSpaceFrame
    | (some frame, proxy, g) =>
      .ok { m with
        mem := newTable m.mem kernel.frame frame inherit
        frameAllocator := g
        spaces := Function.update m.spaces id (some ⟨name, frame, proxy⟩) }

/-- What a method of an address space works on. -/
def paging (m : MemoryState) (space : AddressSpace) : PagingState ProxyAllocator :=
  ⟨m.mem, ⟨m.frameAllocator, space.frameAllocator⟩⟩

/-- The memory after a method of an address space. -/
def put (m : MemoryState) (id : SpaceId) (space : AddressSpace)
    (s : PagingState ProxyAllocator) : MemoryState :=
  { m with
    mem := s.mem
    frameAllocator := s.allocator.frameAllocator
    spaces := Function.update m.spaces id (some { space with frameAllocator := s.allocator.proxy }) }

/-- Run a method of an address space. -/
def withPageTable {α : Type} (m : MemoryState) (id : SpaceId) (space : AddressSpace)
    (c : Comp Panic (PagingState ProxyAllocator) MappingError α) :
    Except Panic (Except MappingError α × MemoryState) :=
  match c (m.paging space) with
  | .ok (r, s) => .ok (r, m.put id space s)
  | .error p => .error p

/-- Record a range in the tracker under an address space. -/
def track (m : MemoryState) (space : AddressSpace) (name : String) (pages : PageRange) :
    MemoryState :=
  { m with
    tracker := Function.update m.tracker (space.name, space.frame)
      (some (((m.tracker (space.name, space.frame)).getD []) ++ [(name, pages)])) }

/-- Record a range if the call before succeeded. -/
def trackOnOk (space : AddressSpace) (name : String) (pages : PageRange) :
    Except MappingError Unit × MemoryState → Except MappingError Unit × MemoryState
  | (.ok _, m) => (.ok (), m.track space name pages)
  | (.error e, m) => (.error e, m)

/-- `AddressSpace::map_pages`. -/
def mapPages (m : MemoryState) (id : SpaceId) (space : AddressSpace) (name : String)
    (pages : PageRange) (flags : PageTableFlags) :
    Except Panic (Except MappingError Unit × MemoryState) :=
  (m.withPageTable id space (mapPagesLoop space.frame flags pages.pages)).map
    (trackOnOk space name pages)

/-- `AddressSpace::map_pages_untracked`. -/
def mapPagesUntracked (m : MemoryState) (id : SpaceId) (space : AddressSpace)
    (pages : PageRange) (flags : PageTableFlags) :
    Except Panic (Except MappingError Unit × MemoryState) :=
  m.withPageTable id space (mapPagesUntrackedLoop space.frame flags pages.pages)

/-- `AddressSpace::set_flags`. -/
def setFlags (m : MemoryState) (id : SpaceId) (space : AddressSpace) (pages : PageRange)
    (flags : PageTableFlags) : Except Panic (Except MappingError Unit × MemoryState) :=
  m.withPageTable id space (Level4PageTable.setFlags space.frame pages flags)

/-- `AddressSpace::map_kernel_pages_to`. -/
def mapKernelPagesTo (m : MemoryState) (id : SpaceId) (space : AddressSpace)
    (kernelPages localPages : PageRange) (flags : PageTableFlags) :
    Except Panic (Except MappingError Unit × MemoryState) := do
  if kernelPages.pages.length ≠ localPages.pages.length then .error .pageCounts
  else if id = .kernel ∧ localPages.pages ≠ [] then .error .pageTableLocked
  else
    let kernel ← m.kernelAddressSpace
    m.withPageTable id space
      (mapKernelPagesLoop kernel.frame space.frame flags (localPages.pages.zip kernelPages.pages))

/-- `KernelMapping::map_into`. -/
def mapInto (m : MemoryState) (id : SpaceId) (space : AddressSpace) (mapping : KernelMapping)
    (pages : PageRange) (flags : PageTableFlags) :
    Except Panic (Except MappingError Unit × MemoryState) :=
  (m.mapKernelPagesTo id space mapping.pages pages flags).map
    (trackOnOk space mapping.name pages)

/-- `Drop for AddressSpace`, which also drops its proxy. -/
def dropSpace (m : MemoryState) (id : SpaceId) (space : AddressSpace) : MemoryState :=
  { m with
    frameAllocator := space.frameAllocator.drop m.frameAllocator
    spaces := Function.update m.spaces id none
    tracker := Function.update m.tracker (space.name, space.frame) none }

/-- A call on an address space. -/
inductive Op where
  | newSpace (i : ℕ) (name : String)
  | mapPages (id : SpaceId) (name : String) (pages : PageRange) (flags : PageTableFlags)
  | mapPagesUntracked (id : SpaceId) (pages : PageRange) (flags : PageTableFlags)
  | mapInto (id : SpaceId) (mapping : KernelMapping) (pages : PageRange) (flags : PageTableFlags)
  | setFlags (id : SpaceId) (pages : PageRange) (flags : PageTableFlags)
  | drop (i : ℕ)

/-- Do something with an address space if it exists. -/
def onSpace (m : MemoryState) (id : SpaceId)
    (f : AddressSpace → Except Panic (Except MappingError Unit × MemoryState)) :
    Except Panic MemoryState :=
  match m.spaces id with
  | some space => (f space).map Prod.snd
  | none => .ok m

/-- The memory after a call; a recoverable error leaves what the call did before it.  Only the
address spaces of processes come and go, and calls on one that does not exist do nothing. -/
def step (m : MemoryState) : Op → Except Panic MemoryState
  | .newSpace i name =>
    match m.spaces (.process i) with
    | some _ => .ok m
    | none => m.newSpace (.process i) name none
  | .mapPages id name pages flags => m.onSpace id fun a => m.mapPages id a name pages flags
  | .mapPagesUntracked id pages flags => m.onSpace id fun a => m.mapPagesUntracked id a pages flags
  | .mapInto id mapping pages flags => m.onSpace id fun a => m.mapInto id a mapping pages flags
  | .setFlags id pages flags => m.onSpace id fun a => m.setFlags id a pages flags
  | .drop i =>
    match m.spaces (.process i) with
    | some a => .ok (m.dropSpace (.process i) a)
    | none => .ok m

end MemoryState

end Rhubarb
