import Rhubarb.Memory.KernelMapping
import Rhubarb.Kernel.ShellQueue

/-!
The memory of the user processes: how the scheduler and the loader set an address space up,
what the page-fault handler adds to it, and what is left when the process is dropped
(`kernel/src/scheduler.rs`, `kernel/src/loader.rs`, `kernel/src/idt.rs`).

An object is seen as the lengths of its three mappings and the sections in them; what is read
from its ELF file, and the relocations, do not matter to the address spaces.  A `Weak` reference
to a section is upgraded or not, as an input of the step says.

* `loadObject`, `runUserProcess`: `load_object` down to the mappings, and the process it is for.
* `pageFault`: `__page_fault_handler` for a fault in user mode.
* `KernelState.step`: what happens to the processes, one call of the kernel after another.
-/

namespace Rhubarb

open Foundations

/-! ### Objects and their sections -/

/-- The three mappings of an object. -/
inductive ObjectPart where
  | executable
  | readOnly
  | readWrite
  deriving DecidableEq, Repr

namespace ObjectPart

/-- What the name of the mapping ends with. -/
def suffix : ObjectPart → String
  | executable => ".x"
  | readOnly => ".r"
  | readWrite => ".w"

/-- The flags of `allocate_section_mappings`. -/
def flags : ObjectPart → PageTableFlags
  | executable => PageTableFlags.present.or .userAccessible
  | readOnly => (PageTableFlags.present.or .userAccessible).or .noExecute
  | readWrite => ((PageTableFlags.present.or .userAccessible).or .writable).or .noExecute

end ObjectPart

/-- What is read from an object about one of its sections. -/
structure SectionImage where
  name : String
  part : ObjectPart
  offset : ℕ
  size : ℕ

/-- What is read from an object: the lengths of its mappings, and its sections. -/
structure ObjectImage where
  name : String
  len : ObjectPart → ℕ
  sections : List SectionImage

/-- `KernelMapping::addr`. -/
def KernelMapping.addr (mapping : KernelMapping) : Address := mapping.pages.start.baseAddr

/-- `LoadedSection`, with the name of the object it belongs to; it lies within its mapping. -/
structure LoadedSection where
  name : String
  addr : Address
  size : ℕ
  mapping : KernelMapping
  mappingOffset : ℕ
  owner : String
  addr_eq : mapping.addr.add mappingOffset = .ok addr
  within : mappingOffset + size ≤ mapping.size

namespace LoadedSection

/-- A section is loaded.  `as_slice_mut` asserts that it fits; for `.text` the mapping is as
long as the last section needs. -/
def load (owner : String) (mapping : KernelMapping) (image : SectionImage) :
    Except Panic LoadedSection :=
  match haddr : mapping.addr.add image.offset with
  | .error p => .error p
  | .ok addr =>
    if hfits : image.offset + image.size ≤ mapping.size then
      .ok ⟨image.name, addr, image.size, mapping, image.offset, owner, haddr, hfits⟩
    else .error .sliceBounds

/-- The order of `sections_by_addr`. -/
def before (a b : LoadedSection) : Bool :=
  a.addr.toRaw < b.addr.toRaw ∨ a.addr.toRaw = b.addr.toRaw ∧ a.size < b.size

/-- A section is inserted into `sections_by_addr`; one with the same key is replaced. -/
def insert (s : LoadedSection) : List LoadedSection → List LoadedSection
  | [] => [s]
  | t :: ts =>
    if s.before t then s :: t :: ts
    else if t.before s then t :: insert s ts
    else s :: ts

end LoadedSection

/-- `Loader::get_section_for_addr`. -/
def getSectionForAddr (addr : Address) : List LoadedSection → Except Panic (Option LoadedSection)
  | [] => .ok none
  | s :: ss =>
    if s.addr.toRaw ≤ addr.toRaw then do
      let stop ← s.addr.add s.size
      if addr.toRaw < stop.toRaw then .ok (some s) else getSectionForAddr addr ss
    else getSectionForAddr addr ss

/-- The sections of an object become known; those of a mapping that was not needed are passed
over. -/
def addSections (owner : String) (mappings : ObjectPart → Option KernelMapping) :
    List SectionImage → List LoadedSection → Except Panic (List LoadedSection)
  | [], known => .ok known
  | image :: images, known =>
    match mappings image.part with
    | none => addSections owner mappings images known
    | some mapping => do
      let s ← LoadedSection.load owner mapping image
      addSections owner mappings images (s.insert known)

/-! ### Loading -/

namespace KernelMemory

/-- The address space of a process. -/
def space (k : KernelMemory) (i : ℕ) : Except Panic AddressSpace :=
  match k.memory.spaces (.process i) with
  | some a => .ok a
  | none => .error .noRunningProcess

/-- `kernel_address_space().enter()`. -/
def enterKernel (k : KernelMemory) : Except Panic KernelMemory := do
  let kernel ← k.memory.kernelAddressSpace
  .ok { k with memory := { k.memory with cr3 := kernel.frame } }

/-- `AddressSpace::new(name, None)`. -/
def newSpace (k : KernelMemory) (i : ℕ) (name : String) : Except Panic KernelMemory := do
  let memory ← k.memory.newSpace (.process i) name none
  .ok { k with memory }

/-- A process, and with it its address space, is dropped. -/
def dropSpace (k : KernelMemory) (i : ℕ) : Except Panic KernelMemory := do
  let space ← k.space i
  .ok { k with memory := k.memory.dropSpace (.process i) space }

/-- `KernelMapping::map_into` the address space of a process. -/
def mapInto (k : KernelMemory) (i : ℕ) (mapping : KernelMapping) (pages : PageRange)
    (flags : PageTableFlags) : Except Panic (Except MappingError Unit × KernelMemory) := do
  let space ← k.space i
  let (res, memory) ← k.memory.mapInto (.process i) space mapping pages flags
  .ok (res, { k with memory })

/-- `AddressSpace::set_flags` on the address space of a process. -/
def setFlags (k : KernelMemory) (i : ℕ) (pages : PageRange) (flags : PageTableFlags) :
    Except Panic (Except MappingError Unit × KernelMemory) := do
  let space ← k.space i
  let (res, memory) ← k.memory.setFlags (.process i) space pages flags
  .ok (res, { k with memory })

/-- One mapping of `allocate_section_mappings`. -/
def newPart (k : KernelMemory) (image : ObjectImage) (part : ObjectPart) :
    Except Panic (Option KernelMapping × KernelMemory) :=
  if 0 < image.len part then do
    let (mapping, k) ← KernelMapping.new k (image.name ++ part.suffix) (image.len part) part.flags
    .ok (some mapping, k)
  else .ok (none, k)

/-- One mapping of an object is mapped into the address space it is loaded for. -/
def mapPart (k : KernelMemory) (i : ℕ) (start : Page) :
    Option KernelMapping → Except Panic (Page × KernelMemory)
  | none => .ok (start, k)
  | some mapping => do
    let pages ← PageRange.fromStartLen start mapping.pages.len
    match ← k.mapInto i mapping pages (PageTableFlags.present.or .userAccessible) with
    | (.ok _, k) => .ok (pages.stop, k)
    | (.error _, _) => .error .mapSections

end KernelMemory

/-- The mappings of an object, by their part. -/
def objectMappings (x r w : Option KernelMapping) : ObjectPart → Option KernelMapping
  | .executable => x
  | .readOnly => r
  | .readWrite => w

/-- `Loader::load_object_sections` and `add_sections`; with the sections comes the page after the
last one that was mapped. -/
def loadObject (i : ℕ) (image : ObjectImage) (start : Page) (k : KernelMemory)
    (known : List LoadedSection) : Except Panic (Page × KernelMemory × List LoadedSection) := do
  let (x, k) ← k.newPart image .executable
  let (r, k) ← k.newPart image .readOnly
  let (w, k) ← k.newPart image .readWrite
  let (start, k) ← k.mapPart i start x
  let (start, k) ← k.mapPart i start r
  let (start, k) ← k.mapPart i start w
  let known ← addSections image.name (objectMappings x r w) image.sections known
  .ok (start, k, known)

/-- `Loader::load_object`: the object and, while it is relocated, the objects it needs that are
not loaded yet, in that order. -/
def loadObjects (i : ℕ) : List ObjectImage → Page → KernelMemory → List LoadedSection →
    Except Panic (KernelMemory × List LoadedSection)
  | [], _, k, known => .ok (k, known)
  | image :: images, start, k, known => do
    let (start, k, known) ← loadObject i image start k known
    loadObjects i images start k known

/-! ### Processes -/

/-- What a process has besides its address space and its context. -/
structure UserProcess where
  id : ℕ
  name : String
  accessPolicy : AccessPolicy
  heapMapping : Option KernelMapping

/-- `DEFAULT_USER_STACK_SIZE`. -/
def defaultUserStackSize : ℕ := pageSize * 16

/-- The flags of a user stack and of a heap. -/
def userDataFlags : PageTableFlags :=
  ((PageTableFlags.present.or .writable).or .userAccessible).or .noExecute

/-- The stack of a process, below its code. -/
def KernelMemory.mapStack (k : KernelMemory) (i id : ℕ) (stackSize : Option ℕ) :
    Except Panic KernelMemory := do
  let pages ← PageRange.fromEndSize AddressDomain.userCode.baseAddr.page
    (stackSize.getD defaultUserStackSize)
  let space ← k.space i
  match ← k.memory.mapPages (.process i) space ("user_stack." ++ toString id) pages
      userDataFlags with
  | (.ok _, memory) => .ok { k with memory }
  | (.error _, _) => .error .mapStack

/-- The address space `Scheduler::run_user_process` makes. -/
def userSpace (k : KernelMemory) (known : List LoadedSection) (i id : ℕ) (name : String)
    (stackSize : Option ℕ) (images : List ObjectImage) :
    Except Panic (KernelMemory × List LoadedSection) := do
  let k ← k.newSpace i (name ++ "." ++ toString id)
  let (k, known) ← loadObjects i images AddressDomain.userCode.baseAddr.page k known
  let k ← k.mapStack i id stackSize
  .ok (k, known)

/-! ### Page faults -/

/-- Which weak references can be upgraded: those to a section, and those from a section to its
object. -/
structure WeakRefs where
  toSection : LoadedSection → Bool
  toOwner : LoadedSection → Bool

/-- How the handler ends. -/
inductive FaultResult where
  | resume
  | block (addr : ℕ) (moduleName sectionName : String)
  | exit (code : ℤ)
  deriving DecidableEq, Repr

/-- The pages of the heap are not mapped yet: `KernelMapping::new` and `map_into`. -/
def createHeap (k : KernelMemory) (i : ℕ) (process : UserProcess) (pages : PageRange) :
    Except Panic (FaultResult × UserProcess × KernelMemory) := do
  let (mapping, k) ← KernelMapping.new k ("user_heap." ++ process.name)
    (pages.len * pageSize % usizeRange) userDataFlags
  match ← k.mapInto i mapping pages userDataFlags with
  | (.ok _, k) => .ok (.resume, { process with heapMapping := some mapping }, k)
  | (.error _, k) => .ok (.exit (-7), process, k)

/-- The heap gets the pages up to a new end: `KernelMapping::extend`. -/
def extendHeap (k : KernelMemory) (i : ℕ) (process : UserProcess) (mapping : KernelMapping)
    (pages : PageRange) : Except Panic (FaultResult × UserProcess × KernelMemory) := do
  let space ← k.space i
  if pages.len = 0 then .error .heapExtension
  else
    let (res, mapping, k) ← mapping.extend k (.process i) space pages
    let process := { process with heapMapping := some mapping }
    match res with
    | .ok _ => .ok (.resume, process, k)
    | .error _ => .ok (.exit (-7), process, k)

/-- The first page of the heap. -/
def heapBasePage : Page := AddressDomain.userHeap.baseAddr.page

/-- A fault in the heap. -/
def heapFault (k : KernelMemory) (i : ℕ) (process : UserProcess) (addr : Address) :
    Except Panic (FaultResult × UserProcess × KernelMemory) := do
  let heapOffset ← addr.sub AddressDomain.userHeap.baseAddr
  if gibibyte ≤ heapOffset.toRaw then .ok (.exit (-7), process, k)
  else
    let newHeapEndPage ← addr.page.add 1
    match process.heapMapping with
    | some mapping => do
      let currentHeapEndPage ← heapBasePage.add mapping.pages.len
      extendHeap k i process mapping ⟨currentHeapEndPage, newHeapEndPage⟩
    | none => createHeap k i process ⟨heapBasePage, newHeapEndPage⟩

/-- `MemoryTracker::get_pci_bar`. -/
def getPciBar (bars : List PageRange) (addr : Address) : Option PageRange :=
  bars.find? fun pages =>
    pages.start.number ≤ addr.page.number ∧ addr.page.number < pages.stop.number

/-- The pages and flags of a grant, for an address of no section: those of the framebuffer, of a
PCI BAR, or of the one page of a physical address. -/
def grantFor (framebuffer : Option KernelMapping) (bars : List PageRange) (addr : Address) :
    Except Panic (Option (PageRange × PageTableFlags)) :=
  match framebuffer with
  | none => .error .noFramebuffer
  | some fb =>
    if fb.addr.toRaw ≤ addr.toRaw ∧ addr.toRaw < wrappingAdd fb.addr.toRaw fb.size then
      .ok (some (fb.pages, fb.flags.or .userAccessible))
    else
      match getPciBar bars addr with
      | some pages =>
        .ok (some (pages, (PageTableFlags.present.or .writable).or .userAccessible))
      | none =>
        if addr.domain = .physical then do
          let pages ← PageRange.fromStartLen addr.page 1
          .ok (some (pages, (PageTableFlags.present.or .writable).or .userAccessible))
        else .ok none

/-- A fault at an address of no section. -/
def grantFault (k : KernelMemory) (framebuffer : Option KernelMapping) (bars : List PageRange)
    (i : ℕ) (addr : Address) : Except Panic (FaultResult × KernelMemory) := do
  match ← grantFor framebuffer bars addr with
  | none => .ok (.exit (-2), k)
  | some (pages, flags) =>
    match ← k.setFlags i pages flags with
    | (.ok _, k) => .ok (.resume, k)
    | (.error _, k) => .ok (.exit (-2), k)

/-- A fault at an address of a section. -/
def sectionFault (k : KernelMemory) (i : ℕ) (process : UserProcess) (addr : Address)
    (s : LoadedSection) (weak : WeakRefs) : Except Panic (FaultResult × KernelMemory) :=
  match process.accessPolicy with
  | .all => do
    match ← k.mapInto i s.mapping s.mapping.pages s.mapping.flags with
    | (.ok _, k) => .ok (.resume, k)
    | (.error _, k) => .ok (.exit (-2), k)
  | .normal =>
    if weak.toOwner s then .ok (.block addr.toRaw s.owner s.name, k)
    else .error .ownerDropped

/-! ### The kernel's state -/

/-- A message `AllowModuleAccess` that the kernel has handled, with the section it was for. -/
structure Approval where
  processId : ℕ
  loadedSection : LoadedSection

/-- The memory, the known sections and the processes.  A process keeps its number, under which
its address space is found; `blocked` are the numbers of those that wait for the shell. -/
structure KernelState where
  kernel : KernelMemory
  sections : List LoadedSection
  framebuffer : Option KernelMapping
  pciBars : List PageRange
  processes : ℕ → Option UserProcess
  blocked : List ℕ
  nextProcess : ℕ
  processId : ℕ
  approvals : List Approval

/-- What the kernel does for the processes. -/
inductive KernelEvent where
  | loadObject (spaceName : String) (images : List ObjectImage)
  | idle
  | startProcess (name : String) (accessPolicy : AccessPolicy) (images : List ObjectImage)
  | pageFault (i : ℕ) (cr2 : ℕ) (weak : WeakRefs)
  | exit (i : ℕ)
  | exitProcess
  | allowModuleAccess (addr : ℕ) (processId : ℕ) (weak : WeakRefs)

namespace KernelState

/-- The section of an address, if there is one that has not been dropped. -/
def sectionAt (s : KernelState) (addr : Address) (weak : WeakRefs) :
    Except Panic (Option LoadedSection) := do
  let found ← getSectionForAddr addr s.sections
  .ok (found.filter weak.toSection)

/-- `__page_fault_handler`, for a fault in user mode; `cr2` is the address that was accessed. -/
def pageFault (s : KernelState) (i : ℕ) (process : UserProcess) (cr2 : ℕ) (weak : WeakRefs) :
    Except Panic (FaultResult × KernelState) :=
  let addr := Address.new cr2
  if addr.domain = .invalid then .ok (.exit (-17), s)
  else if addr.domain = .userHeap then do
    let (res, process, kernel) ← heapFault s.kernel i process addr
    .ok (res, { s with kernel, processes := Function.update s.processes i (some process) })
  else do
    match ← s.sectionAt addr weak with
    | none => do
      let (res, kernel) ← grantFault s.kernel s.framebuffer s.pciBars i addr
      .ok (res, { s with kernel })
    | some sec => do
      let (res, kernel) ← sectionFault s.kernel i process addr sec weak
      .ok (res, { s with kernel })

/-- `global_loader().load_object(..)` for an address space that is dropped afterwards. -/
def loadObject (s : KernelState) (spaceName : String) (images : List ObjectImage) :
    Except Panic KernelState := do
  let kernel ← s.kernel.enterKernel
  let kernel ← kernel.newSpace s.nextProcess spaceName
  let (kernel, sections) ← loadObjects s.nextProcess images heapBasePage kernel s.sections
  let kernel ← kernel.dropSpace s.nextProcess
  .ok { s with kernel, sections }

/-- A process is added under the next number. -/
def addProcess (s : KernelState) (process : UserProcess) : KernelState :=
  { s with
    processes := Function.update s.processes s.nextProcess (some process)
    nextProcess := s.nextProcess + 1 }

/-- `Scheduler::init` adds the idle process. -/
def idle (s : KernelState) : Except Panic KernelState := do
  let kernel ← s.kernel.enterKernel
  let kernel ← kernel.newSpace s.nextProcess "idle"
  .ok (addProcess { s with kernel } ⟨0, "idle", .all, none⟩)

/-- `Scheduler::run_user_process`. -/
def runUserProcess (s : KernelState) (name : String) (stackSize : Option ℕ)
    (accessPolicy : AccessPolicy) (images : List ObjectImage) : Except Panic KernelState := do
  let kernel ← s.kernel.enterKernel
  let (kernel, sections) ←
    userSpace kernel s.sections s.nextProcess s.processId name stackSize images
  .ok (addProcess { s with kernel, sections, processId := (s.processId + 1) % usizeRange }
    ⟨s.processId, name, accessPolicy, none⟩)

/-- A process is dropped. -/
def dropProcess (s : KernelState) (i : ℕ) : Except Panic KernelState := do
  let kernel ← s.kernel.enterKernel
  let kernel ← kernel.dropSpace i
  .ok { s with kernel, processes := Function.update s.processes i none }

/-- The process that has waited longest. -/
def popBlocked (s : KernelState) : Except Panic (ℕ × UserProcess × KernelState) :=
  match s.blocked with
  | [] => .error .noBlockedProcess
  | i :: blocked =>
    match s.processes i with
    | none => .error .noBlockedProcess
    | some process => .ok (i, process, { s with blocked })

/-- `schedule_next` on `AllowModuleAccess`: a process that cannot be given the section is
dropped. -/
def allowModuleAccess (s : KernelState) (addr : ℕ) (processId : ℕ) (weak : WeakRefs) :
    Except Panic KernelState := do
  let kernel ← s.kernel.enterKernel
  let (i, process, s) ← popBlocked { s with kernel }
  if processId ≠ process.id then .error .processIdMismatch
  else
    match ← s.sectionAt (Address.new addr) weak with
    | none => s.dropProcess i
    | some sec => do
      let (res, kernel) ← s.kernel.mapInto i sec.mapping sec.mapping.pages sec.mapping.flags
      let s := { s with kernel, approvals := ⟨processId, sec⟩ :: s.approvals }
      match res with
      | .ok _ => .ok s
      | .error _ => s.dropProcess i

/-- What happens next.  A fault or an exit of a process that does not run does nothing.  When
the handler ends the process, the exit interrupt finds the context of the fault still saved and
the kernel stops. -/
def step (s : KernelState) : KernelEvent → Except Panic KernelState
  | .loadObject spaceName images => s.loadObject spaceName images
  | .idle => s.idle
  | .startProcess name accessPolicy images => s.runUserProcess name none accessPolicy images
  | .pageFault i cr2 weak =>
    match s.processes i with
    | none => .ok s
    | some process =>
      if i ∈ s.blocked then .ok s
      else do
        match ← s.pageFault i process cr2 weak with
        | (.resume, s) => .ok s
        | (.block _ _ _, s) => .ok { s with blocked := s.blocked ++ [i] }
        | (.exit _, _) => .error .contextNotTaken
  | .exit i => if (s.processes i).isSome ∧ i ∉ s.blocked then s.dropProcess i else .ok s
  | .exitProcess => do
    let (i, _, s) ← s.popBlocked
    s.dropProcess i
  | .allowModuleAccess addr processId weak => s.allowModuleAccess addr processId weak

end KernelState

end Rhubarb
