import Rhubarb.Elf.Format
import Rhubarb.Loader.Names
import Rhubarb.Kernel.UserMemory

/-!
The loader's objects, sections and maps (`kernel/src/loader.rs`).

A section is immutable once it is loaded, so the maps hold the sections themselves; a section is
told apart from all others by the object it belongs to and its index.  Objects are numbered as
they are published, and a `Weak` reference can be upgraded as long as an object of the map
`objects` holds the section, as its own or as a dependency.  The order a hash map is iterated in
is arbitrary, and so are the addresses of the buffers objects are read into.

* `State`, `Load`: the loader with the kernel's memory, and the computations over it.
* `State.upgrades`: whether a reference to a section can be upgraded.
* `State.getTextSection`, `State.getSectionForAddr`, `State.addSections`: the maps.
-/

namespace Rhubarb.Loader

open Foundations Comp

/-! ### Panics and arithmetic -/

/-- Where the loader panics. -/
inductive Panic where
  /-- A panic of the ELF reader. -/
  | elf (p : Elf.Panic)
  /-- A panic of the kernel's memory. -/
  | memory (p : Rhubarb.Panic)
  /-- `next_multiple_of(0)`. -/
  | alignZero
  /-- `assert!(offset < mapping.size())`. -/
  | offsetBounds
  /-- `from_raw_parts_mut` behind the assertion of `as_slice_mut`, whose sum wraps: no slice is
  longer than the address space. -/
  | sliceLength
  /-- `copy_from_slice`: the lengths differ. -/
  | copyLength
  /-- `get_or_load_section`: `unreachable!()`. -/
  | aliasMissing
  /-- `&symbol_table[..]`: out of bounds. -/
  | symbolIndex
  /-- `&mut target_slice[target_range]`: out of bounds. -/
  | relocationRange
  /-- `InitFileSystem::read`: the path does not start with `/` or does not end with `.o`. -/
  | path
  /-- `run_user_process`: `load_object(..).unwrap()`. -/
  | loadObject
  /-- `run_user_process`: the section of the entry point is missing. -/
  | entryPoint
  /-- Not an end of the program: the bound on nested loads was reached. -/
  | depth
  deriving DecidableEq, Repr

/-- `usize::next_multiple_of`, which wraps. -/
def nextMultipleOf (n align : ℕ) : Except Panic ℕ :=
  if align = 0 then .error .alignZero
  else .ok (if n % align = 0 then n else wrappingAdd n (align - n % align))

/-! ### Sections and objects -/

/-- `SectionKind`. -/
inductive SectionKind where
  | text
  | rodata
  | data
  | bss
  | tlsData
  | tlsBss
  | gccExceptTable
  | ehFrame
  deriving DecidableEq, Repr

/-- `SectionKind::name`. -/
def SectionKind.name : SectionKind → String
  | text => ".text"
  | rodata => ".rodata"
  | data => ".data"
  | bss => ".bss"
  | tlsData => ".tdata"
  | tlsBss => ".tbss"
  | gccExceptTable => ".gcc_except_table"
  | ehFrame => ".eh_frame"

/-- `LoadedSection`, with the number of its object and its index there. -/
structure LoadedSection where
  name : Str
  kind : SectionKind
  global : Bool
  size : ℕ
  addr : Address
  mapping : KernelMapping
  mappingOffset : ℕ
  owner : ℕ
  index : ℕ

/-- What tells a section apart. -/
def LoadedSection.id (s : LoadedSection) : ℕ × ℕ := (s.owner, s.index)

/-- `Dependency`. -/
structure Dependency where
  target : LoadedSection
  source : LoadedSection

/-- `SectionMappings`. -/
structure SectionMappings where
  executable : Option KernelMapping
  readOnly : Option KernelMapping
  readWrite : Option KernelMapping

/-- `LoadedObject`, with the name it is loaded under. -/
structure LoadedObject where
  name : Str
  sections : List (ℕ × LoadedSection)
  dependencies : List Dependency
  mappings : SectionMappings

/-! ### Maps -/

/-- `HashMap::get`. -/
def lookup {κ ν : Type} [DecidableEq κ] (m : List (κ × ν)) (k : κ) : Option ν :=
  (m.find? fun e => e.1 = k).map (·.2)

/-- `HashMap::insert`. -/
def insertKey {κ ν : Type} [DecidableEq κ] (k : κ) (v : ν) : List (κ × ν) → List (κ × ν)
  | [] => [(k, v)]
  | e :: m => if e.1 = k then (k, v) :: m else e :: insertKey k v m

/-- `BTreeMap::insert`, by the order of the keys `(addr, size)`. -/
def insertRange (k : ℕ × ℕ) (v : LoadedSection) :
    List ((ℕ × ℕ) × LoadedSection) → List ((ℕ × ℕ) × LoadedSection)
  | [] => [(k, v)]
  | e :: m =>
    if k.1 < e.1.1 ∨ k.1 = e.1.1 ∧ k.2 < e.1.2 then (k, v) :: e :: m
    else if e.1 = k then (k, v) :: m
    else e :: insertRange k v m

/-- An order a hash map is iterated in. -/
structure HashOrder (α : Type) where
  order : List α → List α
  perm : ∀ m, (order m).Perm m

/-! ### The loader -/

/-- What the loader is given: the objects of the boot image, the addresses of the buffers they are
read into, the demangler, the alphanumeric characters and the orders of the hash maps. -/
structure Env where
  files : List (Str × List UInt8)
  bufferAddr : ℕ → ℕ
  demangle : Str → Str
  alphanumeric : Str → Bool
  byName : HashOrder (Str × LoadedSection)
  byIndex : HashOrder (ℕ × LoadedSection)

/-- The loader, the kernel's memory and what is in it, and the page the next mapping goes to. -/
structure State where
  kernel : KernelMemory
  contents : ℕ → UInt8
  instances : List LoadedObject
  objects : List (Str × ℕ)
  sections : List (Str × LoadedSection)
  sectionsByAddr : List ((ℕ × ℕ) × LoadedSection)
  startPage : Page
  reads : ℕ

/-- A computation of the loader. -/
abbrev Load : Type → Type := Comp Panic State String

/-- A function of the ELF reader is called. -/
def elf {α : Type} (x : Except Elf.Panic (Except String α)) : Load α := fun s =>
  match x with
  | .ok r => .ok (r, s)
  | .error p => .error (.elf p)

/-- A part of the loader that only looks at an object file. -/
def ofResult {α : Type} (x : Except Panic (Except String α)) : Load α := fun s =>
  match x with
  | .ok r => .ok (r, s)
  | .error p => .error p

/-- A function of the kernel's memory is called. -/
def onKernel {α : Type} (f : KernelMemory → Except Rhubarb.Panic (α × KernelMemory)) : Load α :=
  fun s =>
    match f s.kernel with
    | .ok (a, k) => .ok (.ok a, { s with kernel := k })
    | .error p => .error (.memory p)

/-- An operation on addresses. -/
def onAddress {α : Type} (x : Except Rhubarb.Panic α) : Load α := fun s =>
  match x with
  | .ok a => .ok (.ok a, s)
  | .error p => .error (.memory p)

/-- `KernelMapping::as_slice_mut`: where the slice starts. -/
def asSliceMut (k : KernelMemory) (mapping : KernelMapping) (offset len : ℕ) :
    Except Rhubarb.Panic Address := do
  let kernel ← k.memory.kernelAddressSpace
  if k.memory.isCurrent kernel = false then .error .kernelSpaceNotCurrent
  else if mapping.size < wrappingAdd offset len then .error .sliceBounds
  else mapping.addr.add offset

/-- A slice of a mapping. -/
def sliceOf (mapping : KernelMapping) (offset len : ℕ) : Load Address := do
  let addr ← onKernel fun k => do
    let addr ← asSliceMut k mapping offset len
    .ok (addr, k)
  if usizeRange ≤ offset + len then panic .sliceLength else pure addr

/-- Bytes are written to the memory of a mapping. -/
def write (addr : Address) (bytes : List UInt8) : Load Unit :=
  modify fun s => { s with contents := store s.contents addr.toRaw bytes }

section Calls

variable {α : Type} {s s' : State}

variable {r : Except String α} {x : Except Panic (Except String α)}

lemma ofResult_eq_ok (h : ofResult x s = .ok (r, s')) : x = .ok r ∧ s' = s := by
  cases x with
  | ok r' =>
    cases h
    exact ⟨rfl, rfl⟩
  | error p => cases h

lemma ofResult_of_ok (h : x = .ok r) (s : State) : ofResult x s = .ok (r, s) := by
  rw [h]
  rfl

lemma onAddress_eq_ok {x : Except Rhubarb.Panic α} (h : onAddress x s = .ok (r, s')) :
    ∃ a, r = .ok a ∧ x = .ok a ∧ s' = s := by
  cases x with
  | ok a =>
    cases h
    exact ⟨a, rfl, rfl, rfl⟩
  | error p => cases h

lemma onKernel_eq_ok {f : KernelMemory → Except Rhubarb.Panic (α × KernelMemory)}
    (h : onKernel f s = .ok (r, s')) :
    ∃ a k, r = .ok a ∧ f s.kernel = .ok (a, k) ∧ s' = { s with kernel := k } := by
  match hf : f s.kernel with
  | .ok (a, k) =>
    rw [onKernel, hf] at h
    cases h
    exact ⟨a, k, rfl, rfl, rfl⟩
  | .error p =>
    rw [onKernel, hf] at h
    cases h

lemma asSliceMut_eq_ok {k : KernelMemory} {mapping : KernelMapping} {offset len : ℕ}
    {addr : Address} (h : asSliceMut k mapping offset len = .ok addr) :
    wrappingAdd offset len ≤ mapping.size ∧ mapping.addr.add offset = .ok addr := by
  obtain ⟨kernel, -, h⟩ := ok_of_bind h
  split_ifs at h with _ hfits
  exact ⟨not_lt.mp hfits, h⟩

end Calls

namespace State

/-- `Loader::get_object`. -/
def getObject (s : State) (name : Str) : Option ℕ := lookup s.objects name

/-- The object with a number holds a section, as its own or as a dependency. -/
def holds (s : State) (o : ℕ) (sec : LoadedSection) : Bool :=
  sec.owner = o ∨ s.instances[o]?.any fun object =>
    object.dependencies.any fun d => d.source.id = sec.id ∨ d.target.id = sec.id

/-- `Weak::upgrade` of a reference to a section. -/
def upgrades (s : State) (sec : LoadedSection) : Bool := s.objects.any fun e => s.holds e.2 sec

/-- `Loader::get_text_section`. -/
def getTextSection (s : State) (order : HashOrder (Str × LoadedSection)) (start stop : Str) :
    Option LoadedSection :=
  ((order.order s.sections).find? fun e =>
    s.upgrades e.2 ∧ e.2.kind = .text ∧ startsWith e.1 start ∧ endsWith e.1 stop).map (·.2)

/-- The search of `Loader::get_section_for_addr`. -/
def findAddr (addr : Address) : List ((ℕ × ℕ) × LoadedSection) →
    Except Rhubarb.Panic (Option LoadedSection)
  | [] => .ok none
  | e :: m =>
    if e.1.1 ≤ addr.toRaw then do
      let stop ← (Address.mk e.1.1).add e.1.2
      if addr.toRaw < stop.toRaw then .ok (some e.2) else findAddr addr m
    else findAddr addr m

/-- `Loader::get_section_for_addr`. -/
def getSectionForAddr (s : State) (addr : Address) :
    Except Rhubarb.Panic (Option LoadedSection) := findAddr addr s.sectionsByAddr

/-- A section becomes known by its addresses and, if it is global, by its name. -/
def addSection (s : State) (sec : LoadedSection) : State :=
  { s with
    sectionsByAddr := insertRange (sec.addr.toRaw, sec.size) sec s.sectionsByAddr
    sections := if sec.global then insertKey sec.name sec s.sections else s.sections }

/-- `Loader::add_sections`. -/
def addSections (s : State) (secs : List LoadedSection) : State := secs.foldl addSection s

/-- `load_object_impl`: the sections of a new object and the object become known. -/
def publish (s : State) (order : HashOrder (ℕ × LoadedSection)) (object : LoadedObject) : State :=
  let s' := s.addSections ((order.order object.sections).map (·.2))
  { s' with
    instances := s.instances ++ [object]
    objects := insertKey object.name s.instances.length s.objects }

/-- `object.dependencies.insert(..)`: a dependency on a section of the same name stays. -/
def addDependency (s : State) (o : ℕ) (d : Dependency) : State :=
  { s with
    instances := s.instances.modify o fun object =>
      if object.dependencies.any fun d' => d'.source.name = d.source.name then object
      else { object with dependencies := object.dependencies ++ [d] } }

end State

end Rhubarb.Loader
