import Rhubarb.Loader.Objects

/-!
Loading the sections of an object (`kernel/src/loader.rs`).

Two loops go over the section headers.  The first, of `allocate_section_mappings`, finds out how
long the three mappings have to be; the second, of `load_object_sections`, gives each section its
place in them and copies its data there.  They classify the sections in different ways, and each
has its own rule for an empty section that stands for the next one.

* `measured`, `Lens.add`, `sectionLens`: the first loop.
* `placed`, `place`, `loadSection`, `loadSections`: the second loop.
* `allocateSectionMappings`, `loadObjectSections`.
-/

namespace Rhubarb.Loader

open Foundations Comp Elf

/-! ### The flags of a section -/

/-- `section_flags & SHF_ALLOC == 0`. -/
def unallocated (h : SectionHeader) : Bool := h.flags &&& shfAlloc = 0

def isWrite (h : SectionHeader) : Bool := h.flags &&& shfWrite = shfWrite

def isExec (h : SectionHeader) : Bool := h.flags &&& shfExecinstr = shfExecinstr

def isTls (h : SectionHeader) : Bool := h.flags &&& shfTls = shfTls

/-- The header of an empty section is replaced by the next one, if that has the same offset. -/
def followed (file : ElfFile) (index : ℕ) (h : SectionHeader) (text : String) :
    Except Elf.Panic (Except String SectionHeader) := do
  match ← file.getSectionHeader ((index + 1) % 2 ^ 16) with
  | .error _ => .ok (.error text)
  | .ok next => .ok (.ok (if next.offset = h.offset then next else h))

/-! ### The lengths of the mappings -/

/-- The lengths of the three mappings. -/
structure Lens where
  executable : ℕ
  readOnly : ℕ
  readWrite : ℕ
  deriving DecidableEq, Repr

/-- The header the first loop takes the size of a section from. -/
def measured (file : ElfFile) (index : ℕ) (h : SectionHeader) :
    Except Elf.Panic (Except String SectionHeader) := do
  let name ← h.getName file
  if h.size = 0 ∧ name ≠ .ok (str ".text") then
    followed file index h "couldn't get next section for a zero-sized section"
  else .ok (.ok h)

/-- A length grows by a section, behind its padding. -/
def grow (len : ℕ) (sec : SectionHeader) : Except Panic ℕ := do
  let padded ← nextMultipleOf len sec.align.toNat
  .ok (wrappingAdd padded sec.size.toNat)

/-- One section is added to the lengths: its class is by the flags of its own header. -/
def Lens.add (lens : Lens) (h sec : SectionHeader) : Except Panic Lens :=
  if isExec h then do
    let size ← nextMultipleOf sec.size.toNat sec.align.toNat
    .ok { lens with executable := max lens.executable (wrappingAdd sec.offset.toNat size) }
  else if isTls h then
    if sec.isType .progBits then do
      let readOnly ← grow lens.readOnly sec
      .ok { lens with readOnly }
    else .ok lens
  else if isWrite h then do
    let readWrite ← grow lens.readWrite sec
    .ok { lens with readWrite }
  else do
    let readOnly ← grow lens.readOnly sec
    .ok { lens with readOnly }

/-- The loop of `allocate_section_mappings`, from an index on. -/
def measureLoop (file : ElfFile) : ℕ → List SectionHeader → Lens →
    Except Panic (Except String Lens)
  | _, [], lens =>
    match file.sectionIter.stop with
    | none => .ok (.ok lens)
    | some p => .error (.elf p)
  | index, h :: hs, lens =>
    if unallocated h then measureLoop file (index + 1) hs lens
    else
      match measured file index h with
      | .error p => .error (.elf p)
      | .ok (.error e) => .ok (.error e)
      | .ok (.ok sec) => do
        let lens ← lens.add h sec
        measureLoop file (index + 1) hs lens

/-- The lengths of the mappings of an object. -/
def sectionLens (file : ElfFile) : Except Panic (Except String Lens) :=
  measureLoop file 0 file.sectionIter.sections ⟨0, 0, 0⟩

/-- The length of a part. -/
def Lens.of (lens : Lens) : ObjectPart → ℕ
  | .executable => lens.executable
  | .readOnly => lens.readOnly
  | .readWrite => lens.readWrite

/-- A name as the kernel's mappings have it. -/
def Str.text (s : Str) : String := String.ofList (s.map fun b => Char.ofNat b.toNat)

/-- `allocate_section_mappings`. -/
def allocateSectionMappings (name : Str) (file : ElfFile) : Load SectionMappings := do
  let lens ← ofResult (sectionLens file)
  let image : ObjectImage := ⟨Str.text name, lens.of, []⟩
  let executable ← onKernel fun k => k.newPart image .executable
  let readOnly ← onKernel fun k => k.newPart image .readOnly
  let readWrite ← onKernel fun k => k.newPart image .readWrite
  pure ⟨executable, readOnly, readWrite⟩

/-! ### The places of the sections -/

/-- The header the second loop takes the size of a section from. -/
def placed (file : ElfFile) (index : ℕ) (h : SectionHeader) :
    Except Elf.Panic (Except String SectionHeader) :=
  if h.size = 0 then
    followed file index h "couldn't get the section following a zero-sized section"
  else .ok (.ok h)

/-- `rodata_offset` and `data_offset`. -/
structure Cursor where
  rodata : ℕ
  data : ℕ
  deriving DecidableEq, Repr

/-- What the second loop works with. -/
structure Loading where
  file : ElfFile
  mappings : SectionMappings
  globals : List ℕ
  owner : ℕ
  demangle : Str → Str

/-- The data of a section is copied to its place, or zeroes are written there. -/
def copyData (file : ElfFile) (sec : SectionHeader) (slice : Address) (text : String) :
    Load Unit := do
  match ← attempt (elf (sec.getData file)) with
  | .ok (.undefined data) =>
    if data.len ≠ sec.size.toNat then panic .copyLength else write slice data.bytes
  | .ok .empty => write slice (List.replicate sec.size.toNat 0)
  | _ => fail text

/-- A section is put into a mapping, behind its padding: its offset and its address. -/
def place (file : ElfFile) (mapping : KernelMapping) (offset : ℕ) (sec : SectionHeader)
    (text : String) : Load (ℕ × Address) := do
  let offset ← lift (nextMultipleOf offset sec.align.toNat)
  if mapping.size ≤ offset then panic .offsetBounds
  else do
    let addr ← onAddress (mapping.addr.add offset)
    let slice ← sliceOf mapping offset sec.size.toNat
    copyData file sec slice text
    pure (offset, addr)

/-- The symbol of a `.text` section. -/
def textSymbol (global : Bool) (n : Str) : Except String Str :=
  let n := stripDot n
  if global && startsWith n (str "unlikely.") then
    match getFrom n (str "unlikely.").length with
    | some n => .ok n
    | none => .error "failed to get `.text.unlikely.` section's name"
  else .ok n

/-- `.text`: the whole mapping was copied before, only the section is recorded. -/
def loadText (l : Loading) (index : ℕ) (name : Str) (sec : SectionHeader) :
    Load (Option LoadedSection) :=
  match l.mappings.executable with
  | none => pure none
  | some mapping =>
    match symbolNameAfterPrefix name ".text." with
    | .skip => pure none
    | .fail e => fail e
    | .name n => do
      let name ← ofResult (.ok (textSymbol (index ∈ l.globals) n))
      let addr ← onAddress (mapping.addr.add sec.offset.toNat)
      pure (some
        { name := l.demangle name
          kind := .text
          global := index ∈ l.globals
          size := sec.size.toNat
          addr
          mapping
          mappingOffset := sec.offset.toNat
          owner := l.owner
          index })

/-- `.tdata` and `.tbss`: the initialization is left to do, so loading fails. -/
def loadTls (l : Loading) (name : Str) (sec : SectionHeader) (c : Cursor) : Load Unit :=
  match l.mappings.readOnly with
  | none => pure ()
  | some mapping =>
    let isBss := sec.isType .noBits
    match symbolNameAfterPrefix name (if isBss then ".tbss." else ".tdata.") with
    | .skip => pure ()
    | .fail e => fail e
    | .name _ => do
      let offset ← lift (nextMultipleOf c.rodata sec.align.toNat)
      if isBss then fail "TODO: TLS section initialization"
      else do
        let slice ← sliceOf mapping offset sec.size.toNat
        match ← attempt (elf (sec.getData l.file)) with
        | .ok (.undefined data) =>
          if data.len ≠ sec.size.toNat then panic .copyLength
          else do
            write slice data.bytes
            fail "TODO: TLS section initialization"
        | _ => fail "couldn't get data for `.tdata` section"

/-- A section that is put at a cursor into one of the mappings: with it comes the cursor behind
it. -/
def loadInto (l : Loading) (mapping : Option KernelMapping) (index : ℕ) (named : NameAfter)
    (kind : SectionKind) (global : Bool) (sec : SectionHeader) (offset : ℕ) (text : String) :
    Load (ℕ × Option LoadedSection) :=
  match mapping with
  | none => pure (offset, none)
  | some mapping =>
    match named with
    | .skip => pure (offset, none)
    | .fail e => fail e
    | .name name => do
      let (offset, addr) ← place l.file mapping offset sec text
      pure (wrappingAdd offset sec.size.toNat, some
        { name
          kind
          global
          size := sec.size.toNat
          addr
          mapping
          mappingOffset := offset
          owner := l.owner
          index })

/-- The name of a section is made of what comes after a start. -/
def NameAfter.map (f : Str → Str) : NameAfter → NameAfter
  | name n => name (f n)
  | skip => skip
  | fail e => fail e

/-- `.data` and `.bss`. -/
def loadData (l : Loading) (index : ℕ) (name : Str) (sec : SectionHeader) (c : Cursor) :
    Load (Cursor × Option LoadedSection) := do
  let isBss := sec.isType .noBits
  let named := symbolNameAfterPrefix name (if isBss then ".bss." else ".data.")
  let (data, new) ← loadInto l l.mappings.readWrite index (named.map fun n => l.demangle (stripDot n))
    (if isBss then .bss else .data) (index ∈ l.globals) sec c.data
    "couldn't get data for `.data` section"
  pure ({ c with data }, new)

/-- A section of the read-only mapping. -/
def loadReadOnly (l : Loading) (index : ℕ) (named : NameAfter) (kind : SectionKind)
    (global : Bool) (sec : SectionHeader) (c : Cursor) (text : String) :
    Load (Cursor × Option LoadedSection) := do
  let (rodata, new) ← loadInto l l.mappings.readOnly index named kind global sec c.rodata text
  pure ({ c with rodata }, new)

/-- `.rodata`. -/
def loadRodata (l : Loading) (index : ℕ) (name : Str) (sec : SectionHeader) (c : Cursor) :
    Load (Cursor × Option LoadedSection) :=
  loadReadOnly l index ((symbolNameAfterPrefix name ".rodata.").map l.demangle) .rodata
    (index ∈ l.globals) sec c "couldn't get data for `.rodata` section"

/-- `.lrodata`. -/
def loadLrodata (l : Loading) (index : ℕ) (name : Str) (sec : SectionHeader) (c : Cursor) :
    Load (Cursor × Option LoadedSection) :=
  loadReadOnly l index
    ((symbolNameAfterPrefix name ".lrodata.").map fun n => l.demangle (stripDot n)) .rodata
    (index ∈ l.globals) sec c "couldn't get data for `.lrodata` section"

/-- `.gcc_except_table`: the name of the table is ignored. -/
def loadGccExceptTable (l : Loading) (index : ℕ) (sec : SectionHeader) (c : Cursor) :
    Load (Cursor × Option LoadedSection) :=
  loadReadOnly l index (.name (str SectionKind.gccExceptTable.name)) .gccExceptTable false sec c
    "couldn't get data for `.gcc_except_table` section"

/-- `.eh_frame`. -/
def loadEhFrame (l : Loading) (index : ℕ) (sec : SectionHeader) (c : Cursor) :
    Load (Cursor × Option LoadedSection) :=
  loadReadOnly l index (.name (str SectionKind.ehFrame.name)) .ehFrame false sec c
    "couldn't get data for `.eh_frame` section"

/-- One section is loaded, by the flags of its own header and its name. -/
def loadSection (l : Loading) (index : ℕ) (h : SectionHeader) (name : Str) (sec : SectionHeader)
    (c : Cursor) : Load (Cursor × Option LoadedSection) :=
  if isExec h && !isWrite h then do
    let new ← loadText l index name sec
    pure (c, new)
  else if isTls h then do
    loadTls l name sec c
    pure (c, none)
  else if isWrite h then loadData l index name sec c
  else if startsWith name (str ".rodata") then loadRodata l index name sec c
  else if startsWith name (str ".lrodata") then loadLrodata l index name sec c
  else if startsWith name (str ".gcc_except_table") then loadGccExceptTable l index sec c
  else if name = str ".eh_frame" then loadEhFrame l index sec c
  else fail "encountered unhandled section"

/-- The loop of `load_object_sections`, from an index on. -/
def loadSections (l : Loading) : ℕ → List SectionHeader → Cursor → List (ℕ × LoadedSection) →
    Load (List (ℕ × LoadedSection))
  | _, [], _, loaded =>
    match l.file.sectionIter.stop with
    | none => pure loaded
    | some p => panic (.elf p)
  | index, h :: hs, c, loaded =>
    if unallocated h then loadSections l (index + 1) hs c loaded
    else do
      let name ← elf (h.getName l.file)
      let sec ← elf (placed l.file index h)
      let (c, new) ← loadSection l index h name sec c
      loadSections l (index + 1) hs c (loaded ++ new.toList.map (index, ·))

/-! ### The whole of `load_object_sections` -/

/-- One mapping is put into the address space, behind the last one. -/
def mapPart (i : ℕ) (mapping : Option KernelMapping) : Load Unit := do
  let s ← read
  let start ← onKernel fun k => k.mapPart i s.startPage mapping
  modify fun s => { s with startPage := start }

/-- The contents of the executable mapping: the file, as far as the last `.text` section. -/
def copyText (file : ElfFile) : Option KernelMapping → Load Unit
  | none => pure ()
  | some mapping =>
    if file.input.len < mapping.size then
      fail "end of last `.text` section was miscalculated to be beyond ELF file bounds"
    else do
      let slice ← sliceOf mapping 0 mapping.size
      write slice (file.input.bytes.take mapping.size)

/-- The sections with a global function, object or thread-local variable. -/
def globalSections (symbols : List SymbolTableEntry) : List ℕ :=
  (symbols.filter fun e => e.getBinding = .ok .global ∧
    (e.getType = .ok .func ∨ e.getType = .ok .object ∨ e.getType = .ok .tls)).map
    (·.shndx.toNat)

/-- `Loader::load_object_sections`. -/
def loadObjectSections (env : Env) (i : ℕ) (name : Str) (bytes : Slice) :
    Load (LoadedObject × ElfFile) := do
  let file ← elf (ElfFile.new bytes)
  if file.header.getType ≠ .relocatable then fail "not a relocatable ELF file"
  else do
    let mappings ← allocateSectionMappings name file
    mapPart i mappings.executable
    mapPart i mappings.readOnly
    mapPart i mappings.readWrite
    copyText file mappings.executable
    let symbols ← elf file.getSymbolTable
    let s ← read
    let l : Loading :=
      ⟨file, mappings, globalSections symbols, s.instances.length, env.demangle⟩
    let sections ← loadSections l 0 file.sectionIter.sections ⟨0, 0⟩ []
    pure (⟨name, sections, [], mappings⟩, file)

end Rhubarb.Loader
