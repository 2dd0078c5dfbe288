import Rhubarb.Loader.Sections

/-!
Relocation and the loading of dependencies (`kernel/src/loader.rs`), and the start of a process
(`kernel/src/scheduler.rs`).

`load_object_impl`, `relocate_object_sections` and `get_or_load_section` call one another: an
object is published, then relocated, and a symbol that is not known yet loads the objects its name
mentions.  The two inner functions take the loading of an object as a parameter; the knot is tied
by a bound on how deeply loads are nested.

* `writeRelocation`, `relocateEntry`, `relocateObjectSections`.
* `getOrLoadSection`, `loadFirst`.
* `loadObjectImpl`, `loadObject`, `runUserProcess`.
-/

namespace Rhubarb.Loader

open Foundations Comp Elf

/-! ### Reading objects -/

/-- `InitFileSystem::read`: the file of a path. -/
def fileAt (env : Env) (path : Str) : Except Panic (Except String (List UInt8)) :=
  if startsWith path (str "/") ∧ endsWith (path.drop 1) (str ".o") then
    let needle := (path.drop 1).take (path.length - 3)
    match lookup env.files needle with
    | some bytes => .ok (.ok bytes)
    | none => .ok (.error "failed to read object")
  else .error .path

/-- `GlobalObjectProvider::read_object`: where the bytes of an object are. -/
def filePath (env : Env) (name : Str) : Except String Str :=
  if startsWith name (str "/") then .ok name
  else
    -- the paths of the objects whose name starts with `name`
    let listed := (env.files.filter fun f => startsWith f.1 name).map fun f =>
      str "/" ++ f.1 ++ str ".o"
    if str "/" ++ name ++ str ".o" ∈ listed then .ok (str "/" ++ name ++ str ".o")
    else .error "no object found"

/-- `GlobalObjectProvider::read_object`: the bytes go to a buffer of their own. -/
def readObject (env : Env) (name : Str) : Load Slice := do
  let path ← ofResult (.ok (filePath env name))
  let bytes ← ofResult (fileAt env path)
  let s ← read
  modify fun s => { s with reads := s.reads + 1 }
  pure ⟨env.bufferAddr s.reads, bytes⟩

/-! ### Relocation entries -/

/-- `R_X86_64_64`. -/
def rX866464 : ℕ := 1

/-- `R_X86_64_PC64`. -/
def rX8664Pc64 : ℕ := 24

/-- `write_relocation`, to a slice that starts at `base` and is `len` bytes long: where the bytes
go in it, and the bytes. -/
def writeRelocation (entry : Rela) (base len targetOffset : ℕ) (source : Address) :
    Except Panic (Except String (ℕ × List UInt8)) :=
  if entry.getType = rX866464 ∨ entry.getType = rX8664Pc64 then
    let stop := wrappingAdd targetOffset 8
    if targetOffset ≤ stop ∧ stop ≤ len then
      let value := wrappingAdd source.toRaw entry.addend.toNat
      let value :=
        if entry.getType = rX866464 then value else wrappingSub value (base + targetOffset)
      .ok (.ok (targetOffset, leBytes 8 value))
    else .error .relocationRange
  else if entry.getType ∈ [10, 11, 2, 4] then .ok (.error "32-bit relocations are not supported")
  else .ok (.error "unsupported relocation type")

/-- An entry is applied to its target section: `base` and `len` are those of the slice that goes
from the start of the mapping to the end of the section. -/
def applyEntry (target : LoadedSection) (base : Address) (entry : Rela) (source : Address) :
    Load Unit := do
  let len := wrappingAdd target.mappingOffset target.size
  let targetOffset := wrappingAdd target.mappingOffset entry.offset.toNat
  let w ← ofResult (writeRelocation entry base.toRaw len targetOffset source)
  modify fun s => { s with contents := store s.contents (base.toRaw + w.1) w.2 }

/-- The name an external symbol is looked up by. -/
def sourceName (env : Env) (file : ElfFile) (e : SymbolTableEntry) : Load Str := do
  match ← attempt (elf (e.getName file)) with
  | .error _ => fail "couldn't get name of source section"
  | .ok name =>
    if startsWith name (str ".data.rel.ro.") then
      match getFrom name (str ".data.rel.ro.").length with
      | some name => pure (env.demangle name)
      | none => fail "couldn't get name of `.data.rel.ro.` section"
    else pure (env.demangle name)

/-- The section of an external symbol, which becomes a dependency of the object; `none` if the
symbol is missing and the entry is passed over. -/
def externalSection (env : Env) (get : Str → Load LoadedSection) (file : ElfFile) (o : ℕ)
    (target : LoadedSection) (e : SymbolTableEntry) : Load (Option LoadedSection) := do
  let name ← sourceName env file e
  match ← attempt (get name) with
  | .error error => if contains target.name (str "f16") then pure none else fail error
  | .ok section_ => do
    let s ← read
    if s.upgrades section_ then do
      modify fun s => s.addDependency o ⟨target, section_⟩
      pure (some section_)
    else fail "couldn't upgrade section reference for relocation entry"

/-- The section of a symbol: one of the object, by its index, or an external one. -/
def sourceSection (env : Env) (get : Str → Load LoadedSection) (file : ElfFile) (o : ℕ)
    (sections : List (ℕ × LoadedSection)) (target : LoadedSection) (e : SymbolTableEntry) :
    Load (Option LoadedSection) :=
  match lookup sections e.shndx.toNat with
  | some section_ => pure (some section_)
  | none => externalSection env get file o target e

/-- One turn of the inner loop of `relocate_object_sections`. -/
def relocateEntry (env : Env) (get : Str → Load LoadedSection) (file : ElfFile)
    (symbols : List SymbolTableEntry) (o : ℕ) (sections : List (ℕ × LoadedSection))
    (target : LoadedSection) (base : Address) (entry : Rela) : Load Unit :=
  match symbols[entry.getSymbolTableIndex]? with
  | none => panic .symbolIndex
  | some e => do
    match ← sourceSection env get file o sections target e with
    | none => pure ()
    | some source => do
      let addr ← onAddress (source.addr.add e.value.toNat)
      applyEntry target base entry addr

/-- The inner loop of `relocate_object_sections`. -/
def relocateEntries (env : Env) (get : Str → Load LoadedSection) (file : ElfFile)
    (symbols : List SymbolTableEntry) (o : ℕ) (sections : List (ℕ × LoadedSection))
    (target : LoadedSection) (base : Address) (entries : List Rela) : Load Unit :=
  each (relocateEntry env get file symbols o sections target base) entries

/-- The entries of a relocation section. -/
def relaArray (h : SectionHeader) (file : ElfFile) : Except Panic (Except String (List Rela)) :=
  match h.getData file with
  | .error p => .error (.elf p)
  | .ok (.ok (.rela entries)) => .ok (.ok entries)
  | .ok _ => .ok (.error "found `rela` section that wasn't able to be parsed")

/-- One relocation section. -/
def relocateSection (env : Env) (get : Str → Load LoadedSection) (file : ElfFile)
    (symbols : List SymbolTableEntry) (o : ℕ) (sections : List (ℕ × LoadedSection))
    (h : SectionHeader) : Load Unit := do
  let entries ← ofResult (relaArray h file)
  match lookup sections h.info.toNat with
  | none => fail "target section was not loaded for `rela` section"
  | some target => do
    let base ← sliceOf target.mapping 0 (wrappingAdd target.mappingOffset target.size)
    relocateEntries env get file symbols o sections target base entries

/-- The relocation sections: `section.get_type() == Ok(Rela) && section.size() != 0`. -/
def isRelocated (h : SectionHeader) : Bool := h.isType .rela && h.size ≠ 0

/-- `Loader::relocate_object_sections`, for the object with a number. -/
def relocateObjectSections (env : Env) (get : Str → Load LoadedSection) (file : ElfFile) (o : ℕ)
    (sections : List (ℕ × LoadedSection)) : Load Unit := do
  let symbols ← elf file.getSymbolTable
  each (relocateSection env get file symbols o sections)
    (file.sectionIter.sections.filter isRelocated)
  match file.sectionIter.stop with
  | none => pure ()
  | some p => panic (.elf p)

/-! ### Dependencies -/

/-- The symbols that are aliases of others. -/
def aliasOf (name : Str) : Option Str :=
  if name = str "<usize as core::fmt::Display>::fmt" then
    some (str "<u64 as core::fmt::Display>::fmt")
  else if name = str "<u64 as core::fmt::LowerHex>::fmt" then
    some (str "<usize as core::fmt::LowerHex>::fmt")
  else if name = str "<u64 as core::fmt::UpperHex>::fmt" then
    some (str "<usize as core::fmt::UpperHex>::fmt")
  else none

/-- The objects a symbol may come from are loaded, those that are not yet, until it is known. -/
def loadFirst (env : Env) (load : Str → Slice → Load ℕ) (name : Str) :
    List Str → Load LoadedSection
  | [] => fail "section not found"
  | object :: rest => do
    let s ← read
    if (s.getObject object).isSome then loadFirst env load name rest
    else do
      let bytes ← readObject env object
      let _ ← load object bytes
      let s ← read
      match lookup s.sections name with
      | some section_ => pure section_
      | none => loadFirst env load name rest

/-- `Loader::get_or_load_section`. -/
def getOrLoadSection (env : Env) (load : Str → Slice → Load ℕ) (name : Str) :
    Load LoadedSection := do
  let s ← read
  match lookup s.sections name with
  | some section_ => pure section_
  | none =>
    match aliasOf name with
    | some refName =>
      match lookup s.sections refName with
      | none => panic .aliasMissing
      | some section_ => do
        modify fun s => { s with sections := insertKey name section_ s.sections }
        pure section_
    | none => loadFirst env load name (crateNamesInSymbol env.alphanumeric name)

/-! ### Loading -/

/-- `Loader::load_object_impl`, with at most `depth` loads nested in it: the number of the new
object. -/
def loadObjectImpl (env : Env) (i : ℕ) : ℕ → Str → Slice → Load ℕ
  | 0, _, _ => panic .depth
  | depth + 1, name, bytes => do
    let (object, file) ← loadObjectSections env i name bytes
    let s ← read
    let o := s.instances.length
    modify fun s => s.publish env.byIndex object
    relocateObjectSections env (getOrLoadSection env (loadObjectImpl env i depth)) file o
      object.sections
    pure o

/-- `Loader::load_object`. -/
def loadObject (env : Env) (depth i : ℕ) (name : Str) (startPage : Page) : Load ℕ := do
  modify fun s => { s with startPage }
  let bytes ← readObject env name
  loadObjectImpl env i depth name bytes

/-- The part of `Scheduler::run_user_process` that loads the object and finds its entry point, in
the address space of the process. -/
def runUserProcess (env : Env) (depth i id : ℕ) (name : Str) (stackSize : Option ℕ) :
    Load (ℕ × Address) := do
  onKernel fun k => do
    let k ← k.newSpace i (Str.text name ++ "." ++ toString id)
    .ok ((), k)
  let o ← attempt (loadObject env depth i name AddressDomain.userCode.baseAddr.page)
  match o with
  | .error _ => panic .loadObject
  | .ok o => do
    let s ← read
    match s.getTextSection env.byName name (str "main") with
    | none => panic .entryPoint
    | some main =>
      if s.upgrades main then do
        let entryPoint ← onAddress (AddressDomain.userCode.baseAddr.add main.mappingOffset)
        onKernel fun k => do
          let k ← k.mapStack i id stackSize
          .ok ((), k)
        pure (o, entryPoint)
      else panic .entryPoint

end Rhubarb.Loader
