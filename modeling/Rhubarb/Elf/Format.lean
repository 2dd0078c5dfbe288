import Rhubarb.Elf.Pod

/-!
The ELF64 reader (`crates/elf/src/elf.rs`).

Headers, section headers, symbols and relocation entries are reinterpreted in place at computed
offsets.  A function that returns a `Result` in the source returns an `Except String` here, with
the text of the error; around it is the panic that indexing or an assertion may end in.

* `Header.parse`, `ElfFile.new`: the file header.
* `SectionHeader.parse`, `ElfFile.sectionIter`: the section table.  The iterator is lazy in the
  source: it is the list of the headers it yields, and the panic it then ends in, if any.
* `SectionHeader.getName`, `getType`, `getData`; `ElfFile.getString`, `ElfFile.getSymbolTable`.
-/

namespace Rhubarb.Elf

open Foundations

/-- The number in `w` bytes at an offset. -/
def field (bs : List UInt8) (start w : ℕ) : ℕ := leNat (window bs start w)

/-! ### The file header -/

/-- `HeaderIdent`. -/
structure HeaderIdent where
  magic : List UInt8
  «class» : UInt8
  data : UInt8
  version : UInt8
  osAbi : UInt8
  abiVersion : UInt8
  padding : List UInt8
  deriving DecidableEq, Repr

instance : Pod HeaderIdent where
  size := 16
  align := 1
  decode bs :=
    { magic := window bs 0 4
      «class» := UInt8.ofNat (field bs 4 1)
      data := UInt8.ofNat (field bs 5 1)
      version := UInt8.ofNat (field bs 6 1)
      osAbi := UInt8.ofNat (field bs 7 1)
      abiVersion := UInt8.ofNat (field bs 8 1)
      padding := window bs 9 7 }

/-- `HeaderBody`. -/
structure HeaderBody where
  type : UInt16
  machine : UInt16
  version : UInt8
  entryPoint : UInt64
  phOffset : UInt64
  shOffset : UInt64
  flags : UInt32
  headerSize : UInt16
  phEntrySize : UInt16
  phCount : UInt16
  shEntrySize : UInt16
  shCount : UInt16
  shStrIndex : UInt16
  deriving DecidableEq, Repr

/-- The three bytes after the version are padding. -/
instance : Pod HeaderBody where
  size := 48
  align := 8
  decode bs :=
    { type := UInt16.ofNat (field bs 0 2)
      machine := UInt16.ofNat (field bs 2 2)
      version := UInt8.ofNat (field bs 4 1)
      entryPoint := UInt64.ofNat (field bs 8 8)
      phOffset := UInt64.ofNat (field bs 16 8)
      shOffset := UInt64.ofNat (field bs 24 8)
      flags := UInt32.ofNat (field bs 32 4)
      headerSize := UInt16.ofNat (field bs 36 2)
      phEntrySize := UInt16.ofNat (field bs 38 2)
      phCount := UInt16.ofNat (field bs 40 2)
      shEntrySize := UInt16.ofNat (field bs 42 2)
      shCount := UInt16.ofNat (field bs 44 2)
      shStrIndex := UInt16.ofNat (field bs 46 2) }

/-- `Header`. -/
structure Header where
  ident : HeaderIdent
  body : HeaderBody
  deriving DecidableEq, Repr

/-- `MAGIC_NUM`. -/
def magicNum : List UInt8 := [0x7f, 0x45, 0x4c, 0x46]

/-- `ObjectFileType`. -/
inductive ObjectFileType where
  | none
  | relocatable
  | executable
  | sharedObject
  | core
  | processorSpecific (n : UInt16)
  deriving DecidableEq, Repr

namespace Header

/-- `Header::parse`. -/
def parse (bytes : Slice) : Except Panic (Except String Header) :=
  if bytes.len < 16 then .ok (.error "File is shorter than ELF ident")
  else if bytes.len < 16 + 48 then .ok (.error "File is shorter than ELF header")
  else do
    let ident ← Pod.read HeaderIdent (← bytes.range 0 16)
    if ident.magic ≠ magicNum then .ok (.error "Invalid magic number")
    else if ident.class ≠ 2 then .ok (.error "Invalid class")
    else
      let body ← Pod.read HeaderBody (← bytes.range 16 (16 + 48))
      .ok (.ok ⟨ident, body⟩)

/-- `Header::get_type`. -/
def getType (header : Header) : ObjectFileType :=
  match header.body.type with
  | 0 => .none
  | 1 => .relocatable
  | 2 => .executable
  | 3 => .sharedObject
  | 4 => .core
  | x => .processorSpecific x

end Header

/-- `ElfFile`. -/
structure ElfFile where
  input : Slice
  header : Header
  deriving DecidableEq

/-- `ElfFile::new`. -/
def ElfFile.new (input : Slice) : Except Panic (Except String ElfFile) := do
  match ← Header.parse input with
  | .error e => .ok (.error e)
  | .ok header => .ok (.ok ⟨input, header⟩)

/-! ### Section headers -/

/-- `SHN_LORESERVE`. -/
def shnLoreserve : ℕ := 0xff00

/-- `SectionHeader`. -/
structure SectionHeader where
  name : UInt32
  type : UInt32
  flags : UInt64
  address : UInt64
  offset : UInt64
  size : UInt64
  link : UInt32
  info : UInt32
  align : UInt64
  entrySize : UInt64
  deriving DecidableEq, Repr

instance : Pod SectionHeader where
  size := 64
  align := 8
  decode bs :=
    { name := UInt32.ofNat (field bs 0 4)
      type := UInt32.ofNat (field bs 4 4)
      flags := UInt64.ofNat (field bs 8 8)
      address := UInt64.ofNat (field bs 16 8)
      offset := UInt64.ofNat (field bs 24 8)
      size := UInt64.ofNat (field bs 32 8)
      link := UInt32.ofNat (field bs 40 4)
      info := UInt32.ofNat (field bs 44 4)
      align := UInt64.ofNat (field bs 48 8)
      entrySize := UInt64.ofNat (field bs 56 8) }

/-- `SHF_WRITE`. -/
def shfWrite : UInt64 := 0x1

/-- `SHF_ALLOC`. -/
def shfAlloc : UInt64 := 0x2

/-- `SHF_EXECINSTR`. -/
def shfExecinstr : UInt64 := 0x4

/-- `SHF_TLS`. -/
def shfTls : UInt64 := 0x400

/-- `SectionHeaderType`. -/
inductive SectionHeaderType where
  | null
  | progBits
  | symTab
  | strTab
  | rela
  | hash
  | dynamic
  | note
  | noBits
  | rel
  | shLib
  | dynSym
  | initArray
  | finiArray
  | preInitArray
  | group
  | symTabShIndex
  | osSpecific (n : UInt32)
  | processorSpecific (n : UInt32)
  | user (n : UInt32)
  deriving DecidableEq, Repr

namespace SectionHeader

/-- `SectionHeader::get_type`; the numbers 12 and 13 are not section types. -/
def getType (h : SectionHeader) : Except String SectionHeaderType :=
  match h.type.toNat with
  | 0 => .ok .null
  | 1 => .ok .progBits
  | 2 => .ok .symTab
  | 3 => .ok .strTab
  | 4 => .ok .rela
  | 5 => .ok .hash
  | 6 => .ok .dynamic
  | 7 => .ok .note
  | 8 => .ok .noBits
  | 9 => .ok .rel
  | 10 => .ok .shLib
  | 11 => .ok .dynSym
  | 14 => .ok .initArray
  | 15 => .ok .finiArray
  | 16 => .ok .preInitArray
  | 17 => .ok .group
  | 18 => .ok .symTabShIndex
  | n =>
    if 0x60000000 ≤ n ∧ n ≤ 0x6fffffff then .ok (.osSpecific h.type)
    else if 0x70000000 ≤ n ∧ n ≤ 0x7fffffff then .ok (.processorSpecific h.type)
    else if 0x80000000 ≤ n ∧ n ≤ 0xffffffff then .ok (.user h.type)
    else .error "Invalid section header type"

/-- `section.get_type() == Ok(type)`. -/
def isType (h : SectionHeader) (type : SectionHeaderType) : Bool :=
  match h.getType with
  | .ok t => t = type
  | .error _ => false

/-- `SectionHeader::parse`. -/
def parse (input : Slice) (header : Header) (index : ℕ) :
    Except Panic (Except String SectionHeader) :=
  if shnLoreserve ≤ index then .error .reservedIndex
  else
    let start := wrappingAdd (index * header.body.shEntrySize.toNat) header.body.shOffset.toNat
    let stop := wrappingAdd start header.body.shEntrySize.toNat
    if input.len < stop then .ok (.error "File is shorter than section header offset")
    else do
      let h ← Pod.read SectionHeader (← input.range start stop)
      .ok (.ok h)

/-- `SectionHeader::raw_data`. -/
def rawData (h : SectionHeader) (file : ElfFile) : Except Panic Slice :=
  match h.getType with
  | .error _ => .error .rawData
  | .ok .null => .error .rawData
  | .ok _ => file.input.range h.offset.toNat (wrappingAdd h.offset.toNat h.size.toNat)

end SectionHeader

namespace ElfFile

/-- `ElfFile::get_section_header`. -/
def getSectionHeader (file : ElfFile) (index : ℕ) : Except Panic (Except String SectionHeader) :=
  SectionHeader.parse file.input file.header index

/-- `ElfFile::get_shstr_table`. -/
def getShstrTable (file : ElfFile) : Except Panic (Except String Slice) := do
  match ← file.getSectionHeader file.header.body.shStrIndex.toNat with
  | .error e => .ok (.error e)
  | .ok h =>
    if file.input.len < h.offset.toNat then .ok (.error "File is shorter than section offset")
    else do
      let table ← file.input.rangeFrom h.offset.toNat
      .ok (.ok table)

/-- `ElfFile::get_shstr`. -/
def getShstr (file : ElfFile) (index : ℕ) : Except Panic (Except String Str) := do
  match ← file.getShstrTable with
  | .error e => .ok (.error e)
  | .ok table => do
    let name ← Pod.readUntilNull (← table.rangeFrom index)
    .ok (.ok name)

end ElfFile

/-- `SectionHeader::get_name`. -/
def SectionHeader.getName (h : SectionHeader) (file : ElfFile) : Except Panic (Except String Str) :=
  match h.getType with
  | .error e => .ok (.error e)
  | .ok .null => .ok (.error "Attempted to get name of null section")
  | .ok _ => file.getShstr h.name.toNat

/-! ### Symbols and relocation entries -/

/-- `SymbolTableEntry`. -/
structure SymbolTableEntry where
  name : UInt32
  info : UInt8
  other : UInt8
  shndx : UInt16
  value : UInt64
  size : UInt64
  deriving DecidableEq, Repr

instance : Pod SymbolTableEntry where
  size := 24
  align := 8
  decode bs :=
    { name := UInt32.ofNat (field bs 0 4)
      info := UInt8.ofNat (field bs 4 1)
      other := UInt8.ofNat (field bs 5 1)
      shndx := UInt16.ofNat (field bs 6 2)
      value := UInt64.ofNat (field bs 8 8)
      size := UInt64.ofNat (field bs 16 8) }

/-- `SymbolType`. -/
inductive SymbolType where
  | noType
  | object
  | func
  | section
  | file
  | common
  | tls
  | osSpecific (n : ℕ)
  | processorSpecific (n : ℕ)
  deriving DecidableEq, Repr

/-- `SymbolBinding`. -/
inductive SymbolBinding where
  | «local»
  | global
  | weak
  | osSpecific (n : ℕ)
  | processorSpecific (n : ℕ)
  deriving DecidableEq, Repr

namespace SymbolTableEntry

/-- `SymbolTableEntry::get_type`. -/
def getType (e : SymbolTableEntry) : Except String SymbolType :=
  match e.info.toNat % 16 with
  | 0 => .ok .noType
  | 1 => .ok .object
  | 2 => .ok .func
  | 3 => .ok .section
  | 4 => .ok .file
  | 5 => .ok .common
  | 6 => .ok .tls
  | b =>
    if 10 ≤ b ∧ b ≤ 12 then .ok (.osSpecific b)
    else if 13 ≤ b ∧ b ≤ 15 then .ok (.processorSpecific b)
    else .error "invalid value for symbol type"

/-- `SymbolTableEntry::get_binding`. -/
def getBinding (e : SymbolTableEntry) : Except String SymbolBinding :=
  match e.info.toNat / 16 with
  | 0 => .ok .local
  | 1 => .ok .global
  | 2 => .ok .weak
  | b =>
    if 10 ≤ b ∧ b ≤ 12 then .ok (.osSpecific b)
    else if 13 ≤ b ∧ b ≤ 15 then .ok (.processorSpecific b)
    else .error "invalid value for symbol binding"

end SymbolTableEntry

/-- `Rel`. -/
structure Rel where
  offset : UInt64
  info : UInt64
  deriving DecidableEq, Repr

instance : Pod Rel where
  size := 16
  align := 8
  decode bs := ⟨UInt64.ofNat (field bs 0 8), UInt64.ofNat (field bs 8 8)⟩

/-- `Rela`. -/
structure Rela where
  offset : UInt64
  info : UInt64
  addend : UInt64
  deriving DecidableEq, Repr

instance : Pod Rela where
  size := 24
  align := 8
  decode bs :=
    ⟨UInt64.ofNat (field bs 0 8), UInt64.ofNat (field bs 8 8), UInt64.ofNat (field bs 16 8)⟩

namespace Rela

/-- `Rela::get_symbol_table_index`. -/
def getSymbolTableIndex (r : Rela) : ℕ := r.info.toNat / 2 ^ 32

/-- `Rela::get_type`. -/
def getType (r : Rela) : ℕ := r.info.toNat % 2 ^ 32

end Rela

/-! ### Section data -/

/-- `SectionData`. -/
inductive SectionData where
  | empty
  | undefined (data : Slice)
  | group (flags : UInt32) (indices : List UInt32)
  | strArray (data : Slice)
  | fnArray (entries : List UInt64)
  | symbolTable (entries : List SymbolTableEntry)
  | dynSymbolTable (entries : List SymbolTableEntry)
  | symTabShIndex (indices : List UInt32)
  | rela (entries : List Rela)
  | rel (entries : List Rel)
  deriving DecidableEq

namespace SectionHeader

/-- The data of a section group: the flags are the word at its start. -/
def groupData (data : Slice) : Except Panic SectionData := do
  let _ ← data.range 0 1
  let indices ← Pod.readArray UInt32 (← data.rangeFrom 4)
  .ok (.group (UInt32.ofNat (field data.bytes 0 4)) indices)

/-- `SectionHeader::get_data`. -/
def getData (h : SectionHeader) (file : ElfFile) : Except Panic (Except String SectionData) :=
  match h.getType with
  | .error e => .ok (.error e)
  | .ok type => Except.ok <$>
      match type with
      | .null | .noBits => .ok .empty
      | .progBits | .shLib | .osSpecific _ | .processorSpecific _ | .user _ =>
        .undefined <$> h.rawData file
      | .symTab => do .symbolTable <$> Pod.readArray SymbolTableEntry (← h.rawData file)
      | .dynSym => do .dynSymbolTable <$> Pod.readArray SymbolTableEntry (← h.rawData file)
      | .strTab => .strArray <$> h.rawData file
      | .initArray | .finiArray | .preInitArray => do
        .fnArray <$> Pod.readArray UInt64 (← h.rawData file)
      | .rela => do .rela <$> Pod.readArray Rela (← h.rawData file)
      | .rel => do .rel <$> Pod.readArray Rel (← h.rawData file)
      | .group => do groupData (← h.rawData file)
      | .symTabShIndex => do .symTabShIndex <$> Pod.readArray UInt32 (← h.rawData file)
      | .dynamic | .note | .hash => .error .todo

end SectionHeader

/-! ### The section iterator and the lookups that use it -/

/-- What `section_iter` yields: the headers, and the panic the call after them ends in. -/
structure SectionIter where
  sections : List SectionHeader
  stop : Option Panic

namespace SectionIter

/-- `Iterator::find`, with a test that may panic. -/
def findIn (stop : Option Panic) (p : SectionHeader → Except Panic Bool) :
    List SectionHeader → Except Panic (Option SectionHeader)
  | [] =>
    match stop with
    | none => .ok none
    | some e => .error e
  | h :: hs => do
    if ← p h then .ok (some h) else findIn stop p hs

def find (it : SectionIter) (p : SectionHeader → Except Panic Bool) :
    Except Panic (Option SectionHeader) := findIn it.stop p it.sections

end SectionIter

namespace ElfFile

/-- The headers from an index on; the iterator ends at the first that cannot be parsed. -/
def sectionsFrom (file : ElfFile) : ℕ → ℕ → SectionIter
  | 0, _ => ⟨[], none⟩
  | n + 1, index =>
    match file.getSectionHeader index with
    | .error p => ⟨[], some p⟩
    | .ok (.error _) => ⟨[], none⟩
    | .ok (.ok h) =>
      let rest := sectionsFrom file n (index + 1)
      ⟨h :: rest.sections, rest.stop⟩

/-- `ElfFile::section_iter`. -/
def sectionIter (file : ElfFile) : SectionIter :=
  file.sectionsFrom file.header.body.shCount.toNat 0

/-- `ElfFile::find_section_by_name`. -/
def findSectionByName (file : ElfFile) (name : Str) : Except Panic (Option SectionHeader) :=
  file.sectionIter.find fun h => do
    match ← h.getName file with
    | .ok n => .ok (n = name)
    | .error _ => .ok false

/-- `ElfFile::get_string`. -/
def getString (file : ElfFile) (index : ℕ) : Except Panic (Except String Str) := do
  match ← file.findSectionByName (str ".strtab") with
  | none => .ok (.error "no `.strtab` section")
  | some h =>
    match h.getType with
    | .error e => .ok (.error e)
    | .ok .strTab => do
      let data ← h.rawData file
      let name ← Pod.readStr (← data.rangeFrom index)
      .ok (.ok name)
    | .ok _ => .ok (.error "expected `.strtab` to be a string table")

/-- `ElfFile::get_symbol_table`. -/
def getSymbolTable (file : ElfFile) : Except Panic (Except String (List SymbolTableEntry)) := do
  match ← file.sectionIter.find fun h => .ok (h.isType .symTab) with
  | none => .ok (.error "no symbol table found, file may have been stripped")
  | some h =>
    match ← h.getData file with
    | .ok (.symbolTable entries) => .ok (.ok entries)
    | _ => .ok (.error "no symbol table found, file may have been stripped")

end ElfFile

/-- `SymbolTableEntry::get_name`. -/
def SymbolTableEntry.getName (e : SymbolTableEntry) (file : ElfFile) :
    Except Panic (Except String Str) :=
  file.getString e.name.toNat

end Rhubarb.Elf
