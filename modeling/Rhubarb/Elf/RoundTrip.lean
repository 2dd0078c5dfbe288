import Rhubarb.Elf.Reader

/-!
The ELF reader inverts the encoding of a relocatable object.

An `Image` is an object file as it is meant: a file header, sections with their names and
contents, the symbols with their names and the relocation entries.  `Image.Serialised` says that
a buffer holds it in the little-endian ELF64 layout, wherever the tables are put.

* `decode_sectionHeader`, `decode_symbol`, `decode_rela`, `decode_headerBody`: each record is read
  back from its bytes.
* `new_eq`, `sectionIter_eq`, `getName_eq`, `getSymbolTable_eq`, `getString_eq`: what each function
  of the reader returns on such a buffer.
* `decode_encode`: all of them together.
-/

namespace Rhubarb.Elf

open Foundations

/-! ### Records and their bytes -/

lemma field_head (w n : ℕ) (rest : List UInt8) : field (leBytes w n ++ rest) 0 w = n % 256 ^ w := by
  have hw : 0 + w ≤ (leBytes w n).length := by rw [length_leBytes]; omega
  have hself := window_zero (leBytes w n)
  rw [length_leBytes] at hself
  rw [field, window_append_left hw, hself, leNat_leBytes]

lemma field_tail {w start : ℕ} (n k : ℕ) (rest : List UInt8) (h : w ≤ start) :
    field (leBytes w n ++ rest) start k = field rest (start - w) k := by
  rw [field, window_append_right (by rw [length_leBytes]; exact h), length_leBytes, field]

/-- The bytes of a section header. -/
def SectionHeader.encode (h : SectionHeader) : List UInt8 :=
  leBytes 4 h.name.toNat ++ (leBytes 4 h.type.toNat ++ (leBytes 8 h.flags.toNat ++
    (leBytes 8 h.address.toNat ++ (leBytes 8 h.offset.toNat ++ (leBytes 8 h.size.toNat ++
    (leBytes 4 h.link.toNat ++ (leBytes 4 h.info.toNat ++ (leBytes 8 h.align.toNat ++
    (leBytes 8 h.entrySize.toNat ++ [])))))))))

/-- The bytes of a symbol. -/
def SymbolTableEntry.encode (e : SymbolTableEntry) : List UInt8 :=
  leBytes 4 e.name.toNat ++ (leBytes 1 e.info.toNat ++ (leBytes 1 e.other.toNat ++
    (leBytes 2 e.shndx.toNat ++ (leBytes 8 e.value.toNat ++ (leBytes 8 e.size.toNat ++ [])))))

/-- A relocation entry: where it applies, its symbol, its type and its addend. -/
structure Relocation where
  offset : UInt64
  symbol : UInt32
  type : UInt32
  addend : UInt64
  deriving DecidableEq, Repr

/-- `r_info`: the symbol is in the upper half. -/
def Relocation.info (r : Relocation) : ℕ := r.symbol.toNat * 2 ^ 32 + r.type.toNat

/-- The bytes of a relocation entry. -/
def Relocation.encode (r : Relocation) : List UInt8 :=
  leBytes 8 r.offset.toNat ++ (leBytes 8 r.info ++ (leBytes 8 r.addend.toNat ++ []))

/-- A relocation entry, as the reader has it. -/
def Relocation.toRela (r : Relocation) : Rela := ⟨r.offset, UInt64.ofNat r.info, r.addend⟩

lemma SectionHeader.length_encode (h : SectionHeader) : h.encode.length = 64 := by
  simp [SectionHeader.encode]

lemma SymbolTableEntry.length_encode (e : SymbolTableEntry) : e.encode.length = 24 := by
  simp [SymbolTableEntry.encode]

lemma Relocation.length_encode (r : Relocation) : r.encode.length = 24 := by
  simp [Relocation.encode]

lemma uint8_ofNat (x : UInt8) : UInt8.ofNat (x.toNat % 256 ^ 1) = x := by
  rw [Nat.mod_eq_of_lt (by have := x.toNat_lt; omega), UInt8.ofNat_toNat]

lemma uint16_ofNat (x : UInt16) : UInt16.ofNat (x.toNat % 256 ^ 2) = x := by
  rw [Nat.mod_eq_of_lt (by have := x.toNat_lt; omega), UInt16.ofNat_toNat]

lemma uint32_ofNat (x : UInt32) : UInt32.ofNat (x.toNat % 256 ^ 4) = x := by
  rw [Nat.mod_eq_of_lt (by have := x.toNat_lt; omega), UInt32.ofNat_toNat]

lemma uint64_ofNat (x : UInt64) : UInt64.ofNat (x.toNat % 256 ^ 8) = x := by
  rw [Nat.mod_eq_of_lt (by have := x.toNat_lt; omega), UInt64.ofNat_toNat]

lemma decode_sectionHeader (h : SectionHeader) : Pod.decode h.encode = h := by
  simp (disch := decide) only [Pod.decode, SectionHeader.encode, field_head, field_tail,
    Nat.reduceSub, uint32_ofNat, uint64_ofNat]

lemma decode_symbol (e : SymbolTableEntry) : Pod.decode e.encode = e := by
  simp (disch := decide) only [Pod.decode, SymbolTableEntry.encode, field_head, field_tail,
    Nat.reduceSub, uint8_ofNat, uint16_ofNat, uint32_ofNat, uint64_ofNat]

lemma Relocation.info_lt (r : Relocation) : r.info < 2 ^ 64 := by
  have h₁ := r.symbol.toNat_lt
  have h₂ := r.type.toNat_lt
  rw [Relocation.info]
  omega

lemma decode_rela (r : Relocation) : Pod.decode r.encode = r.toRela := by
  have hinfo : r.info % 256 ^ 8 = r.info := Nat.mod_eq_of_lt r.info_lt
  simp (disch := decide) only [Pod.decode, Relocation.encode, field_head, field_tail,
    Nat.reduceSub, uint64_ofNat, hinfo, Relocation.toRela]

/-- The reader finds the symbol and the type of an entry. -/
lemma Relocation.toRela_fields (r : Relocation) :
    r.toRela.getSymbolTableIndex = r.symbol.toNat ∧ r.toRela.getType = r.type.toNat := by
  have h₁ := r.symbol.toNat_lt
  have h₂ := r.type.toNat_lt
  have hinfo : (UInt64.ofNat r.info).toNat = r.info := UInt64.toNat_ofNat_of_lt r.info_lt
  simp only [Rela.getSymbolTableIndex, Rela.getType, Relocation.toRela, hinfo]
  rw [Relocation.info]
  omega

/-! ### Object files -/

/-- The file header of a 64-bit little-endian object, but for the number of sections. -/
structure FileHeader where
  identVersion : UInt8
  osAbi : UInt8
  abiVersion : UInt8
  type : UInt16
  machine : UInt16
  version : UInt32
  entryPoint : UInt64
  phOffset : UInt64
  shOffset : UInt64
  flags : UInt32
  phEntrySize : UInt16
  phCount : UInt16
  shStrIndex : UInt16
  deriving DecidableEq, Repr

/-- The sixteen bytes that identify the file. -/
def FileHeader.encodeIdent (h : FileHeader) : List UInt8 :=
  magicNum ++ [2, 1, h.identVersion, h.osAbi, h.abiVersion, 0, 0, 0, 0, 0, 0, 0]

/-- The rest of the file header, with the number of sections. -/
def FileHeader.encodeBody (h : FileHeader) (count : ℕ) : List UInt8 :=
  leBytes 2 h.type.toNat ++ (leBytes 2 h.machine.toNat ++ (leBytes 4 h.version.toNat ++
    (leBytes 8 h.entryPoint.toNat ++ (leBytes 8 h.phOffset.toNat ++ (leBytes 8 h.shOffset.toNat ++
    (leBytes 4 h.flags.toNat ++ (leBytes 2 64 ++ (leBytes 2 h.phEntrySize.toNat ++
    (leBytes 2 h.phCount.toNat ++ (leBytes 2 64 ++ (leBytes 2 count ++
    (leBytes 2 h.shStrIndex.toNat ++ []))))))))))))

/-- A symbol and its name. -/
structure Symbol where
  entry : SymbolTableEntry
  name : String
  deriving DecidableEq

/-- What a section holds. -/
inductive Content where
  | bytes (bs : List UInt8)
  | symbols (es : List Symbol)
  | relocations (rs : List Relocation)
  deriving DecidableEq

/-- The bytes of a section. -/
def Content.encode : Content → List UInt8
  | bytes bs => bs
  | symbols es => es.flatMap fun e => e.entry.encode
  | relocations rs => rs.flatMap Relocation.encode

/-- The section holds relocation entries. -/
def Content.isRelocations : Content → Bool
  | relocations _ => true
  | _ => false

/-- A section: its header, its name and what it holds. -/
structure Section where
  header : SectionHeader
  name : String
  content : Content
  deriving DecidableEq

/-- A name with its null byte stands in a string table. -/
def NamedAt (table : List UInt8) (index : ℕ) (name : String) : Prop :=
  (0 : UInt8) ∉ str name ∧ str name ++ [0] <+: table.drop index

instance (table : List UInt8) (index : ℕ) (name : String) :
    Decidable (NamedAt table index name) :=
  inferInstanceAs (Decidable (_ ∧ _))

variable {table : List UInt8} {index : ℕ} {name : String} {s : Section}

/-- A name is read up to its null byte. -/
lemma NamedAt.read (h : NamedAt table index name) :
    0 ∈ table.drop index ∧ (table.drop index).takeWhile (· ≠ 0) = str name := by
  obtain ⟨hname, rest, hrest⟩ := h
  have hword : ∀ b ∈ str name, decide (b ≠ 0) = true := fun b hb =>
    decide_eq_true fun h0 => hname (h0 ▸ hb)
  rw [← hrest, List.append_assoc, List.takeWhile_append_of_pos hword]
  simp

/-- A name of a string table stands in any that goes on further. -/
lemma NamedAt.mono {longer : List UInt8} (h : NamedAt table index name) (hpre : table <+: longer) :
    NamedAt longer index name :=
  ⟨h.1, h.2.trans (hpre.drop index)⟩

/-- An object file as it is meant, with the sections that hold the section names, the symbol
names and the symbols. -/
structure Image where
  header : FileHeader
  sections : List Section
  shstr : Section
  strtab : Section
  symtab : Section
  sectionNames : List UInt8
  symbolNames : List UInt8
  symbols : List Symbol

/-- The object file is a well-formed one. -/
structure Image.WellFormed (im : Image) : Prop where
  count : im.sections.length < shnLoreserve
  known : ∀ s ∈ im.sections, s.header.getType.isOk
  shstr : im.sections[im.header.shStrIndex.toNat]? = some im.shstr
  shstrType : im.shstr.header.getType = .ok .strTab
  shstrContent : im.shstr.content = .bytes im.sectionNames
  named : ∀ s ∈ im.sections, s.header.getType ≠ .ok .null →
    NamedAt im.sectionNames s.header.name.toNat s.name
  strtab : im.strtab ∈ im.sections
  strtabType : im.strtab.header.getType = .ok .strTab
  strtabContent : im.strtab.content = .bytes im.symbolNames
  strtabName : im.strtab.name = ".strtab"
  strtabOnly : ∀ s ∈ im.sections, s.header.getType ≠ .ok .null → s.name = ".strtab" →
    s = im.strtab
  symtab : im.symtab ∈ im.sections
  symtabType : im.symtab.header.getType = .ok .symTab
  symtabContent : im.symtab.content = .symbols im.symbols
  symtabOnly : ∀ s ∈ im.sections, s.header.getType = .ok .symTab → s = im.symtab
  symbolNamed : ∀ e ∈ im.symbols, NamedAt im.symbolNames e.entry.name.toNat e.name
  relaContent : ∀ s ∈ im.sections, s.header.getType = .ok .rela → s.content.isRelocations

/-- **A buffer holds the object file**: the tables are in bounds and aligned, anywhere. -/
structure Image.Serialised (im : Image) (input : Slice) : Prop where
  wellFormed : im.WellFormed
  inSpace : input.len < 2 ^ 63
  aligned : input.addr % 8 = 0
  ident : window input.bytes 0 16 = im.header.encodeIdent
  body : window input.bytes 16 48 = im.header.encodeBody im.sections.length
  tableBound : im.header.shOffset.toNat + im.sections.length * 64 ≤ input.len
  tableAligned : im.header.shOffset.toNat % 8 = 0
  table : window input.bytes im.header.shOffset.toNat (im.sections.length * 64) =
    im.sections.flatMap fun s => s.header.encode
  contentBound : ∀ s ∈ im.sections, s.header.getType ≠ .ok .null →
    s.header.getType ≠ .ok .noBits → s.header.offset.toNat + s.header.size.toNat ≤ input.len
  contentSize : ∀ s ∈ im.sections, s.header.getType ≠ .ok .null →
    s.header.getType ≠ .ok .noBits → s.content.encode.length = s.header.size.toNat
  content : ∀ s ∈ im.sections, s.header.getType ≠ .ok .null →
    s.header.getType ≠ .ok .noBits →
    window input.bytes s.header.offset.toNat s.header.size.toNat = s.content.encode
  entriesAligned : ∀ s ∈ im.sections,
    s.header.getType = .ok .symTab ∨ s.header.getType = .ok .rela → s.header.offset.toNat % 8 = 0

/-! ### The file header -/

/-- The file header, as the reader has it. -/
def FileHeader.toHeader (h : FileHeader) (count : ℕ) : Header where
  ident := ⟨magicNum, 2, 1, h.identVersion, h.osAbi, h.abiVersion, [0, 0, 0, 0, 0, 0, 0]⟩
  body :=
    { type := h.type
      machine := h.machine
      version := UInt8.ofNat h.version.toNat
      entryPoint := h.entryPoint
      phOffset := h.phOffset
      shOffset := h.shOffset
      flags := h.flags
      headerSize := 64
      phEntrySize := h.phEntrySize
      phCount := h.phCount
      shEntrySize := 64
      shCount := UInt16.ofNat count
      shStrIndex := h.shStrIndex }

lemma decode_headerIdent (h : FileHeader) (count : ℕ) :
    Pod.decode h.encodeIdent = (h.toHeader count).ident := by
  simp [Pod.decode, FileHeader.encodeIdent, magicNum, window, field, leNat, FileHeader.toHeader]

/-- The version is the lowest byte of the four that the format has. -/
lemma field_lowest (w n : ℕ) (rest : List UInt8) :
    field (leBytes (w + 1) n ++ rest) 0 1 = n % 256 ^ 1 := by
  simp [field, window, leBytes, leNat]

lemma decode_headerBody (h : FileHeader) {count : ℕ} (hcount : count < 2 ^ 16) :
    Pod.decode (h.encodeBody count) = (h.toHeader count).body := by
  have hc : count % 256 ^ 2 = count := Nat.mod_eq_of_lt hcount
  simp (disch := decide) only [Pod.decode, FileHeader.encodeBody, field_head, field_tail,
    Nat.reduceSub, uint16_ofNat, uint32_ofNat, uint64_ofNat, hc, FileHeader.toHeader]
  have hv : UInt8.ofNat (h.version.toNat % 256 ^ 1) = UInt8.ofNat h.version.toNat :=
    UInt8.ofNat_mod_size
  rw [field_lowest, hv]
  rfl

/-- A search for the one section a test holds of. -/
lemma find?_header {q : SectionHeader → Bool} {u : Section} {ss : List Section} (hu : u ∈ ss)
    (htrue : q u.header = true) (honly : ∀ s ∈ ss, q s.header = true → s = u) :
    (ss.map (·.header)).find? q = some u.header := by
  rw [List.find?_map, Option.map_eq_some_iff]
  cases hs : ss.find? (q ∘ (·.header)) with
  | none => exact absurd htrue (List.find?_eq_none.mp hs u hu)
  | some s =>
    have hq : (q ∘ (·.header)) s = true := List.find?_some hs
    exact ⟨s, rfl, by rw [honly s (List.mem_of_find?_eq_some hs) hq]⟩

lemma str_inj {a b : String} : str a = str b ↔ a = b := by
  refine ⟨fun h => ?_, fun h => h ▸ rfl⟩
  exact String.toByteArray_inj.mp (ByteArray.ext (Array.toList_inj.mp h))

namespace Image

variable {im : Image} {input : Slice}

/-- The object file, as the reader has it. -/
def file (im : Image) (input : Slice) : ElfFile := ⟨input, im.header.toHeader im.sections.length⟩

namespace Serialised

variable (h : im.Serialised input)

include h

lemma known (hs : s ∈ im.sections) : ∃ type, s.header.getType = .ok type := by
  have hok := h.wellFormed.known s hs
  cases htype : s.header.getType with
  | ok type => exact ⟨type, rfl⟩
  | error e =>
    rw [htype] at hok
    cases hok

lemma relocations (hs : s ∈ im.sections) (htype : s.header.getType = .ok .rela) :
    ∃ rs, s.content = .relocations rs := by
  have hrela := h.wellFormed.relaContent s hs htype
  cases hcontent : s.content with
  | relocations rs => exact ⟨rs, rfl⟩
  | bytes bs =>
    rw [hcontent] at hrela
    cases hrela
  | symbols es =>
    rw [hcontent] at hrela
    cases hrela

lemma header_le : 16 + 48 ≤ input.len := by
  have hb := congrArg List.length h.body
  simp only [FileHeader.encodeBody, List.length_append, length_leBytes, List.length_nil, window,
    List.length_take, List.length_drop] at hb
  rw [Slice.len]
  omega

lemma count_lt : im.sections.length < 2 ^ 16 := h.wellFormed.count.trans (by decide)

lemma headerOf_eq : headerOf input = im.header.toHeader im.sections.length := by
  rw [headerOf, h.ident, h.body, decode_headerIdent _ im.sections.length,
    decode_headerBody _ h.count_lt]

lemma new_eq : ElfFile.new input = .ok (.ok (im.file input)) := by
  have helf : IsElf input := by
    rw [IsElf, h.headerOf_eq]
    exact ⟨h.header_le, rfl, rfl⟩
  rw [(new_cases h.aligned).1 helf, h.headerOf_eq]
  rfl

/-! ### The section table -/

/-- The header of the `i`-th section stands where the reader looks for it. -/
lemma entry_eq {i : ℕ} (hi : i < im.sections.length) :
    SafeEntry (im.file input) i ∧ Inside (im.file input) i
      ∧ entry (im.file input) i = im.sections[i].header := by
  have hcount := h.wellFormed.count
  have hbound := h.tableBound
  have hspace := h.inSpace
  have halign := h.tableAligned
  have hstart : entryStart (im.file input).header.body i = im.header.shOffset.toNat + i * 64 := by
    change (i * 64 + im.header.shOffset.toNat) % 2 ^ 64 = _
    rw [Nat.mod_eq_of_lt (by omega), Nat.add_comm]
  have hstop : entryStop (im.file input).header.body i
      = im.header.shOffset.toNat + i * 64 + 64 := by
    rw [entryStop, hstart]
    change (_ + 64) % 2 ^ 64 = _
    exact Nat.mod_eq_of_lt (by omega)
  have hin : entryStop (im.file input).header.body i ≤ input.len := by omega
  refine ⟨⟨hi.trans hcount, fun _ => ⟨by omega, le_rfl, by omega⟩⟩, hin, ?_⟩
  rw [entry, hstart]
  change Pod.decode (window input.bytes _ 64) = _
  rw [← window_window (by omega : i * 64 + 64 ≤ im.sections.length * 64), h.table,
    window_codes (fun s => s.header.length_encode) _ hi, decode_sectionHeader]

lemma sectionsFrom_eq {n i : ℕ} (hn : i + n = im.sections.length) :
    (im.file input).sectionsFrom n i = ⟨(im.sections.drop i).map (·.header), none⟩ := by
  induction n generalizing i with
  | zero =>
    rw [ElfFile.sectionsFrom, List.drop_of_length_le (by omega), List.map_nil]
  | succ n ih =>
    have hi : i < im.sections.length := by omega
    obtain ⟨hsafe, hin, hentry⟩ := h.entry_eq hi
    rw [ElfFile.sectionsFrom, (getSectionHeader_yields h.aligned).eq hsafe, if_pos hin, hentry,
      List.drop_eq_getElem_cons hi]
    simp only [ih (by omega : i + 1 + n = _), List.map_cons]

/-- **The iterator yields the sections**, in order, and then ends. -/
lemma sectionIter_eq : (im.file input).sectionIter = ⟨im.sections.map (·.header), none⟩ := by
  have hn : (im.file input).header.body.shCount.toNat = im.sections.length :=
    UInt16.toNat_ofNat_of_lt h.count_lt
  rw [ElfFile.sectionIter, hn, h.sectionsFrom_eq (by omega), List.drop_zero]

/-! ### Contents and names -/

/-- The bytes of a section of a type that holds some. -/
lemma data_eq (hs : s ∈ im.sections) {type : SectionHeaderType}
    (htype : s.header.getType = .ok type) (hdata : type ≠ .null ∧ type ≠ .noBits) :
    SafeRange (im.file input) s.header ∧ dataOf (im.file input) s.header = s.content.encode := by
  have hnull : s.header.getType ≠ .ok .null := htype ▸ mt Except.ok.inj hdata.1
  have hbits : s.header.getType ≠ .ok .noBits := htype ▸ mt Except.ok.inj hdata.2
  have hbound := h.contentBound s hs hnull hbits
  have hspace := h.inSpace
  have hstop : dataStop s.header = s.header.offset.toNat + s.header.size.toNat :=
    Nat.mod_eq_of_lt (by simp only [usizeRange]; omega)
  rw [SafeRange, dataOf, hstop, Nat.add_sub_cancel_left]
  exact ⟨⟨Nat.le_add_right _ _, hbound⟩, h.content s hs hnull hbits⟩

/-- The name of a section is found where the reader looks for it. -/
lemma name_eq (hs : s ∈ im.sections) (hnull : s.header.getType ≠ .ok .null) :
    SafeName (im.file input) s.header.name.toNat
      ∧ sectionName (im.file input) s.header = .ok (str s.name) := by
  obtain ⟨hi, hshstr⟩ := List.getElem?_eq_some_iff.mp h.wellFormed.shstr
  have hmem : im.shstr ∈ im.sections := hshstr ▸ List.getElem_mem hi
  obtain ⟨hsafe, hin, hentry⟩ := h.entry_eq hi
  obtain ⟨hrange, hdata⟩ := h.data_eq hmem h.wellFormed.shstrType (by decide)
  have hentry : entry (im.file input) (im.file input).header.body.shStrIndex.toNat
      = im.shstr.header := hentry.trans (congrArg Section.header hshstr)
  have htable : shstrTable (im.file input)
      = .ok (input.bytes.drop im.shstr.header.offset.toNat) := by
    have hle : ¬(im.file input).input.len < im.shstr.header.offset.toNat :=
      not_lt.mpr (hrange.1.trans hrange.2)
    refine (if_pos hin).trans ?_
    rw [hentry, if_neg hle]
    rfl
  have hnames : im.sectionNames <+: input.bytes.drop im.shstr.header.offset.toNat := by
    rw [h.wellFormed.shstrContent, Content.encode] at hdata
    exact hdata ▸ List.take_prefix _ _
  obtain ⟨hzero, hname⟩ := ((h.wellFormed.named s hs hnull).mono hnames).read
  refine ⟨⟨hsafe, fun table ht => ?_⟩, ?_⟩
  · rw [htable] at ht
    cases ht
    exact hzero
  · obtain ⟨type, hknown⟩ := h.known hs
    rw [sectionName, hknown, htable, Except.map, hname]
    cases type <;> first | exact absurd hknown hnull | rfl

/-- **The name of a section** is the one it was given. -/
lemma getName_eq (hs : s ∈ im.sections) (hnull : s.header.getType ≠ .ok .null) :
    s.header.getName (im.file input) = .ok (.ok (str s.name)) := by
  obtain ⟨hsafe, hname⟩ := h.name_eq hs hnull
  rw [(getName_yields h.aligned).eq fun _ => hsafe, hname]

/-! ### Symbols and relocation entries -/

/-- A section that holds the codes of entries, of 24 bytes each. -/
lemma array_eq (α : Type) [Pod α] {β : Type} {f : β → List UInt8} {g : β → α} {bs : List β}
    (hs : s ∈ im.sections) (htype : s.header.getType = .ok .symTab ∨ s.header.getType = .ok .rela)
    (hcontent : s.content.encode = bs.flatMap f) (hsize : Pod.size α = 24)
    (hlen : ∀ b, (f b).length = 24) (hdecode : ∀ b, Pod.decode (f b) = g b) :
    SafeArray (im.file input) s.header
      ∧ elements α (dataOf (im.file input) s.header) = bs.map g := by
  have hdata : SafeRange (im.file input) s.header
      ∧ dataOf (im.file input) s.header = s.content.encode := by
    rcases htype with ht | ht
    · exact h.data_eq hs ht (by decide)
    · exact h.data_eq hs ht (by decide)
  obtain ⟨hrange, hdata⟩ := hdata
  rw [SafeArray, hdata, hcontent, length_codes hlen]
  refine ⟨⟨hrange, Nat.mul_mod_left _ _, h.entriesAligned s hs htype⟩, ?_⟩
  exact elements_codes (fun b => (hlen b).trans hsize.symm) hdecode (by omega) bs

/-- **The symbols** are those that were encoded. -/
lemma getSymbolTable_eq : (im.file input).getSymbolTable =
    .ok (.ok (im.symbols.map (·.entry))) := by
  have harray {s : Section} (hs : s ∈ im.sections) (ht : s.header.getType = .ok .symTab) :
      SafeArray (im.file input) s.header
        ∧ elements SymbolTableEntry (dataOf (im.file input) s.header)
          = im.symbols.map (·.entry) := by
    refine h.array_eq _ hs (.inl ht) ?_ rfl (fun e => e.entry.length_encode)
      (fun e => decode_symbol e.entry)
    rw [h.wellFormed.symtabOnly s hs ht, h.wellFormed.symtabContent]
    rfl
  have hmem := h.wellFormed.symtab
  have htype := h.wellFormed.symtabType
  have hfind : (im.sections.map (·.header)).find? (·.isType .symTab) = some im.symtab.header :=
    find?_header hmem (isType_iff.mpr htype) fun s hs ht =>
      h.wellFormed.symtabOnly s hs (isType_iff.mp ht)
  rw [Elf.getSymbolTable_eq h.aligned h.sectionIter_eq, hfind]
  · simp only [(harray hmem htype).2]
  · intro hd hhd ht
    obtain ⟨s, hs, rfl⟩ := List.mem_map.mp hhd
    exact (harray hs ht).1

/-- **The name of a symbol** is the one it was given. -/
lemma getString_eq {e : Symbol} (he : e ∈ im.symbols) :
    (im.file input).getString e.entry.name.toNat = .ok (.ok (str e.name)) := by
  have htype := h.wellFormed.strtabType
  have hmem := h.wellFormed.strtab
  have hnull : im.strtab.header.getType ≠ .ok .null := by
    rw [htype]
    decide
  have hname : ∀ s ∈ im.sections, Named s.header → s.header.getType ≠ .ok .null := by
    rintro s - ⟨type, ht, hne⟩ hc
    exact hne (Except.ok.inj (ht.symm.trans hc))
  have hfind : (im.file input).findSectionByName (str ".strtab") = .ok (some im.strtab.header) := by
    rw [findSectionByName_eq h.aligned h.sectionIter_eq, find?_header hmem]
    · rw [(h.name_eq hmem hnull).2, h.wellFormed.strtabName]
      exact decide_eq_true rfl
    · intro s hs ht
      by_cases hs₀ : s.header.getType = .ok .null
      · simp [sectionName, hs₀] at ht
      · rw [(h.name_eq hs hs₀).2, decide_eq_true_eq] at ht
        exact h.wellFormed.strtabOnly s hs hs₀ (str_inj.mp (Except.ok.inj ht))
    · intro hd hhd hnamed
      obtain ⟨s, hs, rfl⟩ := List.mem_map.mp hhd
      exact (h.name_eq hs (hname s hs hnamed)).1
  obtain ⟨hrange, hdata⟩ := h.data_eq hmem htype (by decide)
  rw [h.wellFormed.strtabContent, Content.encode] at hdata
  obtain ⟨hzero, hread⟩ := (h.wellFormed.symbolNamed e he).read
  have hsafe : SafeString ((dataOf (im.file input) im.strtab.header).drop e.entry.name.toNat) := by
    rw [SafeString, hdata, hread]
    exact ⟨hzero, ByteArray.validateUTF8_eq_true_iff.mpr e.name.isValidUTF8⟩
  rw [(getString_yields hfind htype hrange _).eq hsafe, hdata, hread]

/-- **The entries of a relocation section** are those that were encoded. -/
lemma getData_rela (hs : s ∈ im.sections) (htype : s.header.getType = .ok .rela)
    {rs : List Relocation} (hcontent : s.content = .relocations rs) :
    s.header.getData (im.file input) = .ok (.ok (.rela (rs.map Relocation.toRela))) := by
  obtain ⟨hsafe, harray⟩ := h.array_eq Rela hs (.inr htype) (by rw [hcontent]; rfl) rfl
    Relocation.length_encode decode_rela
  rw [SectionHeader.getData, htype, ← harray]
  exact ((rawArray_yields htype (by simp) Rela _ h.aligned rfl rfl).map _).eq hsafe

end Serialised

/-! ### Decoding inverts encoding -/

/-- An object file with one section, its symbol, a relocation entry for it and the tables; the
flags of the section and the entry are left open. -/
def sample (flags : UInt64) (r : Relocation) : Image :=
  let sectionNames := str "\x00.text.f\x00.symtab\x00.strtab\x00.shstrtab\x00.rela.text.f\x00"
  let symbolNames := str "\x00main\x00"
  let symbols : List Symbol := [⟨⟨0, 0, 0, 0, 0, 0⟩, ""⟩, ⟨⟨1, 0x12, 0, 1, 0, 8⟩, "main"⟩]
  let shstr : Section :=
    ⟨⟨25, 3, 0, 0, 128, 48, 0, 0, 1, 0⟩, ".shstrtab", .bytes sectionNames⟩
  let strtab : Section := ⟨⟨17, 3, 0, 0, 120, 6, 0, 0, 1, 0⟩, ".strtab", .bytes symbolNames⟩
  let symtab : Section := ⟨⟨9, 2, 0, 0, 72, 48, 3, 1, 8, 24⟩, ".symtab", .symbols symbols⟩
  { header := ⟨1, 0, 0, 1, 62, 1, 0, 0, 200, 0, 0, 0, 4⟩
    sections :=
      [⟨⟨0, 0, 0, 0, 0, 0, 0, 0, 0, 0⟩, "", .bytes []⟩,
        ⟨⟨1, 1, flags, 0, 64, 8, 0, 0, 16, 0⟩, ".text.f", .bytes [0, 0, 0, 0, 0, 0, 0, 0]⟩,
        symtab, strtab, shstr,
        ⟨⟨35, 4, 0x40, 0, 176, 24, 2, 1, 8, 24⟩, ".rela.text.f", .relocations [r]⟩]
    shstr, strtab, symtab, sectionNames, symbolNames, symbols }

/-- The bytes of a `sample`: the contents one after the other, then the section table. -/
def sampleBytes (flags : UInt64) (r : Relocation) : List UInt8 :=
  let im := sample flags r
  im.header.encodeIdent ++ im.header.encodeBody 6 ++
    (List.replicate 8 0 ++ im.symtab.content.encode ++ im.symbolNames ++ [0, 0] ++
      im.sectionNames ++ r.encode) ++
    im.sections.flatMap fun s => s.header.encode

/-- A loaded `.text` section with an entry of type `R_X86_64_64`. -/
def small : Image := sample 6 ⟨0, 1, 1, 5⟩

def smallInput : Slice := ⟨4096, sampleBytes 6 ⟨0, 1, 1, 5⟩⟩

lemma small_wellFormed : small.WellFormed where
  count := by decide +kernel
  known := by decide +kernel
  shstr := by decide +kernel
  shstrType := by decide +kernel
  shstrContent := by decide +kernel
  named := by decide +kernel
  strtab := by decide +kernel
  strtabType := by decide +kernel
  strtabContent := by decide +kernel
  strtabName := by decide +kernel
  strtabOnly := by decide +kernel
  symtab := by decide +kernel
  symtabType := by decide +kernel
  symtabContent := by decide +kernel
  symtabOnly := by decide +kernel
  symbolNamed := by decide +kernel
  relaContent := by decide +kernel

lemma small_serialised : small.Serialised smallInput where
  wellFormed := small_wellFormed
  inSpace := by decide +kernel
  aligned := by decide +kernel
  ident := by decide +kernel
  body := by decide +kernel
  tableBound := by decide +kernel
  tableAligned := by decide +kernel
  table := by decide +kernel
  contentBound := by decide +kernel
  contentSize := by decide +kernel
  content := by decide +kernel
  entriesAligned := by decide +kernel

/-- **Decoding inverts encoding**: on a buffer that holds an object file, the reader returns the
sections, their names, the symbols, their names and the relocation entries that were encoded. -/
theorem decode_encode (h : im.Serialised input) :
    ∃ file, ElfFile.new input = .ok (.ok file) ∧
      file.sectionIter = ⟨im.sections.map (·.header), none⟩ ∧
      (∀ s ∈ im.sections, s.header.getType ≠ .ok .null →
        s.header.getName file = .ok (.ok (str s.name))) ∧
      file.getSymbolTable = .ok (.ok (im.symbols.map (·.entry))) ∧
      (∀ e ∈ im.symbols, e.entry.getName file = .ok (.ok (str e.name))) ∧
      ∀ s ∈ im.sections, s.header.getType = .ok .rela →
        ∃ rs entries, s.content = .relocations rs ∧
          s.header.getData file = .ok (.ok (.rela entries)) ∧
          entries.map (fun r => (r.offset, r.getSymbolTableIndex, r.getType, r.addend)) =
            rs.map (fun r => (r.offset, r.symbol.toNat, r.type.toNat, r.addend)) := by
  refine ⟨im.file input, h.new_eq, h.sectionIter_eq, fun s hs => h.getName_eq hs,
    h.getSymbolTable_eq, fun e he => h.getString_eq he, fun s hs htype => ?_⟩
  obtain ⟨rs, hcontent⟩ := h.relocations hs htype
  refine ⟨rs, _, hcontent, h.getData_rela hs htype hcontent, ?_⟩
  rw [List.map_map]
  refine List.map_congr_left fun r _ => ?_
  obtain ⟨hsymbol, htype⟩ := r.toRela_fields
  rw [Function.comp, hsymbol, htype]
  rfl

/-- The object file `small` is read back. -/
theorem decode_encode_small : small.Serialised smallInput ∧
    ∃ file, ElfFile.new smallInput = .ok (.ok file) ∧
      file.sectionIter.sections = small.sections.map (·.header) ∧
      file.getSymbolTable = .ok (.ok (small.symbols.map (·.entry))) := by
  refine ⟨small_serialised, ?_⟩
  obtain ⟨file, hnew, hiter, -, hsymbols, -, -⟩ := decode_encode small_serialised
  exact ⟨file, hnew, by rw [hiter], hsymbols⟩

end Image

end Rhubarb.Elf
