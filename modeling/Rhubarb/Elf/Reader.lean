import Rhubarb.Elf.Format

/-!
What the ELF reader returns, and where it panics (`crates/elf/src/elf.rs`).

Each function of the reader is given by the condition under which it does not panic, which is one
on the bytes of the file, and by the value that it then returns.

* `Yields`: a call returns a value exactly under a condition.
* `new_cases`, `getSectionHeader_yields`, `getName_yields`, `rawData_yields`, `rawArray_yields`,
  `getString_yields`: the functions of the reader.
* `SafeEntry`, `SafeName`, `SafeRange`, `SafeArray`, `SafeString`: their conditions.
-/

namespace Rhubarb.Elf

open Foundations

/-! ### Exact conditions -/

section Yields

variable {π α β : Type} {x : Except π α} {f : α → Except π β} {P Q : Prop} {v : α} {w : β}

/-- A call returns the value if the condition holds, and panics otherwise. -/
structure Yields (x : Except π α) (P : Prop) (v : α) : Prop where
  eq : P → x = .ok v
  panics : ¬P → ∃ p, x = .error p

/-- A call that returns. -/
def Returns (x : Except π α) : Prop := ∃ a, x = .ok a

lemma Yields.returns_iff (h : Yields x P v) : Returns x ↔ P := by
  refine ⟨?_, fun hP => ⟨v, h.eq hP⟩⟩
  rintro ⟨a, ha⟩
  by_contra hP
  obtain ⟨p, hp⟩ := h.panics hP
  rw [ha] at hp
  cases hp

lemma yields_ok (hP : P) : Yields (.ok v : Except π α) P v := ⟨fun _ => rfl, fun h => absurd hP h⟩

lemma yields_error {p : π} (hP : ¬P) : Yields (.error p : Except π α) P v :=
  ⟨fun h => absurd h hP, fun _ => ⟨p, rfl⟩⟩

/-- The rule of sequencing. -/
lemma Yields.bind (hx : Yields x P v) (hf : P → Yields (f v) Q w) :
    Yields (x >>= f) (P ∧ Q) w := by
  by_cases hP : P
  · rw [bind_of_ok (hx.eq hP)]
    exact ⟨fun h => (hf hP).eq h.2, fun h => (hf hP).panics fun hQ => h ⟨hP, hQ⟩⟩
  · obtain ⟨p, rfl⟩ := hx.panics hP
    exact yields_error fun h => hP h.1

lemma Yields.map (hx : Yields x P v) (g : α → β) : Yields (g <$> x) P (g v) := by
  by_cases hP : P
  · rw [hx.eq hP]
    exact yields_ok hP
  · obtain ⟨p, rfl⟩ := hx.panics hP
    exact yields_error hP

lemma Yields.congr (h : Yields x P v) (hPQ : P ↔ Q) : Yields x Q v :=
  ⟨fun hQ => h.eq (hPQ.mpr hQ), fun hQ => h.panics (mt hPQ.mp hQ)⟩

/-- The rule of sequencing, if the second condition is the stronger one. -/
lemma Yields.bind_of_imp (hx : Yields x P v) (hf : P → Yields (f v) Q w) (hQ : Q → P) :
    Yields (x >>= f) Q w :=
  (hx.bind hf).congr (and_iff_right_of_imp hQ)

end Yields

/-! ### Reading -/

section Reading

variable {s : Slice} {start stop : ℕ}

lemma range_yields : Yields (s.range start stop) (start ≤ stop ∧ stop ≤ s.len)
    ⟨s.addr + start, window s.bytes start (stop - start)⟩ :=
  ⟨fun h => if_pos h, fun h => ⟨_, if_neg h⟩⟩

lemma rangeFrom_yields :
    Yields (s.rangeFrom start) (start ≤ s.len) ⟨s.addr + start, s.bytes.drop start⟩ := by
  have hfull : window s.bytes start (s.len - start) = s.bytes.drop start := by
    rw [window, List.take_of_length_le (by rw [List.length_drop, Slice.len])]
  exact hfull ▸ range_yields.congr (and_iff_left le_rfl)

/-- A record is read from a range of the buffer. -/
lemma read_range_yields {α : Type} [Pod α] :
    Yields (s.range start stop >>= Pod.read α)
      ((start ≤ stop ∧ stop ≤ s.len) ∧ Pod.size α ≤ stop - start
        ∧ (s.addr + start) &&& (Pod.align α - 1) = 0)
      (Pod.decode (window s.bytes start (Pod.size α))) := by
  refine range_yields.bind fun h => ?_
  have hlen : (window s.bytes start (stop - start)).length = stop - start :=
    length_window (by rw [Slice.len] at h; omega)
  rw [Pod.read, Slice.len, hlen]
  split_ifs with hsize halign
  · exact yields_error fun hc => absurd hc.1 (not_le.mpr hsize)
  · exact yields_error fun hc => halign hc.2
  · rw [window_window (by omega), Nat.add_zero]
    exact yields_ok ⟨not_lt.mp hsize, not_not.mp halign⟩

/-- The elements of an array. -/
def elements (α : Type) [Pod α] (bytes : List UInt8) : List α :=
  (List.range (bytes.length / Pod.size α)).map fun i =>
    Pod.decode (window bytes (i * Pod.size α) (Pod.size α))

lemma readArray_yields {α : Type} [Pod α] :
    Yields (Pod.readArray α s) (s.len % Pod.size α = 0 ∧ s.addr &&& (Pod.align α - 1) = 0)
      (elements α s.bytes) := by
  rw [Pod.readArray]
  split_ifs with hsize halign
  · exact yields_error fun h => hsize h.1
  · exact yields_error fun h => halign h.2
  · exact yields_ok ⟨not_not.mp hsize, not_not.mp halign⟩

/-- The elements are those whose codes, all of one width, stand one after the other. -/
lemma elements_codes {α β : Type} [Pod α] {f : β → List UInt8} {g : β → α}
    (hlen : ∀ b, (f b).length = Pod.size α) (hdecode : ∀ b, Pod.decode (f b) = g b)
    (hsize : 0 < Pod.size α) (bs : List β) : elements α (bs.flatMap f) = bs.map g := by
  rw [elements, length_codes hlen, Nat.mul_div_cancel _ hsize]
  refine List.ext_getElem (by simp) fun i h₁ h₂ => ?_
  have hi : i < bs.length := by simpa using h₂
  simp only [List.getElem_map, List.getElem_range]
  rw [window_codes hlen bs hi, hdecode]

lemma readUntilNull_yields :
    Yields (Pod.readUntilNull s) (0 ∈ s.bytes) (s.bytes.takeWhile (· ≠ 0)) :=
  ⟨fun h => if_pos h, fun h => ⟨_, if_neg h⟩⟩

/-- A string is read without a panic: it ends with a null byte and is text. -/
def SafeString (bytes : List UInt8) : Prop :=
  0 ∈ bytes ∧ ByteArray.validateUTF8 ⟨(bytes.takeWhile (· ≠ 0)).toArray⟩ = true

lemma readStr_yields :
    Yields (Pod.readStr s) (SafeString s.bytes) (s.bytes.takeWhile (· ≠ 0)) := by
  refine readUntilNull_yields.bind fun _ => ?_
  split_ifs with hvalid
  · exact yields_ok hvalid
  · exact yields_error hvalid

lemma le_of_mem_drop {b : UInt8} {bs : List UInt8} {i : ℕ} (h : b ∈ bs.drop i) :
    i ≤ bs.length := by
  have hpos := List.length_pos_of_mem h
  rw [List.length_drop] at hpos
  omega

end Reading

lemma and_seven_iff {n : ℕ} : n &&& (8 - 1) = 0 ↔ n % 8 = 0 :=
  iff_of_eq (congrArg (· = 0) (Nat.and_two_pow_sub_one_eq_mod n 3))

/-! ### The file header -/

section FileHeader

variable {input : Slice}

/-- The header, where it stands. -/
def headerOf (input : Slice) : Header :=
  ⟨Pod.decode (window input.bytes 0 16), Pod.decode (window input.bytes 16 48)⟩

/-- The checks on the header. -/
def IsElf (input : Slice) : Prop :=
  64 ≤ input.len ∧ (headerOf input).ident.magic = magicNum ∧ (headerOf input).ident.class = 2

/-- The constructor never panics. -/
lemma new_cases (ha : input.addr % 8 = 0) :
    (IsElf input → ElfFile.new input = .ok (.ok ⟨input, headerOf input⟩))
      ∧ (¬IsElf input → ∃ e, ElfFile.new input = .ok (.error e)) := by
  rw [ElfFile.new, Header.parse]
  split_ifs with h₁ h₂
  · exact ⟨fun h => absurd h.1 (by omega), fun _ => ⟨_, rfl⟩⟩
  · exact ⟨fun h => absurd h.1 (by omega), fun _ => ⟨_, rfl⟩⟩
  · have hident : (input.range 0 16 >>= Pod.read HeaderIdent) = .ok (headerOf input).ident :=
      read_range_yields.eq ⟨⟨by omega, by omega⟩, le_rfl, Nat.and_zero _⟩
    have hbody : (input.range 16 64 >>= Pod.read HeaderBody) = .ok (headerOf input).body :=
      read_range_yields.eq ⟨⟨by omega, by omega⟩, le_rfl, and_seven_iff.mpr (by omega)⟩
    simp only [← bind_assoc, hident, hbody]
    by_cases hmagic : (headerOf input).ident.magic = magicNum
    · by_cases hclass : (headerOf input).ident.class = 2
      · refine ⟨fun _ => ?_, fun h => absurd ⟨by omega, hmagic, hclass⟩ h⟩
        simp [hmagic, hclass, Bind.bind, Except.bind]
      · refine ⟨fun h => absurd h.2.2 hclass, fun _ => ⟨"Invalid class", ?_⟩⟩
        simp [hmagic, hclass, Bind.bind, Except.bind]
    · refine ⟨fun h => absurd h.2.1 hmagic, fun _ => ⟨"Invalid magic number", ?_⟩⟩
      simp [hmagic, Bind.bind, Except.bind]

end FileHeader

/-! ### Section headers -/

section Entries

/-- Where the section header of an index starts, as it is computed. -/
def entryStart (body : HeaderBody) (i : ℕ) : ℕ :=
  wrappingAdd (i * body.shEntrySize.toNat) body.shOffset.toNat

def entryStop (body : HeaderBody) (i : ℕ) : ℕ :=
  wrappingAdd (entryStart body i) body.shEntrySize.toNat

/-- The check of the source: the file is long enough for the section header. -/
def Inside (file : ElfFile) (i : ℕ) : Prop := entryStop file.header.body i ≤ file.input.len

instance (file : ElfFile) (i : ℕ) : Decidable (Inside file i) := inferInstanceAs (Decidable (_ ≤ _))

/-- A section header is read without a panic: its index is not reserved, and if the file is long
enough for it, then its end does not wrap, it has the size of a header and it is aligned. -/
def SafeEntry (file : ElfFile) (i : ℕ) : Prop :=
  i < shnLoreserve ∧ (Inside file i → entryStart file.header.body i ≤ entryStop file.header.body i
    ∧ 64 ≤ file.header.body.shEntrySize.toNat ∧ entryStart file.header.body i % 8 = 0)

/-- The section header of an index. -/
def entry (file : ElfFile) (i : ℕ) : SectionHeader :=
  Pod.decode (window file.input.bytes (entryStart file.header.body i) 64)

/-- An end that does not wrap is the size away. -/
lemma entryStop_sub {body : HeaderBody} {i : ℕ} (h : entryStart body i ≤ entryStop body i) :
    entryStop body i - entryStart body i = body.shEntrySize.toNat := by
  have hstart : entryStart body i < 2 ^ 64 := Nat.mod_lt _ (Nat.two_pow_pos 64)
  have hsize : body.shEntrySize.toNat < 2 ^ 16 := body.shEntrySize.toNat_lt
  simp only [entryStop, wrappingAdd, usizeRange] at h ⊢
  omega

variable {file : ElfFile} {i : ℕ}

lemma getSectionHeader_yields (ha : file.input.addr % 8 = 0) :
    Yields (file.getSectionHeader i) (SafeEntry file i)
      (if Inside file i then .ok (entry file i)
        else .error "File is shorter than section header offset") := by
  have hparse : file.getSectionHeader i
      = if shnLoreserve ≤ i then .error .reservedIndex
        else if file.input.len < entryStop file.header.body i then
          .ok (.error "File is shorter than section header offset")
        else Except.ok <$> (file.input.range (entryStart file.header.body i)
          (entryStop file.header.body i) >>= Pod.read SectionHeader) := by
    rw [ElfFile.getSectionHeader, SectionHeader.parse]
    simp only [map_eq_pure_bind, bind_assoc]
    rfl
  rw [hparse]
  by_cases hres : shnLoreserve ≤ i
  · rw [if_pos hres]
    exact yields_error fun h => absurd h.1 (not_lt.mpr hres)
  rw [if_neg hres]
  by_cases hin : Inside file i
  · rw [if_neg (not_lt.mpr hin), if_pos hin]
    refine (read_range_yields.map _).congr ?_
    have halign : (file.input.addr + entryStart file.header.body i) &&& (8 - 1) = 0
        ↔ entryStart file.header.body i % 8 = 0 := by
      rw [and_seven_iff]
      omega
    constructor
    · rintro ⟨⟨hle, -⟩, hsize, hal⟩
      exact ⟨not_le.mp hres, fun _ => ⟨hle, entryStop_sub hle ▸ hsize, halign.mp hal⟩⟩
    · rintro ⟨-, hsafe⟩
      obtain ⟨hle, hsize, hal⟩ := hsafe hin
      exact ⟨⟨hle, hin⟩, (entryStop_sub hle).symm ▸ hsize, halign.mpr hal⟩
  · rw [if_pos (not_le.mp hin), if_neg hin]
    exact yields_ok ⟨not_le.mp hres, fun h => absurd h hin⟩

end Entries

/-! ### Names of sections -/

section Names

variable {file : ElfFile} {h : SectionHeader}

/-- The bytes from the first name on. -/
def shstrTable (file : ElfFile) : Except String (List UInt8) :=
  let i := file.header.body.shStrIndex.toNat
  if Inside file i then
    if file.input.len < (entry file i).offset.toNat then
      .error "File is shorter than section offset"
    else .ok (file.input.bytes.drop (entry file i).offset.toNat)
  else .error "File is shorter than section header offset"

/-- A name is read without a panic: the section header of the names is, and a null byte follows
where the name starts. -/
def SafeName (file : ElfFile) (index : ℕ) : Prop :=
  SafeEntry file file.header.body.shStrIndex.toNat
    ∧ ∀ table, shstrTable file = .ok table → 0 ∈ table.drop index

lemma getShstrTable_yields (ha : file.input.addr % 8 = 0) :
    ∃ addr, Yields file.getShstrTable (SafeEntry file file.header.body.shStrIndex.toNat)
      ((shstrTable file).map (Slice.mk addr)) := by
  refine ⟨file.input.addr + (entry file file.header.body.shStrIndex.toNat).offset.toNat,
    ((getSectionHeader_yields ha).bind fun _ => (?_ : Yields _ True _)).congr
      (and_iff_left True.intro)⟩
  rw [shstrTable]
  by_cases hin : Inside file file.header.body.shStrIndex.toNat
  · simp only [hin, if_true]
    split_ifs with hlt
    · exact yields_ok True.intro
    · rw [rangeFrom_yields.eq (not_lt.mp hlt)]
      exact yields_ok True.intro
  · simp only [hin, if_false]
    exact yields_ok True.intro

/-- The name at an index. -/
lemma getShstr_yields (ha : file.input.addr % 8 = 0) (index : ℕ) :
    Yields (file.getShstr index) (SafeName file index)
      ((shstrTable file).map fun table => (table.drop index).takeWhile (· ≠ 0)) := by
  obtain ⟨addr, htable⟩ := getShstrTable_yields ha
  refine htable.bind fun _ => ?_
  cases shstrTable file with
  | error e => exact yields_ok nofun
  | ok table =>
    have hread : Yields ((Slice.mk addr table).rangeFrom index >>= fun rest =>
        Pod.readUntilNull rest >>= fun name => .ok (.ok name : Except String Str))
        (0 ∈ table.drop index) (.ok ((table.drop index).takeWhile (· ≠ 0))) :=
      rangeFrom_yields.bind_of_imp (fun _ => readUntilNull_yields.map _) le_of_mem_drop
    exact hread.congr ⟨fun h _ heq => Except.ok.inj heq ▸ h, fun h => h table rfl⟩

/-- A section that has a name, for the reader. -/
def Named (h : SectionHeader) : Prop := ∃ type, h.getType = .ok type ∧ type ≠ .null

/-- The name of a section. -/
def sectionName (file : ElfFile) (h : SectionHeader) : Except String Str :=
  match h.getType with
  | .error e => .error e
  | .ok .null => .error "Attempted to get name of null section"
  | .ok _ => (shstrTable file).map fun table => (table.drop h.name.toNat).takeWhile (· ≠ 0)

lemma getName_yields (ha : file.input.addr % 8 = 0) :
    Yields (h.getName file) (Named h → SafeName file h.name.toNat) (sectionName file h) := by
  rw [SectionHeader.getName, sectionName, Named]
  cases htype : h.getType with
  | error e => exact yields_ok (by simp)
  | ok type => cases type <;>
      first
      | exact yields_ok (by simp)
      | exact (getShstr_yields ha _).congr (by simp)

end Names

/-! ### Data -/

section Data

variable {file : ElfFile} {h : SectionHeader}

/-- Where the data of a section ends, as it is computed. -/
def dataStop (h : SectionHeader) : ℕ := wrappingAdd h.offset.toNat h.size.toNat

def dataOf (file : ElfFile) (h : SectionHeader) : List UInt8 :=
  window file.input.bytes h.offset.toNat (dataStop h - h.offset.toNat)

/-- The data are read without a panic: their end does not wrap and is inside the file. -/
def SafeRange (file : ElfFile) (h : SectionHeader) : Prop :=
  h.offset.toNat ≤ dataStop h ∧ dataStop h ≤ file.input.len

/-- An array of symbols or relocation entries, of 24 bytes each, is read without a panic. -/
def SafeArray (file : ElfFile) (h : SectionHeader) : Prop :=
  SafeRange file h ∧ (dataOf file h).length % 24 = 0 ∧ h.offset.toNat % 8 = 0

variable {type : SectionHeaderType} (htype : h.getType = .ok type) (hnull : type ≠ .null)

include htype hnull

lemma rawData_yields :
    Yields (h.rawData file) (SafeRange file h)
      ⟨file.input.addr + h.offset.toNat, dataOf file h⟩ := by
  have hraw : h.rawData file = file.input.range h.offset.toNat (dataStop h) := by
    rw [SectionHeader.rawData, htype]
    cases type <;> first | rfl | exact absurd rfl hnull
  rw [hraw]
  exact range_yields

lemma rawArray_yields (α : Type) [Pod α] {β : Type} (g : List α → β)
    (ha : file.input.addr % 8 = 0) (hsize : Pod.size α = 24) (halign : Pod.align α = 8) :
    Yields (h.rawData file >>= fun data => g <$> Pod.readArray α data) (SafeArray file h)
      (g (elements α (dataOf file h))) := by
  refine (rawData_yields htype hnull).bind fun hr => (readArray_yields.map g).congr ?_
  rw [hsize, halign, and_seven_iff, Slice.len]
  simp only
  omega

end Data

/-! ### Lookups -/

section Lookups

variable {file : ElfFile} {h : SectionHeader} {hs : List SectionHeader}

lemma isType_iff {type : SectionHeaderType} : h.isType type = true ↔ h.getType = .ok type := by
  rw [SectionHeader.isType]
  cases h.getType with
  | error e => simp
  | ok t => simp

/-- A search that does not panic is one for a pure test. -/
lemma findIn_pure {p : SectionHeader → Except Panic Bool} {q : SectionHeader → Bool}
    (hp : ∀ h ∈ hs, p h = .ok (q h)) : SectionIter.findIn none p hs = .ok (hs.find? q) := by
  induction hs with
  | nil => rfl
  | cons h hs ih =>
    rw [SectionIter.findIn, bind_of_ok (hp h (by simp)), List.find?_cons]
    cases q h
    · exact ih fun x hx => hp x (by simp [hx])
    · rfl

/-- The name of a symbol. -/
lemma getString_yields (hfind : file.findSectionByName (str ".strtab") = .ok (some h))
    (htype : h.getType = .ok .strTab) (hsafe : SafeRange file h) (index : ℕ) :
    Yields (file.getString index) (SafeString ((dataOf file h).drop index))
      (.ok (((dataOf file h).drop index).takeWhile (· ≠ 0))) := by
  rw [ElfFile.getString, bind_of_ok hfind]
  simp only [htype, bind_of_ok ((rawData_yields htype nofun).eq hsafe)]
  exact rangeFrom_yields.bind_of_imp (fun _ => readStr_yields.map _) fun h => le_of_mem_drop h.1

variable (ha : file.input.addr % 8 = 0) (hiter : file.sectionIter = ⟨hs, none⟩)

include ha hiter

/-- The symbols of the first section of its type. -/
lemma getSymbolTable_eq (hsafe : ∀ h ∈ hs, h.getType = .ok .symTab → SafeArray file h) :
    file.getSymbolTable = .ok (match hs.find? (·.isType .symTab) with
      | none => .error "no symbol table found, file may have been stripped"
      | some h => .ok (elements SymbolTableEntry (dataOf file h))) := by
  have hfind : file.sectionIter.find (fun h => .ok (h.isType .symTab))
      = .ok (hs.find? (·.isType .symTab)) := by
    rw [hiter]
    exact findIn_pure fun _ _ => rfl
  rw [ElfFile.getSymbolTable, bind_of_ok hfind]
  cases hh : hs.find? (·.isType .symTab) with
  | none => rfl
  | some h =>
    have htype : h.getType = .ok .symTab := isType_iff.mp (by simpa using List.find?_some hh)
    have hdata : h.getData file
        = .ok (.ok (.symbolTable (elements SymbolTableEntry (dataOf file h)))) := by
      rw [SectionHeader.getData, htype]
      exact ((rawArray_yields htype nofun SymbolTableEntry _ ha rfl rfl).map _).eq
        (hsafe h (List.mem_of_find?_eq_some hh) htype)
    exact bind_of_ok hdata _

/-- The first section of a name. -/
lemma findSectionByName_eq
    (hname : ∀ h ∈ hs, Named h → SafeName file h.name.toNat) (name : Str) :
    file.findSectionByName name = .ok (hs.find? fun h => sectionName file h = .ok name) := by
  rw [ElfFile.findSectionByName, hiter]
  refine findIn_pure fun h hh => ?_
  rw [bind_of_ok ((getName_yields ha).eq (hname h hh))]
  cases sectionName file h with
  | error e => rfl
  | ok n => simp

end Lookups

end Rhubarb.Elf
