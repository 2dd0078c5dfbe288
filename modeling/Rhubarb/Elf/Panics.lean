import Rhubarb.Elf.Reader

/-!
Where the ELF reader panics (`crates/elf/src/elf.rs`, `crates/pod/src/pod.rs`).

Of what a file says, the reader checks that it is long enough for its headers, but little else:
the sizes of entries, the places of strings and the ranges and alignments of the sections' data are
taken as they are, and slicing or an assertion ends in a panic if they are wrong.

* `sectionsFrom_spec`: what the iterator over the sections yields.
* `SafeFile`: the conditions of all calls, on the bytes.
* `noPanic_iff`: no call panics exactly if these conditions hold.
-/

namespace Rhubarb.Elf

open Foundations

/-! ### The section table -/

section Table

variable {file : ElfFile} {i : ℕ}

/-- The table is iterated without a panic: every section header that is reached is safe. -/
def SafeTable (file : ElfFile) (n i : ℕ) : Prop :=
  ∀ j < n, (∀ k < j, Inside file (i + k)) → SafeEntry file (i + j)

lemma safeTable_succ {n : ℕ} : SafeTable file (n + 1) i
    ↔ SafeEntry file i ∧ (Inside file i → SafeTable file n (i + 1)) := by
  have hnext (k : ℕ) : i + (k + 1) = i + 1 + k := by omega
  rw [SafeTable, Nat.forall_lt_succ_left]
  refine and_congr ⟨fun h => h nofun, fun h _ => h⟩ ⟨fun h hin j hj hk => ?_, fun h j hj hk => ?_⟩
  · rw [← hnext]
    exact h j hj (Nat.forall_lt_succ_left.mpr ⟨hin, fun k hkj => hnext k ▸ hk k hkj⟩)
  · rw [hnext]
    exact h (hk 0 (Nat.succ_pos _)) j hj fun k hkj => hnext k ▸ hk (k + 1) (by omega)

/-- **The iterator**: it ends without a panic exactly if the table is safe, and then it has yielded
the headers up to the first that is not inside the file. -/
lemma sectionsFrom_spec (ha : file.input.addr % 8 = 0) (n i : ℕ) :
    ((file.sectionsFrom n i).stop = none ↔ SafeTable file n i)
    ∧ (SafeTable file n i → (file.sectionsFrom n i).sections
      = ((List.range' i n).takeWhile (Inside file ·)).map (entry file)) := by
  induction n generalizing i with
  | zero => exact ⟨iff_of_true rfl nofun, fun _ => rfl⟩
  | succ n ih =>
    obtain ⟨heq, hpanics⟩ := getSectionHeader_yields ha (i := i)
    rw [safeTable_succ, ElfFile.sectionsFrom, List.range'_succ]
    by_cases hsafe : SafeEntry file i
    · rw [heq hsafe]
      by_cases hin : Inside file i
      · simp [hin, hsafe, ih (i + 1)]
        exact (ih (i + 1)).2
      · simp [hin, hsafe]
    · obtain ⟨p, hp⟩ := hpanics hsafe
      simp [hp, hsafe]

/-- The section headers the iterator yields. -/
def listed (file : ElfFile) : List SectionHeader :=
  ((List.range file.header.body.shCount.toNat).takeWhile (Inside file ·)).map (entry file)

end Table

/-! ### Data -/

section Data

variable {file : ElfFile} {h : SectionHeader}

/-- The condition of `get_data` on the sections the loader uses. -/
def SafeData (file : ElfFile) (h : SectionHeader) : Prop :=
  match h.getType with
  | .ok .progBits | .ok .strTab => SafeRange file h
  | .ok .symTab | .ok .rela => SafeArray file h
  | _ => True

/-- The types of the sections that are asked for their data. -/
def dataTypes : List SectionHeaderType := [.progBits, .noBits, .strTab, .symTab, .rela]

lemma getData_returns_iff {type : SectionHeaderType} (ha : file.input.addr % 8 = 0)
    (htype : h.getType = .ok type) (hmem : type ∈ dataTypes) :
    Returns (h.getData file) ↔ SafeData file h := by
  rw [SectionHeader.getData, SafeData, htype]
  fin_cases hmem
  · exact ((rawData_yields htype (by simp)).map _ |>.map _).returns_iff
  · exact iff_of_true ⟨_, rfl⟩ True.intro
  · exact ((rawData_yields htype (by simp)).map _ |>.map _).returns_iff
  · exact ((rawArray_yields htype (by simp) SymbolTableEntry _ ha rfl rfl).map _).returns_iff
  · exact ((rawArray_yields htype (by simp) Rela _ ha rfl rfl).map _).returns_iff

end Data

/-! ### Symbols -/

section Symbols

variable {file : ElfFile} {h : SectionHeader}

/-- The section of the symbols' names: the first of its name. -/
def strtab (file : ElfFile) : Option SectionHeader :=
  (listed file).find? fun h => sectionName file h = .ok (str ".strtab")

/-- The symbols of the first section of its type. -/
def symbolTable (file : ElfFile) : Except String (List SymbolTableEntry) :=
  match (listed file).find? (·.isType .symTab) with
  | none => .error "no symbol table found, file may have been stripped"
  | some h => .ok (elements SymbolTableEntry (dataOf file h))

/-- The names of the symbols are read exactly if the section of the names allows it. -/
lemma getString_returns_iff (ha : file.input.addr % 8 = 0)
    (hiter : file.sectionIter = ⟨listed file, none⟩)
    (hname : ∀ h ∈ listed file, Named h → SafeName file h.name.toNat)
    (hdata : ∀ h ∈ listed file, SafeData file h) (index : ℕ) :
    Returns (file.getString index) ↔ ∀ h, strtab file = some h → h.getType = .ok .strTab →
      SafeString ((dataOf file h).drop index) := by
  have hfind : file.findSectionByName (str ".strtab") = .ok (strtab file) :=
    findSectionByName_eq ha hiter hname _
  cases hs : strtab file with
  | none =>
    rw [hs] at hfind
    exact iff_of_true ⟨_, by rw [ElfFile.getString, bind_of_ok hfind]⟩ nofun
  | some h =>
    rw [hs] at hfind
    by_cases htype : h.getType = .ok .strTab
    · have hsafe := hdata h (List.mem_of_find?_eq_some hs)
      rw [SafeData, htype] at hsafe
      exact (getString_yields hfind htype hsafe index).returns_iff.trans (by simp [htype])
    · refine iff_of_true ?_ fun h' hh => Option.some.inj hh ▸ fun hc => absurd hc htype
      rw [ElfFile.getString, bind_of_ok hfind]
      dsimp only
      split
      · exact ⟨_, rfl⟩
      · exact absurd ‹_› htype
      · exact ⟨_, rfl⟩

end Symbols

/-! ### No panic -/

section Files

variable {input : Slice}

/-- **A file that is safe to read**: its section table, the names and the data of the sections and
the names of the symbols are. -/
def SafeFile (file : ElfFile) : Prop :=
  SafeTable file file.header.body.shCount.toNat 0
  ∧ (∀ h ∈ listed file, Named h → SafeName file h.name.toNat)
  ∧ (∀ h ∈ listed file, SafeData file h)
  ∧ ∀ entries, symbolTable file = .ok entries → ∀ e ∈ entries, ∀ h, strtab file = some h →
    h.getType = .ok .strTab → SafeString ((dataOf file h).drop e.name.toNat)

/-- **No call panics**: neither the constructor nor, if there is a file, the iteration over its
sections, the names and data of these, the symbol table and the names of its symbols. -/
def NoPanic (input : Slice) : Prop :=
  ∃ r, ElfFile.new input = .ok r ∧ ∀ file, r = .ok file →
    file.sectionIter.stop = none
    ∧ (∀ h ∈ file.sectionIter.sections, Returns (h.getName file))
    ∧ (∀ h ∈ file.sectionIter.sections, ∀ type ∈ dataTypes, h.getType = .ok type →
      Returns (h.getData file))
    ∧ ∃ t, file.getSymbolTable = .ok t ∧ ∀ entries, t = .ok entries → ∀ e ∈ entries,
      Returns (e.getName file)

lemma safeData_iff {file : ElfFile} {h : SectionHeader} (ha : file.input.addr % 8 = 0) :
    (∀ type ∈ dataTypes, h.getType = .ok type → Returns (h.getData file)) ↔ SafeData file h := by
  refine ⟨fun hret => ?_, fun hsafe type hmem htype =>
    (getData_returns_iff ha htype hmem).mpr hsafe⟩
  by_cases hmem : ∃ type ∈ dataTypes, h.getType = .ok type
  · obtain ⟨type, hmem, htype⟩ := hmem
    exact (getData_returns_iff ha htype hmem).mp (hret type hmem htype)
  · rw [SafeData]
    split <;>
      first | exact True.intro | (rename_i htype; exact absurd ⟨_, by decide, htype⟩ hmem)

/-- **Where the reader panics**: on a buffer that starts with the header of an object file, no call
panics exactly if the section table, the names, the data and the symbols' names are safe to read;
on any other buffer none does. -/
theorem noPanic_iff (ha : input.addr % 8 = 0) :
    NoPanic input ↔ (IsElf input → SafeFile ⟨input, headerOf input⟩) := by
  obtain ⟨hnew, herr⟩ := new_cases ha
  by_cases helf : IsElf input
  · set file : ElfFile := ⟨input, headerOf input⟩
    have ha : file.input.addr % 8 = 0 := ha
    obtain ⟨hstop, hsections⟩ := sectionsFrom_spec ha file.header.body.shCount.toNat 0
    simp only [NoPanic, hnew helf, Except.ok.injEq, exists_eq_left', forall_eq', helf, true_imp_iff]
    refine and_congr hstop (Iff.refl _) |>.trans (and_congr_right fun htable => ?_)
    have hiter : file.sectionIter = ⟨listed file, none⟩ := by
      rw [listed, List.range_eq_range', ← hsections htable, ← hstop.mpr htable]
      rfl
    rw [hiter, forall₂_congr fun h _ => (getName_yields ha).returns_iff,
      forall₂_congr fun h _ => safeData_iff ha]
    refine and_congr_right fun hnames => and_congr_right fun hdata => ?_
    have htable : file.getSymbolTable = .ok (symbolTable file) :=
      getSymbolTable_eq ha hiter fun h hh htype => by
        have hsafe := hdata h hh
        rwa [SafeData, htype] at hsafe
    simp only [htable, Except.ok.injEq, exists_eq_left', SymbolTableEntry.getName,
      getString_returns_iff ha hiter hnames hdata]
  · obtain ⟨e, he⟩ := herr helf
    exact iff_of_true ⟨_, he, nofun⟩ fun h => absurd h helf

/-- A header of an object file that has section headers of no size. -/
def headerOnly (count : UInt8) : Slice :=
  ⟨4096, magicNum ++ 2 :: List.replicate 55 0 ++ [count, 0, 0, 0]⟩

/-- A file without sections. -/
theorem noPanic_iff_header : NoPanic (headerOnly 0) := by
  refine (noPanic_iff (by decide)).mpr fun _ => ?_
  have hlisted : listed ⟨headerOnly 0, headerOf (headerOnly 0)⟩ = [] := by decide +kernel
  have htable : symbolTable ⟨headerOnly 0, headerOf (headerOnly 0)⟩
      = .error "no symbol table found, file may have been stripped" := by
    rw [symbolTable, hlisted]
    rfl
  refine ⟨fun j hj => ?_, ?_, ?_, ?_⟩
  · have hcount : (headerOf (headerOnly 0)).body.shCount.toNat = 0 := by decide +kernel
    rw [hcount] at hj
    cases hj
  · rw [hlisted]
    exact nofun
  · rw [hlisted]
    exact nofun
  · rw [htable]
    exact nofun

/-- A file with one section, whose header is said to have no size: the iteration over the sections
panics. -/
theorem noPanic_zero_size :
    ElfFile.new (headerOnly 1) = .ok (.ok ⟨headerOnly 1, headerOf (headerOnly 1)⟩)
    ∧ (ElfFile.mk (headerOnly 1) (headerOf (headerOnly 1))).sectionIter.stop = some .readSize
    ∧ ¬NoPanic (headerOnly 1) := by
  have hnew : ElfFile.new (headerOnly 1) = .ok (.ok ⟨headerOnly 1, headerOf (headerOnly 1)⟩) := by
    decide +kernel
  have hstop : (ElfFile.mk (headerOnly 1) (headerOf (headerOnly 1))).sectionIter.stop
      = some .readSize := by decide +kernel
  refine ⟨hnew, hstop, ?_⟩
  rintro ⟨r, hr, hcalls⟩
  obtain rfl := Except.ok.inj (hnew.symm.trans hr)
  have hnone := (hcalls _ rfl).1
  rw [hstop] at hnone
  cases hnone

end Files

end Rhubarb.Elf
