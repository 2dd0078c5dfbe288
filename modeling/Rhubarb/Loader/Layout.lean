import Rhubarb.Foundations.Padding
import Rhubarb.Foundations.Spans
import Rhubarb.Kernel.KernelRuns
import Rhubarb.Kernel.MappingCalls
import Rhubarb.Loader.Dependencies
import Rhubarb.Loader.Placement

/-!
The layout of an object's sections (`allocate_section_mappings` and `load_object_sections` of
`kernel/src/loader.rs`).

The first loop adds up how long the mappings of an object have to be, the second puts the sections
into them.  A section is put behind the last one of its mapping, at a multiple of its alignment; the
cursors never come back, since no mapping is longer than the frames of the machine.

* `nextMultipleOf_eq_ok`: the padding, without wrapping.
* `Laid`: what is known of the sections at each turn; `laid_loop`.
* `placed_layout`: the sections lie within the lengths of the first loop, aligned and apart.
-/

namespace Rhubarb.Loader

open Foundations Comp Elf

/-! ### The mappings -/

/-- The mapping the sections of a kind are put into. -/
def SectionKind.part : SectionKind → ObjectPart
  | text => .executable
  | data | bss => .readWrite
  | _ => .readOnly

/-- The mapping of a part. -/
def SectionMappings.of (m : SectionMappings) : ObjectPart → Option KernelMapping
  | .executable => m.executable
  | .readOnly => m.readOnly
  | .readWrite => m.readWrite

/-- The cursor of a part; the code is not laid out by the loop. -/
def Cursor.of (c : Cursor) : ObjectPart → ℕ
  | .readWrite => c.data
  | _ => c.rodata

/-- The cursor of a part is moved. -/
def Cursor.set (c : Cursor) (n : ℕ) : ObjectPart → Cursor
  | .readWrite => { c with data := n }
  | _ => { c with rodata := n }

lemma Cursor.of_set_self (c : Cursor) (n : ℕ) (part : ObjectPart) : (c.set n part).of part = n := by
  cases part <;> rfl

variable {part : ObjectPart} {k k' : KernelMemory} {image : ObjectImage}
  {mapping : Option KernelMapping}

lemma Cursor.of_set_of_ne {c : Cursor} {n : ℕ} {part' : ObjectPart} (h : part' ≠ part)
    (hpart : part ≠ .executable) (hpart' : part' ≠ .executable) :
    (c.set n part).of part' = c.of part' := by
  cases part <;> cases part' <;> first | rfl | contradiction

variable {s s' : State} {name : Str} {file : ElfFile} {mappings : SectionMappings} {kroot : Frame}

lemma newPart_size (h : k.newPart image part = .ok (mapping, k')) :
    ∀ m ∈ mapping, m.size = image.len part ∧ 0 < m.size := by
  rintro m rfl
  rw [KernelMemory.newPart] at h
  split_ifs at h with hpos
  · obtain ⟨⟨m', k₁⟩, hnew, hrest⟩ := ok_of_bind h
    cases hrest
    obtain ⟨-, -, -, -, -, hsize, -⟩ := KernelMapping.new_eq_ok hnew
    exact ⟨hsize, by omega⟩
  · cases h

/-- What a new part is. -/
lemma newPart_eq_ok (hk : k.Sound kroot) (h : k.newPart image part = .ok (mapping, k')) :
    k'.Sound kroot ∧ ∀ m ∈ mapping, m.size = image.len part ∧ 0 < m.size ∧ m.size ≤ 2 ^ 30 := by
  obtain ⟨hadv, hpart, hlen⟩ := KernelMemory.newPart_advances 0 0 hk h
  refine ⟨hadv.sound, fun m hm => ?_⟩
  obtain rfl : mapping = some m := hm
  have hmax : (k'.memory.owned .kernel).length ≤ 2 ^ 18 := hadv.sound.memory.length_owned_le .kernel
  have hpages : pageCount m.size ≤ 2 ^ 18 := by
    have hstop := (hpart m rfl).2.1
    have hle : (k.memory.owned .kernel).length + (m.pages.stop.number - m.pages.start.number)
        ≤ (k'.memory.owned .kernel).length := hlen
    omega
  have hcount : pageCount m.size = (m.size + 4096 - 1) / 4096 := rfl
  obtain ⟨hsize, hpos⟩ := newPart_size h m rfl
  exact ⟨hsize, hpos, by omega⟩

/-- The mappings of an object are as long as the first loop has found, and not longer than the frames
of the machine. -/
lemma allocateSectionMappings_eq_ok (hk : s.kernel.Sound kroot)
    (h : allocateSectionMappings name file s = .ok (.ok mappings, s')) :
    ∃ lens, sectionLens file = .ok (.ok lens)
      ∧ ∀ part, ∀ m ∈ mappings.of part, m.size = lens.of part ∧ 0 < m.size ∧ m.size ≤ 2 ^ 30 := by
  rcases bind_eq_ok h with ⟨lens, s₀, hlens, h₀⟩ | ⟨_, _, _, heq⟩
  swap
  · cases heq
  rcases bind_eq_ok h₀ with ⟨x, s₁, hx, h₁⟩ | ⟨_, _, _, heq⟩
  swap
  · cases heq
  rcases bind_eq_ok h₁ with ⟨r, s₂, hr, h₂⟩ | ⟨_, _, _, heq⟩
  swap
  · cases heq
  rcases bind_eq_ok h₂ with ⟨w, s₃, hw, h₃⟩ | ⟨_, _, _, heq⟩
  swap
  · cases heq
  cases h₃
  obtain ⟨hok, rfl⟩ := ofResult_eq_ok hlens
  obtain ⟨_, k₁, heq, hx, rfl⟩ := onKernel_eq_ok hx
  cases heq
  obtain ⟨_, k₂, heq, hr, rfl⟩ := onKernel_eq_ok hr
  cases heq
  obtain ⟨_, k₃, heq, hw, rfl⟩ := onKernel_eq_ok hw
  cases heq
  obtain ⟨hk₁, hx⟩ := newPart_eq_ok hk hx
  obtain ⟨hk₂, hr⟩ := newPart_eq_ok hk₁ hr
  obtain ⟨-, hw⟩ := newPart_eq_ok hk₂ hw
  refine ⟨lens, hok, fun part => ?_⟩
  cases part with
  | executable => exact hx
  | readOnly => exact hr
  | readWrite => exact hw

/-! ### The cursors -/

/-- The padding of an offset, where it does not wrap. -/
lemma nextMultipleOf_eq_ok {n align o : ℕ} (hlt : roundUp n align < usizeRange)
    (h : nextMultipleOf n align = .ok o) : 0 < align ∧ o = roundUp n align := by
  rw [nextMultipleOf] at h
  split_ifs at h with hzero hmod
  · exact ⟨Nat.pos_of_ne_zero hzero, by rw [roundUp, if_pos hmod]; exact (Except.ok.inj h).symm⟩
  · rw [roundUp, if_neg hmod] at hlt
    refine ⟨Nat.pos_of_ne_zero hzero, ?_⟩
    rw [roundUp, if_neg hmod, ← wrappingAdd_eq hlt]
    exact (Except.ok.inj h).symm

variable {l : Loading} {index : ℕ} {h sec : SectionHeader} {c c' : Cursor}
  {loaded : List (ℕ × LoadedSection)} {headers : List SectionHeader}

/-- The bytes of a section in its mapping. -/
def LoadedSection.span (t : LoadedSection) : Span := ⟨t.mappingOffset, t.size⟩

/-- A section of the object, not of its code, is where its header says: aligned, and within the
mapping of its kind. -/
structure LaidOut (l : Loading) (headers : List SectionHeader) (e : ℕ × LoadedSection) : Prop where
  mapping : ∃ m ∈ l.mappings.of e.2.kind.part, e.2.mapping = m
    ∧ e.2.mappingOffset + e.2.size ≤ m.size
  aligned : ∃ h sec, headers[e.1]? = some h ∧ placed l.file e.1 h = .ok (.ok sec)
    ∧ e.2.size = sec.size.toNat ∧ 0 < sec.align.toNat ∧ sec.align.toNat ∣ e.2.mappingOffset

/-- **The layout at a turn**: the sections that are not code are laid out, apart from each other and
before the cursor of their part. -/
structure Laid (l : Loading) (headers : List SectionHeader) (c : Cursor)
    (loaded : List (ℕ × LoadedSection)) : Prop where
  cursor : ∀ part, c.of part ≤ 2 ^ 30
  out : ∀ e ∈ loaded, e.2.kind.part ≠ .executable → LaidOut l headers e
  before : ∀ e ∈ loaded, e.2.kind.part ≠ .executable → e.2.span.stop ≤ c.of e.2.kind.part
  apart : loaded.Pairwise fun e f => e.2.kind.part = f.2.kind.part →
    e.2.kind.part ≠ .executable → e.2.span.Apart f.2.span

/-- A section that is put behind the cursor of its part. -/
lemma Laid.place {mapping : KernelMapping} {offset : ℕ} {t : LoadedSection}
    (hlaid : Laid l headers c loaded) (hheader : headers[index]? = some h)
    (hsec : placed l.file index h = .ok (.ok sec)) (hpart : t.kind.part ≠ .executable)
    (hmapping : l.mappings.of t.kind.part = some mapping) (hsize : mapping.size ≤ 2 ^ 30)
    (ht : PlacedAt l index sec mapping (c.of t.kind.part) offset t) :
    Laid l headers (c.set (wrappingAdd offset sec.size.toNat) t.kind.part)
      (loaded ++ [(index, t)]) := by
  have hrange : usizeRange = 2 ^ 64 := rfl
  have hcursor := hlaid.cursor t.kind.part
  obtain ⟨hpos, hoffset⟩ := nextMultipleOf_eq_ok (roundUp_lt (by omega) sec.align.toNat_lt) ht.next
  have hle : c.of t.kind.part ≤ offset := hoffset ▸ le_roundUp _ _
  have hfits := ht.fits
  have hmo := ht.recorded.offset
  have hsz := ht.recorded.size
  have hstop : t.span.stop = offset + sec.size.toNat := by
    rw [← hmo, ← hsz]
    rfl
  rw [wrappingAdd_eq (by omega)]
  refine ⟨fun part => ?_, ?_, ?_, ?_⟩
  · have := hlaid.cursor part
    cases part <;> cases hk : t.kind.part <;> simp only [hk, Cursor.set, Cursor.of] at * <;> omega
  · refine List.forall_mem_append.mpr ⟨hlaid.out, fun e he _ => ?_⟩
    obtain rfl := List.mem_singleton.mp he
    refine ⟨⟨mapping, hmapping, ht.recorded.mapping, by simp only; omega⟩,
      h, sec, hheader, hsec, hsz, hpos, ?_⟩
    simp only
    rw [hmo, hoffset]
    exact dvd_roundUp hpos _
  · refine List.forall_mem_append.mpr ⟨fun e he hexec => ?_, fun e he _ => ?_⟩
    · have hbefore := hlaid.before e he hexec
      by_cases hsame : e.2.kind.part = t.kind.part
      · rw [hsame, Cursor.of_set_self]
        rw [hsame] at hbefore
        omega
      · rwa [Cursor.of_set_of_ne hsame hpart hexec]
    · obtain rfl := List.mem_singleton.mp he
      rw [Cursor.of_set_self]
      exact hstop.le
  · refine List.pairwise_append.mpr ⟨hlaid.apart, List.pairwise_singleton _ _, ?_⟩
    intro e he f hf hsame hexec
    obtain rfl := List.mem_singleton.mp hf
    -- what was placed before ends at the cursor
    have hbefore := hlaid.before e he hexec
    rw [hsame] at hbefore
    exact .inl (hbefore.trans (hle.trans hmo.ge))

/-- Code that is recorded, or a section that is passed over, changes nothing. -/
lemma Laid.append_code {t : LoadedSection} (hlaid : Laid l headers c loaded)
    (hkind : t.kind = .text) : Laid l headers c (loaded ++ [(index, t)]) := by
  have hexec : t.kind.part = .executable := by rw [hkind]; rfl
  refine ⟨hlaid.cursor, List.forall_mem_append.mpr ⟨hlaid.out, fun e he hne => ?_⟩,
    List.forall_mem_append.mpr ⟨hlaid.before, fun e he hne => ?_⟩,
    List.pairwise_append.mpr ⟨hlaid.apart, List.pairwise_singleton _ _, fun e he f hf hsame hne => ?_⟩⟩
  · obtain rfl := List.mem_singleton.mp he
    exact absurd hexec hne
  · obtain rfl := List.mem_singleton.mp he
    exact absurd hexec hne
  · obtain rfl := List.mem_singleton.mp hf
    exact absurd (hsame.trans hexec) hne

/-- The next header and those behind it. -/
lemma drop_cons {hs : List SectionHeader} (hdrop : headers.drop index = h :: hs) :
    headers[index]? = some h ∧ headers.drop (index + 1) = hs := by
  refine ⟨?_, ?_⟩
  · rw [← Nat.add_zero index, ← List.getElem?_drop, hdrop]
    rfl
  · rw [← List.tail_drop, hdrop]
    rfl

/-- **The layout is an invariant of the loop**, whatever it panics for. -/
lemma laid_loop (headers : List SectionHeader)
    (hsize : ∀ part, ∀ m ∈ l.mappings.of part, m.size ≤ 2 ^ 30) :
    LoopInvariant (fun _ => True) l fun index hs c loaded =>
      headers.drop index = hs ∧ Laid l headers c loaded where
  skip := by
    rintro index h hs c loaded - ⟨hdrop, hlaid⟩
    exact ⟨(drop_cons hdrop).2, hlaid⟩
  safe := by
    intros
    exact Safe.of_allowed (fun _ _ => trivial) _ _ _ _ _
  turn := by
    rintro index h hs c loaded name sec r - ⟨hdrop, hlaid⟩ - hsec hplacing
    obtain ⟨hheader, hdrop⟩ := drop_cons hdrop
    refine ⟨hdrop, ?_⟩
    cases hplacing with
    | skip =>
      rw [Option.toList_none, List.map_nil, List.append_nil]
      exact hlaid
    | text _ hkind _ _ => exact hlaid.append_code hkind
    | @data mapping offset t _ _ hkind hmapping ht =>
      have hpart : t.kind.part = .readWrite := by rcases hkind with hk | hk <;> rw [hk] <;> rfl
      have hplace := @Laid.place l index h sec c loaded headers mapping offset t
      rw [hpart] at hplace
      exact hplace hlaid hheader hsec (by simp) hmapping (hsize .readWrite mapping hmapping) ht
    | @rodata mapping offset t _ _ hkind hmapping ht =>
      have hpart : t.kind.part = .readOnly := by
        rcases hkind with hk | hk | hk <;> rw [hk] <;> rfl
      have hplace := @Laid.place l index h sec c loaded headers mapping offset t
      rw [hpart] at hplace
      exact hplace hlaid hheader hsec (by simp) hmapping (hsize .readOnly mapping hmapping) ht

/-- **The layout of an object**: after any number of turns of the second loop, the read-only and the
read-write sections it has placed lie within the lengths the first loop has computed, at multiples of
their alignments, and those of one mapping are apart. -/
theorem placed_layout {s₁ s₂ s₃ : State} (hk : s.kernel.Sound kroot)
    (halloc : allocateSectionMappings name l.file s = .ok (.ok l.mappings, s₁))
    (hturns : loadTurns l 0 headers ⟨0, 0⟩ [] s₂ = .ok (.ok (c, loaded), s₃)) :
    ∃ lens, sectionLens l.file = .ok (.ok lens)
      ∧ (∀ e ∈ loaded, e.2.kind.part ≠ .executable →
        e.2.mappingOffset + e.2.size ≤ lens.of e.2.kind.part
        ∧ ∃ h sec, headers[e.1]? = some h ∧ placed l.file e.1 h = .ok (.ok sec)
          ∧ e.2.size = sec.size.toNat ∧ sec.align.toNat ∣ e.2.mappingOffset)
      ∧ loaded.Pairwise fun e f => e.2.kind.part = f.2.kind.part →
        e.2.kind.part ≠ .executable → e.2.span.Apart f.2.span := by
  obtain ⟨lens, hlens, hparts⟩ := allocateSectionMappings_eq_ok hk halloc
  have hloop := laid_loop headers fun part m hm => (hparts part m hm).2.2
  have hstart : headers.drop 0 = headers ∧ Laid l headers ⟨0, 0⟩ [] := by
    refine ⟨rfl, fun part => ?_, ?_, ?_, List.Pairwise.nil⟩
    · cases part <;> exact Nat.zero_le _
    · exact fun e he => absurd he List.not_mem_nil
    · exact fun e he => absurd he List.not_mem_nil
  have hspec := loadTurns_spec (P := fun _ => True) (fun _ _ => trivial)
    ⟨fun _ _ _ _ _ _ _ _ _ => trivial, fun _ _ _ _ _ _ _ _ _ => trivial,
      fun _ _ _ _ _ _ _ _ _ => trivial⟩ hloop hstart
  obtain ⟨-, -, hlaid⟩ := (hspec s₂ trivial).2.2 _ _ hturns
  refine ⟨lens, hlens, fun e he hexec => ?_, hlaid.apart⟩
  obtain ⟨⟨m, hm, -, hfits⟩, h, sec, hheader, hsec, hsize, -, hdvd⟩ := hlaid.out e he hexec
  rw [← (hparts _ m hm).1]
  exact ⟨hfits, h, sec, hheader, hsec, hsize, hdvd⟩

/-- An object with two sections of data; the alignment of both and the flags of the second are left
open. -/
def dataBytes (align flags : UInt64) : List UInt8 :=
  let sectionNames := str "\x00.data.one\x00.data.two\x00.symtab\x00.strtab\x00.shstrtab\x00"
  let header : FileHeader := ⟨1, 0, 0, 1, 62, 1, 0, 0, 152, 0, 0, 0, 5⟩
  let symbol : SymbolTableEntry := ⟨0, 0, 0, 0, 0, 0⟩
  let sections : List SectionHeader :=
    [⟨0, 0, 0, 0, 0, 0, 0, 0, 0, 0⟩, ⟨1, 1, 3, 0, 64, 8, 0, 0, align, 0⟩,
      ⟨11, 1, flags, 0, 72, 8, 0, 0, align, 0⟩, ⟨21, 2, 0, 0, 80, 24, 4, 1, 8, 24⟩,
      ⟨29, 3, 0, 0, 104, 1, 0, 0, 1, 0⟩, ⟨37, 3, 0, 0, 105, 47, 0, 0, 1, 0⟩]
  header.encodeIdent ++ header.encodeBody 6 ++ List.replicate 8 1 ++ List.replicate 8 2 ++
    symbol.encode ++ [0] ++ sectionNames ++ sections.flatMap SectionHeader.encode

theorem placed_layout_data :
    smallStart.kernel.Sound ⟨300000⟩
      ∧ ∃ (l : Loading) (s₁ : State) (c : Cursor) (loaded : List (ℕ × LoadedSection)) (s₃ : State),
        allocateSectionMappings (str "app") l.file smallStart = .ok (.ok l.mappings, s₁)
        ∧ loadTurns l 0 l.file.sectionIter.sections ⟨0, 0⟩ [] s₁ = .ok (.ok (c, loaded), s₃)
        ∧ loaded.map (fun e => (e.2.kind, e.2.span)) = [(.data, ⟨0, 8⟩), (.data, ⟨8, 8⟩)]
        ∧ ∃ lens, sectionLens l.file = .ok (.ok lens)
          ∧ (∀ e ∈ loaded, e.2.kind.part ≠ .executable →
            e.2.mappingOffset + e.2.size ≤ lens.of e.2.kind.part
            ∧ ∃ h sec, l.file.sectionIter.sections[e.1]? = some h
              ∧ placed l.file e.1 h = .ok (.ok sec)
              ∧ e.2.size = sec.size.toNat ∧ sec.align.toNat ∣ e.2.mappingOffset)
          ∧ loaded.Pairwise fun e f => e.2.kind.part = f.2.kind.part →
            e.2.kind.part ≠ .executable → e.2.span.Apart f.2.span := by
  have hsound : smallStart.kernel.Sound ⟨300000⟩ :=
    (KernelState.roomyKernel_start.run_sound (by decide +kernel) (run_nil _)).kernel
  obtain ⟨file, -, mappings, s₁, halloc, ⟨c, loaded⟩, s₃, hturns, hspans⟩ :
      ∃ file, ElfFile.new ⟨4096, dataBytes 8 3⟩ = .ok (.ok file)
        ∧ ∃ mappings s₁, allocateSectionMappings (str "app") file smallStart = .ok (.ok mappings, s₁)
          ∧ ∃ p s₃, loadTurns ⟨file, mappings, [], 0, id⟩ 0 file.sectionIter.sections ⟨0, 0⟩ [] s₁
              = .ok (.ok p, s₃)
            ∧ p.2.map (fun e => (e.2.kind, e.2.span)) = [(.data, ⟨0, 8⟩), (.data, ⟨8, 8⟩)] := by
    decide +kernel
  exact ⟨hsound, ⟨file, mappings, [], 0, id⟩, s₁, c, loaded, s₃, halloc, hturns, hspans,
    placed_layout hsound halloc hturns⟩

end Rhubarb.Loader
