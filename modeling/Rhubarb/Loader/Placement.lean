import Rhubarb.Loader.Sections

/-!
What the second loop of the loader does: where it puts the sections, and what it panics for.

The loop is specified over an arbitrary predicate `P` of the state that its writes keep, and an
arbitrary set `E` of panics.  The panics of the loader's own assertions have to be allowed one by
one, where a section does not fit; all others are allowed at once.

* `measureLoop_panics`: what the first loop panics for.
* `Writes`: what has to be known of the writes into a mapping.
* `Placing`: the outcome of one turn; `Safe`: when a turn cannot run into the assertions.
* `loadSection_spec`: one turn.
* `LoopInvariant`, `loadTurns_spec`, `loadSections_spec`: the loop.
-/

namespace Rhubarb.Loader

open Foundations Comp Elf

variable {P : State → Prop} {E : Panic → Prop} {α : Type}

/-! ### Calls -/

/-- The panics that are told apart: those of the loader's own assertions, of `map_into` and of the
bound on nested loads. -/
def Panic.told : Panic → Bool
  | .alignZero | .offsetBounds | .depth => true
  | .memory .sliceBounds | .memory .mapSections => true
  | _ => false

/-- All other panics are allowed. -/
def AllowsRest (E : Panic → Prop) : Prop := ∀ p : Panic, p.told = false → E p

lemma elf_spec (hE : AllowsRest E) (x : Except Elf.Panic (Except String α)) :
    Spec P E P (fun a s => P s ∧ x = .ok (.ok a)) (elf x) := by
  refine Spec.intro fun s hs => ?_
  match x with
  | .error p => exact hE _ rfl
  | .ok (.error e) => exact hs
  | .ok (.ok a) => exact ⟨hs, rfl⟩

variable {x : Except Panic (Except String α)} {mapping : KernelMapping} {offset len index : ℕ}
  {p : Panic} {sec : SectionHeader} {hs : List SectionHeader} {named : NameAfter}
  {kind : SectionKind} {loaded : List (ℕ × LoadedSection)}

lemma ofResult_spec (hE : ∀ p, x = .error p → E p) :
    Spec P E P (fun a s => P s ∧ x = .ok (.ok a)) (ofResult x) := by
  refine Spec.intro fun s hs => ?_
  match x, hE with
  | .error p, hE => exact hE p rfl
  | .ok (.error e), _ => exact hs
  | .ok (.ok a), _ => exact ⟨hs, rfl⟩

lemma elf_keeps (hE : AllowsRest E) (x : Except Elf.Panic (Except String α)) : Keeps P E (elf x) :=
  (elf_spec hE x).mono (fun _ h => h) (fun _ h => h) (fun _ h => h) fun _ _ h => h.1

lemma ofResult_keeps (hE : ∀ p, x = .error p → E p) :
    Keeps P E (ofResult x) :=
  (ofResult_spec hE).mono (fun _ h => h) (fun _ h => h) (fun _ h => h) fun _ _ h => h.1

lemma addAddress_spec (hE : AllowsRest E) (a : Address) (n : ℕ) :
    Spec P E P (fun b s => P s ∧ a.add n = .ok b) (onAddress (a.add n)) := by
  rw [Address.add]
  split_ifs
  · exact Spec.pure fun _ hs => ⟨hs, rfl⟩
  · exact Spec.panic (hE _ rfl)

lemma onKernel_spec {f : KernelMemory → Except Rhubarb.Panic (α × KernelMemory)}
    {X : State → Prop} {Q : α → State → Prop}
    (hE : ∀ s p, P s → f s.kernel = .error p → E (.memory p))
    (h : ∀ s a k, P s → f s.kernel = .ok (a, k) → Q a { s with kernel := k }) :
    Spec P E X Q (onKernel f) := by
  refine Spec.intro fun s hs => ?_
  rw [onKernel]
  rcases hf : f s.kernel with p | ⟨a, k⟩
  · exact hE s p hs hf
  · exact h s a k hs hf

/-- What `as_slice_mut` panics for. -/
lemma asSliceMut_eq_error {k : KernelMemory} {p : Rhubarb.Panic}
    (h : asSliceMut k mapping offset len = .error p) :
    (Panic.memory p).told = false ∨ p = .sliceBounds ∧ mapping.size < wrappingAdd offset len := by
  rcases error_of_bind h with h | ⟨kernel, -, h⟩
  · rw [MemoryState.kernelAddressSpace] at h
    split at h
    · cases h
    · cases h
      exact .inl rfl
  · split_ifs at h with _ hfits
    · cases h
      exact .inl rfl
    · cases h
      exact .inr ⟨rfl, hfits⟩
    · rw [Address.add] at h
      split_ifs at h
      cases h
      exact .inl rfl

lemma sliceOf_spec (hE : AllowsRest E)
    (hfits : mapping.size < wrappingAdd offset len → E (.memory .sliceBounds)) :
    Spec P E P (fun addr s => P s ∧ mapping.addr.add offset = .ok addr
      ∧ offset + len ≤ mapping.size) (sliceOf mapping offset len) := by
  refine Spec.bind (Q := fun addr s => P s ∧ mapping.addr.add offset = .ok addr
    ∧ wrappingAdd offset len ≤ mapping.size) (onKernel_spec (fun s p _ hp => ?_)
      fun s addr k hs hok => ?_) fun addr => ?_
  · rcases error_of_bind hp with hp | ⟨_, -, hp⟩
    · rcases asSliceMut_eq_error hp with htold | ⟨rfl, hlt⟩
      · exact hE _ htold
      · exact hfits hlt
    · cases hp
  · obtain ⟨addr', hslice, hok⟩ := ok_of_bind hok
    cases hok
    exact ⟨hs, (asSliceMut_eq_ok hslice).2, (asSliceMut_eq_ok hslice).1⟩
  · split_ifs with hwrap
    · exact Spec.panic (hE _ rfl)
    · refine Spec.pure fun s hs => ⟨hs.1, hs.2.1, ?_⟩
      have hle := hs.2.2
      rwa [wrappingAdd_eq (not_le.mp hwrap)] at hle

/-! ### The first loop -/
lemma nextMultipleOf_panics {n align : ℕ} (h : nextMultipleOf n align = .error p) :
    p = .alignZero ∧ align = 0 := by
  rw [nextMultipleOf] at h
  split_ifs at h with hzero
  cases h
  exact ⟨rfl, hzero⟩

lemma grow_panics (h : grow len sec = .error p) :
    p = .alignZero ∧ sec.align.toNat = 0 := by
  rcases error_of_bind h with h | ⟨_, -, h⟩
  · exact nextMultipleOf_panics h
  · cases h

/-- Adding a section panics for its alignment only. -/
lemma Lens.add_panics {lens : Lens} {h : SectionHeader} (hadd : lens.add h sec = .error p) :
    p = .alignZero ∧ sec.align.toNat = 0 := by
  rw [Lens.add] at hadd
  split_ifs at hadd
  · rcases error_of_bind hadd with hadd | ⟨_, -, hadd⟩
    · exact nextMultipleOf_panics hadd
    · cases hadd
  all_goals
    rcases error_of_bind hadd with hadd | ⟨_, -, hadd⟩
    · exact grow_panics hadd
    · cases hadd

/-- **What the first loop panics for**: the ELF reader, or an alignment of 0. -/
lemma measureLoop_panics {file : ElfFile} {lens : Lens}
    (hp : measureLoop file index hs lens = .error p) :
    (∃ q, p = .elf q) ∨ p = .alignZero ∧ ∃ j h sec, hs[j]? = some h ∧ unallocated h = false
      ∧ measured file (index + j) h = .ok (.ok sec) ∧ sec.align.toNat = 0 := by
  induction hs generalizing index lens with
  | nil =>
    rw [measureLoop] at hp
    split at hp
    · cases hp
    · cases hp
      exact .inl ⟨_, rfl⟩
  | cons h hs ih =>
    -- the index of a header behind the first one
    have hlater : ∀ {lens}, measureLoop file (index + 1) hs lens = .error p →
        (∃ q, p = .elf q) ∨ p = .alignZero ∧ ∃ j h' sec, (h :: hs)[j]? = some h'
          ∧ unallocated h' = false ∧ measured file (index + j) h' = .ok (.ok sec)
          ∧ sec.align.toNat = 0 := by
      intro lens hp
      refine (ih hp).imp_right fun ⟨hp, j, h', sec, hj, halloc, hsec, hzero⟩ => ?_
      rw [Nat.add_assoc, Nat.add_comm 1 j] at hsec
      exact ⟨hp, j + 1, h', sec, hj, halloc, hsec, hzero⟩
    rw [measureLoop] at hp
    split_ifs at hp with halloc
    · exact hlater hp
    split at hp
    · cases hp
      exact .inl ⟨_, rfl⟩
    · cases hp
    next sec hsec =>
    rcases error_of_bind hp with hadd | ⟨lens', -, hp⟩
    · obtain ⟨rfl, hzero⟩ := Lens.add_panics hadd
      exact .inr ⟨rfl, 0, h, sec, rfl, by simpa using halloc, hsec, hzero⟩
    · exact hlater hp

/-! ### One section -/

/-- A write within a mapping keeps `P`. -/
def Writes (P : State → Prop) (mapping : KernelMapping) : Prop :=
  ∀ s addr offset bytes, P s → mapping.addr.add offset = .ok addr →
    offset + bytes.length ≤ mapping.size →
      P { s with contents := store s.contents addr.toRaw bytes }

lemma write_spec {addr : Address} {bytes : List UInt8} (hw : Writes P mapping)
    (hadd : mapping.addr.add offset = .ok addr) (hfits : offset + bytes.length ≤ mapping.size) :
    Keeps P E (write addr bytes) :=
  Spec.modify fun s hs => hw s addr offset bytes hs hadd hfits

lemma copyData_spec {addr : Address} (hE : AllowsRest E) (hw : Writes P mapping)
    (hadd : mapping.addr.add offset = .ok addr) (hfits : offset + sec.size.toNat ≤ mapping.size)
    (file : ElfFile) (text : String) : Keeps P E (copyData file sec addr text) := by
  refine Spec.bind (Keeps.attempt (elf_keeps hE _)) fun r => ?_
  split
  · split_ifs with hlen
    · exact Spec.panic (hE _ rfl)
    · exact write_spec hw hadd (by rw [← not_not.mp hlen] at hfits; exact hfits)
  · exact write_spec hw hadd (by rw [List.length_replicate]; exact hfits)
  · exact Spec.fail fun _ h => h

/-- A section can be put at a cursor, or `E` allows what it panics for. -/
structure Fits (E : Panic → Prop) (mapping : KernelMapping) (offset : ℕ) (sec : SectionHeader) :
    Prop where
  align : sec.align.toNat = 0 → E .alignZero
  start : ∀ o, nextMultipleOf offset sec.align.toNat = .ok o → mapping.size ≤ o → E .offsetBounds
  slice : ∀ o, nextMultipleOf offset sec.align.toNat = .ok o →
    mapping.size < wrappingAdd o sec.size.toNat → E (.memory .sliceBounds)

lemma nextMultipleOf_spec {n align : ℕ} (h : align = 0 → E .alignZero) :
    Spec P E P (fun o s => P s ∧ nextMultipleOf n align = .ok o)
      (lift (nextMultipleOf n align) : Load ℕ) := by
  refine Spec.lift (fun p hp => ?_) fun o s ho hs => ⟨hs, ho⟩
  obtain ⟨rfl, hzero⟩ := nextMultipleOf_panics hp
  exact h hzero

/-- **A section is put into a mapping**: behind the cursor, at a multiple of its alignment. -/
lemma place_spec (hE : AllowsRest E) (hw : Writes P mapping) (hfits : Fits E mapping offset sec)
    (file : ElfFile) (text : String) :
    Spec P E P (fun r s => P s ∧ nextMultipleOf offset sec.align.toNat = .ok r.1
      ∧ r.1 < mapping.size ∧ mapping.addr.add r.1 = .ok r.2
      ∧ r.1 + sec.size.toNat ≤ mapping.size) (place file mapping offset sec text) := by
  refine Spec.bind (nextMultipleOf_spec hfits.align) fun o => Spec.assume fun ho => ?_
  split_ifs with hlt
  · exact Spec.panic (hfits.start o ho hlt)
  refine Spec.bind (addAddress_spec hE mapping.addr o) fun addr => Spec.assume fun hadd => ?_
  refine Spec.bind (sliceOf_spec hE (hfits.slice o ho)) fun slice => Spec.assume fun hslice => ?_
  exact Spec.bind (copyData_spec hE hw hslice.1 hslice.2 file text) fun _ => Spec.pure fun s hs =>
    ⟨hs, ho, not_le.mp hlt, hadd, hslice.2⟩

/-- What the loop records of a section that it puts into a mapping. -/
structure Recorded (l : Loading) (index : ℕ) (sec : SectionHeader) (mapping : KernelMapping)
    (offset : ℕ) (t : LoadedSection) : Prop where
  addr : mapping.addr.add offset = .ok t.addr
  mapping : t.mapping = mapping
  offset : t.mappingOffset = offset
  size : t.size = sec.size.toNat
  owner : t.owner = l.owner
  index : t.index = index

/-- The place of a section in a mapping, behind a cursor. -/
structure PlacedAt (l : Loading) (index : ℕ) (sec : SectionHeader) (mapping : KernelMapping)
    (cursor offset : ℕ) (t : LoadedSection) : Prop where
  next : nextMultipleOf cursor sec.align.toNat = .ok offset
  lt : offset < mapping.size
  fits : offset + sec.size.toNat ≤ mapping.size
  recorded : Recorded l index sec mapping offset t

/-- What comes after `.data.` or `.bss.` in the name of a writable section. -/
def dataName (name : Str) (sec : SectionHeader) : NameAfter :=
  symbolNameAfterPrefix name (if sec.isType .noBits then ".bss." else ".data.")

/-- What comes after `.tdata.` or `.tbss.` in the name of a thread-local section. -/
def tlsName (name : Str) (sec : SectionHeader) : NameAfter :=
  symbolNameAfterPrefix name (if sec.isType .noBits then ".tbss." else ".tdata.")

/-- What the name of a read-only section comes to; the tables have one that is fixed. -/
def rodataName (name : Str) : NameAfter :=
  if startsWith name (str ".rodata") then symbolNameAfterPrefix name ".rodata."
  else if startsWith name (str ".lrodata") then symbolNameAfterPrefix name ".lrodata."
  else if startsWith name (str ".gcc_except_table") ∨ name = str ".eh_frame" then .name name
  else .fail "encountered unhandled section"

/-- **The outcome of one turn**, of a section with the header `h` that is loaded as `sec`: it is
passed over, or put into one of the mappings. -/
inductive Placing (l : Loading) (index : ℕ) (h : SectionHeader) (name : Str) (sec : SectionHeader)
    (c : Cursor) : Cursor × Option LoadedSection → Prop
  | skip : Placing l index h name sec c (c, none)
  | text {mapping : KernelMapping} {t : LoadedSection}
      (hclass : isExec h = true ∧ isWrite h = false) (hkind : t.kind = .text)
      (hmapping : l.mappings.executable = some mapping)
      (ht : Recorded l index sec mapping sec.offset.toNat t) : Placing l index h name sec c (c, some t)
  | data {mapping : KernelMapping} {offset : ℕ} {t : LoadedSection}
      (hclass : isWrite h = true ∧ isTls h = false) (hname : ∃ n, dataName name sec = .name n)
      (hkind : t.kind = .data ∨ t.kind = .bss)
      (hmapping : l.mappings.readWrite = some mapping)
      (ht : PlacedAt l index sec mapping c.data offset t) :
      Placing l index h name sec c ({ c with data := wrappingAdd offset sec.size.toNat }, some t)
  | rodata {mapping : KernelMapping} {offset : ℕ} {t : LoadedSection}
      (hclass : isWrite h = false ∧ isExec h = false ∧ isTls h = false)
      (hname : ∃ n, rodataName name = .name n)
      (hkind : t.kind = .rodata ∨ t.kind = .gccExceptTable ∨ t.kind = .ehFrame)
      (hmapping : l.mappings.readOnly = some mapping)
      (ht : PlacedAt l index sec mapping c.rodata offset t) :
      Placing l index h name sec c ({ c with rodata := wrappingAdd offset sec.size.toNat }, some t)

/-- A turn does not run into the assertions, or `E` allows it. -/
structure Safe (E : Panic → Prop) (l : Loading) (h : SectionHeader) (name : Str)
    (sec : SectionHeader) (c : Cursor) : Prop where
  data : isWrite h = true → isTls h = false → ∀ n, dataName name sec = .name n →
    ∀ mapping ∈ l.mappings.readWrite, Fits E mapping c.data sec
  rodata : isWrite h = false → isExec h = false → isTls h = false → ∀ n, rodataName name = .name n →
    ∀ mapping ∈ l.mappings.readOnly, Fits E mapping c.rodata sec
  tls : isTls h = true → (isExec h = true → isWrite h = true) → ∀ n, tlsName name sec = .name n → ∀ mapping ∈ l.mappings.readOnly,
    (sec.align.toNat = 0 → E .alignZero)
      ∧ (sec.isType .noBits = false → ∀ o, nextMultipleOf c.rodata sec.align.toNat = .ok o →
        mapping.size < wrappingAdd o sec.size.toNat → E (.memory .sliceBounds))

/-- All panics are allowed but the bound on nested loads: so are those of the assertions. -/
lemma allowsRest (hE : ∀ p, p ≠ .depth → E p) : AllowsRest E := by
  intro p hp
  refine hE p fun hdepth => ?_
  rw [hdepth] at hp
  cases hp

lemma Safe.of_allowed (hE : ∀ p, p ≠ .depth → E p) (l : Loading) (h : SectionHeader) (name : Str)
    (sec : SectionHeader) (c : Cursor) : Safe E l h name sec c := by
  have hfits : ∀ mapping offset, Fits E mapping offset sec := fun mapping offset =>
    ⟨fun _ => hE _ (by simp), fun _ _ _ => hE _ (by simp), fun _ _ _ => hE _ (by simp)⟩
  exact ⟨fun _ _ _ _ _ _ => hfits _ _, fun _ _ _ _ _ _ _ => hfits _ _,
    fun _ _ _ _ _ _ => ⟨fun _ => hE _ (by simp), fun _ _ _ _ => hE _ (by simp)⟩⟩

/-- Writes into each of the mappings of an object keep `P`. -/
structure WritesAll (P : State → Prop) (mappings : SectionMappings) : Prop where
  executable : ∀ mapping ∈ mappings.executable, Writes P mapping
  readOnly : ∀ mapping ∈ mappings.readOnly, Writes P mapping
  readWrite : ∀ mapping ∈ mappings.readWrite, Writes P mapping

section Turn

variable {l : Loading} {index : ℕ} {h sec : SectionHeader} {name : Str} {c : Cursor}

lemma loadText_spec (hE : AllowsRest E) (hclass : isExec h = true ∧ isWrite h = false) :
    Spec P E P (fun new s => P s ∧ Placing l index h name sec c (c, new))
      (loadText l index name sec) := by
  rw [loadText]
  split
  · exact Spec.pure fun _ hs => ⟨hs, .skip⟩
  next mapping hmapping =>
  split
  · exact Spec.pure fun _ hs => ⟨hs, .skip⟩
  · exact Spec.fail fun _ hs => hs
  · refine Spec.bind (ofResult_spec nofun) fun n => Spec.assume fun _ =>
      Spec.bind (addAddress_spec hE _ _) fun addr => Spec.assume fun haddr => Spec.pure fun s hs => ?_
    exact ⟨hs, .text hclass rfl hmapping ⟨haddr, rfl, rfl, rfl, rfl, rfl⟩⟩

lemma loadTls_spec (hE : AllowsRest E) (hw : ∀ mapping ∈ l.mappings.readOnly, Writes P mapping)
    (hsafe : Safe E l h name sec c) (htls : isTls h = true)
    (hclass : isExec h = true → isWrite h = true) : Keeps P E (loadTls l name sec c) := by
  rw [loadTls]
  split
  · exact Spec.pure fun _ hs => hs
  next mapping hmapping =>
  dsimp only
  split
  · exact Spec.pure fun _ hs => hs
  · exact Spec.fail fun _ hs => hs
  next n hname =>
  obtain ⟨halign, hslice⟩ := hsafe.tls htls hclass n hname mapping hmapping
  refine Spec.bind (nextMultipleOf_spec halign) fun offset => Spec.assume fun hoffset => ?_
  split_ifs with hbss
  · exact Spec.fail fun _ hs => hs
  have hslice := hslice (by simpa using hbss) offset hoffset
  refine Spec.bind (sliceOf_spec hE hslice) fun slice => Spec.assume fun hslice => ?_
  refine Spec.bind (Keeps.attempt (elf_keeps hE _)) fun r => ?_
  split
  · split_ifs with hlen
    · exact Spec.panic (hE _ rfl)
    · refine Spec.bind (write_spec (hw mapping hmapping) hslice.1 ?_) fun _ => Spec.fail fun _ hs => hs
      have hfits := hslice.2
      rwa [← not_not.mp hlen] at hfits
  · exact Spec.fail fun _ hs => hs

lemma NameAfter.of_map_eq_name {f : Str → Str} {n : Str} (h : named.map f = .name n) :
    ∃ n', named = .name n' := by
  cases named with
  | name n' => exact ⟨n', rfl⟩
  | skip => cases h
  | fail e => cases h

/-- A section that is put at a cursor: passed over, or placed. -/
lemma loadInto_spec {mapping : Option KernelMapping} {global : Bool} (hE : AllowsRest E)
    (hw : ∀ m ∈ mapping, Writes P m)
    (hfits : ∀ n, named = .name n → ∀ m ∈ mapping, Fits E m offset sec) (text : String) :
    Spec P E P (fun r s => P s ∧ (r = (offset, none) ∨ ∃ m o t, mapping = some m
        ∧ r = (wrappingAdd o sec.size.toNat, some t) ∧ t.kind = kind ∧ (∃ n, named = .name n)
        ∧ PlacedAt l index sec m offset o t))
      (loadInto l mapping index named kind global sec offset text) := by
  unfold loadInto
  split
  · exact Spec.pure fun _ hs => ⟨hs, .inl rfl⟩
  next m =>
  split
  · exact Spec.pure fun _ hs => ⟨hs, .inl rfl⟩
  · exact Spec.fail fun _ hs => hs
  · refine Spec.bind (place_spec hE (hw m rfl) (hfits _ rfl m rfl) l.file text)
      fun r => Spec.assume fun hr => ?_
    obtain ⟨hnext, hlt, haddr, hle⟩ := hr
    refine Spec.pure fun s hs => ⟨hs, .inr ⟨m, r.1, _, rfl, rfl, rfl, ⟨_, rfl⟩, ?_⟩⟩
    exact ⟨hnext, hlt, hle, haddr, rfl, rfl, rfl, rfl, rfl⟩

lemma loadReadOnly_spec {global : Bool} (hE : AllowsRest E)
    (hw : ∀ mapping ∈ l.mappings.readOnly, Writes P mapping) (hsafe : Safe E l h name sec c)
    (hclass : isWrite h = false ∧ isExec h = false ∧ isTls h = false)
    (hnamed : ∀ n, named = .name n → ∃ n', rodataName name = .name n')
    (hkind : kind = .rodata ∨ kind = .gccExceptTable ∨ kind = .ehFrame) (text : String) :
    Spec P E P (fun r s => P s ∧ Placing l index h name sec c r)
      (loadReadOnly l index named kind global sec c text) := by
  have hfits : ∀ n, named = .name n → ∀ m ∈ l.mappings.readOnly, Fits E m c.rodata sec := by
    intro n hn
    obtain ⟨n', hn'⟩ := hnamed n hn
    exact hsafe.rodata hclass.1 hclass.2.1 hclass.2.2 n' hn'
  refine Spec.bind (loadInto_spec hE hw hfits text) fun r => Spec.assume fun hr => ?_
  rcases hr with rfl | ⟨m, o, t, hm, rfl, rfl, ⟨n, hn⟩, ht⟩
  · exact Spec.pure fun s hs => ⟨hs, .skip⟩
  · exact Spec.pure fun s hs => ⟨hs, .rodata hclass (hnamed n hn) hkind hm ht⟩

lemma loadData_spec (hE : AllowsRest E)
    (hw : ∀ mapping ∈ l.mappings.readWrite, Writes P mapping) (hsafe : Safe E l h name sec c)
    (hclass : isWrite h = true ∧ isTls h = false) :
    Spec P E P (fun r s => P s ∧ Placing l index h name sec c r) (loadData l index name sec c) := by
  have hfits : ∀ n, (dataName name sec).map (fun n => l.demangle (stripDot n)) = .name n →
      ∀ m ∈ l.mappings.readWrite, Fits E m c.data sec := by
    intro n hn
    obtain ⟨n', hn'⟩ := NameAfter.of_map_eq_name hn
    exact hsafe.data hclass.1 hclass.2 n' hn'
  refine Spec.bind (loadInto_spec hE hw hfits _) fun r => Spec.assume fun hr => ?_
  rcases hr with rfl | ⟨m, o, t, hm, rfl, hkind, ⟨n, hn⟩, ht⟩
  · exact Spec.pure fun s hs => ⟨hs, .skip⟩
  · refine Spec.pure fun s hs => ⟨hs, .data hclass (NameAfter.of_map_eq_name hn) ?_ hm ht⟩
    rw [hkind]
    split_ifs
    · exact .inr rfl
    · exact .inl rfl

/-- The class of a section that none of the first three branches takes. -/
lemma readOnly_class (htext : ¬(isExec h && !isWrite h) = true) (htls : ¬isTls h = true)
    (hdata : ¬isWrite h = true) : isWrite h = false ∧ isExec h = false ∧ isTls h = false := by
  have hwrite : isWrite h = false := by simpa using hdata
  rw [hwrite] at htext
  exact ⟨hwrite, by simpa using htext, by simpa using htls⟩

/-- **One turn of the loop**: what it writes keeps `P`, what it panics for is allowed, and the
section is placed as `Placing` says. -/
lemma loadSection_spec (hE : AllowsRest E) (hw : WritesAll P l.mappings)
    (hsafe : Safe E l h name sec c) :
    Spec P E P (fun r s => P s ∧ Placing l index h name sec c r)
      (loadSection l index h name sec c) := by
  rw [loadSection]
  split_ifs with htext htls hdata hro hlro hgcc heh
  · rw [Bool.and_eq_true, Bool.not_eq_true'] at htext
    exact Spec.bind (loadText_spec hE htext) fun new => Spec.pure fun s hs => hs
  · have hclass : isExec h = true → isWrite h = true := by
      intro hexec
      rw [hexec] at htext
      simpa using htext
    exact Spec.bind (loadTls_spec hE hw.readOnly hsafe htls hclass) fun _ => Spec.pure fun s hs =>
      ⟨hs, .skip⟩
  · exact loadData_spec hE hw.readWrite hsafe ⟨hdata, by simpa using htls⟩
  · refine loadReadOnly_spec hE hw.readOnly hsafe (readOnly_class htext htls hdata)
      (fun n hn => ?_) (by simp) _
    rw [rodataName, if_pos hro]
    exact NameAfter.of_map_eq_name hn
  · refine loadReadOnly_spec hE hw.readOnly hsafe (readOnly_class htext htls hdata)
      (fun n hn => ?_) (by simp) _
    rw [rodataName, if_neg hro, if_pos hlro]
    exact NameAfter.of_map_eq_name hn
  · refine loadReadOnly_spec hE hw.readOnly hsafe (readOnly_class htext htls hdata)
      (fun n _ => ⟨name, ?_⟩) (by simp) _
    rw [rodataName, if_neg hro, if_neg hlro, if_pos (.inl hgcc)]
  · refine loadReadOnly_spec hE hw.readOnly hsafe (readOnly_class htext htls hdata)
      (fun n _ => ⟨name, ?_⟩) (by simp) _
    rw [rodataName, if_neg hro, if_neg hlro, if_pos (.inr heh)]
  · exact Spec.fail fun _ hs => hs

end Turn

/-! ### The loop -/

/-- Some turns of the loop of `load_object_sections`, from an index on. -/
def loadTurns (l : Loading) : ℕ → List SectionHeader → Cursor → List (ℕ × LoadedSection) →
    Load (Cursor × List (ℕ × LoadedSection))
  | _, [], c, loaded => pure (c, loaded)
  | index, h :: hs, c, loaded =>
    if unallocated h then loadTurns l (index + 1) hs c loaded
    else do
      let name ← elf (h.getName l.file)
      let sec ← elf (placed l.file index h)
      let (c, new) ← loadSection l index h name sec c
      loadTurns l (index + 1) hs c (loaded ++ new.toList.map (index, ·))

/-- The loop is all turns, and the check that the headers could be read to the end. -/
lemma loadSections_eq (l : Loading) (index : ℕ) (hs : List SectionHeader) (c : Cursor)
    (loaded : List (ℕ × LoadedSection)) :
    loadSections l index hs c loaded = (do
      let (_, loaded) ← loadTurns l index hs c loaded
      match l.file.sectionIter.stop with
      | none => pure loaded
      | some p => panic (.elf p)) := by
  induction hs generalizing index c loaded with
  | nil => rfl
  | cons h hs ih =>
    rw [loadSections, loadTurns]
    split_ifs
    · exact ih _ _ _
    · simp only [ih, bind_assoc]

/-- **An invariant of the loop**: a header that is passed over keeps it, and so does a turn, which
it makes safe.  It speaks of the index, the headers that are left, the cursor and what was loaded. -/
structure LoopInvariant (E : Panic → Prop) (l : Loading)
    (I : ℕ → List SectionHeader → Cursor → List (ℕ × LoadedSection) → Prop) : Prop where
  skip : ∀ {index h hs c loaded}, unallocated h = true → I index (h :: hs) c loaded →
    I (index + 1) hs c loaded
  safe : ∀ {index h hs c loaded name sec}, unallocated h = false → I index (h :: hs) c loaded →
    h.getName l.file = .ok (.ok name) → placed l.file index h = .ok (.ok sec) →
      Safe E l h name sec c
  turn : ∀ {index h hs c loaded name sec r}, unallocated h = false → I index (h :: hs) c loaded →
    h.getName l.file = .ok (.ok name) → placed l.file index h = .ok (.ok sec) →
      Placing l index h name sec c r → I (index + 1) hs r.1 (loaded ++ r.2.toList.map (index, ·))

section Loop

variable {l : Loading} {I : ℕ → List SectionHeader → Cursor → List (ℕ × LoadedSection) → Prop}

/-- **The turns keep an invariant of the loop.** -/
lemma loadTurns_spec (hE : AllowsRest E) (hw : WritesAll P l.mappings) (hI : LoopInvariant E l I)
    {c : Cursor} (hstart : I index hs c loaded) :
    Spec P E P (fun r s => P s ∧ I (index + hs.length) [] r.1 r.2)
      (loadTurns l index hs c loaded) := by
  induction hs generalizing index c loaded with
  | nil => exact Spec.pure fun s hs => ⟨hs, hstart⟩
  | cons h hs ih =>
    rw [loadTurns, List.length_cons, Nat.add_comm hs.length 1, ← Nat.add_assoc]
    split_ifs with halloc
    · exact ih (hI.skip halloc hstart)
    have halloc : unallocated h = false := by simpa using halloc
    refine Spec.bind (elf_spec hE _) fun name => Spec.assume fun hname => ?_
    refine Spec.bind (elf_spec hE _) fun sec => Spec.assume fun hsec => ?_
    refine Spec.bind (loadSection_spec hE hw (hI.safe halloc hstart hname hsec)) fun r =>
      Spec.assume fun hr => ih (hI.turn halloc hstart hname hsec hr)

/-- The whole loop keeps it. -/
lemma loadSections_spec (hE : AllowsRest E) (hw : WritesAll P l.mappings) (hI : LoopInvariant E l I)
    {c : Cursor} (hstart : I index hs c loaded) :
    Spec P E P (fun loaded' s => P s ∧ ∃ c', I (index + hs.length) [] c' loaded')
      (loadSections l index hs c loaded) := by
  rw [loadSections_eq]
  refine Spec.bind (loadTurns_spec hE hw hI hstart) fun r => Spec.assume fun hr => ?_
  dsimp only
  split
  · exact Spec.pure fun s hs => ⟨hs, r.1, hr⟩
  · exact Spec.panic (hE _ rfl)

end Loop

end Rhubarb.Loader
