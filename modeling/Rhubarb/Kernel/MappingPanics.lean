import Rhubarb.Kernel.UserMemory

/-!
What the calls that make and map a mapping panic for (`KernelMapping::new` and `map_into` of
`kernel/src/memory.rs`, `load_object_sections` of `kernel/src/loader.rs`).

The walks through the page tables and the calls around them have assertions of their own.  Two
panics are not among them: the bound of `as_slice_mut`, and the `unwrap` of a failed `map_into`,
which only the loader calls.

* `OwnPanics`: a computation over the page tables has only panics of its own.
* `newPart_panics`, `mapPart_panics`: the two calls of the loader.
-/

namespace Rhubarb

open Foundations Comp

/-- The panics of the page tables and of the calls that make a mapping. -/
def Panic.ofMapping : Panic → Bool
  | .sliceBounds | .mapSections => false
  | _ => true

variable {p : Panic} {flags : PageTableFlags}

lemma Frame.containingAddr_panics {a : Address} (h : Frame.containingAddr a = .error p) :
    p.ofMapping = true := by
  rw [Frame.containingAddr] at h
  split_ifs at h
  cases h
  rfl

lemma Frame.fromBaseAddr_panics {a : Address} (h : Frame.fromBaseAddr a = .error p) :
    p.ofMapping = true := by
  rw [Frame.fromBaseAddr] at h
  split_ifs at h
  exact Frame.containingAddr_panics (error_of_map h)

namespace PageTableEntry

lemma frame_panics {e : PageTableEntry} (h : e.frame = .error p) :
    p.ofMapping = true := by
  rw [frame] at h
  split_ifs at h
  exact Frame.containingAddr_panics (error_of_map h)

lemma setFrame_panics {f : Frame} (h : setFrame f flags = .error p) : p.ofMapping = true := by
  rw [setFrame, setAddr] at h
  split_ifs at h <;> cases h <;> rfl

end PageTableEntry

namespace Level4PageTable

variable {A α β : Type}

/-- A computation over the page tables that has only panics of its own. -/
def OwnPanics (c : Comp Panic (PagingState A) MappingError α) : Prop :=
  Keeps (fun _ => True) (fun p => p.ofMapping = true) c

lemma OwnPanics.bind {c : Comp Panic (PagingState A) MappingError α}
    {f : α → Comp Panic (PagingState A) MappingError β} (h : OwnPanics c) (hf : ∀ a, OwnPanics (f a)) :
    OwnPanics (c >>= f) :=
  Spec.bind h hf

lemma OwnPanics.pure (a : α) : OwnPanics (pure a : Comp Panic (PagingState A) MappingError α) :=
  Spec.pure fun _ _ => trivial

lemma OwnPanics.fail (e : MappingError) : OwnPanics (fail e : Comp Panic (PagingState A) MappingError α) :=
  Spec.fail fun _ _ => trivial

lemma OwnPanics.lift {x : Except Panic α} (h : ∀ p, x = .error p → p.ofMapping = true) :
    OwnPanics (lift x : Comp Panic (PagingState A) MappingError α) :=
  Spec.lift h fun _ _ _ _ => trivial

lemma ownPanics_entry (t : Frame) (i : TableIndex) : OwnPanics (entry t i : Comp Panic (PagingState A) _ _) :=
  Spec.intro fun _ _ => trivial

lemma ownPanics_setEntry (t : Frame) (i : TableIndex) (e : PageTableEntry) :
    OwnPanics (setEntry t i e : Comp Panic (PagingState A) _ _) :=
  Spec.modify fun _ _ => trivial

lemma ownPanics_addFlags (t : Frame) (i : TableIndex) (flags : PageTableFlags) :
    OwnPanics (addFlags t i flags : Comp Panic (PagingState A) _ _) := by
  refine (ownPanics_entry t i).bind fun e => ?_
  split_ifs
  · exact ownPanics_setEntry t i _
  · exact OwnPanics.pure ()

lemma ownPanics_openTable (t : Frame) (i : TableIndex) :
    OwnPanics (openTable t i : Comp Panic (PagingState A) _ _) := by
  refine (ownPanics_entry t i).bind fun e => (OwnPanics.lift fun p hp => ?_).bind fun r => ?_
  · exact PageTableEntry.frame_panics hp
  · match r with
    | .ok table => exact OwnPanics.pure table
    | .error .hugePage => exact OwnPanics.fail _
    | .error .notPresent => exact Spec.panic rfl

/-- A translation that has only panics of its own. -/
def TranslationPanics (x : Translation α) : Prop := ∀ p, x.run = .error p → p.ofMapping = true

lemma TranslationPanics.bind {x : Translation α} {f : α → Translation β} (h : TranslationPanics x)
    (hf : ∀ a, TranslationPanics (f a)) : TranslationPanics (x >>= f) := by
  intro p hp
  rcases error_of_bind (show x.run >>= ExceptT.bindCont f = .error p from hp) with hx | ⟨r, -, hr⟩
  · exact h p hx
  · cases r with
    | error e => cases hr
    | ok a => exact hf a p hr

lemma translationPanics_getTable (e : PageTableEntry) : TranslationPanics (getTable e) :=
  fun _ hp => PageTableEntry.frame_panics (error_of_map hp)

lemma translationPanics_leafFrame (e : PageTableEntry) : TranslationPanics (leafFrame e) := by
  rw [leafFrame]
  split_ifs
  · intro p hp
    cases hp
  · refine TranslationPanics.bind (fun p hp => ?_) fun r p hp => ?_
    · exact Frame.fromBaseAddr_panics (error_of_map hp)
    · cases r <;> cases hp

lemma translationPanics_translatePage (mem : PhysMem) (root : Frame) (page : Page) :
    TranslationPanics (translatePage mem root page) :=
  (translationPanics_getTable _).bind fun _ => (translationPanics_getTable _).bind fun _ =>
    (translationPanics_getTable _).bind fun _ => translationPanics_leafFrame _

lemma ownPanics_kernelFrame (kernelRoot : Frame) (page : Page) :
    OwnPanics (kernelFrame kernelRoot page : Comp Panic (PagingState A) _ _) := by
  refine Spec.bind (Q := fun _ _ => True) (Spec.read fun _ _ => trivial) fun s => ?_
  refine (OwnPanics.lift (translationPanics_translatePage s.mem kernelRoot page)).bind fun r => ?_
  match r with
  | .ok frame => exact OwnPanics.pure frame
  | .error _ => exact Spec.panic rfl

variable [AllocateFrame A]

lemma ownPanics_allocateFrame : OwnPanics (allocateFrame : Comp Panic (PagingState A) _ _) :=
  Spec.intro fun _ _ => trivial

lemma ownPanics_linkFrame (t : Frame) (i : TableIndex) (flags : PageTableFlags) :
    OwnPanics (linkFrame t i flags : Comp Panic (PagingState A) _ _) := by
  refine ownPanics_allocateFrame.bind fun f => ?_
  match f with
  | some frame =>
    exact (OwnPanics.lift fun p hp => PageTableEntry.setFrame_panics hp).bind fun e =>
      ownPanics_setEntry t i e
  | none => exact OwnPanics.fail _

lemma ownPanics_nextTable (t : Frame) (i : TableIndex) (flags : PageTableFlags) :
    OwnPanics (nextTable t i flags : Comp Panic (PagingState A) _ _) := by
  refine (ownPanics_entry t i).bind fun e => ?_
  split_ifs
  · refine (ownPanics_linkFrame t i flags).bind fun _ => (ownPanics_openTable t i).bind fun table => ?_
    exact Spec.bind (Q := fun _ _ => True) (Spec.modify fun _ _ => trivial) fun _ => OwnPanics.pure table
  · exact (ownPanics_addFlags t i flags).bind fun _ => ownPanics_openTable t i

lemma ownPanics_mapTo (root : Frame) (page : Page) (frame : Frame) (flags : PageTableFlags) :
    OwnPanics (mapTo root page frame flags : Comp Panic (PagingState A) _ _) := by
  have hdown : OwnPanics (level1Table root page (parentTableFlags flags)
      : Comp Panic (PagingState A) _ _) :=
    (ownPanics_nextTable _ _ _).bind fun l3 => (ownPanics_nextTable l3 _ _).bind fun l2 =>
      ownPanics_nextTable l2 _ _
  refine hdown.bind fun l1 => (ownPanics_entry l1 _).bind fun e => ?_
  split_ifs
  · exact OwnPanics.fail _
  · exact (OwnPanics.lift fun p hp => PageTableEntry.setFrame_panics hp).bind fun e' =>
      ownPanics_setEntry l1 _ e'

lemma ownPanics_mapPagesLoop (root : Frame) (flags : PageTableFlags) (pages : List Page) :
    OwnPanics (mapPagesLoop root flags pages : Comp Panic (PagingState A) _ _) := by
  induction pages with
  | nil => exact OwnPanics.pure ()
  | cons page pages ih =>
    have hframe : OwnPanics (unwrapFrame .mapPagesFrame : Comp Panic (PagingState A) _ _) := by
      refine ownPanics_allocateFrame.bind fun f => ?_
      match f with
      | some frame => exact OwnPanics.pure frame
      | none => exact Spec.panic rfl
    refine hframe.bind fun frame =>
      Spec.bind (Keeps.attempt (ownPanics_mapTo root page frame flags)) fun r => ?_
    match r with
    | .ok _ => exact ih
    | .error e =>
      show OwnPanics (if e = _ then _ else _)
      split_ifs
      · exact ih
      · exact OwnPanics.fail e

lemma ownPanics_mapKernelPagesLoop (kernelRoot root : Frame) (flags : PageTableFlags)
    (pages : List (Page × Page)) :
    OwnPanics (mapKernelPagesLoop kernelRoot root flags pages : Comp Panic (PagingState A) _ _) := by
  induction pages with
  | nil => exact OwnPanics.pure ()
  | cons pair pages ih =>
    exact (ownPanics_kernelFrame kernelRoot pair.2).bind fun frame =>
      (ownPanics_mapTo root pair.1 frame flags).bind fun _ => ih

end Level4PageTable

namespace MemoryState

variable {m : MemoryState} {id : SpaceId} {space : AddressSpace} {p : Panic}

lemma kernelAddressSpace_panics (h : m.kernelAddressSpace = .error p) : p.ofMapping = true := by
  rw [kernelAddressSpace] at h
  split at h
  · cases h
  · cases h
    rfl

/-- A call on an address space panics where its walk does. -/
lemma withPageTable_ownPanics {α : Type} {c : Comp Panic (PagingState ProxyAllocator) MappingError α}
    (hc : Level4PageTable.OwnPanics c) (h : m.withPageTable id space c = .error p) :
    p.ofMapping = true := by
  rw [withPageTable] at h
  split at h
  · cases h
  next q hq =>
  cases h
  exact (hc _ trivial).1 _ hq

lemma mapInto_panics {mapping : KernelMapping} {pages : PageRange}
    (h : m.mapInto id space mapping pages flags = .error p) : p.ofMapping = true := by
  have hmap := error_of_map h
  rw [mapKernelPagesTo] at hmap
  split_ifs at hmap
  · cases hmap
    rfl
  · cases hmap
    rfl
  · rcases error_of_bind hmap with hk | ⟨kernel, -, hwalk⟩
    · exact kernelAddressSpace_panics hk
    · exact withPageTable_ownPanics (Level4PageTable.ownPanics_mapKernelPagesLoop _ _ _ _) hwalk

end MemoryState

lemma PageRange.fromStartLen_panics {start : Page} {len : ℕ}
    (h : PageRange.fromStartLen start len = .error p) : p.ofMapping = true := by
  rcases error_of_bind h with h | ⟨stop, -, h⟩
  · rw [Page.add] at h
    split_ifs at h
    cases h
    rfl
  · cases h

lemma KernelMapping.new_panics {k : KernelMemory} {name : String} {size : ℕ}
    (h : KernelMapping.new k name size flags = .error p) :
    p.ofMapping = true := by
  rcases error_of_bind h with h | ⟨pages, -, h⟩
  · exact PageRange.fromStartLen_panics h
  · split_ifs at h
    · cases h
      rfl
    · rcases error_of_bind h with h | ⟨kernel, -, h⟩
      · exact MemoryState.kernelAddressSpace_panics h
      · rcases error_of_bind h with h | ⟨⟨r, memory⟩, -, h⟩
        · exact MemoryState.withPageTable_ownPanics (Level4PageTable.ownPanics_mapPagesLoop _ _ _)
            (error_of_map h)
        · cases r with
          | ok u => cases h
          | error e =>
            cases h
            rfl

namespace KernelMemory

variable {k : KernelMemory} {p : Panic}

/-- **Making a mapping** has only panics of its own. -/
lemma newPart_panics {image : ObjectImage} {part : ObjectPart}
    (h : k.newPart image part = .error p) : p.ofMapping = true := by
  rw [newPart] at h
  split_ifs at h
  rcases error_of_bind h with h | ⟨x, -, h⟩
  · exact KernelMapping.new_panics h
  · cases h

/-- **Mapping a part** has only panics of its own, apart from the `unwrap` of a failed call. -/
lemma mapPart_panics {i : ℕ} {start : Page} {mapping : Option KernelMapping}
    (h : k.mapPart i start mapping = .error p) :
    p.ofMapping = true ∨ p = .mapSections ∧ ∃ m ∈ mapping, ∃ pages e k',
      PageRange.fromStartLen start m.pages.len = .ok pages
      ∧ k.mapInto i m pages (PageTableFlags.present.or .userAccessible) = .ok (.error e, k') := by
  cases mapping with
  | none => cases h
  | some m =>
    rcases error_of_bind h with h | ⟨pages, hpages, h⟩
    · exact .inl (PageRange.fromStartLen_panics h)
    rcases error_of_bind h with h | ⟨⟨r, k'⟩, hmap, h⟩
    · left
      rcases error_of_bind h with h | ⟨space, -, h⟩
      · rw [KernelMemory.space] at h
        split at h
        · cases h
        · cases h
          rfl
      rcases error_of_bind h with h | ⟨x, -, h⟩
      · exact MemoryState.mapInto_panics h
      · cases h
    · cases r with
      | ok u => cases h
      | error e =>
        cases h
        exact .inr ⟨rfl, m, rfl, pages, e, k', hpages, hmap⟩

end KernelMemory

end Rhubarb
