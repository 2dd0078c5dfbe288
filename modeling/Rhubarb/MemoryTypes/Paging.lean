import Rhubarb.Foundations.Comp
import Rhubarb.Foundations.Radix
import Rhubarb.MemoryTypes.Entry

/-!
`memory-types`: the four-level page table (`Level4PageTable` of `paging.rs`).

Physical memory is seen as a family of page tables, one per frame, since the code reaches a
table through the identity mapping of its frame's base address; a `Level4PageTable` is the
frame of its root.  The functions that change tables run over that memory and a frame
allocator, and keep every partial effect of the source: a walk that fails half-way leaves the
tables it has linked and the parent flags it has rewritten.

* `nextTable_cases`: the four things `next_table` can do, the only place where its body is
  opened.
* `walk`: the look-up `translate_page` and `translate_addr` share (`translatePage_eq`,
  `translateAddr_eq`).
-/

namespace Rhubarb

open Foundations

/-- The page tables in physical memory. -/
abbrev PhysMem : Type := Frame → TableIndex → PageTableEntry

/-- The trait `FrameAllocator` of `memory-types`. -/
class AllocateFrame (A : Type) where
  allocateFrame : A → Option Frame × A

/-- What the mapping functions change: the tables and the allocator they were given. -/
structure PagingState (A : Type) where
  mem : PhysMem
  allocator : A

inductive MappingError where
  | pageAlreadyMapped (mapped : Frame)
  | frameAllocationFailed
  | mappedToHugePage
  deriving DecidableEq, Repr

inductive TranslationError where
  | notMapped
  | hugePage
  | invalidFrameAddress (addr : Address)
  deriving DecidableEq, Repr

/-- `From<EntryFrameError> for TranslationError`. -/
def EntryFrameError.toTranslationError : EntryFrameError → TranslationError
  | .notPresent => .notMapped
  | .hugePage => .hugePage

/-- `AddressTranslation`. -/
structure AddressTranslation where
  frame : Frame
  offset : ℕ
  flags : PageTableFlags
  deriving DecidableEq

/-- `PAGES_PER_L2_HUGE_PAGE`. -/
def pagesPerL2HugePage : ℕ := 512 * 512 * 8 / pageSize

variable {t : Frame} {i : TableIndex} {r : Except MappingError Frame} {flags : PageTableFlags}

/-- `PAGES_PER_L3_HUGE_PAGE`. -/
def pagesPerL3HugePage : ℕ := 512 * 512 * 512 * 8 / pageSize

namespace Level4PageTable

section Mapping

variable {A : Type}

/-- The entry of a table. -/
def entry (t : Frame) (i : TableIndex) : Comp Panic (PagingState A) MappingError PageTableEntry := do
  let s ← Comp.read
  pure (s.mem t i)

/-- Write the entry of a table. -/
def setEntry (t : Frame) (i : TableIndex) (e : PageTableEntry) :
    Comp Panic (PagingState A) MappingError Unit :=
  Comp.modify fun s => { s with mem := Radix.write s.mem t i e }

/-- `PageTable::clear`. -/
def clear (t : Frame) : Comp Panic (PagingState A) MappingError Unit :=
  Comp.modify fun s => { s with mem := Radix.clear s.mem t .unused }

lemma entry_apply (t : Frame) (i : TableIndex) (s : PagingState A) :
    entry t i s = .ok (.ok (s.mem t i), s) := rfl

lemma setEntry_apply (t : Frame) (i : TableIndex) (e : PageTableEntry) (s : PagingState A) :
    setEntry t i e s = .ok (.ok (), ⟨Radix.write s.mem t i e, s.allocator⟩) := rfl

/-- The first half of `next_table` on a used entry. -/
def addFlags (t : Frame) (i : TableIndex) (flags : PageTableFlags) :
    Comp Panic (PagingState A) MappingError Unit := do
  let e ← entry t i
  if flags ≠ .none ∧ e.flags.and flags ≠ flags then
    setEntry t i (e.setFlags (e.flags.or flags))

/-- The second half of `next_table`: `get_table` and its errors. -/
def openTable (t : Frame) (i : TableIndex) : Comp Panic (PagingState A) MappingError Frame := do
  let e ← entry t i
  match ← Comp.lift e.frame with
  | .ok table => pure table
  | .error .hugePage => Comp.fail .mappedToHugePage
  | .error .notPresent => Comp.panic .entryNotMapped

variable [AllocateFrame A]

/-- The call of the allocator. -/
def allocateFrame : Comp Panic (PagingState A) MappingError (Option Frame) := fun s =>
  let (f, a) := AllocateFrame.allocateFrame s.allocator
  .ok (.ok f, { s with allocator := a })

/-- The first half of `next_table` on an unused entry. -/
def linkFrame (t : Frame) (i : TableIndex) (flags : PageTableFlags) :
    Comp Panic (PagingState A) MappingError Unit := do
  match ← allocateFrame with
  | some frame => do
    let e ← Comp.lift (PageTableEntry.setFrame frame flags)
    setEntry t i e
  | none => Comp.fail .frameAllocationFailed

def nextTable (t : Frame) (i : TableIndex) (flags : PageTableFlags) :
    Comp Panic (PagingState A) MappingError Frame := do
  let e ← entry t i
  if e.isUnused then do
    linkFrame t i flags
    let pageTable ← openTable t i
    clear pageTable
    pure pageTable
  else do
    addFlags t i flags
    openTable t i

/-- The flags a walk gives to the entries above the leaf. -/
def parentTableFlags (flags : PageTableFlags) : PageTableFlags :=
  flags.and ((PageTableFlags.present.or .writable).or .userAccessible)

/-- The three calls of `next_table` in `map_to`, down to the level-1 table of the page. -/
def level1Table (root : Frame) (page : Page) (flags : PageTableFlags) :
    Comp Panic (PagingState A) MappingError Frame := do
  let l3 ← nextTable root page.l4Index flags
  let l2 ← nextTable l3 page.l3Index flags
  nextTable l2 page.l2Index flags

def mapTo (root : Frame) (page : Page) (frame : Frame) (flags : PageTableFlags) :
    Comp Panic (PagingState A) MappingError Unit := do
  let l1 ← level1Table root page (parentTableFlags flags)
  let e ← entry l1 page.l1Index
  if e.isUnused = false then
    Comp.fail (.pageAlreadyMapped frame)
  else do
    let e' ← Comp.lift (PageTableEntry.setFrame frame flags)
    setEntry l1 page.l1Index e'

/-- One turn of the loop of `set_flags`; the result is how many of the following pages the
loop then skips. -/
def setFlagsPage (root : Frame) (flags : PageTableFlags) (page : Page) :
    Comp Panic (PagingState A) MappingError ℕ := do
  let l3 ← nextTable root page.l4Index (parentTableFlags flags)
  let e3 ← entry l3 page.l3Index
  if e3.isHugePage then do
    setEntry l3 page.l3Index (e3.setFlags (flags.or .hugePage))
    pure pagesPerL3HugePage
  else do
    let l2 ← nextTable l3 page.l3Index (parentTableFlags flags)
    let e2 ← entry l2 page.l2Index
    if e2.isHugePage then do
      setEntry l2 page.l2Index (e2.setFlags (flags.or .hugePage))
      pure pagesPerL2HugePage
    else do
      let l1 ← nextTable l2 page.l2Index (parentTableFlags flags)
      let e1 ← entry l1 page.l1Index
      if e1.isUnused = false then do
        setEntry l1 page.l1Index (e1.setFlags flags)
        pure 0
      else pure 0

/-- The loop of `set_flags` over the pages of the range; `skip` pages are passed over first. -/
def setFlagsLoop (root : Frame) (flags : PageTableFlags) :
    ℕ → List Page → Comp Panic (PagingState A) MappingError Unit
  | _, [] => pure ()
  | skip + 1, _ :: pages => setFlagsLoop root flags skip pages
  | 0, page :: pages => do
    let skip ← setFlagsPage root flags page
    setFlagsLoop root flags skip pages

def setFlags (root : Frame) (pages : PageRange) (flags : PageTableFlags) :
    Comp Panic (PagingState A) MappingError Unit :=
  setFlagsLoop root flags 0 pages.pages

/-! ### What `next_table` does -/

/-- A used entry after the flags of a walk have been added to it. -/
def withFlags (e : PageTableEntry) (flags : PageTableFlags) : PageTableEntry :=
  if flags ≠ .none ∧ e.flags.and flags ≠ flags then e.setFlags (e.flags.or flags) else e

lemma write_eq_self (mem : PhysMem) (t : Frame) (i : TableIndex) :
    Radix.write mem t i (mem t i) = mem := by
  funext f j
  by_cases h : f = t ∧ j = i
  · obtain ⟨rfl, rfl⟩ := h
    rw [Radix.write_self]
  · rw [Radix.write_of_ne h]

omit [AllocateFrame A] in
lemma addFlags_apply (t : Frame) (i : TableIndex) (flags : PageTableFlags) (s : PagingState A) :
    addFlags t i flags s
      = .ok (.ok (), ⟨Radix.write s.mem t i (withFlags (s.mem t i) flags), s.allocator⟩) := by
  rw [addFlags, Comp.bind_apply_ok (entry_apply t i s), withFlags]
  split
  · rfl
  · rw [write_eq_self]
    rfl

variable {s s' : PagingState A}

/-- What `get_table` in `next_table` answers to an entry. -/
def opened (e : PageTableEntry) : Except Panic (Except MappingError Frame) :=
  match e.frame with
  | .ok (.ok g) => .ok (.ok g)
  | .ok (.error .hugePage) => .ok (.error .mappedToHugePage)
  | .ok (.error .notPresent) => .error .entryNotMapped
  | .error p => .error p

lemma opened_of_frame {e : PageTableEntry} {g : Frame} (h : e.frame = .ok (.ok g)) :
    opened e = .ok (.ok g) := by
  rw [opened, h]

lemma opened_eq_ok {e : PageTableEntry} (h : opened e = .ok r) :
    (∃ g, e.frame = .ok (.ok g) ∧ r = .ok g)
      ∨ e.frame = .ok (.error .hugePage) ∧ r = .error .mappedToHugePage := by
  rw [opened] at h
  split at h
  · next g hg =>
      cases h
      exact .inl ⟨g, hg, rfl⟩
  · next hg =>
      cases h
      exact .inr ⟨hg, rfl⟩
  · cases h
  · cases h

omit [AllocateFrame A] in
lemma openTable_eq (t : Frame) (i : TableIndex) (s : PagingState A) :
    openTable t i s = (opened (s.mem t i)).map (·, s) := by
  rw [openTable, Comp.bind_apply_ok (entry_apply t i s), opened]
  rcases (s.mem t i).frame with p | (x | g)
  · rfl
  · cases x <;> rfl
  · rfl

/-- `next_table` on a used entry. -/
lemma nextTable_of_used (hu : (s.mem t i).isUnused = false) :
    nextTable t i flags s = (opened (withFlags (s.mem t i) flags)).map
      (·, ⟨Radix.write s.mem t i (withFlags (s.mem t i) flags), s.allocator⟩) := by
  rw [nextTable, Comp.bind_apply_ok (entry_apply t i s), if_neg (by simp [hu]),
    Comp.bind_apply_ok (addFlags_apply t i flags s), openTable_eq]
  simp only [Radix.write_self]

/-- `next_table` on an unused entry. -/
lemma nextTable_of_unused (hu : (s.mem t i).isUnused = true) :
    nextTable t i flags s = match AllocateFrame.allocateFrame s.allocator with
      | (none, a) => .ok (.error .frameAllocationFailed, ⟨s.mem, a⟩)
      | (some f, a) => PageTableEntry.setFrame f flags >>= fun e => (opened e).map fun
          | .ok g => (.ok g, ⟨Radix.link s.mem t i e g .unused, a⟩)
          | .error x => (.error x, ⟨Radix.write s.mem t i e, a⟩) := by
  rw [nextTable, Comp.bind_apply_ok (entry_apply t i s), if_pos hu]
  rcases hal : AllocateFrame.allocateFrame s.allocator with ⟨_ | f, a⟩
  · refine Comp.bind_apply_error ?_
    simp only [linkFrame, bind, Comp.seq, allocateFrame, hal]
    rfl
  · have hlink : linkFrame t i flags s = (PageTableEntry.setFrame f flags).map fun e =>
        (.ok (), ⟨Radix.write s.mem t i e, a⟩) := by
      simp only [linkFrame, bind, Comp.seq, allocateFrame, hal]
      cases PageTableEntry.setFrame f flags <;> rfl
    dsimp only
    cases hset : PageTableEntry.setFrame f flags with
    | error p =>
      rw [hset] at hlink
      exact Comp.bind_apply_panic hlink
    | ok e =>
      rw [hset] at hlink
      refine (Comp.bind_apply_ok hlink).trans ?_
      change _ = (opened e).map _
      have hopen := openTable_eq t i (⟨Radix.write s.mem t i e, a⟩ : PagingState A)
      simp only [Radix.write_self] at hopen
      rcases ho : opened e with p | (x | g) <;> rw [ho] at hopen
      · exact Comp.bind_apply_panic hopen
      · exact Comp.bind_apply_error hopen
      · exact Comp.bind_apply_ok hopen

/-- **The outcomes of `next_table`**: the allocator is empty; a fresh frame is linked and
cleared; a used entry is relabelled and leads to its table; or it is a huge leaf. -/
lemma nextTable_cases (h : nextTable t i flags s = .ok (r, s')) :
    ((s.mem t i).isUnused = true ∧ ∃ a,
        AllocateFrame.allocateFrame s.allocator = (none, a)
        ∧ r = .error .frameAllocationFailed ∧ s' = ⟨s.mem, a⟩)
      ∨ ((s.mem t i).isUnused = true ∧ ∃ f a g,
        AllocateFrame.allocateFrame s.allocator = (some f, a)
        ∧ (PageTableEntry.ofFrame f flags).frame = .ok (.ok g) ∧ r = .ok g
        ∧ s' = ⟨Radix.link s.mem t i (.ofFrame f flags) g .unused, a⟩)
      ∨ ((s.mem t i).isUnused = false ∧ ∃ g,
        (withFlags (s.mem t i) flags).frame = .ok (.ok g) ∧ r = .ok g
        ∧ s' = ⟨Radix.write s.mem t i (withFlags (s.mem t i) flags), s.allocator⟩)
      ∨ ((s.mem t i).isUnused = false
        ∧ (withFlags (s.mem t i) flags).frame = .ok (.error .hugePage)
        ∧ r = .error .mappedToHugePage
        ∧ s' = ⟨Radix.write s.mem t i (withFlags (s.mem t i) flags), s.allocator⟩) := by
  cases hu : (s.mem t i).isUnused with
  | true =>
    rw [nextTable_of_unused hu] at h
    split at h
    · next a hal =>
        cases h
        exact .inl ⟨rfl, a, hal, rfl, rfl⟩
    · next f a hal =>
        obtain ⟨e, hset, h⟩ := ok_of_bind h
        obtain ⟨x, hopen, h⟩ := ok_of_map h
        obtain ⟨rfl, hhuge⟩ := PageTableEntry.setFrame_eq_ok hset
        rcases opened_eq_ok hopen with ⟨g, hg, rfl⟩ | ⟨hg, -⟩
        · cases h
          exact .inr (.inl ⟨rfl, f, a, g, hal, hg, rfl, rfl⟩)
        · -- the flags of a linked entry have no huge-page bit
          exact absurd hg (PageTableEntry.frame_ne_hugePage
            ((PageTableEntry.isHugePage_ofFrame f flags).trans hhuge))
  | false =>
    rw [nextTable_of_used hu] at h
    obtain ⟨x, hopen, h⟩ := ok_of_map h
    cases h
    rcases opened_eq_ok hopen with ⟨g, hg, rfl⟩ | ⟨hg, rfl⟩
    · exact .inr (.inr (.inl ⟨rfl, g, hg, rfl, rfl⟩))
    · exact .inr (.inr (.inr ⟨rfl, hg, rfl, rfl⟩))

end Mapping

/-! ### Translation -/

/-- What a translation may give: a value, an error or a panic. -/
abbrev Translation : Type → Type := ExceptT TranslationError (Except Panic)

/-- `get_table` with the error conversion of `?` in the translation functions. -/
def getTable (e : PageTableEntry) : Translation Frame :=
  ExceptT.mk (e.frame.map fun r => r.mapError EntryFrameError.toTranslationError)

/-- The end of both translations: the frame of a used leaf entry. -/
def leafFrame (e : PageTableEntry) : Translation Frame :=
  if e.isUnused then throw .notMapped
  else do
    match ← ExceptT.lift (Frame.fromBaseAddr e.addr) with
    | some frame => pure frame
    | none => throw (.invalidFrameAddress e.addr)

def translatePage (mem : PhysMem) (root : Frame) (page : Page) : Translation Frame := do
  let l3 ← getTable (mem root page.l4Index)
  let l2 ← getTable (mem l3 page.l3Index)
  let l1 ← getTable (mem l2 page.l2Index)
  leafFrame (mem l1 page.l1Index)

def translateAddr (mem : PhysMem) (root : Frame) (addr : Address) :
    Translation AddressTranslation := do
  let l3 ← getTable (mem root addr.l4Index)
  let l2 ← getTable (mem l3 addr.l3Index)
  let l1 ← getTable (mem l2 addr.l2Index)
  let e := mem l1 addr.l1Index
  let frame ← leafFrame e
  pure { frame, offset := addr.pageOffset, flags := e.flags }

end Level4PageTable

end Rhubarb
