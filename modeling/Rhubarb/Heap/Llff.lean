import Rhubarb.Foundations.Comp
import Rhubarb.Foundations.Spans
import Rhubarb.MemoryTypes.Address

/-!
`heap/llff.rs`: the linked-list first-fit allocator of user processes.

The source keeps its free memory as holes linked through the free memory itself; here the links
are a list of the holes in the order of the links, with the dummy `first` hole of `HoleList`
beside it.  All `usize` arithmetic wraps, as it does in the release build.

* `splitHole`, `allocateFirstFit`, `deallocate`: the three functions of the source, the loops of
  the last two as recursions on the list of holes that are left.
* `Heap.step`: a process that asks for blocks and gives back blocks it holds, in any order.
* `splitHole_cut` and `deallocate_joined`: what the functions do to the addresses in the holes
  as long as no sum wraps: a block is cut out of a hole, or joined to the holes.
-/

namespace Rhubarb

open Foundations Span

/-- `MIN_ALLOC_SIZE = size_of::<Hole>()`. -/
def minAllocSize : ℕ := 16

/-- `isize::MAX + 1`. -/
def isizeRange : ℕ := 2 ^ 63

/-- `core::alloc::Layout`: the alignment is a power of two, given by its exponent, and the size
rounded up to it does not exceed `isize::MAX`. -/
structure Layout where
  size : ℕ
  alignLog : Fin 64
  size_le : size + 2 ^ (alignLog : ℕ) ≤ isizeRange
  deriving DecidableEq, Repr

instance Layout.neZero : NeZero 64 := ⟨by decide⟩

namespace Layout

def align (layout : Layout) : ℕ := 2 ^ (layout.alignLog : ℕ)

/-- `Layout::from_size_align`. -/
def fromSizeAlign (size : ℕ) (alignLog : Fin 64) : Option Layout :=
  if h : size + 2 ^ (alignLog : ℕ) ≤ isizeRange then some ⟨size, alignLog, h⟩ else none

end Layout

/-- `align_of::<Hole>()`. -/
def holeAlign : ℕ := 2 ^ 3

/-- The size `align_layout_for_hole` rounds a request to. -/
def sizeForHole (layout : Layout) : ℕ :=
  alignUp (if layout.size < minAllocSize then minAllocSize else layout.size) holeAlign

/-- `align_layout_for_hole`. -/
def alignLayoutForHole (layout : Layout) : Except Panic Layout :=
  match Layout.fromSizeAlign (sizeForHole layout) layout.alignLog with
  | some aligned => .ok aligned
  | none => .error .layoutForHole

/-- `HoleInfo`: a hole with its address. -/
abbrev HoleInfo : Type := Span

/-- `Allocation`. -/
structure Allocation where
  info : HoleInfo
  frontPadding : Option HoleInfo
  backPadding : Option HoleInfo
  deriving DecidableEq, Repr

/-- The address in the hole a block with this layout gets, and the padding before it. -/
def frontOf (hole : HoleInfo) (layout : Layout) : ℕ × Option HoleInfo :=
  if hole.addr = alignUp hole.addr layout.align then
    -- Hole already has the required alignment.
    (hole.addr, none)
  else
    let alignedAddr := alignUp (wrappingAdd hole.addr minAllocSize) layout.align
    (alignedAddr, some ⟨hole.addr, wrappingSub alignedAddr hole.addr⟩)

/-- `split_hole`. -/
def splitHole (hole : HoleInfo) (layout : Layout) : Option Allocation :=
  let (alignedAddr, frontPadding) := frontOf hole layout
  if wrappingAdd hole.addr hole.size < wrappingAdd alignedAddr layout.size then
    none
  else
    let alignedSize := wrappingSub hole.size (wrappingSub alignedAddr hole.addr)
    if alignedSize = layout.size then
      some ⟨⟨alignedAddr, layout.size⟩, frontPadding, none⟩
    else if wrappingSub alignedSize layout.size < minAllocSize then
      -- The remains would form a hole that is too small.
      none
    else
      some ⟨⟨alignedAddr, layout.size⟩, frontPadding,
        some ⟨wrappingAdd alignedAddr layout.size, wrappingSub alignedSize layout.size⟩⟩

/-- The holes that take the place of the one a block was taken from. -/
def Allocation.padding (a : Allocation) : List HoleInfo :=
  a.frontPadding.toList ++ a.backPadding.toList

/-- `allocate_first_fit`: the block and the holes after it was taken. -/
def allocateFirstFit (layout : Layout) : List HoleInfo → Option (HoleInfo × List HoleInfo)
  | [] => none
  | current :: rest =>
    match splitHole current layout with
    | some allocation => some (allocation.info, allocation.padding ++ rest)
    | none => (allocateFirstFit layout rest).map fun r => (r.1, current :: r.2)

/-- The address a hole is freed behind: the dummy hole counts as lying at 0. -/
def holeAddr (hole : HoleInfo) : ℕ := if hole.size = 0 then 0 else hole.addr

/-- `deallocate`: `hole` is the hole the loop is at, the list the holes it links to. -/
def deallocate (addr : ℕ) :
    HoleInfo → List HoleInfo → ℕ → Except Panic (HoleInfo × List HoleInfo)
  | hole, [], size =>
    if size < minAllocSize then .error .freedSize
    else if addr < wrappingAdd (holeAddr hole) hole.size then .error .invalidDeallocation
    else if wrappingAdd (holeAddr hole) hole.size = addr then
      .ok (⟨hole.addr, wrappingAdd hole.size size⟩, [])
    else .ok (hole, [⟨addr, size⟩])
  | hole, next :: rest, size =>
    if size < minAllocSize then .error .freedSize
    else if addr < wrappingAdd (holeAddr hole) hole.size then .error .invalidDeallocation
    else if wrappingAdd (holeAddr hole) hole.size = addr ∧ wrappingAdd addr size = next.addr then
      -- The block fills the gap between this hole and the next hole.
      .ok (⟨hole.addr, wrappingAdd hole.size (wrappingAdd size next.size)⟩, rest)
    else if wrappingAdd (holeAddr hole) hole.size = addr then
      .ok (⟨hole.addr, wrappingAdd hole.size size⟩, next :: rest)
    else if wrappingAdd addr size = next.addr then
      -- The merged block is freed in the next iteration, which is still at this hole.
      deallocate addr hole rest (wrappingAdd size next.size)
    else if next.addr ≤ addr then
      match deallocate addr next rest size with
      | .ok (next', rest') => .ok (hole, next' :: rest')
      | .error p => .error p
    else .ok (hole, ⟨addr, size⟩ :: next :: rest)

/-- `HoleList`: the dummy hole, which lies where the list itself does, and the holes it links
to. -/
structure HoleList where
  first : HoleInfo
  next : List HoleInfo
  deriving DecidableEq, Repr

namespace HoleList

/-- `HoleList::empty`, at the address `self`. -/
def empty (self : ℕ) : HoleList := ⟨⟨self, 0⟩, []⟩

/-- `HoleList::init`.  There is no list when the hole would lie at address 0: writing it there
is undefined in the source. -/
def init (list : HoleList) (addr size : ℕ) : Option HoleList :=
  let alignedAddr := alignUp addr holeAlign
  if alignedAddr = 0 then none
  else some ⟨⟨list.first.addr, 0⟩, [⟨alignedAddr, size - wrappingSub alignedAddr addr⟩]⟩

/-- `HoleList::allocate_first_fit`. -/
def allocateFirstFit (layout : Layout) : Comp Panic HoleList Unit (ℕ × Layout) := do
  let aligned ← Comp.lift (alignLayoutForHole layout)
  let list ← Comp.read
  match Rhubarb.allocateFirstFit aligned list.next with
  | some (info, next) =>
    Comp.modify fun list => { list with next }
    if info.addr = 0 then Comp.panic .nullBlock else pure (info.addr, aligned)
  | none => Comp.fail ()

/-- `HoleList::deallocate`. -/
def deallocate (list : HoleList) (ptr : ℕ) (layout : Layout) :
    Except Panic (Layout × HoleList) := do
  let aligned ← alignLayoutForHole layout
  let (first, next) ← Rhubarb.deallocate ptr list.first list.next aligned.size
  return (aligned, ⟨first, next⟩)

end HoleList

/-- `llff::Heap`. -/
structure Heap where
  used : ℕ
  holes : HoleList
  deriving DecidableEq, Repr

/-- A block a process was given. -/
structure Block where
  addr : ℕ
  layout : Layout
  deriving DecidableEq, Repr

namespace Heap

/-- `Heap::empty`. -/
def empty (self : ℕ) : Heap := ⟨0, HoleList.empty self⟩

/-- `Heap::init`. -/
def init (heap : Heap) (bottom size : ℕ) : Option Heap :=
  (heap.holes.init bottom size).map fun holes => ⟨0, holes⟩

/-- `Heap::allocate_first_fit`. -/
def allocateFirstFit (layout : Layout) : Comp Panic Heap Unit ℕ := fun heap =>
  match HoleList.allocateFirstFit layout heap.holes with
  | .ok (.ok (ptr, aligned), holes) => .ok (.ok ptr, ⟨wrappingAdd heap.used aligned.size, holes⟩)
  | .ok (.error err, holes) => .ok (.error err, { heap with holes })
  | .error p => .error p

/-- `Heap::deallocate`. -/
def deallocate (heap : Heap) (ptr : ℕ) (layout : Layout) : Except Panic Heap := do
  let (aligned, holes) ← heap.holes.deallocate ptr layout
  return ⟨wrappingSub heap.used aligned.size, holes⟩

/-! ### A process at its heap -/

/-- A heap and the blocks of it that are in use. -/
structure Session where
  heap : Heap
  live : List Block
  deriving DecidableEq, Repr

/-- What a process does: ask for a block, or give back one of those it holds. -/
inductive Op where
  | allocate (layout : Layout)
  | deallocate (i : ℕ)
  deriving DecidableEq, Repr

/-- One call; giving back a block that is not held is no call. -/
def step (s : Session) : Op → Except Panic Session
  | .allocate layout =>
    match allocateFirstFit layout s.heap with
    | .ok (.ok ptr, heap) => .ok ⟨heap, ⟨ptr, layout⟩ :: s.live⟩
    | .ok (.error _, heap) => .ok { s with heap }
    | .error p => .error p
  | .deallocate i =>
    match s.live[i]? with
    | none => .ok s
    | some block => do
      let heap ← s.heap.deallocate block.addr block.layout
      return ⟨heap, s.live.eraseIdx i⟩

end Heap

/-! ### Rounding a layout -/

lemma sizeForHole_bounds (layout : Layout) :
    minAllocSize ≤ sizeForHole layout ∧ holeAlign ∣ sizeForHole layout := by
  have hsize : layout.size ≤ 2 ^ 63 := (Nat.le_add_right _ _).trans layout.size_le
  have hfits : (if layout.size < minAllocSize then minAllocSize else layout.size) + 2 ^ 3
      ≤ usizeRange := by
    rw [usizeRange]
    split
    · norm_num [minAllocSize]
    · omega
  have hle := le_alignUp (by norm_num) hfits
  refine ⟨le_trans ?_ hle, dvd_alignUp (by norm_num) hfits⟩
  split <;> omega

lemma Layout.fromSizeAlign_eq_some {size : ℕ} {alignLog : Fin 64} {layout : Layout}
    (h : fromSizeAlign size alignLog = some layout) :
    layout.size = size ∧ layout.align = 2 ^ (alignLog : ℕ) := by
  rw [fromSizeAlign] at h
  split at h
  · obtain rfl := Option.some.inj h
    exact ⟨rfl, rfl⟩
  · cases h

lemma alignLayoutForHole_eq_ok {layout aligned : Layout}
    (h : alignLayoutForHole layout = .ok aligned) :
    aligned.size = sizeForHole layout ∧ aligned.align = layout.align := by
  simp only [alignLayoutForHole] at h
  split at h
  next hfrom =>
    obtain rfl := Except.ok.inj h
    exact Layout.fromSizeAlign_eq_some hfrom
  next => cases h

lemma alignLayoutForHole_eq_error {layout : Layout} {p : Panic}
    (h : alignLayoutForHole layout = .error p) : p = .layoutForHole := by
  rw [alignLayoutForHole] at h
  split at h
  · cases h
  · exact (Except.error.inj h).symm

/-! ### Splitting a hole -/

/-- No address computed while splitting the hole exceeds the address space. -/
structure SplitFits (hole : HoleInfo) (layout : Layout) : Prop where
  align : hole.addr + layout.align ≤ usizeRange
  padding : hole.addr ≠ alignUp hole.addr layout.align →
    hole.addr + minAllocSize + layout.align ≤ usizeRange
  stop : (frontOf hole layout).1 + layout.size < usizeRange

instance (hole : HoleInfo) (layout : Layout) : Decidable (SplitFits hole layout) :=
  decidable_of_iff (hole.addr + layout.align ≤ usizeRange
      ∧ (hole.addr ≠ alignUp hole.addr layout.align →
        hole.addr + minAllocSize + layout.align ≤ usizeRange)
      ∧ (frontOf hole layout).1 + layout.size < usizeRange)
    ⟨fun h => ⟨h.1, h.2.1, h.2.2⟩, fun h => ⟨h.align, h.padding, h.stop⟩⟩

/-- What holes and blocks have in common: they start at a multiple of the alignment of a hole,
and a hole fits into them. -/
def Sized (s : Span) : Prop := minAllocSize ≤ s.size ∧ holeAlign ∣ s.addr

variable {hole : HoleInfo} {layout : Layout}

/-- Where a block is put into a hole: at its start, or behind a padding that is itself a
hole. -/
lemma frontOf_cases (hfits : SplitFits hole layout) (hhole : holeAlign ∣ hole.addr) :
    layout.align ∣ (frontOf hole layout).1 ∧ holeAlign ∣ (frontOf hole layout).1
      ∧ ((frontOf hole layout).1 = hole.addr ∧ (frontOf hole layout).2 = none
        ∨ hole.addr + minAllocSize ≤ (frontOf hole layout).1
          ∧ (frontOf hole layout).2 = some ⟨hole.addr, (frontOf hole layout).1 - hole.addr⟩) := by
  obtain ⟨halign, hpadding, -⟩ := hfits
  have hk := layout.alignLog.isLt
  by_cases hdvd : hole.addr = alignUp hole.addr layout.align
  · rw [frontOf, if_pos hdvd]
    exact ⟨hdvd ▸ dvd_alignUp hk halign, hhole, .inl ⟨rfl, rfl⟩⟩
  · have hfits := hpadding hdvd
    have hlt : hole.addr + minAllocSize < usizeRange := by
      have : 0 < layout.align := Nat.two_pow_pos _
      omega
    have hup := dvd_alignUp hk hfits
    have hle := le_alignUp hk hfits
    -- An address with the alignment of a hole has every smaller alignment.
    have hlog : 3 ≤ (layout.alignLog : ℕ) := by
      by_contra hlog
      refine hdvd (alignUp_of_dvd hk halign ?_).symm
      exact (Nat.pow_dvd_pow 2 (by omega)).trans hhole
    have hsub : wrappingSub (alignUp (hole.addr + minAllocSize) layout.align) hole.addr
        = alignUp (hole.addr + minAllocSize) layout.align - hole.addr :=
      wrappingSub_eq ((Nat.le_add_right _ _).trans hle)
    rw [frontOf, if_neg hdvd, wrappingAdd_eq hlt]
    simp only [hsub]
    exact ⟨hup, (Nat.pow_dvd_pow 2 hlog).trans hup, .inr ⟨hle, trivial⟩⟩

/-- A block taken out of a hole leaves a hole before it or nothing, and behind it as well. -/
lemma cut_of_paddings {b : HoleInfo} {front back : Option HoleInfo} (hb : minAllocSize ≤ b.size)
    (hfront : b.addr = hole.addr ∧ front = none
      ∨ hole.addr + minAllocSize ≤ b.addr ∧ front = some ⟨hole.addr, b.addr - hole.addr⟩)
    (hback : b.addr + b.size = hole.addr + hole.size ∧ back = none
      ∨ b.addr + b.size + minAllocSize ≤ hole.addr + hole.size
        ∧ back = some ⟨b.addr + b.size, hole.addr + hole.size - (b.addr + b.size)⟩) :
    Cut hole b (front.toList ++ back.toList) where
  separated := by
    simp only [minAllocSize] at *
    rcases hfront with ⟨hfront, rfl⟩ | ⟨hfront, rfl⟩ <;>
      rcases hback with ⟨hback, rfl⟩ | ⟨hback, rfl⟩ <;> simp [separated_cons]
    omega
  within := by
    simp only [minAllocSize] at *
    rcases hfront with ⟨hfront, rfl⟩ | ⟨hfront, rfl⟩ <;>
      rcases hback with ⟨hback, rfl⟩ | ⟨hback, rfl⟩ <;> simp <;> omega
  inside := by
    rcases hfront with ⟨hfront, -⟩ | ⟨hfront, -⟩ <;> rcases hback with ⟨hback, -⟩ | ⟨hback, -⟩ <;>
      omega
  cover x := by
    simp only [minAllocSize] at *
    rcases hfront with ⟨hfront, rfl⟩ | ⟨hfront, rfl⟩ <;>
      rcases hback with ⟨hback, rfl⟩ | ⟨hback, rfl⟩ <;> simp [mem_iff] <;> omega
  total := by
    simp only [minAllocSize] at *
    rcases hfront with ⟨hfront, rfl⟩ | ⟨hfront, rfl⟩ <;>
      rcases hback with ⟨hback, rfl⟩ | ⟨hback, rfl⟩ <;> simp <;> omega

/-- **Splitting a hole**: the block has the size and the alignment asked for, it is cut out of
the hole, and the paddings are holes themselves. -/
lemma splitHole_cut {a : Allocation} (hfits : SplitFits hole layout) (hhole : Sized hole)
    (hstop : hole.addr + hole.size < usizeRange) (hmin : minAllocSize ≤ layout.size)
    (hdvd : holeAlign ∣ layout.size) (h : splitHole hole layout = some a) :
    Cut hole a.info a.padding ∧ (∀ p ∈ a.padding, Sized p)
      ∧ a.info.size = layout.size ∧ layout.align ∣ a.info.addr ∧ Sized a.info := by
  obtain ⟨halign, haddr, hfront⟩ := frontOf_cases hfits hhole.2
  have hfit := hfits.stop
  rw [splitHole] at h
  generalize hfo : frontOf hole layout = fo at *
  obtain ⟨addr, front⟩ := fo
  simp only at h halign haddr hfront hfit
  have hle : hole.addr ≤ addr := by
    rcases hfront with ⟨hfront, -⟩ | ⟨hfront, -⟩ <;> omega
  rw [wrappingAdd_eq hstop, wrappingAdd_eq hfit, wrappingSub_eq hle] at h
  split at h
  · cases h
  next hroom =>
    have hoff : addr - hole.addr ≤ hole.size := by omega
    rw [wrappingSub_eq hoff] at h
    have hrest : layout.size ≤ hole.size - (addr - hole.addr) := by omega
    rw [wrappingSub_eq hrest] at h
    -- Both allocations that are accepted leave what is behind the block as a hole or nothing.
    have accepted : ∀ back : Option HoleInfo,
        (addr + layout.size = hole.addr + hole.size ∧ back = none
          ∨ addr + layout.size + minAllocSize ≤ hole.addr + hole.size
            ∧ back = some ⟨addr + layout.size, hole.addr + hole.size - (addr + layout.size)⟩) →
        Cut hole ⟨addr, layout.size⟩ (front.toList ++ back.toList)
          ∧ ∀ p ∈ front.toList ++ back.toList, Sized p := by
      intro back hback
      refine ⟨cut_of_paddings hmin hfront hback, fun p hp => ?_⟩
      rcases List.mem_append.1 hp with hp | hp
      · rcases hfront with ⟨-, rfl⟩ | ⟨hfront, rfl⟩
        · cases hp
        · obtain rfl : p = _ := by simpa using hp
          exact ⟨by simp only; omega, hhole.2⟩
      · rcases hback with ⟨-, rfl⟩ | ⟨hback, rfl⟩
        · cases hp
        · obtain rfl : p = _ := by simpa using hp
          exact ⟨by simp only; omega, haddr.add hdvd⟩
    split at h
    · obtain rfl := Option.some.inj h
      obtain ⟨hcut, hsized⟩ := accepted none (.inl ⟨by omega, rfl⟩)
      exact ⟨hcut, hsized, rfl, halign, hmin, haddr⟩
    · split at h
      · cases h
      · have hsize : hole.size - (addr - hole.addr) - layout.size
          = hole.addr + hole.size - (addr + layout.size) := by omega
        rw [hsize] at h
        obtain rfl := Option.some.inj h
        obtain ⟨hcut, hsized⟩ := accepted _ (.inr ⟨by omega, rfl⟩)
        exact ⟨hcut, hsized, rfl, halign, hmin, haddr⟩

/-! ### The two loops -/

/-- `SplitFits` for every hole the search looks at. -/
def FirstFitFits (layout : Layout) : List HoleInfo → Prop
  | [] => True
  | current :: rest =>
    SplitFits current layout ∧ (splitHole current layout = none → FirstFitFits layout rest)

instance FirstFitFits.decidable (layout : Layout) :
    ∀ holes, Decidable (FirstFitFits layout holes)
  | [] => isTrue trivial
  | current :: rest =>
    have := FirstFitFits.decidable layout rest
    inferInstanceAs (Decidable (SplitFits current layout
      ∧ (splitHole current layout = none → FirstFitFits layout rest)))

/-- The search takes the block from one of the holes, and leaves the others as they are. -/
lemma allocateFirstFit_eq_some {holes next : List HoleInfo} {info : HoleInfo}
    (h : allocateFirstFit layout holes = some (info, next)) :
    ∃ l hole r a, holes = l ++ hole :: r ∧ next = l ++ (a.padding ++ r)
      ∧ (FirstFitFits layout holes → SplitFits hole layout)
      ∧ splitHole hole layout = some a ∧ a.info = info := by
  induction holes generalizing next with
  | nil => cases h
  | cons current rest ih =>
    rw [allocateFirstFit] at h
    cases hsplit : splitHole current layout with
    | some a =>
      simp only [hsplit, Option.some.injEq, Prod.mk.injEq] at h
      exact ⟨[], current, rest, a, rfl, h.2.symm, fun hfits => hfits.1, hsplit, h.1⟩
    | none =>
      simp only [hsplit, Option.map_eq_some_iff, Prod.exists, Prod.mk.injEq] at h
      obtain ⟨info', next', hfound, rfl, rfl⟩ := h
      obtain ⟨l, hole, r, a, rfl, rfl, hfit, hsome, hinfo⟩ := ih hfound
      exact ⟨current :: l, hole, r, a, rfl, rfl, fun hfits => hfit (hfits.2 hsplit), hsome, hinfo⟩

/-- The hole as the loop of `deallocate` sees it. -/
def extent (hole : HoleInfo) : Span := ⟨holeAddr hole, hole.size⟩

lemma extent_of_sized (h : Sized hole) : extent hole = hole := by
  have hpos : hole.size ≠ 0 := by
    have := h.1
    simp only [minAllocSize] at this
    omega
  simp [extent, holeAddr, hpos]

/-- A hole that a block lies right behind is not the dummy hole, so it may grow. -/
lemma extent_grow {addr : ℕ} (haddr : 0 < addr) (h : holeAddr hole + hole.size = addr) (m : ℕ) :
    extent ⟨hole.addr, hole.size + m⟩ = ⟨(extent hole).addr, (extent hole).size + m⟩ := by
  by_cases hsize : hole.size = 0
  · simp only [holeAddr, hsize, if_true] at h
    omega
  · simp [extent, holeAddr, hsize]

/-- **Freeing a block**: a block that lies apart from the holes of the list and behind the hole
the loop is at is joined to them.  No assertion fails, and the hole the loop started at changes
only when the block lies right behind it. -/
lemma deallocate_joined {addr size bound : ℕ} {holes : List HoleInfo} (hbound : bound < usizeRange)
    (haddr : 0 < addr) (hblock : Sized ⟨addr, size⟩) (hstop : addr + size ≤ bound)
    (hbehind : holeAddr hole + hole.size ≤ addr) (hsep : Separated (extent hole :: holes))
    (hsized : ∀ n ∈ holes, Sized n) (hin : ∀ n ∈ holes, n.addr + n.size ≤ bound)
    (hapart : ∀ n ∈ holes, n.Apart ⟨addr, size⟩) :
    ∃ hole' holes', deallocate addr hole holes size = .ok (hole', holes')
      ∧ Joined (extent hole :: holes) ⟨addr, size⟩ (extent hole' :: holes')
      ∧ (∀ n ∈ holes', Sized n) ∧ hole'.addr = hole.addr ∧ hole.size ≤ hole'.size
      ∧ (holeAddr hole + hole.size ≠ addr → hole' = hole) := by
  induction holes generalizing hole size with
  | nil =>
    rw [deallocate, if_neg (not_lt.2 hblock.1),
      wrappingAdd_eq (a := holeAddr hole) (by omega), if_neg (not_lt.2 hbehind)]
    by_cases heq : holeAddr hole + hole.size = addr
    · rw [if_pos heq, wrappingAdd_eq (by omega)]
      refine ⟨_, _, rfl, ?_, by simp, rfl, by simp, fun hne => absurd heq hne⟩
      rw [extent_grow haddr heq]
      exact Joined.grow hsep heq (by simp)
    · rw [if_neg heq]
      refine ⟨_, _, rfl, ?_, by simpa using hblock, rfl, le_rfl, fun _ => rfl⟩
      exact Joined.place hsep (lt_of_le_of_ne hbehind heq) (by simp)
  | cons next rest ih =>
    obtain ⟨hfirst, hnextrest⟩ := separated_cons.1 hsep
    obtain ⟨hnext, hrest⟩ := separated_cons.1 hnextrest
    have hfirstNext : holeAddr hole + hole.size < next.addr := hfirst next (by simp)
    have hnextSized := hsized next (by simp)
    have hnextIn := hin next (by simp)
    have hnextApart := apart_iff.1 (hapart next (by simp))
    have hnextSize : 0 < next.size := lt_of_lt_of_le (by decide) hnextSized.1
    have hsize : 0 < size := lt_of_lt_of_le (by decide) hblock.1
    have hrestSized : ∀ n ∈ rest, Sized n := fun n hn => hsized n (by simp [hn])
    have hrestIn : ∀ n ∈ rest, n.addr + n.size ≤ bound := fun n hn => hin n (by simp [hn])
    -- A block before the next hole that does not touch it is before every later hole.
    have hbefore : addr < next.addr → addr + size ≠ next.addr →
        ∀ t ∈ next :: rest, addr + size < t.addr := by
      intro hlt hne t ht
      rcases List.mem_cons.1 ht with rfl | ht
      · simp only at hnextApart
        omega
      · have := hnext t ht
        simp only at hnextApart
        omega
    rw [deallocate, if_neg (not_lt.2 hblock.1),
      wrappingAdd_eq (a := holeAddr hole) (by omega), if_neg (not_lt.2 hbehind),
      wrappingAdd_eq (a := addr) (by omega)]
    by_cases heq : holeAddr hole + hole.size = addr
    · by_cases hmeet : addr + size = next.addr
      · rw [if_pos ⟨heq, hmeet⟩, wrappingAdd_eq (a := size) (by omega), wrappingAdd_eq (by omega)]
        refine ⟨_, _, rfl, ?_, hrestSized, rfl, by simp, fun hne => absurd heq hne⟩
        rw [extent_grow haddr heq]
        exact Joined.fill hsep heq hmeet
      · rw [if_neg (fun h => hmeet h.2), if_pos heq, wrappingAdd_eq (by omega)]
        refine ⟨_, _, rfl, ?_, hsized, rfl, by simp, fun hne => absurd heq hne⟩
        rw [extent_grow haddr heq]
        exact Joined.grow hsep heq (hbefore (by omega) hmeet)
    · rw [if_neg (fun h => heq h.1), if_neg heq]
      by_cases hmeet : addr + size = next.addr
      · rw [if_pos hmeet, wrappingAdd_eq (a := size) (by omega)]
        have hmerged : Sized ⟨addr, size + next.size⟩ := ⟨Nat.le_add_right_of_le hblock.1, hblock.2⟩
        have hsepRest : Separated (extent hole :: rest) :=
          separated_cons.2 ⟨fun t ht => hfirst t (by simp [ht]), hrest⟩
        have hapartRest : ∀ n ∈ rest, n.Apart ⟨addr, size + next.size⟩ := by
          intro n hn
          have := hnext n hn
          rw [apart_iff]
          simp only
          omega
        obtain ⟨hole', holes', hfree, hjoined, hfacts⟩ :=
          ih hmerged (by omega) hbehind hsepRest hrestSized hrestIn hapartRest
        exact ⟨hole', holes', hfree, hjoined.absorb hmeet, hfacts⟩
      · rw [if_neg hmeet]
        have hlt : holeAddr hole + hole.size < addr := lt_of_le_of_ne hbehind heq
        by_cases hle : next.addr ≤ addr
        · rw [if_pos hle]
          have hextent := extent_of_sized hnextSized
          have hbehindNext : (extent next).addr + (extent next).size ≤ addr := by
            rw [hextent]
            simp only at hnextApart
            omega
          obtain ⟨next', rest', hfree, hjoined, hrest', haddr', hsize', -⟩ := ih hblock hstop
            hbehindNext (by rwa [hextent]) hrestSized hrestIn
            (fun n hn => hapart n (by simp [hn]))
          have hnext' : Sized next' := ⟨hnextSized.1.trans hsize', haddr' ▸ hnextSized.2⟩
          rw [hfree]
          rw [hextent, extent_of_sized hnext'] at hjoined
          refine ⟨_, _, rfl, hjoined.skip hfirst hlt, ?_, rfl, le_rfl, fun _ => rfl⟩
          exact List.forall_mem_cons.2 ⟨hnext', hrest'⟩
        · rw [if_neg hle]
          refine ⟨_, _, rfl, ?_, List.forall_mem_cons.2 ⟨hblock, hsized⟩, rfl, le_rfl, fun _ => rfl⟩
          exact Joined.place hsep hlt (hbefore (by omega) hmeet)

end Rhubarb
