import Rhubarb.Heap.UserDomain
import Rhubarb.Kernel.HeapFaults

/-!
The buffers a driver hands to its device (`initialize_queue` of `virtio/src/virtio.rs`).

The device reads and writes physical memory.  The driver boxes the storage of the queue and one
buffer for each descriptor, asks the kernel for the physical address of the first byte of each area,
and gives that address to the device, which takes the bytes behind it for the rest of the area.  Only
within a page they are: which frame holds the next page of the heap depends on what was free when the
process touched it.

* `translate_eq`: the system call in terms of the frame of the page.
* `contiguous_iff`: an area is contiguous exactly if its pages lie in consecutive frames.
* `handOver_iff`: what is handed over, from where the allocator puts the boxes.
* `handOver_contiguous_iff`: all areas of a queue.
* `handOver_scattered`: the control queue of the GPU driver, in a process that is just started.
-/

namespace Rhubarb

open Foundations Level4PageTable

/-! ### The system call -/

/-- The panics of `initialize_queue`, and those of the kernel under it. -/
inductive QueuePanic where
  | kernel (p : Panic)
  | heap (p : Panic)
  | allocError
  | unreachable
  | unwrapPermissionDenied
  | unwrapAddressNotMapped
  | queueSize
  deriving DecidableEq, Repr

/-- `AddressSpace::translate_address`. -/
def AddressSpace.translateAddress (mem : PhysMem) (root : Frame) (addr : Address) :
    Except Panic (Option Address) := do
  match ← (translateAddr mem root addr).run with
  | .ok res => (res.frame.baseAddr.add res.offset).map some
  | .error _ => .ok none

/-- The answer of the kernel to the system call, in `rax`. -/
def translateAnswerOf : Option Address → BitVec 64
  | some addr => BitVec.ofNat 64 addr.toRaw
  | none => -2

/-- `process::translate_address` with the `unwrap` of its caller: the answer as an `isize`. -/
def unwrapAnswer (num : BitVec 64) : Except QueuePanic ℕ :=
  if num.toInt < 0 then
    if num.toInt = -1 then .error .unwrapPermissionDenied
    else if num.toInt = -2 then .error .unwrapAddressNotMapped
    else .error .unreachable
  else .ok num.toNat

/-- The physical address of a byte of the process, as the driver gets it. -/
def translate (mem : PhysMem) (root : Frame) (addr : ℕ) : Except QueuePanic ℕ :=
  match AddressSpace.translateAddress mem root (Address.new addr) with
  | .ok answer => unwrapAnswer (translateAnswerOf answer)
  | .error p => .error (.kernel p)

/-! ### The areas -/

/-- A size rounded up to an alignment, as `repr(C)` does it. -/
def padTo (align size : ℕ) : ℕ := (size + align - 1) / align * align

/-- `QUEUE_SIZE` and `BUFFER_SIZE`: the types have a layout. -/
structure QueueType where
  size : ℕ
  bufferSize : ℕ
  storage_le : padTo 16 (padTo 4 (16 * size + (6 + 2 * size)) + padTo 4 (6 + 8 * size)) + 2 ^ 4
    ≤ isizeRange
  buffer_le : bufferSize + 2 ^ 0 ≤ isizeRange

namespace QueueType

variable (q : QueueType)

/-- `size_of::<VirtqueueDescTable<SIZE>>()`. -/
def descriptorAreaSize : ℕ := 16 * q.size

/-- `size_of::<VirtqueueAvailableRing<SIZE>>()`. -/
def driverAreaSize : ℕ := 6 + 2 * q.size

/-- `size_of::<VirtqueueUsedRing<SIZE>>()`. -/
def deviceAreaSize : ℕ := padTo 4 (6 + 8 * q.size)

/-- Where the `device_area` of a `VirtqueueStorage` starts. -/
def deviceAreaOffset : ℕ := padTo 4 (q.descriptorAreaSize + q.driverAreaSize)

/-- The layout of a `VirtqueueStorage`. -/
def storageLayout : Layout :=
  ⟨padTo 16 (q.deviceAreaOffset + q.deviceAreaSize), 4, q.storage_le⟩

/-- The layout of a buffer. -/
def bufferLayout : Layout := ⟨q.bufferSize, 0, q.buffer_le⟩

def descriptorArea (storage : ℕ) : Span := ⟨storage, q.descriptorAreaSize⟩

def driverArea (storage : ℕ) : Span := ⟨storage + q.descriptorAreaSize, q.driverAreaSize⟩

def deviceArea (storage : ℕ) : Span := ⟨storage + q.deviceAreaOffset, q.deviceAreaSize⟩

end QueueType

/-- An area with the physical address the device gets for it. -/
structure HandedArea where
  span : Span
  pa : ℕ
  deriving DecidableEq, Repr

/-! ### `initialize_queue` -/

/-- `Box::new`: a value without bytes is not allocated. -/
def boxNew (layout : Layout) (heap : Heap) : Except QueuePanic (ℕ × Heap) :=
  if layout.size = 0 then .ok (layout.align, heap)
  else
    match Heap.allocateFirstFit layout heap with
    | .ok (.ok ptr, heap') => .ok (ptr, heap')
    | .ok (.error (), _) => .error .allocError
    | .error p => .error (.heap p)

/-- The address of the first byte of an area is translated. -/
def handArea (mem : PhysMem) (root : Frame) (span : Span) : Except QueuePanic HandedArea := do
  let pa ← translate mem root span.addr
  .ok ⟨span, pa⟩

namespace QueueType

variable (q : QueueType)

/-- The loop over the descriptors that are left. -/
def handBuffers (mem : PhysMem) (root : Frame) :
    ℕ → Heap → Except QueuePanic (List HandedArea × Heap)
  | 0, heap => .ok ([], heap)
  | n + 1, heap => do
    let (buffer, heap) ← boxNew q.bufferLayout heap
    let area ← handArea mem root ⟨buffer, q.bufferSize⟩
    let (areas, heap) ← handBuffers mem root n heap
    .ok (area :: areas, heap)

/-- `initialize_queue` until the queue is enabled: the areas the device has been given.  The pages of
the boxes are mapped when their values are moved in, and they stay mapped. -/
def handOver (mem : PhysMem) (root : Frame) (heap : Heap) :
    Except QueuePanic (List HandedArea × Heap) := do
  let (storage, heap) ← boxNew q.storageLayout heap
  let (buffers, heap) ← q.handBuffers mem root q.size heap
  let descriptors ← handArea mem root (q.descriptorArea storage)
  let driver ← handArea mem root (q.driverArea storage)
  let device ← handArea mem root (q.deviceArea storage)
  .ok (buffers ++ [descriptors, driver, device], heap)

/-- `initialize_queue`, for a device with a queue of `queueSize` descriptors. -/
def initializeQueue (mem : PhysMem) (root : Frame) (queueSize : ℕ) (heap : Heap) :
    Except QueuePanic (List HandedArea × Heap) := do
  let handed ← q.handOver mem root heap
  if queueSize = q.size then .ok handed else .error .queueSize

/-- Where the allocator puts the buffers. -/
def placeBuffers : ℕ → Heap → Except QueuePanic (List Span × Heap)
  | 0, heap => .ok ([], heap)
  | n + 1, heap => do
    let (buffer, heap) ← boxNew q.bufferLayout heap
    let (spans, heap) ← placeBuffers n heap
    .ok (⟨buffer, q.bufferSize⟩ :: spans, heap)

/-- Where the allocator puts the areas of a queue, in a given state of the heap. -/
def place (heap : Heap) : Except QueuePanic (List Span × Heap) := do
  let (storage, heap) ← boxNew q.storageLayout heap
  let (buffers, heap) ← q.placeBuffers q.size heap
  .ok (buffers ++ [q.descriptorArea storage, q.driverArea storage, q.deviceArea storage], heap)

end QueueType

/-- The frame of the page of a byte. -/
def frameAt (mem : PhysMem) (root : Frame) (addr : ℕ) : Option Frame :=
  match (translatePage mem root (Address.new addr).page).run with
  | .ok (.ok frame) => some frame
  | _ => none

/-- **Physically contiguous**: each byte of the area is where the device looks for it. -/
def HandedArea.Contiguous (mem : PhysMem) (root : Frame) (a : HandedArea) : Prop :=
  ∀ i < a.span.size, translate mem root (a.span.addr + i) = .ok (a.pa + i)

/-- The pages of an area lie in consecutive frames: at each page boundary in it, the next frame
follows. -/
def Consecutive (mem : PhysMem) (root : Frame) (span : Span) : Prop :=
  ∀ b, pageSize ∣ b → span.addr < b → b < span.addr + span.size →
    ∃ f, frameAt mem root (b - 1) = some f ∧ frameAt mem root b = some ⟨f.number + 1⟩

/-! ### What the system call answers -/

section Translation

variable {mem : PhysMem} {root : Frame} {addr : ℕ} {f : Frame}

lemma Address.new_eq_mk (h : addr < 2 ^ 47) : Address.new addr = ⟨addr⟩ :=
  Address.ext (Address.new_of_lt h)

/-- The page of a sign-extended address is canonical. -/
lemma Address.new_page_canonical (addr : ℕ) : (Address.new addr).page.Canonical := by
  show (Address.new addr).toRaw / 4096 < 2 ^ 35 ∨ 2 ^ 52 - 2 ^ 35 ≤ (Address.new addr).toRaw / 4096
    ∧ (Address.new addr).toRaw / 4096 < 2 ^ 52
  rw [Address.new_toRaw]
  split_ifs <;> omega

/-- The sign extension keeps the offset in the page. -/
lemma Address.new_pageOffset (addr : ℕ) : (Address.new addr).pageOffset = addr % 4096 := by
  rw [Address.pageOffset, Address.new_toRaw]
  split_ifs <;> omega

/-- The bytes of a page have the same page also after the sign extension. -/
lemma Address.new_page_succ (h : (addr + 1) % 4096 ≠ 0) :
    (Address.new (addr + 1)).page = (Address.new addr).page := by
  have hraw : (Address.new (addr + 1)).toRaw / 4096 = (Address.new addr).toRaw / 4096 := by
    rw [Address.new_toRaw, Address.new_toRaw]
    split_ifs <;> omega
  exact congrArg Page.mk hraw

/-- A translation gives a physical frame. -/
lemma usedFrame_physical {e : PageTableEntry} (h : (usedFrame e).run = .ok (.ok f)) :
    f.Physical := by
  rw [usedFrame, Frame.fromBaseAddr] at h
  by_cases halign : e.addr.isPageAligned = true
  · rw [if_pos halign] at h
    cases hc : Frame.containingAddr e.addr with
    | error p =>
      rw [hc] at h
      cases h
    | ok g =>
      rw [hc] at h
      cases h
      obtain ⟨hlt, rfl⟩ := Frame.containingAddr_eq_ok hc
      show _ / 4096 < 2 ^ 35
      omega
  · rw [if_neg halign] at h
    cases h

/-- `translate_addr` finds the frame of the page, and adds the offset and the flags. -/
lemma translateAddr_run (addr : ℕ) :
    (∃ e, (translatePage mem root (Address.new addr).page).run = (usedFrame e).run
        ∧ (translateAddr mem root (Address.new addr)).run
          = (usedTranslation (Address.new addr) e).run)
      ∨ (∀ f, (translatePage mem root (Address.new addr).page).run ≠ .ok (.ok f))
        ∧ ∀ res, (translateAddr mem root (Address.new addr)).run ≠ .ok (.ok res) := by
  obtain ⟨hupper, hleaf⟩ := addr_indices (Address.new_page_canonical addr)
  rw [translatePage_eq, translateAddr_eq, hupper, hleaf]
  generalize walk mem root _ _ = answer
  match answer with
  | .error p => exact .inr ⟨fun _ h => (by cases h), fun _ h => (by cases h)⟩
  | .ok (.error x) => exact .inr ⟨fun _ h => (by cases h), fun _ h => (by cases h)⟩
  | .ok (.ok e) => exact .inl ⟨e, rfl, rfl⟩

/-- A physical address is not taken for an error. -/
lemma unwrapAnswer_of_lt {n : ℕ} (h : n < 2 ^ 63) : unwrapAnswer (BitVec.ofNat 64 n) = .ok n := by
  have hword : (BitVec.ofNat 64 n).toNat = n := by
    rw [BitVec.toNat_ofNat, Nat.mod_eq_of_lt (by omega)]
  have hint : (BitVec.ofNat 64 n).toInt = n := by
    rw [BitVec.toInt_eq_toNat_of_lt (by omega), hword]
  rw [unwrapAnswer, if_neg (by omega), hword]

/-- **The answer for a mapped page** is the place of the byte in its frame. -/
lemma translate_of_page
    (h : (translatePage mem root (Address.new addr).page).run = .ok (.ok f)) :
    translate mem root addr = .ok (f.number * 4096 + addr % 4096) := by
  obtain ⟨e, hpage, haddr⟩ | ⟨hnone, -⟩ := @translateAddr_run mem root addr
  · rw [h] at hpage
    have hphys : f.number < 2 ^ 35 := usedFrame_physical hpage.symm
    have hres : (translateAddr mem root (Address.new addr)).run
        = .ok (.ok ⟨f, addr % 4096, e.flags⟩) := by
      rw [haddr, usedTranslation, ExceptT.run_bind, ← hpage, ← Address.new_pageOffset]
      rfl
    have hbase : f.baseAddr.toRaw = f.number * 4096 := Frame.baseAddr_toRaw hphys
    have hlt : f.number * 4096 + addr % 4096 < 2 ^ 47 := by omega
    have hsum : f.baseAddr.add (addr % 4096) = .ok ⟨f.number * 4096 + addr % 4096⟩ := by
      rw [Address.add, hbase, if_pos (hlt.trans (by decide))]
      rw [Address.new_eq_mk hlt]
    have hanswer : AddressSpace.translateAddress mem root (Address.new addr)
        = .ok (some ⟨f.number * 4096 + addr % 4096⟩) := by
      rw [AddressSpace.translateAddress, bind_of_ok hres]
      simp only [hsum, Except.map]
    rw [translate, hanswer]
    exact unwrapAnswer_of_lt (hlt.trans (by decide))
  · exact absurd h (hnone f)

/-- Nothing else is an answer. -/
lemma page_of_translate {pa : ℕ} (h : translate mem root addr = .ok pa) :
    ∃ f, (translatePage mem root (Address.new addr).page).run = .ok (.ok f) := by
  rw [translate, AddressSpace.translateAddress] at h
  rcases hres : (translateAddr mem root (Address.new addr)).run with p | x | res
  · rw [hres] at h
    cases h
  · rw [hres] at h
    cases h
  · obtain ⟨e, hpage, haddr⟩ | ⟨-, hnone⟩ := @translateAddr_run mem root addr
    · rw [haddr, usedTranslation, ExceptT.run_bind] at hres
      rcases hf : (usedFrame e).run with p | x | f
      · rw [hf] at hres
        cases hres
      · rw [hf] at hres
        cases hres
      · exact ⟨f, hpage.trans hf⟩
    · exact absurd hres (hnone res)

lemma frameAt_eq_some :
    frameAt mem root addr = some f
      ↔ (translatePage mem root (Address.new addr).page).run = .ok (.ok f) := by
  rw [frameAt]
  split
  · rename_i g hg
    rw [hg]
    simp
  · rename_i hne
    exact ⟨fun h => (by cases h), fun h => absurd h (hne f)⟩

/-- **The system call**: the place of the byte in the frame of its page. -/
lemma translate_eq {pa : ℕ} :
    translate mem root addr = .ok pa
      ↔ ∃ f, frameAt mem root addr = some f ∧ pa = f.number * 4096 + addr % 4096 := by
  constructor
  · intro h
    obtain ⟨f, hf⟩ := page_of_translate h
    exact ⟨f, frameAt_eq_some.mpr hf, Except.ok.inj (h.symm.trans (translate_of_page hf))⟩
  · rintro ⟨f, hf, rfl⟩
    exact translate_of_page (frameAt_eq_some.mp hf)

/-- A byte that does not start a page has the frame of the byte before. -/
lemma frameAt_succ (h : (addr + 1) % 4096 ≠ 0) :
    frameAt mem root (addr + 1) = frameAt mem root addr := by
  rw [frameAt, frameAt, Address.new_page_succ h]

/-- **An area is contiguous exactly if its pages lie in consecutive frames.** -/
lemma contiguous_iff {a : HandedArea} (h : translate mem root a.span.addr = .ok a.pa) :
    a.Contiguous mem root ↔ Consecutive mem root a.span := by
  constructor
  · rintro hcont b ⟨n, rfl⟩ hlow hhigh
    -- the last byte of a page and the first of the next
    obtain ⟨i, hi⟩ : ∃ i, pageSize * n = a.span.addr + i + 1 := ⟨pageSize * n - a.span.addr - 1,
      by omega⟩
    obtain ⟨f, hf, hpa⟩ := translate_eq.mp (hcont i (by omega))
    obtain ⟨g, hg, hpa'⟩ := translate_eq.mp (hcont (i + 1) (by omega))
    have hsize : pageSize * n = 4096 * n := rfl
    have hnext : g.number = f.number + 1 := by omega
    refine ⟨f, ?_, ?_⟩
    · rw [hi]
      exact hf
    · rw [hi, ← hnext]
      exact hg
  · intro hcons i
    induction i with
    | zero => exact fun _ => h
    | succ i ih =>
      intro hi
      obtain ⟨f, hf, hpa⟩ := translate_eq.mp (ih (by omega))
      by_cases hb : (a.span.addr + i + 1) % 4096 = 0
      · obtain ⟨g, hg, hnext⟩ := hcons (a.span.addr + i + 1) (Nat.dvd_of_mod_eq_zero hb)
          (by omega) (by omega)
        obtain rfl : f = g := Option.some.inj (hf.symm.trans hg)
        exact translate_eq.mpr ⟨_, hnext, by simp only; omega⟩
      · exact translate_eq.mpr ⟨f, (frameAt_succ hb).trans hf, by omega⟩

end Translation

/-! ### What is handed over -/

section HandOver

variable {mem : PhysMem} {root : Frame} {q : QueueType}

lemma handArea_ok {span : Span} {a : HandedArea} :
    handArea mem root span = .ok a ↔ a.span = span ∧ translate mem root span.addr = .ok a.pa := by
  constructor
  · intro h
    obtain ⟨pa, hpa, h⟩ := ok_of_bind h
    cases h
    exact ⟨rfl, hpa⟩
  · rintro ⟨rfl, hpa⟩
    exact bind_of_ok hpa _

/-- The first byte of each area is where the device was told. -/
def Told (mem : PhysMem) (root : Frame) (areas : List HandedArea) : Prop :=
  ∀ a ∈ areas, translate mem root a.span.addr = .ok a.pa

/-- The loop over the descriptors places the buffers and translates their addresses. -/
lemma handBuffers_iff {n : ℕ} {heap heap' : Heap} {areas : List HandedArea} :
    q.handBuffers mem root n heap = .ok (areas, heap')
      ↔ q.placeBuffers n heap = .ok (areas.map (·.span), heap') ∧ Told mem root areas := by
  induction n generalizing heap areas with
  | zero =>
    rw [QueueType.handBuffers, QueueType.placeBuffers]
    constructor
    · intro h
      cases h
      exact ⟨rfl, nofun⟩
    · rintro ⟨h, -⟩
      obtain ⟨hnil, rfl⟩ := Prod.mk.inj (Except.ok.inj h)
      rw [List.map_eq_nil_iff.mp hnil.symm]
  | succ n ih =>
    rw [QueueType.handBuffers, QueueType.placeBuffers]
    constructor
    · intro h
      obtain ⟨⟨buffer, heap₁⟩, hbox, h⟩ := ok_of_bind h
      obtain ⟨a, harea, h⟩ := ok_of_bind h
      obtain ⟨⟨rest, heap₂⟩, hrest, h⟩ := ok_of_bind h
      cases h
      obtain ⟨hspan, hpa⟩ := handArea_ok.mp harea
      obtain ⟨hplace, htold⟩ := ih.mp hrest
      refine ⟨?_, List.forall_mem_cons.mpr ⟨hspan ▸ hpa, htold⟩⟩
      refine (bind_of_ok hbox _).trans ((bind_of_ok hplace _).trans ?_)
      rw [List.map_cons, hspan]
    · rintro ⟨h, htold⟩
      obtain ⟨⟨buffer, heap₁⟩, hbox, h⟩ := ok_of_bind h
      obtain ⟨⟨spans, heap₂⟩, hrest, h⟩ := ok_of_bind h
      obtain ⟨hspans, rfl⟩ := Prod.mk.inj (Except.ok.inj h)
      obtain ⟨a, rest, rfl, hspan, rfl⟩ := List.map_eq_cons_iff.mp hspans.symm
      obtain ⟨hpa, htold⟩ := List.forall_mem_cons.mp htold
      have harea : handArea mem root ⟨buffer, q.bufferSize⟩ = .ok a :=
        handArea_ok.mpr ⟨hspan, hspan ▸ hpa⟩
      exact (bind_of_ok hbox _).trans ((bind_of_ok harea _).trans
        (bind_of_ok (ih.mpr ⟨hrest, htold⟩) _))

/-- **What is handed over**: the areas where the allocator puts them, each with the translated address
of its first byte. -/
lemma handOver_iff {heap heap' : Heap} {areas : List HandedArea} :
    q.handOver mem root heap = .ok (areas, heap')
      ↔ q.place heap = .ok (areas.map (·.span), heap') ∧ Told mem root areas := by
  rw [QueueType.handOver, QueueType.place]
  constructor
  · intro h
    obtain ⟨⟨storage, heap₁⟩, hbox, h⟩ := ok_of_bind h
    obtain ⟨⟨buffers, heap₂⟩, hbuffers, h⟩ := ok_of_bind h
    obtain ⟨descriptors, hdesc, h⟩ := ok_of_bind h
    obtain ⟨driver, hdriver, h⟩ := ok_of_bind h
    obtain ⟨device, hdevice, h⟩ := ok_of_bind h
    cases h
    obtain ⟨hplace, htold⟩ := handBuffers_iff.mp hbuffers
    obtain ⟨hspan₁, hpa₁⟩ := handArea_ok.mp hdesc
    obtain ⟨hspan₂, hpa₂⟩ := handArea_ok.mp hdriver
    obtain ⟨hspan₃, hpa₃⟩ := handArea_ok.mp hdevice
    constructor
    · refine (bind_of_ok hbox _).trans ((bind_of_ok hplace _).trans ?_)
      simp only [List.map_append, List.map_cons, List.map_nil, hspan₁, hspan₂, hspan₃]
    · rw [Told, List.forall_mem_append]
      refine ⟨htold, ?_⟩
      simp only [List.forall_mem_cons, List.not_mem_nil, false_implies, implies_true, and_true]
      exact ⟨hspan₁ ▸ hpa₁, hspan₂ ▸ hpa₂, hspan₃ ▸ hpa₃⟩
  · rintro ⟨h, htold⟩
    obtain ⟨⟨storage, heap₁⟩, hbox, h⟩ := ok_of_bind h
    obtain ⟨⟨spans, heap₂⟩, hbuffers, h⟩ := ok_of_bind h
    obtain ⟨hspans, rfl⟩ := Prod.mk.inj (Except.ok.inj h)
    obtain ⟨buffers, rest, rfl, rfl, hrest⟩ := List.map_eq_append_iff.mp hspans.symm
    obtain ⟨descriptors, rest, rfl, hspan₁, hrest⟩ := List.map_eq_cons_iff.mp hrest
    obtain ⟨driver, rest, rfl, hspan₂, hrest⟩ := List.map_eq_cons_iff.mp hrest
    obtain ⟨device, rest, rfl, hspan₃, hrest⟩ := List.map_eq_cons_iff.mp hrest
    obtain rfl := List.map_eq_nil_iff.mp hrest
    obtain ⟨htold, hthree⟩ := List.forall_mem_append.mp htold
    simp only [List.forall_mem_cons, List.not_mem_nil, false_implies, implies_true,
      and_true] at hthree
    obtain ⟨hpa₁, hpa₂, hpa₃⟩ := hthree
    have hdesc := handArea_ok.mpr ⟨hspan₁, hspan₁ ▸ hpa₁⟩
    have hdriver := handArea_ok.mpr ⟨hspan₂, hspan₂ ▸ hpa₂⟩
    have hdevice := handArea_ok.mpr ⟨hspan₃, hspan₃ ▸ hpa₃⟩
    exact (bind_of_ok hbox _).trans ((bind_of_ok (handBuffers_iff.mpr ⟨hbuffers, htold⟩) _).trans
      ((bind_of_ok hdesc _).trans ((bind_of_ok hdriver _).trans (bind_of_ok hdevice _))))

/-- Areas whose first bytes are mapped can be handed over. -/
lemma exists_told {spans : List Span}
    (h : ∀ s ∈ spans, (frameAt mem root s.addr).isSome = true) :
    ∃ areas : List HandedArea, areas.map (·.span) = spans ∧ Told mem root areas := by
  induction spans with
  | nil => exact ⟨[], rfl, nofun⟩
  | cons s spans ih =>
    obtain ⟨hs, hspans⟩ := List.forall_mem_cons.mp h
    obtain ⟨areas, hmap, htold⟩ := ih hspans
    obtain ⟨f, hf⟩ := Option.isSome_iff_exists.mp hs
    refine ⟨⟨s, f.number * 4096 + s.addr % 4096⟩ :: areas, by rw [List.map_cons, hmap], ?_⟩
    exact List.forall_mem_cons.mpr ⟨translate_eq.mpr ⟨f, hf, rfl⟩, htold⟩

/-- **The areas of a queue**: for every mapping of the pages of the process and every state of its
heap, the areas that are handed to the device are contiguous exactly if the pages of each of the areas
the allocator finds in the heap lie in consecutive frames. -/
theorem handOver_contiguous_iff (q : QueueType) (mem : PhysMem) (root : Frame) (heap : Heap) :
    (∀ areas heap', q.handOver mem root heap = .ok (areas, heap') →
        ∀ a ∈ areas, a.Contiguous mem root)
      ↔ ∀ spans heap', q.place heap = .ok (spans, heap') →
        (∀ s ∈ spans, (frameAt mem root s.addr).isSome = true) →
          ∀ s ∈ spans, Consecutive mem root s := by
  constructor
  · intro h spans heap' hplace hmapped s hs
    obtain ⟨areas, rfl, htold⟩ := exists_told hmapped
    obtain ⟨a, ha, rfl⟩ := List.mem_map.mp hs
    exact (contiguous_iff (htold a ha)).mp (h areas heap' (handOver_iff.mpr ⟨hplace, htold⟩) a ha)
  · intro h areas heap' hhand a ha
    obtain ⟨hplace, htold⟩ := handOver_iff.mp hhand
    refine (contiguous_iff (htold a ha)).mpr
      (h _ _ hplace (fun s hs => ?_) a.span (List.mem_map_of_mem ha))
    obtain ⟨b, hb, rfl⟩ := List.mem_map.mp hs
    obtain ⟨f, hf, -⟩ := translate_eq.mp (htold b hb)
    rw [hf]
    rfl

end HandOver

/-! ### A buffer that is scattered -/

/-- The control queue of the GPU driver: 64 descriptors, and buffers for the largest message. -/
def gpuControlQueue : QueueType := ⟨64, 408, by decide, by decide⟩

/-- A new process touches the first pages of its heap one after another. -/
def heapFilled (n : ℕ) : List KernelEvent :=
  .startProcess "gpu" .normal [] :: (List.range n).map fun j =>
    .pageFault 0 (heapBaseAddr + j * pageSize) KernelState.allAlive

/-- **The sixth buffer of the control queue** ends in the second page of the heap.  The frames behind
that of the first page hold the page tables that were needed to map it: there the device looks for the
end of the buffer. -/
theorem handOver_scattered :
    ∃ s root areas heap',
      run KernelState.step KernelState.roomyKernel (heapFilled 7) = .ok s
      ∧ s.kernel.memory.rootOf (.process 0) = some root
      ∧ (Heap.empty 0).init heapBaseAddr Heap.heapDefaultSize = some Heap.userHeap
      ∧ gpuControlQueue.handOver s.kernel.memory.mem root Heap.userHeap = .ok (areas, heap')
      ∧ ∃ a ∈ areas, ¬a.Contiguous s.kernel.memory.mem root := by
  obtain ⟨s, hs, root, hroot, ⟨areas, heap'⟩, hhand, a, ha, hlt, hbad⟩ :
      ∃ s, run KernelState.step KernelState.roomyKernel (heapFilled 7) = .ok s
        ∧ ∃ root, s.kernel.memory.rootOf (.process 0) = some root
          ∧ ∃ y, gpuControlQueue.handOver s.kernel.memory.mem root Heap.userHeap = .ok y
            ∧ ∃ a ∈ y.1, 376 < a.span.size
              ∧ (translate s.kernel.memory.mem root (a.span.addr + 376)).toOption
                ≠ some (a.pa + 376) := by
    decide +kernel
  refine ⟨s, root, areas, heap', hs, hroot, Heap.userHeap_init, hhand, a, ha, fun hcont => ?_⟩
  exact hbad (toOption_eq_some.mpr (hcont 376 hlt))

end Rhubarb
