import Mathlib.Tactic

/-!
`memory-types`: virtual addresses, pages, physical frames and page ranges
(`virtual_memory.rs`, `physical_memory.rs` and the `PageRange` of `paging.rs`).

An address is a 64-bit number; `Address.new` sign-extends its low 48 bits, exactly as the
source does with two shifts, and `new_toRaw` is the arithmetic reading of those shifts on
which everything else rests.  The four table indices are elements of `Fin 512`, so that an
index out of a table cannot be written down.

* `Page.index_injective`: two canonical page numbers with the same four indices are equal,
  the separation fact behind every statement about "all other pages".
* `Frame.containingAddr` carries the assertion of the source: it panics on an address that is
  not physical.
-/

namespace Rhubarb

/-- The places where the modelled code does not go on: every `assert!`, `expect`, `unwrap` and
`panic!` of a modelled function is one constructor. -/
inductive Panic where
  /-- `Frame::containing_addr`: the address is not physical. -/
  | frameNotPhysical
  /-- `Page + usize`: `checked_add` overflows. -/
  | pageOverflow
  /-- `Address + usize`, `Address + Address`: `checked_add` overflows. -/
  | addressOverflow
  /-- `Address - usize`, `Address - Address`: `checked_sub` underflows. -/
  | addressUnderflow
  /-- `PageTableEntry::set_addr`: the address is not page-aligned or not physical. -/
  | entryAddr
  /-- `PageTableEntry::set_frame`: the flags contain `HUGE_PAGE`. -/
  | entryHuge
  /-- `Level4PageTable::next_table`: "entry should be mapped at this point". -/
  | entryNotMapped
  /-- `kernel_address_space`: "kernel address space should be initialized". -/
  | kernelSpaceMissing
  /-- `AddressSpace::new`: the kernel address space is not the current one. -/
  | kernelSpaceNotCurrent
  /-- `AddressSpace::new`: "failed to allocate frame for new address space". -/
  | newSpaceFrame
  /-- `AddressSpace::map_pages`, `map_pages_untracked`: `allocate_frame().unwrap()`. -/
  | mapPagesFrame
  /-- `AddressSpace::map_kernel_pages_to`: the two ranges differ in length. -/
  | pageCounts
  /-- `AddressSpace::map_kernel_pages_to`: "should be a mapped kernel page". -/
  | kernelPageNotMapped
  /-- `AddressSpace::map_kernel_pages_to` on the kernel's own address space: its page table is
  locked when it is locked again, so the call never returns. -/
  | pageTableLocked
  /-- `KernelMapping::new`: `assert_eq!(pages.len(), ..)`. -/
  | mappingLen
  /-- `KernelMapping::new`: `map_pages(..).unwrap()`. -/
  | newMapping
  /-- `KernelMapping::extend`: "mapping should be mapped and tracked in this address space". -/
  | untrackedMapping
  /-- `Page - usize`: `checked_sub` underflows. -/
  | pageUnderflow
  /-- `KernelMapping::as_slice_mut`: "Requested offset and length would overflow kernel
  mapping". -/
  | sliceBounds
  /-- `Loader::load_object_sections`: `map_into(..).unwrap()`. -/
  | mapSections
  /-- `Scheduler::run_user_process`: `map_pages(..).unwrap()`. -/
  | mapStack
  /-- `__page_fault_handler`: "should have a running process during user page fault". -/
  | noRunningProcess
  /-- `__page_fault_handler`: `assert!(extension_pages.len() > 0)`. -/
  | heapExtension
  /-- `__page_fault_handler`: `FRAMEBUFFER_MAPPING.as_mut().unwrap()`. -/
  | noFramebuffer
  /-- `__page_fault_handler`: `section.owner.upgrade().unwrap()`. -/
  | ownerDropped
  /-- `Scheduler::set_current_context`: `assert!(prev_context.is_none())`. -/
  | contextNotTaken
  /-- `Scheduler::schedule_next`: "shell output should correspond to a blocked process". -/
  | noBlockedProcess
  /-- `Scheduler::schedule_next`: `assert_eq!(process_id, process.id)`. -/
  | processIdMismatch
  /-- `align_layout_for_hole`: `Layout::from_size_align(..).unwrap()`. -/
  | layoutForHole
  /-- `HoleList::allocate_first_fit`: `NonNull::new(..).unwrap()`. -/
  | nullBlock
  /-- `llff::deallocate`: `size >= MIN_ALLOC_SIZE`. -/
  | freedSize
  /-- `llff::deallocate`: "invalid deallocation (probably a double free)". -/
  | invalidDeallocation
  /-- `init_kernel_address_space`: `Frame::from_base_addr(..).unwrap()`. -/
  | kernelFrameAddr
  /-- `initial_frame_allocation_test`: "Failed to allocate test frame". -/
  | testFrameAllocate
  /-- `initial_frame_allocation_test`: "Failed to deallocate test frame". -/
  | testFrameDeallocate
  /-- `memory::init`: "Not enough physical memory". -/
  | notEnoughMemory
  /-- `memory::init`: `frame_allocator.allocate_frame().unwrap()`. -/
  | heapFrame
  /-- `memory::init`: `page_table.map_to(..).unwrap()`. -/
  | heapMapping
  /-- `memory::init`: "should be able to translate HEAP_BASE after mapping it". -/
  | heapTranslation
  deriving DecidableEq, Repr

/-- `KIBIBYTE`. -/
def kibibyte : ℕ := 1024

/-- `MEBIBYTE`. -/
def mebibyte : ℕ := 1024 * 1024

/-- `GIBIBYTE`. -/
def gibibyte : ℕ := 1024 * 1024 * 1024

/-- `PAGE_SIZE`. -/
def pageSize : ℕ := 4096

/-- `usize::MAX + 1`: the release build of the source wraps at this number. -/
def usizeRange : ℕ := 2 ^ 64

/-- `usize` addition of the release build. -/
def wrappingAdd (a b : ℕ) : ℕ := (a + b) % usizeRange

/-- `usize` subtraction of the release build. -/
def wrappingSub (a b : ℕ) : ℕ := if b ≤ a then a - b else a + usizeRange - b

/-- `align_up`. -/
def alignUp (addr align : ℕ) : ℕ :=
  wrappingSub (wrappingAdd addr align) 1 &&& (usizeRange - 1 - (align - 1))

/-- `ENTRIES_PER_PAGE_TABLE`. -/
def entriesPerPageTable : ℕ := 512

/-- An index into a page table. -/
abbrev TableIndex : Type := Fin 512

instance TableIndex.neZero : NeZero 512 := ⟨by decide⟩

/-- An address in virtual memory. -/
@[ext]
structure Address where
  toRaw : ℕ
  deriving DecidableEq, Repr

/-- A virtual memory page. -/
structure Page where
  number : ℕ
  deriving DecidableEq, Repr

/-- A physical memory frame. -/
structure Frame where
  number : ℕ
  deriving DecidableEq, Repr

/-- The part of the address space an address lies in. -/
inductive AddressDomain where
  | physical
  | userStack
  | userCode
  | userHeap
  | kernelHeap
  | kernelMapping
  | invalid
  deriving DecidableEq, Repr

/-! ### Addresses -/

namespace Address

/-- Sign-extend the value by doing a right shift on it as an `isize`. -/
def new (addr : ℕ) : Address :=
  ⟨((BitVec.ofNat 64 addr <<< 16).sshiftRight 16).toNat⟩

/-- `Address::PHYSICAL_MAX`. -/
def physicalMax : Address := new (2 ^ 47 - 1)

/-- Addresses of the lower half are the identity-mapped physical ones. -/
def isPhysical (a : Address) : Bool := a.toRaw ≤ physicalMax.toRaw

def isPageAligned (a : Address) : Bool := a.toRaw &&& (pageSize - 1) = 0

def page (a : Address) : Page := ⟨a.toRaw / pageSize⟩

def pageOffset (a : Address) : ℕ := a.toRaw % 2 ^ 12

/-- The index of a table level, read off the address at its shift. -/
def indexAt (shift : ℕ) (a : Address) : TableIndex :=
  ⟨(a.toRaw >>> shift) % 512, Nat.mod_lt _ (by norm_num)⟩

def l1Index (a : Address) : TableIndex := indexAt 12 a

def l2Index (a : Address) : TableIndex := indexAt 21 a

def l3Index (a : Address) : TableIndex := indexAt 30 a

def l4Index (a : Address) : TableIndex := indexAt 39 a

def fromTableIndices (l4 l3 l2 l1 : TableIndex) : Address :=
  new (((l4 : ℕ) <<< 39) ||| ((l3 : ℕ) <<< 30) ||| ((l2 : ℕ) <<< 21) ||| ((l1 : ℕ) <<< 12))

def fromL4Index (l4 : TableIndex) : Address := new ((l4 : ℕ) <<< 39)

/-- `Address + usize`: a checked addition, then the sign extension of `Address::new`. -/
def add (a : Address) (n : ℕ) : Except Panic Address :=
  if a.toRaw + n < usizeRange then .ok (new (a.toRaw + n)) else .error .addressOverflow

/-- `Address - Address`. -/
def sub (a b : Address) : Except Panic Address :=
  if b.toRaw ≤ a.toRaw then .ok (new (a.toRaw - b.toRaw)) else .error .addressUnderflow

end Address

/-! ### The domains -/

/-- `MAX_PHYSICAL_L4_INDEX`. -/
def maxPhysicalL4Index : TableIndex := 255

/-- `USER_STACK_L4_INDEX`. -/
def userStackL4Index : TableIndex := 506

/-- `USER_CODE_L4_INDEX`. -/
def userCodeL4Index : TableIndex := 507

/-- `USER_HEAP_L4_INDEX`. -/
def userHeapL4Index : TableIndex := 508

/-- `KERNEL_HEAP_L4_INDEX`. -/
def kernelHeapL4Index : TableIndex := 509

/-- `KERNEL_MAPPING_L4_INDEX`. -/
def kernelMappingL4Index : TableIndex := 510

def Address.domain (a : Address) : AddressDomain :=
  if a.l4Index ≤ maxPhysicalL4Index then .physical
  else if a.l4Index = userStackL4Index then .userStack
  else if a.l4Index = userCodeL4Index then .userCode
  else if a.l4Index = userHeapL4Index then .userHeap
  else if a.l4Index = kernelHeapL4Index then .kernelHeap
  else if a.l4Index = kernelMappingL4Index then .kernelMapping
  else .invalid

def AddressDomain.baseAddr : AddressDomain → Address
  | .physical => .fromL4Index 0
  | .userStack => .fromL4Index userStackL4Index
  | .userCode => .fromL4Index userCodeL4Index
  | .userHeap => .fromL4Index userHeapL4Index
  | .kernelHeap => .fromL4Index kernelHeapL4Index
  | .kernelMapping => .fromL4Index kernelMappingL4Index
  | .invalid => .fromL4Index (maxPhysicalL4Index + 1)

/-! ### Frames -/

namespace Frame

/-- The frame of an address; the source asserts that the address is physical. -/
def containingAddr (a : Address) : Except Panic Frame :=
  if a.isPhysical then .ok ⟨a.toRaw / pageSize⟩ else .error .frameNotPhysical

/-- `None` for an address that is not page-aligned. -/
def fromBaseAddr (a : Address) : Except Panic (Option Frame) :=
  if a.isPageAligned then (containingAddr a).map some else .ok none

/-- The frame's first address, built by `Address::new_unchecked`. -/
def baseAddr (f : Frame) : Address := ⟨f.number * pageSize % usizeRange⟩

/-- A frame whose bytes are all below `2^47`. -/
def Physical (f : Frame) : Prop := f.number < 2 ^ 35

instance (f : Frame) : Decidable f.Physical := inferInstanceAs (Decidable (_ < _))

end Frame

/-! ### Pages -/

namespace Page

/-- The page's first address, built by `Address::new_unchecked`. -/
def baseAddr (p : Page) : Address := ⟨p.number * pageSize % usizeRange⟩

def l1Index (p : Page) : TableIndex := p.baseAddr.l1Index

def l2Index (p : Page) : TableIndex := p.baseAddr.l2Index

def l3Index (p : Page) : TableIndex := p.baseAddr.l3Index

def l4Index (p : Page) : TableIndex := p.baseAddr.l4Index

/-- `Page + usize`. -/
def add (p : Page) (n : ℕ) : Except Panic Page :=
  if p.number + n < usizeRange then .ok ⟨p.number + n⟩ else .error .pageOverflow

/-- `Page - usize`. -/
def sub (p : Page) (n : ℕ) : Except Panic Page :=
  if n ≤ p.number then .ok ⟨p.number - n⟩ else .error .pageUnderflow

/-- The pages of canonical addresses: those of the lower and of the upper half. -/
def Canonical (p : Page) : Prop :=
  p.number < 2 ^ 35 ∨ 2 ^ 52 - 2 ^ 35 ≤ p.number ∧ p.number < 2 ^ 52

instance (p : Page) : Decidable p.Canonical := inferInstanceAs (Decidable (_ ∨ _))

end Page

/-- An exclusive range of pages. -/
structure PageRange where
  start : Page
  stop : Page
  deriving DecidableEq, Repr

namespace PageRange

/-- The number of pages in the range, the subtraction wrapping as in the release build. -/
def len (r : PageRange) : ℕ := (r.stop.number + usizeRange - r.start.number) % usizeRange

/-- `PageRange::from_base_size`. -/
def fromBaseSize (base : Address) (size : ℕ) : Except Panic PageRange := do
  let start := base.page
  let stop ← start.add ((size + pageSize - 1) / pageSize)
  .ok ⟨start, stop⟩

/-- `PageRange::from_start_len`. -/
def fromStartLen (start : Page) (len : ℕ) : Except Panic PageRange := do
  let stop ← start.add len
  .ok ⟨start, stop⟩

/-- `PageRange::from_end_size`. -/
def fromEndSize (stop : Page) (size : ℕ) : Except Panic PageRange := do
  let start ← stop.sub ((size + pageSize - 1) / pageSize)
  .ok ⟨start, stop⟩

/-- `PageRange::from_base_len`. -/
def fromBaseLen (base : Address) (len : ℕ) : Except Panic PageRange := do
  let stop ← base.page.add len
  .ok ⟨base.page, stop⟩

/-- The pages the iterator of the range yields, in order. -/
def pages (r : PageRange) : List Page :=
  (List.range' r.start.number (r.stop.number - r.start.number)).map Page.mk

end PageRange

/-! ### Wrapping arithmetic that does not wrap, and rounding up -/

lemma wrappingAdd_eq {a b : ℕ} (h : a + b < usizeRange) : wrappingAdd a b = a + b :=
  Nat.mod_eq_of_lt h

lemma wrappingSub_eq {a b : ℕ} (h : b ≤ a) : wrappingSub a b = a - b := if_pos h

variable {k addr : ℕ} {a : Address} {f : Frame} {p : Page}

/-- Masking the low `k` bits of a word away is rounding down. -/
lemma and_not_low {x : ℕ} (hk : k < 64) (hx : x < usizeRange) :
    x &&& (usizeRange - 1 - (2 ^ k - 1)) = x / 2 ^ k * 2 ^ k := by
  have hmask : usizeRange - 1 - (2 ^ k - 1) = (2 ^ (64 - k) - 1) <<< k := by
    rw [Nat.shiftLeft_eq, Nat.sub_mul, ← pow_add, Nat.sub_add_cancel hk.le, usizeRange]
    have : 0 < 2 ^ k := by positivity
    omega
  rw [hmask, ← Nat.shiftLeft_eq, ← Nat.shiftRight_eq_div_pow]
  apply Nat.eq_of_testBit_eq
  intro i
  simp only [Nat.testBit_and, Nat.testBit_shiftLeft, Nat.testBit_two_pow_sub_one,
    Nat.testBit_shiftRight]
  by_cases hki : k ≤ i
  · by_cases hi : i < 64
    · simp [hki, show i - k < 64 - k by omega]
    · have hzero : x.testBit i = false :=
        Nat.testBit_lt_two_pow (hx.trans_le (Nat.pow_le_pow_right (by norm_num) (by omega)))
      simp [hki, hzero]
  · simp [hki]

/-- **Rounding up**: `align_up` to a power of two, as long as the sum does not wrap. -/
lemma alignUp_eq (hk : k < 64) (h : addr + 2 ^ k ≤ usizeRange) :
    alignUp addr (2 ^ k) = (addr + 2 ^ k - 1) / 2 ^ k * 2 ^ k := by
  have hpos : 0 < 2 ^ k := by positivity
  have hsum : wrappingSub (wrappingAdd addr (2 ^ k)) 1 = addr + 2 ^ k - 1 := by
    rcases h.lt_or_eq with hlt | heq
    · rw [wrappingAdd_eq hlt, wrappingSub_eq (by omega)]
    · rw [wrappingAdd, heq]
      rfl
  rw [alignUp, hsum, and_not_low hk (by omega)]

lemma dvd_alignUp (hk : k < 64) (h : addr + 2 ^ k ≤ usizeRange) :
    2 ^ k ∣ alignUp addr (2 ^ k) := by
  rw [alignUp_eq hk h]
  exact Nat.dvd_mul_left _ _

lemma le_alignUp (hk : k < 64) (h : addr + 2 ^ k ≤ usizeRange) :
    addr ≤ alignUp addr (2 ^ k) := by
  have hpos : 0 < 2 ^ k := by positivity
  have hlt := Nat.lt_div_mul_add (a := addr + 2 ^ k - 1) hpos
  rw [alignUp_eq hk h]
  omega

lemma alignUp_lt (hk : k < 64) (h : addr + 2 ^ k ≤ usizeRange) :
    alignUp addr (2 ^ k) < addr + 2 ^ k := by
  have hpos : 0 < 2 ^ k := by positivity
  have hle := Nat.div_mul_le_self (addr + 2 ^ k - 1) (2 ^ k)
  rw [alignUp_eq hk h]
  omega

lemma alignUp_of_dvd (hk : k < 64) (h : addr + 2 ^ k ≤ usizeRange) (hdvd : 2 ^ k ∣ addr) :
    alignUp addr (2 ^ k) = addr := by
  obtain ⟨m, hm⟩ := dvd_alignUp hk h
  obtain ⟨n, rfl⟩ := hdvd
  have h1 := le_alignUp hk h
  have h2 := alignUp_lt hk h
  rw [hm] at h1 h2 ⊢
  have hpos : 0 < 2 ^ k := by positivity
  have hle : n ≤ m := Nat.le_of_mul_le_mul_left h1 hpos
  have hlt : m < n + 1 := Nat.lt_of_mul_lt_mul_left (a := 2 ^ k) (by rwa [mul_add, mul_one])
  rw [show m = n by omega]

/-! ### The sign extension in arithmetic -/

namespace Address

/-- **The sign extension**: the low 48 bits, moved to the top of the address space when bit
47 is set. -/
lemma new_toRaw (n : ℕ) :
    (new n).toRaw = if n % 2 ^ 48 < 2 ^ 47 then n % 2 ^ 48 else n % 2 ^ 48 + (2 ^ 64 - 2 ^ 48) := by
  have hraw : (BitVec.ofNat 64 n <<< 16).toNat = n % 2 ^ 48 * 2 ^ 16 := by
    rw [BitVec.toNat_shiftLeft, BitVec.toNat_ofNat, Nat.shiftLeft_eq]
    omega
  simp only [new]
  rw [BitVec.toNat_sshiftRight, BitVec.msb_eq_decide, hraw, Nat.shiftRight_eq_div_pow,
    Nat.shiftRight_eq_div_pow]
  by_cases h : n % 2 ^ 48 < 2 ^ 47
  · rw [if_pos h, if_neg (by simp only [decide_eq_true_eq]; omega)]
    omega
  · rw [if_neg h, if_pos (by simp only [decide_eq_true_eq]; omega)]
    omega

/-- A physical address is its own sign extension. -/
lemma new_of_lt {n : ℕ} (h : n < 2 ^ 47) : (new n).toRaw = n := by
  rw [new_toRaw, Nat.mod_eq_of_lt (by omega), if_pos h]

lemma isPhysical_iff (a : Address) : a.isPhysical = true ↔ a.toRaw < 2 ^ 47 := by
  rw [isPhysical, physicalMax, new_of_lt (by norm_num), decide_eq_true_eq]
  omega

lemma isPageAligned_iff (a : Address) : a.isPageAligned = true ↔ a.toRaw % 4096 = 0 := by
  rw [isPageAligned, decide_eq_true_eq]
  have h : a.toRaw &&& (2 ^ 12 - 1) = a.toRaw % 2 ^ 12 := Nat.and_two_pow_sub_one_eq_mod _ 12
  rw [show pageSize - 1 = 2 ^ 12 - 1 from rfl, h]
  norm_num

lemma indexAt_val (shift : ℕ) (a : Address) :
    (indexAt shift a : ℕ) = a.toRaw / 2 ^ shift % 512 := by
  show (a.toRaw >>> shift) % 512 = _
  rw [Nat.shiftRight_eq_div_pow]

end Address

namespace Frame

lemma containingAddr_of_physical (h : a.toRaw < 2 ^ 47) :
    containingAddr a = .ok ⟨a.toRaw / 4096⟩ := by
  rw [containingAddr, if_pos ((Address.isPhysical_iff a).mpr h)]
  rfl

/-- What the assertion of `Frame::containing_addr` lets through. -/
lemma containingAddr_eq_ok (h : containingAddr a = .ok f) :
    a.toRaw < 2 ^ 47 ∧ f = ⟨a.toRaw / 4096⟩ := by
  by_cases hp : a.toRaw < 2 ^ 47
  · rw [containingAddr_of_physical hp] at h
    exact ⟨hp, (Except.ok.inj h).symm⟩
  · rw [containingAddr, if_neg (fun hc => hp ((Address.isPhysical_iff a).mp hc))] at h
    cases h

lemma baseAddr_toRaw (h : f.Physical) : f.baseAddr.toRaw = f.number * 4096 := by
  have h' : f.number < 2 ^ 35 := h
  show f.number * 4096 % 2 ^ 64 = _
  omega

/-- A frame is found again from its base address. -/
lemma fromBaseAddr_baseAddr (hf : f.Physical) :
    fromBaseAddr f.baseAddr = .ok (some f) := by
  have hbase := baseAddr_toRaw hf
  have hnum : f.number < 2 ^ 35 := hf
  rw [fromBaseAddr, if_pos ((Address.isPageAligned_iff _).mpr (by omega)),
    containingAddr_of_physical (by omega), hbase,
    show f.number * 4096 / 4096 = f.number from by omega]
  rfl

end Frame

namespace Page

lemma baseAddr_toRaw (h : p.number < 2 ^ 52) :
    p.baseAddr.toRaw = p.number * 4096 := by
  show p.number * 4096 % 2 ^ 64 = _
  omega

lemma Canonical.lt (h : p.Canonical) : p.number < 2 ^ 52 := by
  rcases h with h | h <;> omega

/-- An address has the indices of its page. -/
lemma indexAt_page (h : a.page.number < 2 ^ 52) {shift : ℕ} (h12 : 12 ≤ shift) :
    a.page.baseAddr.indexAt shift = a.indexAt shift := by
  apply Fin.ext
  rw [Address.indexAt_val, Address.indexAt_val, baseAddr_toRaw h]
  obtain ⟨k, rfl⟩ := Nat.exists_eq_add_of_le h12
  show a.toRaw / 4096 * 4096 / 2 ^ (12 + k) % 512 = a.toRaw / 2 ^ (12 + k) % 512
  rw [pow_add, ← Nat.div_div_eq_div_mul, ← Nat.div_div_eq_div_mul,
    show a.toRaw / 4096 * 4096 / 2 ^ 12 = a.toRaw / 2 ^ 12 from by omega]

/-- **The four indices determine a canonical page.** -/
theorem index_injective {q : Page} (hp : p.Canonical) (hq : q.Canonical)
    (h4 : p.l4Index = q.l4Index) (h3 : p.l3Index = q.l3Index) (h2 : p.l2Index = q.l2Index)
    (h1 : p.l1Index = q.l1Index) : p = q := by
  have e4 := congrArg Fin.val h4
  have e3 := congrArg Fin.val h3
  have e2 := congrArg Fin.val h2
  have e1 := congrArg Fin.val h1
  simp only [l4Index, l3Index, l2Index, l1Index, Address.l4Index, Address.l3Index,
    Address.l2Index, Address.l1Index, Address.indexAt_val, baseAddr_toRaw hp.lt,
    baseAddr_toRaw hq.lt] at e4 e3 e2 e1
  -- each half of the address space has `2^35` pages, which the 36 index bits tell apart
  have hnum : p.number = q.number := by
    rcases hp with hp | hp <;> rcases hq with hq | hq <;> omega
  cases p
  cases q
  simpa using hnum

end Page

/-! ### Addresses by their indices -/

namespace Address

/-- The addresses of the lower and of the upper half. -/
def Canonical (a : Address) : Prop :=
  a.toRaw < 2 ^ 47 ∨ 2 ^ 64 - 2 ^ 47 ≤ a.toRaw ∧ a.toRaw < 2 ^ 64

instance (a : Address) : Decidable a.Canonical := inferInstanceAs (Decidable (_ ∨ _))

/-- Side by side, the indices are the digits of a number. -/
lemma indices_or_eq (l4 l3 l2 l1 : TableIndex) :
    ((l4 : ℕ) <<< 39) ||| ((l3 : ℕ) <<< 30) ||| ((l2 : ℕ) <<< 21) ||| ((l1 : ℕ) <<< 12)
      = l4 * 2 ^ 39 + l3 * 2 ^ 30 + l2 * 2 ^ 21 + l1 * 2 ^ 12 := by
  have h1 : (l1 : ℕ) <<< 12 < 2 ^ 21 := by rw [Nat.shiftLeft_eq]; omega
  have h2 : (l2 : ℕ) <<< 21 + (l1 : ℕ) <<< 12 < 2 ^ 30 := by simp only [Nat.shiftLeft_eq]; omega
  have h3 : (l3 : ℕ) <<< 30 + ((l2 : ℕ) <<< 21 + (l1 : ℕ) <<< 12) < 2 ^ 39 := by
    simp only [Nat.shiftLeft_eq]; omega
  rw [Nat.or_assoc, Nat.or_assoc, ← Nat.shiftLeft_add_eq_or_of_lt h1,
    ← Nat.shiftLeft_add_eq_or_of_lt h2, ← Nat.shiftLeft_add_eq_or_of_lt h3]
  simp only [Nat.shiftLeft_eq]
  omega

/-- **Indices and pages**: an address that is built of four indices is canonical, page-aligned and
has these indices, and every canonical and page-aligned address is built of its own. -/
theorem fromTableIndices_bijective :
    (∀ l4 l3 l2 l1 : TableIndex, (fromTableIndices l4 l3 l2 l1).Canonical
      ∧ (fromTableIndices l4 l3 l2 l1).isPageAligned = true
      ∧ (fromTableIndices l4 l3 l2 l1).l4Index = l4 ∧ (fromTableIndices l4 l3 l2 l1).l3Index = l3
      ∧ (fromTableIndices l4 l3 l2 l1).l2Index = l2 ∧ (fromTableIndices l4 l3 l2 l1).l1Index = l1)
    ∧ (∀ a : Address, a.Canonical → a.isPageAligned = true →
      fromTableIndices a.l4Index a.l3Index a.l2Index a.l1Index = a)
    ∧ ∀ p q : Page, p.Canonical → q.Canonical → p.l4Index = q.l4Index → p.l3Index = q.l3Index →
      p.l2Index = q.l2Index → p.l1Index = q.l1Index → p = q := by
  refine ⟨fun l4 l3 l2 l1 => ?_, fun a hc ha => ?_, fun p q hp hq h4 h3 h2 h1 =>
    Page.index_injective hp hq h4 h3 h2 h1⟩
  · have hraw := new_toRaw (l4 * 2 ^ 39 + l3 * 2 ^ 30 + l2 * 2 ^ 21 + l1 * 2 ^ 12)
    simp only [isPageAligned_iff, Canonical, Fin.ext_iff, l4Index, l3Index, l2Index, l1Index,
      indexAt_val, fromTableIndices, indices_or_eq]
    split_ifs at hraw <;> omega
  · rw [isPageAligned_iff] at ha
    rw [fromTableIndices, indices_or_eq]
    apply Address.ext
    simp only [new_toRaw, l4Index, l3Index, l2Index, l1Index, indexAt_val]
    rcases hc with hc | hc <;> split_ifs <;> omega

/-- The first page of the kernel's heap. -/
theorem fromTableIndices_bijective_heap :
    fromTableIndices 509 0 0 0 = ⟨0xFFFFFE8000000000⟩ :=
  fromTableIndices_bijective.2.1 ⟨0xFFFFFE8000000000⟩ (by decide) (by decide)

end Address

end Rhubarb
