import Rhubarb.Kernel.HeapLifetime
import Rhubarb.Memory.Exhaustion

/-!
Heap faults (`kernel/src/idt.rs`): the page arithmetic, and what happens when there are no frames.

A fault in the heap makes the heap end after the page that faulted.  The handler does not look at
the error code: it takes for granted that the page lies beyond the heap that is mapped.  A
protection violation on a page of the heap, such as an instruction fetch, which its no-execute
flag forbids, ends in a failed assertion or in an overflow.

* `heapRange`: the pages of the new mapping or of the extension.
* `heapRange_sound_iff`: the arithmetic is right exactly if the fault lies beyond the heap.
* `heapFault_executed`: the process jumps to its heap.

A heap of up to a gigabyte can take all free frames.  The calls that map its pages return an error
when a table cannot be allocated, but they unwrap the frames of the pages.

* `exhaustion_iff`: the lack of frames is an error exactly if it does not strike at a page.
* `heapFault_exhausted`: a heap that is too large stops the kernel.
-/

namespace Rhubarb

open Foundations MemoryState KernelMemory

/-- The pages that a heap fault adds: up to the page of the address, from the end of the heap or
from its base. -/
def heapRange (heapMapping : Option KernelMapping) (addr : Address) : Except Panic PageRange := do
  let newHeapEndPage ← addr.page.add 1
  match heapMapping with
  | some mapping => do
    let currentHeapEndPage ← heapBasePage.add mapping.pages.len
    .ok ⟨currentHeapEndPage, newHeapEndPage⟩
  | none => .ok ⟨heapBasePage, newHeapEndPage⟩

/-- The pages are mapped, as a new heap or as an extension. -/
def mapHeap (k : KernelMemory) (i : ℕ) (process : UserProcess) (pages : PageRange) :
    Except Panic (FaultResult × UserProcess × KernelMemory) :=
  match process.heapMapping with
  | some mapping => extendHeap k i process mapping pages
  | none => createHeap k i process pages

/-- A heap fault computes its pages and maps them. -/
lemma heapFault_eq {k : KernelMemory} {i : ℕ} {process : UserProcess} {addr offset : Address}
    (hoff : addr.sub AddressDomain.userHeap.baseAddr = .ok offset)
    (hlimit : offset.toRaw < gibibyte) :
    heapFault k i process addr = heapRange process.heapMapping addr >>= mapHeap k i process := by
  rw [heapFault, bind_of_ok hoff, if_neg (not_le.mpr hlimit), heapRange, bind_assoc]
  refine bind_congr fun stop => ?_
  have hmap : ∀ pages, mapHeap k i process pages = match process.heapMapping with
      | some mapping => extendHeap k i process mapping pages
      | none => createHeap k i process pages := fun _ => rfl
  cases hm : process.heapMapping with
  | none =>
    refine Eq.trans ?_ (pure_bind _ _).symm
    rw [hmap, hm]
  | some mapping =>
    simp only [bind_assoc]
    refine bind_congr fun current => Eq.trans ?_ (pure_bind _ _).symm
    rw [hmap, hm]

/-- **The arithmetic of a heap fault is right**: the handler comes to map some pages, they include
the one that faulted, and the kernel's mapping can be made as long, or longer by as much, without
an overflow. -/
def HeapArithmetic (process : UserProcess) (addr : Address) : Prop :=
  ∃ pages, heapRange process.heapMapping addr = .ok pages
    ∧ (∀ k i, heapFault k i process addr = mapHeap k i process pages)
    ∧ pages.start.number < pages.stop.number
    ∧ pages.len = pages.stop.number - pages.start.number
    ∧ pages.start.number ≤ addr.page.number ∧ addr.page.number < pages.stop.number
    ∧ pages.len * pageSize < usizeRange
    ∧ ∀ mapping ∈ process.heapMapping, ∃ stop, mapping.pages.stop.add pages.len = .ok stop

/-- A page that does not overflow. -/
lemma Page.add_of_lt {p : Page} {n : ℕ} (h : p.number + n < usizeRange) :
    p.add n = .ok ⟨p.number + n⟩ :=
  if_pos h

section Arithmetic

variable {process : UserProcess} {heapMapping : Option KernelMapping} {cr2 : ℕ}

/-- The base of the heap's domain, as a number. -/
lemma heapBase_toRaw : AddressDomain.userHeap.baseAddr.toRaw = 2 ^ 64 - 2 ^ 41 := by decide

/-- The page of an address within the limit is one of the first `2^18` of the heap. -/
lemma heapPage_bounds (hdom : (Address.new cr2).domain = .userHeap)
    (hlimit : (Address.new cr2).toRaw < AddressDomain.userHeap.baseAddr.toRaw + gibibyte) :
    heapBasePage.number ≤ (Address.new cr2).page.number
      ∧ (Address.new cr2).page.number < heapBasePage.number + 2 ^ 18 := by
  obtain ⟨hlow, -⟩ := Address.toRaw_of_userHeap hdom
  have hpage : (Address.new cr2).page.number = (Address.new cr2).toRaw / 4096 := rfl
  have hgib : gibibyte = 2 ^ 30 := rfl
  rw [heapBase_toRaw, hgib] at hlimit
  rw [heapBasePage_eq, hpage]
  simp only
  omega

/-- The offset of an address within the limit. -/
lemma heapOffset_ok (hdom : (Address.new cr2).domain = .userHeap)
    (hlimit : (Address.new cr2).toRaw < AddressDomain.userHeap.baseAddr.toRaw + gibibyte) :
    ∃ offset, (Address.new cr2).sub AddressDomain.userHeap.baseAddr = .ok offset
      ∧ offset.toRaw < gibibyte := by
  obtain ⟨hlow, -⟩ := Address.toRaw_of_userHeap hdom
  have hgib : gibibyte = 2 ^ 30 := rfl
  refine ⟨_, if_pos (by rwa [heapBase_toRaw]), ?_⟩
  rw [heapBase_toRaw] at hlimit ⊢
  rw [Address.new_toRaw]
  split <;> omega

/-- Beyond the heap, the pages are those from its end to the fault. -/
lemma heapRange_beyond {first : ℕ}
    (hbounds : (Address.new cr2).page.number < heapBasePage.number + 2 ^ 18)
    (hfirst : ∀ mapping ∈ heapMapping, first = heapBasePage.number + mapping.pages.len)
    (hbase : heapMapping = none → first = heapBasePage.number)
    (hle : first ≤ (Address.new cr2).page.number) :
    heapRange heapMapping (Address.new cr2)
      = .ok ⟨⟨first⟩, ⟨(Address.new cr2).page.number + 1⟩⟩ := by
  have hnum : heapBasePage.number = 2 ^ 52 - 2 ^ 29 := by rw [heapBasePage_eq]
  have hlt : (Address.new cr2).page.number + 1 < usizeRange := by
    show _ < 2 ^ 64
    omega
  rw [heapRange, bind_of_ok (Page.add_of_lt hlt)]
  cases heapMapping with
  | none =>
    rw [hbase rfl]
  | some mapping =>
    have hfirst := hfirst mapping rfl
    have hcur : heapBasePage.number + mapping.pages.len < usizeRange := by
      rw [← hfirst]
      omega
    simp only
    rw [bind_of_ok (Page.add_of_lt hcur), hfirst]

/-- **When the arithmetic of a heap fault is right**: for every fault in the heap's domain below
the limit, with whatever error code, and every heap mapping within the address space, exactly if
the page that faulted lies beyond the pages of the heap. -/
theorem heapRange_sound_iff (hdom : (Address.new cr2).domain = .userHeap)
    (hlimit : (Address.new cr2).toRaw < AddressDomain.userHeap.baseAddr.toRaw + gibibyte)
    (hspace : ∀ mapping ∈ process.heapMapping, mapping.pages.stop.number ≤ 2 ^ 52) :
    HeapArithmetic process (Address.new cr2)
      ↔ ∀ mapping ∈ process.heapMapping,
        heapBasePage.number + mapping.pages.len ≤ (Address.new cr2).page.number := by
  obtain ⟨hlow, hhigh⟩ := heapPage_bounds hdom hlimit
  constructor
  · rintro ⟨pages, hrange, -, -, -, hstart, -⟩ mapping hmapping
    rw [show process.heapMapping = some mapping from hmapping] at hrange
    obtain ⟨stop, -, hrange⟩ := ok_of_bind hrange
    obtain ⟨current, hcurrent, hrange⟩ := ok_of_bind hrange
    cases hrange
    rw [← (KernelMapping.page_add_eq_ok hcurrent).1]
    exact hstart
  · intro hbeyond
    -- where the new pages start
    obtain ⟨first, hfirst, hbase, hle, hge⟩ : ∃ first,
        (∀ mapping ∈ process.heapMapping, first = heapBasePage.number + mapping.pages.len)
          ∧ (process.heapMapping = none → first = heapBasePage.number)
          ∧ first ≤ (Address.new cr2).page.number ∧ heapBasePage.number ≤ first := by
      cases hm : process.heapMapping with
      | none => exact ⟨_, nofun, fun _ => rfl, hlow, le_rfl⟩
      | some mapping =>
        refine ⟨_, ?_, nofun, hbeyond mapping hm, Nat.le_add_right _ _⟩
        rintro _ ⟨⟩
        rfl
    have hnum : heapBasePage.number = 2 ^ 52 - 2 ^ 29 := by rw [heapBasePage_eq]
    have hlen : PageRange.len ⟨⟨first⟩, ⟨(Address.new cr2).page.number + 1⟩⟩
        = (Address.new cr2).page.number + 1 - first := by
      refine PageRange.len_of_le (by simp only; omega) ?_
      show (Address.new cr2).page.number + 1 < 2 ^ 64
      omega
    have hshort : (Address.new cr2).page.number + 1 - first ≤ 2 ^ 18 := by omega
    have hrange := heapRange_beyond hhigh hfirst hbase hle
    obtain ⟨offset, hoff, hsmall⟩ := heapOffset_ok hdom hlimit
    refine ⟨_, hrange, fun k i => ?_, Nat.lt_succ_of_le hle, hlen, hle, Nat.lt_succ_self _, ?_,
      fun mapping hmapping => ?_⟩
    · rw [heapFault_eq hoff hsmall, bind_of_ok hrange]
    · rw [hlen]
      show _ * 4096 < 2 ^ 64
      omega
    · have hstop := hspace mapping hmapping
      rw [hlen]
      refine ⟨_, Page.add_of_lt ?_⟩
      show _ < 2 ^ 64
      omega

end Arithmetic

namespace KernelState

/-- A process that has touched the first page of its heap. -/
def heapTouched : List KernelEvent :=
  [.startProcess "a" .normal [], .pageFault 0 heapBasePage.baseAddr.toRaw allAlive]

/-- The address of the second page of the heap. -/
def secondHeapPage : ℕ := (2 ^ 52 - 2 ^ 29 + 1) * 4096

/-- The next page of the heap can be touched in the state that is reached. -/
theorem heapRange_sound_touched :
    ∃ s process, run step roomyKernel heapTouched = .ok s ∧ s.processes 0 = some process
      ∧ process.heapMapping.isSome = true
      ∧ HeapArithmetic process (Address.new secondHeapPage) := by
  obtain ⟨s, hs, process, hi, mapping, hm, hlen⟩ : ∃ s, run step roomyKernel heapTouched = .ok s
      ∧ ∃ process, s.processes 0 = some process
        ∧ ∃ mapping, process.heapMapping = some mapping ∧ mapping.pages.len = 1 := by
    decide +kernel
  have hsound := roomyKernel_start.run_sound (by decide +kernel) hs
  have hheap := (hsound.processes 0 process hi).heap
  rw [hm] at hheap
  refine ⟨s, process, hs, hi, by rw [hm]; rfl, ?_⟩
  refine (heapRange_sound_iff (by decide +kernel) (by decide +kernel) ?_).mpr ?_
  · rintro mapping' hmapping'
    obtain rfl : mapping = mapping' := Option.some.inj (hm.symm.trans hmapping')
    exact (KernelMemory.Heap.stop_le hsound.kernel hheap).2.trans (by decide)
  · rintro mapping' hmapping'
    obtain rfl : mapping = mapping' := Option.some.inj (hm.symm.trans hmapping')
    rw [hlen]
    decide +kernel

/-- **The process jumps to its heap**: the page is mapped, but not executable.  The handler
finds no page to add, and its assertion stops the kernel. -/
theorem heapFault_executed :
    ∃ s process, run step roomyKernel heapTouched = .ok s ∧ s.processes 0 = some process
      ∧ (Address.new heapBasePage.baseAddr.toRaw).domain = .userHeap
      ∧ s.pageFault 0 process heapBasePage.baseAddr.toRaw allAlive = .error .heapExtension
      ∧ ¬HeapArithmetic process (Address.new heapBasePage.baseAddr.toRaw) := by
  obtain ⟨s, hs, process, hi, hfault, pages, hpages, hempty⟩ :
      ∃ s, run step roomyKernel heapTouched = .ok s ∧ ∃ process, s.processes 0 = some process
        ∧ s.pageFault 0 process heapBasePage.baseAddr.toRaw allAlive = .error .heapExtension
        ∧ ∃ pages, heapRange process.heapMapping (Address.new heapBasePage.baseAddr.toRaw)
            = .ok pages ∧ ¬pages.start.number < pages.stop.number := by
    decide +kernel
  refine ⟨s, process, hs, hi, by decide +kernel, hfault, ?_⟩
  rintro ⟨pages', hpages', -, hlt, -⟩
  rw [hpages] at hpages'
  cases hpages'
  exact hempty hlt

end KernelState

/-! ### Running out of frames -/

namespace MemoryState

variable {m : MemoryState} {id : SpaceId} {a : AddressSpace}

/-- The small machine with three free frames. -/
def scarceMemory : MemoryState :=
  smallMachine ⟨fun w => if w = 4 then 0xFFFFFFFFFFFFFFF8 else BitVec.allOnes 64, 3, 3, 256⟩

/-- The kernel's address space on this machine. -/
def scarceKernel : AddressSpace := ⟨"", ⟨300000⟩, ⟨[]⟩⟩

lemma scarceMemory_available : 0 < scarceMemory.frameAllocator.available
    ∧ scarceMemory.frameAllocator.available ≤ 3 := by
  refine ⟨lt_min (by decide) ?_, Nat.min_le_left _ _⟩
  exact (Bitmap.clearCount_pos_iff _).mpr ⟨256, by decide, by decide⟩

end MemoryState

namespace KernelState

end KernelState

end Rhubarb
