import Rhubarb.Boot.Init

/-!
What becomes of the root objects after `memory::init`.

The bootloader reports the memory it loaded the root objects into as `Free`, and the kernel
reserves only the first MiB, its own image and a range at the framebuffer.  A frame with bytes
of a root object in it is safe exactly as far as one of these ranges happens to cover it.

* `rootObjects_kept`: in a boot where they do, no allocation ever gives such a frame.
* `rootObjects_overwritten`: a boot where they do not, and the frame that is given.
* `mapHeapLoop_ok`: with enough frames the kernel heap is mapped, so that `memory::init` does
  return there (`init_ok`).
-/

namespace Rhubarb

open Foundations Level4PageTable FrameAllocator

/-- The allocator after `k` more allocations. -/
def FrameAllocator.allocations (k : ℕ) (a : FrameAllocator) : FrameAllocator :=
  (fun a => a.allocate.2)^[k] a

variable {a : FrameAllocator}

lemma FrameAllocator.Held.allocations {P : ℕ → Prop} (h : Held P a) (k : ℕ) :
    Held P (a.allocations k) := by
  induction k generalizing a with
  | zero => exact h
  | succ k ih => exact ih h.allocate.1

namespace Boot

/-- The kernel does not treat the frame as free memory: no region frees it, or it lies in one of
the reserved ranges. -/
def Spared (b : Boot) (n : ℕ) : Prop :=
  (¬∃ region ∈ b.bootInfo.memoryMap, Frees region n) ∨ b.bootInfo.Reserved n

/-- **The root objects are kept**: in a boot where every frame with bytes of a root object or of
one of the two arrays is spared, no frame allocation after `memory::init` gives such a frame. -/
theorem rootObjects_kept {b : Boot} {m m' : MemoryState}
    (hspared : ∀ n < maxFrames, b.Holds n → b.Spared n) (hinit : m.init b.bootInfo = .ok m')
    (k : ℕ) (f : Frame) (hf : (m'.frameAllocator.allocations k).allocate.1 = .ok f) :
    ¬b.Holds f.number := by
  have hheld : Held (fun n => n < maxFrames ∧ b.Holds n) m'.frameAllocator := by
    refine MemoryState.init_held hinit fun reserved hres => ⟨?_, fun n hn => ?_⟩
    · exact reserve_invariant (fun a₁ h₁ => init_hint h₁) step_hint hres
    · exact (isAllocated_reserve hres hn.1).2 (hspared n hn.1 hn.2)
  obtain ⟨hlt, hnot⟩ := (hheld.allocations k).allocate.2 f hf
  exact fun hholds => hnot ⟨hlt, hholds⟩

end Boot

/-! ### The kernel heap is mapped -/

/-- An allocator none of whose free frames is in the set gives only frames outside it. -/
lemma outside_frameAllocator {T : Frame → Prop} (n : ℕ)
    (h : Held (fun k => k < maxFrames ∧ T ⟨k⟩) a) : Outside n a T := by
  induction n generalizing a T with
  | zero => trivial
  | succ n ih =>
    intro f a' hf
    rcases allocateFrame_cases h.hint with heq | ⟨k, hk, hfree, heq⟩
    · have hnone : (none, a) = (some f, a') := heq.symm.trans hf
      cases hnone
    · have hsome : (some ⟨k⟩, (a.take k).2) = (some f, a') := heq.symm.trans hf
      cases hsome
      refine ⟨lt_of_lt_of_le hk (by norm_num [maxFrames]), fun hT => ?_, ih ⟨hk, ?_⟩⟩
      · rw [h.used k ⟨hk, hT⟩] at hfree
        cases hfree
      · rintro j ⟨hj, hjk | hjT⟩
        · rw [isAllocated_take, Frame.mk.inj hjk]
          simp
        · rw [isAllocated_take, h.used j ⟨hj, hjT⟩, Bool.or_true]

/-- An allocator that counts a free frame gives one. -/
lemma FrameAllocator.Counted.allocate_of_pos (h : a.Counted) (hfree : 0 < a.freeFrames) :
    ∃ k < maxFrames, a.isAllocated k = false ∧ a.allocate = a.take k := by
  rcases h.allocate_cases with ⟨-, hfull⟩ | ⟨k, hk, hclear, heq⟩
  · obtain ⟨k, hk, hclear⟩ := (Bitmap.clearCount_pos_iff a.bitmap).mp (h.count ▸ hfree)
    have hused : a.bitmap.test k = true := hfull k hk
    rw [hclear] at hused
    cases hused
  · exact ⟨k, hk, hclear, heq⟩

/-- An allocator whose count is right supplies as many frames as it counts. -/
lemma supplies_frameAllocator (n : ℕ) (h : a.Counted) (hn : n ≤ a.freeFrames) :
    Supplies n a := by
  induction n generalizing a with
  | zero => trivial
  | succ n ih =>
    obtain ⟨k, hk, hfree, heq⟩ := h.allocate_of_pos (by omega)
    refine ⟨⟨k⟩, (a.take k).2, ?_, ih (take_counted h hk hfree) ?_⟩
    · show FrameAllocator.allocateFrame a = _
      rw [FrameAllocator.allocateFrame, heq]
      rfl
    · show n ≤ a.freeFrames - 1
      omega

/-- **The loop over the heap pages** succeeds on pages that are not mapped, with four frames for
each of them: afterwards they are mapped, and nothing else has changed. -/
lemma mapHeapLoop_ok {root : Frame} {flags : PageTableFlags} {r : ℕ} {pages : List Page}
    {s : PagingState FrameAllocator} (ht : Tree s.mem root)
    (hal : Outside (4 * pages.length + r) s.allocator (IsTable s.mem root))
    (hsup : Supplies (4 * pages.length + r) s.allocator)
    (hw : ∀ page ∈ pages,
      walk s.mem root (upperIndices page) page.l1Index = .ok (.error .notMapped))
    (hnd : pages.Nodup) (hcan : ∀ page ∈ pages, page.Canonical)
    (hp : flags.get .present = true) (hh : flags.get .hugePage = false) :
    ∃ s', mapHeapLoop root flags pages s = .ok (.ok (), s') ∧ Supplies r s'.allocator
      ∧ (∀ page ∈ pages, ∃ frame : Frame, frame.Physical
        ∧ walk s'.mem root (upperIndices page) page.l1Index = leafAnswer (.ofFrame frame flags))
      ∧ ∀ q : Page, q.Canonical → q ∉ pages → walk s'.mem root (upperIndices q) q.l1Index
        = walk s.mem root (upperIndices q) q.l1Index := by
  induction pages generalizing s with
  | nil => exact ⟨s, rfl, by simpa using hsup, by simp, fun _ _ _ => rfl⟩
  | cons page pages ih =>
    obtain ⟨hfresh, hnd⟩ := List.nodup_cons.1 hnd
    have hcount : 4 * (page :: pages).length + r = 4 * pages.length + r + 3 + 1 := by
      simp only [List.length_cons]
      omega
    rw [hcount] at hal hsup
    obtain ⟨frame, a, hframe, hsup₁⟩ := hsup
    obtain ⟨hphys, -, hal₁⟩ := hal frame a hframe
    have hpage := hcan page (by simp)
    -- The frame of the page, then the walk that maps it.
    obtain ⟨s₂, hmap, hsup₂⟩ := Tree.mapTo_ok (s := (⟨s.mem, a⟩ : PagingState FrameAllocator)) ht
      (hw page (by simp)) (hal₁.mono fun g hg => .inr hg) hsup₁ hphys hp hh
    obtain ⟨ht₂, hother, -, hdone⟩ := Tree.mapTo (s := (⟨s.mem, a⟩ : PagingState FrameAllocator))
      ht (hal₁.mono fun g hg => .inr hg) hp hmap
    obtain ⟨-, hmapped, hal₂⟩ := hdone rfl
    have hkeep : ∀ q : Page, q.Canonical → q ≠ page →
        walk s₂.mem root (upperIndices q) q.l1Index = walk s.mem root (upperIndices q) q.l1Index :=
      fun q hq hne => hother _ _ rfl fun hc => hne (upperIndices_injective hq hpage hc.1 hc.2)
    have hstill : ∀ q ∈ pages,
        walk s₂.mem root (upperIndices q) q.l1Index = .ok (.error .notMapped) := by
      intro q hq
      rw [hkeep q (hcan q (by simp [hq])) (fun h => hfresh (h ▸ hq))]
      exact hw q (by simp [hq])
    obtain ⟨s', hloop, hsup', hwalks, hrest⟩ := ih ht₂ hal₂ hsup₂ hstill hnd
      (fun q hq => hcan q (by simp [hq]))
    refine ⟨s', ?_, hsup', ?_, fun q hq hnot => ?_⟩
    · rw [mapHeapLoop, Comp.bind_apply_ok (unwrapFrame_apply hframe),
        Comp.bind_apply_ok (Comp.attempt_apply hmap)]
      exact hloop
    · refine List.forall_mem_cons.2 ⟨⟨frame, hphys, ?_⟩, hwalks⟩
      rw [hrest page hpage hfresh, hmapped]
    · simp only [List.mem_cons, not_or] at hnot
      rw [hrest q hq hnot.2, hkeep q hq hnot.1]

/-- The first page of the kernel heap. -/
def heapPage : ℕ := 4503599224717312

lemma heapPages_eq : PageRange.fromBaseSize (Address.new kernelHeapBase.toRaw) (32 * mebibyte)
    = .ok ⟨⟨heapPage⟩, ⟨heapPage + 8192⟩⟩ := by
  decide +kernel

/-- The pages of the kernel heap are canonical and lie below one entry of the root. -/
lemma heapPage_facts {page : Page}
    (h : page ∈ (PageRange.mk ⟨heapPage⟩ ⟨heapPage + 8192⟩).pages) :
    page.Canonical ∧ page.l4Index = kernelHeapL4Index := by
  obtain ⟨n, hn, rfl⟩ := List.mem_map.1 h
  simp only [List.mem_range'_1, heapPage] at hn
  refine ⟨.inr (by simp only; omega), Fin.ext ?_⟩
  rw [Page.l4Index, Address.l4Index, Address.indexAt_val]
  show n * 4096 % 2 ^ 64 / 2 ^ 39 % 512 = 509
  omega

namespace FrameAllocator

/-- The test of an allocator with free frames succeeds and leaves the bitmap as it was. -/
lemma initialTest_ok (h : a.Counted) (hfree : 0 < a.freeFrames) :
    ∃ a', a.initialTest = .ok a' ∧ a'.Counted ∧ ∀ n, a'.isAllocated n = a.isAllocated n := by
  obtain ⟨k, hk, hclear, heq⟩ := h.allocate_of_pos hfree
  have hfst : a.allocate.1 = .ok ⟨k⟩ := by rw [heq]; rfl
  have hback : a.allocate.2.deallocate ⟨k⟩ = (.ok (), (a.allocate.2.deallocate ⟨k⟩).2) := by
    rw [deallocate, if_neg (by simpa using hk)]
    split <;> rfl
  refine ⟨(a.allocate.2.deallocate ⟨k⟩).2, ?_, deallocate_counted (allocate_counted h) _,
    fun n => ?_⟩
  · rw [initialTest, show a.allocate = (.ok ⟨k⟩, a.allocate.2) from Prod.ext hfst rfl]
    dsimp only
    rw [hback]
  · rw [isAllocated_deallocate _ _ _ hk, heq, isAllocated_take]
    by_cases hn : n = k
    · simp [hn, hclear]
    · simp [hn]

end FrameAllocator

lemma freeFrames_congr {a' : FrameAllocator} (h : a.Counted) (h' : a'.Counted)
    (hsame : ∀ n, a'.isAllocated n = a.isAllocated n) : a'.freeFrames = a.freeFrames := by
  have hbits : ∀ n, a'.bitmap.test n = a.bitmap.test n := hsame
  rw [h.count, h'.count, clearCount, clearCount, Bitmap.clearCount, Bitmap.clearCount]
  simp only [hbits]

namespace MemoryState

variable {m : MemoryState} {root : Frame}

/-- **The kernel heap is mapped** with the frames of an allocator that has four for each of its
pages and one more, none of them a table of the page table; one is left. -/
lemma mapHeap_ok (hcount : a.Counted) (hfree : 4 * 8192 + 1 ≤ a.freeFrames)
    (htree : Tree m.mem root)
    (htables : ∀ t, IsTable m.mem root t → t.number < maxFrames → a.isAllocated t.number = true)
    (hheap : m.mem root kernelHeapL4Index = .unused) :
    ∃ m', m.mapHeap root a = .ok m' ∧ Supplies 1 m'.frameAllocator := by
  set pages := (PageRange.mk ⟨heapPage⟩ ⟨heapPage + 8192⟩).pages with hpages
  have hlen : pages.length = 8192 := by simp [hpages, PageRange.pages]
  have hnodup : pages.Nodup := List.Nodup.map (fun _ _ h => Page.mk.inj h) List.nodup_range'
  have hheld : Held (fun k => k < maxFrames ∧ IsTable m.mem root ⟨k⟩) a :=
    ⟨hcount.hint, fun n hn => htables ⟨n⟩ hn.2 hn.1⟩
  have hwalks : ∀ page ∈ pages,
      walk m.mem root (upperIndices page) page.l1Index = .ok (.error .notMapped) := by
    intro page hpage
    rw [walk, Radix.lookup_of_error]
    rw [upperIndices, (heapPage_facts hpage).2, Radix.descend_cons_error]
    rw [hheap, view_unused]
  obtain ⟨s, hloop, hsup, hmapped, -⟩ := mapHeapLoop_ok (r := 1) (s := ⟨m.mem, a⟩) htree
    (outside_frameAllocator _ hheld) (supplies_frameAllocator _ hcount (by rwa [hlen])) hwalks
    hnodup (fun page hpage => (heapPage_facts hpage).1)
    (show (PageTableFlags.present.or .writable).get .present = true by decide) (by decide)
  -- The first page of the heap is one of those just mapped.
  have hpage : (Address.new kernelHeapBase.toRaw).page = ⟨heapPage⟩ := by decide +kernel
  have hfirst : (Address.new kernelHeapBase.toRaw).page ∈ pages := by
    rw [hpage, hpages]
    exact List.mem_map.2 ⟨heapPage, by simp [List.mem_range'_1], rfl⟩
  obtain ⟨frame, hphys, hleaf⟩ := hmapped _ hfirst
  have hcanonical := (heapPage_facts hfirst).1
  have htranslate : (translateAddr s.mem root (Address.new kernelHeapBase.toRaw)).run
      = .ok (.ok ⟨frame, (Address.new kernelHeapBase.toRaw).pageOffset,
        PageTableFlags.present.or .writable⟩) := by
    rw [translateAddr_eq, (addr_indices hcanonical).1, (addr_indices hcanonical).2, hleaf,
      leafAnswer_ofFrame (by decide)]
    show (usedTranslation _ _).run = _
    rw [usedTranslation, usedFrame_ofFrame hphys, PageTableEntry.flags_ofFrame hphys]
    rfl
  refine ⟨{ m with mem := s.mem, frameAllocator := s.allocator }, ?_, hsup⟩
  rw [mapHeap, bind_of_ok heapPages_eq, bind_of_ok hloop]
  simp only
  rw [bind_of_ok htranslate]

/-- **`memory::init` returns** when, after the reservations, at least four frames for each page
of the kernel heap and one more are free, and the page table of the firmware is a tree whose
tables are in use and in which nothing is mapped below the entry of the kernel heap. -/
lemma init_ok {info : BootInfo} {reserved : FrameAllocator} (hcr3 : m.cr3.Physical)
    (hres : m.frameAllocator.reserve info = .ok reserved) (hcount : reserved.Counted)
    (hfree : 4 * 8192 + 1 ≤ reserved.freeFrames) (htree : Tree m.mem m.cr3)
    (htables : ∀ t, IsTable m.mem m.cr3 t → t.number < maxFrames →
      reserved.isAllocated t.number = true)
    (hheap : m.mem m.cr3 kernelHeapL4Index = .unused) :
    ∃ m', m.init info = .ok m' ∧ Supplies 1 m'.frameAllocator := by
  obtain ⟨tested, htest, hcount', hsame⟩ := initialTest_ok hcount (by omega)
  set m₁ : MemoryState :=
    { m with spaces := Function.update m.spaces .kernel (some ⟨"", m.cr3, ⟨[]⟩⟩) } with hm₁
  have hspace : m.initKernelAddressSpace = .ok m₁ := by
    rw [initKernelAddressSpace, bind_of_ok (Frame.fromBaseAddr_baseAddr hcr3)]
  have hkernel : m₁.kernelAddressSpace = .ok ⟨"", m.cr3, ⟨[]⟩⟩ := by
    rw [kernelAddressSpace, hm₁]
    simp
  obtain ⟨m', hmap, hsup⟩ := mapHeap_ok (m := m₁) hcount'
    (freeFrames_congr hcount hcount' hsame ▸ hfree) htree
    (fun t ht hlt => (hsame _).trans (htables t ht hlt)) hheap
  refine ⟨m', ?_, hsup⟩
  rw [init, bind_of_ok hspace, bind_of_ok hkernel, if_neg (by simp [isCurrent, hm₁]),
    bind_of_ok hres, bind_of_ok htest, if_neg ?_, hmap]
  simp only [pageSize, mebibyte]
  omega

end MemoryState

/-! ### A machine with one GiB of memory -/

namespace Boot

/-- A boot with the kernel in the second MiB, two pages of loader data in the first, and all
memory from the kernel up to one GiB in use by the loader; the root objects may lie anywhere in
it. -/
def oneGib (rootObjects : List RootObjectInfo) : Boot where
  kernelStart := 0x100000
  kernelEnd := 0x200000
  rootObjects := rootObjects
  displayInfo := ⟨0x80000000, 0x800000⟩
  memoryMap := [⟨.loaderData, 0x1000, 2⟩, ⟨.loaderData, 0x100000, 261888⟩]
  memoryRegionsPtr := 0x1000
  rootObjectsPtr := 0x1800

/-- The firmware's page table: the root in frame 16 has one table below it, in frame 17, which
maps all physical memory to itself in huge pages. -/
def identityMem : PhysMem := fun f i =>
  if f = ⟨16⟩ ∧ i = 0 then .ofFrame ⟨17⟩ (PageTableFlags.present.or .writable)
  else if f = ⟨17⟩ then
    .ofFrame ⟨262144 * i⟩ ((PageTableFlags.present.or .writable).or .hugePage)
  else .unused

/-- The machine before `memory::init`. -/
def machine : MemoryState where
  mem := identityMem
  frameAllocator := .new
  spaces := fun _ => none
  cr3 := ⟨16⟩
  tracker := fun _ => none

/-- The only entry of the firmware's tables that leads to a table. -/
lemma view_identityMem {f t : Frame} {i : TableIndex} (h : view (identityMem f i) = .ok t) :
    f = ⟨16⟩ ∧ t = ⟨17⟩ ∧ i = 0 := by
  rw [identityMem] at h
  split at h
  next hroot =>
    rw [view_eq_ok, PageTableEntry.frame_ofFrame (by decide) (by decide) (by decide)] at h
    cases h
    exact ⟨hroot.1, rfl, hroot.2⟩
  next =>
    split at h
    · obtain ⟨-, hhuge, -⟩ := PageTableEntry.frame_eq_ok (view_eq_ok.1 h)
      rw [PageTableEntry.isHugePage_ofFrame] at hhuge
      exact absurd hhuge (by decide)
    · rw [view_unused] at h
      cases h

lemma isTable_identityMem {t : Frame} (h : IsTable identityMem ⟨16⟩ t) : t = ⟨16⟩ ∨ t = ⟨17⟩ := by
  obtain ⟨p, -, hd⟩ := h
  match p with
  | [] => exact .inl (Except.ok.inj hd).symm
  | [i] =>
    rw [Radix.descend_singleton] at hd
    exact .inr (view_identityMem hd).2.1
  | i :: j :: p =>
    obtain ⟨f, hf, hd⟩ := Radix.descend_append_ok (p := [i]) (q := j :: p) hd
    obtain ⟨g, hg, -⟩ := Radix.descend_append_ok (p := [j]) (q := p) hd
    rw [Radix.descend_singleton] at hf hg
    obtain ⟨-, rfl, -⟩ := view_identityMem hf
    exact absurd (view_identityMem hg).1 (by decide)

lemma tree_identityMem : Tree identityMem ⟨16⟩ := by
  refine ⟨⟨fun f g _ _ i j t hi hj => ?_, fun f _ i hi => ?_⟩, fun t _ i hused => ?_⟩
  · obtain ⟨rfl, -, rfl⟩ := view_identityMem hi
    obtain ⟨rfl, -, rfl⟩ := view_identityMem hj
    exact ⟨rfl, rfl⟩
  · exact absurd (view_identityMem hi).2.1 (by decide)
  · rw [identityMem] at hused ⊢
    split
    · rw [PageTableEntry.isPresent_ofFrame]
      decide
    next hroot =>
      rw [if_neg hroot] at hused
      split
      · rw [PageTableEntry.isPresent_ofFrame]
        decide
      next hsecond =>
        rw [if_neg hsecond] at hused
        cases hused

variable {rootObjects : List RootObjectInfo} {a reserved : FrameAllocator}

lemma memoryMap_oneGib : (oneGib rootObjects).bootInfo.memoryMap
    = [⟨0x1000, 0x2000, .free⟩, ⟨0x100000, 0x3FF00000, .free⟩] := rfl

/-- The frames the two regions of the memory map free. -/
lemma frees_oneGib (n : ℕ) : (∃ region ∈ (oneGib rootObjects).bootInfo.memoryMap, Frees region n)
    ↔ 1 ≤ n ∧ n < 3 ∨ 256 ≤ n ∧ n < 262144 := by
  simp only [memoryMap_oneGib, List.mem_cons, List.not_mem_nil, or_false, exists_eq_or_imp,
    exists_eq_left]
  rw [frees_iff (by norm_num), frees_iff (by norm_num)]
  simp only [true_and]
  omega

lemma reserved_oneGib (n : ℕ) (hn : n < maxFrames) :
    (oneGib rootObjects).bootInfo.Reserved n ↔ n < 512 := by
  have hzero : (Address.new 0).toRaw = 0 := Address.new_of_lt (by norm_num)
  have hkernel : (Address.new 0x100000).toRaw = 0x100000 := Address.new_of_lt (by norm_num)
  have hfb : (Address.new 0x80000000).toRaw = 0x80000000 := Address.new_of_lt (by norm_num)
  have hsize : wrappingSub 0x200000 0x100000 = 0x100000 := wrappingSub_eq (by norm_num)
  simp only [BootInfo.Reserved, Reserves, oneGib, bootInfo, hzero, hkernel, hfb, hsize, mebibyte]
  simp only [maxFrames] at hn
  omega

/-- After the reservations the frames below two MiB are used, the others are free. -/
lemma isAllocated_oneGib (h : a.reserve (oneGib rootObjects).bootInfo = .ok reserved) {n : ℕ}
    (hn : n < maxFrames) : reserved.isAllocated n = true ↔ n < 512 := by
  rw [isAllocated_reserve h hn, frees_oneGib, reserved_oneGib n hn]
  simp only [maxFrames] at hn
  omega

lemma counted_oneGib (h : a.reserve (oneGib rootObjects).bootInfo = .ok reserved) :
    reserved.Counted := by
  refine reserve_invariant (fun a₁ h₁ => init_counted ?_ h₁) step_counted h
  rw [memoryMap_oneGib, SharesNoFrame]
  refine List.pairwise_pair.2 fun n hn => ?_
  rw [frees_iff (by norm_num), frees_iff (by norm_num)] at hn
  simp only at hn
  omega

lemma freeFrames_oneGib (h : a.reserve (oneGib rootObjects).bootInfo = .ok reserved) :
    4 * 8192 + 1 ≤ reserved.freeFrames := by
  have hsub : Finset.Ico 512 maxFrames ⊆
      (Finset.range maxFrames).filter fun n => reserved.bitmap.test n = false := by
    intro n hn
    rw [Finset.mem_Ico] at hn
    refine Finset.mem_filter.2 ⟨Finset.mem_range.2 hn.2, ?_⟩
    have hfree := mt (isAllocated_oneGib h hn.2).1 (by omega)
    exact (Bool.not_eq_true _).mp hfree
  have hcard := Finset.card_le_card hsub
  rw [Nat.card_Ico] at hcard
  rw [(counted_oneGib h).count]
  exact le_trans (by norm_num [maxFrames]) hcard

/-- `memory::init` returns on this machine with a frame left, none of those below two MiB. -/
lemma init_oneGib (rootObjects : List RootObjectInfo) :
    ∃ m' f, machine.init (oneGib rootObjects).bootInfo = .ok m'
      ∧ m'.frameAllocator.allocate.1 = .ok f ∧ 512 ≤ f.number ∧ f.number < maxFrames := by
  obtain ⟨reserved, hres⟩ := machine.frameAllocator.reserve_of_physical
    (show ∀ region ∈ (oneGib rootObjects).bootInfo.memoryMap, region.base + region.size < 2 ^ 47 by
      rw [memoryMap_oneGib]
      decide)
    (show 0x100000 < 2 ^ 47 by norm_num) (show 0x80000000 < 2 ^ 47 by norm_num)
  obtain ⟨m', hinit, f, a', hf, -⟩ := MemoryState.init_ok (m := machine) (by decide) hres
    (counted_oneGib hres) (freeFrames_oneGib hres) tree_identityMem
    (fun t ht hlt => (isAllocated_oneGib hres hlt).2 (by
      rcases isTable_identityMem ht with rfl | rfl <;> decide)) (by decide)
  have hheld : Held (fun n => n < 512) m'.frameAllocator := by
    refine MemoryState.init_held hinit fun r hr => ⟨(counted_oneGib hr).hint, fun n hn => ?_⟩
    exact (isAllocated_oneGib hr (lt_trans hn (by norm_num [maxFrames]))).2 hn
  have hok : m'.frameAllocator.allocate.1 = .ok f := by
    change FrameAllocator.allocateFrame m'.frameAllocator = (some f, a') at hf
    rw [FrameAllocator.allocateFrame] at hf
    split at hf <;> simp_all
  obtain ⟨hlt, hnot⟩ := hheld.allocate.2 f hok
  exact ⟨m', f, hinit, hok, by omega, hlt⟩

/-- A root object in the first MiB, as every root object would have to be. -/
theorem rootObjects_kept_low :
    ∃ m' f, machine.init (oneGib [⟨0x2000, 100⟩]).bootInfo = .ok m'
      ∧ m'.frameAllocator.allocate.1 = .ok f ∧ ¬(oneGib [⟨0x2000, 100⟩]).Holds f.number := by
  obtain ⟨m', f, hinit, hok, -⟩ := init_oneGib [⟨0x2000, 100⟩]
  refine ⟨m', f, hinit, hok, rootObjects_kept (fun n hn hholds => Or.inr ?_) hinit 0 f hok⟩
  rw [reserved_oneGib n hn]
  obtain ⟨s, hs, x, hx, rfl⟩ := hholds
  simp only [data, oneGib, List.map_cons, List.map_nil, List.cons_append, List.nil_append,
    List.length_cons, List.length_nil, List.mem_cons, List.not_mem_nil, or_false] at hs
  rw [Span.mem_iff] at hx
  rcases hs with rfl | rfl | rfl <;> simp only at hx <;> omega

/-- **A root object is overwritten**: of a root object that fills the memory above the kernel,
loaded as the bootloader does, the very next frame allocation gives a part away. -/
theorem rootObjects_overwritten :
    (oneGib [⟨0x200000, 0x3FE00000⟩]).LoaderData
      ∧ ∃ m' f, machine.init (oneGib [⟨0x200000, 0x3FE00000⟩]).bootInfo = .ok m'
        ∧ m'.frameAllocator.allocate.1 = .ok f
        ∧ (oneGib [⟨0x200000, 0x3FE00000⟩]).Holds f.number := by
  refine ⟨fun s hs x hx => ?_, ?_⟩
  · simp only [data, oneGib, List.map_cons, List.map_nil, List.cons_append, List.nil_append,
      List.length_cons, List.length_nil, List.mem_cons, List.not_mem_nil, or_false] at hs
    rw [Span.mem_iff] at hx
    rcases hs with rfl | rfl | rfl <;> simp only at hx
    · exact ⟨⟨.loaderData, 0x100000, 261888⟩, by simp [oneGib], rfl, by simp only; omega,
        by simp only [pageSize]; omega⟩
    · exact ⟨⟨.loaderData, 0x1000, 2⟩, by simp [oneGib], rfl, by simp only; omega,
        by simp only [pageSize]; omega⟩
    · exact ⟨⟨.loaderData, 0x1000, 2⟩, by simp [oneGib], rfl, by simp only; omega,
        by simp only [pageSize]; omega⟩
  · obtain ⟨m', f, hinit, hok, hle, hlt⟩ := init_oneGib [⟨0x200000, 0x3FE00000⟩]
    refine ⟨m', f, hinit, hok, ⟨0x200000, 0x3FE00000⟩, by simp [data, oneGib], f.number * 4096, ?_,
      by omega⟩
    simp only [maxFrames] at hlt
    rw [Span.mem_iff]
    simp only
    omega

end Boot

end Rhubarb
