import Rhubarb.Kernel.MappingCalls

/-!
What the address space of a process maps, and how the calls of the kernel change it.

The heap of a process is the range of pages from the base of its domain, as long as the heap
mapping, and each page is mapped where the kernel maps the page of the mapping with the same
number.  A process with `AccessPolicy::Normal` has pages of the kernel-mapping area only from
sections it was given.

* `ProcessSound.elsewhere`, `ProcessSound.advances`: the invariant of a process is kept by what
  happens to others, and by calls on its own address space that map other pages.
* `heapFault_sound`: a heap that is created or extended is such a range again.
* `userSpace_sound`: a new process has code and a stack, no heap and nothing of the area.
-/

namespace Rhubarb

open Foundations MemoryState KernelMemory

/-! ### Ranges of pages side by side -/

variable {p : Page} {pages : PageRange} {sec : LoadedSection} {process : UserProcess}
  {known : List LoadedSection} {addr : Address}

/-- The pages of two ranges, taken together. -/
lemma PageRange.mem_zip_pages {r r' : PageRange} {q : Page} :
    (p, q) ∈ r.pages.zip r'.pages ↔ ∃ j, j < r.stop.number - r.start.number
      ∧ j < r'.stop.number - r'.start.number
      ∧ p = ⟨r.start.number + j⟩ ∧ q = ⟨r'.start.number + j⟩ := by
  rw [List.mem_iff_getElem]
  simp only [List.length_zip, List.length_map, List.length_range', lt_min_iff, List.getElem_zip,
    pages, List.getElem_map, List.getElem_range', Prod.mk.injEq, one_mul]
  constructor
  · rintro ⟨j, ⟨h₁, h₂⟩, rfl, rfl⟩
    exact ⟨j, h₁, h₂, rfl, rfl⟩
  · rintro ⟨j, h₁, h₂, rfl, rfl⟩
    exact ⟨j, ⟨h₁, h₂⟩, rfl, rfl⟩

/-! ### The invariant of a process -/

lemma heapBasePage_eq : heapBasePage = ⟨2 ^ 52 - 2 ^ 29⟩ := by decide

/-- A page of the heap's domain. -/
def Page.InHeap (p : Page) : Prop := p.Canonical ∧ p.l4Index = userHeapL4Index

lemma Page.inHeap_iff :
    p.InHeap ↔ 2 ^ 52 - 2 ^ 29 ≤ p.number ∧ p.number < 2 ^ 52 - 2 ^ 29 + 2 ^ 27 := by
  have hj : ((userHeapL4Index : TableIndex) : ℕ) = 508 := rfl
  constructor
  · rintro ⟨hc, hi⟩
    have := (Page.l4Index_eq_iff hc (by decide)).mp hi
    rw [hj] at this
    omega
  · intro h
    have hc : p.Canonical := Page.canonical_of_le (by omega) (by omega)
    refine ⟨hc, (Page.l4Index_eq_iff hc (by decide)).mpr ?_⟩
    rw [hj]
    omega

lemma Page.InHeap.sharedIndex (h : p.InHeap) :
    MemoryState.sharedIndex p.l4Index = false := by
  rw [h.2]
  rfl

/-- The number of pages of the heap. -/
def heapLen (h : KernelMapping) : ℕ := h.pages.stop.number - h.pages.start.number

/-- **A heap**: its pages are the first ones of the domain, and each is mapped where the kernel
maps the page of the heap mapping with the same number. -/
structure KernelMemory.Heap (k : KernelMemory) (i : ℕ) (h : KernelMapping) : Prop where
  holds : k.Holds h
  flags : h.flags = userDataFlags
  pos : 0 < heapLen h
  bound : heapLen h ≤ 2 ^ 18
  pages : ∀ j < heapLen h, k.memory.leafOf (.process i) ⟨heapBasePage.number + j⟩
    = k.memory.leafOf .kernel ⟨h.pages.start.number + j⟩
  rest : ∀ page : Page, page.InHeap → heapBasePage.number + heapLen h ≤ page.number →
    k.memory.leafOf (.process i) page = none
  tracked : ∀ a, k.memory.spaces (.process i) = some a →
    k.memory.Tracked (a.name, a.frame) h.name

/-- The heap of a process, which may not exist yet. -/
def KernelMemory.HeapOf (k : KernelMemory) (i : ℕ) : Option KernelMapping → Prop
  | none => ∀ page : Page, page.InHeap → k.memory.leafOf (.process i) page = none
  | some h => k.Heap i h

/-- Pages of the area that a process with `AccessPolicy::Normal` has mapped were approved. -/
def KernelMemory.Approved (k : KernelMemory) (approvals : List Approval) (i : ℕ)
    (process : UserProcess) : Prop :=
  process.accessPolicy = .normal → ∀ (page : Page) x, page.InArea →
    k.memory.leafOf (.process i) page = some x →
      ∃ a ∈ approvals, a.processId = process.id ∧ page ∈ a.loadedSection.mapping.pages.pages

/-- **The invariant of a process**. -/
structure KernelMemory.ProcessSound (k : KernelMemory) (approvals : List Approval) (i : ℕ)
    (process : UserProcess) : Prop where
  heap : k.HeapOf i process.heapMapping
  approved : k.Approved approvals i process

namespace KernelMemory

variable {k k' : KernelMemory} {kroot : Frame} {i j : ℕ} {process : UserProcess}
  {h : KernelMapping} {approvals approvals' : List Approval}

/-- The pages of a heap. -/
lemma Heap.inHeap (hh : k.Heap i h) {n : ℕ} (hn : n < heapLen h) :
    Page.InHeap ⟨heapBasePage.number + n⟩ := by
  have := hh.bound
  rw [Page.inHeap_iff, heapBasePage_eq]
  show 2 ^ 52 - 2 ^ 29 ≤ 2 ^ 52 - 2 ^ 29 + n ∧ 2 ^ 52 - 2 ^ 29 + n < 2 ^ 52 - 2 ^ 29 + 2 ^ 27
  omega

/-- The kernel pages of a heap are mapped. -/
lemma Heap.kernel_isSome (hh : k.Heap i h) {n : ℕ} (hn : n < heapLen h) :
    (k.memory.leafOf .kernel ⟨h.pages.start.number + n⟩).isSome := by
  refine hh.holds.mapped _ (PageRange.mem_pages.mpr ⟨Nat.le_add_right _ _, ?_⟩)
  show h.pages.start.number + n < h.pages.stop.number
  rw [heapLen] at hn
  omega

lemma Heap.elsewhere (hh : k.Heap j h) (he : Elsewhere k k' kroot i) (hj : j ≠ i) :
    k'.Heap j h := by
  have hsame : ∀ page : Page, page.InHeap →
      k'.memory.leafOf (.process j) page = k.memory.leafOf (.process j) page :=
    fun page hp => he.same j hj page hp.1 hp.sharedIndex
  refine ⟨⟨hh.holds.base, hh.holds.le, hh.holds.stop.trans he.offset, fun page hp => ?_⟩,
    hh.flags, hh.pos, hh.bound, fun n hn => ?_, fun page hp hle => ?_, fun a' ha' => ?_⟩
  · obtain ⟨x, hx⟩ := Option.isSome_iff_exists.mp (hh.holds.mapped page hp)
    rw [he.kept .kernel (by simp) page x hx]
    rfl
  · obtain ⟨x, hx⟩ := Option.isSome_iff_exists.mp (hh.kernel_isSome hn)
    rw [hsame _ (hh.inHeap hn), hh.pages n hn, hx, he.kept .kernel (by simp) _ x hx]
  · rw [hsame page hp, hh.rest page hp hle]
  · have hid : SpaceId.process j ≠ .process i := fun hc => hj (SpaceId.process.inj hc)
    obtain ⟨a, ha, hname, hframe⟩ := he.space hid ha'
    rw [← hname, ← hframe]
    exact he.tracked _ a hid ha _ (hh.tracked a ha)

/-- **What happens to other processes** keeps the invariant of a process. -/
lemma ProcessSound.elsewhere (hp : k.ProcessSound approvals j process)
    (he : Elsewhere k k' kroot i) (hj : j ≠ i) (hsub : approvals ⊆ approvals') :
    k'.ProcessSound approvals' j process := by
  refine ⟨?_, fun hpolicy page x hpage hx => ?_⟩
  · have hheap := hp.heap
    cases hm : process.heapMapping with
    | none =>
      rw [hm] at hheap
      intro page hpage
      rw [he.same j hj page hpage.1 hpage.sharedIndex, hheap page hpage]
    | some h =>
      rw [hm] at hheap
      exact Heap.elsewhere hheap he hj
  · rw [he.same j hj page hpage.canonical hpage.sharedIndex] at hx
    obtain ⟨a, ha, hrest⟩ := hp.approved hpolicy page x hpage hx
    exact ⟨a, hsub ha, hrest⟩

variable {new : SpaceId → Page → Address → Prop}

lemma Heap.advances (hh : k.Heap i h) (ha : Advances k k' kroot new)
    (hnew : ∀ page x, page.InHeap → ¬new (.process i) page x) : k'.Heap i h := by
  have hsame : ∀ page : Page, page.InHeap →
      k'.memory.leafOf (.process i) page = k.memory.leafOf (.process i) page :=
    fun page hp => ha.leafOf_eq hp.1 hp.sharedIndex fun x => hnew page x hp
  refine ⟨hh.holds.advances ha, hh.flags, hh.pos, hh.bound, fun n hn => ?_, fun page hp hle => ?_,
    fun a' ha' => ?_⟩
  · obtain ⟨x, hx⟩ := Option.isSome_iff_exists.mp (hh.kernel_isSome hn)
    rw [hsame _ (hh.inHeap hn), hh.pages n hn, hx, ha.kept .kernel _ x hx]
  · rw [hsame page hp, hh.rest page hp hle]
  · obtain ⟨a, ha₀, hname, hframe⟩ := ha.space ha'
    rw [← hname, ← hframe]
    exact ha.tracked _ _ (hh.tracked a ha₀)

lemma HeapOf.advances {heap : Option KernelMapping} (hh : k.HeapOf i heap)
    (ha : Advances k k' kroot new) (hnew : ∀ page x, page.InHeap → ¬new (.process i) page x) :
    k'.HeapOf i heap := by
  cases heap with
  | none =>
    intro page hp
    rw [ha.leafOf_eq hp.1 hp.sharedIndex fun x => hnew page x hp]
    exact hh page hp
  | some h => exact Heap.advances hh ha hnew

/-- **Calls that map other pages** keep the invariant of a process. -/
lemma ProcessSound.advances (hp : k.ProcessSound approvals i process)
    (ha : Advances k k' kroot new) (hsub : approvals ⊆ approvals')
    (hheap : ∀ page x, page.InHeap → ¬new (.process i) page x)
    (harea : process.accessPolicy = .normal → ∀ page x, page.InArea → new (.process i) page x →
      ∃ a ∈ approvals', a.processId = process.id ∧ page ∈ a.loadedSection.mapping.pages.pages) :
    k'.ProcessSound approvals' i process := by
  refine ⟨hp.heap.advances ha hheap, fun hpolicy page x hpage hx => ?_⟩
  rcases ha.added _ page x hpage.canonical hpage.sharedIndex hx with hold | hn
  · obtain ⟨a, ha, hrest⟩ := hp.approved hpolicy page x hpage hold
    exact ⟨a, hsub ha, hrest⟩
  · exact harea hpolicy page x hpage hn

end KernelMemory

/-! ### Faults in the heap -/

lemma Address.l4Index_of_userHeap {a : Address} (h : a.domain = .userHeap) :
    a.l4Index = userHeapL4Index := by
  rw [domain] at h
  split_ifs at h with h₁ h₂ h₃ h₄
  exact h₄

/-- The addresses of the heap's domain. -/
lemma Address.toRaw_of_userHeap {n : ℕ} (h : (Address.new n).domain = .userHeap) :
    2 ^ 64 - 2 ^ 41 ≤ (Address.new n).toRaw ∧ (Address.new n).toRaw < 2 ^ 64 - 2 ^ 41 + 2 ^ 39 := by
  have hi := congrArg Fin.val (l4Index_of_userHeap h)
  rw [l4Index, indexAt_val] at hi
  have hj : ((userHeapL4Index : TableIndex) : ℕ) = 508 := rfl
  have hraw := Address.new_toRaw n
  rw [hj] at hi
  split at hraw <;> omega

namespace KernelMemory

variable {k k' : KernelMemory} {kroot : Frame} {i : ℕ} {process process' : UserProcess}
  {h h' : KernelMapping} {stop : Page}

/-- What a heap fault may map. -/
def HeapPages (i : ℕ) (id : SpaceId) (page : Page) (_ : Address) : Prop :=
  id = .kernel ∨ id = .process i ∧ page.InHeap

/-- Pages of the heap's domain are the process's own. -/
lemma own_of_inHeap (hp : ∀ page ∈ pages.pages, page.InHeap) : Own pages :=
  fun page hpage => ⟨(hp page hpage).1, (hp page hpage).sharedIndex⟩

/-- Pages below the limit of the heap. -/
lemma inHeap_of_mem {start : Page} (hstart : heapBasePage.number ≤ start.number)
    (hstop : stop.number ≤ heapBasePage.number + 2 ^ 18) :
    ∀ page ∈ (PageRange.mk start stop).pages, page.InHeap := by
  intro page hp
  obtain ⟨h₁, h₂⟩ := PageRange.mem_pages.mp hp
  have h₁ : start.number ≤ page.number := h₁
  have h₂ : page.number < stop.number := h₂
  rw [heapBasePage_eq] at hstart hstop
  have hstart : 2 ^ 52 - 2 ^ 29 ≤ start.number := hstart
  have hstop : stop.number ≤ 2 ^ 52 - 2 ^ 29 + 2 ^ 18 := hstop
  rw [Page.inHeap_iff]
  omega

/-- **A heap is created**. -/
lemma createHeap_sound (hk : k.Sound kroot) (hnone : k.HeapOf i none)
    (hstart : heapBasePage.number < stop.number)
    (hstop : stop.number ≤ heapBasePage.number + 2 ^ 18)
    (hc : createHeap k i process ⟨heapBasePage, stop⟩ = .ok (.resume, process', k')) :
    ∃ h, process' = { process with heapMapping := some h } ∧ k'.Heap i h
      ∧ heapBasePage.number + heapLen h = stop.number ∧ Advances k k' kroot (HeapPages i) := by
  obtain ⟨⟨h, k₁⟩, hnew, hc⟩ := ok_of_bind hc
  obtain ⟨⟨r, k₂⟩, hmap, hc⟩ := ok_of_bind hc
  cases r with
  | error e => cases hc
  | ok u =>
  cases hc
  obtain ⟨hadv₁, hholds, -⟩ := KernelMapping.new_advances hk hnew
  obtain ⟨-, -, -, -, -, -, hflags, -, hend⟩ := KernelMapping.new_eq_ok hnew
  have hin := inHeap_of_mem le_rfl hstop
  obtain ⟨hadv₂, hlens, -, hmirrored, htracked⟩ :=
    mapInto_advances hadv₁.sound (own_of_inHeap hin) hmap
  have hmirrored := hmirrored (by decide) rfl
  rw [PageRange.length_pages, PageRange.length_pages] at hlens
  have hlen : heapLen h = stop.number - heapBasePage.number := hlens
  have hadv : Advances k k' kroot (HeapPages i) :=
    (hadv₁.mono fun id page x hp => .inl hp.1).trans (hadv₂.mono fun id page x hp =>
      Or.inr ⟨hp.1, hin page (List.of_mem_zip hp.2.choose_spec.1).1⟩)
  refine ⟨h, rfl, ⟨hholds.advances hadv₂, hflags, by omega, by omega, fun n hn => ?_,
    fun page hp hle => ?_, fun a ha => ?_⟩, by omega, hadv⟩
  · have hzip : ((⟨heapBasePage.number + n⟩ : Page), (⟨h.pages.start.number + n⟩ : Page))
        ∈ (PageRange.mk heapBasePage stop).pages.zip h.pages.pages := by
      rw [PageRange.mem_zip_pages]
      exact ⟨n, show n < stop.number - heapBasePage.number by omega, hn, rfl, rfl⟩
    obtain ⟨x, hx, hkx⟩ := hmirrored _ _ hzip
    rw [hx, hkx]
  · have hno : ∀ x, ¬Mirrors k' i h.pages ⟨heapBasePage, stop⟩ (.process i) page x := by
      rintro x ⟨-, kernelPage, hzip, -⟩
      have hlt : page.number < stop.number := (PageRange.mem_pages.mp (List.of_mem_zip hzip).1).2
      omega
    rw [hadv₂.leafOf_eq hp.1 hp.sharedIndex hno, hadv₁.leafOf_eq hp.1 hp.sharedIndex
      (by rintro x ⟨hc, -⟩; cases hc)]
    exact hnone page hp
  · obtain ⟨a₁, ha₁, hname, hframe⟩ := hadv₂.space ha
    rw [← hname, ← hframe]
    exact htracked rfl a₁ ha₁

/-- **A heap is extended**. -/
lemma extendHeap_sound (hk : k.Sound kroot) (hh : k.Heap i h)
    (hstop : stop.number ≤ heapBasePage.number + 2 ^ 18)
    (hc : extendHeap k i process h ⟨⟨heapBasePage.number + heapLen h⟩, stop⟩
      = .ok (.resume, process', k')) :
    ∃ h', process' = { process with heapMapping := some h' } ∧ k'.Heap i h'
      ∧ heapBasePage.number + heapLen h' = stop.number ∧ heapLen h < heapLen h'
      ∧ h'.pages.start = h.pages.start ∧ Advances k k' kroot (HeapPages i) := by
  obtain ⟨a, ha, hc⟩ := ok_of_bind hc
  have ha := space_eq_ok ha
  split_ifs at hc with hzero
  obtain ⟨⟨r, h', k₁⟩, hext, hc⟩ := ok_of_bind hc
  cases r with
  | error e => cases hc
  | ok u =>
  cases hc
  have hin : ∀ page ∈ (PageRange.mk ⟨heapBasePage.number + heapLen h⟩ stop).pages,
      page.InHeap := inHeap_of_mem (Nat.le_add_right _ _) hstop
  have hpres : h.flags.get .present = true := by
    rw [hh.flags]
    decide
  obtain ⟨stop', rfl, hnum, hlens, hadv, hholds, hmirrored⟩ :=
    KernelMapping.extend_advances hk hh.holds (own_of_inHeap hin) ha hpres hext
  rw [PageRange.length_pages, PageRange.length_pages] at hlens
  have hlens : stop'.number - h.pages.stop.number
      = stop.number - (heapBasePage.number + heapLen h) := hlens
  have hle := hh.holds.le
  have hlen : heapLen { h with pages := ⟨h.pages.start, stop'⟩ }
      = stop'.number - h.pages.start.number := rfl
  have hlen₀ : heapLen h = h.pages.stop.number - h.pages.start.number := rfl
  have hpos := Nat.pos_of_ne_zero hzero
  have hadv' : Advances k k' kroot (HeapPages i) := by
    refine hadv.mono fun id page x hp => ?_
    rcases hp with ⟨hid, -⟩ | ⟨hid, kernelPage, hzip, -⟩
    · exact .inl hid
    · exact .inr ⟨hid, hin page (List.of_mem_zip hzip).1⟩
  refine ⟨_, rfl, ⟨hholds, hh.flags, by omega, by omega, fun n hn => ?_, fun page hp hge => ?_,
    fun a' ha' => ?_⟩, by omega, by omega, rfl, hadv'⟩
  · by_cases hold : n < heapLen h
    · obtain ⟨x, hx⟩ := Option.isSome_iff_exists.mp (hh.kernel_isSome hold)
      have hpx := hh.pages n hold
      rw [hx] at hpx
      rw [hadv.kept _ _ x hpx]
      exact (hadv.kept _ _ x hx).symm
    · have hzip : ((⟨heapBasePage.number + n⟩ : Page), (⟨h.pages.start.number + n⟩ : Page))
          ∈ (PageRange.mk ⟨heapBasePage.number + heapLen h⟩ stop).pages.zip
            (PageRange.mk h.pages.stop stop').pages := by
        rw [PageRange.mem_zip_pages]
        refine ⟨n - heapLen h, ?_, ?_, Page.mk.injEq .. ▸ ?_, Page.mk.injEq .. ▸ ?_⟩
        · show n - heapLen h < stop.number - (heapBasePage.number + heapLen h)
          omega
        · show n - heapLen h < stop'.number - h.pages.stop.number
          omega
        · show heapBasePage.number + n = heapBasePage.number + heapLen h + (n - heapLen h)
          omega
        · show h.pages.start.number + n = h.pages.stop.number + (n - heapLen h)
          omega
      obtain ⟨x, hx, hkx⟩ := hmirrored _ _ hzip
      rw [hx]
      exact hkx.symm
  · have hno : ∀ x, ¬(SpaceId.process i = .kernel
        ∧ page ∈ (PageRange.mk h.pages.stop stop').pages
        ∨ Mirrors k' i ⟨h.pages.stop, stop'⟩ ⟨⟨heapBasePage.number + heapLen h⟩, stop⟩
          (.process i) page x) := by
      rintro x (⟨hc, -⟩ | ⟨-, kernelPage, hzip, -⟩)
      · cases hc
      · have hlt : page.number < stop.number := (PageRange.mem_pages.mp (List.of_mem_zip hzip).1).2
        omega
    rw [hadv.leafOf_eq hp.1 hp.sharedIndex hno]
    exact hh.rest page hp (by omega)
  · obtain ⟨a₁, ha₁, hname, hframe⟩ := hadv.space ha'
    rw [← hname, ← hframe]
    exact hadv.tracked _ _ (hh.tracked a₁ ha₁)

end KernelMemory

namespace KernelMemory

variable {k k' : KernelMemory} {kroot : Frame} {i : ℕ} {process process' : UserProcess}
  {cr2 : ℕ}

/-- **A fault in the heap** that does not end the process: the heap is created or extended, and
the page of the fault is its last one. -/
lemma heapFault_sound (hk : k.Sound kroot) (hheap : k.HeapOf i process.heapMapping)
    (hdom : (Address.new cr2).domain = .userHeap)
    (hf : heapFault k i process (Address.new cr2) = .ok (.resume, process', k')) :
    ∃ h, process' = { process with heapMapping := some h } ∧ k'.Heap i h
      ∧ heapBasePage.number + heapLen h = (Address.new cr2).page.number + 1
      ∧ Advances k k' kroot (HeapPages i) := by
  obtain ⟨hlow, hhigh⟩ := Address.toRaw_of_userHeap hdom
  have hbase : AddressDomain.userHeap.baseAddr.toRaw = 2 ^ 64 - 2 ^ 41 := by decide
  have hpage : (Address.new cr2).page.number = (Address.new cr2).toRaw / 4096 := rfl
  have hheapBase : heapBasePage.number = 2 ^ 52 - 2 ^ 29 := by rw [heapBasePage_eq]
  obtain ⟨offset, hoffset, hf⟩ := ok_of_bind hf
  have hraw : offset.toRaw = (Address.new cr2).toRaw - (2 ^ 64 - 2 ^ 41) := by
    rw [Address.sub, hbase, if_pos hlow] at hoffset
    obtain rfl := Except.ok.inj hoffset
    rw [Address.new_toRaw]
    split <;> omega
  split_ifs at hf with hlimit
  · cases hf
  have hlimit : offset.toRaw < 2 ^ 30 := not_le.mp hlimit
  obtain ⟨stop, hstop, hf⟩ := ok_of_bind hf
  obtain ⟨hnum, -⟩ := KernelMapping.page_add_eq_ok hstop
  have hlt : heapBasePage.number < stop.number := by omega
  have hle : stop.number ≤ heapBasePage.number + 2 ^ 18 := by omega
  cases hm : process.heapMapping with
  | none =>
    rw [hm] at hheap hf
    obtain ⟨h, hp, hh, hlen, hadv⟩ := createHeap_sound hk hheap hlt hle hf
    exact ⟨h, hp, hh, by omega, hadv⟩
  | some h =>
    rw [hm] at hheap hf
    have hh : k.Heap i h := hheap
    obtain ⟨current, hcurrent, hf⟩ := ok_of_bind hf
    obtain ⟨hcnum, -⟩ := KernelMapping.page_add_eq_ok hcurrent
    rw [hh.holds.len hk] at hcnum
    obtain rfl : current = ⟨heapBasePage.number + heapLen h⟩ := congrArg Page.mk hcnum
    obtain ⟨h', hp, hh', hlen, -, -, hadv⟩ := extendHeap_sound hk hh hle hf
    exact ⟨h', hp, hh', by omega, hadv⟩

end KernelMemory

/-! ### New address spaces -/

lemma Page.InHeap.not_inArea (h : p.InHeap) : ¬p.InArea := by
  rw [Page.inHeap_iff] at h
  rw [Page.inArea_iff]
  omega

lemma codeBase_eq : AddressDomain.userCode.baseAddr.page = ⟨2 ^ 52 - 5 * 2 ^ 27⟩ := by decide

namespace KernelMemory

variable {k k' : KernelMemory} {kroot : Frame} {i : ℕ} {approvals : List Approval}

lemma Loaded.elsewhere (h : k.Loaded sec) (he : Elsewhere k k' kroot i) :
    k'.Loaded sec := by
  refine ⟨⟨h.holds.base, h.holds.le, h.holds.stop.trans he.offset, fun page hp => ?_⟩, h.count,
    h.present, h.user⟩
  obtain ⟨x, hx⟩ := Option.isSome_iff_exists.mp (h.holds.mapped page hp)
  rw [he.kept .kernel (by simp) page x hx]
  rfl

lemma ownFrom_heap : OwnFrom heapBasePage.number := by
  intro page h₁ h₂
  have hp : page.InHeap := by
    rw [heapBasePage_eq] at h₁ h₂
    have h₁ : 2 ^ 52 - 2 ^ 29 ≤ page.number := h₁
    have h₂ : page.number < 2 ^ 52 - 2 ^ 29 + 262144 := h₂
    rw [Page.inHeap_iff]
    omega
  exact ⟨hp.1, hp.sharedIndex⟩

/-- The pages of an object's code. -/
lemma l4Index_code {page : Page} (h₁ : AddressDomain.userCode.baseAddr.page.number ≤ page.number)
    (h₂ : page.number < AddressDomain.userCode.baseAddr.page.number + maxFrames) :
    page.Canonical ∧ page.l4Index = userCodeL4Index := by
  rw [codeBase_eq] at h₁ h₂
  have h₁ : 2 ^ 52 - 5 * 2 ^ 27 ≤ page.number := h₁
  have h₂ : page.number < 2 ^ 52 - 5 * 2 ^ 27 + 262144 := h₂
  have hc : page.Canonical := Page.canonical_of_le (by omega) (by omega)
  refine ⟨hc, (Page.l4Index_eq_iff hc (by decide)).mpr ?_⟩
  show 2 ^ 52 - (512 - 507) * 2 ^ 27 ≤ page.number ∧ page.number < 2 ^ 52 - (511 - 507) * 2 ^ 27
  omega

lemma ownFrom_code : OwnFrom AddressDomain.userCode.baseAddr.page.number := by
  intro page h₁ h₂
  obtain ⟨hc, hi⟩ := l4Index_code h₁ h₂
  refine ⟨hc, ?_⟩
  rw [hi]
  rfl

/-- A page under another L4 index is neither of the heap nor of the area. -/
lemma not_inHeap_of_l4Index {page : Page} {j : TableIndex} (hi : page.l4Index = j)
    (hj : (j : ℕ) < 508) : ¬page.InHeap ∧ ¬page.InArea := by
  constructor
  · intro h
    rw [h.2] at hi
    rw [← hi] at hj
    exact absurd hj (by decide)
  · intro h
    have hval := Page.l4Index_val h.canonical
    rw [Page.inArea_iff] at h
    rw [hi] at hval
    omega

/-- A process with a new address space. -/
lemma processSound_new (hm : process.heapMapping = none)
    (hnone : ∀ page, sharedIndex page.l4Index = false → k.memory.leafOf (.process i) page = none) :
    k.ProcessSound approvals i process := by
  refine ⟨?_, fun _ page x hp hx => ?_⟩
  · rw [hm]
    exact fun page hp => hnone page hp.sharedIndex
  · rw [hnone page hp.sharedIndex] at hx
    cases hx

/-- **The address space of a new process**: code and stack, no heap and nothing of the area. -/
lemma userSpace_sound {known' : List LoadedSection} {id : ℕ} {name : String}
    {images : List ObjectImage} (hk : k.Sound kroot) (hknown : ∀ sec ∈ known, k.Loaded sec)
    (hi : k.memory.spaces (.process i) = none) (hm : process.heapMapping = none)
    (h : userSpace k known i id name none images = .ok (k', known')) :
    Elsewhere k k' kroot i ∧ (k'.memory.spaces (.process i)).isSome
      ∧ (∀ sec ∈ known', k'.Loaded sec) ∧ k'.ProcessSound approvals i process := by
  obtain ⟨k₁, hnew, h⟩ := ok_of_bind h
  obtain ⟨⟨k₂, known₂⟩, hload, h⟩ := ok_of_bind h
  obtain ⟨k₃, hstack, hrest⟩ := ok_of_bind h
  cases hrest
  obtain ⟨he₁, hsome, hnone⟩ := newSpace_elsewhere hk hi hnew
  obtain ⟨hadv₂, hknown₂⟩ := loadObjects_advances he₁.sound ownFrom_code le_rfl
    (Nat.le_add_right _ _) (fun sec hsec => (hknown sec hsec).elsewhere he₁) hload
  have hadv₃ := mapStack_advances hadv₂.sound hstack
  -- what is new under the process's root is code or stack
  have hcode : ∀ page x, LoadPages i AddressDomain.userCode.baseAddr.page.number (.process i)
      page x → ¬page.InHeap ∧ ¬page.InArea := by
    rintro page x (⟨hc, -⟩ | ⟨-, h₁, h₂⟩)
    · cases hc
    · exact not_inHeap_of_l4Index (l4Index_code h₁ h₂).2 (by decide)
  have hproc₂ : k₂.ProcessSound approvals i process :=
    (processSound_new hm hnone).advances hadv₂ (List.Subset.refl _)
      (fun page x hp hc => (hcode page x hc).1 hp)
      fun _ page x hp hc => absurd hp (hcode page x hc).2
  have hproc₃ : k'.ProcessSound approvals i process :=
    hproc₂.advances hadv₃ (List.Subset.refl _)
      (fun page x hp hc => (not_inHeap_of_l4Index hc.2 (by decide)).1 hp)
      fun _ page x hp hc => absurd hp (not_inHeap_of_l4Index hc.2 (by decide)).2
  have he₂ : Elsewhere k₁ k₂ kroot i := by
    refine hadv₂.elsewhere fun j page x hj _ hc => ?_
    rcases hc with ⟨hc, -⟩ | ⟨hc, -⟩
    · cases hc
    · exact hj (SpaceId.process.inj hc)
  have he₃ : Elsewhere k₂ k' kroot i :=
    hadv₃.elsewhere fun j page x hj _ hc => hj (SpaceId.process.inj hc.1)
  refine ⟨(he₁.trans he₂).trans he₃, ?_, fun sec hsec => (hknown₂ sec hsec).advances hadv₃, hproc₃⟩
  rw [hadv₃.spaces_isSome, hadv₂.spaces_isSome, hsome]

end KernelMemory

/-! ### Sections and grants -/

namespace KernelMemory

variable {k k' : KernelMemory} {kroot : Frame} {i : ℕ} {sec : LoadedSection}
  {res : Except MappingError Unit}

/-- A known section is mapped into a process: pages of the area only. -/
lemma mapSection_advances (hk : k.Sound kroot) (hsec : k.Loaded sec)
    (h : k.mapInto i sec.mapping sec.mapping.pages sec.mapping.flags = .ok (res, k')) :
    Advances k k' kroot fun id page _ =>
      id = .process i ∧ page.InArea ∧ page ∈ sec.mapping.pages.pages := by
  have hin : ∀ page ∈ sec.mapping.pages.pages, page.InArea := fun page hp => hsec.holds.inArea hk hp
  obtain ⟨hadv, -⟩ := mapInto_advances hk
    (fun page hp => ⟨(hin page hp).canonical, (hin page hp).sharedIndex⟩) h
  refine hadv.mono fun id page x hp => ?_
  obtain ⟨hid, kernelPage, hzip, -⟩ := hp
  have hmem := (List.of_mem_zip hzip).1
  exact ⟨hid, hin page hmem, hmem⟩

end KernelMemory

/-- The section found for an address is one of the known ones, and the address lies in it. -/
lemma getSectionForAddr_eq_some (h : getSectionForAddr addr known = .ok (some sec)) :
    sec ∈ known ∧ sec.addr.toRaw ≤ addr.toRaw
      ∧ ∃ stop, sec.addr.add sec.size = .ok stop ∧ addr.toRaw < stop.toRaw := by
  induction known with
  | nil => cases h
  | cons t known ih =>
    rw [getSectionForAddr] at h
    split_ifs at h with hle
    · obtain ⟨stop, hstop, h⟩ := ok_of_bind h
      split_ifs at h with hlt
      · cases h
        exact ⟨List.mem_cons_self, hle, stop, hstop, hlt⟩
      · obtain ⟨hmem, hrest⟩ := ih h
        exact ⟨List.mem_cons_of_mem t hmem, hrest⟩
    · obtain ⟨hmem, hrest⟩ := ih h
      exact ⟨List.mem_cons_of_mem t hmem, hrest⟩

/-- The flags of a grant. -/
lemma grantFor_flags {framebuffer : Option KernelMapping} {bars : List PageRange}
    {flags : PageTableFlags} (hfb : ∀ fb, framebuffer = some fb → fb.flags.get .present = true)
    (h : grantFor framebuffer bars addr = .ok (some (pages, flags))) :
    flags.get .present = true ∧ flags.get .userAccessible = true := by
  cases framebuffer with
  | none => cases h
  | some fb =>
  rw [grantFor] at h
  by_cases hin : fb.addr.toRaw ≤ addr.toRaw ∧ addr.toRaw < wrappingAdd fb.addr.toRaw fb.size
  · rw [if_pos hin] at h
    cases h
    rw [PageTableFlags.get_present_or, PageTableFlags.get_userAccessible_or, hfb fb rfl]
    exact ⟨rfl, Bool.or_true _⟩
  rw [if_neg hin] at h
  split at h
  · cases h
    exact ⟨by decide, by decide⟩
  · split_ifs at h
    · obtain ⟨range, -, hrest⟩ := ok_of_bind h
      cases hrest
      exact ⟨by decide, by decide⟩
    · cases h

/-- A heap fault ends the process or resumes it. -/
lemma heapFault_resume {k kernel : KernelMemory} {i : ℕ} {process' : UserProcess}
    {res : FaultResult} (hres : ∀ code, res ≠ .exit code)
    (h : heapFault k i process addr = .ok (res, process', kernel)) : res = .resume := by
  obtain ⟨offset, -, h⟩ := ok_of_bind h
  split_ifs at h
  · cases h
    exact absurd rfl (hres _)
  obtain ⟨stop, -, h⟩ := ok_of_bind h
  split at h
  · obtain ⟨current, -, h⟩ := ok_of_bind h
    obtain ⟨a, -, h⟩ := ok_of_bind h
    split_ifs at h
    obtain ⟨⟨r, mapping, k₁⟩, -, h⟩ := ok_of_bind h
    cases r with
    | ok u =>
      cases h
      rfl
    | error e =>
      cases h
      exact absurd rfl (hres _)
  · obtain ⟨⟨mapping, k₁⟩, -, h⟩ := ok_of_bind h
    obtain ⟨⟨r, k₂⟩, -, h⟩ := ok_of_bind h
    cases r with
    | ok u =>
      cases h
      rfl
    | error e =>
      cases h
      exact absurd rfl (hres _)

end Rhubarb
