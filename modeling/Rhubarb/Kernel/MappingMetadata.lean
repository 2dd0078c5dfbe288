import Rhubarb.Kernel.MappingCalls

/-!
What is recorded about the kernel mappings: their sizes, and the ranges in the tracker
(`KernelMapping::new`, `map_into` and `extend` of `kernel/src/memory.rs`).

`new` and `map_into` record what they have mapped.  An extension that succeeds does not: the size
stays as it was, and the range that is tracked for the address space, a range of its own pages, is
given the end of the kernel's pages.

* `MemoryState.TrackedMapped`: all that is tracked is mapped.  `TrackedMapped.called`, `.track`,
  `.trackEnd`: what a call, a new range and a new end do to it.
* `Mappings.Records`: the steps after which the records are still true.
* `records_run`: along every run of such steps, the sizes and the tracked ranges are true.
-/

namespace Rhubarb

open Foundations Level4PageTable

variable {ranges : List (String × PageRange)} {name : String} {flags : PageTableFlags}

/-! ### The tracker -/

namespace MemoryState

variable {m m' : MemoryState} {id : SpaceId} {a : AddressSpace} {pages : PageRange}
  {flags : PageTableFlags} {res : Except MappingError Unit}

/-- **All that is tracked is mapped**, and only address spaces that exist are tracked. -/
structure TrackedMapped (m : MemoryState) : Prop where
  mapped : ∀ id a ranges, m.spaces id = some a → m.tracker (a.name, a.frame) = some ranges →
    ∀ range ∈ ranges, ∀ page ∈ range.2.pages, (m.leafOf id page).isSome
  live : ∀ key, (m.tracker key).isSome → ∃ id a, m.spaces id = some a ∧ (a.name, a.frame) = key

namespace TrackedMapped

/-- A call that maps something and tracks nothing. -/
lemma called {P : Page → Address → Prop} (h : m.TrackedMapped) (hc : Called m m' id P)
    (ht : m'.tracker = m.tracker) : m'.TrackedMapped where
  mapped id' a' ranges ha' hranges range hrange page hpage := by
    obtain ⟨a, ha, hname, hframe⟩ :=
      space_of_names (hc.names id') (congrFun hc.extend.rootOf id') ha'
    rw [ht, ← hname, ← hframe] at hranges
    exact hc.extend.isSome_kept (h.mapped id' a ranges ha hranges range hrange page hpage)
  live key hkey := by
    rw [ht] at hkey
    obtain ⟨id', a, ha, rfl⟩ := h.live key hkey
    obtain ⟨a', ha', hname, hframe⟩ :=
      space_of_names (hc.names id').symm (congrFun hc.extend.rootOf id').symm ha
    exact ⟨id', a', ha', by rw [hname, hframe]⟩

/-- The ranges under an address space are replaced by others that are mapped. -/
lemma update (h : m.TrackedMapped) (hm : m.Separated) (ha : m.spaces id = some a)
    (hranges : ∀ range ∈ ranges, ∀ page ∈ range.2.pages, (m.leafOf id page).isSome) :
    TrackedMapped
      { m with tracker := Function.update m.tracker (a.name, a.frame) (some ranges) } where
  mapped id' a' ranges' ha' hranges' range hrange page hpage := by
    change (m.leafOf id' page).isSome
    have ha' : m.spaces id' = some a' := ha'
    have hranges' : Function.update m.tracker (a.name, a.frame) (some ranges) (a'.name, a'.frame)
      = some ranges' := hranges'
    by_cases hkey : (a'.name, a'.frame) = (a.name, a.frame)
    · -- two address spaces do not have the same table
      have hframe : a'.frame = a.frame := (Prod.mk.inj hkey).2
      obtain rfl : id' = id := hm.roots.distinct id' id a.frame
        (hframe ▸ rootOf_of_space ha') (rootOf_of_space ha)
      rw [hkey, Function.update_self] at hranges'
      obtain rfl := Option.some.inj hranges'
      exact hranges range hrange page hpage
    · rw [Function.update_of_ne hkey] at hranges'
      exact h.mapped id' a' ranges' ha' hranges' range hrange page hpage
  live key hkey := by
    have hkey : (Function.update m.tracker (a.name, a.frame) (some ranges) key).isSome := hkey
    by_cases heq : key = (a.name, a.frame)
    · exact ⟨id, a, ha, heq.symm⟩
    · rw [Function.update_of_ne heq] at hkey
      exact h.live key hkey

/-- A range that is mapped is tracked. -/
lemma track (h : m.TrackedMapped) (hm : m.Separated) (ha : m.spaces id = some a) (name : String)
    (hpages : ∀ page ∈ pages.pages, (m.leafOf id page).isSome) :
    (m.track a name pages).TrackedMapped := by
  refine h.update hm ha fun range hrange => ?_
  rcases List.mem_append.mp hrange with hold | hnew
  · cases hr : m.tracker (a.name, a.frame) with
    | none =>
      rw [hr] at hold
      cases hold
    | some ranges =>
      rw [hr] at hold
      exact h.mapped id a ranges ha hr range hold
  · obtain rfl := List.mem_singleton.mp hnew
    exact hpages

end TrackedMapped

/-- The first range of that name. -/
def firstRange (name : String) (ranges : List (String × PageRange)) : Option PageRange :=
  (ranges.find? fun r => r.1 = name).map Prod.snd

/-- What a new end does to the ranges: the first of that name gets it. -/
lemma mem_setEnd {stop : Page} {ranges' : List (String × PageRange)}
    (h : setEnd name stop ranges = some ranges') {range : String × PageRange}
    (hrange : range ∈ ranges') :
    range ∈ ranges ∨ ∃ r, firstRange name ranges = some r ∧ range.2 = { r with stop } := by
  induction ranges generalizing ranges' with
  | nil => cases h
  | cons r ranges ih =>
    obtain ⟨n, r⟩ := r
    rw [setEnd] at h
    split_ifs at h with hn
    · cases h
      rcases List.mem_cons.mp hrange with rfl | hold
      · exact .inr ⟨r, by simp [firstRange, hn], rfl⟩
      · exact .inl (List.mem_cons_of_mem _ hold)
    · obtain ⟨rest, hrest, rfl⟩ := Option.map_eq_some_iff.mp h
      rcases List.mem_cons.mp hrange with rfl | hold
      · exact .inl List.mem_cons_self
      · rcases ih hrest hold with hmem | hfirst
        · exact .inl (List.mem_cons_of_mem _ hmem)
        · exact .inr (by simpa [firstRange, hn] using hfirst)

/-- With this end the tracked range of an address space is mapped. -/
def EndMapped (m : MemoryState) (id : SpaceId) (a : AddressSpace) (name : String) (stop : Page) :
    Prop :=
  ∀ ranges ∈ m.tracker (a.name, a.frame), ∀ r ∈ firstRange name ranges,
    ∀ page ∈ (PageRange.mk r.start stop).pages, (m.leafOf id page).isSome

/-- The tracked range gets an end with which it is mapped. -/
lemma TrackedMapped.trackEnd (h : m.TrackedMapped) (hm : m.Separated) (ha : m.spaces id = some a)
    {stop : Page} (hend : m.EndMapped id a name stop) (ht : m.trackEnd a name stop = .ok m') :
    m'.TrackedMapped := by
  rw [MemoryState.trackEnd] at ht
  split at ht
  · cases ht
    exact h
  · rename_i ranges hranges
    split at ht
    · rename_i ranges' hset
      cases ht
      refine h.update hm ha fun range hrange => ?_
      rcases mem_setEnd hset hrange with hold | ⟨r, hr, hrange⟩
      · exact h.mapped id a ranges ha hranges range hold
      · rw [hrange]
        exact hend ranges hranges r hr
    · cases ht

/-- `map_pages` tracks its pages when they are mapped. -/
lemma TrackedMapped.mapPages (h : m.TrackedMapped) (hm : m.Separated)
    (hz : m.frameAllocator.isAllocated 0 = true) (ha : m.spaces id = some a)
    (hmap : m.mapPages id a name pages flags = .ok (.ok (), m')) : m'.TrackedMapped := by
  obtain ⟨hcalled, hmapped, -⟩ := mapPages_called hm hz ha hmap
  obtain ⟨⟨r, m₁⟩, hx, hy⟩ := ok_of_map hmap
  obtain ⟨s', -, rfl⟩ := withPageTable_eq_ok hx
  cases r with
  | error x => cases hy
  | ok u =>
    cases hy
    have hput := hcalled.track m.tracker
    exact TrackedMapped.track (h.called hput rfl) hput.separated (a := { a with
      frameAllocator := s'.allocator.proxy }) (Function.update_self ..) name (hmapped rfl)

lemma mapKernelPagesTo_tracker {kernelPages : PageRange}
    (h : m.mapKernelPagesTo id a kernelPages pages flags = .ok (res, m')) :
    m'.tracker = m.tracker := by
  obtain ⟨-, -, k, s', -, -, rfl⟩ := mapKernelPagesTo_eq_ok h
  rfl

end MemoryState

/-- The assertion of `new`. -/
lemma KernelMapping.new_len {k k' : KernelMemory} {mapping : KernelMapping} {size : ℕ}
    (h : new k name size flags = .ok (mapping, k')) :
    mapping.pages.len = pageCount size := by
  rw [new] at h
  obtain ⟨pages, -, h⟩ := ok_of_bind h
  split_ifs at h with hlen
  obtain ⟨kernel, -, h⟩ := ok_of_bind h
  obtain ⟨⟨r, memory⟩, -, h⟩ := ok_of_bind h
  cases r with
  | error e => cases h
  | ok u =>
    obtain ⟨rfl, -⟩ := Prod.mk.inj (Except.ok.inj h)
    exact not_not.mp hlen

/-! ### Runs -/

/-- The calls that make, share and extend kernel mappings. -/
inductive RecordEvent where
  | call (ev : MappingEvent)
  | mapInto (n : ℕ) (id : SpaceId) (pages : PageRange) (flags : PageTableFlags)

namespace Mappings

open MemoryState

/-- The state after a call; a call that fails is reported and the run goes on. -/
def recordStep (s : Mappings) : RecordEvent → Except Panic Mappings
  | .call ev => s.step ev
  | .mapInto n id pages flags =>
    match s.mappings n, s.kernel.memory.spaces id with
    | some mapping, some space => do
      let (_, memory) ← s.kernel.memory.mapInto id space mapping pages flags
      .ok { s with kernel := ⟨memory, s.kernel.mappingOffset⟩ }
    | _, _ => .ok s

/-- **The records stay true in this step.**  A mapping is shared with some flag, or has no page at
the frame `0`.  An extension is refused, since one of its pages is in use on the kernel's side or on
the user's; or it is by no page at all, and the end of the kernel's pages is one with which the
range in the tracker is mapped. -/
def Records (s : Mappings) : RecordEvent → Prop
  | .call (.extend n id userPages) =>
    ∀ mapping space, s.mappings n = some mapping → s.kernel.memory.spaces id = some space →
      (∃ page ∈ (PageRange.mk mapping.pages.stop
        ⟨mapping.pages.stop.number + userPages.len⟩).pages,
          (s.kernel.memory.leafOf .kernel page).isSome)
      ∨ (∃ page ∈ userPages.pages, (s.kernel.memory.leafOf id page).isSome)
      ∨ userPages.len = 0
        ∧ s.kernel.memory.EndMapped id space mapping.name mapping.pages.stop
  | .call _ => True
  | .mapInto n _ _ flags =>
    ∀ mapping, s.mappings n = some mapping →
      flags.bits ≠ 0 ∨ ∀ kernelPage ∈ mapping.pages.pages, ∃ x,
        s.kernel.memory.leafOf .kernel kernelPage = some x ∧ x.toRaw ≠ 0

/-- **True records**: a mapping has as many pages as its size needs, and what is tracked for an
address space is mapped there. -/
structure Truthful (s : Mappings) : Prop where
  separated : s.kernel.memory.Separated
  zero : s.kernel.memory.frameAllocator.isAllocated 0 = true
  sizes : ∀ n a, s.mappings n = some a → a.pages.len = pageCount a.size
  tracked : s.kernel.memory.TrackedMapped

variable {s s' : Mappings}

lemma newSpace_truthful {i : ℕ} (hs : s.Truthful) (h : s.step (.newSpace i name) = .ok s') :
    s'.Truthful := by
  obtain ⟨memory, hm, hrest⟩ := ok_of_bind h
  cases hrest
  cases hi : s.kernel.memory.spaces (.process i) with
  | some a =>
    simp only [MemoryState.step, hi] at hm
    cases hm
    exact hs
  | none =>
    simp only [MemoryState.step, hi] at hm
    obtain ⟨hsep, hleaf, -, n, -, -, hg, hspaces⟩ := newSpace_separated hs.separated hi hm
    have htracker : memory.tracker = s.kernel.memory.tracker := newSpace_tracker hm
    have hold : ∀ id, id ≠ .process i → memory.spaces id = s.kernel.memory.spaces id := by
      intro id hid
      rw [hspaces, Function.update_of_ne hid]
    refine ⟨hsep, ?_, hs.sizes, ?_, ?_⟩
    · change memory.frameAllocator.isAllocated 0 = true
      rw [hg, FrameAllocator.isAllocated_take, hs.zero, Bool.or_true]
    · intro id a ranges ha hranges range hrange page hpage
      have ha : memory.spaces id = some a := ha
      have hranges : s.kernel.memory.tracker (a.name, a.frame) = some ranges := by
        rw [← htracker]
        exact hranges
      change (memory.leafOf id page).isSome
      by_cases hid : id = .process i
      · -- nothing is tracked for a table that did not exist
        obtain ⟨id', a', ha', hkey⟩ := hs.tracked.live (a.name, a.frame) (by rw [hranges]; rfl)
        have hne : id' ≠ .process i := by
          rintro rfl
          rw [hi] at ha'
          cases ha'
        have hframe : a'.frame = a.frame := (Prod.mk.inj hkey).2
        refine absurd (hsep.roots.distinct id' id a.frame ?_ (rootOf_of_space ha)) (hid ▸ hne)
        rw [← hframe]
        exact rootOf_of_space ((hold id' hne).trans ha')
      · rw [hleaf id hid page]
        rw [hold id hid] at ha
        exact hs.tracked.mapped id a ranges ha hranges range hrange page hpage
    · intro key hkey
      have hkey : (memory.tracker key).isSome := hkey
      rw [htracker] at hkey
      obtain ⟨id, a, ha, hkey⟩ := hs.tracked.live key hkey
      have hid : id ≠ .process i := by
        rintro rfl
        rw [hi] at ha
        cases ha
      exact ⟨id, a, (hold id hid).trans ha, hkey⟩

lemma new_truthful {size : ℕ} (hs : s.Truthful) (h : s.step (.new name size flags) = .ok s') :
    s'.Truthful := by
  obtain ⟨⟨mapping, kernel⟩, hnew, hrest⟩ := ok_of_bind h
  cases hrest
  obtain ⟨k, hk, hmap, -, -, hsize, -, -, -⟩ := KernelMapping.new_eq_ok hnew
  obtain ⟨hcalled, -⟩ := mapPages_called hs.separated hs.zero hk hmap
  refine ⟨hcalled.separated, hcalled.used 0 hs.zero, fun n a ha => ?_,
    hs.tracked.mapPages hs.separated hs.zero hk hmap⟩
  have ha : Function.update s.mappings s.made (some mapping) n = some a := ha
  by_cases hn : n = s.made
  · rw [hn, Function.update_self] at ha
    obtain rfl := Option.some.inj ha
    rw [hsize]
    exact KernelMapping.new_len hnew
  · rw [Function.update_of_ne hn] at ha
    exact hs.sizes n a ha

lemma mapInto_truthful {n : ℕ} {id : SpaceId} {pages : PageRange} (hs : s.Truthful)
    (hev : s.Records (.mapInto n id pages flags))
    (h : s.recordStep (.mapInto n id pages flags) = .ok s') : s'.Truthful := by
  rw [recordStep] at h
  split at h
  swap
  · cases h
    exact hs
  next mapping space hmapping hspace =>
  obtain ⟨⟨res, memory⟩, hinto, hrest⟩ := ok_of_bind h
  cases hrest
  obtain ⟨⟨r, m₁⟩, hto, hy⟩ := ok_of_map hinto
  obtain ⟨hcalled, -⟩ := mapKernelPagesTo_called hs.separated hspace hto
  have htracked := hs.tracked.called hcalled (mapKernelPagesTo_tracker hto)
  cases r with
  | error x =>
    cases hy
    exact ⟨hcalled.separated, hcalled.used 0 hs.zero, hs.sizes, htracked⟩
  | ok u =>
    cases hy
    have hmapped := mapKernelPagesTo_mapped hs.separated hspace hto (hev mapping hmapping)
    obtain ⟨-, -, k, s₁, -, -, rfl⟩ := mapKernelPagesTo_eq_ok hto
    have hsep := (hcalled.track ((s.kernel.memory.put id space s₁).track space mapping.name
      pages).tracker).separated
    exact ⟨hsep, hcalled.used 0 hs.zero, hs.sizes,
      htracked.track hcalled.separated (a := { space with
        frameAllocator := s₁.allocator.proxy }) (Function.update_self ..) mapping.name hmapped⟩

/-- **An extension that is refused changes no record**, and one by no page only the end in the
tracker. -/
lemma extend_truthful {n : ℕ} {id : SpaceId} {userPages : PageRange} (hs : s.Truthful)
    (hev : s.Records (.call (.extend n id userPages)))
    (h : s.step (.extend n id userPages) = .ok s') : s'.Truthful := by
  rw [step] at h
  split at h
  swap
  · cases h
    exact hs
  next mapping space hmapping hspace =>
  obtain ⟨⟨res, mapping', kernel⟩, hext, hrest⟩ := ok_of_bind h
  cases hrest
  obtain ⟨k, stop, hk, hnumber, -, hcases⟩ := KernelMapping.extend_eq_ok hext
  obtain rfl : stop = ⟨mapping.pages.stop.number + userPages.len⟩ := by
    rw [← hnumber]
  -- the mapping keeps its pages
  have hsizes : mapping' = mapping → ∀ m a,
      Function.update s.mappings n (some mapping') m = some a → a.pages.len = pageCount a.size := by
    rintro rfl m a ha
    by_cases hm : m = n
    · rw [hm, Function.update_self, ← hmapping, ← hm] at ha
      exact hs.sizes m a ha
    · rw [Function.update_of_ne hm] at ha
      exact hs.sizes m a ha
  rcases hcases with ⟨e, hmap, -, hsame⟩ | ⟨m₁, hmap, hcases⟩
  · obtain ⟨hcalled, -⟩ := mapPagesUntracked_called hs.separated hs.zero hk hmap
    exact ⟨hcalled.separated, hcalled.used 0 hs.zero, hsizes hsame,
      hs.tracked.called hcalled (tracker_withPageTable hmap)⟩
  obtain ⟨hcalled₁, -, -, hfresh₁⟩ := mapPagesUntracked_called hs.separated hs.zero hk hmap
  have htracked₁ := hs.tracked.called hcalled₁ (tracker_withPageTable hmap)
  rcases hcases with ⟨e, hto, -, hsame⟩ | ⟨-, m₂, hto, htrack, hsame⟩
  · have hspace₁ := KernelMapping.spaces_of_extended hs.separated hs.zero hk hspace hmap hto
    obtain ⟨hcalled₂, -⟩ := mapKernelPagesTo_called hcalled₁.separated hspace₁ hto
    exact ⟨hcalled₂.separated, hcalled₂.used 0 (hcalled₁.used 0 hs.zero), hsizes hsame,
      htracked₁.called hcalled₂ (mapKernelPagesTo_tracker hto)⟩
  · have hspace₁ := KernelMapping.spaces_of_extended hs.separated hs.zero hk hspace hmap hto
    obtain ⟨hcalled₂, hfresh₂, -⟩ := mapKernelPagesTo_called hcalled₁.separated hspace₁ hto
    have htracked₂ := htracked₁.called hcalled₂ (mapKernelPagesTo_tracker hto)
    rcases hev mapping space hmapping hspace with ⟨page, hpage, hsome⟩ | ⟨page, hpage, hsome⟩ |
      ⟨hzero, hend⟩
    · rw [hfresh₁ rfl page hpage] at hsome
      cases hsome
    · obtain ⟨hlen, -⟩ := mapKernelPagesTo_eq_ok hto
      obtain ⟨kernelPage, -, hp⟩ := exists_mem_zip hlen hpage
      have hsome₁ := hcalled₁.extend.isSome_kept hsome
      rw [hfresh₂ rfl page kernelPage hp] at hsome₁
      cases hsome₁
    · rw [hzero, Nat.add_zero] at htrack hsame
      have hend₂ : m₂.EndMapped id space mapping.name mapping.pages.stop := by
        intro ranges hranges r hr page hpage
        rw [mapKernelPagesTo_tracker hto, tracker_withPageTable hmap] at hranges
        exact hcalled₂.extend.isSome_kept
          (hcalled₁.extend.isSome_kept (hend ranges hranges r hr page hpage))
      obtain ⟨t, ht⟩ := KernelMapping.trackEnd_eq_ok htrack
      have hsep : kernel.memory.Separated := ht ▸ (hcalled₂.track t).separated
      have hused : kernel.memory.frameAllocator.isAllocated 0 = true :=
        ht ▸ hcalled₂.used 0 (hcalled₁.used 0 hs.zero)
      refine ⟨hsep, hused, hsizes hsame, ?_⟩
      obtain ⟨-, -, -, s₂, -, -, rfl⟩ := mapKernelPagesTo_eq_ok hto
      exact htracked₂.trackEnd hcalled₂.separated
        (a := { space with frameAllocator := s₂.allocator.proxy }) (Function.update_self ..)
        hend₂ htrack

lemma recordStep_truthful (s : Mappings) (ev : RecordEvent) (s' : Mappings) (hs : s.Truthful)
    (hev : s.Records ev) (h : s.recordStep ev = .ok s') : s'.Truthful := by
  match ev with
  | .call (.newSpace _ _) => exact newSpace_truthful hs h
  | .call (.new _ _ _) => exact new_truthful hs h
  | .call (.extend _ _ _) => exact extend_truthful hs hev h
  | .mapInto _ _ _ _ => exact mapInto_truthful hs hev h

/-- **The records of the mappings are true** along every run of `KernelMapping::new`, `map_into`
and `extend` whose steps keep them so. -/
theorem records_run {s₀ s : Mappings} {evs : List RecordEvent} (hstart : s₀.Truthful)
    (hevs : Meets recordStep Records s₀ evs) (hrun : run recordStep s₀ evs = .ok s) :
    (∀ n a, s.mappings n = some a → a.pages.len = pageCount a.size)
      ∧ ∀ id a ranges, s.kernel.memory.spaces id = some a →
        s.kernel.memory.tracker (a.name, a.frame) = some ranges →
        ∀ range ∈ ranges, ∀ page ∈ range.2.pages, (s.kernel.memory.leafOf id page).isSome := by
  have hs : s.Truthful := run_invariant_of_meets recordStep_truthful hstart hevs hrun
  exact ⟨hs.sizes, hs.tracked.mapped⟩

lemma roomyMappings_truthful : roomyMappings.Truthful where
  separated := roomyMappings_start.separated
  zero := roomyMappings_start.zero
  sizes n a ha := by cases ha
  tracked :=
    ⟨fun _ _ _ _ hranges => (by cases hranges), fun _ hkey => (by cases hkey)⟩

/-- A mapping of one page that is shared with a process. -/
def sharedMapping : List RecordEvent :=
  [.call (.newSpace 0 "a"), .call (.new "x" 1 .present),
    .mapInto 0 (.process 0) ⟨⟨2 ^ 52 - 2 ^ 29⟩, ⟨2 ^ 52 - 2 ^ 29 + 1⟩⟩ .present]

theorem records_run_shared :
    ∃ s a, run recordStep roomyMappings sharedMapping = .ok s
      ∧ s.kernel.memory.spaces (.process 0) = some a
      ∧ s.kernel.memory.tracker (a.name, a.frame)
        = some [("x", ⟨⟨2 ^ 52 - 2 ^ 29⟩, ⟨2 ^ 52 - 2 ^ 29 + 1⟩⟩)]
      ∧ (s.kernel.memory.leafOf (.process 0) ⟨2 ^ 52 - 2 ^ 29⟩).isSome := by
  obtain ⟨s, hs, a, ha, hranges⟩ : ∃ s, run recordStep roomyMappings sharedMapping = .ok s
      ∧ ∃ a, s.kernel.memory.spaces (.process 0) = some a
        ∧ s.kernel.memory.tracker (a.name, a.frame)
          = some [("x", ⟨⟨2 ^ 52 - 2 ^ 29⟩, ⟨2 ^ 52 - 2 ^ 29 + 1⟩⟩)] := by
    decide +kernel
  have hmeets : Meets recordStep Records roomyMappings sharedMapping :=
    ⟨trivial, fun _ _ => ⟨trivial, fun _ _ => ⟨fun _ _ => .inl (by decide), fun _ _ => trivial⟩⟩⟩
  refine ⟨s, a, hs, ha, hranges, ?_⟩
  exact (records_run roomyMappings_truthful hmeets hs).2 _ a _ ha hranges _
    List.mem_cons_self _ (PageRange.mem_pages.mpr ⟨le_rfl, by simp⟩)

/-- When it is extended by the page behind it, the mapping has two pages and the size of one, and
the range in the tracker goes on to the pages of the kernel. -/
theorem records_extended :
    ∃ s mapping a, run recordStep roomyMappings (sharedMapping ++
        [.call (.extend 0 (.process 0)
          ⟨⟨2 ^ 52 - 2 ^ 29 + 1⟩, ⟨2 ^ 52 - 2 ^ 29 + 2⟩⟩)]) = .ok s
      ∧ s.mappings 0 = some mapping ∧ mapping.pages.len ≠ pageCount mapping.size
      ∧ s.kernel.memory.spaces (.process 0) = some a
      ∧ s.kernel.memory.tracker (a.name, a.frame)
        = some [("x", ⟨⟨2 ^ 52 - 2 ^ 29⟩, ⟨2 ^ 52 - 2 ^ 28 + 2⟩⟩)]
      ∧ s.kernel.memory.leafOf (.process 0) ⟨2 ^ 52 - 2 ^ 29 + 2⟩ = none := by
  simp only [exists_and_left]
  decide +kernel

end Mappings

end Rhubarb
