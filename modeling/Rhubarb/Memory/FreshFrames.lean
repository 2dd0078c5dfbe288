import Rhubarb.Memory.MapProgress

/-!
The frames that `AddressSpace::map_pages` gives to its pages (`kernel/src/memory.rs`).

`map_pages` passes over a page that is "already mapped to the same frame".  But the error of
`Level4PageTable::map_to` does not say what the page is mapped to: its `to` is the frame that was
handed in.  So every page that is mapped already is passed over, whatever it is mapped to, and the
call succeeds with the frame it took for the page lost.

* `mapTo_alreadyMapped`: what the error says.
* `mapPagesLoop_fresh`: pages that are not mapped get frames of their own.
* `mapPages_fresh_iff`: `map_pages` keeps its word exactly if none of the pages is mapped.
* `mapPages_twice`: the same page mapped twice.
-/

namespace Rhubarb

open Foundations Level4PageTable Levels

/-! ### Pages of a range -/

/-- As many pages of a range as the address space has do not have the same indices. -/
lemma PageRange.pairwise_not_sameIndices (pages : PageRange) {n : ℕ} (h : n ≤ 2 ^ 36) :
    (pages.pages.take n).Pairwise fun p q => ¬MemoryState.SameIndices p q := by
  refine (pages.pairwise_indices_take h).imp fun {p q} hne hsame => hne ?_
  show upperIndices p ++ [p.l1Index] = upperIndices q ++ [q.l1Index]
  rw [hsame.1, hsame.2]

/-! ### The loop -/

section Loop

variable {r frame : Frame} {page : Page} {flags : PageTableFlags} {pages : List Page}
  {s s' : PagingState ProxyAllocator} {e : MappingError}

/-- **What the error says**: not what the page is mapped to. -/
lemma mapTo_alreadyMapped {g : Frame}
    (h : mapTo r page frame flags s = .ok (.error (.pageAlreadyMapped g), s')) :
    g = frame := by
  rcases mapTo_cases h with ⟨x, h₁, hx⟩ | ⟨l1, s₁, -, ⟨-, hx, -⟩ | ⟨-, hx, -⟩⟩
  · cases hx
    rcases level1Table_error h₁ with hx | hx <;> cases hx
  · cases hx
    rfl
  · cases hx

/-- **No page is ever refused** for being mapped. -/
lemma mapPagesLoop_error (h : mapPagesLoop r flags pages s = .ok (.error e, s')) (g : Frame) :
    e ≠ .pageAlreadyMapped g := by
  induction pages generalizing s with
  | nil => cases h
  | cons page pages ih =>
    obtain ⟨f, a, res₁, s₁, -, hmap, ⟨-, hrest⟩ | ⟨x, rfl, hne, hx, -⟩⟩ := mapPagesLoop_cons h
    · exact ih hrest
    · cases hx
      rintro rfl
      rw [mapTo_alreadyMapped hmap] at hne
      exact hne rfl

/-- A frame that is given was free, and there is one less. -/
lemma allocateFrame_given {a a' : ProxyAllocator} {f : Frame}
    (hint : a.frameAllocator.nextFreeHint ≤ maxFrames)
    (hal : AllocateFrame.allocateFrame a = (some f, a')) :
    a.frameAllocator.isAllocated f.number = false
      ∧ a'.frameAllocator.isAllocated f.number = true
      ∧ a'.frameAllocator.clearCount + 1 = a.frameAllocator.clearCount
      ∧ a'.frameAllocator.nextFreeHint ≤ maxFrames := by
  rcases proxyAllocator_cases hint hal with ⟨hf, -⟩ | ⟨n, hn, hc, hf, rfl⟩
  · cases hf
  · cases hf
    refine ⟨hc, ?_, FrameAllocator.clearCount_markUsed hn hc, hn⟩
    rw [FrameAllocator.isAllocated_take]
    simp

/-- There is a free frame for every page. -/
lemma mapPagesLoop_length (hint : s.allocator.frameAllocator.nextFreeHint ≤ maxFrames)
    (h : mapPagesLoop r flags pages s = .ok (.ok (), s')) :
    pages.length ≤ s.allocator.frameAllocator.clearCount := by
  induction pages generalizing s with
  | nil => exact Nat.zero_le _
  | cons page pages ih =>
    obtain ⟨f, a, res₁, s₁, hal, hmap, ⟨-, hrest⟩ | ⟨x, -, -, hx, -⟩⟩ := mapPagesLoop_cons h
    · obtain ⟨-, -, hcount, hint₁⟩ := allocateFrame_given hint hal
      -- the tables of the page can only take more
      have hless : s₁.allocator.frameAllocator.nextFreeHint ≤ maxFrames
          ∧ s₁.allocator.frameAllocator.clearCount ≤ a.frameAllocator.clearCount := by
        refine mapTo_allocator (J := fun b : ProxyAllocator =>
          b.frameAllocator.nextFreeHint ≤ maxFrames
            ∧ b.frameAllocator.clearCount ≤ a.frameAllocator.clearCount)
          (fun b g b' hb hg => ?_) (s := ⟨s.mem, a⟩) ⟨hint₁, le_rfl⟩ hmap
        rcases proxyAllocator_cases hb.1 hg with ⟨-, rfl⟩ | ⟨n, hn, hc, -, rfl⟩
        · exact hb
        · have hcount := FrameAllocator.clearCount_markUsed hn hc
          exact ⟨hn, (Nat.le_succ _).trans (hcount.le.trans hb.2)⟩
      have hle := ih hless.1 hrest
      rw [List.length_cons]
      omega
    · cases hx

/-- Each of the pages has an entry for a frame of its own, which was free before. -/
structure FreshFor (r : Frame) (flags : PageTableFlags) (pages : List Page)
    (s s' : PagingState ProxyAllocator) (frameOf : Page → Frame) : Prop where
  entry : ∀ page ∈ pages, pageEntry s'.mem r page = some (.ofFrame (frameOf page) flags)
  free : ∀ page ∈ pages, s.allocator.frameAllocator.isAllocated (frameOf page).number = false
  given : ∀ page ∈ pages, frameOf page ∈ s'.allocator.proxy.allocatedFrames
    ∧ (frameOf page).number < maxFrames
  distinct : ∀ p ∈ pages, ∀ q ∈ pages, frameOf p = frameOf q → p = q

/-- **Pages that are not mapped** get frames of their own. -/
lemma mapPagesLoop_fresh {roots : Set Frame} (h : s.Tidy roots)
    (hz : s.allocator.frameAllocator.isAllocated 0 = true) (hr : r ∈ roots)
    (hapart : pages.Pairwise fun p q => ¬MemoryState.SameIndices p q)
    (hnone : ∀ page ∈ pages, pageEntry s.mem r page = none)
    (hm : mapPagesLoop r flags pages s = .ok (.ok (), s')) :
    ∃ frameOf, FreshFor r flags pages s s' frameOf := by
  induction pages generalizing s with
  | nil =>
    exact ⟨fun _ => r, by simp, by simp, by simp, by simp⟩
  | cons page pages ih =>
    obtain ⟨hfirst, hapart⟩ := List.pairwise_cons.mp hapart
    obtain ⟨f, a, res₁, s₁, hal, hmap, ⟨hres₁, hrest⟩ | ⟨x, -, -, hx, -⟩⟩ := mapPagesLoop_cons hm
    swap
    · cases hx
    obtain ⟨hto, hgrown, -, -, -⟩ := MapsPages.first pages h hz hal hr hmap
    have hok : res₁ = .ok () := by
      rcases hres₁ with hok | hmapped
      · exact hok
      · have hsome := hto.taken f hmapped
        rw [hnone page List.mem_cons_self] at hsome
        cases hsome
    obtain ⟨hlt, hne, hmem, -⟩ := ProxyAllocator.Grown.given h.tables.hint hz hal
    obtain ⟨hfree, hused, -, -⟩ := allocateFrame_given h.tables.hint hal
    have hlater : a.Grown s₁.allocator :=
      mapTo_grown (.refl ((ProxyAllocator.Grown.refl h.tables.hint).allocate hal).hint) hmap
    -- the other pages are still not mapped
    have hnone₁ : ∀ q ∈ pages, pageEntry s₁.mem r q = none := by
      intro q hq
      cases hentry : pageEntry s₁.mem r q with
      | none => rfl
      | some e =>
        rcases hto.inserted.added r hr _ _ e rfl hentry with hold | ⟨p, ⟨rfl, -⟩, hup, hl1, -⟩
        · have hno : pageEntry s.mem r q = none := hnone q (List.mem_cons_of_mem _ hq)
          rw [show pageEntry s.mem r q = some e from hold] at hno
          cases hno
        · exact absurd ⟨hup.symm, hl1.symm⟩ (hfirst q hq)
    have hz₁ := hgrown.used 0 hz
    obtain ⟨frameOf, hfresh⟩ := ih hto.tidy hz₁ hapart hnone₁ hrest
    have hmaps := hto.tidy.mapPagesLoop_inserted hz₁ hr hrest
    have hnot : page ∉ pages := fun hp => hfirst page hp ⟨rfl, rfl⟩
    have hother : ∀ q ∈ pages, Function.update frameOf page f q = frameOf q :=
      fun q hq => Function.update_of_ne (ne_of_mem_of_not_mem hq hnot) _ _
    -- a later frame was free after this one was taken
    have hdiff : ∀ q ∈ pages, frameOf q ≠ f := by
      rintro q hq rfl
      have hlate := hfresh.free q hq
      rw [hlater.used _ hused] at hlate
      cases hlate
    refine ⟨Function.update frameOf page f, ?_, ?_, ?_, ?_⟩
    · refine List.forall_mem_cons.mpr ⟨?_, fun q hq => ?_⟩
      · have hentry := (hto.ok hok).2
        rw [usedEntry_ofFrame (physical_of_lt (n := f.number) hlt) hne] at hentry
        rw [Function.update_self]
        exact hmaps.inserted.kept_page hr hentry
      · rw [hother q hq]
        exact hfresh.entry q hq
    · refine List.forall_mem_cons.mpr ⟨by rwa [Function.update_self], fun q hq => ?_⟩
      rw [hother q hq]
      exact hgrown.free (hfresh.free q hq)
    · refine List.forall_mem_cons.mpr ⟨?_, fun q hq => ?_⟩
      · rw [Function.update_self]
        exact ⟨(hlater.trans hmaps.grown).frames.subset hmem, hlt⟩
      · rw [hother q hq]
        exact hfresh.given q hq
    · intro p hp q hq heq
      rcases List.mem_cons.mp hp with hp | hp <;> rcases List.mem_cons.mp hq with hq | hq
      · rw [hp, hq]
      · rw [hp, Function.update_self, hother q hq] at heq
        exact absurd heq.symm (hdiff q hq)
      · rw [hq, Function.update_self, hother p hp] at heq
        exact absurd heq (hdiff p hp)
      · rw [hother p hp, hother q hq] at heq
        exact hfresh.distinct p hp q hq heq

end Loop

namespace MemoryState

/-! ### The call -/

variable {m m' : MemoryState} {id : SpaceId} {a : AddressSpace} {name : String}
  {pages : PageRange} {flags : PageTableFlags}

/-- What the call ran, if it ends. -/
lemma mapPages_eq_ok {res : Except MappingError Unit}
    (h : m.mapPages id a name pages flags = .ok (res, m')) :
    ∃ s', mapPagesLoop a.frame flags pages.pages (m.paging a) = .ok (res, s')
      ∧ m'.mem = s'.mem ∧ m'.owned = (m.put id a s').owned := by
  obtain ⟨⟨r, m₁⟩, hx, hy⟩ := ok_of_map h
  obtain ⟨s', hs, rfl⟩ := withPageTable_eq_ok hx
  cases r <;> cases hy <;> exact ⟨s', hs, rfl, rfl⟩

/-- **A success gives every page a new frame, and a page that is mapped is refused.** -/
structure MapsFresh (m : MemoryState) (id : SpaceId) (a : AddressSpace) (name : String)
    (pages : PageRange) (flags : PageTableFlags) : Prop where
  fresh : ∀ m', m.mapPages id a name pages flags = .ok (.ok (), m') → ∃ frameOf : Page → Frame,
    (∀ page ∈ pages.pages,
      translatePage m'.mem a.frame page = pure (frameOf page)
        ∧ pageEntry m'.mem a.frame page = some (.ofFrame (frameOf page) flags)
        ∧ m.frameAllocator.isAllocated (frameOf page).number = false
        ∧ frameOf page ∈ m'.owned id)
      ∧ ∀ p ∈ pages.pages, ∀ q ∈ pages.pages, p ≠ q → frameOf p ≠ frameOf q
  refused : (∃ page ∈ pages.pages, (m.leafOf id page).isSome) →
    ∃ page ∈ pages.pages, ∃ f m', m.leafOf id page = some f.baseAddr
      ∧ m.mapPages id a name pages flags = .ok (.error (.pageAlreadyMapped f), m')

/-- An entry for a frame of the memory is translated to it. -/
lemma translatePage_of_entry {mem : PhysMem} {r f : Frame} {page : Page} (hf : f.number < maxFrames)
    (h : pageEntry mem r page = some (.ofFrame f flags)) :
    translatePage mem r page = pure f :=
  translatePage_eq_pure.mpr ⟨_, h, usedFrame_ofFrame (physical_of_lt hf)⟩

/-- **Fresh frames**: whatever the address space and the range, `map_pages` gives every page a
frame of its own that it has just allocated and refuses a page that is mapped, naming the frame
it is mapped to, exactly if none of the pages is mapped yet. -/
theorem mapPages_fresh_iff (hm : m.Separated) (hz : m.frameAllocator.isAllocated 0 = true)
    (ha : m.spaces id = some a) :
    m.MapsFresh id a name pages flags ↔ ∀ page ∈ pages.pages, m.leafOf id page = none := by
  constructor
  · intro h page hpage
    rw [← Option.not_isSome_iff_eq_none]
    intro hsome
    obtain ⟨q, -, f, m', -, hcall⟩ := h.refused ⟨page, hpage, hsome⟩
    obtain ⟨s', hs, -⟩ := mapPages_eq_ok hcall
    exact mapPagesLoop_error hs f rfl
  · intro hnone
    refine ⟨fun m' hcall => ?_, ?_⟩
    · obtain ⟨s', hs, hmem, howned⟩ := mapPages_eq_ok hcall
      have hcount := mapPagesLoop_length (s := m.paging a) hm.roots.tidy.tables.hint hs
      have hlen : pages.pages.length ≤ 2 ^ 36 :=
        hcount.trans ((Bitmap.clearCount_le _ _).trans (by decide))
      have hno : ∀ page ∈ pages.pages, pageEntry m.mem a.frame page = none := by
        intro page hpage
        have hleaf := hnone page hpage
        rw [leafOf_of_root (rootOf_of_space ha)] at hleaf
        exact Option.map_eq_none_iff.mp hleaf
      have hapart := pages.pairwise_not_sameIndices hlen
      rw [List.take_length] at hapart
      obtain ⟨frameOf, hfresh⟩ := mapPagesLoop_fresh (s := m.paging a) hm.roots.tidy hz
        ⟨id, rootOf_of_space ha⟩ hapart hno hs
      refine ⟨frameOf, fun page hpage => ?_, fun p hp q hq hne heq =>
        hne (hfresh.distinct p hp q hq heq)⟩
      obtain ⟨hown, hlt⟩ := hfresh.given page hpage
      rw [hmem, howned, owned_put, Function.update_self]
      exact ⟨translatePage_of_entry hlt (hfresh.entry page hpage), hfresh.entry page hpage,
        hfresh.free page hpage, hown⟩
    · rintro ⟨page, hpage, hsome⟩
      rw [hnone page hpage] at hsome
      cases hsome

/-- Two pages of the kernel mappings. -/
def twoPages : PageRange := ⟨⟨2 ^ 52 - 2 ^ 28⟩, ⟨2 ^ 52 - 2 ^ 28 + 2⟩⟩

/-- What `map_pages` does with them. -/
def mapTwoPages (m : MemoryState) : Except Panic (Except MappingError Unit × MemoryState) :=
  match m.spaces .kernel with
  | some a => m.mapPages .kernel a "pages" twoPages (PageTableFlags.present.or .writable)
  | none => .error .mapPagesFrame

/-- On the roomy machine both pages get frames of their own. -/
theorem mapPages_fresh_roomy :
    (∃ m', mapTwoPages roomyMemory = .ok (.ok (), m'))
      ∧ roomyMemory.MapsFresh .kernel ⟨"", ⟨300000⟩, ⟨[]⟩⟩ "pages" twoPages
        (PageTableFlags.present.or .writable) := by
  constructor
  · obtain ⟨m', hm, -⟩ : ∃ m', mapTwoPages roomyMemory = .ok (.ok (), m') ∧ True := by
      decide +kernel
    exact ⟨m', hm⟩
  · refine (mapPages_fresh_iff roomyMemory_sound.separated roomyMemory_sound.zero rfl).mpr ?_
    intro page hpage
    exact roomyMemory_leafOf (by decide +revert +kernel)

/-- **A page mapped twice**: the second `map_pages` of the same pages succeeds, and the first page
is still mapped to the frame 256 that the first call has allocated. -/
theorem mapPages_twice :
    ∃ m₁ m₂ a, mapTwoPages roomyMemory = .ok (.ok (), m₁) ∧ m₁.spaces .kernel = some a
      ∧ mapTwoPages m₁ = .ok (.ok (), m₂)
      ∧ translatePage m₂.mem a.frame twoPages.start = pure ⟨256⟩
      ∧ m₁.frameAllocator.isAllocated 256 = true
      ∧ ¬m₁.MapsFresh .kernel a "pages" twoPages (PageTableFlags.present.or .writable) := by
  obtain ⟨m₁, hfirst, hused, a, ha, m₂, hsecond, hentry⟩ :
      ∃ m₁, mapTwoPages roomyMemory = .ok (.ok (), m₁) ∧ m₁.frameAllocator.isAllocated 256 = true
        ∧ ∃ a, m₁.spaces .kernel = some a ∧ ∃ m₂, mapTwoPages m₁ = .ok (.ok (), m₂)
          ∧ pageEntry m₂.mem a.frame twoPages.start
            = some (.ofFrame ⟨256⟩ (PageTableFlags.present.or .writable)) := by
    decide +kernel
  have htrans := translatePage_of_entry (by decide) hentry
  refine ⟨m₁, m₂, a, hfirst, ha, hsecond, htrans, hused, fun h => ?_⟩
  have hcall : mapTwoPages m₁ = m₁.mapPages .kernel a "pages" twoPages
      (PageTableFlags.present.or .writable) := by
    rw [mapTwoPages, ha]
  obtain ⟨frameOf, hpages, -⟩ := h.fresh m₂ (hcall ▸ hsecond)
  obtain ⟨hto, -, hfree, -⟩ := hpages twoPages.start (by decide +kernel)
  -- the frame of the first page is not a new one
  have hsame : (⟨256⟩ : Frame) = frameOf twoPages.start :=
    Except.ok.inj (Except.ok.inj (htrans.symm.trans hto))
  rw [← hsame, hused] at hfree
  cases hfree

end MemoryState

end Rhubarb
