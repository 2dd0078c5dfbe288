import Rhubarb.MemoryTypes.Progress
import Rhubarb.Memory.Separation
import Rhubarb.Memory.UserGrants

/-!
Mapping calls that succeed.

`map_to` fails on a page whose walk ends at a used entry, a leaf or a huge leaf, and when there
are no frames for tables; otherwise it succeeds.  Other pages stay unmapped, in the same address
space and in the others, so that the loops over pages succeed as well.

* `Walkable.mapTo_ok`, `Walkable.mapTo_dead`: `map_to` succeeds on unmapped pages only, and on
  all of them.
* `walkInvariant_dead`: a mapping call leaves the pages unmapped that are not its own.
* `mapPagesUntracked_ok`, `mapPagesUntracked_dead`, `mapKernelPagesTo_ok`: the calls.
-/

namespace Rhubarb

open Foundations Levels Level4PageTable Radix

/-! ### Ranges of pages -/

variable {q page : Page} {g : FrameAllocator} {n : ℕ} {a : ProxyAllocator} {flags : PageTableFlags}
  {roots : Set Frame} {res : Except MappingError Unit}

/-- Pages with the same indices are a multiple of `2 ^ 36` pages apart. -/
lemma Page.number_mod_of_indices {p : Page} (h : p.indices = q.indices) :
    p.number % 2 ^ 36 = q.number % 2 ^ 36 := by
  simp only [indices, List.cons.injEq, and_true] at h
  obtain ⟨h4, h3, h2, h1⟩ := h
  have e4 := congrArg Fin.val h4
  have e3 := congrArg Fin.val h3
  have e2 := congrArg Fin.val h2
  have e1 := congrArg Fin.val h1
  have hraw : ∀ x : Page, x.baseAddr.toRaw = x.number * 4096 % 2 ^ 64 := fun _ => rfl
  simp only [l4Index, l3Index, l2Index, l1Index, Address.l4Index, Address.l3Index,
    Address.l2Index, Address.l1Index, Address.indexAt_val, hraw] at e4 e3 e2 e1
  omega

/-- As many pages of a range as the address space has have different indices. -/
lemma PageRange.pairwise_indices_take (r : PageRange) (h : n ≤ 2 ^ 36) :
    (r.pages.take n).Pairwise fun p q => p.indices ≠ q.indices := by
  rw [List.pairwise_iff_getElem]
  intro i j hi hj hij hsame
  have hmod := Page.number_mod_of_indices hsame
  have hlen : j < n := hj.trans_le (List.length_take_le _ _)
  simp only [List.getElem_take, pages, List.getElem_map, List.getElem_range'] at hmod
  omega

lemma PageRange.pairwise_indices {r : PageRange} (h : r.stop.number - r.start.number ≤ 2 ^ 36) :
    r.pages.Pairwise fun p q => p.indices ≠ q.indices := by
  have htake := r.pairwise_indices_take h
  rwa [List.take_of_length_le (by simp [pages])] at htake

/-! ### Supplies of frames -/

instance Level4PageTable.Supplies.decidable {A : Type} [AllocateFrame A] :
    ∀ (n : ℕ) (a : A), Decidable (Supplies n a)
  | 0, _ => isTrue trivial
  | n + 1, a =>
    match hal : AllocateFrame.allocateFrame a with
    | (some f, a') =>
      have := Supplies.decidable n a'
      decidable_of_iff (Supplies n a') (by simp [Supplies, hal])
    | (none, _) => isFalse (by simp [Supplies, hal])

/-- An allocator does not supply more frames than there are. -/
lemma supplies_le (hint : g.nextFreeHint ≤ maxFrames) (h : Supplies n g) : n ≤ maxFrames := by
  suffices hclear : n ≤ g.clearCount from hclear.trans (Bitmap.clearCount_le _ _)
  induction n generalizing g with
  | zero => exact Nat.zero_le _
  | succ n ih =>
    obtain ⟨f, g', hal, hrest⟩ := h
    rcases g.allocateFrame_cases hint with heq | ⟨m, hm, hc, heq⟩
    · have hal : g.allocateFrame = (some f, g') := hal
      rw [heq] at hal
      cases hal
    · have hal : g.allocateFrame = (some f, g') := hal
      rw [heq] at hal
      cases hal
      have hcount := FrameAllocator.clearCount_markUsed hm hc
      have hle : n ≤ (g.take m).2.clearCount := ih hm hrest
      have htake : (g.take m).2.clearCount = (g.markUsed m).clearCount := rfl
      omega

/-- A proxy supplies what the allocator does. -/
lemma supplies_proxy_iff :
    Supplies n a ↔ Supplies n a.frameAllocator := by
  induction n generalizing a with
  | zero => exact Iff.rfl
  | succ n ih =>
    rcases hal : a.frameAllocator.allocateFrame with ⟨_ | f, g⟩
    · simp [Supplies, AllocateFrame.allocateFrame, FrameAllocatorProxy.allocateFrame, hal]
    · simp [Supplies, AllocateFrame.allocateFrame, FrameAllocatorProxy.allocateFrame, hal, ih]

lemma Level4PageTable.Supplies.mono {A : Type} [AllocateFrame A] {m : ℕ} {a : A} (h : Supplies m a)
    (hle : n ≤ m) : Supplies n a := by
  induction m with
  | zero =>
    obtain rfl := Nat.le_zero.mp hle
    exact h
  | succ m ih =>
    rcases Nat.lt_or_eq_of_le hle with hlt | rfl
    · exact ih h.of_succ (Nat.lt_succ_iff.mp hlt)
    · exact h

/-! ### Unmapped pages -/

section Dead

variable {mem mem' : PhysMem} {root t : Frame} {q is : List TableIndex} {i : TableIndex}

/-- A walk is dead if it is dead where a descent has arrived. -/
lemma dead_append_iff (h : descend view mem root q = .ok t) :
    Dead mem root (q ++ is) ↔ Dead mem t is := by
  rw [Dead, slots_append h]
  constructor
  · rintro ⟨slot, hs, hun⟩
    rcases List.mem_append.mp hs with hs | hs
    · exact absurd ⟨slot, hs, hun⟩ (not_dead_of_descend h)
    · exact ⟨slot, hs, hun⟩
  · rintro ⟨slot, hs, hun⟩
    exact ⟨slot, List.mem_append_right _ hs, hun⟩

/-- A mapped page stays mapped when an unused entry is written. -/
lemma not_dead_write (hlive : ¬Dead mem root is) (hun : (mem t i).isUnused = true)
    (e : PageTableEntry) : ¬Dead (write mem t i e) root is := by
  have hsame : ∀ slot ∈ slots mem root is, write mem t i e slot.1 slot.2 = mem slot.1 slot.2 := by
    intro slot hm
    refine write_of_ne ?_
    rintro ⟨rfl, rfl⟩
    exact hlive ⟨slot, hm, hun⟩
  rintro ⟨slot, hm, hun'⟩
  rw [slots_congr hsame] at hm
  rw [hsame slot hm] at hun'
  exact hlive ⟨slot, hm, hun'⟩

/-- The walk passes entries that lead where they led. -/
lemma slots_congr_table
    (h : ∀ slot ∈ slots mem t is, (mem' slot.1 slot.2).table = (mem slot.1 slot.2).table) :
    slots mem' t is = slots mem t is := by
  induction is generalizing t with
  | nil => rfl
  | cons i is ih =>
    have hhead : (mem' t i).table = (mem t i).table := h (t, i) mem_slots_head
    cases hg : (mem t i).table with
    | none => rw [slots_cons_none hg, slots_cons_none (hhead.trans hg)]
    | some g =>
      rw [slots_cons_some hg, slots_cons_some (hhead.trans hg), ih fun slot hm => ?_]
      exact h slot (by rw [slots_cons_some hg]; exact List.mem_cons_of_mem _ hm)

/-- An unmapped page stays unmapped when a used entry is written that leads where it led. -/
lemma Dead.write_used (h : Dead mem root is) (hused : (mem t i).isUnused = false)
    {e : PageTableEntry} (he : e.table = (mem t i).table) :
    Dead (write mem t i e) root is := by
  have hsame : ∀ slot ∈ slots mem root is,
      (write mem t i e slot.1 slot.2).table = (mem slot.1 slot.2).table := by
    intro slot _
    by_cases hslot : slot.1 = t ∧ slot.2 = i
    · rw [hslot.1, hslot.2, write_self, he]
    · rw [write_of_ne hslot]
  obtain ⟨slot, hm, hun⟩ := h
  refine ⟨slot, by rwa [slots_congr_table hsame], ?_⟩
  rw [write_of_ne, hun]
  rintro ⟨rfl, rfl⟩
  rw [hused] at hun
  cases hun

end Dead

/-! ### `map_to` -/

namespace Walkable

variable {A : Type} [AllocateFrame A] {J : PagingState A → Prop} {root t frame : Frame}
  {s₀ s s' : PagingState A} {flags : PageTableFlags} {page : Page} {q is : List TableIndex}
  {i : TableIndex} {n : ℕ}

/-- **A step down succeeds** on the way to a page that is not mapped. -/
lemma nextTable_ok (hphys : ∀ f a, AllocateFrame.allocateFrame s.allocator = (some f, a) →
      f.Physical)
    (hw : Walked J root flags s₀ q t s) (hdead : Dead s.mem root (q ++ i :: is))
    (hsup : Supplies (n + 1) s.allocator) (hp : flags.get .present = true)
    (hh : flags.get .hugePage = false) :
    ∃ g s', Level4PageTable.nextTable t i flags s = .ok (.ok g, s') ∧ Supplies n s'.allocator := by
  rcases dead_cons.mp ((dead_append_iff hw.arrived).mp hdead) with hun | ⟨g, hg, -⟩
  · obtain ⟨f, a, hf, hrest⟩ := hsup
    exact ⟨f, _, nextTable_unused hun hf (hphys f a hf) hp hh, hrest⟩
  · have hframe := PageTableEntry.table_eq_some.mp hg
    have hpres := (PageTableEntry.frame_eq_ok hframe).1
    exact ⟨g, _, nextTable_table (PageTableEntry.isUnused_of_isPresent hpres) hpres hframe hh,
      hsup.of_succ⟩

/-- The walk of `map_to` succeeds for a page that is not mapped. -/
lemma level1Table_ok (hJ : Walkable root J) (hphys : ∀ s f a, J s →
      AllocateFrame.allocateFrame s.allocator = (some f, a) → f.Physical)
    (h : J s) (hdead : Dead s.mem root page.indices) (hsup : Supplies (n + 3) s.allocator)
    (hp : flags.get .present = true) (hh : flags.get .hugePage = false) :
    ∃ g s', Level4PageTable.level1Table root page flags s = .ok (.ok g, s')
      ∧ Supplies n s'.allocator := by
  have h₀ := hJ.hierarchy h
  have hw : Walked J root flags s [] root s := Walked.start h
  have hq₁ : [] ++ [page.l4Index] <+: upperIndices page := ⟨_, rfl⟩
  have hq₂ : [page.l4Index] ++ [page.l3Index] <+: upperIndices page := ⟨_, rfl⟩
  obtain ⟨l3, s₁, h₁, hsup₁⟩ := nextTable_ok (fun f a => hphys s f a h) hw hdead hsup hp hh
  obtain ⟨hrew₁, hw₁⟩ := hw.nextTable hJ hh h₀ hq₁ h₁
  have hw₁ := hw₁ l3 rfl
  obtain ⟨l2, s₂, h₂, hsup₂⟩ := nextTable_ok (fun f a => hphys s₁ f a hw₁.inv) hw₁
    (hrew₁.dead hdead) hsup₁ hp hh
  obtain ⟨hrew₂, hw₂⟩ := hw₁.nextTable hJ hh h₀ hq₂ h₂
  have hw₂ := hw₂ l2 rfl
  obtain ⟨l1, s₃, h₃, hsup₃⟩ := nextTable_ok (fun f a => hphys s₂ f a hw₂.inv) hw₂
    (hrew₂.dead hdead) hsup₂ hp hh
  refine ⟨l1, s₃, ?_, hsup₃⟩
  rw [Level4PageTable.level1Table, Comp.bind_apply_ok h₁, Comp.bind_apply_ok h₂, h₃]

omit [AllocateFrame A] in
/-- The last entry of a walk that has arrived. -/
lemma dead_iff_unused (hw : Walked J root flags s₀ (upperIndices page) t s) :
    Dead s.mem root page.indices ↔ (s.mem t page.l1Index).isUnused = true := by
  have hsplit : page.indices = upperIndices page ++ [page.l1Index] := rfl
  rw [hsplit, dead_append_iff hw.arrived, dead_cons, or_iff_left]
  rintro ⟨g, -, slot, hs, -⟩
  cases hs

/-- **`map_to` succeeds** on a page that is not mapped, given three frames for tables. -/
lemma mapTo_ok (hJ : Walkable root J) (hphys : ∀ s f a, J s →
      AllocateFrame.allocateFrame s.allocator = (some f, a) → f.Physical)
    (h : J s) (hdead : Dead s.mem root page.indices) (hsup : Supplies (n + 3) s.allocator)
    (hframe : frame.Physical) (hp : flags.get .present = true)
    (hh : flags.get .hugePage = false) :
    ∃ s', Level4PageTable.mapTo root page frame flags s = .ok (.ok (), s')
      ∧ Supplies n s'.allocator := by
  have hh' := parentTableFlags_hugePage flags
  obtain ⟨l1, s₁, h₁, hsup₁⟩ := hJ.level1Table_ok hphys h hdead hsup
    ((parentTableFlags_get_present flags).trans hp) hh'
  obtain ⟨hrew, hw⟩ := hJ.level1Table_rewrites h hh' h₁
  have hu := (dead_iff_unused (hw l1 rfl)).mp (hrew.dead hdead)
  refine ⟨⟨write s₁.mem l1 page.l1Index (.ofFrame frame flags), s₁.allocator⟩, ?_, hsup₁⟩
  rw [mapTo_of_level1Table h₁, if_pos hu, PageTableEntry.setFrame_of_physical hframe hh]
  rfl

/-- **`map_to` succeeds on unmapped pages only**, and takes nothing from the mapped ones. -/
lemma mapTo_dead (hJ : Walkable root J) (h : J s)
    (hs : Level4PageTable.mapTo root page frame flags s = .ok (.ok (), s')) :
    Dead s.mem root page.indices
      ∧ ∀ p : Page, Dead s'.mem root p.indices → Dead s.mem root p.indices := by
  have hh := parentTableFlags_hugePage flags
  rcases mapTo_cases hs with ⟨y, -, hc⟩ | ⟨l1, s₁, h₁, ⟨-, hc, -⟩ | ⟨hun, -, rfl⟩⟩
  · cases hc
  · cases hc
  obtain ⟨hrew, hw⟩ := hJ.level1Table_rewrites h hh h₁
  have hback : ∀ p : Page, Dead s₁.mem root p.indices → Dead s.mem root p.indices := by
    intro p hp
    by_contra hc
    exact hrew.not_dead hc hp
  refine ⟨hback page ((dead_iff_unused (hw l1 rfl)).mpr hun), fun p hp => hback p ?_⟩
  by_contra hc
  exact not_dead_write hc hun _ hp

end Walkable

/-! ### What stays unmapped -/

section Others

variable {rootOf : SpaceId → Option Frame} {r b : Frame} {id id' : SpaceId} {q : Page}
  {pages : Page → Prop}

/-- Hanging a blank table below a table of any root leaves a page unmapped. -/
lemma Tidy.dead_link {mem : PhysMem} {d : ℕ} {t : Frame} {i : TableIndex} (h : Tidy mem g roots)
    (hb : b ∈ roots) (ht : Level (edges mem) roots d t) (hd : d < 3) (hn : n < maxFrames)
    (hc : g.isAllocated n = false) (hun : (mem t i).isUnused = true)
    (hg : (PageTableEntry.ofFrame ⟨n⟩ flags).frame = .ok (.ok ⟨n⟩)) (hdead : Dead mem b q.indices) :
    Dead (Radix.link mem t i (.ofFrame ⟨n⟩ flags) ⟨n⟩ .unused) b q.indices := by
  have hsub := Set.singleton_subset_iff.mpr hb
  have hfresh : ¬Node (edges mem) {b} 3 ⟨n⟩ := by
    rintro ⟨k, hk, hl⟩
    exact h.tables.fresh hn hc ⟨k, hk, level_mono hsub hl⟩
  by_cases hnode : Node (edges mem) {b} 3 t
  · obtain ⟨k, hk, hl⟩ := hnode
    obtain rfl := h.tables.levelled k d t hk hd.le (level_mono hsub hl) ht
    exact ((h.tables.hierarchy.mono hsub).rewrites_link hd hl hun
      (PageTableEntry.table_eq_some.mpr hg) hfresh).dead hdead
  · -- the walk passes neither the table nor the blank one
    have hroot : Level (edges mem) {b} 0 b := rfl
    have hsame : ∀ slot ∈ slots mem b q.indices,
        Radix.link mem t i (.ofFrame ⟨n⟩ flags) ⟨n⟩ .unused slot.1 slot.2 = mem slot.1 slot.2 := by
      intro slot hm
      obtain ⟨k, hk, hl⟩ := level_of_mem_slots hroot hm
      have hk : k < 4 := hk
      have hin : Node (edges mem) {b} 3 slot.1 := ⟨0 + k, by omega, hl⟩
      refine link_of_ne ?_ ?_
      · rintro hs
        exact hfresh (hs ▸ hin)
      · rintro ⟨hs, -⟩
        exact hnode (hs ▸ hin)
    obtain ⟨slot, hm, hun'⟩ := hdead
    exact ⟨slot, by rwa [slots_congr hsame], by rwa [hsame slot hm]⟩

/-- Writing the last entry of one page leaves another page unmapped, unless the two lead to the
same entry. -/
lemma Tidy.dead_leaf {mem : PhysMem} {t : Frame} (h : Tidy mem g roots) (hr : r ∈ roots)
    (hb : b ∈ roots) (hd : descend view mem r (upperIndices page) = .ok t)
    (hne : page.indices = q.indices → ∀ c, edges mem r page.l4Index = some c → edges mem b
      page.l4Index ≠ some c) (hdead : Dead mem b q.indices) (e : PageTableEntry) :
    Dead (write mem t page.l1Index e) b q.indices := by
  have hroot : Level (edges mem) roots 0 b := hb
  have ht : Level (edges mem) roots 3 t := level_of_mem hr hd
  -- the entry is not on the walk of the other page
  have haway : ∀ slot ∈ slots mem b q.indices, ¬(slot.1 = t ∧ slot.2 = page.l1Index) := by
    rintro slot hm ⟨rfl, hj⟩
    obtain ⟨p, rest, hsplit, hp⟩ := exists_descend_of_mem_slots hm
    have hlevel := level_of_descend hroot hp
    have hlen := congrArg List.length hsplit
    simp only [Page.indices, List.length_append, List.length_cons, List.length_nil] at hlen
    have hthree := h.tables.levelled (0 + p.length) 3 slot.1 (by omega) le_rfl hlevel ht
    obtain rfl : rest = [] := List.eq_nil_of_length_eq_zero (by omega)
    have hup : upperIndices q ++ [q.l1Index] = p ++ [slot.2] := hsplit
    obtain ⟨hpq, hl1⟩ := List.append_inj' hup rfl
    subst hpq
    obtain ⟨h4, hrest, c, hc, hc'⟩ := h.path_unique (q := [page.l3Index, page.l2Index])
      (p := [q.l3Index, q.l2Index]) hr hb (by simp) (by simp) hd hp
    have hupper : upperIndices page = upperIndices q := List.cons_eq_cons.mpr ⟨h4, hrest⟩
    refine hne ?_ c hc hc'
    show upperIndices page ++ [page.l1Index] = upperIndices q ++ [q.l1Index]
    rw [hupper, hl1, hj]
  have hsame : ∀ slot ∈ slots mem b q.indices,
      write mem t page.l1Index e slot.1 slot.2 = mem slot.1 slot.2 :=
    fun slot hm => write_of_ne (haway slot hm)
  obtain ⟨slot, hm, hun⟩ := hdead
  exact ⟨slot, by rwa [slots_congr hsame], by rwa [hsame slot hm]⟩

/-- **What is not mapped by a call stays unmapped**: the other pages of its address space, and
in the other address spaces all pages, as long as the call is under private indices. -/
lemma walkInvariant_dead (hr : rootOf id = some r) (hb : rootOf id' = some b)
    (hdist : ∀ id id' r, rootOf id = some r → rootOf id' = some r → id = id')
    (hpages : ∀ p, pages p → p.indices ≠ q.indices
      ∨ id ≠ id' ∧ MemoryState.sharedIndex p.l4Index = false) :
    WalkInvariant r pages fun s : PagingState ProxyAllocator =>
      (s.Tidy (rootSet rootOf) ∧ Private s.mem rootOf) ∧ Dead s.mem b q.indices := by
  have hW : WalkInvariant r pages fun s : PagingState ProxyAllocator =>
      s.Tidy (rootSet rootOf) ∧ Private s.mem rootOf :=
    walkInvariant_private hr hdist
  have hrmem : r ∈ rootSet rootOf := ⟨id, hr⟩
  have hbmem : b ∈ rootSet rootOf := ⟨id', hb⟩
  refine ⟨?_, ?_, ?_, ?_, ?_⟩
  · intro s f a hs hal
    exact ⟨hW.allocate hs.1 hal, hs.2⟩
  · intro s page p i t flags f a g hs hpage hp hd hun hal hg
    obtain ⟨hinv, hdesc⟩ := hW.link hs.1 hpage hp hd hun hal hg
    obtain ⟨n, hn, hc, rfl, rfl⟩ := proxyAllocator_some hs.1.1.tables.hint hal
    obtain rfl := frame_ofFrame_eq hn hg
    have hlen : p.length < 3 := length_lt_of_extends hp
    exact ⟨⟨hinv, hs.1.1.dead_link hbmem (level_rootSet hr hd) (by omega) hn hc hun hg hs.2⟩, hdesc⟩
  · intro s page p i t flags hs hpage hp hd hused hh
    obtain ⟨hinv, hdesc⟩ := hW.relabel hs.1 hpage hp hd hused hh
    have hlen : p.length < 3 := length_lt_of_extends hp
    have hfilled := hs.1.1.tables.filled p.length (by omega) t (level_rootSet hr hd) i
    exact ⟨⟨hinv, hs.2.write_used hused (table_withFlags hused hfilled hh)⟩, hdesc⟩
  · intro s page p i t flags hs hpage hp hd hhuge
    have hused := PageTableEntry.isUnused_of_isHugePage hhuge
    refine ⟨hW.huge hs.1 hpage hp hd hhuge, hs.2.write_used hused ?_⟩
    rw [table_of_isHugePage hhuge, table_of_isHugePage (isHugePage_setFlags_or _ flags)]
  · intro s page t e hs hpage hd
    refine ⟨hW.leaf hs.1 hpage hd, hs.1.1.dead_leaf hrmem hbmem hd (fun hsame c hc hc' => ?_)
      hs.2 e⟩
    rcases hpages page hpage with hne | ⟨hne, hi⟩
    · exact hne hsame
    · exact hs.1.2 id id' r b hr hb hne _ hi c hc hc'

end Others

/-! ### Loops over pages -/

section Loops

variable {rootOf : SpaceId → Option Frame} {r kroot : Frame} {id : SpaceId}
  {flags : PageTableFlags} {s s' : PagingState ProxyAllocator} {pages : List Page} {n : ℕ}

/-- The frames a proxy is given are physical. -/
lemma Tidy.physical (h : s.Tidy roots) {f : Frame}
    (hal : AllocateFrame.allocateFrame s.allocator = (some f, a)) : f.Physical := by
  obtain ⟨n, hn, -, rfl, -⟩ := proxyAllocator_some h.tables.hint hal
  exact physical_of_lt hn

/-- `map_to` keeps the tables tidy and the indices private, and leaves the other pages unmapped. -/
lemma mapTo_private {frame : Frame} (hr : rootOf id = some r)
    (hdist : ∀ id id' r, rootOf id = some r → rootOf id' = some r → id = id')
    (h : s.Tidy (rootSet rootOf)) (hpriv : Private s.mem rootOf)
    (hs : Level4PageTable.mapTo r page frame flags s = .ok (res, s')) :
    (s'.Tidy (rootSet rootOf) ∧ Private s'.mem rootOf)
      ∧ ∀ q : Page, page.indices ≠ q.indices → Dead s.mem r q.indices →
        Dead s'.mem r q.indices := by
  have hW : WalkInvariant r (fun _ => True) fun s : PagingState ProxyAllocator =>
      s.Tidy (rootSet rootOf) ∧ Private s.mem rootOf :=
    walkInvariant_private hr hdist
  refine ⟨hW.mapTo frame flags ⟨h, hpriv⟩ trivial _ _ hs, fun q hne hdead => ?_⟩
  have hD : WalkInvariant r (· = page) fun s : PagingState ProxyAllocator =>
      (s.Tidy (rootSet rootOf) ∧ Private s.mem rootOf) ∧ Dead s.mem r q.indices :=
    walkInvariant_dead hr hr hdist fun p hp => .inl (hp ▸ hne)
  exact (hD.mapTo frame flags ⟨⟨h, hpriv⟩, hdead⟩ rfl _ _ hs).2

/-- **`map_pages_untracked` succeeds** on pages that are not mapped, given four frames for each
of them. -/
lemma mapPagesUntrackedLoop_ok (hr : rootOf id = some r)
    (hdist : ∀ id id' r, rootOf id = some r → rootOf id' = some r → id = id')
    (h : s.Tidy (rootSet rootOf)) (hpriv : Private s.mem rootOf)
    (hp : flags.get .present = true) (hh : flags.get .hugePage = false)
    (hapart : pages.Pairwise fun p q => p.indices ≠ q.indices)
    (hdead : ∀ page ∈ pages, Dead s.mem r page.indices)
    (hsup : Supplies (4 * pages.length + n) s.allocator) :
    ∃ s', mapPagesUntrackedLoop r flags pages s = .ok (.ok (), s') ∧ Supplies n s'.allocator := by
  have hrmem : r ∈ rootSet rootOf := ⟨id, hr⟩
  induction pages generalizing s with
  | nil => exact ⟨s, rfl, hsup.mono (by simp)⟩
  | cons page pages ih =>
    obtain ⟨hpage, hrest⟩ := List.pairwise_cons.mp hapart
    rw [show 4 * (page :: pages).length + n = 4 * pages.length + n + 3 + 1 by
      rw [List.length_cons]; omega] at hsup
    obtain ⟨f, a, hal, hsup₁⟩ := hsup
    have hW : WalkInvariant r (fun _ => True) (·.Tidy (rootSet rootOf)) := walkInvariant_tidy hrmem
    have htidy : Tidy s.mem a.frameAllocator (rootSet rootOf) := hW.allocate h hal
    obtain ⟨s₂, hmap, hsup₂⟩ := (walkable_tidy hrmem).mapTo_ok (s := ⟨s.mem, a⟩)
      (fun s f a h hal => Tidy.physical h hal) htidy (hdead page List.mem_cons_self) hsup₁
      (h.physical hal) hp hh
    obtain ⟨⟨htidy₂, hpriv₂⟩, hothers⟩ := mapTo_private (s := ⟨s.mem, a⟩) hr hdist htidy hpriv hmap
    -- the other pages are still unmapped
    have hkept : ∀ p ∈ pages, Dead s₂.mem r p.indices := fun p hp =>
      hothers p (hpage p hp) (hdead p (List.mem_cons_of_mem _ hp))
    obtain ⟨s', hs', hsup'⟩ := ih htidy₂ hpriv₂ hrest hkept hsup₂
    refine ⟨s', ?_, hsup'⟩
    rw [mapPagesUntrackedLoop, Comp.bind_apply_ok (unwrapFrame_apply hal),
      Comp.bind_apply_ok hmap, hs']

/-- `map_pages_untracked` succeeds on unmapped pages only. -/
lemma mapPagesUntrackedLoop_dead (hr : r ∈ roots) (h : s.Tidy roots)
    (hs : mapPagesUntrackedLoop r flags pages s = .ok (.ok (), s')) :
    ∀ page ∈ pages, Dead s.mem r page.indices := by
  induction pages generalizing s with
  | nil => nofun
  | cons page pages ih =>
    rcases Comp.bind_eq_ok hs with ⟨f, s₁, h₁, hs₁⟩ | ⟨x, s₁, -, hx⟩
    swap
    · cases hx
    obtain ⟨f', a, hal, -, rfl⟩ := unwrapFrame_eq_ok h₁
    rcases Comp.bind_eq_ok hs₁ with ⟨u, s₂, hmap, hs₂⟩ | ⟨x, s₂, -, hx⟩
    swap
    · cases hx
    have hW : WalkInvariant r (fun _ => True) (·.Tidy roots) := walkInvariant_tidy hr
    have htidy : Tidy s.mem a.frameAllocator roots := hW.allocate h hal
    obtain ⟨hfirst, hback⟩ := (walkable_tidy hr).mapTo_dead htidy hmap
    intro p hp
    rcases List.mem_cons.mp hp with rfl | hp
    · exact hfirst
    · exact hback p (ih (hW.mapTo f flags htidy trivial _ _ hmap) hs₂ p hp)

/-- **`map_kernel_pages_to` succeeds** on pages that are not mapped, with the frames of kernel
pages, given three frames for each of them. -/
lemma mapKernelPagesLoop_ok {pairs : List (Page × Page)} (hr : rootOf id = some r)
    (hk : kroot ∈ rootSet rootOf)
    (hdist : ∀ id id' r, rootOf id = some r → rootOf id' = some r → id = id')
    (h : s.Tidy (rootSet rootOf)) (hpriv : Private s.mem rootOf)
    (hp : flags.get .present = true) (hh : flags.get .hugePage = false)
    (hapart : pairs.Pairwise fun p q => p.1.indices ≠ q.1.indices)
    (hdead : ∀ p ∈ pairs, Dead s.mem r p.1.indices)
    (hkernel : ∀ p ∈ pairs, ∃ f : Frame, f.Physical ∧ translatePage s.mem kroot p.2 = pure f)
    (hsup : Supplies (3 * pairs.length + n) s.allocator) :
    ∃ s', mapKernelPagesLoop kroot r flags pairs s = .ok (.ok (), s')
      ∧ Supplies n s'.allocator := by
  have hrmem : r ∈ rootSet rootOf := ⟨id, hr⟩
  induction pairs generalizing s with
  | nil => exact ⟨s, rfl, hsup.mono (by simp)⟩
  | cons pair pairs ih =>
    obtain ⟨page, kernelPage⟩ := pair
    obtain ⟨hpage, hrest⟩ := List.pairwise_cons.mp hapart
    rw [show 3 * ((page, kernelPage) :: pairs).length + n = 3 * pairs.length + n + 3 by
      rw [List.length_cons]; omega] at hsup
    obtain ⟨f, hphys, htrans⟩ := hkernel _ List.mem_cons_self
    have hframe : kernelFrame kroot kernelPage s = .ok (.ok f, s) := by
      rw [kernelFrame, Comp.bind_apply_ok (Comp.read_apply s), htrans]
      rfl
    obtain ⟨s₂, hmap, hsup₂⟩ := (walkable_tidy hrmem).mapTo_ok
      (fun s f a h hal => Tidy.physical h hal) h (hdead _ List.mem_cons_self) hsup hphys hp hh
    obtain ⟨⟨htidy₂, hpriv₂⟩, hothers⟩ := mapTo_private hr hdist h hpriv hmap
    have hkept : ∀ p ∈ pairs, Dead s₂.mem r p.1.indices := fun p hp =>
      hothers p.1 (hpage p hp) (hdead p (List.mem_cons_of_mem _ hp))
    have hto := h.mapTo_inserted hrmem hmap
    have hkernel₂ : ∀ p ∈ pairs, ∃ f : Frame, f.Physical
        ∧ translatePage s₂.mem kroot p.2 = pure f := by
      intro p hp
      obtain ⟨f', hphys', htrans'⟩ := hkernel p (List.mem_cons_of_mem _ hp)
      exact ⟨f', hphys', hto.inserted.translatePage_kept hk htrans'⟩
    obtain ⟨s', hs', hsup'⟩ := ih htidy₂ hpriv₂ hrest hkept hkernel₂ hsup₂
    refine ⟨s', ?_, hsup'⟩
    rw [mapKernelPagesLoop, Comp.bind_apply_ok hframe, Comp.bind_apply_ok hmap, hs']

end Loops

/-! ### Calls on an address space -/

namespace MemoryState

variable {m m' : MemoryState} {id : SpaceId} {a : AddressSpace} {pages : PageRange}
  {flags : PageTableFlags} {n : ℕ}

lemma withPageTable_ok {c : Comp Panic (PagingState ProxyAllocator) MappingError Unit}
    {s' : PagingState ProxyAllocator} (h : c (m.paging a) = .ok (res, s')) :
    m.withPageTable id a c = .ok (res, m.put id a s') := by
  rw [withPageTable, h]

/-- **`map_pages_untracked` succeeds** on pages that are not mapped, given four frames for each
of them, and the pages have frames afterwards. -/
lemma mapPagesUntracked_ok (hm : m.Separated) (hz : m.frameAllocator.isAllocated 0 = true)
    (ha : m.spaces id = some a) (hp : flags.get .present = true)
    (hh : flags.get .hugePage = false)
    (hapart : pages.pages.Pairwise fun p q => p.indices ≠ q.indices)
    (hdead : ∀ page ∈ pages.pages, Dead m.mem a.frame page.indices)
    (hsup : Supplies (4 * pages.pages.length + n) m.frameAllocator) :
    ∃ m', m.mapPagesUntracked id a pages flags = .ok (.ok (), m')
      ∧ Supplies n m'.frameAllocator
      ∧ ∀ page ∈ pages.pages, ∃ f : Frame, f.Physical
        ∧ translatePage m'.mem a.frame page = pure f := by
  have hra := rootOf_of_space ha
  have hroot : a.frame ∈ rootSet m.rootOf := ⟨id, hra⟩
  obtain ⟨s', hs', hsup'⟩ := mapPagesUntrackedLoop_ok (s := m.paging a) hra hm.roots.distinct
    hm.roots.tidy hm.priv hp hh hapart hdead (supplies_proxy_iff.mpr hsup)
  refine ⟨_, withPageTable_ok hs', supplies_proxy_iff.mp hsup', fun page hpage => ?_⟩
  obtain ⟨hmaps, hnone⟩ :=
    hm.roots.tidy.mapPagesUntrackedLoop_inserted (s := m.paging a) hz hroot hs'
  obtain ⟨e, he⟩ := Option.isSome_iff_exists.mp (hmaps.mapped rfl page hpage)
  -- the entry is new, so it was made from a frame that was given
  have hnew : ∃ f : Frame, f.Physical ∧ e = .ofFrame f flags := by
    rcases hmaps.inserted.added a.frame hroot _ _ e rfl he with hold | ⟨-, ⟨-, f, -, hlt, -, hf⟩, -⟩
    · have hold : pageEntry (m.paging a).mem a.frame page = some e := hold
      rw [hnone rfl page hpage] at hold
      cases hold
    · exact ⟨f, physical_of_lt hlt, hf⟩
  obtain ⟨f, hphys, rfl⟩ := hnew
  exact ⟨f, hphys, translatePage_eq_pure.mpr ⟨_, he, usedFrame_ofFrame hphys⟩⟩

/-- `map_pages_untracked` succeeds on unmapped pages only. -/
lemma mapPagesUntracked_dead (hm : m.Separated) (ha : m.spaces id = some a)
    (h : m.mapPagesUntracked id a pages flags = .ok (.ok (), m')) :
    ∀ page ∈ pages.pages, Dead m.mem a.frame page.indices := by
  obtain ⟨s', hs, rfl⟩ := withPageTable_eq_ok h
  have hroot : a.frame ∈ rootSet m.rootOf := ⟨id, rootOf_of_space ha⟩
  exact mapPagesUntrackedLoop_dead (s := m.paging a) hroot hm.roots.tidy hs

/-- A call under private indices leaves the pages of other address spaces unmapped. -/
lemma mapPagesUntracked_others {id' : SpaceId} {b : AddressSpace} (hm : m.Separated)
    (ha : m.spaces id = some a) (hb : m.spaces id' = some b) (hid : id ≠ id')
    (hpriv : ∀ page ∈ pages.pages, sharedIndex page.l4Index = false)
    (hdead : Dead m.mem b.frame q.indices)
    (h : m.mapPagesUntracked id a pages flags = .ok (res, m')) : Dead m'.mem b.frame q.indices := by
  obtain ⟨s', hs, rfl⟩ := withPageTable_eq_ok h
  have hW : WalkInvariant a.frame (· ∈ pages.pages) fun s : PagingState ProxyAllocator =>
      (s.Tidy (rootSet m.rootOf) ∧ Private s.mem m.rootOf) ∧ Dead s.mem b.frame q.indices :=
    walkInvariant_dead (rootOf_of_space ha) (rootOf_of_space hb) hm.roots.distinct
      fun p hp => .inr ⟨hid, hpriv p hp⟩
  exact (walks_mapPagesUntrackedLoop _ _ _ _ hW (m.paging a)
    ⟨⟨hm.roots.tidy, hm.priv⟩, hdead⟩ _ _ hs).2

/-- **`map_kernel_pages_to` succeeds** on pages of a process that are not mapped. -/
lemma mapKernelPagesTo_ok {i : ℕ} {kernel : AddressSpace} {kernelPages : PageRange}
    (hm : m.Separated) (ha : m.spaces (.process i) = some a)
    (hkernel : m.spaces .kernel = some kernel) (hp : flags.get .present = true)
    (hh : flags.get .hugePage = false) (hlen : kernelPages.pages.length = pages.pages.length)
    (hapart : pages.pages.Pairwise fun p q => p.indices ≠ q.indices)
    (hdead : ∀ page ∈ pages.pages, Dead m.mem a.frame page.indices)
    (hframes : ∀ page ∈ kernelPages.pages, ∃ f : Frame, f.Physical
      ∧ translatePage m.mem kernel.frame page = pure f)
    (hsup : Supplies (3 * pages.pages.length) m.frameAllocator) :
    ∃ s', m.mapKernelPagesTo (.process i) a kernelPages pages flags
      = .ok (.ok (), m.put (.process i) a s') := by
  have hzip : (pages.pages.zip kernelPages.pages).map Prod.fst = pages.pages :=
    List.map_fst_zip hlen.ge
  have hlength : (pages.pages.zip kernelPages.pages).length = pages.pages.length := by
    rw [← List.length_map (f := Prod.fst), hzip]
  have hpairs : (pages.pages.zip kernelPages.pages).Pairwise
      fun p q => p.1.indices ≠ q.1.indices := by
    rwa [← hzip, List.pairwise_map] at hapart
  obtain ⟨s', hs', -⟩ := mapKernelPagesLoop_ok (n := 0) (s := m.paging a) (rootOf_of_space ha)
    ⟨.kernel, rootOf_of_space hkernel⟩ hm.roots.distinct hm.roots.tidy hm.priv hp hh hpairs
    (fun p hpair => hdead p.1 (List.of_mem_zip hpair).1)
    (fun p hpair => hframes p.2 (List.of_mem_zip hpair).2)
    (supplies_proxy_iff.mpr (by rw [hlength]; exact hsup))
  refine ⟨s', ?_⟩
  have hkernel' : m.kernelAddressSpace = .ok kernel := by rw [kernelAddressSpace, hkernel]
  rw [mapKernelPagesTo, if_neg (not_not.mpr hlen), if_neg (by simp), hkernel']
  exact withPageTable_ok hs'

end MemoryState

end Rhubarb
