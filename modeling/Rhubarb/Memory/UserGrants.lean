import Rhubarb.Memory.WalkTurns

/-!
When a page is present and accessible from user mode at every level.

`map_to` gives the permissions it is asked for on the whole walk of its page and takes none
away from other pages; `set_flags` gives them on the walks of the pages at which it stops, and
maps nothing.

* `Walkable.mapKernelPagesLoop_accessible`: every page that was mapped is accessible.
* `Walkable.setFlags_accessible_iff`: when a page is accessible after `set_flags`.
-/

namespace Rhubarb

open Foundations Level4PageTable Levels

/-- **Present and accessible from user mode at every level.** -/
def Accessible (mem : PhysMem) (root : Frame) (page : Page) : Prop :=
  ∀ slot ∈ slots mem root page.indices, grants (mem slot.1 slot.2) = true

instance (mem : PhysMem) (root : Frame) (page : Page) : Decidable (Accessible mem root page) :=
  inferInstanceAs (Decidable (∀ slot ∈ slots mem root page.indices, _))

/-- Flags that open a page to user mode. -/
def PageTableFlags.Opens (flags : PageTableFlags) : Prop :=
  flags.get .present = true ∧ flags.get .userAccessible = true

section Grants

variable {flags : PageTableFlags} {e : PageTableEntry}

lemma grants_iff : grants e = true ↔ ∀ p : Permission, p ≠ .writable →
    e.flags.get p.flag = true := by
  rw [grants, Bool.and_eq_true]
  constructor
  · rintro ⟨hp, hu⟩ p hne
    cases p with
    | present => exact hp
    | writable => exact absurd rfl hne
    | userAccessible => exact hu
  · intro h
    exact ⟨h .present nofun, h .userAccessible nofun⟩

lemma PageTableFlags.Opens.get (h : flags.Opens) {p : Permission} (hp : p ≠ .writable) :
    flags.get p.flag = true := by
  cases p with
  | present => exact h.1
  | writable => exact absurd rfl hp
  | userAccessible => exact h.2

lemma PageTableFlags.Opens.parent (h : flags.Opens) : (parentTableFlags flags).Opens :=
  ⟨(Permission.get_parentTableFlags .present flags).trans h.1,
    (Permission.get_parentTableFlags .userAccessible flags).trans h.2⟩

lemma PageTableFlags.Opens.flagsFor (h : flags.Opens) (l : Leaf) : (l.flagsFor flags).Opens := by
  rw [Leaf.flagsFor]
  split
  · exact h
  · exact ⟨by rw [get_present_or, h.1, Bool.true_or],
      by rw [get_userAccessible_or, h.2, Bool.true_or]⟩

lemma grants_withFlags (h : grants e = true) (flags : PageTableFlags) :
    grants (withFlags e flags) = true := by
  rw [grants_iff] at h ⊢
  intro p hp
  rw [p.get_withFlags, h p hp, Bool.true_or]

lemma grants_withFlags_of_opens (h : flags.Opens) (e : PageTableEntry) :
    grants (withFlags e flags) = true :=
  grants_iff.mpr fun p hp => by rw [p.get_withFlags, h.get hp, Bool.or_true]

lemma grants_setFlags_of_opens (h : flags.Opens) (e : PageTableEntry) :
    grants (e.setFlags flags) = true :=
  grants_iff.mpr fun p hp => by rw [p.get_setFlags, h.get hp]

lemma grants_ofFrame_of_opens (h : flags.Opens) (f : Frame) :
    grants (PageTableEntry.ofFrame f flags) = true :=
  grants_iff.mpr fun p hp => by rw [p.get_ofFrame, h.get hp]

lemma isUnused_of_grants (h : grants e = true) : e.isUnused = false :=
  PageTableEntry.isUnused_of_isPresent (Bool.and_eq_true_iff.mp h).1

end Grants

section Walks

variable {mem mem' : PhysMem} {root t : Frame} {i : TableIndex} {page stop : Page}
  {flags : PageTableFlags}

/-- A page that is accessible is mapped. -/
lemma Accessible.not_dead (h : Accessible mem root page) : ¬Dead mem root page.indices := by
  rintro ⟨slot, hm, hun⟩
  rw [isUnused_of_grants (h slot hm)] at hun
  cases hun

/-- What is on the walk of a page is on its upper part, or is its leaf in a level-1 table. -/
lemma mem_slots_indices (hused : (mem t i).isUnused = false) :
    (t, i) ∈ slots mem root page.indices
      ↔ (t, i) ∈ slots mem root (upperIndices page) ∨ leaf mem root page = some ⟨0, t, i⟩ := by
  have hindices : page.indices = upperIndices page ++ [page.l1Index] := rfl
  have hsplit : [page.l3Index, page.l2Index] ++ [page.l1Index]
      = [page.l3Index, page.l2Index, page.l1Index] := rfl
  rw [hindices]
  cases hd : Radix.descend view mem root (upperIndices page) with
  | error x =>
    rw [slots_append_of_error hd]
    refine ⟨.inl, fun h => h.resolve_right fun hl => ?_⟩
    obtain ⟨q, rest, hq, hd', hlevel, -⟩ := exists_descend_of_leaf hl
    obtain rfl : rest = [] := List.length_eq_zero_iff.mp hlevel.symm
    obtain ⟨hq, -⟩ := List.append_inj' (hsplit.trans hq) rfl
    rw [← hq] at hd'
    rw [show upperIndices page = page.l4Index :: [page.l3Index, page.l2Index] from rfl, hd'] at hd
    cases hd
  | ok l1 =>
    rw [slots_append hd, slots_singleton, List.mem_append, List.mem_singleton,
      leaf_of_descend hd hsplit (by simp), leafBelow]
    refine or_congr_right ⟨?_, ?_⟩
    · rintro ⟨rfl, rfl⟩
      rw [hused]
      rfl
    · intro hl
      split_ifs at hl
      cases hl
      rfl

/-- What a turn of `set_flags` opens. -/
lemma grants_turned (h : flags.Opens) (hused : (mem t i).isUnused = false) (e : PageTableEntry) :
    grants (turned mem root stop flags t i e) = true
      ↔ grants e = true ∨ (t, i) ∈ slots mem root stop.indices := by
  have hwide : grants (widened mem root (upperIndices stop) (parentTableFlags flags) t i e) = true
      ↔ grants e = true ∨ (t, i) ∈ slots mem root (upperIndices stop) := by
    rw [widened]
    split
    · next hm => simp [hm, grants_withFlags_of_opens h.parent]
    · next hm => simp [hm]
  rw [mem_slots_indices hused]
  cases hl : leaf mem root stop with
  | none =>
    rw [turned, hl]
    simpa using hwide
  | some l =>
    rw [turned_of_leaf hl]
    by_cases hslot : t = l.table ∧ i = l.index
    · rw [if_pos hslot]
      have hm := (mem_slots_indices hused).mp (hslot.1 ▸ hslot.2 ▸ mem_slots_of_leaf hl)
      rw [hl] at hm
      exact iff_of_true (grants_setFlags_of_opens (h.flagsFor l) e) (.inr hm)
    · have hne : l ≠ ⟨0, t, i⟩ := by
        rintro rfl
        exact hslot ⟨rfl, rfl⟩
      rw [if_neg hslot, hwide]
      simp [hne]

/-- What several turns open. -/
lemma grants_turnedAll (h : flags.Opens) (hused : (mem t i).isUnused = false)
    (pages : List Page) (e : PageTableEntry) :
    grants (turnedAll mem root flags pages t i e) = true
      ↔ grants e = true ∨ ∃ stop ∈ pages, (t, i) ∈ slots mem root stop.indices := by
  induction pages generalizing e with
  | nil => simp [turnedAll]
  | cons stop pages ih =>
    rw [turnedAll_cons, ih, grants_turned h hused, or_assoc]
    simp

/-- A change that keeps what is granted keeps a page accessible. -/
lemma Accessible.rewrites {f : Frame → TableIndex → PageTableEntry → PageTableEntry}
    (h : Accessible mem root page) (hrew : Rewrites root f mem mem')
    (hf : ∀ t i e, grants e = true → grants (f t i e) = true) : Accessible mem' root page := by
  intro slot hm
  rw [hrew.slots_eq h.not_dead] at hm
  rw [hrew.entry_of_mem h.not_dead hm]
  exact hf _ _ _ (h slot hm)

lemma slots_congr {is : List TableIndex}
    (h : ∀ slot ∈ slots mem t is, mem' slot.1 slot.2 = mem slot.1 slot.2) :
    slots mem' t is = slots mem t is := by
  induction is generalizing t with
  | nil => rfl
  | cons i is ih =>
    have hhead : mem' t i = mem t i := h (t, i) mem_slots_head
    cases hg : (mem t i).table with
    | none => rw [slots_cons_none hg, slots_cons_none (by rw [hhead, hg])]
    | some g =>
      rw [slots_cons_some hg, slots_cons_some (by rw [hhead, hg]), ih fun slot hm => ?_]
      exact h slot (by rw [slots_cons_some hg]; exact List.mem_cons_of_mem _ hm)

/-- A page stays accessible when an unused entry is written. -/
lemma Accessible.write (h : Accessible mem root page) (hun : (mem t i).isUnused = true)
    (e : PageTableEntry) : Accessible (Radix.write mem t i e) root page := by
  have hsame : ∀ slot ∈ slots mem root page.indices,
      Radix.write mem t i e slot.1 slot.2 = mem slot.1 slot.2 := by
    intro slot hm
    refine Radix.write_of_ne ?_
    rintro ⟨rfl, rfl⟩
    exact h.not_dead ⟨slot, hm, hun⟩
  intro slot hm
  rw [slots_congr hsame] at hm
  rw [hsame slot hm]
  exact h slot hm

end Walks

namespace Walkable

variable {A : Type} [AllocateFrame A] {J : PagingState A → Prop} {root : Frame}
  {s s' : PagingState A} {flags : PageTableFlags} {page q : Page} {frame : Frame}

/-- `map_to` takes no permission from another page. -/
lemma mapTo_accessible_of (hJ : Walkable root J) (h : J s) (hq : Accessible s.mem root q)
    {res : Except MappingError Unit} (hs : mapTo root page frame flags s = .ok (res, s')) :
    Accessible s'.mem root q := by
  have hh := parentTableFlags_hugePage flags
  have hwide : ∀ t i e, grants e = true → grants (widened s.mem root (upperIndices page)
      (parentTableFlags flags) t i e) = true := by
    intro t i e he
    rw [widened]
    split
    · exact grants_withFlags he _
    · exact he
  rcases mapTo_cases hs with ⟨y, h₁, -⟩ | ⟨l1, s₁, h₁, ⟨-, -, rfl⟩ | ⟨hun, -, rfl⟩⟩
  · exact hq.rewrites (hJ.level1Table_rewrites h hh h₁).1 hwide
  · exact hq.rewrites (hJ.level1Table_rewrites h hh h₁).1 hwide
  · exact (hq.rewrites (hJ.level1Table_rewrites h hh h₁).1 hwide).write hun _

/-- **A page that was mapped is accessible.** -/
lemma mapTo_accessible (hJ : Walkable root J) (h : J s) (hflags : flags.Opens)
    (hs : mapTo root page frame flags s = .ok (.ok (), s')) :
    J s' ∧ Accessible s'.mem root page := by
  have hh := parentTableFlags_hugePage flags
  rcases mapTo_cases hs with ⟨y, -, hc⟩ | ⟨l1, s₁, h₁, ⟨-, hc, -⟩ | ⟨-, -, rfl⟩⟩
  · cases hc
  · cases hc
  have hw := (hJ.level1Table_rewrites h hh h₁).2 l1 rfl
  have hlevel : Level (edges s₁.mem) {root} 3 l1 := level_of_descend_root hw.arrived
  have hh₁ := hJ.hierarchy hw.inv
  refine ⟨hJ.writeLeaf hw.inv hlevel, ?_⟩
  show Accessible (Radix.write s₁.mem l1 page.l1Index (.ofFrame frame flags)) root page
  -- the upper part of the walk is in tables above the one that is written
  have hsame : ∀ slot ∈ slots s₁.mem root (upperIndices page),
      Radix.write s₁.mem l1 page.l1Index (.ofFrame frame flags) slot.1 slot.2
        = s₁.mem slot.1 slot.2 := by
    intro slot hm
    have hroot : Level (edges s₁.mem) {root} 0 root := rfl
    obtain ⟨k, hk, hl⟩ := level_of_mem_slots hroot hm
    have hk : k < 3 := hk
    exact Radix.write_of_ne fun hc => hh₁.ne_of_level hlevel (by omega) hl hc.1
  have hdesc : Radix.descend view
      (Radix.write s₁.mem l1 page.l1Index (.ofFrame frame flags)) root (upperIndices page)
        = .ok l1 := by
    rw [← hw.arrived]
    refine Radix.descend_congr fun q' j hq' u hu => ?_
    have hlen : q'.length < 3 := Radix.length_lt_of_extends hq'
    have hne := hh₁.ne_of_level hlevel (by omega) (level_of_descend_root hu)
    rw [Radix.write_of_ne fun hc => hne hc.1]
  intro slot hm
  rw [show page.indices = upperIndices page ++ [page.l1Index] from rfl, slots_append hdesc,
    slots_singleton, slots_congr hsame, List.mem_append, List.mem_singleton] at hm
  rcases hm with hm | rfl
  · rw [hsame slot hm]
    exact grants_iff.mpr fun p hp => hw.given slot hm p (hflags.parent.get hp)
  · rw [Radix.write_self]
    exact grants_ofFrame_of_opens hflags frame

/-- The pages that `map_kernel_pages_to` mapped are accessible, and so are those that were. -/
lemma mapKernelPagesLoop_accessible (hJ : Walkable root J) (hflags : flags.Opens)
    {kernelRoot : Frame} {pages : List (Page × Page)} (h : J s)
    (hs : mapKernelPagesLoop kernelRoot root flags pages s = .ok (.ok (), s')) :
    (∀ q, Accessible s.mem root q → Accessible s'.mem root q)
      ∧ ∀ p ∈ pages, Accessible s'.mem root p.1 := by
  induction pages generalizing s with
  | nil =>
    cases hs
    exact ⟨fun _ hq => hq, nofun⟩
  | cons p pages ih =>
    rcases Comp.bind_eq_ok hs with ⟨frame, s₁, hframe, hs₁⟩ | ⟨x, s₁, -, hx⟩
    swap
    · cases hx
    obtain ⟨rfl, -⟩ := kernelFrame_eq_ok hframe
    rcases Comp.bind_eq_ok hs₁ with ⟨u, s₂, hmap, hs₂⟩ | ⟨x, s₂, -, hx⟩
    swap
    · cases hx
    obtain ⟨hJ₂, hacc⟩ := hJ.mapTo_accessible h hflags hmap
    obtain ⟨hkept, hall⟩ := ih hJ₂ hs₂
    refine ⟨fun q hq => hkept q (hJ.mapTo_accessible_of h hq hmap), fun p' hp' => ?_⟩
    rcases List.mem_cons.mp hp' with rfl | hp'
    · exact hkept _ hacc
    · exact hall p' hp'

/-- **When a page is accessible after `set_flags`**: it was mapped, and each entry on its walk
granted access before or is on the walk of a page at which the loop stopped. -/
lemma setFlags_accessible_iff (hJ : Walkable root J) (h : J s) (hflags : flags.Opens)
    {pages : PageRange} (hs : setFlags root pages flags s = .ok (.ok (), s')) :
    Accessible s'.mem root page ↔ ¬Dead s.mem root page.indices
      ∧ ∀ slot ∈ slots s.mem root page.indices, grants (s.mem slot.1 slot.2) = true
        ∨ ∃ stop ∈ stops s.mem root 0 pages.pages, slot ∈ slots s.mem root stop.indices := by
  obtain ⟨-, hrew⟩ := (hJ.setFlagsLoop_rewrites h hflags.1 hs).1 rfl
  by_cases hdead : Dead s.mem root page.indices
  · exact iff_of_false (fun hacc => hacc.not_dead (hrew.dead hdead)) fun hc => hc.1 hdead
  rw [Accessible, hrew.slots_eq hdead, and_iff_right hdead]
  refine forall₂_congr fun slot hm => ?_
  have hused : (s.mem slot.1 slot.2).isUnused = false := by
    by_contra hc
    exact hdead ⟨slot, hm, by simpa using hc⟩
  rw [hrew.entry_of_mem hdead hm, grants_turnedAll hflags hused]

end Walkable

/-- The tables of several address spaces, kept by walks below each of them. -/
lemma walkable_tidy {roots : Set Frame} {r : Frame} (hr : r ∈ roots) :
    Walkable r (·.Tidy roots) where
  hierarchy := fun h => h.tables.hierarchy.mono (Set.singleton_subset_iff.mpr hr)
  fresh := by
    rintro s f a g flags h hal hg ⟨d, hd, hl⟩
    obtain ⟨n, hn, hc, rfl, rfl⟩ := proxyAllocator_some h.tables.hint hal
    obtain rfl := frame_ofFrame_eq hn hg
    exact h.tables.fresh hn hc ⟨d, hd, level_mono (Set.singleton_subset_iff.mpr hr) hl⟩
  link := by
    intro s t i f a g flags h hun hal hg
    obtain ⟨n, hn, hc, rfl, rfl⟩ := proxyAllocator_some h.tables.hint hal
    obtain rfl := frame_ofFrame_eq hn hg
    exact h.link hn hc hun hg
  rewrite := fun h he hfilled => h.rewrite he hfilled
  writeLeaf := fun h ht => h.leaf (level_mono (Set.singleton_subset_iff.mpr hr) ht) _

end Rhubarb
