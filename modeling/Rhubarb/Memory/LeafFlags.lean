import Rhubarb.Memory.WalkTurns

/-!
The flags of leaves after `set_flags`, and the permissions of pages after a failed `map_to`.

A leaf may be huge and then maps many pages.  `set_flags` sets the flags of the leaves of the
pages at which it stops, and after a huge leaf it passes over as many pages as a huge page
has, one more than are left of it.

* `setFlags_covers_iff`: when every mapped page of the range has got the flags.
* `setFlags_contained_iff`: when the pages outside the range keep theirs.
* `mapTo_error_permissions_iff`: when a failed `map_to` leaves the permissions of all pages.
-/

namespace Rhubarb

open Foundations Level4PageTable Levels

/-! ### The flags of leaves -/

/-- The flags of the leaf of a page. -/
def leafFlags (mem : PhysMem) (root : Frame) (page : Page) : Option PageTableFlags :=
  (leaf mem root page).map fun l => (mem l.table l.index).flags

/-- A leaf is that of some of the pages. -/
def LeafOfSome (mem : PhysMem) (root : Frame) (pages : List Page) (l : Leaf) : Prop :=
  ∃ page ∈ pages, leaf mem root page = some l

instance (mem : PhysMem) (root : Frame) (pages : List Page) (l : Leaf) :
    Decidable (LeafOfSome mem root pages l) :=
  inferInstanceAs (Decidable (∃ page ∈ pages, _))

section LeafTurns

variable {mem mem' : PhysMem} {root : Frame} {flags : PageTableFlags} {page q : Page} {l : Leaf}

lemma setFlags_setFlags (e : PageTableEntry) (a b : PageTableFlags) :
    (e.setFlags a).setFlags b = e.setFlags b := by
  rw [PageTableEntry.setFlags, PageTableEntry.addr_setFlags, PageTableEntry.setFlags]

/-- A walk for another leaf does not widen a leaf. -/
lemma widened_leaf (h : Hierarchy mem {root}) (hl : leaf mem root q = some l)
    (hne : leaf mem root page ≠ some l) (fl : PageTableFlags) (e : PageTableEntry) :
    widened mem root (upperIndices page) fl l.table l.index e = e := by
  rw [widened, if_neg fun hm => hne (leaf_of_mem_slots h hl hm)]

/-- A turn sets the flags of the leaf of its page and of no other leaf. -/
lemma turned_leaf (h : Hierarchy mem {root}) (hl : leaf mem root q = some l)
    (page : Page) (e : PageTableEntry) :
    turned mem root page flags l.table l.index e
      = if leaf mem root page = some l then e.setFlags (l.flagsFor flags) else e := by
  cases hp : leaf mem root page with
  | none =>
    have hne : leaf mem root page ≠ some l := by simp [hp]
    rw [turned, hp, if_neg (by simp)]
    exact widened_leaf h hl hne _ e
  | some l' =>
    rw [turned_of_leaf hp]
    by_cases hsame : l' = l
    · subst hsame
      rw [if_pos ⟨rfl, rfl⟩, if_pos rfl]
    · have hslot : ¬(l.table = l'.table ∧ l.index = l'.index) := fun hc =>
        hsame (leaf_unique h hl hp hc.1.symm hc.2.symm)
      have hne : leaf mem root page ≠ some l := by
        rw [hp]
        exact fun hc => hsame (Option.some.inj hc)
      rw [if_neg hslot, if_neg fun hc => hsame (Option.some.inj hc), widened_leaf h hl hne]

/-- The turns at several pages set the flags of their leaves. -/
lemma turnedAll_leaf (h : Hierarchy mem {root}) (hl : leaf mem root q = some l)
    (pages : List Page) (e : PageTableEntry) :
    turnedAll mem root flags pages l.table l.index e
      = if LeafOfSome mem root pages l then e.setFlags (l.flagsFor flags) else e := by
  induction pages generalizing e with
  | nil =>
    rw [turnedAll, List.foldl_nil, if_neg]
    rintro ⟨page, hm, -⟩
    cases hm
  | cons page pages ih =>
    have hcons : LeafOfSome mem root (page :: pages) l
        ↔ leaf mem root page = some l ∨ LeafOfSome mem root pages l := by
      simp [LeafOfSome]
    rw [turnedAll_cons, turned_leaf h hl, ih]
    by_cases hp : leaf mem root page = some l <;> by_cases hps : LeafOfSome mem root pages l <;>
      simp [hcons, hp, hps, setFlags_setFlags]

/-- The flags of leaves after a change that does to them what turns at some pages do. -/
lemma leafFlags_of_turns {f : Frame → TableIndex → PageTableEntry → PageTableEntry}
    (h : Hierarchy mem {root}) (hrew : Rewrites root f mem mem') {pages : List Page}
    (hf : ∀ q l, leaf mem root q = some l → ∀ e, f l.table l.index e
      = turnedAll mem root flags pages l.table l.index e) (hl : leaf mem root q = some l) :
    leafFlags mem' root q
      = some (if LeafOfSome mem root pages l
          then ((mem l.table l.index).setFlags (l.flagsFor flags)).flags
          else (mem l.table l.index).flags) := by
  have hentry := hrew.entry_of_mem (not_dead_of_leaf hl) (mem_slots_of_leaf hl)
  have hentry : mem' l.table l.index = f l.table l.index (mem l.table l.index) := hentry
  rw [leafFlags, hrew.leaf_eq, hl, Option.map_some, hentry, hf q l hl, turnedAll_leaf h hl]
  split <;> rfl

lemma leafFlags_of_leaf_none (h : leaf mem root q = none) : leafFlags mem root q = none := by
  rw [leafFlags, h, Option.map_none]

end LeafTurns

/-! ### A tree with a huge leaf

The root 1 and one table of each level below it; the first entry of the second level is a
huge leaf for the pages 0 to 511, the second leads to a table that maps page 512. -/

/-- The tables of the mixed tree. -/
def mixedMem : PhysMem := fun t i =>
  if t.number = 1 ∧ i = 0 then .ofFrame ⟨2⟩ (PageTableFlags.present.or .writable)
  else if t.number = 2 ∧ i = 0 then .ofFrame ⟨3⟩ (PageTableFlags.present.or .writable)
  else if t.number = 3 ∧ i = 0 then
    .ofFrame ⟨512⟩ ((PageTableFlags.present.or .writable).or .hugePage)
  else if t.number = 3 ∧ i = 1 then .ofFrame ⟨4⟩ (PageTableFlags.present.or .writable)
  else if t.number = 4 ∧ i = 0 then .ofFrame ⟨5⟩ (PageTableFlags.present.or .writable)
  else .unused

/-- The mixed tree with an allocator that has nothing left. -/
def mixedTree : PagingState (List Frame) := ⟨mixedMem, []⟩

lemma edges_mixedMem {t g : Frame} {i : TableIndex} (h : edges mixedMem t i = some g) :
    g = ⟨t.number + 1⟩ := by
  have hentry : ∀ {f flags}, f.Physical → flags.get .present = true →
      flags.get .hugePage = false → (PageTableEntry.ofFrame f flags).table = some f :=
    fun hf hp hh => PageTableEntry.table_eq_some.mpr (PageTableEntry.frame_ofFrame hf hp hh)
  rw [edges, mixedMem] at h
  split_ifs at h with h₁ h₂ h₃ h₄ h₅
  · rw [hentry (by decide) (by decide) (by decide)] at h
    rw [← Option.some.inj h, h₁.1]
  · rw [hentry (by decide) (by decide) (by decide)] at h
    rw [← Option.some.inj h, h₂.1]
  · rw [table_of_isHugePage (by decide)] at h
    cases h
  · rw [hentry (by decide) (by decide) (by decide)] at h
    rw [← Option.some.inj h, h₄.1]
  · rw [hentry (by decide) (by decide) (by decide)] at h
    rw [← Option.some.inj h, h₅.1]
  · rw [table_unused] at h
    cases h

lemma present_mixedMem {t : Frame} {i : TableIndex} :
    (mixedMem t i).isUnused = true ∨ (mixedMem t i).isPresent = true := by
  rw [mixedMem]
  split_ifs <;> decide

lemma mixedTree_pageTree : PageTree ⟨1⟩ mixedTree := by
  have hlevel : ∀ d t, Level (edges mixedMem) {⟨1⟩} d t → t = ⟨1 + d⟩ := by
    intro d
    induction d with
    | zero => exact fun t ht => ht
    | succ d ih =>
      rintro t ⟨u, i, hu, hi⟩
      rw [edges_mixedMem hi, ih u hu, Nat.add_assoc]
  refine ⟨⟨fun d d' t _ _ hd hd' => ?_, fun d _ t _ i => ?_⟩, fun n => ?_⟩
  · have := (hlevel d t hd).symm.trans (hlevel d' t hd')
    simpa using this
  · exact present_mixedMem.imp_right Or.inl
  · exact outside_list (by simp) List.nodup_nil (by simp) n

section SetFlags

variable {A : Type} [AllocateFrame A] {root : Frame} {s s' : PagingState A}
  {flags : PageTableFlags} {pages : PageRange}

/-- The flags of leaves after `set_flags`: those of the pages at which it stopped are set. -/
lemma PageTree.leafFlags_setFlags (h : PageTree root s) (hp : flags.get .present = true)
    {res : Except MappingError Unit} (hs : setFlags root pages flags s = .ok (res, s')) :
    ∃ done, done <+: stops s.mem root 0 pages.pages
      ∧ (res = .ok () → done = stops s.mem root 0 pages.pages)
      ∧ (∀ q, leaf s'.mem root q = leaf s.mem root q)
      ∧ ∀ q l, leaf s.mem root q = some l → leafFlags s'.mem root q
        = some (if LeafOfSome s.mem root done l
            then ((s.mem l.table l.index).setFlags (l.flagsFor flags)).flags
            else (s.mem l.table l.index).flags) := by
  obtain ⟨hok, herr⟩ := (walkable_pageTree root).setFlagsLoop_rewrites h hp hs
  cases res with
  | ok u =>
    obtain ⟨-, hrew⟩ := hok rfl
    exact ⟨_, List.prefix_refl _, fun _ => rfl, fun q => hrew.leaf_eq, fun q l hl =>
      leafFlags_of_turns h.hierarchy hrew (fun _ _ _ _ => rfl) hl⟩
  | error x =>
    obtain ⟨done, stop, hpre, hnone, hrew⟩ := herr x rfl
    refine ⟨done, (List.prefix_append _ _).trans hpre, nofun, fun q => hrew.leaf_eq,
      fun q l hl => leafFlags_of_turns h.hierarchy hrew (fun q' l' hl' e => ?_) hl⟩
    exact widened_leaf h.hierarchy hl' (by simp [hnone]) _ _

/-- **Coverage of `set_flags`.**  The leaves of the mapped pages of the range carry the flags if
and only if each of them is the leaf of a page at which the loop stops and takes the flags
(as every leaf with a physical address does), or carried the flags before. -/
theorem setFlags_covers_iff (h : PageTree root s) (hp : flags.get .present = true)
    (hs : setFlags root pages flags s = .ok (.ok (), s')) :
    (∀ page ∈ pages.pages, ∀ l, leaf s.mem root page = some l →
        leafFlags s'.mem root page = some (l.flagsFor flags))
      ↔ ∀ page ∈ pages.pages, ∀ l, leaf s.mem root page = some l →
        if LeafOfSome s.mem root (stops s.mem root 0 pages.pages) l
        then ((s.mem l.table l.index).setFlags (l.flagsFor flags)).flags = l.flagsFor flags
        else (s.mem l.table l.index).flags = l.flagsFor flags := by
  obtain ⟨done, -, hdone, -, hflags⟩ := h.leafFlags_setFlags hp hs
  obtain rfl := hdone rfl
  refine forall₂_congr fun page _ => forall₂_congr fun l hl => ?_
  rw [hflags page l hl, Option.some.injEq]
  split <;> rfl

/-- The flags for the huge leaf alone, given through its first page. -/
theorem setFlags_covers_iff_first :
    ∃ s', setFlags ⟨1⟩ ⟨⟨0⟩, ⟨1⟩⟩ (PageTableFlags.present.or .userAccessible) mixedTree
        = .ok (.ok (), s')
      ∧ leafFlags s'.mem ⟨1⟩ ⟨0⟩
        = some ((PageTableFlags.present.or .userAccessible).or .hugePage) := by
  obtain ⟨s', hs, -⟩ : ∃ s', setFlags ⟨1⟩ ⟨⟨0⟩, ⟨1⟩⟩ (PageTableFlags.present.or .userAccessible)
      mixedTree = .ok (.ok (), s') ∧ True := by
    decide +kernel
  refine ⟨s', hs, ?_⟩
  have hleaf : leaf mixedMem ⟨1⟩ ⟨0⟩ = some ⟨1, ⟨3⟩, 0⟩ := by decide +kernel
  have hcov := (setFlags_covers_iff mixedTree_pageTree (by decide) hs).mpr
  refine hcov (fun page hm l hl => ?_) ⟨0⟩ (by decide) _ hleaf
  obtain rfl : page = ⟨0⟩ := by simpa [PageRange.pages] using hm
  obtain rfl := Option.some.inj (hleaf.symm.trans hl)
  decide +kernel

/-- **The page behind a huge leaf is passed over**: of the pages 0 to 512 the last is mapped by
a leaf of its own, which keeps the flags it had. -/
theorem setFlags_passes_over :
    ∃ s', setFlags ⟨1⟩ ⟨⟨0⟩, ⟨513⟩⟩ (PageTableFlags.present.or .userAccessible) mixedTree
        = .ok (.ok (), s')
      ∧ (⟨512⟩ : Page) ∈ (PageRange.mk ⟨0⟩ ⟨513⟩).pages
      ∧ leaf mixedMem ⟨1⟩ ⟨512⟩ = some ⟨0, ⟨4⟩, 0⟩
      ∧ leafFlags s'.mem ⟨1⟩ ⟨512⟩ = some (PageTableFlags.present.or .writable) := by
  decide +kernel

end SetFlags

/-! ### Effective permissions -/

/-- **The effective permissions of a page**: what all the entries on its walk give. -/
def effectivePermission (mem : PhysMem) (root : Frame) (page : Page) (p : Permission) : Bool :=
  (slots mem root page.indices).all fun slot => (mem slot.1 slot.2).flags.get p.flag

section Permissions

variable {mem mem' : PhysMem} {root : Frame} {page : Page} {p : Permission}
  {path : List TableIndex} {flags : PageTableFlags}

lemma effectivePermission_iff : effectivePermission mem root page p = true
    ↔ ∀ slot ∈ slots mem root page.indices, (mem slot.1 slot.2).flags.get p.flag = true :=
  List.all_eq_true

/-- A page that is not mapped has no permissions. -/
lemma effectivePermission_of_dead (h : Dead mem root page.indices) :
    effectivePermission mem root page p = false := by
  obtain ⟨slot, hm, hun⟩ := h
  rw [effectivePermission, List.all_eq_false]
  exact ⟨slot, hm, by simp [p.get_unused hun]⟩

/-- The permissions of a mapped page after a walk has been widened: the entries that lack one
must all have been on that walk. -/
lemma effectivePermission_widened (hrew : Rewrites root (widened mem root path flags) mem mem')
    (hlive : ¬Dead mem root page.indices) : effectivePermission mem' root page p = true
      ↔ ∀ slot ∈ slots mem root page.indices, (mem slot.1 slot.2).flags.get p.flag = true
        ∨ flags.get p.flag = true ∧ slot ∈ slots mem root path := by
  rw [effectivePermission_iff, hrew.slots_eq hlive]
  refine forall₂_congr fun slot hm => ?_
  rw [hrew.entry_of_mem hlive hm, widened]
  split
  · next hpath => simp [p.get_withFlags, hpath]
  · next hpath => simp [hpath]

end Permissions

section MapToError

variable {A : Type} [AllocateFrame A] {root : Frame} {s s' : PagingState A}
  {flags : PageTableFlags} {page : Page} {frame : Frame} {x : MappingError}

/-- A `map_to` that fails has widened the walk of its page. -/
lemma PageTree.mapTo_error_rewrites (h : PageTree root s)
    (hs : mapTo root page frame flags s = .ok (.error x, s')) :
    Rewrites root (widened s.mem root (upperIndices page) (parentTableFlags flags))
      s.mem s'.mem := by
  have hh := parentTableFlags_hugePage flags
  rcases mapTo_cases hs with ⟨y, h₁, -⟩ | ⟨l1, s₁, h₁, ⟨-, -, rfl⟩ | ⟨-, hc, -⟩⟩
  · exact ((walkable_pageTree root).level1Table_rewrites h hh h₁).1
  · exact ((walkable_pageTree root).level1Table_rewrites h hh h₁).1
  · cases hc

/-- **A failed `map_to`** leaves the effective permissions of every page if and only if there is
no mapped page that lacks one of the permissions asked for only in entries on the walk of the
page that was to be mapped. -/
theorem mapTo_error_permissions_iff (h : PageTree root s)
    (hs : mapTo root page frame flags s = .ok (.error x, s')) :
    (∀ q : Page, q.Canonical → ∀ p,
        effectivePermission s'.mem root q p = effectivePermission s.mem root q p)
      ↔ ∀ q : Page, q.Canonical → ¬Dead s.mem root q.indices → ∀ p : Permission,
        flags.get p.flag = true →
        (∀ slot ∈ slots s.mem root q.indices, slot ∉ slots s.mem root (upperIndices page) →
          (s.mem slot.1 slot.2).flags.get p.flag = true) →
        effectivePermission s.mem root q p = true := by
  have hrew := h.mapTo_error_rewrites hs
  refine forall₂_congr fun q _ => ?_
  by_cases hdead : Dead s.mem root q.indices
  · have hboth : ∀ p, effectivePermission s'.mem root q p = effectivePermission s.mem root q p :=
      fun p => by
        rw [effectivePermission_of_dead hdead, effectivePermission_of_dead (hrew.dead hdead)]
    exact ⟨fun _ hc => absurd hdead hc, fun _ => hboth⟩
  constructor
  · intro hsame _ p hp hlack
    rw [← hsame p, effectivePermission_widened hrew hdead, p.get_parentTableFlags]
    intro slot hm
    by_cases hpath : slot ∈ slots s.mem root (upperIndices page)
    · exact Or.inr ⟨hp, hpath⟩
    · exact Or.inl (hlack slot hm hpath)
  · intro hcond p
    rw [Bool.eq_iff_iff, effectivePermission_widened hrew hdead, p.get_parentTableFlags]
    refine ⟨fun hall => ?_, fun hold slot hm => Or.inl (effectivePermission_iff.mp hold slot hm)⟩
    by_cases hp : flags.get p.flag = true
    · exact hcond hdead p hp fun slot hm hpath => (hall slot hm).resolve_right fun hc => hpath hc.2
    · exact effectivePermission_iff.mpr fun slot hm => (hall slot hm).resolve_right fun hc => hp hc.1

/-- Mapping a page inside the huge leaf as present only: the call fails and no page has other
permissions than before. -/
theorem mapTo_error_permissions_iff_present :
    ∃ s', mapTo ⟨1⟩ ⟨5⟩ ⟨9⟩ .present mixedTree = .ok (.error .mappedToHugePage, s')
      ∧ ∀ q : Page, q.Canonical → ∀ p,
        effectivePermission s'.mem ⟨1⟩ q p = effectivePermission mixedMem ⟨1⟩ q p := by
  obtain ⟨s', hs⟩ : ∃ s', mapTo ⟨1⟩ ⟨5⟩ ⟨9⟩ .present mixedTree
      = .ok (.error .mappedToHugePage, s') := ⟨_, rfl⟩
  refine ⟨s', hs, (mapTo_error_permissions_iff mixedTree_pageTree hs).mpr ?_⟩
  intro q _ hlive p hp _
  obtain rfl : p = .present := by
    cases p with
    | present => rfl
    | writable => exact absurd hp (by decide)
    | userAccessible => exact absurd hp (by decide)
  refine effectivePermission_iff.mpr fun slot hm => ?_
  exact present_mixedMem.resolve_left fun hun => hlive ⟨slot, hm, hun⟩

/-- **A failed `map_to` opens a kernel page**: mapping a user page inside a huge leaf fails, and
the leaf, which was the kernel's alone, can be accessed from user mode afterwards. -/
theorem mapTo_error_opens :
    ∃ s', mapTo ⟨1⟩ ⟨5⟩ ⟨9⟩ (PageTableFlags.present.or .userAccessible) mixedTree
        = .ok (.error .mappedToHugePage, s')
      ∧ (⟨0⟩ : Page).Canonical
      ∧ effectivePermission mixedMem ⟨1⟩ ⟨0⟩ .userAccessible = false
      ∧ effectivePermission s'.mem ⟨1⟩ ⟨0⟩ .userAccessible = true := by
  refine ⟨_, rfl, by decide, by decide +kernel, by decide +kernel⟩

end MapToError

end Rhubarb
