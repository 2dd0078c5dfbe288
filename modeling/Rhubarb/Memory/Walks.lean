import Rhubarb.Memory.AddressSpace
import Rhubarb.MemoryTypes.MapTo

/-!
The rule for walks: what the mapping functions do to the page tables of one root.

`map_to`, `set_flags` and the loops over pages built from them are made of five actions: a
frame is allocated; a fresh table is linked below an unused entry; the flags of a used parent
entry are rewritten; the flags of a huge leaf are rewritten; an entry of a level-1 table is
written.  A property of the tables and the allocator that survives these actions, each on the
path of a page the call was given, survives the call.

* `WalkInvariant`: the five actions as proof obligations.
* `WalkInvariant.calls`: so the calls keep it.
* `CallInvariant.mapPagesLoop` and the other loops, `step_mapping`: what the calls keep, the
  loops over pages and the methods of an address space keep.
-/

namespace Rhubarb

variable {page : Page} {flags : PageTableFlags} {ps : List Page} {pages : PageRange}

open Foundations Level4PageTable

section Rule

variable {A : Type} [AllocateFrame A]

/-- A property kept by the five actions, on the paths of the given pages below a root. -/
structure WalkInvariant (root : Frame) (pages : Page → Prop) (I : PagingState A → Prop) :
    Prop where
  allocate : ∀ {s f a}, I s → AllocateFrame.allocateFrame s.allocator = (f, a) → I ⟨s.mem, a⟩
  link : ∀ {s page q i t flags f a g}, I s → pages page → q ++ [i] <+: upperIndices page →
    Radix.descend view s.mem root q = .ok t → (s.mem t i).isUnused = true →
    AllocateFrame.allocateFrame s.allocator = (some f, a) →
    (PageTableEntry.ofFrame f flags).frame = .ok (.ok g) →
    I ⟨Radix.link s.mem t i (.ofFrame f flags) g .unused, a⟩
      ∧ Radix.descend view (Radix.link s.mem t i (.ofFrame f flags) g .unused) root (q ++ [i])
        = .ok g
  relabel : ∀ {s page q i t flags}, I s → pages page → q ++ [i] <+: upperIndices page →
    Radix.descend view s.mem root q = .ok t → (s.mem t i).isUnused = false →
    flags.get .hugePage = false →
    I ⟨Radix.write s.mem t i (withFlags (s.mem t i) flags), s.allocator⟩
      ∧ ∀ g, (withFlags (s.mem t i) flags).frame = .ok (.ok g) →
        Radix.descend view (Radix.write s.mem t i (withFlags (s.mem t i) flags)) root (q ++ [i])
          = .ok g
  huge : ∀ {s page q i t flags}, I s → pages page → q ++ [i] <+: upperIndices page →
    Radix.descend view s.mem root q = .ok t → (s.mem t i).isHugePage = true →
    I ⟨Radix.write s.mem t i ((s.mem t i).setFlags (PageTableFlags.or flags .hugePage)),
      s.allocator⟩
  leaf : ∀ {s page t e}, I s → pages page →
    Radix.descend view s.mem root (upperIndices page) = .ok t →
    I ⟨Radix.write s.mem t page.l1Index e, s.allocator⟩

/-- A property kept by the calls themselves: every allocation, every `map_to` and every turn of
`set_flags` on the given pages. -/
structure CallInvariant (root : Frame) (pages : Page → Prop) (I : PagingState A → Prop) :
    Prop where
  allocate : ∀ {s f a}, I s → AllocateFrame.allocateFrame s.allocator = (f, a) → I ⟨s.mem, a⟩
  mapTo : ∀ {page s} frame flags, I s → pages page →
    Comp.wp (mapTo root page frame flags) (fun _ s' => I s') s
  setFlagsPage : ∀ {page s} flags, I s → pages page →
    Comp.wp (setFlagsPage root flags page) (fun _ s' => I s') s

namespace WalkInvariant

variable {root : Frame} {pages : Page → Prop} {I : PagingState A → Prop}
  (hI : WalkInvariant root pages I)
include hI

variable {s : PagingState A}

lemma nextTable {q : List TableIndex} {i : TableIndex} {t : Frame} (hs : I s) (hpage : pages page)
    (hq : q ++ [i] <+: upperIndices page) (ht : Radix.descend view s.mem root q = .ok t)
    (hh : flags.get .hugePage = false) :
    Comp.wp (nextTable t i flags) (fun r s' => I s' ∧ ∀ g, r = .ok g →
      Radix.descend view s'.mem root (q ++ [i]) = .ok g) s := by
  intro r s' h
  rcases nextTable_cases h with ⟨-, a, hal, rfl, rfl⟩ | ⟨hun, f, a, g, hal, hg, rfl, rfl⟩
    | ⟨hused, g, hg, rfl, rfl⟩ | ⟨hused, -, rfl, rfl⟩
  · exact ⟨hI.allocate hs hal, nofun⟩
  · obtain ⟨hs', hd⟩ := hI.link hs hpage hq ht hun hal hg
    refine ⟨hs', fun g' hg' => ?_⟩
    cases hg'
    exact hd
  · obtain ⟨hs', hd⟩ := hI.relabel hs hpage hq ht hused hh
    refine ⟨hs', fun g' hg' => ?_⟩
    cases hg'
    exact hd g hg
  · exact ⟨(hI.relabel hs hpage hq ht hused hh).1, nofun⟩

/-- The steps down to a page keep the property. -/
lemma stepsDown (hpage : pages page) (hh : flags.get .hugePage = false) :
    StepsDown page flags fun q t s => I s ∧ Radix.descend view s.mem root q = .ok t where
  step hq hw h := (hI.nextTable hw.1 hpage hq hw.2 hh _ _ h).imp_right fun hd => hd _ rfl

lemma level1Table (hs : I s) (hpage : pages page) (hh : flags.get .hugePage = false) :
    Comp.wp (level1Table root page flags) (fun r s' => I s' ∧ ∀ g, r = .ok g →
      Radix.descend view s'.mem root (upperIndices page) = .ok g) s := by
  intro r s' h
  rcases (hI.stepsDown hpage hh).level1Table ⟨hs, Radix.descend_nil _ _⟩ h with
    ⟨g, rfl, hs', hd⟩ | ⟨x, q, i, is, t, s₁, rfl, hq, ⟨hs₁, hd₁⟩, hx⟩
  · exact ⟨hs', fun g' hg' => Except.ok.inj hg' ▸ hd⟩
  · exact ⟨(hI.nextTable hs₁ hpage ⟨is, hq.symm⟩ hd₁ hh _ _ hx).1, nofun⟩

lemma mapTo (frame : Frame) (flags : PageTableFlags) (hs : I s) (hpage : pages page) :
    Comp.wp (mapTo root page frame flags) (fun _ s' => I s') s := by
  intro r s' h
  have hwalk := hI.level1Table hs hpage (parentTableFlags_hugePage flags)
  rcases mapTo_cases h with ⟨x, h₁, -⟩ | ⟨l1, s₁, h₁, ⟨-, -, rfl⟩ | ⟨-, -, rfl⟩⟩
  · exact (hwalk _ _ h₁).1
  · exact (hwalk _ _ h₁).1
  · obtain ⟨hs₁, hd⟩ := hwalk _ _ h₁
    exact hI.leaf hs₁ hpage (hd l1 rfl)

lemma setFlagsPage (flags : PageTableFlags) (hs : I s) (hpage : pages page) :
    Comp.wp (setFlagsPage root flags page) (fun _ s' => I s') s := by
  intro r s' h
  have hh := parentTableFlags_hugePage flags
  rcases (hI.stepsDown hpage hh).setFlagsPage ⟨hs, Radix.descend_nil _ _⟩ h with
    ⟨x, q, i, is, t, s₁, -, hq, ⟨hs₁, hd₁⟩, -, hx⟩
    | ⟨q, i, is, t, s₁, hq, his, ⟨hs₁, hd₁⟩, hhuge, -, rfl⟩
    | ⟨t, s₁, ⟨hs₁, hd₁⟩, -, ⟨-, rfl⟩ | ⟨-, rfl⟩⟩
  · exact (hI.nextTable hs₁ hpage ⟨is, hq.symm⟩ hd₁ hh _ _ hx).1
  · exact hI.huge hs₁ hpage (extends_of_huge hq his) hd₁ hhuge
  · exact hI.leaf hs₁ hpage hd₁
  · exact hs₁

/-- The calls on the given pages keep the property. -/
lemma calls : CallInvariant root pages I where
  allocate := hI.allocate
  mapTo := hI.mapTo
  setFlagsPage := hI.setFlagsPage

end WalkInvariant

namespace CallInvariant

variable {root : Frame} {pages : Page → Prop} {I : PagingState A → Prop}
  (hI : CallInvariant root pages I)
include hI

variable {s : PagingState A}

lemma setFlagsLoop (flags : PageTableFlags) (hps : ∀ p ∈ ps, pages p) (skip : ℕ) (hs : I s) :
    Comp.wp (setFlagsLoop root flags skip ps) (fun _ s' => I s') s := by
  induction ps generalizing skip s with
  | nil =>
    cases skip <;> exact Comp.wp_pure.mpr hs
  | cons page ps ih =>
    have hrest := fun p hp => hps p (List.mem_cons_of_mem page hp)
    cases skip with
    | succ skip => exact ih hrest skip hs
    | zero =>
      refine Comp.wp_bind ((hI.setFlagsPage flags hs (hps page (by simp))).mono ?_)
      rintro (x | n) s₁ hs₁
      · exact hs₁
      · exact ih hrest n hs₁

lemma unwrapFrame (p : Panic) (hs : I s) :
    Comp.wp (Rhubarb.unwrapFrame p) (fun _ s' => I s') s := by
  intro r s' h
  obtain ⟨f, a, hal, -, rfl⟩ := unwrapFrame_eq_ok h
  exact hI.allocate hs hal

lemma mapPagesLoop (flags : PageTableFlags) (hps : ∀ p ∈ ps, pages p) (hs : I s) :
    Comp.wp (Rhubarb.mapPagesLoop root flags ps) (fun _ s' => I s') s := by
  induction ps generalizing s with
  | nil => exact Comp.wp_pure.mpr hs
  | cons page ps ih =>
    intro r s' h
    obtain ⟨f, a, res, s₁, hal, hmap, hrest⟩ := mapPagesLoop_cons h
    have hs₁ := hI.mapTo f flags (hI.allocate hs hal) (hps page (by simp)) _ _ hmap
    rcases hrest with ⟨-, h⟩ | ⟨x, -, -, -, rfl⟩
    · exact ih (fun p hp => hps p (List.mem_cons_of_mem page hp)) hs₁ _ _ h
    · exact hs₁

lemma mapPagesUntrackedLoop (flags : PageTableFlags) (hps : ∀ p ∈ ps, pages p) (hs : I s) :
    Comp.wp (Rhubarb.mapPagesUntrackedLoop root flags ps) (fun _ s' => I s') s := by
  induction ps generalizing s with
  | nil => exact Comp.wp_pure.mpr hs
  | cons page ps ih =>
    have ih := fun {s} => ih (s := s) fun p hp => hps p (List.mem_cons_of_mem page hp)
    refine Comp.wp_bind ((hI.unwrapFrame _ hs).mono ?_)
    rintro (x | frame) s₁ hs₁
    · exact hs₁
    refine Comp.wp_bind ((hI.mapTo frame flags hs₁ (hps page (by simp))).mono ?_)
    rintro (x | u) s₂ hs₂
    · exact hs₂
    · exact ih hs₂

lemma mapKernelPagesLoop {ps : List (Page × Page)} (kernelRoot : Frame) (flags : PageTableFlags)
    (hps : ∀ p ∈ ps, pages p.1) (hs : I s) :
    Comp.wp (Rhubarb.mapKernelPagesLoop kernelRoot root flags ps) (fun _ s' => I s') s := by
  induction ps generalizing s with
  | nil => exact Comp.wp_pure.mpr hs
  | cons page ps ih =>
    obtain ⟨localPage, kernelPage⟩ := page
    have ih := fun {s} => ih (s := s) fun p hp => hps p (List.mem_cons_of_mem _ hp)
    refine Comp.wp_bind fun r s₁ h => ?_
    -- reading the frame of the kernel page changes nothing
    obtain ⟨rfl, -⟩ := kernelFrame_eq_ok h
    cases r with
    | error x => exact hs
    | ok frame =>
      have hpage : pages localPage := hps (localPage, kernelPage) (by simp)
      refine Comp.wp_bind ((hI.mapTo frame flags hs hpage).mono ?_)
      rintro (x | u) s₂ hs₂
      · exact hs₂
      · exact ih hs₂

end CallInvariant

end Rule

/-! ### Calls on an address space -/

namespace MemoryState

/-- The address space and the pages a mapping call is about. -/
def Op.target : Op → Option (SpaceId × PageRange)
  | .newSpace _ _ => none
  | .mapPages id _ pages _ => some (id, pages)
  | .mapPagesUntracked id pages _ => some (id, pages)
  | .mapInto id _ pages _ => some (id, pages)
  | .setFlags id pages _ => some (id, pages)
  | .drop _ => none

/-- Putting back what was taken out changes nothing. -/
lemma put_paging {m : MemoryState} {id : SpaceId} {a : AddressSpace}
    (ha : m.spaces id = some a) : m.put id a (m.paging a) = m := by
  have hspaces : Function.update m.spaces id (some a) = m.spaces := by
    rw [← ha, Function.update_eq_self]
  show { m with spaces := Function.update m.spaces id (some a) } = m
  rw [hspaces]

variable {I : PagingState ProxyAllocator → Prop} {m m' : MemoryState} {id : SpaceId}
  {a : AddressSpace}

/-- A method puts back the paging state its computation ends with. -/
lemma withPageTable_eq_ok {c : Comp Panic (PagingState ProxyAllocator) MappingError Unit}
    {res : Except MappingError Unit} (h : m.withPageTable id a c = .ok (res, m')) :
    ∃ s', c (m.paging a) = .ok (res, s') ∧ m' = m.put id a s' := by
  rw [withPageTable] at h
  split at h
  · next r' s hs =>
      cases h
      exact ⟨s, hs, rfl⟩
  · cases h

lemma trackOnOk_tracker (a : AddressSpace) (name : String) (pages : PageRange)
    (x : Except MappingError Unit × MemoryState) :
    ∃ t, (trackOnOk a name pages x).2 = { x.2 with tracker := t } := by
  obtain ⟨_ | u, m⟩ := x
  · exact ⟨m.tracker, rfl⟩
  · exact ⟨_, rfl⟩

/-- **A mapping call** puts back a paging state with what the calls keep, and records pages. -/
lemma step_mapping {op : Op} (hop : op.target = some (id, pages)) (ha : m.spaces id = some a)
    (hI : CallInvariant a.frame (· ∈ pages.pages) I) (hs : I (m.paging a))
    (h : m.step op = .ok m') : ∃ s t, I s ∧ m' = { m.put id a s with tracker := t } := by
  have hput : ∀ {c} {x : Except MappingError Unit × MemoryState},
      Comp.wp c (fun _ s => I s) (m.paging a) → m.withPageTable id a c = .ok x →
      ∃ s, I s ∧ x.2 = m.put id a s := by
    intro c x hc hx
    obtain ⟨s, hs, hm⟩ := withPageTable_eq_ok hx
    exact ⟨s, hc _ _ hs, hm⟩
  have htracked : ∀ {name x}, (∃ s, I s ∧ x.2 = m.put id a s) →
      ∃ s t, I s ∧ (trackOnOk a name pages x).2 = { m.put id a s with tracker := t } := by
    rintro name x ⟨s, hs, hx⟩
    obtain ⟨t, ht⟩ := trackOnOk_tracker a name pages x
    exact ⟨s, t, hs, by rw [ht, hx]⟩
  cases op with
  | newSpace i name => cases hop
  | drop i => cases hop
  | mapPages id' name pages' flags =>
    cases hop
    simp only [step, onSpace, ha] at h
    obtain ⟨x, hx, rfl⟩ := ok_of_map h
    obtain ⟨y, hy, rfl⟩ := ok_of_map hx
    exact htracked (hput (hI.mapPagesLoop flags (fun p hp => hp) hs) hy)
  | mapPagesUntracked id' pages' flags =>
    cases hop
    simp only [step, onSpace, ha] at h
    obtain ⟨x, hx, rfl⟩ := ok_of_map h
    obtain ⟨s, hs, heq⟩ := hput (hI.mapPagesUntrackedLoop flags (fun p hp => hp) hs) hx
    exact ⟨s, _, hs, heq⟩
  | setFlags id' pages' flags =>
    cases hop
    simp only [step, onSpace, ha] at h
    obtain ⟨x, hx, rfl⟩ := ok_of_map h
    obtain ⟨s, hs, heq⟩ := hput (hI.setFlagsLoop flags (fun p hp => hp) 0 hs) hx
    exact ⟨s, _, hs, heq⟩
  | mapInto id' mapping pages' flags =>
    cases hop
    simp only [step, onSpace, ha] at h
    obtain ⟨x, hx, rfl⟩ := ok_of_map h
    obtain ⟨y, hy, rfl⟩ := ok_of_map hx
    rw [mapKernelPagesTo] at hy
    split_ifs at hy
    obtain ⟨k, -, hy⟩ := ok_of_bind hy
    exact htracked (hput (hI.mapKernelPagesLoop k.frame flags
      (fun p hp => (List.of_mem_zip hp).1) hs) hy)

/-- A mapping call on an address space that does not exist does nothing. -/
lemma step_missing {op : Op} (hop : op.target = some (id, pages)) (ha : m.spaces id = none)
    (h : m.step op = .ok m') : m' = m := by
  cases op <;> cases hop <;> simp only [step, onSpace, ha] at h <;> cases h <;> rfl

end MemoryState

end Rhubarb
