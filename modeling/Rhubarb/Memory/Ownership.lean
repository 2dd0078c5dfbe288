import Rhubarb.Memory.SetFlags
import Rhubarb.Memory.SharedTables

/-!
Who owns the root tables of the address spaces, whatever is mapped.

A mapping call takes frames through the proxy of one address space, and nothing else of the
allocator or of the address spaces changes (`step_mapping_allocator`).  So the frame of the
kernel's root, once in use, is never given to a process, whatever pages are mapped where: unlike
sound sharing, `Housing` needs no condition on the calls.

* `Housing.mapping`, `Housing.newSpace`, `Housing.dropSpace`: every call keeps it.
* `Housing.frame_ne`: the root of a process is not the kernel's.
-/

namespace Rhubarb

open Foundations Level4PageTable

variable {pages : List Page} {g : FrameAllocator} {f : Frame}

/-! ### A frame that stays in use -/

lemma InUse.deallocate {f' : Frame} (h : InUse g f) (hne : f ≠ f') :
    InUse (g.deallocate f').2 f := by
  refine h.imp_right fun hused => ?_
  rcases g.deallocate_cases f' with ⟨-, heq⟩ | ⟨hlt, -, -⟩
  · rw [heq]
    exact hused
  · have hnumber : f.number ≠ f'.number := fun hc => hne (congrArg Frame.mk hc)
    rw [FrameAllocator.isAllocated_deallocate g f' f.number hlt, hused]
    simp [hnumber]

/-- Dropping a proxy frees only what it remembers. -/
lemma InUse.drop {proxy : FrameAllocatorProxy} (h : InUse g f) (hf : f ∉ proxy.allocatedFrames) :
    InUse (proxy.drop g) f := by
  rw [FrameAllocatorProxy.drop]
  generalize proxy.allocatedFrames = frames at hf
  induction frames generalizing g with
  | nil => exact h
  | cons f' frames ih =>
    rw [List.mem_cons, not_or] at hf
    exact ih (h.deallocate hf.1) hf.2

/-- A frame that is in use is not the one the allocator gives out. -/
lemma InUse.ne_of_free (h : InUse g f) {n : ℕ} (hn : n < maxFrames) (hc : g.isAllocated n = false) :
    f ≠ ⟨n⟩ := by
  rintro rfl
  rcases h with h | h
  · exact absurd hn (not_lt.mpr h)
  · rw [hc] at h
    cases h

namespace MemoryState

/-! ### Mapping calls -/

section Mapping

variable {m m' : MemoryState} {id : SpaceId} {a : AddressSpace} {pages : PageRange} {op : Op}

/-- **A mapping call takes frames through one proxy** and changes nothing else of the allocator
and the address spaces. -/
lemma step_mapping_allocator {J : ProxyAllocator → Prop}
    (hJ : ∀ a f a', J a → AllocateFrame.allocateFrame a = (f, a') → J a')
    (hop : op.target = some (id, pages)) (ha : m.spaces id = some a)
    (hs : J ⟨m.frameAllocator, a.frameAllocator⟩) (h : m.step op = .ok m') :
    ∃ b : ProxyAllocator, J b ∧ m'.frameAllocator = b.frameAllocator
      ∧ m'.spaces = Function.update m.spaces id (some { a with frameAllocator := b.proxy })
      ∧ m'.cr3 = m.cr3 := by
  obtain ⟨s, t, hs', rfl⟩ := step_mapping hop ha (callInvariant_allocator hJ _) hs h
  exact ⟨s.allocator, hs', rfl, rfl, rfl⟩

/-- A call that maps pages or changes their flags. -/
structure MappingCall where
  op : Op
  maps : op.target.isSome = true

/-- A list of mapping calls. -/
def calls (m : MemoryState) (cs : List MappingCall) : Except Panic MemoryState :=
  run (fun m c => m.step c.op) m cs

end Mapping

/-- Making an address space does not activate it. -/
lemma newSpace_cr3 {m m' : MemoryState} {id : SpaceId} {name : String} {inherit : Option Frame}
    (h : m.newSpace id name inherit = .ok m') : m'.cr3 = m.cr3 := by
  rw [newSpace] at h
  obtain ⟨kernel, -, h⟩ := ok_of_bind h
  split_ifs at h
  split at h
  · cases h
  · cases h
    rfl

/-! ### Roots -/

/-- **The roots and their owners**: the kernel's root is in use and no process has taken it, and
a process has taken its own. -/
structure Housing (m : MemoryState) (kroot : Frame) : Prop where
  hint : m.frameAllocator.nextFreeHint ≤ maxFrames
  kernel : m.rootOf .kernel = some kroot
  inUse : InUse m.frameAllocator kroot
  apart : ∀ i a, m.spaces (.process i) = some a → kroot ∉ a.frameAllocator.allocatedFrames
  own : ∀ i a, m.spaces (.process i) = some a → a.frame ∈ a.frameAllocator.allocatedFrames

lemma Booted.housing {m : MemoryState} {kroot : Frame} (h : m.Booted kroot) : m.Housing kroot where
  hint := h.partition.hint
  kernel := h.kernel
  inUse := h.tables.inUse kroot ⟨0, by omega, rfl⟩
  apart i a ha := by
    rw [h.alone i] at ha
    cases ha
  own i a ha := by
    rw [h.alone i] at ha
    cases ha

namespace Housing

variable {m m' : MemoryState} {kroot : Frame} {i : ℕ} {a : AddressSpace}

/-- The root of a process is not the kernel's. -/
lemma frame_ne (h : m.Housing kroot) (ha : m.spaces (.process i) = some a) : kroot ≠ a.frame := by
  rintro rfl
  exact h.apart i a ha (h.own i a ha)

lemma setCr3 (h : m.Housing kroot) (cr3 : Frame) : ({ m with cr3 } : MemoryState).Housing kroot :=
  ⟨h.hint, h.kernel, h.inUse, h.apart, h.own⟩

/-- What holds of the allocator and the proxy of one address space while it maps. -/
def Taking (kroot : Frame) (first : List Frame) (b : ProxyAllocator) : Prop :=
  b.frameAllocator.nextFreeHint ≤ maxFrames ∧ InUse b.frameAllocator kroot
    ∧ (kroot ∈ b.proxy.allocatedFrames → kroot ∈ first) ∧ first <+: b.proxy.allocatedFrames

lemma taking_allocate {first : List Frame} (b : ProxyAllocator) (f : Option Frame)
    (b' : ProxyAllocator) (h : Taking kroot first b)
    (hal : AllocateFrame.allocateFrame b = (f, b')) : Taking kroot first b' := by
  obtain ⟨hint, huse, hapart, hfirst⟩ := h
  rcases proxyAllocator_cases hint hal with ⟨-, rfl⟩ | ⟨n, hn, hc, -, rfl⟩
  · exact ⟨hint, huse, hapart, hfirst⟩
  · refine ⟨hn, huse.take n, fun hmem => ?_, hfirst.trans (List.prefix_append _ _)⟩
    rcases List.mem_append.mp hmem with hmem | hmem
    · exact hapart hmem
    · exact absurd (List.mem_singleton.mp hmem) (huse.ne_of_free hn hc)

/-- **Mapping calls keep the roots and their owners**, and which address spaces there are. -/
lemma mapping (h : m.Housing kroot) (c : MappingCall) (hc : m.step c.op = .ok m') :
    m'.Housing kroot ∧ m'.cr3 = m.cr3 ∧ m'.rootOf = m.rootOf := by
  obtain ⟨⟨id, pages⟩, htarget⟩ := Option.isSome_iff_exists.mp c.maps
  cases ha : m.spaces id with
  | none =>
    rw [step_missing htarget ha hc]
    exact ⟨h, rfl, rfl⟩
  | some a =>
    have hstart : Taking kroot a.frameAllocator.allocatedFrames
        ⟨m.frameAllocator, a.frameAllocator⟩ :=
      ⟨h.hint, h.inUse, fun hmem => hmem, List.prefix_refl _⟩
    obtain ⟨b, ⟨hint, huse, hapart, hfirst⟩, hg, hspaces, hcr3⟩ :=
      step_mapping_allocator taking_allocate htarget ha hstart hc
    have hroot : m'.rootOf = m.rootOf := by
      rw [rootOf_of_spaces hspaces]
      have hid : m.rootOf id = some a.frame := by rw [rootOf, ha]; rfl
      rw [Option.map_some, ← hid, Function.update_eq_self]
    -- the address space that mapped, or one that is as it was
    have hcases : ∀ i a', m'.spaces (.process i) = some a' →
        (id = .process i ∧ a' = { a with frameAllocator := b.proxy })
          ∨ m.spaces (.process i) = some a' := by
      intro i a' ha'
      rw [hspaces] at ha'
      by_cases hi : SpaceId.process i = id
      · subst hi
        rw [Function.update_self] at ha'
        exact .inl ⟨rfl, (Option.some.inj ha').symm⟩
      · rw [Function.update_of_ne hi] at ha'
        exact .inr ha'
    refine ⟨⟨hg ▸ hint, hroot ▸ h.kernel, hg ▸ huse, fun i a' ha' => ?_, fun i a' ha' => ?_⟩,
      hcr3, hroot⟩
    · rcases hcases i a' ha' with ⟨rfl, rfl⟩ | hold
      · exact fun hmem => h.apart i a ha (hapart hmem)
      · exact h.apart i a' hold
    · rcases hcases i a' ha' with ⟨rfl, rfl⟩ | hold
      · exact hfirst.subset (h.own i a ha)
      · exact h.own i a' hold

lemma calls (h : m.Housing kroot) {cs : List MappingCall} (hcs : m.calls cs = .ok m') :
    m'.Housing kroot ∧ m'.cr3 = m.cr3 ∧ m'.rootOf = m.rootOf := by
  refine run_invariant (I := fun m' => m'.Housing kroot ∧ m'.cr3 = m.cr3 ∧ m'.rootOf = m.rootOf)
    (fun m₁ c m₂ hm₁ hc => ?_) ⟨h, rfl, rfl⟩ hcs
  obtain ⟨hh, hcr3, hroot⟩ := hm₁.1.mapping c hc
  exact ⟨hh, hcr3.trans hm₁.2.1, hroot.trans hm₁.2.2⟩

/-- **A new address space** has a root that was free. -/
lemma newSpace (h : m.Housing kroot) {name : String}
    (hnew : m.newSpace (.process i) name none = .ok m') :
    m'.Housing kroot ∧ ∃ a, m'.spaces = Function.update m.spaces (.process i) (some a) := by
  obtain ⟨n, hn, hc, -, hg, hspaces⟩ := newSpace_cases h.kernel h.hint hnew
  have hcases : ∀ j a', m'.spaces (.process j) = some a' →
      a' = ⟨name, ⟨n⟩, ⟨[⟨n⟩]⟩⟩ ∨ m.spaces (.process j) = some a' := by
    intro j a' ha'
    rw [hspaces] at ha'
    by_cases hj : j = i
    · subst hj
      rw [Function.update_self] at ha'
      exact .inl (Option.some.inj ha').symm
    · rw [Function.update_of_ne fun hc => hj (SpaceId.process.inj hc)] at ha'
      exact .inr ha'
  refine ⟨⟨hg ▸ hn, ?_, hg ▸ h.inUse.take n, fun j a' ha' => ?_, fun j a' ha' => ?_⟩, _, hspaces⟩
  · rw [rootOf_of_spaces hspaces, Function.update_of_ne fun hc => by cases hc]
    exact h.kernel
  · rcases hcases j a' ha' with rfl | hold
    · exact fun hmem => h.inUse.ne_of_free hn hc (List.mem_singleton.mp hmem)
    · exact h.apart j a' hold
  · rcases hcases j a' ha' with rfl | hold
    · exact List.mem_singleton.mpr rfl
    · exact h.own j a' hold

/-- **A dropped address space** gives back nothing of the kernel's root. -/
lemma dropSpace (h : m.Housing kroot) (ha : m.spaces (.process i) = some a) :
    (m.dropSpace (.process i) a).Housing kroot := by
  have hold : ∀ j a', (m.dropSpace (.process i) a).spaces (.process j) = some a' →
      m.spaces (.process j) = some a' := by
    intro j a' ha'
    rw [spaces_dropSpace] at ha'
    by_cases hj : SpaceId.process j = .process i
    · rw [hj, Function.update_self] at ha'
      cases ha'
    · rwa [Function.update_of_ne hj] at ha'
  refine ⟨(FrameAllocator.foldl_deallocate_nextFreeHint_le _ _).trans h.hint, ?_,
    h.inUse.drop (h.apart i a ha), fun j a' ha' => h.apart j a' (hold j a' ha'),
    fun j a' ha' => h.own j a' (hold j a' ha')⟩
  rw [rootOf_of_spaces (spaces_dropSpace a), Function.update_of_ne fun hc => by cases hc]
  exact h.kernel

end Housing

end MemoryState

end Rhubarb
