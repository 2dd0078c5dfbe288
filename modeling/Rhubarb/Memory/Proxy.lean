import Rhubarb.Memory.FrameAllocator

/-!
Ownership of frames (`FrameAllocatorProxy` of `kernel/src/memory.rs`).

A proxy allocates through the one global `FrameAllocator`, remembers every frame it got, and
gives all of them back when it is dropped.  `Partition` says that the frames remembered by
the owners are used, and that no frame is remembered twice; it is stated for any family of
owners, so that the address spaces of the kernel, each with its own proxy, can use it too.

* `Partition.allocate`: a frame just allocated belonged to nobody.
* `Partition.release`: dropping an owner frees its frames and no others.
* `proxies_run`: the partition along every interleaving of allocations and drops.
-/

namespace Rhubarb

open Foundations

/-- `FrameAllocatorProxy`. -/
structure FrameAllocatorProxy where
  allocatedFrames : List Frame
  deriving DecidableEq, Repr

/-- `DynFrameAllocator for FrameAllocator`: an allocation as an `Option`. -/
def FrameAllocator.allocateFrame (g : FrameAllocator) : Option Frame × FrameAllocator :=
  match g.allocate with
  | (.ok frame, g') => (some frame, g')
  | (.error _, g') => (none, g')

namespace FrameAllocatorProxy

/-- `DynFrameAllocator for FrameAllocatorProxy`: allocate globally and remember the frame. -/
def allocateFrame (proxy : FrameAllocatorProxy) (g : FrameAllocator) :
    Option Frame × FrameAllocatorProxy × FrameAllocator :=
  match g.allocateFrame with
  | (some frame, g') => (some frame, ⟨proxy.allocatedFrames ++ [frame]⟩, g')
  | (none, g') => (none, proxy, g')

/-- `Drop for FrameAllocatorProxy`: errors of `deallocate` are ignored. -/
def drop (proxy : FrameAllocatorProxy) (g : FrameAllocator) : FrameAllocator :=
  proxy.allocatedFrames.foldl (fun g frame => (g.deallocate frame).2) g

/-- The frames of a proxy that may be absent. -/
def framesOf : Option FrameAllocatorProxy → List Frame
  | some proxy => proxy.allocatedFrames
  | none => []

end FrameAllocatorProxy

namespace FrameAllocator

/-- What an allocation as an `Option` can do. -/
lemma allocateFrame_cases {g : FrameAllocator} (hint : g.nextFreeHint ≤ maxFrames) :
    g.allocateFrame = (none, g)
      ∨ ∃ n < maxFrames, g.isAllocated n = false ∧ g.allocateFrame = (some ⟨n⟩, (g.take n).2) := by
  rcases allocate_cases hint with ⟨heq, -⟩ | ⟨n, hn, hc, -, heq⟩
  · exact .inl (by rw [allocateFrame, heq])
  · exact .inr ⟨n, hn, hc, by rw [allocateFrame, heq]; rfl⟩

@[simp] lemma isAllocated_take (g : FrameAllocator) (n m : ℕ) :
    (g.take n).2.isAllocated m = (decide (m = n) || g.isAllocated m) :=
  isAllocated_markUsed g n m

lemma isAllocated_deallocate (g : FrameAllocator) (f : Frame) (m : ℕ) (hf : f.number < maxFrames) :
    (g.deallocate f).2.isAllocated m = (!decide (m = f.number) && g.isAllocated m) := by
  rcases g.deallocate_cases f with ⟨hskip, heq⟩ | ⟨-, -, heq⟩
  · rw [heq]
    by_cases hm : m = f.number
    · rcases hskip with h | h
      · omega
      · simp [hm, h]
    · simp [hm]
  · rw [heq]
    exact isAllocated_markFree g f.number m

lemma deallocate_nextFreeHint_le (g : FrameAllocator) (f : Frame) :
    (g.deallocate f).2.nextFreeHint ≤ g.nextFreeHint := by
  rcases g.deallocate_cases f with ⟨-, heq⟩ | ⟨-, -, heq⟩
  · rw [heq]
  · rw [heq]
    exact min_le_right _ _

/-- The bitmap after giving back a list of frames. -/
lemma isAllocated_foldl_deallocate (g : FrameAllocator) (frames : List Frame)
    (hframes : ∀ f ∈ frames, f.number < maxFrames) (m : ℕ) :
    (frames.foldl (fun g f => (g.deallocate f).2) g).isAllocated m
      = (!decide (⟨m⟩ ∈ frames) && g.isAllocated m) := by
  induction frames generalizing g with
  | nil => simp
  | cons f frames ih =>
    rw [List.foldl_cons, ih _ fun f' hf' => hframes f' (by simp [hf']),
      isAllocated_deallocate g f m (hframes f (by simp))]
    by_cases hm : m = f.number
    · subst hm
      simp
    · have hne : (⟨m⟩ : Frame) ≠ f := fun h => hm (by rw [← h])
      simp [hm, hne]

lemma foldl_deallocate_nextFreeHint_le (g : FrameAllocator) (frames : List Frame) :
    (frames.foldl (fun g f => (g.deallocate f).2) g).nextFreeHint ≤ g.nextFreeHint := by
  induction frames generalizing g with
  | nil => exact le_refl _
  | cons f frames ih => exact le_trans (ih _) (deallocate_nextFreeHint_le g f)

end FrameAllocator

/-! ### The partition -/

section Partition

variable {ι : Type} [DecidableEq ι]

/-- **The partition of the frames among owners**: each owner remembers a frame once, no frame
has two owners, and every owned frame is used. -/
structure Partition (g : FrameAllocator) (owned : ι → List Frame) : Prop where
  hint : g.nextFreeHint ≤ maxFrames
  nodup : ∀ i, (owned i).Nodup
  disjoint : ∀ i j, i ≠ j → (owned i).Disjoint (owned j)
  used : ∀ i, ∀ f ∈ owned i, f.number < maxFrames ∧ g.isAllocated f.number = true

variable {g : FrameAllocator} {owned : ι → List Frame}

omit [DecidableEq ι] in
lemma Partition.notMem_of_free (h : Partition g owned) {n : ℕ} (hn : g.isAllocated n = false)
    (i : ι) : (⟨n⟩ : Frame) ∉ owned i := by
  intro hmem
  rw [(h.used i _ hmem).2] at hn
  cases hn

omit [DecidableEq ι] in
/-- Nobody owns more frames than there are. -/
lemma Partition.length_le (h : Partition g owned) (i : ι) : (owned i).length ≤ maxFrames := by
  have hinj : Function.Injective Frame.number := fun f f' hf => by
    cases f
    cases f'
    simpa using hf
  have hnodup : ((owned i).map Frame.number).Nodup := (h.nodup i).map hinj
  calc (owned i).length
      = ((owned i).map Frame.number).toFinset.card := by
        rw [List.toFinset_card_of_nodup hnodup, List.length_map]
    _ ≤ (Finset.range maxFrames).card := by
        refine Finset.card_le_card fun n hn => ?_
        obtain ⟨f, hf, rfl⟩ := List.mem_map.mp (List.mem_toFinset.mp hn)
        exact Finset.mem_range.mpr (h.used i f hf).1
    _ = maxFrames := Finset.card_range maxFrames

/-- A frame just taken goes to the owner `i`: it belonged to nobody. -/
lemma Partition.take (h : Partition g owned) (i : ι) {n : ℕ} (hn : n < maxFrames)
    (hc : g.isAllocated n = false) :
    Partition (g.take n).2 (Function.update owned i (owned i ++ [⟨n⟩])) := by
  have hfresh := h.notMem_of_free hc
  have hmem : ∀ j f, f ∈ Function.update owned i (owned i ++ [⟨n⟩]) j →
      f ∈ owned j ∨ j = i ∧ f = ⟨n⟩ := by
    intro j f hf
    by_cases hj : j = i
    · subst hj
      rw [Function.update_self, List.mem_append, List.mem_singleton] at hf
      exact hf.imp id fun h => ⟨rfl, h⟩
    · rw [Function.update_of_ne hj] at hf
      exact .inl hf
  refine ⟨hn, fun j => ?_, fun j k hjk f hj hk => ?_, fun j f hf => ?_⟩
  · by_cases hj : j = i
    · subst hj
      rw [Function.update_self, List.nodup_append]
      refine ⟨h.nodup j, List.nodup_singleton _, fun a ha b hb hab => ?_⟩
      rw [List.mem_singleton] at hb
      exact hfresh j (hb ▸ hab ▸ ha)
    · rw [Function.update_of_ne hj]
      exact h.nodup j
  · rcases hmem j f hj with hj' | ⟨rfl, rfl⟩
    · rcases hmem k f hk with hk' | ⟨rfl, rfl⟩
      · exact h.disjoint j k hjk hj' hk'
      · exact hfresh j hj'
    · rcases hmem k _ hk with hk' | ⟨rfl, -⟩
      · exact hfresh k hk'
      · exact hjk rfl
  · rcases hmem j f hf with hf | ⟨-, rfl⟩
    · refine ⟨(h.used j f hf).1, ?_⟩
      rw [FrameAllocator.isAllocated_take, (h.used j f hf).2, Bool.or_true]
    · exact ⟨hn, by simp⟩

omit [DecidableEq ι] in
/-- Giving back the frames of the owner `i` clears exactly their bits. -/
lemma Partition.isAllocated_release (h : Partition g owned) (i : ι) (m : ℕ) :
    ((owned i).foldl (fun g f => (g.deallocate f).2) g).isAllocated m
      = (!decide (⟨m⟩ ∈ owned i) && g.isAllocated m) :=
  g.isAllocated_foldl_deallocate _ (fun f hf => (h.used i f hf).1) m

/-- Dropping the owner `i` leaves a partition among the others. -/
lemma Partition.release (h : Partition g owned) (i : ι) :
    Partition ((owned i).foldl (fun g f => (g.deallocate f).2) g) (Function.update owned i []) := by
  have hmem : ∀ j f, f ∈ Function.update owned i [] j → j ≠ i ∧ f ∈ owned j := by
    intro j f hf
    by_cases hj : j = i
    · subst hj
      simp at hf
    · rw [Function.update_of_ne hj] at hf
      exact ⟨hj, hf⟩
  refine ⟨le_trans (g.foldl_deallocate_nextFreeHint_le _) h.hint, fun j => ?_,
    fun j k hjk f hj hk => ?_, fun j f hf => ?_⟩
  · by_cases hj : j = i
    · subst hj
      simp
    · rw [Function.update_of_ne hj]
      exact h.nodup j
  · exact h.disjoint j k hjk (hmem j f hj).2 (hmem k f hk).2
  · obtain ⟨hji, hf⟩ := hmem j f hf
    refine ⟨(h.used j f hf).1, ?_⟩
    have hnot : f ∉ owned i := fun hi => h.disjoint j i hji hf hi
    rw [h.isAllocated_release, (h.used j f hf).2]
    simp [hnot]

end Partition

/-! ### Proxies over one allocator -/

/-- The global allocator and the live proxies, by name. -/
structure Proxies where
  frameAllocator : FrameAllocator
  live : ℕ → Option FrameAllocatorProxy

namespace Proxies

/-- What happens to proxies: one is made, one allocates, one is dropped. -/
inductive Op where
  | create (i : ℕ)
  | allocateFrame (i : ℕ)
  | drop (i : ℕ)
  deriving DecidableEq, Repr

/-- The frames remembered under a name; a name without a proxy remembers none. -/
def owned (s : Proxies) (i : ℕ) : List Frame := FrameAllocatorProxy.framesOf (s.live i)

/-- The state after an operation.  Making a proxy under a name in use, and using a name that
has none, do nothing. -/
def step (s : Proxies) : Op → Except Panic Proxies
  | .create i =>
    match s.live i with
    | some _ => .ok s
    | none => .ok { s with live := Function.update s.live i (some ⟨[]⟩) }
  | .allocateFrame i =>
    match s.live i with
    | some proxy =>
      let (_, proxy', g) := proxy.allocateFrame s.frameAllocator
      .ok ⟨g, Function.update s.live i (some proxy')⟩
    | none => .ok s
  | .drop i =>
    match s.live i with
    | some proxy => .ok ⟨proxy.drop s.frameAllocator, Function.update s.live i none⟩
    | none => .ok s

lemma owned_of_live {s : Proxies} {i : ℕ} {proxy : FrameAllocatorProxy}
    (h : s.live i = some proxy) : s.owned i = proxy.allocatedFrames := by
  rw [owned, h]
  rfl

/-- The frames remembered after one name has changed. -/
lemma owned_update (g : FrameAllocator) (s : Proxies) (i : ℕ) (p : Option FrameAllocatorProxy) :
    (⟨g, Function.update s.live i p⟩ : Proxies).owned
      = Function.update s.owned i (FrameAllocatorProxy.framesOf p) := by
  funext j
  by_cases hj : j = i
  · subst hj
    simp [owned]
  · simp [owned, hj]

/-- The live proxies partition the frames they remember. -/
def Owned (s : Proxies) : Prop := Partition s.frameAllocator s.owned

lemma owned_drop {s : Proxies} {i : ℕ} {proxy : FrameAllocatorProxy} (hs : s.Owned)
    (h : s.live i = some proxy) :
    (⟨proxy.drop s.frameAllocator, Function.update s.live i none⟩ : Proxies).Owned := by
  rw [Owned, owned_update, FrameAllocatorProxy.drop, ← owned_of_live h]
  exact Partition.release hs i

/-- Every operation on proxies keeps the partition. -/
lemma step_owned (s : Proxies) (op : Op) (s' : Proxies) (hs : s.Owned)
    (h : s.step op = .ok s') : s'.Owned := by
  cases op with
  | create i =>
    cases hi : s.live i with
    | some proxy =>
      simp only [step, hi, Except.ok.injEq] at h
      exact h ▸ hs
    | none =>
      simp only [step, hi, Except.ok.injEq] at h
      subst h
      have hown : s.owned i = FrameAllocatorProxy.framesOf (some ⟨[]⟩) := by
        rw [owned, hi]
        rfl
      rw [Owned, owned_update, ← hown, Function.update_eq_self]
      exact hs
  | allocateFrame i =>
    cases hi : s.live i with
    | some proxy =>
      simp only [step, hi, Except.ok.injEq] at h
      subst h
      have hown : s.owned i = FrameAllocatorProxy.framesOf (some proxy) := owned_of_live hi
      rcases s.frameAllocator.allocateFrame_cases hs.hint with heq | ⟨n, hn, hc, heq⟩
      · simp only [FrameAllocatorProxy.allocateFrame, heq]
        rw [Owned, owned_update, ← hown, Function.update_eq_self]
        exact hs
      · simp only [FrameAllocatorProxy.allocateFrame, heq]
        rw [Owned, owned_update]
        show Partition _ (Function.update s.owned i (proxy.allocatedFrames ++ [⟨n⟩]))
        rw [← owned_of_live hi]
        exact Partition.take hs i hn hc
    | none =>
      simp only [step, hi, Except.ok.injEq] at h
      exact h ▸ hs
  | drop i =>
    cases hi : s.live i with
    | some proxy =>
      simp only [step, hi, Except.ok.injEq] at h
      exact h ▸ owned_drop hs hi
    | none =>
      simp only [step, hi, Except.ok.injEq] at h
      exact h ▸ hs

/-- **Frame ownership along every run**: over an allocator reached after `init`, after any
interleaving of allocations and drops, the lists of the live proxies are free of duplicates
and pairwise disjoint, their frames are used, and dropping a proxy frees exactly its frames,
so that those of every other live proxy stay used. -/
theorem proxies_run {g₀ g₁ g : FrameAllocator} {map : MemoryMap}
    {before : List FrameAllocator.Op} {ops : List Op} {s : Proxies}
    (hinit : g₀.init map = .ok g₁) (hbefore : run FrameAllocator.step g₁ before = .ok g)
    (hrun : run step ⟨g, fun _ => none⟩ ops = .ok s) :
    (∀ i p, s.live i = some p → p.allocatedFrames.Nodup)
      ∧ (∀ i j p q, i ≠ j → s.live i = some p → s.live j = some q →
          p.allocatedFrames.Disjoint q.allocatedFrames)
      ∧ (∀ i p, s.live i = some p → ∀ f ∈ p.allocatedFrames,
          f.number < maxFrames ∧ s.frameAllocator.isAllocated f.number = true)
      ∧ (∀ i p, s.live i = some p →
          ∃ s', s.step (.drop i) = .ok s' ∧ s'.live i = none
            ∧ (∀ j, j ≠ i → s'.live j = s.live j)
            ∧ (∀ n, s'.frameAllocator.isAllocated n = false
                ↔ s.frameAllocator.isAllocated n = false ∨ (⟨n⟩ : Frame) ∈ p.allocatedFrames)
            ∧ ∀ j q, j ≠ i → s.live j = some q → ∀ f ∈ q.allocatedFrames,
                s'.frameAllocator.isAllocated f.number = true) := by
  have hg : g.nextFreeHint ≤ maxFrames :=
    run_invariant FrameAllocator.step_hint (FrameAllocator.init_hint hinit) hbefore
  have hs : s.Owned := by
    refine run_invariant step_owned ?_ hrun
    exact ⟨hg, fun i => List.nodup_nil, fun i j _ => List.disjoint_nil_left _,
      fun i f hf => absurd hf List.not_mem_nil⟩
  refine ⟨fun i p hi => ?_, fun i j p q hij hi hj => ?_, fun i p hi f hf => ?_, fun i p hi => ?_⟩
  · exact owned_of_live hi ▸ hs.nodup i
  · exact owned_of_live hi ▸ owned_of_live hj ▸ hs.disjoint i j hij
  · exact hs.used i f (owned_of_live hi ▸ hf)
  · have hstep : s.step (.drop i)
        = .ok ⟨p.drop s.frameAllocator, Function.update s.live i none⟩ := by
      simp only [step, hi]
    refine ⟨_, hstep, by simp, fun j hj => by simp [hj], fun n => ?_, ?_⟩
    · rw [FrameAllocatorProxy.drop, ← owned_of_live hi, hs.isAllocated_release]
      by_cases hmem : (⟨n⟩ : Frame) ∈ s.owned i <;> simp [hmem]
    · intro j q hji hj f hf
      rw [FrameAllocatorProxy.drop, ← owned_of_live hi]
      have hmem : f ∈ Function.update s.owned i [] j := by
        rw [Function.update_of_ne hji, owned_of_live hj]
        exact hf
      exact ((Partition.release hs i).used j f hmem).2

/-- Two proxies over an allocator with two free pages. -/
theorem proxies_run_two :
    ∃ g s, FrameAllocator.new.init [⟨0x100000, 0x2000, .free⟩] = .ok g
      ∧ run step ⟨g, fun _ => none⟩
          [.create 0, .create 1, .allocateFrame 0, .allocateFrame 1] = .ok s
      ∧ s.live 0 = some ⟨[⟨0x100⟩]⟩ ∧ s.live 1 = some ⟨[⟨0x101⟩]⟩
      ∧ List.Disjoint [(⟨0x100⟩ : Frame)] [⟨0x101⟩] := by
  refine ⟨_, _, rfl, rfl, by decide +kernel, by decide +kernel, ?_⟩
  exact (@proxies_run FrameAllocator.new _ _ [⟨0x100000, 0x2000, .free⟩] []
    [.create 0, .create 1, .allocateFrame 0, .allocateFrame 1] _ rfl rfl rfl).2.1 0 1
      ⟨[⟨0x100⟩]⟩ ⟨[⟨0x101⟩]⟩ (by decide) (by decide +kernel) (by decide +kernel)

end Proxies

end Rhubarb
