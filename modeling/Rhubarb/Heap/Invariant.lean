import Rhubarb.Foundations.Runs
import Rhubarb.Heap.Llff

/-!
The invariant of the user heap, over whole runs.

`Sound lo hi s` says how the holes and the blocks in use share the region `[lo, hi)` of a heap:
the holes are sorted, do not touch, and cover exactly what the blocks do not.  Taking a block
cuts it out of a hole and freeing it joins it back, so both keep `Sound`.

* `allocate_sound`, `deallocate_sound`: one call.
* `heap_run`: every run of a freshly initialised heap.
-/

namespace Rhubarb

open Foundations Span

variable {hole : HoleInfo} {b : Block} {l r : List HoleInfo} {layout aligned : Layout}

/-- The addresses of a block: the heap hands out the rounded size. -/
def Block.span (b : Block) : Span := ⟨b.addr, sizeForHole b.layout⟩

namespace Heap

/-- The addresses of the blocks in use. -/
def Session.blocks (s : Session) : List Span := s.live.map Block.span

/-- The holes of the heap. -/
def Session.holes (s : Session) : List HoleInfo := s.heap.holes.next

/-- **The heap invariant** for the region `[lo, hi)`. -/
structure Sound (lo hi : ℕ) (s : Session) : Prop where
  first : s.heap.holes.first.size = 0
  separated : Separated s.holes
  sized : ∀ hole ∈ s.holes, Sized hole
  cover : ∀ x, x ∈ cover s.holes ↔ (lo ≤ x ∧ x < hi) ∧ x ∉ cover s.blocks
  inside : ∀ b ∈ s.live, lo ≤ b.addr ∧ b.addr + sizeForHole b.layout ≤ hi
  aligned : ∀ b ∈ s.live, b.layout.align ∣ b.addr ∧ Sized b.span
  rounds : ∀ b ∈ s.live, ∃ aligned, alignLayoutForHole b.layout = .ok aligned
  apart : s.blocks.Pairwise Apart
  used : s.heap.used = total s.blocks
  total : total s.blocks + total s.holes = hi - lo

variable {lo hi : ℕ} {s : Session}

/-- Holes lie inside the region. -/
lemma Sound.hole_inside (h : Sound lo hi s) (hhole : hole ∈ s.holes) :
    lo ≤ hole.addr ∧ hole.addr + hole.size ≤ hi := by
  have hsize : 0 < hole.size := lt_of_lt_of_le (by decide) (h.sized hole hhole).1
  have hfirst := ((h.cover hole.addr).1 ⟨hole, hhole, mem_iff.2 (by omega)⟩).1
  have hlast := ((h.cover (hole.addr + hole.size - 1)).1 ⟨hole, hhole, mem_iff.2 (by omega)⟩).1
  omega

/-- Holes and blocks in use lie apart. -/
lemma Sound.hole_apart (h : Sound lo hi s) (hhole : hole ∈ s.holes) (hb : b ∈ s.live) :
    hole.Apart b.span := by
  refine apart_of_forall (lt_of_lt_of_le (by decide) (h.sized hole hhole).1)
    (lt_of_lt_of_le (by decide) (h.aligned b hb).2.1) fun x hx hxb => ?_
  exact ((h.cover x).1 ⟨hole, hhole, hx⟩).2 ⟨b.span, List.mem_map_of_mem hb, hxb⟩

/-- **Cutting a block out of a hole** keeps the invariant. -/
lemma Sound.take (hs : Sound lo hi s) {ps : List HoleInfo} (hholes : s.holes = l ++ hole :: r)
    (hcut : Cut hole b.span ps) (hps : ∀ p ∈ ps, Sized p) (halign : b.layout.align ∣ b.addr)
    (hsized : Sized b.span) (hround : ∃ aligned, alignLayoutForHole b.layout = .ok aligned) :
    Sound lo hi ⟨⟨b.span.size + Span.total s.blocks, ⟨s.heap.holes.first, l ++ (ps ++ r)⟩⟩,
      b :: s.live⟩ := by
  have hmem : hole ∈ s.holes := by simp [hholes]
  have hin := hs.hole_inside hmem
  have hinside : hole.addr ≤ b.addr ∧ b.addr + sizeForHole b.layout ≤ hole.addr + hole.size :=
    hcut.inside
  have hsep := hs.separated
  have hcover := hs.cover
  have htotal := hs.total
  rw [hholes] at hsep hcover htotal
  exact {
    first := hs.first
    separated := hsep.cut hcut
    sized := by
      intro p hp
      rcases List.mem_append.1 hp with hp | hp
      · exact hs.sized p (by simp [hholes, hp])
      · rcases List.mem_append.1 hp with hp | hp
        · exact hps p hp
        · exact hs.sized p (by simp [hholes, hp])
    cover := by
      intro x
      show x ∈ Span.cover (l ++ (ps ++ r)) ↔ _ ∧ x ∉ Span.cover (b.span :: s.blocks)
      rw [cover_cut hsep hcut, hcover, mem_cover_cons]
      tauto
    inside := List.forall_mem_cons.2 ⟨by omega, hs.inside⟩
    aligned := List.forall_mem_cons.2 ⟨⟨halign, hsized⟩, hs.aligned⟩
    rounds := List.forall_mem_cons.2 ⟨hround, hs.rounds⟩
    apart := by
      -- The block lies in a hole, and holes lie apart from the blocks in use.
      refine List.pairwise_cons.2 ⟨fun t ht => ?_, hs.apart⟩
      obtain ⟨c, hc, rfl⟩ := List.mem_map.1 ht
      have hapart := apart_iff.1 (hs.hole_apart hmem hc)
      rw [apart_iff]
      simp only [Block.span] at hapart ⊢
      omega
    used := by simp [Session.blocks]
    total := by
      have := total_cut hcut (l := l) (r := r)
      show Span.total (b.span :: s.blocks) + Span.total (l ++ (ps ++ r)) = _
      rw [total_cons]
      omega }

/-- What the search of `allocate_first_fit` comes to for a layout that can be rounded: it finds no
hole and changes nothing, or takes the block it found. -/
lemma allocateFirstFit_of_round (heap : Heap) (hround : alignLayoutForHole layout = .ok aligned) :
    allocateFirstFit layout heap = .ok (.error (), heap)
      ∨ ∃ info next, Rhubarb.allocateFirstFit aligned heap.holes.next = some (info, next)
        ∧ allocateFirstFit layout heap
          = if info.addr = 0 then .error .nullBlock
            else .ok (.ok info.addr,
              ⟨wrappingAdd heap.used aligned.size, ⟨heap.holes.first, next⟩⟩) := by
  have hlist : HoleList.allocateFirstFit layout heap.holes
      = (Rhubarb.allocateFirstFit aligned heap.holes.next).elim (.ok (.error (), heap.holes))
        fun r => if r.1.addr = 0 then .error .nullBlock
          else .ok (.ok (r.1.addr, aligned), ⟨heap.holes.first, r.2⟩) := by
    rw [HoleList.allocateFirstFit, hround, Comp.bind_apply_ok (Comp.lift_ok_apply _ _),
      Comp.bind_apply_ok (Comp.read_apply _)]
    cases hfound : Rhubarb.allocateFirstFit aligned heap.holes.next with
    | none => rfl
    | some r =>
      simp only [Option.elim_some]
      rw [Comp.bind_apply_ok (Comp.modify_apply _ _)]
      split <;> rfl
  rw [allocateFirstFit, hlist]
  cases hfound : Rhubarb.allocateFirstFit aligned heap.holes.next with
  | none => exact .inl rfl
  | some r =>
    refine .inr ⟨r.1, r.2, rfl, ?_⟩
    by_cases hnull : r.1.addr = 0 <;> simp [hnull]

/-- What the search comes to for any layout; it panics on one that cannot be rounded. -/
lemma allocateFirstFit_cases (layout : Layout) (heap : Heap) :
    allocateFirstFit layout heap = .error .layoutForHole
      ∨ ∃ aligned, alignLayoutForHole layout = .ok aligned
        ∧ (allocateFirstFit layout heap = .ok (.error (), heap)
          ∨ ∃ info next, Rhubarb.allocateFirstFit aligned heap.holes.next = some (info, next)
            ∧ allocateFirstFit layout heap
              = if info.addr = 0 then .error .nullBlock
                else .ok (.ok info.addr,
                  ⟨wrappingAdd heap.used aligned.size, ⟨heap.holes.first, next⟩⟩)) := by
  cases hround : alignLayoutForHole layout with
  | error p =>
    obtain rfl := alignLayoutForHole_eq_error hround
    have hlist : HoleList.allocateFirstFit layout heap.holes = .error .layoutForHole := by
      rw [HoleList.allocateFirstFit, Comp.bind_apply_panic (p := .layoutForHole)]
      rw [hround]
      rfl
    exact .inl (by rw [allocateFirstFit, hlist])
  | ok aligned => exact .inr ⟨aligned, rfl, allocateFirstFit_of_round heap hround⟩

/-- No address computed by the search for a block exceeds the address space. -/
def Fits (s : Session) : Op → Prop
  | .allocate layout =>
    ∀ aligned, alignLayoutForHole layout = .ok aligned → FirstFitFits aligned s.holes
  | .deallocate _ => True

instance Fits.decidable (s : Session) : ∀ op, Decidable (Fits s op)
  | .allocate layout =>
    match hround : alignLayoutForHole layout with
    | .ok aligned => decidable_of_iff (FirstFitFits aligned s.holes) (by simp [Fits, hround])
    | .error _ => isTrue (by simp [Fits, hround])
  | .deallocate _ => isTrue trivial

/-- The block that the search found is taken, if no sum wrapped on the way. -/
lemma taken_sound (hlo : 0 < lo) (hhi : hi < usizeRange) (hs : Sound lo hi s)
    (hround : alignLayoutForHole layout = .ok aligned) {a : Allocation}
    (hholes : s.holes = l ++ hole :: r) (hfits : SplitFits hole aligned)
    (hsplit : splitHole hole aligned = some a)
    (htaken : allocateFirstFit layout s.heap = if a.info.addr = 0 then .error .nullBlock else .ok
      (.ok a.info.addr, ⟨wrappingAdd s.heap.used aligned.size, ⟨s.heap.holes.first, l ++ (a.padding
      ++ r)⟩⟩)) :
    ∃ s', step s (.allocate layout) = .ok s' ∧ Sound lo hi s'
      ∧ s'.live = ⟨a.info.addr, layout⟩ :: s.live := by
  obtain ⟨hsize, halign⟩ := alignLayoutForHole_eq_ok hround
  obtain ⟨hmin, hdvd⟩ := sizeForHole_bounds layout
  rw [← hsize] at hmin hdvd
  have hmem : hole ∈ s.holes := by simp [hholes]
  have hin := hs.hole_inside hmem
  obtain ⟨hcut, hpadding, hasize, haalign, hasized⟩ :=
    splitHole_cut hfits (hs.sized hole hmem) (by omega) hmin hdvd hsplit
  have hblock : Block.span ⟨a.info.addr, layout⟩ = a.info := by
    rw [Block.span, ← hsize, ← hasize]
  rw [← hblock] at hcut hasized
  have hsound := hs.take hholes hcut hpadding (halign ▸ haalign) hasized ⟨aligned, hround⟩
  -- The counter cannot wrap: with the block it still does not exceed the region.
  have hused : wrappingAdd s.heap.used aligned.size
      = (Block.span ⟨a.info.addr, layout⟩).size + total s.blocks := by
    have htotal := hsound.total
    simp only [Session.blocks, List.map_cons, total_cons, Block.span] at htotal
    rw [hs.used, hsize, Session.blocks, wrappingAdd_eq (by omega), Nat.add_comm, Block.span]
  have hnull : a.info.addr ≠ 0 := by
    have := (hsound.inside _ List.mem_cons_self).1
    simp only at this
    omega
  rw [if_neg hnull, hused] at htaken
  exact ⟨_, by rw [step, htaken], hsound, rfl⟩

/-- **Taking a block** keeps the invariant; the only panic is that of a layout that cannot be
rounded. -/
lemma allocate_sound (hlo : 0 < lo) (hhi : hi < usizeRange) (hs : Sound lo hi s)
    (hfits : Fits s (.allocate layout)) :
    step s (.allocate layout) = .error .layoutForHole
      ∨ step s (.allocate layout) = .ok s
      ∨ ∃ s', step s (.allocate layout) = .ok s' ∧ Sound lo hi s' := by
  rcases allocateFirstFit_cases layout s.heap with
    hpanic | ⟨aligned, hround, hfail | ⟨info, next, hfound, htaken⟩⟩
  · exact .inl (by rw [step, hpanic])
  · exact .inr (.inl (by rw [step, hfail]))
  refine .inr (.inr ?_)
  obtain ⟨l, hole, r, a, hholes, rfl, hsplitFits, hsplit, rfl⟩ := allocateFirstFit_eq_some hfound
  obtain ⟨s', hstep, hsound, -⟩ := taken_sound hlo hhi hs hround hholes
    (hsplitFits (hfits aligned hround)) hsplit htaken
  exact ⟨s', hstep, hsound⟩

/-- **Joining a block to the holes**, of which the dummy hole is the first, keeps the
invariant. -/
lemma Sound.free (hs : Sound lo hi s) {i : ℕ} (hb : s.live[i]? = some b) {first : HoleInfo}
    {next : List HoleInfo} (hfirst : first.size = 0)
    (hjoined : Joined (⟨0, 0⟩ :: s.holes) b.span (⟨0, 0⟩ :: next)) (hnext : ∀ n ∈ next, Sized n) :
    Sound lo hi ⟨⟨Span.total s.blocks - b.span.size, ⟨first, next⟩⟩, s.live.eraseIdx i⟩ := by
  have hmem : b ∈ s.live := List.mem_of_getElem? hb
  have hperm : s.live.Perm (b :: s.live.eraseIdx i) := by
    obtain ⟨hlt, rfl⟩ := List.getElem?_eq_some_iff.1 hb
    exact (List.getElem_cons_eraseIdx_perm hlt).symm
  have hblocks : s.blocks.Perm (b.span :: (s.live.eraseIdx i).map Block.span) := hperm.map _
  have hsub : ∀ c ∈ s.live.eraseIdx i, c ∈ s.live := fun c hc => List.mem_of_mem_eraseIdx hc
  have hcover : ∀ x, x ∈ Span.cover s.blocks
      ↔ x ∈ b.span ∨ x ∈ Span.cover ((s.live.eraseIdx i).map Block.span) := by
    intro x
    rw [← mem_cover_cons, mem_cover, mem_cover]
    simp only [hblocks.mem_iff]
  have htotal : Span.total s.blocks
      = b.span.size + Span.total ((s.live.eraseIdx i).map Block.span) := by
    rw [← total_cons]
    exact (hblocks.map Span.size).sum_eq
  obtain ⟨hbapart, hapart⟩ := List.pairwise_cons.1 (hblocks.pairwise hs.apart Apart.symm)
  have hbin := hs.inside b hmem
  exact {
    first := hfirst
    separated := (separated_cons.1 hjoined.separated).2
    sized := hnext
    cover := by
      intro x
      show x ∈ Span.cover next ↔ _ ∧ x ∉ Span.cover ((s.live.eraseIdx i).map Block.span)
      have hfreed : x ∈ b.span → (lo ≤ x ∧ x < hi)
          ∧ x ∉ Span.cover ((s.live.eraseIdx i).map Block.span) := by
        rintro ⟨hle, hlt⟩
        simp only [Block.span, stop] at hle hlt
        refine ⟨by omega, ?_⟩
        rintro ⟨t, ht, hxt⟩
        have hdisjoint := apart_iff.1 (hbapart t ht)
        simp only [Block.span] at hdisjoint
        rw [mem_iff] at hxt
        omega
      have hnone : x ∉ (⟨0, 0⟩ : Span) := fun hx => by simp [mem_iff] at hx
      have hx := hjoined.cover x
      rw [mem_cover_cons, mem_cover_cons, hs.cover, hcover] at hx
      tauto
    inside := fun c hc => hs.inside c (hsub c hc)
    aligned := fun c hc => hs.aligned c (hsub c hc)
    rounds := fun c hc => hs.rounds c (hsub c hc)
    apart := hapart
    used := by
      show Span.total s.blocks - b.span.size = Span.total ((s.live.eraseIdx i).map Block.span)
      omega
    total := by
      have h1 := hs.total
      have h2 := hjoined.total
      simp only [total_cons] at h2
      show Span.total ((s.live.eraseIdx i).map Block.span) + Span.total next = _
      omega }

/-- **Giving a block back** keeps the invariant and does not panic. -/
lemma deallocate_sound (hlo : 0 < lo) (hhi : hi < usizeRange) (hs : Sound lo hi s) (i : ℕ) :
    ∃ s', step s (.deallocate i) = .ok s' ∧ Sound lo hi s' := by
  cases hb : s.live[i]? with
  | none => exact ⟨s, by simp only [step, hb], hs⟩
  | some b =>
    have hmem : b ∈ s.live := List.mem_of_getElem? hb
    obtain ⟨aligned, hround⟩ := hs.rounds b hmem
    obtain ⟨hsize, -⟩ := alignLayoutForHole_eq_ok hround
    have hin := hs.inside b hmem
    have hdummy : extent s.heap.holes.first = ⟨0, 0⟩ := by
      simp [extent, holeAddr, hs.first]
    have hbehind : holeAddr s.heap.holes.first + s.heap.holes.first.size < b.addr := by
      have := congrArg Span.addr hdummy
      simp only [extent] at this
      have := hs.first
      omega
    have hsep : Separated (extent s.heap.holes.first :: s.holes) := by
      rw [hdummy]
      refine separated_cons.2 ⟨fun t ht => ?_, hs.separated⟩
      have := hs.hole_inside ht
      simp only
      omega
    obtain ⟨first', next, hfree, hjoined, hnext, -, -, hkeep⟩ := deallocate_joined hhi
      (by omega) (hs.aligned b hmem).2 hin.2 hbehind.le hsep hs.sized
      (fun n hn => (hs.hole_inside hn).2) (fun n hn => hs.hole_apart hn hmem)
    obtain rfl := hkeep hbehind.ne
    rw [hdummy] at hjoined
    have hused : wrappingSub s.heap.used aligned.size = total s.blocks - b.span.size := by
      rw [hs.used, hsize]
      exact wrappingSub_eq (List.le_sum_of_mem (List.mem_map_of_mem (List.mem_map_of_mem hmem)))
    have hlist : s.heap.holes.deallocate b.addr b.layout
        = .ok (aligned, ⟨s.heap.holes.first, next⟩) := by
      have hfree' : Rhubarb.deallocate b.addr s.heap.holes.first s.heap.holes.next aligned.size
          = .ok (s.heap.holes.first, next) := hsize ▸ hfree
      simp only [HoleList.deallocate, hround, bind, Except.bind, hfree']
      rfl
    have hheap : s.heap.deallocate b.addr b.layout
        = .ok ⟨total s.blocks - b.span.size, ⟨s.heap.holes.first, next⟩⟩ := by
      rw [Heap.deallocate, hlist, ← hused]
      rfl
    refine ⟨_, ?_, hs.free hb hs.first hjoined hnext⟩
    simp only [step, hb, hheap]
    rfl

/-! ### Runs -/

/-- A freshly initialised heap: one hole, the whole region from the first aligned address on. -/
lemma init_sound (heap₀ : Heap) {bottom size : ℕ} (hbottom : 0 < bottom)
    (hround : bottom + holeAlign ≤ usizeRange)
    (hroom : alignUp bottom holeAlign + minAllocSize ≤ bottom + size) :
    ∃ heap, heap₀.init bottom size = some heap
      ∧ Sound (alignUp bottom holeAlign) (bottom + size) ⟨heap, []⟩ := by
  have hle := le_alignUp (k := 3) (by norm_num) hround
  have hdvd := dvd_alignUp (k := 3) (by norm_num) hround
  have hne : alignUp bottom holeAlign ≠ 0 := by
    rw [holeAlign]
    omega
  rw [← holeAlign] at hle hdvd
  simp only [minAllocSize] at hroom
  refine ⟨_, by rw [init, HoleList.init, if_neg hne, wrappingSub_eq hle]; rfl, ?_⟩
  exact {
    first := rfl
    separated := List.pairwise_singleton _ _
    sized := by
      intro hole hhole
      obtain rfl := List.mem_singleton.1 hhole
      exact ⟨by simp only [minAllocSize]; omega, hdvd⟩
    cover := by
      intro x
      show x ∈ Span.cover [_] ↔ _ ∧ x ∉ Span.cover []
      simp only [mem_cover_cons, not_mem_cover_nil, or_false, not_false_eq_true, and_true, mem_iff]
      omega
    inside := by simp
    aligned := by simp
    rounds := by simp
    apart := List.Pairwise.nil
    used := rfl
    total := by
      show 0 + Span.total [_] = _
      simp only [total_cons, total_nil]
      omega }

/-- **One call keeps the invariant**, and panics only over a layout that cannot be rounded. -/
lemma step_sound (hlo : 0 < lo) (hhi : hi < usizeRange) (s : Session) (op : Op)
    (hs : Sound lo hi s) (hfits : Fits s op) :
    Ends (· = Panic.layoutForHole) (step s op) (Sound lo hi) := by
  cases op with
  | allocate layout =>
    rcases allocate_sound hlo hhi hs hfits with hpanic | hfail | ⟨s₁, htaken, hs₁⟩
    · rw [hpanic]
      rfl
    · rw [hfail]
      exact hs
    · rw [htaken]
      exact hs₁
  | deallocate i =>
    obtain ⟨s₁, hfree, hs₁⟩ := deallocate_sound hlo hhi hs i
    rw [hfree]
    exact hs₁

/-- The part of a region that no block in use covers. -/
def unused (lo hi : ℕ) (live : List Block) : Set ℕ :=
  {x | lo ≤ x ∧ x < hi ∧ ∀ b ∈ live, x ∉ b.span}

/-- The holes are the maximal spans of what is unused. -/
lemma Sound.mem_holes_iff (hs : Sound lo hi s) (hole : HoleInfo) :
    hole ∈ s.holes ↔ Maximal (unused lo hi s.live) hole := by
  have hset : unused lo hi s.live = Span.cover s.holes := by
    ext x
    rw [hs.cover]
    simp [unused, Session.blocks, mem_cover, and_assoc]
  rw [hset]
  exact mem_iff_maximal hs.separated (fun h hh => lt_of_lt_of_le (by decide) (hs.sized h hh).1) hole

/-- **The user heap**: in every run of a heap over a region that holds at least one hole, in
which no address computation exceeds the address space, the holes are sorted, aligned, large
enough and exactly the maximal unused parts of the region; the blocks in use lie in the region,
apart from each other and aligned as asked for; giving one back never fails an assertion; `used`
counts their rounded sizes; and an allocation that fails changes nothing.  A run can only be cut
short by a layout that cannot be rounded. -/
theorem heap_run (heap₀ : Heap) {bottom size : ℕ} (hbottom : 0 < bottom)
    (hround : bottom + holeAlign ≤ usizeRange) (hend : bottom + size < usizeRange)
    (hroom : alignUp bottom holeAlign + minAllocSize ≤ bottom + size) :
    ∃ heap, heap₀.init bottom size = some heap ∧
      ∀ ops, Meets step Fits ⟨heap, []⟩ ops →
        (∀ p, run step ⟨heap, []⟩ ops = .error p → p = .layoutForHole)
        ∧ ∀ s, run step ⟨heap, []⟩ ops = .ok s →
          s.holes.Pairwise (fun h k => h.addr < k.addr)
          ∧ (∀ h ∈ s.holes, minAllocSize ≤ h.size ∧ 8 ∣ h.addr)
          ∧ (∀ h, h ∈ s.holes
            ↔ Maximal (unused (alignUp bottom holeAlign) (bottom + size) s.live) h)
          ∧ s.live.Pairwise (fun b c => b.span.Apart c.span)
          ∧ (∀ b ∈ s.live, b.layout.align ∣ b.addr ∧ alignUp bottom holeAlign ≤ b.addr
            ∧ b.addr + sizeForHole b.layout ≤ bottom + size)
          ∧ (∀ i, ∃ s', step s (.deallocate i) = .ok s')
          ∧ s.heap.used = (s.live.map fun b => sizeForHole b.layout).sum
          ∧ ∀ layout heap', allocateFirstFit layout s.heap = .ok (.error (), heap') →
            heap' = s.heap := by
  have hlo : 0 < alignUp bottom holeAlign :=
    hbottom.trans_le (le_alignUp (k := 3) (by norm_num) hround)
  obtain ⟨heap, hinit, hsound⟩ := init_sound heap₀ hbottom hround hroom
  refine ⟨heap, hinit, fun ops hfits => ?_⟩
  have hends := run_ends_of_meets (step_sound hlo hend) hsound hfits
  refine ⟨fun p hrun => hends.reason hrun, fun s hrun => ?_⟩
  have hs := hends.result hrun
  refine ⟨?_, hs.sized, hs.mem_holes_iff, List.pairwise_map.1 hs.apart, fun b hb => ?_,
    fun i => ?_, ?_, fun layout heap' hfail => ?_⟩
  · exact hs.separated.imp fun hlt => (Nat.le_add_right _ _).trans_lt hlt
  · exact ⟨(hs.aligned b hb).1, hs.inside b hb⟩
  · obtain ⟨s', hfree, -⟩ := deallocate_sound hlo hend hs i
    exact ⟨s', hfree⟩
  · rw [hs.used, Session.blocks, Span.total, List.map_map]
    rfl
  · rcases allocateFirstFit_cases layout s.heap with
      hpanic | ⟨aligned, -, hnone | ⟨info, next, -, htaken⟩⟩
    · rw [hpanic] at hfail
      cases hfail
    · rw [hnone] at hfail
      exact ((Prod.mk.inj (Except.ok.inj hfail)).2).symm
    · rw [htaken] at hfail
      split at hfail <;> cases hfail

/-- The heap of a region of 200 bytes from 4097 on. -/
def smallHeap : Heap := ⟨0, ⟨⟨0, 0⟩, [⟨4104, 193⟩]⟩⟩

/-- A block of one byte, one that needs a padding before it, and the first given back. -/
def smallOps : List Op := [.allocate ⟨1, 0, by decide⟩, .allocate ⟨20, 6, by decide⟩, .deallocate 1]

theorem heap_run_small :
    ∃ s, run step ⟨smallHeap, []⟩ smallOps = .ok s
      ∧ s.holes = [⟨4104, 56⟩, ⟨4184, 113⟩] ∧ s.live = [⟨4160, ⟨20, 6, by decide⟩⟩]
      ∧ s.heap.used = 24 := by
  obtain ⟨heap, hinit, hruns⟩ := heap_run (Heap.empty 0) (show 0 < 4097 by decide) (by decide)
    (show 4097 + 200 < usizeRange by decide) (by decide +kernel)
  obtain rfl : heap = smallHeap := by
    have hsmall : (Heap.empty 0).init 4097 200 = some smallHeap := by decide +kernel
    exact Option.some.inj (hinit.symm.trans hsmall)
  obtain ⟨s, hrun, hholes, hlive⟩ : ∃ s, run step ⟨smallHeap, []⟩ smallOps = .ok s
      ∧ s.holes = [⟨4104, 56⟩, ⟨4184, 113⟩] ∧ s.live = [⟨4160, ⟨20, 6, by decide⟩⟩] := by
    decide +kernel
  obtain ⟨-, -, -, -, -, -, hused, -⟩ := (hruns smallOps (by decide +kernel)).2 s hrun
  refine ⟨s, hrun, hholes, hlive, ?_⟩
  rw [hused, hlive]
  decide +kernel

end Heap

end Rhubarb
