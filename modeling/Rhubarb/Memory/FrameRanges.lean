import Rhubarb.Foundations.Spans
import Rhubarb.Memory.FrameAllocator

/-!
Which frames are free, and which one is given out.

* `hint_run`: along every run the frames below `next_free_hint` are used, so that `allocate`,
  which starts at the word of the hint, gives out the lowest free frame.
* `init_free_iff`: after `init` the free frames are those that lie wholly inside one `Free`
  region, whatever the order of the regions.
* `reserveRange_exact_iff`: `reserve_range` counts its frames from the size alone; it misses the
  last frame of a range whose base is unaligned when the range reaches one frame further.
-/

namespace Rhubarb.FrameAllocator

open Foundations

variable {s s' : FrameAllocator}

/-! ### The hint -/

/-- All frames below the hint are used. -/
def Tight (s : FrameAllocator) : Prop := ∀ n < s.nextFreeHint, s.isAllocated n = true

/-- A search over consecutive words finds the lowest clear bit of them. -/
lemma isAllocated_of_lt_findFree {start len n m : ℕ}
    (h : s.findFree (List.range' start len) = some n) (hstart : start * 64 ≤ m) (hm : m < n) :
    s.isAllocated m = true := by
  induction len generalizing start with
  | zero => cases h
  | succ len ih =>
    rw [List.range'_succ, findFree, List.findSome?_cons] at h
    by_cases hfull : s.bitmap start ≠ BitVec.allOnes 64
    · simp only [if_pos hfull, Option.some.injEq] at h
      exact Bitmap.test_of_lt_lowestClear s.bitmap hstart (h ▸ hm) hfull
    · simp only [if_neg hfull] at h
      by_cases hnext : (start + 1) * 64 ≤ m
      · exact ih h hnext
      · -- the word of `m` is the full one that was passed over
        by_contra hclear
        rw [Bool.not_eq_true] at hclear
        have hword : m / 64 = start := by omega
        exact hfull (hword ▸ Bitmap.ne_allOnes_of_test s.bitmap (by norm_num) hclear)

/-- **The frame `allocate` gives out** is the lowest free one. -/
lemma Tight.allocate (h : s.Tight) (hint : s.nextFreeHint ≤ maxFrames) {f : Frame}
    (ha : s.allocate.1 = .ok f) :
    s.allocate = s.take f.number ∧ f.number < maxFrames ∧ s.isAllocated f.number = false
      ∧ ∀ n < f.number, s.isAllocated n = true := by
  rcases allocate_cases hint with ⟨heq, -⟩ | ⟨n, hn, hfree, hpos, heq⟩
  · rw [heq] at ha
    cases ha
  have hf : f = ⟨n⟩ := by
    rw [heq] at ha
    exact (Except.ok.inj ha).symm
  subst hf
  refine ⟨heq, hn, hfree, fun m hm => ?_⟩
  by_cases hlow : m < s.nextFreeHint
  · exact h m hlow
  -- the words of the second loop lie below the hint, so the first one has found `n`
  have hup : s.findFree (List.range' (s.nextFreeHint / 64) (bitmapLen - s.nextFreeHint / 64))
      = some n := by
    rw [FrameAllocator.allocate, if_neg (by omega)] at ha
    simp only at ha
    split at ha
    · next k hk =>
        cases ha
        exact hk
    · split at ha
      · next k hk =>
          cases ha
          obtain ⟨hmem, hclear⟩ := findFree_eq_some hk
          rw [List.mem_range'_1] at hmem
          rw [h n (by omega)] at hclear
          cases hclear
      · cases ha
  exact isAllocated_of_lt_findFree hup (by omega) hm

/-- Every operation keeps the frames below the hint used. -/
lemma step_tight (s : FrameAllocator) (op : Op) (s' : FrameAllocator)
    (hs : s.Tight ∧ s.nextFreeHint ≤ maxFrames) (h : s.step op = .ok s') :
    s'.Tight ∧ s'.nextFreeHint ≤ maxFrames := by
  refine ⟨fun n hn => ?_, step_hint s op s' hs.2 h⟩
  cases op with
  | reserveRange base size =>
    obtain ⟨-, rfl⟩ := reserveRange_eq_ok h
    rw [foldl_reserveFrame_nextFreeHint] at hn
    rw [isAllocated_foldl_reserveFrame, hs.1 n hn, Bool.true_or]
  | allocate =>
    cases h
    cases ha : s.allocate.1 with
    | error e =>
      rcases allocate_cases hs.2 with ⟨heq, -⟩ | ⟨m, -, -, -, heq⟩
      · rw [heq] at hn ⊢
        exact hs.1 n hn
      · rw [heq] at ha
        cases ha
    | ok f =>
      obtain ⟨heq, -, -, hlow⟩ := hs.1.allocate hs.2 ha
      rw [heq] at hn ⊢
      show (s.markUsed f.number).isAllocated n = true
      have hle : n < f.number + 1 := hn
      rcases Nat.lt_succ_iff_lt_or_eq.mp hle with hlt | rfl
      · rw [isAllocated_markUsed, hlow n hlt, Bool.or_true]
      · simp
  | deallocate frame =>
    cases h
    rcases s.deallocate_cases frame with ⟨-, heq⟩ | ⟨-, -, heq⟩
    · rw [heq] at hn ⊢
      exact hs.1 n hn
    · rw [heq] at hn ⊢
      have hmin : n < min frame.number s.nextFreeHint := hn
      show (s.markFree frame.number).isAllocated n = true
      rw [isAllocated_markFree, hs.1 n (by omega)]
      have hne : n ≠ frame.number := by omega
      simp [hne]

/-- **The hint along every run**: after `init` and any sequence of operations all frames below the
hint are used, and `allocate` gives out the lowest free frame. -/
theorem hint_run {s₀ s₁ s : FrameAllocator} {map : MemoryMap} {ops : List Op}
    (hinit : s₀.init map = .ok s₁) (hrun : run step s₁ ops = .ok s) :
    (∀ n < s.nextFreeHint, s.isAllocated n = true)
      ∧ ∀ f, s.allocate.1 = .ok f → f.number < maxFrames ∧ s.isAllocated f.number = false
        ∧ ∀ n < f.number, s.isAllocated n = true := by
  have hstart : s₁.Tight ∧ s₁.nextFreeHint ≤ maxFrames := by
    obtain ⟨s₂, -, rfl⟩ := init_eq_ok hinit
    exact ⟨fun n hn => (Nat.not_lt_zero n hn).elim, Nat.zero_le _⟩
  obtain ⟨htight, hint⟩ := run_invariant step_tight hstart hrun
  exact ⟨htight, fun f hf => (htight.allocate hint hf).2⟩

/-- A map with two free pages: the first is given out, given back and given out again. -/
theorem hint_run_two_pages :
    ∃ s₁ s, new.init [⟨0x100000, 0x2000, .free⟩] = .ok s₁
      ∧ run step s₁ [.allocate, .allocate, .deallocate ⟨0x100⟩] = .ok s
      ∧ s.allocate.1 = .ok ⟨0x100⟩ ∧ ∀ n < 0x100, s.isAllocated n = true := by
  refine ⟨_, _, rfl, rfl, by decide +kernel, ?_⟩
  exact ((@hint_run new _ _ [⟨0x100000, 0x2000, .free⟩]
    [.allocate, .allocate, .deallocate ⟨0x100⟩] rfl rfl).2 ⟨0x100⟩ (by decide +kernel)).2.2

/-! ### The memory map -/

/-- The frame lies wholly inside a `Free` region of the map. -/
def InFreeRegion (map : MemoryMap) (n : ℕ) : Prop :=
  ∃ region ∈ map, region.kind = .free ∧ region.base ≤ 4096 * n
    ∧ 4096 * (n + 1) ≤ region.base + region.size

lemma exists_frees_iff {map : MemoryMap}
    (hmap : ∀ region ∈ map, region.base + region.size < 2 ^ 47) (n : ℕ) :
    (∃ region ∈ map, Frees region n) ↔ InFreeRegion map n := by
  refine exists_congr fun region => and_congr_right fun hmem => ?_
  exact frees_iff (hmap region hmem) n

/-- **The free frames after `init`**: those wholly inside one `Free` region; the bitmap does not
depend on the order of the regions. -/
theorem init_free_iff (s : FrameAllocator) {map : MemoryMap}
    (hmap : ∀ region ∈ map, region.base + region.size < 2 ^ 47) :
    ∃ s', s.init map = .ok s'
      ∧ (∀ n, s'.isAllocated n = false ↔ n < maxFrames ∧ InFreeRegion map n)
      ∧ ∀ map' : MemoryMap, map'.Perm map →
        ∃ s'', s.init map' = .ok s'' ∧ s''.bitmap = s'.bitmap := by
  obtain ⟨s', hinit⟩ := init_of_lt s hmap
  refine ⟨s', hinit, fun n => ?_, fun map' hperm => ?_⟩
  · have hused := isAllocated_init hinit n
    rw [exists_frees_iff hmap] at hused
    rw [← Bool.not_eq_true, hused, not_not]
  · have hmap' : ∀ region ∈ map', region.base + region.size < 2 ^ 47 :=
      fun region hr => hmap region (hperm.mem_iff.mp hr)
    obtain ⟨s'', hinit'⟩ := init_of_lt s hmap'
    refine ⟨s'', hinit', Bitmap.ext_test (by norm_num) fun n => ?_⟩
    rw [Bool.eq_iff_iff]
    refine (isAllocated_init hinit' n).trans (Iff.trans ?_ (isAllocated_init hinit n).symm)
    simp only [hperm.mem_iff]

/-- Two overlapping regions, of which one is unaligned, in either order. -/
theorem init_free_iff_overlapping :
    ∃ s', new.init [⟨0x100800, 0x2800, .free⟩, ⟨0x101000, 0x1000, .free⟩] = .ok s'
      ∧ (s'.isAllocated 0x101 = false ↔ 0x101 < maxFrames
        ∧ InFreeRegion [⟨0x100800, 0x2800, .free⟩, ⟨0x101000, 0x1000, .free⟩] 0x101) := by
  obtain ⟨s', hinit, hfree, -⟩ := @init_free_iff new
    [⟨0x100800, 0x2800, .free⟩, ⟨0x101000, 0x1000, .free⟩] (by decide)
  exact ⟨s', hinit, hfree 0x101⟩

/-! ### Reserving a range -/

/-- The frame intersects the bytes of a span. -/
def Touches (span : Span) (n : ℕ) : Prop := ∃ x ∈ span, x / 4096 = n

lemma touches_iff {span : Span} {n : ℕ} :
    Touches span n ↔ 0 < span.size ∧ span.addr / 4096 ≤ n
      ∧ n ≤ (span.addr + span.size - 1) / 4096 := by
  constructor
  · rintro ⟨x, hx, rfl⟩
    rw [Span.mem_iff] at hx
    omega
  · rintro ⟨hpos, hlow, hhigh⟩
    refine ⟨max span.addr (4096 * n), Span.mem_iff.mpr ?_, ?_⟩ <;> omega

/-- The frames below `maxFrames` that intersect the range are used, and no other bit has
changed. -/
structure ReservesExactly (s s' : FrameAllocator) (base : Address) (size : ℕ) : Prop where
  used : ∀ n < maxFrames, Touches ⟨base.toRaw, size⟩ n → s'.isAllocated n = true
  kept : ∀ n, ¬(n < maxFrames ∧ Touches ⟨base.toRaw, size⟩ n) →
    s'.isAllocated n = s.isAllocated n

/-- The frames the loop goes over intersect the range; the last frame of the range is not among
them if the range starts and ends in the middle of frames and reaches one frame further. -/
lemma touches_iff_mem_range {base size n : ℕ} :
    Touches ⟨base, size⟩ n ↔ n ∈ List.range' (base / 4096) ((size + 4095) / 4096)
      ∨ 4096 ≤ base % 4096 + (size - 1) % 4096 ∧ n = (base + size - 1) / 4096 := by
  rw [touches_iff, List.mem_range'_1]
  simp only
  omega

/-- **`reserve_range`** reserves its range exactly, unless the range reaches a frame further than
its size alone says, and that frame was free. -/
theorem reserveRange_exact_iff (s : FrameAllocator) {base : Address} (size : ℕ)
    (hbase : base.toRaw < 2 ^ 47) :
    ∃ s', s.reserveRange base size = .ok s'
      ∧ (ReservesExactly s s' base size ↔
        base.toRaw % 4096 + (size - 1) % 4096 < 4096
          ∨ maxFrames ≤ (base.toRaw + size - 1) / 4096
          ∨ s.isAllocated ((base.toRaw + size - 1) / 4096) = true) := by
  obtain ⟨s', h⟩ := s.reserveRange_of_physical base size hbase
  refine ⟨s', h, ?_⟩
  obtain ⟨-, rfl⟩ := reserveRange_eq_ok h
  set frames := List.range' (base.toRaw / 4096) ((size + 4095) / 4096) with hframes
  have hbit := s.isAllocated_foldl_reserveFrame frames
  -- the frame behind the loop's last one is left as it was
  have hlast : 4096 ≤ base.toRaw % 4096 + (size - 1) % 4096 →
      (base.toRaw + size - 1) / 4096 ∉ frames := by
    intro hreach hmem
    rw [hframes, List.mem_range'_1] at hmem
    omega
  constructor
  · intro hexact
    by_contra hcond
    simp only [not_or, not_lt, not_le, Bool.not_eq_true] at hcond
    obtain ⟨hreach, hlt, hfree⟩ := hcond
    have hused := hexact.used _ hlt (touches_iff_mem_range.mpr (Or.inr ⟨hreach, rfl⟩))
    rw [hbit, hfree] at hused
    simp [hlast hreach] at hused
  · intro hcond
    refine ⟨fun n hn htouch => ?_, fun n hn => ?_⟩
    · rw [hbit]
      rcases touches_iff_mem_range.mp htouch with hmem | ⟨hreach, rfl⟩
      · simp [hframes, hmem, hn]
      · rcases hcond with hc | hc | hc
        · omega
        · omega
        · rw [hc, Bool.true_or]
    · rw [hbit]
      have hnot : ¬(n ∈ frames ∧ n < maxFrames) :=
        fun hc => hn ⟨hc.2, touches_iff_mem_range.mpr (Or.inl hc.1)⟩
      rcases not_and_or.mp hnot with hc | hc <;> simp [hc]

theorem reserveRange_exact_iff_aligned :
    (⟨0x1000⟩ : Address).toRaw < 2 ^ 47
      ∧ ∃ s', new.reserveRange ⟨0x1000⟩ 0x1001 = .ok s'
        ∧ ReservesExactly new s' ⟨0x1000⟩ 0x1001 := by
  obtain ⟨s', h, hiff⟩ := @reserveRange_exact_iff new ⟨0x1000⟩ 0x1001 (by decide)
  exact ⟨by decide, s', h, hiff.mpr (Or.inl (by decide))⟩

/-- Two bytes on either side of a frame boundary: the second frame stays free. -/
theorem reserveRange_misses_frame :
    ∃ s', new.reserveRange ⟨0xfff⟩ 2 = .ok s' ∧ Touches ⟨0xfff, 2⟩ 1 ∧ 1 < maxFrames
      ∧ s'.isAllocated 1 = false ∧ ¬ReservesExactly new s' ⟨0xfff⟩ 2 := by
  have htouch : Touches ⟨0xfff, 2⟩ 1 := ⟨0x1000, ⟨by decide, by decide⟩, by decide⟩
  have hlt : 1 < maxFrames := by decide
  refine ⟨_, rfl, htouch, hlt, by decide +kernel, fun h => ?_⟩
  exact absurd (h.used 1 hlt htouch) (by decide +kernel)

end Rhubarb.FrameAllocator
