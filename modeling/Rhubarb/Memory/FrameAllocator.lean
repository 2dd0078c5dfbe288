import Mathlib.Tactic
import Rhubarb.Foundations.Bitmap
import Rhubarb.Foundations.Runs
import Rhubarb.MemoryTypes.Address

/-!
The physical frame allocator (`FrameAllocator` of `kernel/src/memory.rs`, and the memory map
of `boot-info`).

A bit of the bitmap is set when its frame is used.  `init` marks everything used and then
frees the frames lying wholly inside a `Free` region; `reserveRange`, `allocate` and
`deallocate` follow.  The count of free frames, the bitmap and the search hint are kept up
separately, and `Counted` is the agreement between them.

* `init_counted`: after `init` the count is the number of clear bits, provided that no frame
  is freed by two regions.
* `step_counted`: the agreement survives every operation.
* `allocate_cases`, `deallocate_cases`: what the two operations do to the bitmap, and
  `frameAllocator_run` their statement along every run.
-/

namespace Rhubarb

open Foundations

/-! ### The memory map -/

/-- `MemoryRegionKind`. -/
inductive MemoryRegionKind where
  | free
  | bootloader
  | uefi (tag : ℕ)
  deriving DecidableEq, Repr

/-- `MemoryRegion`. -/
structure MemoryRegion where
  base : ℕ
  size : ℕ
  kind : MemoryRegionKind
  deriving DecidableEq, Repr

/-- `MemoryMap`, the slice behind its pointer and length. -/
abbrev MemoryMap : Type := List MemoryRegion

/-! ### The allocator -/

/-- `MAX_FRAMES`: the allocator manages the first GiB of memory. -/
def maxFrames : ℕ := 262144

/-- `BITMAP_LEN`. -/
def bitmapLen : ℕ := 4096

/-- `FrameAllocator`. -/
structure FrameAllocator where
  bitmap : Bitmap 64
  totalFrames : ℕ
  freeFrames : ℕ
  nextFreeHint : ℕ

variable {s s' : FrameAllocator} {n : ℕ} {words : List ℕ} {region : MemoryRegion} {map : MemoryMap}

/-- `FrameAllocatorError`. -/
inductive FrameAllocatorError where
  | outOfMemory
  | invalidFrame
  deriving DecidableEq, Repr

namespace FrameAllocator

/-- `FrameAllocator::new`. -/
def new : FrameAllocator := ⟨fun _ => 0, 0, 0, 0⟩

def isAllocated (s : FrameAllocator) (frameNum : ℕ) : Bool := s.bitmap.test frameNum

def markUsed (s : FrameAllocator) (frameNum : ℕ) : FrameAllocator :=
  { s with bitmap := s.bitmap.set frameNum }

def markFree (s : FrameAllocator) (frameNum : ℕ) : FrameAllocator :=
  { s with bitmap := s.bitmap.reset frameNum }

/-! #### `init` -/

/-- `first_frame` and `last_frame` of a region: the frames `first_frame..last_frame` are the
ones `init` frees for it. -/
def regionFrames (region : MemoryRegion) : Except Panic (ℕ × ℕ) := do
  let startFrame ← Frame.containingAddr (Address.new region.base)
  let endAddr := (region.base + region.size) % usizeRange
  let endFrame ← Frame.containingAddr (Address.new endAddr)
  let firstFrame :=
    if (Address.new region.base).isPageAligned then startFrame.number
    else startFrame.number + 1
  .ok (firstFrame, endFrame.number)

/-- The body of the inner loop of `init`. -/
def initFrame (s : FrameAllocator) (frameNum : ℕ) : FrameAllocator :=
  if frameNum < maxFrames then
    let s := s.markFree frameNum
    { s with totalFrames := s.totalFrames + 1, freeFrames := s.freeFrames + 1 }
  else s

/-- The body of the outer loop of `init`. -/
def initRegion (s : FrameAllocator) (region : MemoryRegion) : Except Panic FrameAllocator :=
  if region.kind = .free then do
    let (first, last) ← regionFrames region
    .ok ((List.range' first (last - first)).foldl initFrame s)
  else .ok s

/-- Freeing the regions of the map one after the other. -/
def initRegions : FrameAllocator → MemoryMap → Except Panic FrameAllocator
  | s, [] => .ok s
  | s, region :: regions => do
    let s ← s.initRegion region
    s.initRegions regions

/-- The first loop of `init`: everything used. -/
def allUsed (s : FrameAllocator) : FrameAllocator :=
  { s with bitmap := fun _ => BitVec.allOnes 64, totalFrames := 0, freeFrames := 0 }

/-- `FrameAllocator::init`: everything used, then the free regions. -/
def init (s : FrameAllocator) (memoryMap : MemoryMap) : Except Panic FrameAllocator := do
  let s ← s.allUsed.initRegions memoryMap
  .ok { s with nextFreeHint := 0 }

/-! #### `reserve_range` -/

/-- The body of the loop of `reserve_range`. -/
def reserveFrame (s : FrameAllocator) (frameNum : ℕ) : FrameAllocator :=
  if frameNum < maxFrames ∧ s.isAllocated frameNum = false then
    let s := s.markUsed frameNum
    if 0 < s.freeFrames then { s with freeFrames := s.freeFrames - 1 } else s
  else s

/-- `FrameAllocator::reserve_range`. -/
def reserveRange (s : FrameAllocator) (base : Address) (size : ℕ) :
    Except Panic FrameAllocator := do
  let startFrame ← Frame.containingAddr base
  let frameCount := (size + pageSize - 1) / pageSize
  .ok ((List.range' startFrame.number frameCount).foldl reserveFrame s)

/-! #### `allocate` and `deallocate` -/

/-- The search of one loop of `allocate`: the lowest clear bit of the first word that has
one. -/
def findFree (s : FrameAllocator) (words : List ℕ) : Option ℕ :=
  words.findSome? fun wordIndex =>
    if s.bitmap wordIndex ≠ BitVec.allOnes 64 then
      some (wordIndex * 64 + Bitmap.lowestClear (s.bitmap wordIndex))
    else none

/-- Taking the frame a search has found. -/
def take (s : FrameAllocator) (frameNum : ℕ) : Except FrameAllocatorError Frame × FrameAllocator :=
  let s := s.markUsed frameNum
  (.ok ⟨frameNum⟩, { s with freeFrames := s.freeFrames - 1, nextFreeHint := frameNum + 1 })

/-- `FrameAllocator::allocate`: one loop from the word of the hint to the end, one from the
start to that word. -/
def allocate (s : FrameAllocator) : Except FrameAllocatorError Frame × FrameAllocator :=
  if s.freeFrames = 0 then (.error .outOfMemory, s)
  else
    let startWord := s.nextFreeHint / 64
    match s.findFree (List.range' startWord (bitmapLen - startWord)) with
    | some frameNum => s.take frameNum
    | none =>
      match s.findFree (List.range' 0 startWord) with
      | some frameNum => s.take frameNum
      | none => (.error .outOfMemory, s)

/-- `FrameAllocator::deallocate`: a frame that is already free is only warned about. -/
def deallocate (s : FrameAllocator) (frame : Frame) :
    Except FrameAllocatorError Unit × FrameAllocator :=
  if maxFrames ≤ frame.number then (.error .invalidFrame, s)
  else if s.isAllocated frame.number = false then (.ok (), s)
  else
    let s := s.markFree frame.number
    let s := { s with freeFrames := s.freeFrames + 1 }
    (.ok (), if frame.number < s.nextFreeHint then { s with nextFreeHint := frame.number } else s)

/-! ### One frame at a time -/

/-- The number of clear bits of the bitmap. -/
def clearCount (s : FrameAllocator) : ℕ := s.bitmap.clearCount maxFrames

@[simp] lemma isAllocated_markUsed (s : FrameAllocator) (n m : ℕ) :
    (s.markUsed n).isAllocated m = (decide (m = n) || s.isAllocated m) :=
  Bitmap.test_set _ (by norm_num) n m

@[simp] lemma isAllocated_markFree (s : FrameAllocator) (n m : ℕ) :
    (s.markFree n).isAllocated m = (!decide (m = n) && s.isAllocated m) :=
  Bitmap.test_reset _ (by norm_num) n m

lemma clearCount_markUsed (hn : n < maxFrames) (hc : s.isAllocated n = false) :
    (s.markUsed n).clearCount + 1 = s.clearCount :=
  Bitmap.clearCount_set _ (by norm_num) hn hc

lemma clearCount_markFree (hn : n < maxFrames) (hs : s.isAllocated n = true) :
    (s.markFree n).clearCount = s.clearCount + 1 :=
  Bitmap.clearCount_reset _ (by norm_num) hn hs

/-! ### The search -/

lemma findFree_eq_some (h : s.findFree words = some n) :
    n / 64 ∈ words ∧ s.isAllocated n = false := by
  obtain ⟨i, hi, hn⟩ := List.exists_of_findSome?_eq_some h
  by_cases hfull : s.bitmap i ≠ BitVec.allOnes 64
  · rw [if_pos hfull, Option.some.injEq] at hn
    have hlt := Bitmap.lowestClear_lt hfull
    have hdiv : n / 64 = i := by omega
    exact ⟨hdiv ▸ hi, hn ▸ Bitmap.test_lowestClear s.bitmap hfull⟩
  · rw [if_neg hfull] at hn
    cases hn

lemma findFree_eq_none (h : s.findFree words = none) (hn : n / 64 ∈ words) :
    s.isAllocated n = true := by
  have h1 := List.findSome?_eq_none_iff.mp h (n / 64) hn
  by_contra hc
  rw [Bool.not_eq_true] at hc
  rw [if_pos (Bitmap.ne_allOnes_of_test s.bitmap (by norm_num) hc)] at h1
  cases h1

/-- **What `allocate` can do**: refuse and change nothing, when the count is zero or every
bit of the bitmap is set, or take a frame whose bit is clear. -/
lemma allocate_cases (hint : s.nextFreeHint ≤ maxFrames) :
    (s.allocate = (.error .outOfMemory, s)
        ∧ (s.freeFrames = 0 ∨ ∀ n < maxFrames, s.isAllocated n = true))
      ∨ ∃ n < maxFrames, s.isAllocated n = false ∧ 0 < s.freeFrames ∧ s.allocate = s.take n := by
  have hlen : bitmapLen * 64 = maxFrames := rfl
  by_cases h0 : s.freeFrames = 0
  · exact .inl ⟨by rw [allocate, if_pos h0], .inl h0⟩
  set startWord := s.nextFreeHint / 64 with hstart
  have hword : startWord ≤ bitmapLen := by omega
  cases hup : s.findFree (List.range' startWord (bitmapLen - startWord)) with
  | some n =>
    obtain ⟨hmem, hclear⟩ := findFree_eq_some hup
    rw [List.mem_range'_1] at hmem
    refine .inr ⟨n, by omega, hclear, by omega, ?_⟩
    simp only [allocate, if_neg h0, ← hstart, hup]
  | none =>
    cases hlow : s.findFree (List.range' 0 startWord) with
    | some n =>
      obtain ⟨hmem, hclear⟩ := findFree_eq_some hlow
      rw [List.mem_range'_1] at hmem
      refine .inr ⟨n, by omega, hclear, by omega, ?_⟩
      simp only [allocate, if_neg h0, ← hstart, hup, hlow]
    | none =>
      refine .inl ⟨by simp only [allocate, if_neg h0, ← hstart, hup, hlow], .inr ?_⟩
      -- the two loops together visit every word
      intro n hn
      by_cases hlt : n / 64 < startWord
      · exact findFree_eq_none hlow (by rw [List.mem_range'_1]; omega)
      · exact findFree_eq_none hup (by rw [List.mem_range'_1]; omega)

/-! ### The count -/

/-- **The agreement** between the count, the bitmap and the hint: the count is the number of
clear bits, and the hint is at most one past the last frame. -/
structure Counted (s : FrameAllocator) : Prop where
  count : s.freeFrames = s.clearCount
  hint : s.nextFreeHint ≤ maxFrames

/-! #### After `init` -/

lemma isAllocated_initFrame (s : FrameAllocator) (m n : ℕ) :
    (s.initFrame m).isAllocated n
      = (s.isAllocated n && !(decide (n = m) && decide (n < maxFrames))) := by
  by_cases hm : m < maxFrames
  · have hbits : (s.initFrame m).isAllocated n = (s.markFree m).isAllocated n := by
      rw [initFrame, if_pos hm]
      rfl
    rw [hbits, isAllocated_markFree]
    by_cases hnm : n = m
    · simp [hnm, hm]
    · simp [hnm]
  · rw [initFrame, if_neg hm]
    by_cases hnm : n = m
    · simp [hnm, hm]
    · simp [hnm]

lemma isAllocated_foldl_initFrame (s : FrameAllocator) (frames : List ℕ) (n : ℕ) :
    (frames.foldl initFrame s).isAllocated n
      = (s.isAllocated n && !(decide (n ∈ frames) && decide (n < maxFrames))) := by
  induction frames generalizing s with
  | nil => simp
  | cons m frames ih =>
    rw [List.foldl_cons, ih, isAllocated_initFrame]
    by_cases hnm : n = m
    · by_cases hlt : m < maxFrames <;> simp [hnm, hlt]
    · simp [hnm]

/-- Freeing a used frame keeps the count. -/
lemma count_initFrame {m : ℕ} (hused : m < maxFrames → s.isAllocated m = true)
    (hcount : s.freeFrames = s.clearCount) :
    (s.initFrame m).freeFrames = (s.initFrame m).clearCount := by
  by_cases hm : m < maxFrames
  · rw [initFrame, if_pos hm]
    show s.freeFrames + 1 = (s.markFree m).clearCount
    rw [clearCount_markFree hm (hused hm), hcount]
  · rwa [initFrame, if_neg hm]

/-- Freeing used frames without repetition keeps the count. -/
lemma count_foldl_initFrame {frames : List ℕ} (hnd : frames.Nodup)
    (hused : ∀ n ∈ frames, n < maxFrames → s.isAllocated n = true)
    (hcount : s.freeFrames = s.clearCount) :
    (frames.foldl initFrame s).freeFrames = (frames.foldl initFrame s).clearCount := by
  induction frames generalizing s with
  | nil => exact hcount
  | cons m frames ih =>
    rw [List.nodup_cons] at hnd
    refine ih hnd.2 (fun n hn hlt => ?_) (count_initFrame (hused m (by simp)) hcount)
    have hne : n ≠ m := fun h => hnd.1 (h ▸ hn)
    rw [isAllocated_initFrame, hused n (by simp [hn]) hlt]
    simp [hne]

/-- The frame `n` is one of those `init` frees for the region. -/
def Frees (region : MemoryRegion) (n : ℕ) : Prop :=
  region.kind = .free ∧ ∃ first last, regionFrames region = .ok (first, last)
    ∧ first ≤ n ∧ n < last

/-- What freeing one region does. -/
lemma initRegion_eq_ok (h : s.initRegion region = .ok s') :
    ∃ frames : List ℕ, frames.Nodup ∧ (∀ n, n ∈ frames ↔ Frees region n)
      ∧ s' = frames.foldl initFrame s := by
  by_cases hk : region.kind = .free
  · rw [initRegion, if_pos hk] at h
    cases hr : regionFrames region with
    | error p => rw [hr] at h; cases h
    | ok r =>
      obtain ⟨first, last⟩ := r
      rw [hr] at h
      refine ⟨List.range' first (last - first), List.nodup_range', fun n => ?_, ?_⟩
      · rw [List.mem_range'_1]
        constructor
        · intro hn
          exact ⟨hk, first, last, hr, by omega, by omega⟩
        · rintro ⟨-, first', last', hr', h1, h2⟩
          rw [hr] at hr'
          cases hr'
          omega
      · exact (Except.ok.inj h).symm
  · rw [initRegion, if_neg hk] at h
    refine ⟨[], List.nodup_nil, fun n => ?_, (Except.ok.inj h).symm⟩
    simp [Frees, hk]

/-- The bitmap after freeing the regions of a map. -/
lemma isAllocated_initRegions (h : s.initRegions map = .ok s') (n : ℕ) :
    s'.isAllocated n = true
      ↔ s.isAllocated n = true ∧ ¬(n < maxFrames ∧ ∃ region ∈ map, Frees region n) := by
  induction map generalizing s with
  | nil =>
    cases h
    simp
  | cons region map ih =>
    rw [initRegions] at h
    cases h1 : s.initRegion region with
    | error p => rw [h1] at h; cases h
    | ok s₁ =>
      rw [h1] at h
      obtain ⟨frames, -, hmem, rfl⟩ := initRegion_eq_ok h1
      rw [ih h, isAllocated_foldl_initFrame]
      by_cases hf : Frees region n
      · by_cases hlt : n < maxFrames
        · simp [hmem, hf, hlt]
        · simp [hlt]
      · simp [hmem, hf]

/-- No frame is freed by two regions of the map. -/
def SharesNoFrame (map : MemoryMap) : Prop :=
  map.Pairwise fun region region' => ∀ n, ¬(Frees region n ∧ Frees region' n)

/-- Freeing regions that share no frame keeps the count. -/
lemma count_initRegions (h : s.initRegions map = .ok s') (hmap : SharesNoFrame map)
    (hused : ∀ region ∈ map, ∀ n, Frees region n → n < maxFrames → s.isAllocated n = true)
    (hcount : s.freeFrames = s.clearCount) : s'.freeFrames = s'.clearCount := by
  induction map generalizing s with
  | nil =>
    cases h
    exact hcount
  | cons region map ih =>
    rw [initRegions] at h
    cases h1 : s.initRegion region with
    | error p => rw [h1] at h; cases h
    | ok s₁ =>
      rw [h1] at h
      obtain ⟨frames, hnd, hmem, rfl⟩ := initRegion_eq_ok h1
      obtain ⟨hhead, htail⟩ := List.pairwise_cons.mp hmap
      refine ih h htail (fun r hr n hn hlt => ?_) ?_
      · -- a frame of a later region is not among the frames just freed
        have hnot : n ∉ frames := fun hf => hhead r hr n ⟨(hmem n).mp hf, hn⟩
        rw [isAllocated_foldl_initFrame, hused r (by simp [hr]) n hn hlt]
        simp [hnot]
      · exact count_foldl_initFrame hnd
          (fun n hn => hused region (by simp) n ((hmem n).mp hn)) hcount

lemma init_eq_ok (h : s.init map = .ok s') :
    ∃ s₁, s.allUsed.initRegions map = .ok s₁ ∧ s' = { s₁ with nextFreeHint := 0 } := by
  change (s.allUsed.initRegions map).bind _ = _ at h
  cases h1 : s.allUsed.initRegions map with
  | error p => rw [h1] at h; cases h
  | ok s₁ =>
    rw [h1] at h
    exact ⟨s₁, rfl, (Except.ok.inj h).symm⟩

lemma isAllocated_allUsed (s : FrameAllocator) (n : ℕ) : s.allUsed.isAllocated n = true :=
  Bitmap.test_allOnes (by norm_num) n

/-- The bitmap after `init`: free are the frames below `maxFrames` that some region frees. -/
lemma isAllocated_init (h : s.init map = .ok s') (n : ℕ) :
    s'.isAllocated n = true ↔ ¬(n < maxFrames ∧ ∃ region ∈ map, Frees region n) := by
  obtain ⟨s₁, h1, rfl⟩ := init_eq_ok h
  show s₁.isAllocated n = true ↔ _
  rw [isAllocated_initRegions h1 n, isAllocated_allUsed]
  simp

/-- **`init`**: on a map whose free regions share no frame the count is right. -/
lemma init_counted (hmap : SharesNoFrame map) (h : s.init map = .ok s') : s'.Counted := by
  obtain ⟨s₁, h1, rfl⟩ := init_eq_ok h
  have hzero : s.allUsed.freeFrames = s.allUsed.clearCount :=
    (Bitmap.clearCount_allOnes (by norm_num) maxFrames).symm
  have hcount := count_initRegions h1 hmap (fun _ _ n _ _ => s.isAllocated_allUsed n) hzero
  exact ⟨hcount, Nat.zero_le _⟩

/-- The first frame of a region below `2^47` and the one behind its last. -/
lemma regionFrames_of_lt (h : region.base + region.size < 2 ^ 47) :
    regionFrames region = .ok
      (if region.base % 4096 = 0 then region.base / 4096 else region.base / 4096 + 1,
        (region.base + region.size) / 4096) := by
  have hbase : (Address.new region.base).toRaw = region.base := Address.new_of_lt (by omega)
  have hwrap : (region.base + region.size) % usizeRange = region.base + region.size :=
    Nat.mod_eq_of_lt (lt_trans h (by norm_num [usizeRange]))
  have hend : (Address.new (region.base + region.size)).toRaw = region.base + region.size :=
    Address.new_of_lt h
  have hstart := Frame.containingAddr_of_physical (a := Address.new region.base) (by omega)
  have hlast := Frame.containingAddr_of_physical
    (a := Address.new (region.base + region.size)) (by omega)
  rw [hbase] at hstart
  rw [hend] at hlast
  simp only [regionFrames, hwrap, hstart, hlast, bind, Except.bind,
    Address.isPageAligned_iff, hbase]

/-- The frames a region below `2^47` frees: those lying wholly inside it. -/
lemma frees_iff (h : region.base + region.size < 2 ^ 47) (n : ℕ) :
    Frees region n ↔ region.kind = .free ∧ region.base ≤ 4096 * n
      ∧ 4096 * (n + 1) ≤ region.base + region.size := by
  have hframes := regionFrames_of_lt h
  constructor
  · rintro ⟨hk, first, last, hr, h1, h2⟩
    rw [hframes] at hr
    cases hr
    refine ⟨hk, ?_, by omega⟩
    split at h1 <;> omega
  · rintro ⟨hk, h1, h2⟩
    refine ⟨hk, _, _, hframes, ?_, by omega⟩
    split <;> omega

/-- On a map of regions below `2^47` the assertions of `init` hold. -/
lemma init_of_lt (s : FrameAllocator) (h : ∀ region ∈ map, region.base + region.size < 2 ^ 47) :
    ∃ s', s.init map = .ok s' := by
  have hregions : ∀ s : FrameAllocator, ∃ s', s.initRegions map = .ok s' := by
    induction map with
    | nil => exact fun s => ⟨s, rfl⟩
    | cons region map ih =>
      intro s
      obtain ⟨s₁, h₁⟩ : ∃ s₁, s.initRegion region = .ok s₁ := by
        rw [initRegion]
        split
        · rw [regionFrames_of_lt (h region (by simp))]
          exact ⟨_, rfl⟩
        · exact ⟨s, rfl⟩
      obtain ⟨s₂, h₂⟩ := ih (fun r hr => h r (by simp [hr])) s₁
      exact ⟨s₂, by rw [initRegions, h₁]; exact h₂⟩
  obtain ⟨s₁, h₁⟩ := hregions s.allUsed
  exact ⟨_, by rw [init, h₁]; rfl⟩

/-! #### After the operations -/

lemma isAllocated_reserveFrame (s : FrameAllocator) (m n : ℕ) :
    (s.reserveFrame m).isAllocated n
      = (s.isAllocated n || (decide (n = m) && decide (n < maxFrames))) := by
  by_cases hm : m < maxFrames ∧ s.isAllocated m = false
  · have hbits : (s.reserveFrame m).isAllocated n = (s.markUsed m).isAllocated n := by
      rw [reserveFrame, if_pos hm]
      simp only
      split <;> rfl
    rw [hbits, isAllocated_markUsed]
    by_cases hnm : n = m
    · simp [hnm, hm.1]
    · simp [hnm]
  · rw [reserveFrame, if_neg hm]
    by_cases hnm : n = m
    · subst hnm
      by_cases hlt : n < maxFrames
      · have hs : s.isAllocated n = true := by
          by_contra hc
          exact hm ⟨hlt, by simpa using hc⟩
        simp [hs]
      · simp [hlt]
    · simp [hnm]

lemma isAllocated_foldl_reserveFrame (s : FrameAllocator) (frames : List ℕ) (n : ℕ) :
    (frames.foldl reserveFrame s).isAllocated n
      = (s.isAllocated n || (decide (n ∈ frames) && decide (n < maxFrames))) := by
  induction frames generalizing s with
  | nil => simp
  | cons m frames ih =>
    rw [List.foldl_cons, ih, isAllocated_reserveFrame]
    by_cases hnm : n = m
    · by_cases hlt : m < maxFrames <;> simp [hnm, hlt]
    · simp [hnm]

lemma reserveFrame_counted (hs : s.Counted) (m : ℕ) :
    (s.reserveFrame m).Counted := by
  by_cases hm : m < maxFrames ∧ s.isAllocated m = false
  · have hcount := clearCount_markUsed hm.1 hm.2
    have hpos : 0 < (s.markUsed m).freeFrames := by
      show 0 < s.freeFrames
      rw [hs.count]
      omega
    rw [reserveFrame, if_pos hm]
    simp only [if_pos hpos]
    refine ⟨?_, hs.hint⟩
    show s.freeFrames - 1 = (s.markUsed m).clearCount
    rw [hs.count]
    omega
  · rwa [reserveFrame, if_neg hm]

lemma foldl_reserveFrame_counted (hs : s.Counted) (frames : List ℕ) :
    (frames.foldl reserveFrame s).Counted := by
  induction frames generalizing s with
  | nil => exact hs
  | cons m frames ih => exact ih (reserveFrame_counted hs m)

lemma foldl_reserveFrame_nextFreeHint (s : FrameAllocator) (frames : List ℕ) :
    (frames.foldl reserveFrame s).nextFreeHint = s.nextFreeHint := by
  induction frames generalizing s with
  | nil => rfl
  | cons m frames ih =>
    rw [List.foldl_cons, ih, reserveFrame]
    split
    · simp only
      split <;> rfl
    · rfl

lemma reserveRange_eq_ok {base : Address} {size : ℕ} (h : s.reserveRange base size = .ok s') :
    base.toRaw < 2 ^ 47
      ∧ s' = (List.range' (base.toRaw / 4096) ((size + 4095) / 4096)).foldl reserveFrame s := by
  rw [reserveRange] at h
  cases hf : Frame.containingAddr base with
  | error p => rw [hf] at h; cases h
  | ok f =>
    rw [hf] at h
    obtain ⟨hphys, rfl⟩ := Frame.containingAddr_eq_ok hf
    exact ⟨hphys, (Except.ok.inj h).symm⟩

lemma reserveRange_of_physical (s : FrameAllocator) (base : Address) (size : ℕ)
    (h : base.toRaw < 2 ^ 47) : ∃ s', s.reserveRange base size = .ok s' := by
  rw [reserveRange, Frame.containingAddr_of_physical h]
  exact ⟨_, rfl⟩

lemma take_counted (hs : s.Counted) (hn : n < maxFrames) (hc : s.isAllocated n = false) :
    (s.take n).2.Counted := by
  have hcount := clearCount_markUsed hn hc
  refine ⟨?_, hn⟩
  show s.freeFrames - 1 = (s.markUsed n).clearCount
  rw [hs.count]
  omega

/-- **`allocate` on an agreeing state**: it refuses exactly when no bit is clear, and
otherwise takes a frame whose bit is clear. -/
lemma Counted.allocate_cases (hs : s.Counted) :
    (s.allocate = (.error .outOfMemory, s) ∧ ∀ n < maxFrames, s.isAllocated n = true)
      ∨ ∃ n < maxFrames, s.isAllocated n = false ∧ s.allocate = s.take n := by
  rcases FrameAllocator.allocate_cases hs.hint with ⟨heq, hfull⟩ | ⟨n, hn, hc, -, heq⟩
  · refine .inl ⟨heq, ?_⟩
    rcases hfull with h0 | hfull
    · intro n hn
      by_contra hc
      have hpos := (Bitmap.clearCount_pos_iff s.bitmap).mpr ⟨n, hn, (Bool.not_eq_true _).mp hc⟩
      have hcount : s.freeFrames = s.bitmap.clearCount maxFrames := hs.count
      omega
    · exact hfull
  · exact .inr ⟨n, hn, hc, heq⟩

lemma allocate_counted (hs : s.Counted) : s.allocate.2.Counted := by
  rcases hs.allocate_cases with ⟨heq, -⟩ | ⟨n, hn, hc, heq⟩
  · rwa [heq]
  · rw [heq]
    exact take_counted hs hn hc

/-- What `deallocate` can do: nothing, on a frame outside the bitmap or already free, or
clear the frame's bit. -/
lemma deallocate_cases (s : FrameAllocator) (frame : Frame) :
    ((maxFrames ≤ frame.number ∨ s.isAllocated frame.number = false) ∧ (s.deallocate frame).2 = s)
      ∨ (frame.number < maxFrames ∧ s.isAllocated frame.number = true
        ∧ (s.deallocate frame).2 = { s.markFree frame.number with
            freeFrames := s.freeFrames + 1
            nextFreeHint := min frame.number s.nextFreeHint }) := by
  by_cases hmax : maxFrames ≤ frame.number
  · exact .inl ⟨.inl hmax, by rw [deallocate, if_pos hmax]⟩
  by_cases hfree : s.isAllocated frame.number = false
  · exact .inl ⟨.inr hfree, by rw [deallocate, if_neg hmax, if_pos hfree]⟩
  refine .inr ⟨by omega, by simpa using hfree, ?_⟩
  rw [deallocate, if_neg hmax, if_neg hfree]
  by_cases hhint : frame.number < s.nextFreeHint
  · have hmin : min frame.number s.nextFreeHint = frame.number := by omega
    simp [markFree, hhint, hmin]
  · have hmin : min frame.number s.nextFreeHint = s.nextFreeHint := by omega
    simp [markFree, hhint, hmin]

lemma deallocate_counted (hs : s.Counted) (frame : Frame) :
    (s.deallocate frame).2.Counted := by
  rcases s.deallocate_cases frame with ⟨-, heq⟩ | ⟨hn, hused, heq⟩
  · rwa [heq]
  · rw [heq]
    refine ⟨?_, le_trans (min_le_left _ _) hn.le⟩
    show s.freeFrames + 1 = (s.markFree frame.number).clearCount
    rw [clearCount_markFree hn hused, hs.count]

/-! ### Runs -/

/-- The operations of the allocator after `init`. -/
inductive Op where
  | reserveRange (base : Address) (size : ℕ)
  | allocate
  | deallocate (frame : Frame)
  deriving DecidableEq, Repr

/-- The state after an operation. -/
def step (s : FrameAllocator) : Op → Except Panic FrameAllocator
  | .reserveRange base size => s.reserveRange base size
  | .allocate => .ok s.allocate.2
  | .deallocate frame => .ok (s.deallocate frame).2

/-- Every operation keeps the agreement. -/
lemma step_counted (s : FrameAllocator) (op : Op) (s' : FrameAllocator) (hs : s.Counted)
    (h : s.step op = .ok s') : s'.Counted := by
  cases op with
  | reserveRange base size =>
    obtain ⟨-, rfl⟩ := reserveRange_eq_ok h
    exact foldl_reserveFrame_counted hs _
  | allocate =>
    cases h
    exact allocate_counted hs
  | deallocate frame =>
    cases h
    exact deallocate_counted hs frame

/-- The hint of a reachable state is at most one past the last frame. -/
lemma step_hint (s : FrameAllocator) (op : Op) (s' : FrameAllocator)
    (hs : s.nextFreeHint ≤ maxFrames) (h : s.step op = .ok s') :
    s'.nextFreeHint ≤ maxFrames := by
  cases op with
  | reserveRange base size =>
    obtain ⟨-, rfl⟩ := reserveRange_eq_ok h
    rwa [foldl_reserveFrame_nextFreeHint]
  | allocate =>
    cases h
    rcases allocate_cases hs with ⟨heq, -⟩ | ⟨n, hn, -, -, heq⟩
    · rwa [heq]
    · rw [heq]
      exact hn
  | deallocate frame =>
    cases h
    rcases s.deallocate_cases frame with ⟨-, heq⟩ | ⟨hn, -, heq⟩
    · rwa [heq]
    · rw [heq]
      exact le_trans (min_le_left _ _) hn.le

lemma init_hint (h : s.init map = .ok s') :
    s'.nextFreeHint ≤ maxFrames := by
  obtain ⟨s₁, -, rfl⟩ := init_eq_ok h
  exact Nat.zero_le _

/-- **The frame allocator along every run**: after `init` on a map whose free regions share
no frame, and any sequence of operations, the count is the number of clear bits; `allocate`
fails exactly when no bit is clear and then changes nothing, and otherwise sets one clear bit
and no other; `deallocate` changes at most the bit of its frame, and nothing at all for a
frame outside the bitmap or already free. -/
theorem frameAllocator_run {s₀ s₁ s : FrameAllocator} {map : MemoryMap} {ops : List Op}
    (hmap : SharesNoFrame map) (hinit : s₀.init map = .ok s₁)
    (hrun : run step s₁ ops = .ok s) :
    s.freeFrames = s.clearCount
      ∧ (s.allocate.1 = .error .outOfMemory ↔ ∀ n < maxFrames, s.isAllocated n = true)
      ∧ (∀ e, s.allocate.1 = .error e → s.allocate.2 = s)
      ∧ (∀ f, s.allocate.1 = .ok f →
          f.number < maxFrames ∧ s.isAllocated f.number = false
            ∧ s.allocate.2.isAllocated f.number = true
            ∧ ∀ m, m ≠ f.number → s.allocate.2.isAllocated m = s.isAllocated m)
      ∧ (∀ f m, m ≠ f.number → (s.deallocate f).2.isAllocated m = s.isAllocated m)
      ∧ (∀ f, maxFrames ≤ f.number ∨ s.isAllocated f.number = false →
          (s.deallocate f).2 = s) := by
  have hs : s.Counted := run_invariant step_counted (init_counted hmap hinit) hrun
  refine ⟨hs.count, ?_, ?_, ?_, ?_, ?_⟩
  · rcases hs.allocate_cases with ⟨heq, hfull⟩ | ⟨n, hn, hc, heq⟩
    · exact ⟨fun _ => hfull, fun _ => by rw [heq]⟩
    · constructor
      · intro h
        rw [heq] at h
        cases h
      · intro h
        rw [h n hn] at hc
        cases hc
  · intro e he
    rcases hs.allocate_cases with ⟨heq, -⟩ | ⟨n, -, -, heq⟩
    · rw [heq]
    · rw [heq] at he
      cases he
  · intro f hf
    rcases hs.allocate_cases with ⟨heq, -⟩ | ⟨n, hn, hc, heq⟩
    · rw [heq] at hf
      cases hf
    · rw [heq] at hf ⊢
      cases hf
      refine ⟨hn, hc, ?_, fun m hm => ?_⟩
      · show (s.markUsed n).isAllocated n = true
        simp
      · show (s.markUsed n).isAllocated m = s.isAllocated m
        have hne : m ≠ n := hm
        simp [hne]
  · intro f m hm
    rcases s.deallocate_cases f with ⟨-, heq⟩ | ⟨-, -, heq⟩
    · rw [heq]
    · rw [heq]
      show (s.markFree f.number).isAllocated m = s.isAllocated m
      simp [hm]
  · intro f hf
    rcases s.deallocate_cases f with ⟨-, heq⟩ | ⟨hn, hused, -⟩
    · exact heq
    · rcases hf with h | h
      · omega
      · rw [hused] at h
        cases h

/-- A map with one free page, and a run that reserves it, frees it and allocates it again. -/
theorem frameAllocator_run_one_page :
    ∃ s₁ s, new.init [⟨0x100000, 0x1000, .free⟩] = .ok s₁
      ∧ run step s₁ [.reserveRange ⟨0x100000⟩ 1, .deallocate ⟨0x100⟩, .allocate] = .ok s
      ∧ s.freeFrames = s.clearCount ∧ s.freeFrames = 0 := by
  refine ⟨_, _, rfl, rfl, ?_, rfl⟩
  exact (@frameAllocator_run new _ _ [⟨0x100000, 0x1000, .free⟩]
    [.reserveRange ⟨0x100000⟩ 1, .deallocate ⟨0x100⟩, .allocate]
    (List.pairwise_singleton _ _) rfl rfl).1

end FrameAllocator

end Rhubarb
