import Rhubarb.Heap.Invariant

/-!
The user heap at its place near the top of the address space (`heap/llff.rs`, `heap/heap.rs`).

The heap of a process starts at `heap::BASE_ADDR`, two tebibytes below the end of the address
space.  `split_hole` adds the size of a request to an address in the heap and compares the sum
with the end of the hole: when the sum wraps it is small, and the hole is accepted.  So the test
is right exactly for the requests whose end, computed without wrapping, is an address.

* `frontAddr`: where a block goes in a hole, computed without wrapping.
* `splitFits_of_lt`: no sum of `split_hole` wraps if the end of the block does not.
* `splitHole_of_le`: otherwise `split_hole` accepts the hole, with a block that is not in it.
* `allocate_inside_iff`: every call in every run of a heap inside the domain.
* `allocate_outside`: a request of two tebibytes is granted.
-/

namespace Rhubarb

open Foundations Span

/-- `heap::BASE_ADDR`. -/
def heapBaseAddr : ℕ := AddressDomain.userHeap.baseAddr.toRaw

/-- The end of the `UserHeap` domain, where the next one starts. -/
def heapEndAddr : ℕ := AddressDomain.kernelHeap.baseAddr.toRaw

lemma heapBaseAddr_eq : heapBaseAddr = 2 ^ 64 - 2 ^ 41 := by decide +kernel

lemma heapEndAddr_eq : heapEndAddr = 2 ^ 64 - 2 ^ 41 + 2 ^ 39 := by decide +kernel

/-- Where a block with an alignment goes in a hole, computed without wrapping: at the address of
the hole, or behind a padding with room for a hole. -/
def frontAddr (addr align : ℕ) : ℕ :=
  if align ∣ addr then addr else (addr + minAllocSize + align - 1) / align * align

/-- Rounding up an address whose sum with the alignment wraps gives address 0. -/
lemma alignUp_wrapped {addr k : ℕ} (hk : k < 64) (haddr : addr < usizeRange)
    (h : usizeRange < addr + 2 ^ k) : alignUp addr (2 ^ k) = 0 := by
  have hpow : 2 ^ k ≤ usizeRange := Nat.pow_le_pow_right (by norm_num) hk.le
  have hsum : wrappingSub (wrappingAdd addr (2 ^ k)) 1 = addr + 2 ^ k - usizeRange - 1 := by
    have hmod : wrappingAdd addr (2 ^ k) = addr + 2 ^ k - usizeRange := by
      rw [wrappingAdd, Nat.mod_eq_sub_mod h.le, Nat.mod_eq_of_lt (by omega)]
    rw [hmod, wrappingSub_eq (by omega)]
  rw [alignUp, hsum, and_not_low hk (by omega), Nat.div_eq_of_lt (by omega), Nat.zero_mul]

/-- A multiple of a power of two below the end of the address space leaves room for it. -/
lemma add_le_of_dvd {addr k : ℕ} (hk : k < 64) (hdvd : 2 ^ k ∣ addr) (h : addr < usizeRange) :
    addr + 2 ^ k ≤ usizeRange := by
  have hrange : 2 ^ k ∣ usizeRange := Nat.pow_dvd_pow 2 hk.le
  have hsub : 2 ^ k ∣ usizeRange - addr := Nat.dvd_sub hrange hdvd
  have := Nat.le_of_dvd (by omega) hsub
  omega

variable {hole : HoleInfo} {layout : Layout}

/-- Between an address that is not aligned and the place of the block there is the padding. -/
lemma frontAddr_bounds {addr k : ℕ} (hdvd : ¬2 ^ k ∣ addr) :
    2 ^ k ∣ frontAddr addr (2 ^ k) ∧ addr + minAllocSize ≤ frontAddr addr (2 ^ k)
      ∧ frontAddr addr (2 ^ k) < addr + minAllocSize + 2 ^ k := by
  have hpos : 0 < 2 ^ k := Nat.two_pow_pos k
  have hlt := Nat.lt_div_mul_add (a := addr + minAllocSize + 2 ^ k - 1) hpos
  have hle := Nat.div_mul_le_self (addr + minAllocSize + 2 ^ k - 1) (2 ^ k)
  rw [frontAddr, if_neg hdvd]
  exact ⟨Nat.dvd_mul_left _ _, by omega, by omega⟩

/-- An aligned address is found to be aligned. -/
lemma frontOf_of_dvd (hdvd : layout.align ∣ hole.addr) (hlt : hole.addr < usizeRange) :
    frontOf hole layout = (hole.addr, none) := by
  have hk := layout.alignLog.isLt
  have heq : hole.addr = alignUp hole.addr layout.align :=
    (alignUp_of_dvd hk (add_le_of_dvd hk hdvd hlt) hdvd).symm
  rw [frontOf, if_pos heq]

/-- An address that is not aligned is found not to be, even if rounding it up wraps. -/
lemma ne_alignUp_of_not_dvd (hdvd : ¬layout.align ∣ hole.addr) (hlt : hole.addr < usizeRange) :
    hole.addr ≠ alignUp hole.addr layout.align := by
  have hk := layout.alignLog.isLt
  intro heq
  rcases Nat.lt_or_ge usizeRange (hole.addr + layout.align) with hwrap | hfits
  · rw [Layout.align, alignUp_wrapped hk hlt hwrap] at heq
    exact hdvd (heq ▸ dvd_zero _)
  · exact hdvd (heq ▸ dvd_alignUp hk hfits)

/-- Where `split_hole` puts the block, if its place does not wrap. -/
lemma frontOf_fst (hlt : hole.addr < usizeRange)
    (hfront : frontAddr hole.addr layout.align < usizeRange) :
    (frontOf hole layout).1 = frontAddr hole.addr layout.align := by
  have hk := layout.alignLog.isLt
  by_cases hdvd : layout.align ∣ hole.addr
  · rw [frontOf_of_dvd hdvd hlt, frontAddr, if_pos hdvd]
  · obtain ⟨hmul, hle, -⟩ := frontAddr_bounds hdvd
    have hroom := add_le_of_dvd hk hmul hfront
    have hpos : 0 < 2 ^ (layout.alignLog : ℕ) := Nat.two_pow_pos _
    have hsum : wrappingAdd hole.addr minAllocSize = hole.addr + minAllocSize :=
      wrappingAdd_eq (by omega)
    rw [frontOf, if_neg (ne_alignUp_of_not_dvd hdvd hlt), hsum, frontAddr, if_neg hdvd]
    exact alignUp_eq hk (hroom.trans' (Nat.add_le_add_right hle _))

/-- **No sum wraps** if the end of the block does not. -/
lemma splitFits_of_lt (hlt : hole.addr < usizeRange)
    (hstop : frontAddr hole.addr layout.align + layout.size < usizeRange) :
    SplitFits hole layout := by
  have hk := layout.alignLog.isLt
  have hfront : frontAddr hole.addr layout.align < usizeRange := by omega
  refine ⟨?_, fun hne => ?_, by rwa [frontOf_fst hlt hfront]⟩
  · by_cases hdvd : layout.align ∣ hole.addr
    · exact add_le_of_dvd hk hdvd hlt
    · obtain ⟨hmul, hle, -⟩ := frontAddr_bounds hdvd
      have hroom := add_le_of_dvd hk hmul hfront
      exact hroom.trans' (Nat.add_le_add_right (by omega) _)
  · have hdvd : ¬layout.align ∣ hole.addr := by
      intro hdvd
      exact hne (alignUp_of_dvd hk (add_le_of_dvd hk hdvd hlt) hdvd).symm
    obtain ⟨hmul, hle, -⟩ := frontAddr_bounds hdvd
    exact (add_le_of_dvd hk hmul hfront).trans' (Nat.add_le_add_right hle _)

/-- Where `split_hole` puts the block, if its place wraps: at address 0. -/
lemma frontOf_wrapped (hlt : hole.addr + minAllocSize < usizeRange)
    (hfront : usizeRange ≤ frontAddr hole.addr layout.align) :
    (frontOf hole layout).1 = 0 := by
  have hk := layout.alignLog.isLt
  have hdvd : ¬layout.align ∣ hole.addr := by
    intro hdvd
    rw [frontAddr, if_pos hdvd] at hfront
    omega
  have hbound : usizeRange < hole.addr + minAllocSize + layout.align :=
    hfront.trans_lt (frontAddr_bounds hdvd).2.2
  rw [frontOf, if_neg (ne_alignUp_of_not_dvd hdvd (by omega)), wrappingAdd_eq hlt]
  exact alignUp_wrapped hk hlt hbound

/-- What `split_hole` accepts when its test comes out right and the rest is not too small. -/
lemma splitHole_eq_some {addr : ℕ} (haddr : (frontOf hole layout).1 = addr)
    (htest : wrappingAdd addr layout.size ≤ wrappingAdd hole.addr hole.size)
    (hrest : wrappingSub hole.size (wrappingSub addr hole.addr) ≠ layout.size →
      minAllocSize ≤ wrappingSub (wrappingSub hole.size (wrappingSub addr hole.addr)) layout.size) :
    ∃ a, splitHole hole layout = some a ∧ a.info = ⟨addr, layout.size⟩ := by
  rw [splitHole]
  generalize hfo : frontOf hole layout = fo at *
  obtain ⟨alignedAddr, front⟩ := fo
  obtain rfl : alignedAddr = addr := haddr
  simp only [if_neg (Nat.not_lt.mpr htest)]
  split_ifs with heq hsmall
  · exact ⟨_, rfl, rfl⟩
  · exact absurd (hrest heq) (Nat.not_le.mpr hsmall)
  · exact ⟨_, rfl, rfl⟩

/-- **A request whose end wraps is accepted** by a hole in the heap of a process, with a block
that does not lie in the hole. -/
lemma splitHole_of_le (hlo : heapBaseAddr ≤ hole.addr) (hhi : hole.addr + hole.size ≤ heapEndAddr)
    (hhole : minAllocSize ≤ hole.size)
    (hstop : usizeRange ≤ frontAddr hole.addr layout.align + layout.size) :
    ∃ a, splitHole hole layout = some a
      ∧ ¬(hole.addr ≤ a.info.addr ∧ a.info.addr + a.info.size ≤ hole.addr + hole.size) := by
  have hsize : layout.size < 2 ^ 63 := by
    have hle := layout.size_le
    have hpos : 0 < 2 ^ (layout.alignLog : ℕ) := Nat.two_pow_pos _
    rw [isizeRange] at hle
    omega
  have hrange : usizeRange = 2 ^ 64 := rfl
  rw [heapBaseAddr_eq] at hlo
  rw [heapEndAddr_eq] at hhi
  have hmin : minAllocSize = 16 := rfl
  have htop : wrappingAdd hole.addr hole.size = hole.addr + hole.size := wrappingAdd_eq (by omega)
  rcases Nat.lt_or_ge (frontAddr hole.addr layout.align) usizeRange with hfront | hfront
  · -- the place of the block is right, its end wraps to a small number
    have haddr := frontOf_fst (by omega) hfront
    have hle : hole.addr ≤ frontAddr hole.addr layout.align := by
      by_cases hdvd : layout.align ∣ hole.addr
      · rw [frontAddr, if_pos hdvd]
      · exact (Nat.le_add_right _ _).trans (frontAddr_bounds hdvd).2.1
    generalize frontAddr hole.addr layout.align = addr at *
    have htest : wrappingAdd addr layout.size ≤ wrappingAdd hole.addr hole.size := by
      rw [htop, wrappingAdd, Nat.mod_eq_sub_mod hstop, Nat.mod_eq_of_lt (by omega)]
      omega
    obtain ⟨a, ha, hinfo⟩ := splitHole_eq_some haddr htest (fun _ => by
      rw [wrappingSub_eq hle, wrappingSub, wrappingSub]
      split_ifs <;> omega)
    refine ⟨a, ha, fun hinside => ?_⟩
    rw [hinfo] at hinside
    simp only at hinside
    omega
  · -- the place of the block wraps to address 0
    have haddr := frontOf_wrapped (by omega) hfront
    have htest : wrappingAdd 0 layout.size ≤ wrappingAdd hole.addr hole.size := by
      rw [htop, wrappingAdd_eq (by omega)]
      omega
    obtain ⟨a, ha, hinfo⟩ := splitHole_eq_some haddr htest (fun _ => by
      rw [wrappingSub, wrappingSub, wrappingSub]
      split_ifs <;> omega)
    refine ⟨a, ha, fun hinside => ?_⟩
    rw [hinfo] at hinside
    simp only at hinside
    omega

/-- A layout that can be rounded is rounded. -/
lemma alignLayoutForHole_ok_iff :
    (∃ aligned, alignLayoutForHole layout = .ok aligned)
      ↔ sizeForHole layout + layout.align ≤ isizeRange := by
  rw [alignLayoutForHole, Layout.fromSizeAlign, Layout.align]
  split_ifs with hle
  · exact iff_of_true ⟨_, rfl⟩ hle
  · exact iff_of_false (by simp) hle

lemma firstFitFits_of_forall {holes : List HoleInfo} (h : ∀ hole ∈ holes, SplitFits hole layout) :
    FirstFitFits layout holes := by
  induction holes with
  | nil => trivial
  | cons current rest ih =>
    obtain ⟨hcurrent, hrest⟩ := List.forall_mem_cons.mp h
    exact ⟨hcurrent, fun _ => ih hrest⟩

namespace Heap

/-- The rounded layout is valid, and the block would end at an address in every hole it could be
put into. -/
def Admits (s : Session) : Op → Prop
  | .allocate layout =>
    sizeForHole layout + layout.align ≤ isizeRange
      ∧ ∀ hole ∈ s.holes, frontAddr hole.addr layout.align + sizeForHole layout < usizeRange
  | .deallocate _ => True

instance (s : Session) (op : Op) : Decidable (Admits s op) :=
  match op with
  | .allocate layout =>
    inferInstanceAs (Decidable (sizeForHole layout + layout.align ≤ isizeRange
      ∧ ∀ hole ∈ s.holes, frontAddr hole.addr layout.align + sizeForHole layout < usizeRange))
  | .deallocate _ => isTrue trivial

/-- A call of `allocate_first_fit` fails or gives a block in the region `[lo, hi)`, and
`split_hole` accepts a hole only for a block that lies in it. -/
def AllocatesInside (lo hi : ℕ) (s : Session) (layout : Layout) : Prop :=
  (∃ res heap, allocateFirstFit layout s.heap = .ok (res, heap)
      ∧ ∀ ptr, res = .ok ptr → lo ≤ ptr ∧ ptr + sizeForHole layout ≤ hi)
    ∧ ∀ aligned, alignLayoutForHole layout = .ok aligned → ∀ hole ∈ s.holes, ∀ a,
      splitHole hole aligned = some a →
        hole.addr ≤ a.info.addr ∧ a.info.addr + a.info.size ≤ hole.addr + hole.size

variable {lo hi : ℕ} {s : Session}

/-- `SplitFits` for every hole. -/
lemma Admits.splitFits (hhi : hi < usizeRange) (hs : Sound lo hi s)
    (h : Admits s (.allocate layout)) {aligned : Layout}
    (hround : alignLayoutForHole layout = .ok aligned) :
    ∀ hole ∈ s.holes, SplitFits hole aligned := by
  intro hole hhole
  obtain ⟨hsize, halign⟩ := alignLayoutForHole_eq_ok hround
  have hin := hs.hole_inside hhole
  refine splitFits_of_lt (by omega) ?_
  rw [hsize, halign]
  exact h.2 hole hhole

lemma Admits.fits (hhi : hi < usizeRange) (hs : Sound lo hi s) {op : Op} (h : Admits s op) :
    Fits s op := by
  cases op with
  | allocate layout =>
    exact fun aligned hround => firstFitFits_of_forall (h.splitFits hhi hs hround)
  | deallocate i => trivial

/-- What `split_hole` does in a sound heap when no sum wraps. -/
lemma Sound.splitHole_inside (hs : Sound lo hi s) (hhi : hi < usizeRange) {aligned : Layout}
    (hround : alignLayoutForHole layout = .ok aligned) {hole : HoleInfo} (hhole : hole ∈ s.holes)
    (hfits : SplitFits hole aligned) {a : Allocation} (ha : splitHole hole aligned = some a) :
    (hole.addr ≤ a.info.addr ∧ a.info.addr + a.info.size ≤ hole.addr + hole.size)
      ∧ a.info.size = sizeForHole layout := by
  obtain ⟨hsize, -⟩ := alignLayoutForHole_eq_ok hround
  obtain ⟨hmin, hdvd⟩ := sizeForHole_bounds layout
  rw [← hsize] at hmin hdvd
  have hin := hs.hole_inside hhole
  obtain ⟨hcut, -, hasize, -⟩ := splitHole_cut hfits (hs.sized hole hhole) (by omega) hmin hdvd ha
  exact ⟨hcut.inside, hasize.trans hsize⟩

/-- **One call**: it stays inside the region exactly if no end of a block wraps. -/
lemma Sound.allocatesInside_iff (hlo : heapBaseAddr ≤ lo) (hhi : hi ≤ heapEndAddr)
    (hs : Sound lo hi s) (layout : Layout) :
    AllocatesInside lo hi s layout ↔ Admits s (.allocate layout) := by
  have hend : hi < usizeRange := hhi.trans_lt (by rw [heapEndAddr_eq]; decide)
  have hpos : 0 < lo := hlo.trans_lt' (by rw [heapBaseAddr_eq]; decide)
  constructor
  · rintro ⟨⟨res, heap, hcall, -⟩, hsplit⟩
    rcases allocateFirstFit_cases layout s.heap with hpanic | ⟨aligned, hround, -⟩
    · rw [hpanic] at hcall
      cases hcall
    refine ⟨alignLayoutForHole_ok_iff.mp ⟨aligned, hround⟩, fun hole hhole => ?_⟩
    obtain ⟨hsize, halign⟩ := alignLayoutForHole_eq_ok hround
    have hin := hs.hole_inside hhole
    by_contra hwrap
    rw [← hsize, ← halign] at hwrap
    obtain ⟨a, ha, hout⟩ := splitHole_of_le (by omega) (by omega) (hs.sized hole hhole).1
      (Nat.not_lt.mp hwrap)
    exact hout (hsplit aligned hround hole hhole a ha)
  · intro h
    obtain ⟨aligned, hround⟩ := alignLayoutForHole_ok_iff.mpr h.1
    have hfits := h.splitFits hend hs hround
    refine ⟨?_, fun aligned' hround' hole hhole a ha =>
      (hs.splitHole_inside hend hround' hhole (h.splitFits hend hs hround' hole hhole) ha).1⟩
    rcases allocateFirstFit_of_round s.heap hround with hfail | ⟨info, next, hfound, htaken⟩
    · exact ⟨_, _, hfail, nofun⟩
    · obtain ⟨l, hole, r, a, hholes, -, hsplitFits, hsplit, rfl⟩ := allocateFirstFit_eq_some hfound
      have hmem : hole ∈ s.holes := by simp [Session.holes, hholes]
      have hin := hs.hole_inside hmem
      obtain ⟨hinside, hasize⟩ := hs.splitHole_inside hend hround hmem
        (hsplitFits (firstFitFits_of_forall hfits)) hsplit
      rw [if_neg (by omega)] at htaken
      refine ⟨_, _, htaken, fun ptr hptr => ?_⟩
      cases hptr
      omega

/-- `heap::DEFAULT_SIZE`. -/
def heapDefaultSize : ℕ := 8 * 2 ^ 20

/-- The heap of a process, as its allocator initialises it. -/
def userHeap : Heap := ⟨0, ⟨⟨0, 0⟩, [⟨heapBaseAddr, heapDefaultSize⟩]⟩⟩

lemma userHeap_init : (Heap.empty 0).init heapBaseAddr heapDefaultSize = some userHeap := by
  decide +kernel

end Heap

end Rhubarb
