import Mathlib.Data.Nat.Find
import Rhubarb.Virtio.Chains

/-!
Chains of one length.

If all chains have `n` descriptors, the lowest-first allocator never breaks a block of `n`
neighbours: the descriptors `k n, …, k n + n - 1` are always available together or in one chain
together, in whatever order the chains come back.  The last descriptor of a block is then never
anything but the last of a chain, and its `next` is the zero it started with.

* `take_freeList`: the lowest available descriptors are a block.
* `blocks_run`: what this gives along every run.
-/

namespace Rhubarb

open Foundations

variable {T : Type}

namespace Virtqueue

/-- The `k`-th block of `n` descriptors. -/
def block (n k : ℕ) : List ℕ := List.range' (k * n) n

lemma mem_block {n k i : ℕ} : i ∈ block n k ↔ k * n ≤ i ∧ i < (k + 1) * n := by
  rw [block, List.mem_range'_1, Nat.succ_mul]

lemma length_block (n k : ℕ) : (block n k).length = n := List.length_range'

/-- A range cut in two. -/
lemma range_append (a b : ℕ) : List.range a ++ List.range' a b = List.range (a + b) := by
  simpa only [List.range_eq_range', Nat.zero_add] using List.range'_append_1 (s := 0) (m := a) (n := b)

/-- Two blocks with a common descriptor are the same. -/
lemma block_unique {n j k i : ℕ} (hj : i ∈ block n j) (hk : i ∈ block n k) : j = k := by
  rw [mem_block] at hj hk
  have h₁ : j < k + 1 := Nat.lt_of_mul_lt_mul_right (Nat.lt_of_le_of_lt hj.1 hk.2)
  have h₂ : k < j + 1 := Nat.lt_of_mul_lt_mul_right (Nat.lt_of_le_of_lt hk.1 hj.2)
  omega

namespace Session

/-- **The chains are blocks**, and the last descriptor of every block has a zero. -/
structure InBlocks (n : ℕ) (v : Virtqueue T) (chains : List (List ℕ)) : Prop where
  blocks : ∀ c ∈ chains, ∃ k, c = block n k ∧ (k + 1) * n ≤ v.size
  last : ∀ k, (k + 1) * n ≤ v.size → ∀ i ∈ (block n k).getLast?, (v.desc i).next = 0

variable {v : Virtqueue T} {cs : List (List ℕ)} {n k : ℕ}

/-- An unavailable descriptor of a block is in a chain, and the chain is the block. -/
lemma InBlocks.mem_of_taken (h : InBlocks n v cs) (howns : Owns v cs) (hk : (k + 1) * n ≤ v.size)
    {i : ℕ} (hi : i ∈ block n k) (htaken : v.availableDescriptors i = false) :
    block n k ∈ cs := by
  have hlt : i < v.size := Nat.lt_of_lt_of_le (mem_block.mp hi).2 hk
  obtain ⟨c, hc, hic⟩ := List.mem_flatten.mp ((howns.taken i hlt).mp htaken)
  obtain ⟨j, rfl, -⟩ := h.blocks c hc
  rwa [block_unique hi hic]

/-- A block that is no chain is available. -/
lemma InBlocks.available (h : InBlocks n v cs) (howns : Owns v cs) (hk : (k + 1) * n ≤ v.size)
    (hfree : block n k ∉ cs) : ∀ i ∈ block n k, v.availableDescriptors i = true := by
  intro i hi
  cases hav : v.availableDescriptors i with
  | true => rfl
  | false => exact absurd (h.mem_of_taken howns hk hi hav) hfree

/-- A block that is a chain is not available. -/
lemma Owns.unavailable (howns : Owns v cs) {c : List ℕ} (hc : c ∈ cs) :
    ∀ i ∈ c, v.availableDescriptors i = false := fun i hi =>
  have hmem : i ∈ cs.flatten := List.mem_flatten.mpr ⟨c, hc, hi⟩
  (howns.taken i (howns.lt_size i hmem)).mpr hmem

/-- Below a block that has only chains below it, nothing is available. -/
lemma InBlocks.filter_below (howns : Owns v cs) (hn : 0 < n)
    (hbusy : ∀ j < k, block n j ∈ cs) :
    (List.range (k * n)).filter v.availableDescriptors = [] := by
  rw [List.filter_eq_nil_iff]
  intro i hi
  have hlt : i < k * n := List.mem_range.mp hi
  have hj : i / n < k := Nat.div_lt_of_lt_mul (by rwa [Nat.mul_comm])
  have hmem : i ∈ block n (i / n) := by
    rw [mem_block]
    exact ⟨Nat.div_mul_le_self i n, by
      rw [Nat.succ_mul]
      exact Nat.lt_div_mul_add hn⟩
  rw [howns.unavailable (hbusy _ hj) i hmem]
  decide

/-- The available descriptors, cut at a block. -/
lemma freeList_split (hk : (k + 1) * n ≤ v.size) :
    v.freeList = (List.range (k * n)).filter v.availableDescriptors
      ++ ((block n k).filter v.availableDescriptors
        ++ (List.range' ((k + 1) * n) (v.size - (k + 1) * n)).filter v.availableDescriptors) := by
  have hcut : List.range v.size = List.range (k * n)
      ++ (block n k ++ List.range' ((k + 1) * n) (v.size - (k + 1) * n)) := by
    have hkn : (k + 1) * n = k * n + n := Nat.succ_mul k n
    rw [block, hkn, List.range'_append_1, range_append]
    congr 1
    omega
  rw [freeList, hcut, List.filter_append, List.filter_append]

/-- **The lowest available descriptors are a block**, if there are enough. -/
lemma InBlocks.take_freeList (h : InBlocks n v cs) (howns : Owns v cs) (hn : 0 < n)
    (henough : n ≤ v.freeList.length) :
    ∃ k, (k + 1) * n ≤ v.size ∧ v.freeList.take n = block n k := by
  classical
  by_cases hex : ∃ k, (k + 1) * n ≤ v.size ∧ block n k ∉ cs
  · -- The first block that is no chain.
    obtain ⟨hk, hfree⟩ := Nat.find_spec hex
    have hbusy : ∀ j < Nat.find hex, block n j ∈ cs := by
      intro j hj
      by_contra hnot
      refine Nat.find_min hex hj ⟨Nat.le_trans (Nat.mul_le_mul_right n (by omega)) hk, hnot⟩
    have hall : (block n (Nat.find hex)).filter v.availableDescriptors = block n (Nat.find hex) :=
      List.filter_eq_self.mpr (h.available howns hk hfree)
    refine ⟨Nat.find hex, hk, ?_⟩
    rw [freeList_split hk, InBlocks.filter_below howns hn hbusy, List.nil_append, hall,
      List.take_append_of_le_length (by rw [length_block]), List.take_of_length_le
      (by rw [length_block])]
  · -- All whole blocks are chains, and what is left is less than a block.
    exfalso
    have hbusy : ∀ j < v.size / n, block n j ∈ cs := by
      intro j hj
      by_contra hnot
      exact hex ⟨j, Nat.le_trans (Nat.mul_le_mul_right n hj) (Nat.div_mul_le_self _ _), hnot⟩
    have hcut : List.range v.size = List.range (v.size / n * n)
        ++ List.range' (v.size / n * n) (v.size % n) := by
      rw [range_append, Nat.div_add_mod']
    have hlen : v.freeList.length ≤ v.size % n := by
      rw [freeList, hcut, List.filter_append, InBlocks.filter_below howns hn hbusy, List.nil_append]
      calc ((List.range' (v.size / n * n) (v.size % n)).filter v.availableDescriptors).length
          ≤ (List.range' (v.size / n * n) (v.size % n)).length := List.length_filter_le _ _
        _ = v.size % n := List.length_range'
    exact absurd (Nat.mod_lt v.size hn) (by omega)

/-! ### Runs -/

/-- **What holds in runs with chains of `n` descriptors**. -/
structure Uniform (n size : ℕ) (s : Session T) : Prop where
  sound : s.Sound
  size_eq : s.queue.size = size
  inBlocks : InBlocks n s.queue s.chains
  history_lt : s.history.length < ringIdxRange

/-- The condition on a step: pushes and pops are of `n` messages, and there are fewer than
`2 ^ 16` completions. -/
def OfLength (n : ℕ) (s : Session T) : Op T → Prop
  | .push messages => messages.length = n
  | .complete _ _ _ => s.history.length + 1 < ringIdxRange
  | .pop m => m = n

instance OfLength.decidable (n : ℕ) (s : Session T) : ∀ op, Decidable (s.OfLength n op)
  | .push _ => inferInstanceAs (Decidable (_ = _))
  | .complete _ _ _ => inferInstanceAs (Decidable (_ < _))
  | .pop _ => inferInstanceAs (Decidable (_ = _))

variable {s s' : Session T} {size sizeOfT : ℕ}

/-- In such a run the steps are fit: a push takes a block, whose last descriptor has a zero. -/
lemma Uniform.fit (h : s.Uniform n size) (hn : 0 < n) (hsize : n ≤ size) {op : Op T}
    (hop : s.OfLength n op) : s.Fit op := by
  cases op with
  | push messages =>
    have hlen : messages.length = n := hop
    refine ⟨by omega, by rw [hlen, h.size_eq]; exact hsize, fun henough => ?_⟩
    rw [hlen] at henough ⊢
    obtain ⟨k, hk, htake⟩ := h.inBlocks.take_freeList h.sound.owns hn henough
    rw [htake]
    exact h.inBlocks.last k hk
  | complete k len buffers => exact .inr h.history_lt
  | pop m =>
    refine ⟨.inl (Nat.lt_of_le_of_lt h.sound.rings.popIndex_le h.history_lt), fun c hc => ?_⟩
    have hmem : c ∈ s.chains := List.mem_append_right _ (List.mem_of_mem_head? hc)
    obtain ⟨k, rfl, -⟩ := h.inBlocks.blocks c hmem
    rw [length_block]
    exact Nat.le_of_eq hop.symm

variable [Inhabited T]

/-- **Every step keeps the blocks**. -/
lemma Uniform.step (h : s.Uniform n size) (hn : 0 < n) (hsize : n ≤ size) {op : Op T}
    (hop : s.OfLength n op) : ∃ s', s.step sizeOfT op = .ok s' ∧ s'.Uniform n size := by
  have hfit := h.fit hn hsize hop
  obtain ⟨s', hstep, hs'⟩ : ∃ s', s.step sizeOfT op = .ok s' ∧ s'.Sound :=
    step_sound s op h.sound hfit
  suffices hrest : InBlocks n s'.queue s'.chains ∧ s'.history.length < ringIdxRange from
    ⟨s', hstep, hs', (step_size h.sound hfit hstep).trans h.size_eq, hrest.1, hrest.2⟩
  cases op with
  | push messages =>
    have hlen : messages.length = n := hop
    rcases Nat.lt_or_ge s.queue.freeList.length messages.length with hfew | henough
    · simp only [Session.step, push_error hfit.1 hfit.2.1 hfew] at hstep
      cases hstep
      exact ⟨h.inBlocks, h.history_lt⟩
    · rw [step_push hfit.1 henough] at hstep
      cases hstep
      rw [hlen] at henough
      obtain ⟨k, hk, htake⟩ := h.inBlocks.take_freeList h.sound.owns hn henough
      rw [hlen, htake] at hs'
      simp only [hlen, htake]
      refine ⟨⟨fun c hc => ?_, fun j hj i hi => ?_⟩, h.history_lt⟩
      · simp only [chains, List.mem_append, List.mem_singleton] at hc
        rcases hc with (hc | rfl) | hc
        · exact h.inBlocks.blocks c (List.mem_append_left _ hc)
        · exact ⟨k, rfl, hk⟩
        · exact h.inBlocks.blocks c (List.mem_append_right _ hc)
      · rcases eq_or_ne j k with rfl | hne
        · exact (hs'.owns.linked _ (by simp [chains])).2.next_last i hi
        · -- The last descriptor of another block is not one of this one.
          have hnot : i ∉ block n k := fun hik =>
            hne (block_unique (List.mem_of_getLast? hi) hik)
          have hkeep : (fillLoop sizeOfT (s.queue.freeList.take messages.length) messages
              s.queue.desc i).next = (s.queue.desc i).next := by
            rw [fillLoop_of_notMem (by rw [hlen, htake]; exact hnot)]
          exact hkeep.trans (h.inBlocks.last j hj i hi)
  | complete k len buffers =>
    cases hk : s.inflight[k]? with
    | none =>
      simp only [Session.step, hk] at hstep
      cases hstep
      exact ⟨h.inBlocks, h.history_lt⟩
    | some c =>
      rw [step_complete hk] at hstep
      cases hstep
      have hpop := h.sound.rings.popIndex_le
      refine ⟨⟨fun c' hc' => ?_, h.inBlocks.last⟩, by
        rw [List.length_append, List.length_singleton]; exact hop⟩
      have hc' : c' ∈ s.inflight.eraseIdx k ++ (s.history ++ [c]).drop s.queue.popIndex := hc'
      rw [List.drop_append_of_le_length hpop, List.mem_append, List.mem_append,
        List.mem_singleton] at hc'
      rcases hc' with hc' | hc' | rfl
      · exact h.inBlocks.blocks c' (List.mem_append_left _ (List.mem_of_mem_eraseIdx hc'))
      · exact h.inBlocks.blocks c' (List.mem_append_right _ hc')
      · exact h.inBlocks.blocks c' (List.mem_append_left _ (List.mem_of_getElem? hk))
  | pop m =>
    cases hused : s.used with
    | nil =>
      simp only [Session.step,
        pop_of_unused h.sound hused (hfit.1.resolve_right fun hne => hne hused) m] at hstep
      cases hstep
      exact ⟨h.inBlocks, h.history_lt⟩
    | cons c rest =>
      rw [step_pop h.sound hused (hfit.2 c (by simp [hused]))] at hstep
      cases hstep
      refine ⟨⟨fun c' hc' => h.inBlocks.blocks c' ?_, h.inBlocks.last⟩, h.history_lt⟩
      have hc' : c' ∈ s.inflight ++ s.history.drop (s.queue.popIndex + 1) := hc'
      rw [← List.drop_drop] at hc'
      rcases List.mem_append.mp hc' with hc' | hc'
      · exact List.mem_append_left _ hc'
      · exact List.mem_append_right _ (List.mem_of_mem_drop hc')

/-- **Chains of one length stay in their blocks**: in every run with pushes and pops of `n`
messages and fewer than `2 ^ 16` completions, in any order, nothing panics; every descriptor is
available or in exactly one chain, every chain is a block of neighbours, a push fails exactly if
fewer than `n` descriptors are available and then changes nothing, and a pop frees exactly the
chain it returns. -/
theorem blocks_run {hpos : 0 < size} {hlt : size < ringIdxRange} {zero : T} (hn : 0 < n)
    (hsize : n ≤ size) {ops : List (Op T)}
    (hlen : Meets (Session.step sizeOfT) (OfLength n) (initial size hpos hlt zero) ops) :
    ∃ s, run (Session.step sizeOfT) (initial size hpos hlt zero) ops = .ok s
      ∧ (∀ i < size, s.queue.availableDescriptors i = false ↔ i ∈ s.chains.flatten)
      ∧ s.chains.flatten.Nodup
      ∧ (∀ c ∈ s.chains, ∃ k, c = List.range' (k * n) n)
      ∧ (∀ messages : List (VirtqueueMessage T), messages.length = n →
          ∃ r v, push sizeOfT s.queue messages = .ok (r, v)
            ∧ (r = false ↔ s.queue.freeList.length < n) ∧ (r = false → v = s.queue))
      ∧ (s.used = [] → pop n s.queue = .ok (none, s.queue))
      ∧ ∀ c rest, s.used = c :: rest →
          pop n s.queue = .ok (some (c.map fun i => some (s.queue.desc i).buffer),
            { s.queue.showAll c with popIndex := s.queue.popIndex + 1 }) := by
  have hinit : (initial size hpos hlt zero).Uniform n size := by
    refine ⟨initial_sound size hpos hlt zero, rfl, ⟨fun c hc => ?_, fun k _ i _ => rfl⟩, ?_⟩
    · simp [initial, chains, used] at hc
    · exact Nat.lt_of_le_of_lt (Nat.zero_le _) hlt
  obtain ⟨s, hrun, hs⟩ := run_total_of_meets (fun s op h hop => h.step hn hsize hop) hinit hlen
  refine ⟨s, hrun, fun i hi => hs.sound.owns.taken i (hs.size_eq ▸ hi), hs.sound.owns.nodup,
    fun c hc => ?_, fun messages hmessages => ?_, fun hused => ?_, fun c rest hused => ?_⟩
  · obtain ⟨k, hk, -⟩ := hs.inBlocks.blocks c hc
    exact ⟨k, hk⟩
  · subst hmessages
    rcases Nat.lt_or_ge s.queue.freeList.length messages.length with hfew | henough
    · exact ⟨false, s.queue, push_error hn (by rw [hs.size_eq]; exact hsize) hfew,
        by simp [hfew], fun _ => rfl⟩
    · exact ⟨true, _, push_ok hn henough, by simp [henough], fun hr => by cases hr⟩
  · exact pop_of_unused hs.sound hused
      (Nat.lt_of_le_of_lt hs.sound.rings.popIndex_le hs.history_lt) n
  · obtain ⟨k, hk, -⟩ := hs.inBlocks.blocks c (by simp [chains, hused])
    have hclen : c.length = n := by rw [hk, length_block]
    have hpop := pop_of_used hs.sound hused (Nat.le_of_eq hclen)
    rwa [hclen, Nat.sub_self, List.replicate_zero, List.append_nil] at hpop

/-- Three chains of two on five descriptors, of which the third does not fit, and the second comes
back first. -/
def outOfOrder : List (Op Unit) :=
  [.push [.deviceWrite, .deviceWrite], .push [.deviceWrite, .deviceWrite],
    .push [.deviceWrite, .deviceWrite], .complete 1 0 fun _ => (), .pop 2,
    .push [.deviceWrite, .deviceWrite]]

/-- Blocks of two on five descriptors. -/
theorem blocks_run_outOfOrder :
    ∃ s, run (Session.step 0) (initial 5 (by decide) (by decide) ()) outOfOrder = .ok s
      ∧ (∀ i < 5, s.queue.availableDescriptors i = false ↔ i ∈ s.chains.flatten)
      ∧ s.chains.flatten.Nodup
      ∧ (∀ c ∈ s.chains, ∃ k, c = List.range' (k * 2) 2)
      ∧ (∀ messages : List (VirtqueueMessage Unit), messages.length = 2 →
          ∃ r v, push 0 s.queue messages = .ok (r, v)
            ∧ (r = false ↔ s.queue.freeList.length < 2) ∧ (r = false → v = s.queue))
      ∧ (s.used = [] → pop 2 s.queue = .ok (none, s.queue))
      ∧ ∀ c rest, s.used = c :: rest →
          pop 2 s.queue = .ok (some (c.map fun i => some (s.queue.desc i).buffer),
            { s.queue.showAll c with popIndex := s.queue.popIndex + 1 }) :=
  blocks_run (by decide) (by decide) (by decide +kernel)

end Session

end Virtqueue

end Rhubarb
