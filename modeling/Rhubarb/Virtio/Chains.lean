import Mathlib.Data.Int.ModEq
import Mathlib.Data.List.Perm.Subperm
import Rhubarb.Foundations.Runs
import Rhubarb.Virtio.Virtqueue

/-!
The driver and the device over whole runs.

A chain is offered by a push, used by the device in any order, and returned by a pop in the
order of its use.  `Session` keeps the chains that are on their way beside the queue, and
`Sound` says that the queue knows the same: the unavailable descriptors are those of the chains,
each chain is linked to its own end (`Owns`), and the used ring has the first descriptor of every
chain that was used and not popped (`Rings`).

* `push_sound`, `complete_sound`, `pop_sound`: each step keeps this, if a push finds a zero in
  the `next` of the last descriptor it takes (`Fit`).
* `pop_of_used`, `pop_of_unused`: what a pop returns then.
* `chains_run`, `pops_run`: pops return whole chains, in the order of their use.
-/

namespace Rhubarb

open Foundations

variable {n k : ℕ}

variable {T : Type}

namespace Virtqueue

/-- The queue with the chains on their way: those the device has not used yet, and all those it
has used, the first first. -/
structure Session (T : Type) where
  queue : Virtqueue T
  inflight : List (List ℕ)
  history : List (List ℕ)

/-- What the driver and the device do. -/
inductive Op (T : Type) where
  | push (messages : List (VirtqueueMessage T))
  | complete (k len : ℕ) (buffers : ℕ → T)
  | pop (n : ℕ)

namespace Session

/-- The chains that were used and not popped. -/
def used (s : Session T) : List (List ℕ) := s.history.drop s.queue.popIndex

/-- All the chains on their way. -/
def chains (s : Session T) : List (List ℕ) := s.inflight ++ s.used

/-- One step; the device writes to the buffers of the chain it uses and to no others. -/
def step [Inhabited T] (sizeOfT : ℕ) (s : Session T) : Op T → Except VirtqueuePanic (Session T)
  | .push messages =>
    match push sizeOfT s.queue messages with
    | .error p => .error p
    | .ok (true, queue) =>
      .ok { s with
        queue
        inflight := s.inflight ++ [s.queue.freeList.take messages.length] }
    | .ok (false, queue) => .ok { s with queue }
  | .complete k len buffers =>
    match s.inflight[k]? with
    | none => .ok s
    | some c =>
      .ok {
        queue := s.queue.complete (c.headD 0) len fun i =>
          if i ∈ c then buffers i else (s.queue.desc i).buffer
        inflight := s.inflight.eraseIdx k
        history := s.history ++ [c] }
  | .pop n =>
    match pop n s.queue with
    | .error p => .error p
    | .ok (_, queue) => .ok { s with queue }

/-- A fresh queue. -/
def initial (size : ℕ) (hpos : 0 < size) (hlt : size < ringIdxRange) (zero : T) : Session T :=
  ⟨.new size hpos hlt zero, [], []⟩

/-! ### The queue owns its chains -/

/-- **The unavailable descriptors are those of the chains**, each in one chain, and the chains
are linked. -/
structure Owns (v : Virtqueue T) (chains : List (List ℕ)) : Prop where
  nodup : chains.flatten.Nodup
  taken : ∀ i < v.size, v.availableDescriptors i = false ↔ i ∈ chains.flatten
  lt_size : ∀ i ∈ chains.flatten, i < v.size
  linked : ∀ c ∈ chains, c ≠ [] ∧ Linked v.desc c

namespace Owns

variable {v v' : Virtqueue T} {cs cs' : List (List ℕ)} {c : List ℕ}

/-- The order of the chains does not matter. -/
lemma perm (h : Owns v cs) (hp : cs'.Perm cs) : Owns v cs' where
  nodup := hp.flatten.nodup_iff.mpr h.nodup
  taken i hi := (h.taken i hi).trans hp.flatten.mem_iff.symm
  lt_size i hi := h.lt_size i (hp.flatten.mem_iff.mp hi)
  linked c hc := h.linked c (hp.mem_iff.mp hc)

/-- Only the availability and the `next` fields matter. -/
lemma congr (h : Owns v cs) (hsize : v'.size = v.size)
    (havail : v'.availableDescriptors = v.availableDescriptors)
    (hnext : ∀ i, (v'.desc i).next = (v.desc i).next) : Owns v' cs where
  nodup := h.nodup
  taken i hi := by
    rw [havail]
    exact h.taken i (hsize ▸ hi)
  lt_size i hi := hsize ▸ h.lt_size i hi
  linked c hc := ⟨(h.linked c hc).1, (h.linked c hc).2.congr fun i _ => hnext i⟩

/-- There are no more chains than descriptors. -/
lemma length_le (h : Owns v cs) : cs.length ≤ v.size := by
  have hflat : cs.length ≤ cs.flatten.length := by
    have hne : ∀ c ∈ cs, c ≠ [] := fun c hc => (h.linked c hc).1
    clear h
    induction cs with
    | nil => simp
    | cons c cs ih =>
      have hc := List.length_pos_iff.mpr (hne c List.mem_cons_self)
      have hcs := ih fun c' hc' => hne c' (List.mem_cons_of_mem _ hc')
      rw [List.flatten_cons, List.length_append, List.length_cons]
      omega
  have hsub : cs.flatten ⊆ List.range v.size := fun i hi => List.mem_range.mpr (h.lt_size i hi)
  calc cs.length ≤ cs.flatten.length := hflat
    _ ≤ (List.range v.size).length := (List.subperm_of_subset h.nodup hsub).length_le
    _ = v.size := List.length_range

/-- A chain of available descriptors is taken; the other chains keep their links. -/
lemma insert (h : Owns v cs) (hc : c ≠ []) (hnodup : c.Nodup) (hmem : ∀ i ∈ c, i ∈ v.freeList)
    (hsize : v'.size = v.size) (hlinked : Linked v'.desc c)
    (havail : ∀ i, v'.availableDescriptors i = (v.availableDescriptors i && decide (i ∉ c)))
    (hnext : ∀ i, i ∉ c → (v'.desc i).next = (v.desc i).next) : Owns v' (c :: cs) := by
  have hdisj : ∀ i ∈ c, i ∉ cs.flatten := by
    intro i hi hin
    obtain ⟨hlt, htrue⟩ := mem_freeList.mp (hmem i hi)
    rw [(h.taken i hlt).mpr hin] at htrue
    cases htrue
  refine ⟨?_, fun i hi => ?_, fun i hi => ?_, fun c' hc' => ?_⟩
  · rw [List.flatten_cons]
    exact List.nodup_append.mpr ⟨hnodup, h.nodup, fun i hi j hj heq => hdisj i hi (heq ▸ hj)⟩
  · rw [havail, List.flatten_cons, List.mem_append, ← h.taken i (hsize ▸ hi)]
    by_cases hic : i ∈ c <;> simp [hic]
  · rw [List.flatten_cons, List.mem_append] at hi
    rw [hsize]
    exact hi.elim (fun hi => (mem_freeList.mp (hmem i hi)).1) (h.lt_size i)
  · rcases List.mem_cons.mp hc' with rfl | hc'
    · exact ⟨hc, hlinked⟩
    · refine ⟨(h.linked c' hc').1, (h.linked c' hc').2.congr fun i hi => hnext i fun hic => ?_⟩
      exact hdisj i hic (List.mem_flatten.mpr ⟨c', hc', hi⟩)

/-- The descriptors of a chain become available again; no other chain has one of them. -/
lemma remove (h : Owns v (c :: cs)) : Owns (v.showAll c) cs := by
  have hnodup := h.nodup
  rw [List.flatten_cons, List.nodup_append] at hnodup
  refine ⟨hnodup.2.1, fun i hi => ?_, fun i hi => ?_, fun c' hc' => ?_⟩
  · have htaken := h.taken i hi
    rw [List.flatten_cons, List.mem_append] at htaken
    by_cases hic : i ∈ c
    · have hnot : i ∉ cs.flatten := fun hin => hnodup.2.2 i hic i hin rfl
      simp [showAll, hic, hnot]
    · simp only [hic, false_or] at htaken
      simpa [showAll, hic] using htaken
  · exact h.lt_size i (by rw [List.flatten_cons]; exact List.mem_append_right _ hi)
  · exact h.linked c' (List.mem_cons_of_mem _ hc')

lemma disjoint (h : Owns v (c :: cs)) {c' : List ℕ} (hc' : c' ∈ cs) : c.Disjoint c' := by
  have hnodup := h.nodup
  rw [List.flatten_cons, List.nodup_append] at hnodup
  exact fun i hi hi' => hnodup.2.2 i hi i (List.mem_flatten.mpr ⟨c', hc', hi'⟩) rfl

end Owns

/-! ### The used ring -/

/-- **The used ring has the chains that were used and not popped**. -/
structure Rings (v : Virtqueue T) (history : List (List ℕ)) : Prop where
  popIndex_le : v.popIndex ≤ history.length
  deviceIdx : v.deviceIdx = history.length % ringIdxRange
  ring : ∀ j c, v.popIndex ≤ j → history[j]? = some c →
    (v.deviceRing (j % v.size)).id = c.headD 0

/-- What is used later does not overwrite what is not popped: two places closer than the size of
the ring are different cells. -/
lemma mod_ne_of_lt {size j : ℕ} (hj : j < n) (hn : n - j < size) : j % size ≠ n % size := by
  intro heq
  have hdvd : size ∣ n - j := (Nat.modEq_iff_dvd' hj.le).mp heq
  exact absurd (Nat.le_of_dvd (by omega) hdvd) (by omega)

/-- The device uses a chain. -/
lemma Rings.complete {v : Virtqueue T} {history : List (List ℕ)} (h : Rings v history)
    (hroom : history.length - v.popIndex < v.size)
    (hidx : v.size ∣ ringIdxRange ∨ history.length < ringIdxRange) (c : List ℕ) (len : ℕ)
    (buffers : ℕ → T) : Rings (v.complete (c.headD 0) len buffers) (history ++ [c]) := by
  have hcell : v.deviceIdx % v.size = history.length % v.size := by
    rw [h.deviceIdx]
    rcases hidx with hdvd | hlt
    · exact Nat.mod_mod_of_dvd _ hdvd
    · rw [Nat.mod_eq_of_lt hlt]
  refine ⟨?_, ?_, fun j c' hj hc' => ?_⟩
  · rw [List.length_append]
    exact h.popIndex_le.trans (Nat.le_add_right _ _)
  · simp only [Virtqueue.complete, List.length_append, List.length_singleton, h.deviceIdx,
      Nat.mod_add_mod]
  · simp only [Virtqueue.complete, hcell]
    rcases Nat.lt_or_ge j history.length with hlt | hge
    · rw [List.getElem?_append_left hlt] at hc'
      have hj' : v.popIndex ≤ j := hj
      have hne : j % v.size ≠ history.length % v.size := mod_ne_of_lt hlt (by omega)
      rw [Function.update_of_ne hne]
      exact h.ring j c' hj' hc'
    · rw [List.getElem?_append_right hge] at hc'
      obtain ⟨hj0, rfl⟩ : j - history.length = 0 ∧ c = c' := by
        rcases hz : j - history.length with _ | k
        · rw [hz] at hc'
          exact ⟨rfl, by simpa using hc'⟩
        · rw [hz] at hc'
          simp at hc'
      rw [show j = history.length by omega, Function.update_self]

/-! ### Steps -/

/-- **The queue knows its chains**. -/
structure Sound (s : Session T) : Prop where
  owns : Owns s.queue s.chains
  rings : Rings s.queue s.history

/-- The condition on a step: a push takes a last descriptor whose `next` is zero, the index of
the used ring has not wrapped unless the size divides its range, and a pop has room for the
chain it gets and does not happen after `2 ^ 16` others with nothing to return. -/
def Fit (s : Session T) : Op T → Prop
  | .push messages => 0 < messages.length ∧ messages.length ≤ s.queue.size
      ∧ (messages.length ≤ s.queue.freeList.length →
          ∀ i ∈ (s.queue.freeList.take messages.length).getLast?, (s.queue.desc i).next = 0)
  | .complete _ _ _ => s.queue.size ∣ ringIdxRange ∨ s.history.length < ringIdxRange
  | .pop n => (s.queue.popIndex < ringIdxRange ∨ s.used ≠ [])
      ∧ ∀ c ∈ s.used.head?, c.length ≤ n

instance Fit.decidable (s : Session T) : ∀ op, Decidable (s.Fit op)
  | .push _ => inferInstanceAs (Decidable (_ ∧ _ ∧ (_ → _)))
  | .complete _ _ _ => inferInstanceAs (Decidable (_ ∨ _))
  | .pop _ => inferInstanceAs (Decidable ((_ ∨ _) ∧ _))

variable {sizeOfT : ℕ} {s : Session T} {c : List ℕ} {rest : List (List ℕ)}

lemma initial_sound (size : ℕ) (hpos : 0 < size) (hlt : size < ringIdxRange) (zero : T) :
    (initial size hpos hlt zero).Sound where
  owns := by
    refine ⟨?_, fun i _ => ?_, fun i hi => ?_, fun c hc => ?_⟩
    · simp [initial, chains, used]
    · simp [initial, chains, used, new]
    · simp [initial, chains, used] at hi
    · simp [initial, chains, used] at hc
  rings := ⟨Nat.le_refl 0, rfl, fun j c _ hc => by simp [initial] at hc⟩

/-- The place in the history of the chain that was used first among those not popped. -/
lemma history_of_used (hused : s.used = c :: rest) : s.history[s.queue.popIndex]? = some c := by
  have hhead := congrArg List.head? hused
  rwa [used, List.head?_drop, List.head?_cons] at hhead

/-- **A pop with a used chain** returns its buffers and frees its descriptors. -/
lemma pop_of_used (h : s.Sound) (hused : s.used = c :: rest) (hn : c.length ≤ n) :
    pop n s.queue = .ok
      (some (c.map (fun i => some (s.queue.desc i).buffer) ++ List.replicate (n - c.length) none),
        { s.queue.showAll c with popIndex := s.queue.popIndex + 1 }) := by
  have hc : c ∈ s.chains := by simp [chains, hused]
  obtain ⟨hne, hlinked⟩ := h.owns.linked c hc
  obtain ⟨i, is, rfl⟩ := List.exists_cons_of_ne_nil hne
  have hlt : ∀ j ∈ i :: is, j < s.queue.size :=
    fun j hj => h.owns.lt_size j (List.mem_flatten.mpr ⟨_, hc, hj⟩)
  have hplace := history_of_used hused
  have hid := h.rings.ring _ _ (Nat.le_refl _) hplace
  -- The two indices differ: at most `size` chains are between them.
  have hidx : s.queue.deviceIdx ≠ s.queue.popIndex := by
    have hlen := congrArg List.length hused
    rw [used, List.length_drop, List.length_cons] at hlen
    have hchains := h.owns.length_le
    rw [chains, hused, List.length_append, List.length_cons] at hchains
    have hsize := s.queue.size_lt
    rw [h.rings.deviceIdx]
    intro heq
    have hmod := Nat.div_add_mod s.history.length ringIdxRange
    rw [heq] at hmod
    rcases Nat.eq_zero_or_pos (s.history.length / ringIdxRange) with hz | hpos
    · rw [hz] at hmod
      omega
    · have := Nat.mul_le_mul_left ringIdxRange hpos
      omega
  rw [pop, if_neg hidx, hid, List.headD_cons, popLoop_linked hlinked hlt (Nat.lt_of_succ_le hn)]
  simp [Except.map, showAll, Function.comp_def]

/-- A pop with nothing used returns nothing, as long as fewer than `2 ^ 16` chains were popped. -/
lemma pop_of_unused (h : s.Sound) (hused : s.used = []) (hlt : s.queue.popIndex < ringIdxRange)
    (n : ℕ) : pop n s.queue = .ok (none, s.queue) := by
  have hlen : s.history.length = s.queue.popIndex :=
    Nat.le_antisymm (List.drop_eq_nil_iff.mp hused) h.rings.popIndex_le
  rw [pop, if_pos (by rw [h.rings.deviceIdx, hlen, Nat.mod_eq_of_lt hlt])]

/-- **The pop that should return nothing** after `2 ^ 16` others does not. -/
lemma pop_ne_none (h : s.Sound) (hge : ringIdxRange ≤ s.queue.popIndex) (n : ℕ)
    (v : Virtqueue T) : pop n s.queue ≠ .ok (none, v) := by
  have hne : s.queue.deviceIdx ≠ s.queue.popIndex := by
    rw [h.rings.deviceIdx]
    have := Nat.mod_lt s.history.length (show 0 < ringIdxRange by decide)
    omega
  rw [pop, if_neg hne]
  cases popLoop n (s.queue.deviceRing (s.queue.popIndex % s.queue.size)).id s.queue with
  | ok r => simp [Except.map]
  | error p => simp [Except.map]

variable [Inhabited T]

variable {messages : List (VirtqueueMessage T)}

/-- The step of a push that finds enough descriptors. -/
lemma step_push (hpos : 0 < messages.length) (henough : messages.length ≤ s.queue.freeList.length) :
    s.step sizeOfT (.push messages) = .ok { s with
      queue := s.queue.pushed sizeOfT messages
      inflight := s.inflight ++ [s.queue.freeList.take messages.length] } := by
  simp only [step, push_ok hpos henough]

/-- The step of the device that uses a chain. -/
lemma step_complete (hk : s.inflight[k]? = some c) (len : ℕ) (buffers : ℕ → T) :
    s.step sizeOfT (.complete k len buffers) = .ok {
      queue := s.queue.complete (c.headD 0) len fun i =>
        if i ∈ c then buffers i else (s.queue.desc i).buffer
      inflight := s.inflight.eraseIdx k
      history := s.history ++ [c] } := by
  simp only [step, hk]

/-- The step of a pop that gets a chain. -/
lemma step_pop (h : s.Sound) (hused : s.used = c :: rest) (hn : c.length ≤ n) :
    s.step sizeOfT (.pop n) = .ok { s with
      queue := { s.queue.showAll c with popIndex := s.queue.popIndex + 1 } } := by
  simp only [step, pop_of_used h hused hn]

/-- **A push adds a chain of its own**. -/
lemma push_sound (h : s.Sound) (hfit : s.Fit (.push messages)) :
    ∃ s', s.step sizeOfT (.push messages) = .ok s' ∧ s'.Sound := by
  obtain ⟨hpos, hsize, hlast⟩ := hfit
  rcases Nat.lt_or_ge s.queue.freeList.length messages.length with hfew | henough
  · exact ⟨s, by simp only [step, push_error hpos hsize hfew], h⟩
  · refine ⟨_, step_push hpos henough, ?_, ?_⟩
    · have hlen : (s.queue.freeList.take messages.length).length = messages.length := by
        rw [List.length_take, Nat.min_eq_left henough]
      have hsorted : (s.queue.freeList.take messages.length).Pairwise (· < ·) :=
        s.queue.freeList_sorted.sublist (List.take_sublist _ _)
      have hfree : ∀ i ∈ s.queue.freeList.take messages.length, i ∈ s.queue.freeList :=
        fun i hi => List.mem_of_mem_take hi
      have hlinked : Linked (fillLoop sizeOfT (s.queue.freeList.take messages.length) messages
          s.queue.desc) (s.queue.freeList.take messages.length) :=
        fillLoop_linked hlen hsorted
          (fun i hi => (mem_freeList.mp (hfree i hi)).1.trans s.queue.size_lt) (hlast henough)
      have hinsert : Owns (s.queue.pushed sizeOfT messages)
          (s.queue.freeList.take messages.length :: s.chains) :=
        h.owns.insert (List.ne_nil_of_length_pos (by rw [hlen]; exact hpos))
          (hsorted.imp fun hlt => Nat.ne_of_lt hlt) hfree rfl hlinked (fun i => rfl)
          fun i hi => congrArg VirtqueueDesc.next (fillLoop_of_notMem hi)
      refine hinsert.perm ?_
      rw [chains, chains, List.append_assoc, List.singleton_append]
      exact List.perm_middle
    · exact ⟨h.rings.popIndex_le, h.rings.deviceIdx, h.rings.ring⟩

/-- **The device uses a chain**. -/
lemma complete_sound (h : s.Sound) {len : ℕ} {buffers : ℕ → T}
    (hfit : s.Fit (.complete k len buffers)) :
    ∃ s', s.step sizeOfT (.complete k len buffers) = .ok s' ∧ s'.Sound := by
  cases hk : s.inflight[k]? with
  | none => exact ⟨s, by simp only [step, hk], h⟩
  | some c =>
    refine ⟨_, step_complete hk len buffers, ?_, ?_⟩
    · have hperm : (s.inflight.eraseIdx k ++ (s.history ++ [c]).drop s.queue.popIndex).Perm
          s.chains := by
        rw [List.drop_append_of_le_length h.rings.popIndex_le, ← List.append_assoc]
        refine (List.perm_append_singleton c _).trans ?_
        rw [chains, used, ← List.cons_append]
        refine List.Perm.append_right _ ?_
        obtain ⟨hlt, rfl⟩ := List.getElem?_eq_some_iff.mp hk
        exact List.getElem_cons_eraseIdx_perm hlt
      have hsame : Owns (s.queue.complete (c.headD 0) len fun i =>
          if i ∈ c then buffers i else (s.queue.desc i).buffer) s.chains :=
        h.owns.congr rfl rfl fun i => rfl
      exact hsame.perm hperm
    · refine h.rings.complete ?_ hfit c len _
      -- The chain that is used now is one of at most `size`.
      have hlen := h.owns.length_le
      have hpos : 0 < s.inflight.length := Nat.zero_lt_of_lt (List.getElem?_eq_some_iff.mp hk).1
      rw [chains, List.length_append, used, List.length_drop] at hlen
      omega

/-- **A pop removes the chain it returns**. -/
lemma pop_sound (h : s.Sound) (hfit : s.Fit (.pop n)) :
    ∃ s', s.step sizeOfT (.pop n) = .ok s' ∧ s'.Sound := by
  cases hused : s.used with
  | nil =>
    have hlt := hfit.1.resolve_right fun hne => hne hused
    exact ⟨s, by simp only [step, pop_of_unused h hused hlt n], h⟩
  | cons c rest =>
    have hn := hfit.2 c (by simp [hused])
    refine ⟨_, step_pop h hused hn, ?_, ?_⟩
    · have howns : Owns s.queue (c :: (s.inflight ++ rest)) := by
        refine h.owns.perm ?_
        rw [chains, hused]
        exact List.perm_middle.symm
      have hrest : s.history.drop (s.queue.popIndex + 1) = rest := by
        rw [← List.drop_drop, ← used, hused, List.drop_one, List.tail_cons]
      have hremove : Owns { s.queue.showAll c with popIndex := s.queue.popIndex + 1 }
          (s.inflight ++ rest) := howns.remove.congr rfl rfl fun i => rfl
      simpa only [chains, used, hrest] using hremove
    · refine ⟨?_, h.rings.deviceIdx, fun j c' hj hc' => ?_⟩
      · exact (List.getElem?_eq_some_iff.mp (history_of_used hused)).1
      · exact h.rings.ring j c' (Nat.le_of_succ_le hj) hc'

/-- **Every step keeps the chains**. -/
theorem step_sound (s : Session T) (op : Op T) (h : s.Sound) (hfit : s.Fit op) :
    ∃ s', s.step sizeOfT op = .ok s' ∧ s'.Sound := by
  cases op with
  | push messages => exact push_sound h hfit
  | complete k len buffers => exact complete_sound h hfit
  | pop n => exact pop_sound h hfit

/-! ### Runs -/

/-- A pop of `n` buffers does what it should: nothing if no chain was used and not popped, and
otherwise it returns the buffers of the first such chain and frees its descriptors. -/
def PopsRight (s : Session T) (n : ℕ) : Prop :=
  (s.used = [] → pop n s.queue = .ok (none, s.queue))
    ∧ ∀ c rest, s.used = c :: rest → pop n s.queue = .ok
      (some (c.map (fun i => some (s.queue.desc i).buffer) ++ List.replicate (n - c.length) none),
        { s.queue.showAll c with popIndex := s.queue.popIndex + 1 })

variable {size : ℕ} {hpos : 0 < size} {hlt : size < ringIdxRange} {zero : T}

/-- **Pops return whole chains**: in every run in which each push takes a last descriptor whose
`next` is zero, nothing panics, and at its end a pop of the length of the next chain returns
exactly its buffers in order, frees exactly its descriptors, and none of another chain. -/
theorem chains_run {ops : List (Op T)}
    (hfit : Meets (step sizeOfT) Fit (initial size hpos hlt zero) ops) :
    ∃ s, run (step sizeOfT) (initial size hpos hlt zero) ops = .ok s
      ∧ ∀ c rest, s.used = c :: rest →
          pop c.length s.queue = .ok (some (c.map fun i => some (s.queue.desc i).buffer),
            { s.queue.showAll c with popIndex := s.queue.popIndex + 1 })
          ∧ ∀ c' ∈ s.inflight ++ rest, c.Disjoint c' := by
  obtain ⟨s, hrun, hs⟩ := run_total_of_meets step_sound (initial_sound size hpos hlt zero) hfit
  refine ⟨s, hrun, fun c rest hused => ⟨?_, fun c' hc' => ?_⟩⟩
  · simpa using pop_of_used hs hused (Nat.le_refl c.length)
  · have howns : Owns s.queue (c :: (s.inflight ++ rest)) := by
      refine hs.owns.perm ?_
      rw [chains, hused]
      exact List.perm_middle.symm
    exact howns.disjoint hc'

/-- The condition on a step when the size of the queue divides the range of the indices. -/
def Orderly (s : Session T) : Op T → Prop
  | .push messages => s.Fit (.push messages)
  | .complete _ _ _ => True
  | .pop n => s.Fit (.pop n)

instance Orderly.decidable (s : Session T) : ∀ op, Decidable (s.Orderly op)
  | .push messages => Fit.decidable s (.push messages)
  | .complete _ _ _ => isTrue trivial
  | .pop n => Fit.decidable s (.pop n)

/-- No step changes the size. -/
lemma step_size {s' : Session T} {op : Op T} (h : s.Sound) (hfit : s.Fit op)
    (hs : s.step sizeOfT op = .ok s') : s'.queue.size = s.queue.size := by
  cases op with
  | push messages =>
    obtain ⟨hpos, hsize, -⟩ := hfit
    rcases Nat.lt_or_ge s.queue.freeList.length messages.length with hfew | henough
    · simp only [step, push_error hpos hsize hfew] at hs
      cases hs
      rfl
    · rw [step_push hpos henough] at hs
      cases hs
      rfl
  | complete k len buffers =>
    cases hk : s.inflight[k]? with
    | none =>
      simp only [step, hk] at hs
      cases hs
      rfl
    | some c =>
      rw [step_complete hk] at hs
      cases hs
      rfl
  | pop n =>
    cases hused : s.used with
    | nil =>
      simp only [step, pop_of_unused h hused (hfit.1.resolve_right fun hne => hne hused) n] at hs
      cases hs
      rfl
    | cons c rest =>
      rw [step_pop h hused (hfit.2 c (by simp [hused]))] at hs
      cases hs
      rfl

/-- **Pops come in the order of use**, in runs of any length of a queue whose size is a power of
two: in every state that a run of orderly steps reaches, the next pop is right exactly if fewer
than `2 ^ 16` chains were popped or there is one to return. -/
theorem pops_run {k : ℕ} (hpow : size = 2 ^ k) {ops : List (Op T)}
    (horderly : Meets (step sizeOfT) Orderly (initial size hpos hlt zero) ops) :
    ∃ s, run (step sizeOfT) (initial size hpos hlt zero) ops = .ok s
      ∧ ∀ n, (∀ c ∈ s.used.head?, c.length ≤ n) →
          (s.PopsRight n ↔ s.queue.popIndex < ringIdxRange ∨ s.used ≠ []) := by
  have hdvd : size ∣ ringIdxRange := by
    subst hpow
    exact Nat.pow_dvd_pow 2 (Nat.le_of_lt ((Nat.pow_lt_pow_iff_right (by decide)).mp hlt))
  obtain ⟨s, hrun, hs, -⟩ := run_total_of_meets
    (I := fun s : Session T => s.Sound ∧ s.queue.size = size)
    (fun s op hs hop => by
      have hfit : s.Fit op := by
        cases op with
        | push messages => exact hop
        | complete k len buffers => exact Or.inl (hs.2 ▸ hdvd)
        | pop n => exact hop
      obtain ⟨s', hstep, hs'⟩ : ∃ s', s.step sizeOfT op = .ok s' ∧ s'.Sound :=
        step_sound s op hs.1 hfit
      exact ⟨s', hstep, hs', (step_size hs.1 hfit hstep).trans hs.2⟩)
    ⟨initial_sound size hpos hlt zero, rfl⟩ horderly
  refine ⟨s, hrun, fun n hn => ⟨fun hright => ?_, fun hcond => ⟨fun hused => ?_, ?_⟩⟩⟩
  · by_contra hnot
    rw [not_or, Nat.not_lt, not_not] at hnot
    exact pop_ne_none hs hnot.1 n _ (hright.1 hnot.2)
  · exact pop_of_unused hs hused (hcond.resolve_right fun hne => hne hused) n
  · intro c rest hused
    exact pop_of_used hs hused (hn c (by simp [hused]))

/-! ### Small queues -/

/-- A chain of one and a chain of two, used in the other order. -/
def longerChain : List (Op Unit) :=
  [.push [.deviceWrite], .push [.deviceWrite, .deviceWrite], .complete 1 0 fun _ => (),
    .complete 0 0 fun _ => (), .pop 2]

/-- A longer chain beside a shorter one does no harm. -/
theorem chains_run_longerChain :
    ∃ s, run (step 0) (initial 3 (by decide) (by decide) ()) longerChain = .ok s
      ∧ ∀ c rest, s.used = c :: rest →
          pop c.length s.queue = .ok (some (c.map fun i => some (s.queue.desc i).buffer),
            { s.queue.showAll c with popIndex := s.queue.popIndex + 1 })
          ∧ ∀ c' ∈ s.inflight ++ rest, c.Disjoint c' :=
  chains_run (by decide +kernel)

/-- A chain of two is used and popped, then a chain of one. -/
def shorterChain : List (Op Unit) :=
  [.push [.deviceWrite, .deviceWrite], .complete 0 0 fun _ => (), .pop 2,
    .push [.deviceWrite], .complete 0 0 fun _ => (), .pop 1]

/-- **A shorter chain is followed into an old one**: its only descriptor still has the `next` it
had as the first of two, and the pop has no room for a second buffer. -/
theorem shorterChain_panics :
    run (step 0) (initial 2 (by decide) (by decide) ()) shorterChain = .error .bufferIndex := by
  decide +kernel

/-- One chain is pushed, used and popped. -/
def cycle : List (Op Unit) := [.push [.deviceWrite], .complete 0 0 fun _ => (), .pop 1]

/-- A queue of one descriptor between two cycles. -/
structure Idle (k : ℕ) (s : Session Unit) : Prop where
  sound : s.Sound
  size : s.queue.size = 1
  inflight : s.inflight = []
  history : s.history.length = k
  popIndex : s.queue.popIndex = k
  next : (s.queue.desc 0).next = 0
  ring : (s.queue.deviceRing 0).id = 0

lemma Idle.freeList {s : Session Unit} (h : Idle k s) : s.queue.freeList = [0] := by
  have hchains : s.chains = [] := by
    rw [chains, h.inflight, used, List.nil_append, List.drop_eq_nil_iff, h.history, h.popIndex]
  have havail : s.queue.availableDescriptors 0 = true := by
    have htaken := h.sound.owns.taken 0 (by rw [h.size]; decide)
    rw [hchains, List.flatten_nil] at htaken
    simpa using htaken
  rw [Virtqueue.freeList, h.size]
  simp [havail]

/-- A step keeps the chains in the state it is known to lead to. -/
lemma sound_of_step {s s₁ : Session Unit} {op : Op Unit} (hstep : s.step 0 op = .ok s₁)
    (h : s.Sound) (hfit : s.Fit op) : s₁.Sound := by
  obtain ⟨s', hs', hsound⟩ : ∃ s', s.step 0 op = .ok s' ∧ s'.Sound := step_sound s op h hfit
  cases hstep.symm.trans hs'
  exact hsound

/-- The one descriptor is on its way. -/
def offered (s : Session Unit) : Session Unit :=
  { s with queue := s.queue.pushed 0 [.deviceWrite], inflight := [[0]] }

/-- The device has used it. -/
def returned (s : Session Unit) : Session Unit where
  queue := s.offered.queue.complete 0 0 fun _ => ()
  inflight := []
  history := s.history ++ [[0]]

/-- **A cycle leads from one idle state to the next**, however many there were before. -/
lemma Idle.cycle {s : Session Unit} (h : Idle k s) :
    ∃ s', run (step 0) s cycle = .ok s' ∧ Idle (k + 1) s' := by
  have hfree := h.freeList
  -- The push takes the one descriptor.
  have hpush : s.step 0 (.push [.deviceWrite]) = .ok s.offered := by
    rw [step_push (by decide) (by rw [hfree]; decide), hfree, h.inflight]
    rfl
  have hoffered : s.offered.Sound := by
    refine sound_of_step hpush h.sound ⟨by decide, by rw [h.size]; decide, fun _ i hi => ?_⟩
    rw [hfree] at hi
    cases hi
    exact h.next
  -- The device uses the chain, the only one on its way.
  have huse : s.offered.step 0 (.complete 0 0 fun _ => ()) = .ok s.returned := by
    rw [step_complete (c := [0]) rfl]
    rfl
  have hreturned : s.returned.Sound := by
    refine sound_of_step huse hoffered (.inl ?_)
    rw [show s.offered.queue.size = 1 from h.size]
    exact Nat.one_dvd _
  -- The pop gets it.
  have hused : s.returned.used = [[0]] := List.drop_left' (h.history.trans h.popIndex.symm)
  have hpop : s.returned.step 0 (.pop 1) = .ok { s.returned with
      queue := { s.returned.queue.showAll [0] with popIndex := s.returned.queue.popIndex + 1 } } :=
    step_pop hreturned hused (Nat.le_refl 1)
  have hdone := sound_of_step hpop hreturned ⟨.inr (by rw [hused]; simp), fun c hc => by
    rw [hused] at hc
    cases hc
    exact Nat.le_refl 1⟩
  refine ⟨_, ?_, hdone, h.size, rfl, ?_, congrArg (· + 1) h.popIndex, ?_, ?_⟩
  · rw [Session.cycle, run_cons_ok hpush, run_cons_ok huse, run_cons_ok hpop, run_nil]
  · exact (List.length_append).trans (congrArg (· + 1) h.history)
  · show (fillLoop 0 (s.queue.freeList.take 1) [.deviceWrite] s.queue.desc 0).next = 0
    rw [hfree]
    exact h.next
  · show (Function.update s.queue.deviceRing (s.queue.deviceIdx % s.queue.size) ⟨0, 0⟩ 0).id = 0
    rw [h.size, Nat.mod_one, Function.update_self]

/-- Any number of cycles. -/
lemma run_cycles (k : ℕ) :
    ∃ s, run (step 0) (initial 1 (by decide) (by decide) ()) (List.replicate k cycle).flatten = .ok s
      ∧ Idle k s := by
  induction k with
  | zero => exact ⟨_, rfl, initial_sound 1 _ _ (), rfl, rfl, rfl, rfl, rfl, rfl⟩
  | succ k ih =>
    obtain ⟨s, hrun, hidle⟩ := ih
    obtain ⟨s', hcycle, hidle'⟩ := hidle.cycle
    refine ⟨s', ?_, hidle'⟩
    rw [List.replicate_succ', List.flatten_append, run_append, hrun, List.flatten_singleton]
    exact hcycle

/-- **The pop after `2 ^ 16` cycles returns a chain that was popped before**, though the device
has nothing to return. -/
theorem pop_returns_twice :
    ∃ s, run (step 0) (initial 1 (by decide) (by decide) ())
        (List.replicate ringIdxRange cycle).flatten = .ok s
      ∧ s.used = [] ∧ ∃ v, pop 1 s.queue = .ok (some [some ()], v) := by
  obtain ⟨s, hrun, hidle⟩ := run_cycles ringIdxRange
  have hdevice : s.queue.deviceIdx = 0 := by
    rw [hidle.sound.rings.deviceIdx, hidle.history, Nat.mod_self]
  refine ⟨s, hrun, ?_,
    { s.queue.returnDescriptor 0 with popIndex := s.queue.popIndex + 1 }, ?_⟩
  · rw [used, List.drop_eq_nil_iff, hidle.history, hidle.popIndex]
  · rw [pop, if_neg (by rw [hdevice, hidle.popIndex]; decide), hidle.size, Nat.mod_one, hidle.ring,
      popLoop, if_neg (by rw [hidle.size]; decide), if_pos hidle.next]
    rfl

/-- Two cycles of a queue of one descriptor. -/
theorem pops_run_twoCycles :
    ∃ s, run (step 0) (initial 1 (by decide) (by decide) ()) (cycle ++ cycle) = .ok s
      ∧ ∀ n, (∀ c ∈ s.used.head?, c.length ≤ n) →
          (s.PopsRight n ↔ s.queue.popIndex < ringIdxRange ∨ s.used ≠ []) :=
  pops_run (k := 0) rfl (by decide +kernel)

end Session

end Virtqueue

end Rhubarb
