import Mathlib.Tactic
import Rhubarb.Foundations.Comp

/-!
The split virtqueue of the drivers (`Virtqueue` of `virtio/src/virtio.rs`).

The driver hands chains of descriptors to the device.  `push` takes the lowest available
descriptors, links them by their `next` fields and offers the first to the device; `pop` takes
the next element of the used ring, follows the `next` fields until one is zero, and makes the
descriptors it passes available again.  Zero is also a valid index, and `push` never resets the
`next` of the last descriptor: what is there is what an earlier chain left.

* `freeList`, `takeLoop_ok`, `takeLoop_error`: `push` takes the lowest descriptors, all or none.
* `push_ok`, `push_error`: what `push` does.
* `popLoop_linked`: what `pop` returns from a chain that is linked as it should be.
-/

namespace Rhubarb

open Foundations

variable {T : Type}

/-- `VirtqueueDesc`.  Its address never changes after `initialize_queue`, and no two descriptors
share a buffer: the buffer stands for it. -/
structure VirtqueueDesc (T : Type) where
  buffer : T
  len : ℕ
  flags : ℕ
  next : ℕ
  deriving DecidableEq

/-- `VirtqueueUsedElement`. -/
structure VirtqueueUsedElement where
  id : ℕ
  len : ℕ
  deriving DecidableEq

/-- `VirtqueueMessage`. -/
inductive VirtqueueMessage (T : Type) where
  | deviceWrite
  | deviceRead (data : T) (len : Option ℕ)

/-- The number of values of the `idx` of a ring, a `u16`. -/
def ringIdxRange : ℕ := 2 ^ 16

/-- The panics of the queue. -/
inductive VirtqueuePanic where
  | chainLength
  | descriptorIndex
  | bufferIndex
  deriving DecidableEq, Repr

variable {taken is : List ℕ} {sizeOfT : ℕ}

/-- `Virtqueue` with its storage; `size` is `QUEUE_SIZE`, and entries of the arrays from there on
mean nothing.  `initialize_queue` has compared `size` with a register of 16 bits. -/
structure Virtqueue (T : Type) where
  size : ℕ
  size_pos : 0 < size
  size_lt : size < ringIdxRange
  desc : ℕ → VirtqueueDesc T
  driverIdx : ℕ
  driverRing : ℕ → ℕ
  deviceIdx : ℕ
  deviceRing : ℕ → VirtqueueUsedElement
  popIndex : ℕ
  availableDescriptors : ℕ → Bool

namespace Virtqueue

/-- The queue `initialize_queue` returns, with buffers of zeros. -/
def new (size : ℕ) (hpos : 0 < size) (hlt : size < ringIdxRange) (zero : T) : Virtqueue T where
  size := size
  size_pos := hpos
  size_lt := hlt
  desc _ := ⟨zero, 0, 0, 0⟩
  driverIdx := 0
  driverRing _ := 0
  deviceIdx := 0
  deviceRing _ := ⟨0, 0⟩
  popIndex := 0
  availableDescriptors _ := true

/-- `Virtqueue::return_descriptor`. -/
def returnDescriptor (v : Virtqueue T) (i : ℕ) : Virtqueue T :=
  { v with availableDescriptors := Function.update v.availableDescriptors i true }

/-- A descriptor is not available any more. -/
def hide (v : Virtqueue T) (i : ℕ) : Virtqueue T :=
  { v with availableDescriptors := Function.update v.availableDescriptors i false }

/-- `Virtqueue::take_descriptor`. -/
def takeDescriptor (v : Virtqueue T) : Option (ℕ × Virtqueue T) :=
  ((List.range v.size).find? v.availableDescriptors).map fun i => (i, v.hide i)

/-- The first loop of `push`, with the descriptors taken so far; they are all given back if there
is no other. -/
def takeLoop : ℕ → List ℕ → Virtqueue T → Option (List ℕ) × Virtqueue T
  | 0, taken, v => (some taken, v)
  | k + 1, taken, v =>
    match v.takeDescriptor with
    | some (i, v) => takeLoop k (taken ++ [i]) v
    | none => (none, taken.foldl returnDescriptor v)

variable [Inhabited T]

/-- A descriptor as a message fills it; `size_of::<T>()` is `sizeOfT`. -/
def VirtqueueMessage.fill (sizeOfT : ℕ) (d : VirtqueueDesc T) :
    VirtqueueMessage T → VirtqueueDesc T
  | .deviceRead data len => { d with flags := 0, len := len.getD sizeOfT % 2 ^ 32, buffer := data }
  | .deviceWrite => { d with flags := 2, len := sizeOfT % 2 ^ 32, buffer := default }

/-- A descriptor that is not the last one of its chain. -/
def link (d : VirtqueueDesc T) (next : ℕ) : VirtqueueDesc T :=
  { d with next := next % 2 ^ 16, flags := d.flags ||| 1 }

/-- The second loop of `push`: the last descriptor keeps the `next` it had. -/
def fillLoop (sizeOfT : ℕ) : List ℕ → List (VirtqueueMessage T) → (ℕ → VirtqueueDesc T) →
    ℕ → VirtqueueDesc T
  | i :: j :: is, m :: ms, desc =>
    fillLoop sizeOfT (j :: is) ms
      (Function.update desc i (link (VirtqueueMessage.fill sizeOfT (desc i) m) j))
  | [i], m :: _, desc => Function.update desc i (VirtqueueMessage.fill sizeOfT (desc i) m)
  | _, _, desc => desc

/-- The chain is offered to the device. -/
def offer (v : Virtqueue T) (head : ℕ) : Virtqueue T :=
  { v with
    driverRing := Function.update v.driverRing (v.driverIdx % v.size) (head % 2 ^ 16)
    driverIdx := (v.driverIdx + 1) % ringIdxRange }

/-- `Virtqueue::push`, of as many messages as the list has. -/
def push (sizeOfT : ℕ) (v : Virtqueue T) (messages : List (VirtqueueMessage T)) :
    Except VirtqueuePanic (Bool × Virtqueue T) :=
  if 0 < messages.length ∧ messages.length ≤ v.size then
    match takeLoop messages.length [] v with
    | (none, v) => .ok (false, v)
    | (some indices, v) =>
      .ok (true, { v with desc := fillLoop sizeOfT indices messages v.desc }.offer
        (indices.headD 0))
  else .error .chainLength

/-- The loop of `pop`, with room for `k` more buffers. -/
def popLoop : ℕ → ℕ → Virtqueue T → Except VirtqueuePanic (List T × Virtqueue T)
  | k, i, v =>
    if v.size ≤ i then .error .descriptorIndex
    else
      match k with
      | 0 => .error .bufferIndex
      | k + 1 =>
        if (v.desc i).next = 0 then .ok ([(v.desc i).buffer], v.returnDescriptor i)
        else
          (popLoop k (v.desc i).next (v.returnDescriptor i)).map fun (buffers, v') =>
            ((v.desc i).buffer :: buffers, v')

/-- `Virtqueue::pop` of `n` buffers; those the chain does not fill are `None`. -/
def pop (n : ℕ) (v : Virtqueue T) :
    Except VirtqueuePanic (Option (List (Option T)) × Virtqueue T) :=
  if v.deviceIdx = v.popIndex then .ok (none, v)
  else
    (popLoop n (v.deviceRing (v.popIndex % v.size)).id v).map fun (buffers, v') =>
      (some (buffers.map some ++ List.replicate (n - buffers.length) none),
        { v' with popIndex := v'.popIndex + 1 })

/-- The device has used the chain that starts at `head`: it may have written to the buffers, and
publishes a used element. -/
def complete (v : Virtqueue T) (head len : ℕ) (buffers : ℕ → T) : Virtqueue T :=
  { v with
    desc := fun i => { v.desc i with buffer := buffers i }
    deviceRing := Function.update v.deviceRing (v.deviceIdx % v.size) ⟨head, len⟩
    deviceIdx := (v.deviceIdx + 1) % ringIdxRange }

/-! ### Taking descriptors -/

section Take

omit [Inhabited T]

variable {v : Virtqueue T} {k : ℕ}

/-- The available descriptors, the lowest first. -/
def freeList (v : Virtqueue T) : List ℕ := (List.range v.size).filter v.availableDescriptors

lemma mem_freeList {i : ℕ} : i ∈ v.freeList ↔ i < v.size ∧ v.availableDescriptors i = true := by
  rw [freeList, List.mem_filter, List.mem_range]

lemma freeList_sorted : v.freeList.Pairwise (· < ·) := List.Pairwise.filter _ List.pairwise_lt_range

/-- Hiding the lowest descriptor leaves the others. -/
lemma freeList_hide {i : ℕ} {rest : List ℕ} (h : v.freeList = i :: rest) :
    (v.hide i).freeList = rest := by
  have hsorted := v.freeList_sorted
  rw [h, List.pairwise_cons] at hsorted
  have hfilter : (v.hide i).freeList = v.freeList.filter (fun j => decide (j ≠ i)) := by
    rw [freeList, freeList, List.filter_filter]
    refine List.filter_congr fun j _ => ?_
    rcases eq_or_ne j i with rfl | hne
    · simp [hide]
    · simp [hide, hne]
  rw [hfilter, h, List.filter_cons_of_neg (by simp), List.filter_eq_self]
  intro j hj
  exact decide_eq_true (Nat.ne_of_gt (hsorted.1 j hj))

lemma takeDescriptor_eq : v.takeDescriptor = v.freeList.head?.map fun i => (i, v.hide i) := by
  rw [takeDescriptor, freeList, List.head?_filter]

/-- The queue with a list of descriptors hidden. -/
def hideAll (v : Virtqueue T) (is : List ℕ) : Virtqueue T :=
  { v with availableDescriptors := fun i => v.availableDescriptors i && decide (i ∉ is) }

lemma hideAll_hide (v : Virtqueue T) (i : ℕ) (is : List ℕ) :
    (v.hide i).hideAll is = v.hideAll (i :: is) := by
  have havail : (fun j => Function.update v.availableDescriptors i false j && decide (j ∉ is))
      = fun j => v.availableDescriptors j && decide (j ∉ i :: is) := by
    funext j
    rcases eq_or_ne j i with rfl | hne
    · simp
    · simp [hne]
  simp only [hideAll, hide, havail]

lemma hideAll_nil (v : Virtqueue T) : v.hideAll [] = v := by
  simp [hideAll]

/-- **The loop takes the lowest descriptors** if there are enough. -/
lemma takeLoop_ok (h : k ≤ v.freeList.length) :
    takeLoop k taken v = (some (taken ++ v.freeList.take k), v.hideAll (v.freeList.take k)) := by
  induction k generalizing taken v with
  | zero => simp [takeLoop, hideAll_nil]
  | succ k ih =>
    cases hf : v.freeList with
    | nil => simp [hf] at h
    | cons i rest =>
      have hrest := freeList_hide hf
      rw [hf, List.length_cons, Nat.succ_le_succ_iff] at h
      rw [takeLoop, takeDescriptor_eq, hf]
      simp only [List.head?_cons, Option.map_some, List.take_succ_cons]
      rw [ih (by rw [hrest]; exact h), hrest, hideAll_hide, List.append_assoc,
        List.singleton_append]

/-- Giving descriptors back makes them available. -/
lemma foldl_returnDescriptor (v : Virtqueue T) (is : List ℕ) :
    is.foldl returnDescriptor v
      = { v with availableDescriptors := fun i => v.availableDescriptors i || decide (i ∈ is) } := by
  induction is generalizing v with
  | nil => simp
  | cons j is ih =>
    have havail : (fun i => Function.update v.availableDescriptors j true i || decide (i ∈ is))
        = fun i => v.availableDescriptors i || decide (i ∈ j :: is) := by
      funext i
      rcases eq_or_ne i j with rfl | hne
      · simp
      · simp [hne]
    rw [List.foldl_cons, ih]
    simp only [returnDescriptor, havail]

/-- The loop that does not find enough gives back what it has taken, from the queue `v₀` it
started with. -/
lemma takeLoop_error {v₀ : Virtqueue T} (h : v.freeList.length < k) (hv : v = v₀.hideAll taken)
    (htaken : ∀ i ∈ taken, v₀.availableDescriptors i = true) :
    takeLoop k taken v = (none, v₀) := by
  induction k generalizing taken v with
  | zero => omega
  | succ k ih =>
    cases hf : v.freeList with
    | nil =>
      rw [takeLoop, takeDescriptor_eq, hf]
      simp only [List.head?_nil, Option.map_none, foldl_returnDescriptor, hv, hideAll]
      have havail : (fun i => (v₀.availableDescriptors i && decide (i ∉ taken))
          || decide (i ∈ taken)) = v₀.availableDescriptors := by
        funext i
        by_cases hi : i ∈ taken
        · simp [hi, htaken i hi]
        · simp [hi]
      rw [havail]
    | cons i rest =>
      have hrest := freeList_hide hf
      have hi : v.availableDescriptors i = true := (mem_freeList.mp (hf ▸ List.mem_cons_self)).2
      rw [hf, List.length_cons, Nat.succ_lt_succ_iff] at h
      rw [takeLoop, takeDescriptor_eq, hf]
      simp only [List.head?_cons, Option.map_some]
      refine ih (by rw [hrest]; exact h) ?_ fun j hj => ?_
      · rw [hv]
        have havail : Function.update (fun j => v₀.availableDescriptors j && decide (j ∉ taken))
            i false = fun j => v₀.availableDescriptors j && decide (j ∉ taken ++ [i]) := by
          funext j
          rcases eq_or_ne j i with rfl | hne
          · simp
          · simp [hne]
        simp only [hide, hideAll, havail]
      · rcases List.mem_append.mp hj with hj | hj
        · exact htaken j hj
        · rw [List.mem_singleton.mp hj]
          rw [hv, hideAll, Bool.and_eq_true] at hi
          exact hi.1

end Take

/-! ### Chains -/

/-- The descriptors are linked in the order of the list, and the last one ends the chain. -/
def Linked (desc : ℕ → VirtqueueDesc T) : List ℕ → Prop
  | [] => True
  | [i] => (desc i).next = 0
  | i :: j :: is => (desc i).next = j ∧ j ≠ 0 ∧ Linked desc (j :: is)

variable {desc : ℕ → VirtqueueDesc T} {ms messages : List (VirtqueueMessage T)} {v : Virtqueue T}

omit [Inhabited T] in
/-- A chain depends on its own descriptors only. -/
lemma Linked.congr {desc' : ℕ → VirtqueueDesc T} {c : List ℕ} (h : Linked desc c)
    (heq : ∀ i ∈ c, (desc' i).next = (desc i).next) : Linked desc' c := by
  fun_induction Linked desc c with
  | case1 => trivial
  | case2 i => exact (heq i List.mem_cons_self).trans h
  | case3 i j is ih =>
    exact ⟨(heq i List.mem_cons_self).trans h.1, h.2.1,
      ih h.2.2 fun k hk => heq k (List.mem_cons_of_mem _ hk)⟩

omit [Inhabited T] in
/-- A chain ends with a zero. -/
lemma Linked.next_last {c : List ℕ} (h : Linked desc c) :
    ∀ i ∈ c.getLast?, (desc i).next = 0 := by
  fun_induction Linked desc c with
  | case1 => intro i hi; cases hi
  | case2 i => intro j hj; cases hj; exact h
  | case3 i j is ih =>
    intro k hk
    exact ih h.2.2 k (by simpa using hk)

/-- Other descriptors are not touched by a push. -/
lemma fillLoop_of_notMem {k : ℕ} (hk : k ∉ is) : fillLoop sizeOfT is ms desc k = desc k := by
  fun_induction fillLoop sizeOfT is ms desc with
  | case1 i j is m ms desc ih =>
    rw [List.mem_cons, not_or] at hk
    rw [ih hk.2, Function.update_of_ne hk.1]
  | case2 i m ms desc => rw [Function.update_of_ne (by simpa using hk)]
  | case3 => rfl

@[simp] lemma fill_next (sizeOfT : ℕ) (d : VirtqueueDesc T) (m : VirtqueueMessage T) :
    (VirtqueueMessage.fill sizeOfT d m).next = d.next := by
  cases m <;> rfl

/-- **A push links its chain**, if the last descriptor was left with a zero. -/
lemma fillLoop_linked (hlen : is.length = ms.length) (hsorted : is.Pairwise (· < ·))
    (hlt : ∀ i ∈ is, i < ringIdxRange) (hlast : ∀ i ∈ is.getLast?, (desc i).next = 0) :
    Linked (fillLoop sizeOfT is ms desc) is := by
  fun_induction fillLoop sizeOfT is ms desc with
  | case1 i j is m ms desc ih =>
    obtain ⟨hi, hrest⟩ := List.pairwise_cons.mp hsorted
    have hij : i < j := hi j List.mem_cons_self
    have hnot : i ∉ j :: is := fun hmem => Nat.lt_irrefl i (hi i hmem)
    refine ⟨?_, by omega, ih (by simpa using hlen) hrest
      (fun k hk => hlt k (List.mem_cons_of_mem _ hk)) fun k hk => ?_⟩
    · rw [fillLoop_of_notMem hnot, Function.update_self, link]
      exact Nat.mod_eq_of_lt (hlt j (by simp))
    · have hmem : k ∈ j :: is := List.mem_of_getLast? hk
      have hne : k ≠ i := fun heq => hnot (heq ▸ hmem)
      rw [Function.update_of_ne hne]
      exact hlast k (by simpa using hk)
  | case2 i m ms desc =>
    rw [Linked, Function.update_self, fill_next]
    exact hlast i rfl
  | case3 is ms desc h₁ h₂ =>
    match is, ms, h₁, h₂ with
    | [], _, _, _ => trivial
    | i :: is, [], _, _ => simp at hlen
    | [i], m :: ms, _, h₂ => exact absurd rfl (h₂ i m ms rfl)
    | i :: j :: is, m :: ms, h₁, _ => exact absurd rfl (h₁ i j is m ms rfl)

/-- The queue with a list of descriptors made available. -/
def showAll (v : Virtqueue T) (is : List ℕ) : Virtqueue T :=
  { v with availableDescriptors := fun i => v.availableDescriptors i || decide (i ∈ is) }

omit [Inhabited T] in
lemma showAll_returnDescriptor (v : Virtqueue T) (i : ℕ) (is : List ℕ) :
    (v.returnDescriptor i).showAll is = v.showAll (i :: is) := by
  have hfold := foldl_returnDescriptor v (i :: is)
  rw [List.foldl_cons, foldl_returnDescriptor] at hfold
  exact hfold

omit [Inhabited T] in
/-- **A pop returns a chain**: its buffers in order, its descriptors available again. -/
lemma popLoop_linked {i : ℕ} {k : ℕ} (hlinked : Linked v.desc (i :: is))
    (hlt : ∀ j ∈ i :: is, j < v.size) (hk : is.length < k) :
    popLoop k i v = .ok ((i :: is).map (fun j => (v.desc j).buffer), v.showAll (i :: is)) := by
  induction is generalizing i k v with
  | nil =>
    obtain ⟨k, rfl⟩ := Nat.exists_eq_succ_of_ne_zero (Nat.ne_of_gt hk)
    have hi : ¬v.size ≤ i := Nat.not_le.mpr (hlt i List.mem_cons_self)
    have hshow : v.returnDescriptor i = v.showAll [i] := by
      simpa [showAll] using foldl_returnDescriptor v [i]
    have hnext : (v.desc i).next = 0 := hlinked
    rw [popLoop, if_neg hi, if_pos hnext, hshow]
    rfl
  | cons j is ih =>
    obtain ⟨k, rfl⟩ := Nat.exists_eq_succ_of_ne_zero (Nat.ne_of_gt (Nat.zero_lt_of_lt hk))
    have hi : ¬v.size ≤ i := Nat.not_le.mpr (hlt i List.mem_cons_self)
    obtain ⟨hnext, hne, hrest⟩ := hlinked
    have hloop := ih (v := v.returnDescriptor i) (k := k) hrest
      (fun l hl => hlt l (List.mem_cons_of_mem _ hl)) (Nat.lt_of_succ_lt_succ hk)
    rw [popLoop, if_neg hi]
    simp only [hnext, if_neg hne, hloop]
    rw [showAll_returnDescriptor]
    rfl

/-- The queue after its lowest descriptors were filled with messages. -/
def pushed (v : Virtqueue T) (sizeOfT : ℕ) (messages : List (VirtqueueMessage T)) : Virtqueue T :=
  { v.hideAll (v.freeList.take messages.length) with
    desc := fillLoop sizeOfT (v.freeList.take messages.length) messages v.desc }.offer
      ((v.freeList.take messages.length).headD 0)

/-- **A push that finds enough descriptors** takes the lowest ones. -/
lemma push_ok (hpos : 0 < messages.length) (hfree : messages.length ≤ v.freeList.length) :
    push sizeOfT v messages = .ok (true, v.pushed sizeOfT messages) := by
  have hsize : messages.length ≤ v.size :=
    calc messages.length ≤ v.freeList.length := hfree
      _ ≤ (List.range v.size).length := List.length_filter_le _ _
      _ = v.size := List.length_range
  rw [push, if_pos ⟨hpos, hsize⟩, takeLoop_ok hfree, List.nil_append]
  rfl

/-- **A push that does not find enough** changes nothing. -/
lemma push_error (hpos : 0 < messages.length) (hsize : messages.length ≤ v.size)
    (hfree : v.freeList.length < messages.length) :
    push sizeOfT v messages = .ok (false, v) := by
  rw [push, if_pos ⟨hpos, hsize⟩, takeLoop_error hfree (hideAll_nil v).symm (by simp)]

end Virtqueue

end Rhubarb
