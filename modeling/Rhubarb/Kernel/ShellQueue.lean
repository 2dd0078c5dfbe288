import Mathlib.Data.Fin.Basic
import Mathlib.Data.Int.ModEq
import Mathlib.Data.List.Basic
import Mathlib.Logic.Function.Basic
import Mathlib.Tactic.Common

/-!
What the kernel and the shell share (`process/src/process.rs`): policies and priorities of
processes, the messages in both directions, and the fixed rings that carry them.

A ring has no counter: a cell is `None` when it is free, `push` writes to the cell under its
cursor whatever is in it, and `pop` takes what is in the cell under its own.  As long as no
more than `size` elements are waiting, this is a queue.

* `Holds.push`, `Holds.pop_cons`, `Holds.pop_nil`: the ring refines a list, appended to at one
  end and taken from at the other.
* `Holds.push_full`: a push to a full ring replaces the oldest element.
* `Holds.contents_eq`: the list can be read off the ring.
-/

namespace Rhubarb

/-- `SizedQueue`; both cursors are indices into the array. -/
structure SizedQueue (α : Type) (size : ℕ) where
  inner : Fin size → Option α
  pushCursor : Fin size
  popCursor : Fin size

namespace SizedQueue

variable {α : Type} {size : ℕ}

/-- `SizedQueue::new`. -/
def new (α : Type) (size : ℕ) (h : 0 < size) : SizedQueue α size := ⟨fun _ => none, ⟨0, h⟩, ⟨0, h⟩⟩

/-- The cursor after one more cell. -/
def advance (c : Fin size) : Fin size :=
  if h : c.val + 1 < size then ⟨c.val + 1, h⟩ else ⟨0, c.pos⟩

/-- `SizedQueue::push`. -/
def push (q : SizedQueue α size) (element : α) : SizedQueue α size :=
  { q with
    inner := Function.update q.inner q.pushCursor (some element)
    pushCursor := advance q.pushCursor }

/-- `SizedQueue::pop`. -/
def pop (q : SizedQueue α size) : Option α × SizedQueue α size :=
  match q.inner q.popCursor with
  | some element =>
    (some element,
      { q with
        inner := Function.update q.inner q.popCursor none
        popCursor := advance q.popCursor })
  | none => (none, q)

/-! ### Cells counted from a cursor -/

/-- The cell `k` places after a cursor. -/
def cell (c : Fin size) (k : ℕ) : Fin size := ⟨(c.val + k) % size, Nat.mod_lt _ c.pos⟩

@[simp] lemma cell_zero (c : Fin size) : cell c 0 = c :=
  Fin.ext (Nat.mod_eq_of_lt c.isLt)

lemma cell_cell (c : Fin size) (j k : ℕ) : cell (cell c j) k = cell c (j + k) := by
  apply Fin.ext
  simp only [cell, Nat.mod_add_mod, Nat.add_assoc]

lemma advance_eq_cell (c : Fin size) : advance c = cell c 1 := by
  apply Fin.ext
  have hc := c.isLt
  by_cases h : c.val + 1 < size
  · simp only [advance, h, dif_pos, cell, Nat.mod_eq_of_lt h]
  · have hsize : c.val + 1 = size := by omega
    rw [advance, dif_neg h]
    simp only [cell, hsize, Nat.mod_self]

lemma cell_size (c : Fin size) : cell c size = c := by
  apply Fin.ext
  simp only [cell, Nat.add_mod_right, Nat.mod_eq_of_lt c.isLt]

/-- Different places below `size` are different cells. -/
lemma cell_injective {c : Fin size} {j k : ℕ} (hj : j < size) (hk : k < size)
    (h : cell c j = cell c k) : j = k := by
  have hmod : (c.val + j) % size = (c.val + k) % size := congrArg Fin.val h
  have := Nat.ModEq.add_left_cancel' c.val hmod
  rwa [Nat.ModEq, Nat.mod_eq_of_lt hj, Nat.mod_eq_of_lt hk] at this

/-! ### The ring as a list -/

/-- The ring holds the elements of a list, the oldest first. -/
structure Holds (q : SizedQueue α size) (l : List α) : Prop where
  length_le : l.length ≤ size
  pushCursor : q.pushCursor = cell q.popCursor l.length
  inner : ∀ k < size, q.inner (cell q.popCursor k) = l[k]?

variable {q : SizedQueue α size} {l : List α} {x : α}

lemma holds_new (h : 0 < size) : (new α size h).Holds [] where
  length_le := Nat.zero_le _
  pushCursor := (cell_zero _).symm
  inner _ _ := rfl

/-- **A push appends** while there is a free cell. -/
lemma Holds.push (h : q.Holds l) (hlen : l.length < size) (x : α) : (q.push x).Holds (l ++ [x]) where
  length_le := by
    rw [List.length_append, List.length_singleton]
    exact hlen
  pushCursor := by
    simp only [SizedQueue.push, advance_eq_cell, h.pushCursor, cell_cell, List.length_append,
      List.length_singleton]
  inner k hk := by
    simp only [SizedQueue.push, h.pushCursor]
    by_cases hkl : k = l.length
    · subst hkl
      simp
    · -- Another cell keeps its element, and the list is longer only at its end.
      have hne : cell q.popCursor k ≠ cell q.popCursor l.length :=
        fun heq => hkl (cell_injective hk hlen heq)
      rw [Function.update_of_ne hne, h.inner k hk]
      rcases Nat.lt_or_gt_of_ne hkl with hlt | hgt
      · rw [List.getElem?_append_left hlt]
      · rw [List.getElem?_eq_none (by omega), List.getElem?_eq_none (by simp; omega)]

lemma Holds.inner_popCursor (h : q.Holds l) : q.inner q.popCursor = l[0]? := by
  simpa using h.inner 0 q.popCursor.pos

/-- **A pop takes the oldest element**. -/
lemma Holds.pop_cons (h : q.Holds (x :: l)) : ∃ q', q.pop = (some x, q') ∧ q'.Holds l := by
  have hx : q.inner q.popCursor = some x := h.inner_popCursor
  have hlen : l.length < size := h.length_le
  refine ⟨_, by rw [pop, hx], ⟨hlen.le, ?_, fun k hk => ?_⟩⟩
  · simp only [advance_eq_cell, cell_cell, h.pushCursor, List.length_cons, Nat.add_comm]
  · simp only [advance_eq_cell, cell_cell]
    by_cases hlast : 1 + k = size
    · -- The cell just emptied is the last one, seen from the new cursor.
      rw [hlast, cell_size, Function.update_self, List.getElem?_eq_none (by omega)]
    · have hk' : 1 + k < size := by omega
      have hne : cell q.popCursor (1 + k) ≠ q.popCursor := by
        intro heq
        have := cell_injective hk' q.popCursor.pos (heq.trans (cell_zero _).symm)
        omega
      rw [Function.update_of_ne hne, h.inner _ hk', Nat.add_comm, List.getElem?_cons_succ]

lemma Holds.pop_nil (h : q.Holds []) : q.pop = (none, q) := by
  have hnone : q.inner q.popCursor = none := h.inner_popCursor
  rw [pop, hnone]

/-- **A push to a full ring** loses the oldest element and puts the new one in its place: the
next pop gives the newest element. -/
lemma Holds.push_full (h : q.Holds l) (hlen : l.length = size) (x : α) :
    (q.push x).pop.1 = some x := by
  have hcursor : q.pushCursor = q.popCursor := by rw [h.pushCursor, hlen, cell_size]
  simp only [SizedQueue.push, pop, hcursor, Function.update_self]

/-- The elements of a ring, the oldest first. -/
def contents (q : SizedQueue α size) : List α :=
  (List.range size).filterMap fun k => q.inner (cell q.popCursor k)

lemma filterMap_getElem? (l : List α) (n : ℕ) (h : l.length ≤ n) :
    (List.range n).filterMap (fun k => l[k]?) = l := by
  induction l generalizing n with
  | nil => simp
  | cons x l ih =>
    cases n with
    | zero => simp at h
    | succ n =>
      rw [List.range_succ_eq_map, List.filterMap_cons, List.filterMap_map]
      simp only [List.getElem?_cons_zero, Function.comp_def, List.getElem?_cons_succ]
      rw [ih n (by simpa using h)]

lemma Holds.contents_eq (h : q.Holds l) : q.contents = l := by
  calc q.contents
      = (List.range size).filterMap (fun k => l[k]?) :=
        List.filterMap_congr fun k hk => h.inner k (List.mem_range.mp hk)
    _ = l := filterMap_getElem? l size h.length_le

end SizedQueue

/-! ### Processes and messages -/

/-- `AccessPolicy`. -/
inductive AccessPolicy where
  | all
  | normal
  deriving DecidableEq, Repr

/-- `Priority`, in the order of its values. -/
inductive Priority where
  | none
  | normal
  | idle
  deriving DecidableEq, Repr

/-- The values of `Priority`; a smaller one goes first. -/
def Priority.value : Priority → ℕ
  | .none => 0
  | .normal => 32
  | .idle => 255

/-- `SizedString`: the bytes of a text, cut or filled up with zeros. -/
structure SizedString (size : ℕ) where
  bytes : List UInt8
  length_eq : bytes.length = size
  deriving DecidableEq

namespace SizedString

/-- `SizedString::new_truncate`. -/
def newTruncate (size : ℕ) (text : List UInt8) : SizedString size where
  bytes := text.take size ++ List.replicate (size - text.length) 0
  length_eq := by
    rw [List.length_append, List.length_take, List.length_replicate]
    omega

/-- `SizedString::as_str`: the bytes without the zeros at both ends. -/
def asStr {size : ℕ} (s : SizedString size) : List UInt8 :=
  ((s.bytes.dropWhile (· = 0)).reverse.dropWhile (· = 0)).reverse

end SizedString

/-- `ShellInput`. -/
inductive ShellInput where
  | accessModuleRequest (addr processId : ℕ) (processName moduleName sectionName : SizedString 32)
  deriving DecidableEq

/-- `ShellOutput`. -/
inductive ShellOutput where
  | exitProcess (code : ℕ)
  | startProcess (name : SizedString 32)
  | allowModuleAccess (addr processId : ℕ)
  deriving DecidableEq

/-- The process a request was made by. -/
def ShellInput.processId : ShellInput → ℕ
  | .accessModuleRequest _ id _ _ _ => id

/-- The answer of the shell to a request: its main loop allows every access. -/
def ShellInput.answer : ShellInput → ShellOutput
  | .accessModuleRequest addr id _ _ _ => .allowModuleAccess addr id

/-- `SHELL_INPUT_QUEUE_SIZE`. -/
def shellInputQueueSize : ℕ := 8

/-- `ShellQueue`. -/
structure ShellQueue where
  input : SizedQueue ShellInput shellInputQueueSize
  output : SizedQueue ShellOutput shellInputQueueSize

/-- `ShellQueue::new`. -/
def ShellQueue.new : ShellQueue :=
  ⟨.new ShellInput shellInputQueueSize (by decide), .new ShellOutput shellInputQueueSize (by decide)⟩

end Rhubarb
