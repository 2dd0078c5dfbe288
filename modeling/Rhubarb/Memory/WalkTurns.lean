import Rhubarb.Memory.SetFlags
import Rhubarb.Memory.WalkSlots

/-!
What the walks of `map_to` and `set_flags` do to the entries on the walks of all pages.

* `Walkable`: the properties of tables and allocator that a walk keeps; `walkable_pageTree` is
  the weakest of them, a hierarchy and an allocator that hands out none of its tables.
* `Walked`: how far a walk down for a page has come, and what it has done so far.
* `Walkable.level1Table_rewrites`: the walk of `map_to` adds the parent flags to the used
  entries on the upper part of the walk of its page, also when it fails.
* `Walkable.setFlagsPage_rewrites`: one turn of `set_flags` does that, and sets the flags of
  the leaf; the number of pages it skips is told by the level of the leaf.
* `Walkable.setFlagsLoop_rewrites`: the loop makes such a turn at each of its `stops`.
-/

namespace Rhubarb

open Foundations Level4PageTable Levels Radix

/-! ### Permissions -/

/-- What every level of a walk has to give. -/
inductive Permission where
  | present
  | writable
  | userAccessible
  deriving DecidableEq

namespace Permission

/-- The flag of a permission. -/
def flag : Permission → PageTableFlags
  | present => .present
  | writable => .writable
  | userAccessible => .userAccessible

/-- The bit of a permission. -/
def bit : Permission → ℕ
  | present => 0
  | writable => 1
  | userAccessible => 2

lemma bit_lt (p : Permission) : p.bit < 12 := by cases p <;> decide

lemma get_flag (p : Permission) (fl : PageTableFlags) :
    fl.get p.flag = fl.bits.getLsbD p.bit := by
  cases p with
  | present => exact fl.get_present
  | writable => exact fl.get_writable
  | userAccessible => exact fl.get_userAccessible

/-- The parent flags keep the permissions. -/
lemma get_parentTableFlags (p : Permission) (flags : PageTableFlags) :
    (parentTableFlags flags).get p.flag = flags.get p.flag := by
  have hmask : ((PageTableFlags.present.or .writable).or .userAccessible).bits.getLsbD p.bit
      = true := by
    cases p <;> decide
  rw [get_flag, get_flag, parentTableFlags]
  show (flags.bits &&& _).getLsbD p.bit = _
  rw [BitVec.getLsbD_and, hmask, Bool.and_true]

/-- Added flags add permissions. -/
lemma get_withFlags (p : Permission) (e : PageTableEntry) (flags : PageTableFlags) :
    (withFlags e flags).flags.get p.flag = (e.flags.get p.flag || flags.get p.flag) := by
  rw [get_flag, get_flag, get_flag, PageTableEntry.flags_getLsbD _ p.bit_lt,
    getLsbD_withFlags e flags p.bit_lt, PageTableEntry.flags_getLsbD _ p.bit_lt]

/-- The permissions of an entry made from a frame are its flags. -/
lemma get_ofFrame (p : Permission) (f : Frame) (flags : PageTableFlags) :
    (PageTableEntry.ofFrame f flags).flags.get p.flag = flags.get p.flag := by
  rw [get_flag, get_flag, PageTableEntry.flags_getLsbD _ p.bit_lt]
  exact PageTableEntry.ofAddr_getLsbD flags (PageTableEntry.baseAddr_aligned f) p.bit_lt

lemma get_setFlags (p : Permission) (e : PageTableEntry) (flags : PageTableFlags) :
    (e.setFlags flags).flags.get p.flag = flags.get p.flag := by
  rw [get_flag, get_flag, PageTableEntry.flags_getLsbD _ p.bit_lt]
  exact PageTableEntry.ofAddr_getLsbD flags e.addr_toRaw_bounds.1 p.bit_lt

lemma get_unused (p : Permission) {e : PageTableEntry} (h : e.isUnused = true) :
    e.flags.get p.flag = false := by
  rw [eq_unused h]
  cases p <;> decide

end Permission

variable {mem : PhysMem} {root t : Frame} {q : List TableIndex} {res : Except MappingError Frame}
  {x : MappingError} {i : TableIndex}

/-! ### Invariants of walks under which tables keep their places -/

section Walkable

variable {A : Type} [AllocateFrame A]

/-- A property of the tables and the allocator that gives a hierarchy below the root, never
hands out one of its tables, and is kept by what a walk does. -/
structure Walkable (root : Frame) (J : PagingState A → Prop) : Prop where
  hierarchy : ∀ {s}, J s → Hierarchy s.mem {root}
  fresh : ∀ {s f a g flags}, J s → AllocateFrame.allocateFrame s.allocator = (some f, a) →
    (PageTableEntry.ofFrame f flags).frame = .ok (.ok g) → ¬Node (edges s.mem) {root} 3 g
  link : ∀ {s t i f a g flags}, J s → (s.mem t i).isUnused = true →
    AllocateFrame.allocateFrame s.allocator = (some f, a) →
    (PageTableEntry.ofFrame f flags).frame = .ok (.ok g) →
    J ⟨Radix.link s.mem t i (.ofFrame f flags) g .unused, a⟩
  rewrite : ∀ {s t i e}, J s → e.table = (s.mem t i).table → Filled e →
    J ⟨Radix.write s.mem t i e, s.allocator⟩
  writeLeaf : ∀ {s t i e}, J s → Level (edges s.mem) {root} 3 t →
    J ⟨Radix.write s.mem t i e, s.allocator⟩

/-- The table of a walk has the level of its path. -/
lemma level_of_descend_root (h : descend view mem root q = .ok t) :
    Level (edges mem) {root} q.length t :=
  level_of_mem rfl h

namespace Walkable

variable {root t g : Frame} {J : PagingState A → Prop} {s s' : PagingState A}
  {q : List TableIndex} {i : TableIndex} {flags : PageTableFlags}

/-- A step down that succeeds. -/
lemma nextTable (hJ : Walkable root J) (h : J s) (hq : q.length < 3)
    (hd : descend view s.mem root q = .ok t) (hh : flags.get .hugePage = false)
    (hnext : Level4PageTable.nextTable t i flags s = .ok (.ok g, s')) :
    J s' ∧ descend view s'.mem root (q ++ [i]) = .ok g := by
  have hh₀ := hJ.hierarchy h
  have hlevel := level_of_descend_root hd
  rcases nextTable_cases hnext with ⟨-, a, -, hc, -⟩ | ⟨hun, f, a, g', hal, hg, hc, rfl⟩
    | ⟨hused, g', hg, hc, rfl⟩ | ⟨-, -, hc, -⟩
  · cases hc
  · cases hc
    exact ⟨hJ.link h hun hal hg, hh₀.descend_link rfl hq hd (hJ.fresh h hal hg) hg⟩
  · cases hc
    have hfilled := hh₀.filled _ hq t hlevel i
    have htable := table_withFlags hused hfilled hh
    exact ⟨hJ.rewrite h htable (filled_withFlags flags hused hfilled).1,
      Hierarchy.descend_rewrite htable hd hg⟩
  · cases hc

end Walkable

/-- **A tree of page tables with an allocator**: the tables below the root are a hierarchy, and
no frame the allocator will hand out is one of them. -/
structure PageTree (root : Frame) (s : PagingState A) : Prop where
  hierarchy : Hierarchy s.mem {root}
  outside : ∀ n, Outside n s.allocator (Node (edges s.mem) {root} 3)

lemma walkable_pageTree (root : Frame) : Walkable root (PageTree (A := A) root) where
  hierarchy := PageTree.hierarchy
  fresh := by
    intro s f a g flags h hal hg
    obtain ⟨hphys, hnot, -⟩ := h.outside 1 f a hal
    rw [frame_ofFrame_of_physical hphys hg]
    exact hnot
  link := by
    intro s t i f a g flags h hun hal hg
    obtain ⟨hphys, hnot, -⟩ := h.outside 1 f a hal
    obtain rfl := frame_ofFrame_of_physical hphys hg
    have hfree : edges s.mem t i = none := by rw [edges, eq_unused hun, table_unused]
    refine ⟨h.hierarchy.link hun hg hnot, fun n => ?_⟩
    refine (h.outside (n + 1) g a hal).2.2.mono fun u hu => ?_
    rw [edges_link hg] at hu
    exact (node_addEdge hfree hnot hu).symm
  rewrite := by
    intro s t i e h he hfilled
    refine ⟨h.hierarchy.rewrite he hfilled, fun n => (h.outside n).mono fun u hu => ?_⟩
    rwa [edges_write_eq he] at hu
  writeLeaf := by
    intro s t i e h ht
    refine ⟨h.hierarchy.leaf ht e, fun n => (h.outside n).mono fun u hu => ?_⟩
    exact (node_congr (h.hierarchy.leaf_edges ht e)).mp hu

end Walkable

/-! ### The upper part of a walk -/

/-- The used entries on a walk get the flags of the walk. -/
def widened (mem : PhysMem) (root : Frame) (q : List TableIndex) (flags : PageTableFlags) :
    Frame → TableIndex → PageTableEntry → PageTableEntry := fun t i e =>
  if (t, i) ∈ slots mem root q then withFlags e flags else e

section Slots

variable {mem : PhysMem} {root t : Frame} {q is : List TableIndex} {i : TableIndex}

/-- The walk goes on where a descent has arrived. -/
lemma slots_append (h : descend view mem root q = .ok t) :
    slots mem root (q ++ is) = slots mem root q ++ slots mem t is := by
  induction q generalizing root with
  | nil =>
    cases h
    rfl
  | cons j q ih =>
    obtain ⟨g, hv, h⟩ := descend_cons_eq_ok h
    have hg := view_eq_ok_iff_table.mp hv
    rw [List.cons_append, slots_cons_some hg, slots_cons_some hg, ih h, List.cons_append]

/-- A dead walk does not go on. -/
lemma slots_append_of_dead (h : Dead mem root q) : slots mem root (q ++ is) = slots mem root q := by
  induction q generalizing root with
  | nil =>
    obtain ⟨slot, hs, -⟩ := h
    cases hs
  | cons j q ih =>
    rcases dead_cons.mp h with hun | ⟨g, hg, hd⟩
    · have hnone : (mem root j).table = none := by rw [eq_unused hun, table_unused]
      rw [List.cons_append, slots_cons_none hnone, slots_cons_none hnone]
    · rw [List.cons_append, slots_cons_some hg, slots_cons_some hg, ih hd]

/-- A walk that cannot go down does not go on. -/
lemma slots_append_of_error {x : Answer} (h : descend view mem root q = .error x) :
    slots mem root (q ++ is) = slots mem root q := by
  induction q generalizing root with
  | nil => cases h
  | cons j q ih =>
    cases ht : (mem root j).table with
    | none => rw [List.cons_append, slots_cons_none ht, slots_cons_none ht]
    | some g =>
      rw [descend_cons_ok (view_eq_ok_iff_table.mpr ht)] at h
      rw [List.cons_append, slots_cons_some ht, slots_cons_some ht, ih h]

lemma Dead.append (h : Dead mem root q) : Dead mem root (q ++ is) := by
  obtain ⟨slot, hs, hun⟩ := h
  exact ⟨slot, by rwa [slots_append_of_dead ⟨slot, hs, hun⟩], hun⟩

/-- A descent passes used entries only. -/
lemma not_dead_of_descend (h : descend view mem root q = .ok t) : ¬Dead mem root q := by
  induction q generalizing root with
  | nil =>
    rintro ⟨slot, hs, -⟩
    cases hs
  | cons j q ih =>
    obtain ⟨g, hv, h⟩ := descend_cons_eq_ok h
    have hg := view_eq_ok_iff_table.mp hv
    have hp := (PageTableEntry.frame_eq_ok (PageTableEntry.table_eq_some.mp hg)).1
    refine not_dead_cons.mpr ⟨PageTableEntry.isUnused_of_isPresent hp, fun g' hg' => ?_⟩
    rw [hg] at hg'
    cases hg'
    exact ih h

/-- A change leaves a descent where it was. -/
lemma Rewrites.descend {f : Frame → TableIndex → PageTableEntry → PageTableEntry}
    {mem' : PhysMem} (h : Rewrites root f mem mem') (hq : q.length ≤ 3)
    (hd : descend view mem root q = .ok t) :
    descend view mem' root q = .ok t ∧ slots mem' root q = slots mem root q := by
  have hroot : Level (edges mem) {root} 0 root := rfl
  refine ⟨descend_ok_congr (fun q' j hq' u g hu hg => ?_) hd,
    (h.slots_eq_below (by omega) hroot (not_dead_of_descend hd)).1⟩
  have hlen := length_lt_of_extends hq'
  rw [view_eq_ok_iff_table] at hg ⊢
  have hp := (PageTableEntry.frame_eq_ok (PageTableEntry.table_eq_some.mp hg)).1
  rw [h.table q'.length (by omega) u (level_of_descend_root hu) j
    (PageTableEntry.isUnused_of_isPresent hp), hg]

end Slots

section Walked

variable {A : Type} {J : PagingState A → Prop} {root t g : Frame} {s₀ s s' : PagingState A}
  {flags : PageTableFlags} {page : Page} {q is : List TableIndex} {i : TableIndex}

/-- **A walk on its way down**: it has come to the table `t` along the path `q`, having widened
the entries on the path, which all give the permissions of the walk now.  The table is the one
the path led to before, or a blank one. -/
structure Walked (J : PagingState A → Prop) (root : Frame) (flags : PageTableFlags)
    (s₀ : PagingState A) (q : List TableIndex) (t : Frame) (s : PagingState A) : Prop where
  inv : J s
  arrived : Radix.descend view s.mem root q = .ok t
  rewrites : Rewrites root (widened s₀.mem root q flags) s₀.mem s.mem
  ahead : ∀ d, q.length ≤ d → d ≤ 3 → ∀ u, Level (edges s₀.mem) {root} d u → ∀ j,
    s.mem u j = s₀.mem u j
  place : Radix.descend view s₀.mem root q = .ok t
    ∨ ¬Node (edges s₀.mem) {root} 3 t ∧ (∀ j, (s.mem t j).isUnused = true) ∧ Dead s₀.mem root q
  given : ∀ slot ∈ slots s.mem root q, ∀ p : Permission, flags.get p.flag = true →
    (s.mem slot.1 slot.2).flags.get p.flag = true

lemma Walked.start (h : J s₀) : Walked J root flags s₀ [] root s₀ where
  inv := h
  arrived := rfl
  rewrites := (Rewrites.refl root s₀.mem).congr fun _ _ _ _ _ _ => by simp [widened, slots]
  ahead := fun _ _ _ _ _ _ => rfl
  place := Or.inl rfl
  given := nofun

namespace Walked

/-- The entry the walk looks at next, as it was before. -/
lemma entry_eq (h : Walked J root flags s₀ q t s) (hlen : q.length ≤ 3)
    (hused : (s.mem t i).isUnused = false) :
    descend view s₀.mem root q = .ok t ∧ s.mem t i = s₀.mem t i := by
  rcases h.place with hd | ⟨-, hblank, -⟩
  · exact ⟨hd, h.ahead q.length le_rfl hlen t (level_of_descend_root hd) i⟩
  · rw [hblank i] at hused
    cases hused

/-- At an unused entry the walk was dead before. -/
lemma dead_of_unused (h : Walked J root flags s₀ q t s) (hlen : q.length ≤ 3)
    (hun : (s.mem t i).isUnused = true) : Dead s₀.mem root (q ++ [i]) := by
  rcases h.place with hdesc | ⟨-, -, hdead⟩
  · refine ⟨(t, i), ?_, ?_⟩
    · rw [slots_append hdesc]
      exact List.mem_append_right _ mem_slots_head
    · rw [← h.ahead q.length le_rfl hlen t (level_of_descend_root hdesc) i]
      exact hun
  · exact hdead.append

/-- The entries widened after one more step. -/
lemma widened_append (h₀ : Hierarchy s₀.mem {root}) (h : Walked J root flags s₀ q t s)
    (hlen : q.length < 3) {d : ℕ} (hd : d ≤ 3) {u : Frame} (hu : Level (edges s₀.mem) {root} d u)
    (j : TableIndex) :
    editAt t i (fun e => withFlags e flags) u j (widened s₀.mem root q flags u j (s₀.mem u j))
      = widened s₀.mem root (q ++ [i]) flags u j (s₀.mem u j) := by
  rcases h.place with hdesc | ⟨hnew, -, hdead⟩
  · have hlast : slots s₀.mem t [i] = [(t, i)] := slots_singleton
    by_cases hslot : u = t ∧ j = i
    · obtain ⟨rfl, rfl⟩ := hslot
      -- the entries passed so far are in tables above this one
      have hnot : (u, j) ∉ slots s₀.mem root q := by
        intro hm
        have hroot : Level (edges s₀.mem) {root} 0 root := rfl
        obtain ⟨k, hk, hl⟩ := level_of_mem_slots hroot hm
        have := h₀.levelled _ _ u (by omega) (by omega) hl (level_of_descend_root hdesc)
        omega
      rw [editAt_self, widened, if_neg hnot, widened, slots_append hdesc, hlast, if_pos (by simp)]
    · rw [editAt_of_ne hslot, widened, widened, slots_append hdesc, hlast]
      simp only [List.mem_append, List.mem_singleton, Prod.mk.injEq, hslot, or_false]
  · have hne : ¬(u = t ∧ j = i) := by
      rintro ⟨rfl, -⟩
      exact hnew ⟨d, hd, hu⟩
    rw [editAt_of_ne hne, widened, widened, slots_append_of_dead hdead]

variable [AllocateFrame A]

/-- `next_table` touches one entry of the tables there are, and a table it links is blank. -/
lemma nextTable_elsewhere
    (hfresh : ∀ f a g, AllocateFrame.allocateFrame s.allocator = (some f, a) →
      (PageTableEntry.ofFrame f flags).frame = .ok (.ok g) → ¬Node (edges s.mem) {root} 3 g)
    (hnext : Level4PageTable.nextTable t i flags s = .ok (res, s')) :
    (∀ u, Node (edges s.mem) {root} 3 u → ∀ j, ¬(u = t ∧ j = i) → s'.mem u j = s.mem u j)
      ∧ ∀ g, res = .ok g → (s.mem t i).isUnused = true → ∀ j, (s'.mem g j).isUnused = true := by
  rcases nextTable_cases hnext with ⟨-, a, -, rfl, rfl⟩ | ⟨-, f, a, g, hal, hg, rfl, rfl⟩
    | ⟨hused, g, -, rfl, rfl⟩ | ⟨hused, -, rfl, rfl⟩
  · exact ⟨fun _ _ _ _ => rfl, by simp⟩
  · refine ⟨fun u hu j hslot => link_of_ne ?_ hslot, fun g' hg' _ j => ?_⟩
    · rintro rfl
      exact hfresh f a u hal hg hu
    · cases hg'
      show (Radix.link s.mem t i (.ofFrame f flags) g .unused g j).isUnused = true
      rw [Radix.link, clear_self]
      rfl
  · refine ⟨fun u _ j hslot => write_of_ne hslot, fun g' _ hun => ?_⟩
    rw [hused] at hun
    cases hun
  · exact ⟨fun u _ j hslot => write_of_ne hslot, by simp⟩

/-- The entry `next_table` went through gives the permissions of the walk. -/
lemma nextTable_given (ht : Node (edges s.mem) {root} 3 t)
    (hfresh : ∀ f a g, AllocateFrame.allocateFrame s.allocator = (some f, a) →
      (PageTableEntry.ofFrame f flags).frame = .ok (.ok g) → ¬Node (edges s.mem) {root} 3 g)
    (hnext : Level4PageTable.nextTable t i flags s = .ok (.ok g, s')) (p : Permission)
    (hp : flags.get p.flag = true) : (s'.mem t i).flags.get p.flag = true := by
  rcases nextTable_cases hnext with ⟨-, a, -, hc, -⟩ | ⟨-, f, a, g', hal, hg, -, rfl⟩
    | ⟨-, g', -, -, rfl⟩ | ⟨-, -, hc, -⟩
  · cases hc
  · have hne : t ≠ g' := by
      rintro rfl
      exact hfresh f a t hal hg ht
    show (Radix.link s.mem t i (.ofFrame f flags) g' .unused t i).flags.get p.flag = true
    rw [link_self hne, p.get_ofFrame, hp]
  · show (write s.mem t i (withFlags (s.mem t i) flags) t i).flags.get p.flag = true
    rw [write_self, p.get_withFlags, hp, Bool.or_true]
  · cases hc

/-- **One step down.** -/
lemma nextTable (hJ : Walkable root J) (hflags : flags.get .hugePage = false)
    (h₀ : Hierarchy s₀.mem {root}) (h : Walked J root flags s₀ q t s)
    (hq : q ++ [i] <+: upperIndices page)
    (hnext : Level4PageTable.nextTable t i flags s = .ok (res, s')) :
    Rewrites root (widened s₀.mem root (q ++ [i]) flags) s₀.mem s'.mem
      ∧ ∀ g, res = .ok g → Walked J root flags s₀ (q ++ [i]) g s' := by
  have hlen : q.length < 3 := length_lt_of_extends hq
  have hlevel := level_of_descend_root h.arrived
  obtain ⟨hrew, hres⟩ := (hJ.hierarchy h.inv).nextTable_rewrites (by omega) hlevel hflags (fun f a g hal hg => hJ.fresh h.inv hal hg) hnext
  have hall : Rewrites root (widened s₀.mem root (q ++ [i]) flags) s₀.mem s'.mem :=
    (h.rewrites.trans hrew).congr fun d hd u hu j _ => h.widened_append h₀ (by omega) hd hu j
  have helse := nextTable_elsewhere (fun f a g hal hg => hJ.fresh h.inv hal hg) hnext
  refine ⟨hall, fun g hg => ?_⟩
  obtain ⟨hinv, harr⟩ := hJ.nextTable h.inv (by omega) h.arrived hflags (hg ▸ hnext)
  refine ⟨hinv, harr, hall, fun d hqd hd u hu j => ?_, ?_, fun slot hm p hp => ?_⟩
  · -- tables further down are not the one the step was made in
    have hu' : Level (edges s.mem) {root} d u := h.rewrites.level hd hu
    rw [List.length_append, List.length_singleton] at hqd
    rw [helse.1 u ⟨d, hd, hu'⟩ j ?_, h.ahead d (by omega) hd u hu j]
    rintro ⟨rfl, -⟩
    have := (hJ.hierarchy h.inv).levelled _ _ u hd (by omega) hu' hlevel
    omega
  · cases hun : (s.mem t i).isUnused with
    | false =>
      obtain ⟨hdesc, heq⟩ := h.entry_eq (by omega) hun
      left
      rcases hres g hg with htable | ⟨hc, -⟩
      · rw [descend_append hdesc, descend_singleton, view_eq_ok_iff_table, ← heq]
        exact htable
      · rw [hun] at hc
        cases hc
    | true =>
      right
      have hnew : ¬Node (edges s.mem) {root} 3 g := by
        rcases hres g hg with htable | ⟨-, hnew⟩
        · rw [eq_unused hun, table_unused] at htable
          cases htable
        · exact hnew
      exact ⟨fun ⟨d, hd, hl⟩ => hnew ⟨d, hd, h.rewrites.level hd hl⟩, helse.2 g hg hun,
        h.dead_of_unused (by omega) hun⟩
  · obtain ⟨hdesc, hslots⟩ := hrew.descend (by omega) h.arrived
    have hnode : Node (edges s.mem) {root} 3 t := ⟨q.length, by omega, hlevel⟩
    rw [slots_append hdesc, slots_singleton, hslots, List.mem_append, List.mem_singleton] at hm
    rcases hm with hm | rfl
    · -- the entries passed before are in tables above this one
      have hroot : Level (edges s.mem) {root} 0 root := rfl
      obtain ⟨k, hk, hl⟩ := level_of_mem_slots hroot hm
      rw [helse.1 slot.1 ⟨0 + k, by omega, hl⟩ slot.2 ?_]
      · exact h.given slot hm p hp
      · rintro ⟨heq, -⟩
        rw [heq] at hl
        have := (hJ.hierarchy h.inv).levelled _ _ t (by omega) (by omega) hl hlevel
        omega
    · exact nextTable_given hnode (fun f a g hal hg => hJ.fresh h.inv hal hg) (hg ▸ hnext) p hp

/-- A step down fails at an unused entry or at a huge leaf. -/
lemma dead_or_huge (h : Walked J root flags s₀ q t s) (hlen : q.length ≤ 3)
    (hflags : flags.get .hugePage = false)
    (hnext : Level4PageTable.nextTable t i flags s = .ok (.error x, s')) :
    Dead s₀.mem root (q ++ [i]) ∨ (s.mem t i).isHugePage = true := by
  rcases nextTable_cases hnext with ⟨hun, -⟩ | ⟨-, f, a, g, -, -, hc, -⟩ | ⟨-, g, -, hc, -⟩
    | ⟨-, hframe, -, -⟩
  · exact .inl (h.dead_of_unused hlen hun)
  · cases hc
  · cases hc
  · right
    by_contra hc
    rw [Bool.not_eq_true, ← isHugePage_withFlags_eq _ hflags] at hc
    exact PageTableEntry.frame_ne_hugePage hc hframe

/-- Where a step down fails, the walk ended before as well. -/
lemma slots_of_error (h : Walked J root flags s₀ q t s) (hlen : q.length ≤ 3)
    (hflags : flags.get .hugePage = false)
    (hnext : Level4PageTable.nextTable t i flags s = .ok (.error x, s')) (is : List TableIndex) :
    slots s₀.mem root (q ++ [i] ++ is) = slots s₀.mem root (q ++ [i]) := by
  rcases h.dead_or_huge hlen hflags hnext with hdead | hhuge
  · exact slots_append_of_dead hdead
  · obtain ⟨hdesc, heq⟩ := h.entry_eq hlen (PageTableEntry.isUnused_of_isHugePage hhuge)
    have hnone : (s₀.mem t i).table = none := by rw [← heq, table_of_isHugePage hhuge]
    rw [List.append_assoc, slots_append hdesc, slots_append hdesc, List.singleton_append,
      slots_cons_none hnone, slots_cons_none hnone]

/-- A step down that fails leaves the whole walk widened. -/
lemma rewrites_of_error (hJ : Walkable root J) (hflags : flags.get .hugePage = false)
    (h₀ : Hierarchy s₀.mem {root}) (h : Walked J root flags s₀ q t s)
    (hq : upperIndices page = q ++ [i] ++ is)
    (hnext : Level4PageTable.nextTable t i flags s = .ok (.error x, s')) :
    Rewrites root (widened s₀.mem root (upperIndices page) flags) s₀.mem s'.mem
      ∧ (Dead s₀.mem root (upperIndices page) ∨ (s.mem t i).isHugePage = true) := by
  have hlen := congrArg List.length hq
  simp only [upperIndices, List.length_append, List.length_cons, List.length_nil] at hlen
  obtain ⟨hrew, -⟩ := h.nextTable hJ hflags h₀ ⟨is, hq.symm⟩ hnext
  have hslots := h.slots_of_error (by omega) hflags hnext is
  refine ⟨?_, ?_⟩
  · have heq : widened s₀.mem root (upperIndices page) flags
        = widened s₀.mem root (q ++ [i]) flags := by
      funext u j e
      rw [widened, widened, hq, hslots]
    rwa [heq]
  · rw [hq]
    exact (h.dead_or_huge (by omega) hflags hnext).imp_left Dead.append

end Walked

end Walked

/-! ### The leaf at the end of a walk -/

section LeafBelow

variable {mem : PhysMem} {root t t' : Frame} {q is : List TableIndex} {page : Page}

lemma leafBelow_append (h : descend view mem t q = .ok t') (his : is ≠ []) :
    leafBelow mem t (q ++ is) = leafBelow mem t' is := by
  induction q generalizing t with
  | nil =>
    cases h
    rfl
  | cons i q ih =>
    obtain ⟨g, hv, h⟩ := descend_cons_eq_ok h
    have hhuge := (PageTableEntry.frame_eq_ok (view_eq_ok.mp hv)).2.1
    obtain ⟨j, js, hjs⟩ := List.exists_cons_of_ne_nil (List.append_ne_nil_of_right_ne_nil q his)
    rw [List.cons_append, hjs, leafBelow, hhuge, view_eq_ok_iff_table.mp hv, ← hjs]
    exact ih h

lemma leaf_of_descend (h : descend view mem root (page.l4Index :: q) = .ok t)
    (hq : q ++ is = [page.l3Index, page.l2Index, page.l1Index]) (his : is ≠ []) :
    leaf mem root page = leafBelow mem t is := by
  obtain ⟨g, hv, h⟩ := descend_cons_eq_ok h
  rw [leaf, view_eq_ok_iff_table.mp hv, ← leafBelow_append h his, hq]

end LeafBelow

/-! ### Which walks pass a leaf -/

section Passing

variable {mem : PhysMem} {root t : Frame} {is : List TableIndex} {l l' : Leaf}
  {page page' : Page}

/-- An entry on a walk is where a descent along part of the walk leads. -/
lemma exists_descend_of_mem_slots {slot : Slot} (h : slot ∈ slots mem t is) :
    ∃ q rest, is = q ++ slot.2 :: rest ∧ descend view mem t q = .ok slot.1 := by
  induction is generalizing t with
  | nil => cases h
  | cons i is ih =>
    rw [slots] at h
    rcases List.mem_cons.mp h with rfl | h
    · exact ⟨[], is, rfl, rfl⟩
    · cases hg : (mem t i).table with
      | none =>
        rw [hg] at h
        cases h
      | some g =>
        rw [hg] at h
        obtain ⟨q, rest, rfl, hd⟩ := ih h
        refine ⟨i :: q, rest, rfl, ?_⟩
        rw [descend_cons_ok (view_eq_ok_iff_table.mpr hg), hd]

/-- Where a leaf is found. -/
lemma exists_descend_of_leafBelow (h : leafBelow mem t is = some l) :
    ∃ q rest, is = q ++ l.index :: rest ∧ descend view mem t q = .ok l.table
      ∧ l.level = rest.length ∧ (rest ≠ [] → (mem l.table l.index).isHugePage = true)
      ∧ (mem l.table l.index).isUnused = false := by
  induction is generalizing t with
  | nil => cases h
  | cons i is ih =>
    cases is with
    | nil =>
      rw [leafBelow] at h
      split_ifs at h with hun
      cases h
      exact ⟨[], [], rfl, rfl, rfl, fun hc => absurd rfl hc, by simpa using hun⟩
    | cons j is =>
      rw [leafBelow] at h
      split_ifs at h with hhuge
      · cases h
        exact ⟨[], j :: is, rfl, rfl, rfl, fun _ => hhuge,
          PageTableEntry.isUnused_of_isHugePage hhuge⟩
      · cases hg : (mem t i).table with
        | none =>
          rw [hg] at h
          cases h
        | some g =>
          rw [hg] at h
          obtain ⟨q, rest, hq, hd, hrest⟩ := ih h
          refine ⟨i :: q, rest, by rw [hq, List.cons_append], ?_, hrest⟩
          rw [descend_cons_ok (view_eq_ok_iff_table.mpr hg), hd]

lemma exists_descend_of_leaf (h : leaf mem root page = some l) :
    ∃ q rest, [page.l3Index, page.l2Index, page.l1Index] = q ++ l.index :: rest
      ∧ descend view mem root (page.l4Index :: q) = .ok l.table
      ∧ l.level = rest.length ∧ (rest ≠ [] → (mem l.table l.index).isHugePage = true)
      ∧ (mem l.table l.index).isUnused = false := by
  rw [leaf] at h
  cases hg : (mem root page.l4Index).table with
  | none =>
    rw [hg] at h
    cases h
  | some g =>
    rw [hg] at h
    obtain ⟨q, rest, hq, hd, hrest⟩ := exists_descend_of_leafBelow h
    refine ⟨q, rest, hq, ?_, hrest⟩
    rw [descend_cons_ok (view_eq_ok_iff_table.mpr hg), hd]

/-- The level of the table that holds a leaf. -/
lemma level_of_leaf (h : leaf mem root page = some l) :
    l.level ≤ 2 ∧ Level (edges mem) {root} (3 - l.level) l.table := by
  obtain ⟨q, rest, hq, hd, hlevel, -⟩ := exists_descend_of_leaf h
  have hlen := congrArg List.length hq
  simp only [List.length_append, List.length_cons, List.length_nil] at hlen
  have hl := level_of_descend_root hd
  rw [List.length_cons] at hl
  rw [hlevel]
  exact ⟨by omega, by rwa [show 3 - rest.length = q.length + 1 from by omega]⟩

/-- An entry is the leaf of pages at one level only. -/
lemma leaf_unique (h : Hierarchy mem {root}) (hl : leaf mem root page = some l)
    (hl' : leaf mem root page' = some l') (ht : l'.table = l.table) (hi : l'.index = l.index) :
    l' = l := by
  obtain ⟨hle, hlevel⟩ := level_of_leaf hl
  obtain ⟨hle', hlevel'⟩ := level_of_leaf hl'
  rw [ht] at hlevel'
  have := h.levelled _ _ _ (by omega) (by omega) hlevel hlevel'
  cases l
  cases l'
  simp only at ht hi this hle hle'
  rw [Leaf.mk.injEq]
  exact ⟨by omega, ht, hi⟩

/-- **A page whose walk passes a leaf has that leaf.** -/
lemma leaf_of_mem_slots (h : Hierarchy mem {root}) (hl : leaf mem root page = some l)
    (hm : (l.table, l.index) ∈ slots mem root (upperIndices page')) :
    leaf mem root page' = some l := by
  obtain ⟨q, rest, hq, hd⟩ := exists_descend_of_mem_slots hm
  obtain ⟨hle, hlevel⟩ := level_of_leaf hl
  have hlen := congrArg List.length hq
  simp only [upperIndices, List.length_append, List.length_cons, List.length_nil] at hlen
  have hsame := h.levelled _ _ _ (by omega) (by omega) hlevel (level_of_descend_root hd)
  cases q with
  | nil =>
    -- no entry of the root is a leaf
    rw [List.length_nil] at hsame
    omega
  | cons j q =>
    obtain ⟨q', rest', hq', hd', hlevel', hhuge, -⟩ := exists_descend_of_leaf hl
    rw [List.length_cons] at hsame hlen
    have hhuge := hhuge (by
      rintro rfl
      rw [List.length_nil] at hlevel'
      omega)
    obtain ⟨rfl, htail⟩ := List.cons.inj hq
    have hall : q ++ (l.index :: (rest ++ [page'.l1Index]))
        = [page'.l3Index, page'.l2Index] ++ [page'.l1Index] := by
      rw [← List.cons_append, ← List.append_assoc]
      exact congrArg (· ++ [page'.l1Index]) htail.symm
    rw [leaf_of_descend hd hall (by simp)]
    obtain ⟨k, ks, hks⟩ := List.exists_cons_of_ne_nil
      (List.append_ne_nil_of_right_ne_nil rest (List.cons_ne_nil page'.l1Index []))
    have hlks := congrArg List.length hks
    rw [List.length_append, List.length_singleton] at hlks
    rw [hks, leafBelow, if_pos hhuge]
    cases l
    simp only [Option.some.injEq, Leaf.mk.injEq, and_true] at hsame ⊢
    omega

end Passing

/-! ### Turns of `set_flags` -/

/-- The flags `set_flags` gives a leaf. -/
def Leaf.flagsFor (l : Leaf) (flags : PageTableFlags) : PageTableFlags :=
  if l.level = 0 then flags else flags.or .hugePage

/-- How many pages `set_flags` skips after a page with this leaf. -/
def Leaf.skip (l : Leaf) : ℕ :=
  if l.level = 0 then 0 else if l.level = 1 then pagesPerL2HugePage else pagesPerL3HugePage

/-- How many pages `set_flags` skips after a page. -/
def skipAfter (mem : PhysMem) (root : Frame) (page : Page) : ℕ :=
  (leaf mem root page).elim 0 Leaf.skip

lemma skipAfter_of_leaf {page : Page} {l : Leaf} (h : leaf mem root page = some l) :
    skipAfter mem root page = l.skip := by
  rw [skipAfter, h, Option.elim_some]

/-- What a turn of `set_flags` does: the leaf gets the flags, the entries above it are
widened. -/
def turned (mem : PhysMem) (root : Frame) (page : Page) (flags : PageTableFlags) :
    Frame → TableIndex → PageTableEntry → PageTableEntry := fun t i e =>
  match leaf mem root page with
  | some l =>
    if t = l.table ∧ i = l.index then e.setFlags (l.flagsFor flags)
    else widened mem root (upperIndices page) (parentTableFlags flags) t i e
  | none => widened mem root (upperIndices page) (parentTableFlags flags) t i e

lemma turned_of_leaf {page : Page} {l : Leaf} (h : leaf mem root page = some l)
    (flags : PageTableFlags) (t : Frame) (i : TableIndex) (e : PageTableEntry) :
    turned mem root page flags t i e
      = if t = l.table ∧ i = l.index then e.setFlags (l.flagsFor flags)
        else widened mem root (upperIndices page) (parentTableFlags flags) t i e := by
  rw [turned, h]

lemma upperIndices_eq (page : Page) : upperIndices page
    = page.l4Index :: [page.l3Index, page.l2Index, page.l1Index].dropLast := rfl

/-- Flags that are set replace those that were added before. -/
lemma setFlags_widened (mem : PhysMem) (root : Frame) (q : List TableIndex)
    (flags flags' : PageTableFlags) (t : Frame) (i : TableIndex) (e : PageTableEntry) :
    (widened mem root q flags t i e).setFlags flags' = e.setFlags flags' := by
  rw [widened]
  split
  · rw [PageTableEntry.setFlags, addr_withFlags, PageTableEntry.setFlags]
  · rfl

namespace Walkable

variable {A : Type} [AllocateFrame A] {J : PagingState A → Prop} {root : Frame}
  {s s' : PagingState A} {flags : PageTableFlags} {page : Page}

/-- The walk goes on with every step down. -/
lemma stepsDown (hJ : Walkable root J) (hflags : flags.get .hugePage = false)
    (h₀ : Hierarchy s₀.mem {root}) : StepsDown page flags (Walked J root flags s₀) where
  step hq hw h := (hw.nextTable hJ hflags h₀ hq h).2 _ rfl

/-- **The walk of `map_to`.** -/
lemma level1Table_rewrites (hJ : Walkable root J) (h : J s) (hflags : flags.get .hugePage = false)
    (hl : level1Table root page flags s = .ok (res, s')) :
    Rewrites root (widened s.mem root (upperIndices page) flags) s.mem s'.mem
      ∧ ∀ g, res = .ok g → Walked J root flags s (upperIndices page) g s' := by
  have h₀ := hJ.hierarchy h
  rcases (hJ.stepsDown hflags h₀).level1Table (Walked.start h) hl with
    ⟨g, rfl, hw⟩ | ⟨x, q, i, is, t, s₁, rfl, hq, hw, hx⟩
  · refine ⟨hw.rewrites, fun g' hg' => ?_⟩
    cases hg'
    exact hw
  · exact ⟨(hw.rewrites_of_error hJ hflags h₀ hq hx).1, nofun⟩

variable {s₀ : PagingState A}

/-- A turn that ends at a huge leaf. -/
lemma setsHuge_rewrites (hJ : Walkable root J) {is : List TableIndex}
    (h : Walked J root (parentTableFlags flags) s₀ (page.l4Index :: q) t s)
    (hq : q ++ i :: is = [page.l3Index, page.l2Index, page.l1Index]) (his : is ≠ []) {skip : ℕ}
    {res : Except MappingError ℕ} (hs : SetsHuge t i flags skip s s' res) :
    J s' ∧ leaf s₀.mem root page = some ⟨is.length, t, i⟩ ∧ res = .ok skip
      ∧ Rewrites root (turned s₀.mem root page flags) s₀.mem s'.mem := by
  obtain ⟨hhuge, hres, rfl⟩ := hs
  obtain ⟨j, js, rfl⟩ := List.exists_cons_of_ne_nil his
  have hlen := congrArg List.length hq
  simp only [List.length_append, List.length_cons, List.length_nil] at hlen
  have hused := PageTableEntry.isUnused_of_isHugePage hhuge
  obtain ⟨hdesc, heq⟩ := h.entry_eq (by rw [List.length_cons]; omega) hused
  have hhuge' := isHugePage_setFlags_or (s.mem t i) flags
  have hleaf : leaf s₀.mem root page = some ⟨(j :: js).length, t, i⟩ := by
    rw [leaf_of_descend hdesc hq (by simp), leafBelow, ← heq, if_pos hhuge]
  have hslots : slots s₀.mem root (upperIndices page)
      = slots s₀.mem root (page.l4Index :: q) ++ [(t, i)] := by
    have hnone : (s₀.mem t i).table = none := by rw [← heq, table_of_isHugePage hhuge]
    rw [upperIndices_eq, ← hq, List.dropLast_append_of_ne_nil (by simp),
      List.dropLast_cons_of_ne_nil (by simp), ← List.cons_append, slots_append hdesc,
      slots_cons_none hnone]
  have htable : ((s.mem t i).setFlags (flags.or .hugePage)).table = (s.mem t i).table := by
    rw [table_of_isHugePage hhuge, table_of_isHugePage hhuge']
  refine ⟨hJ.rewrite h.inv htable (.inr (.inr hhuge')), hleaf, hres, ?_⟩
  have hwrite := (hJ.hierarchy h.inv).rewrites_write (i := i)
    (F := fun e => e.setFlags (flags.or .hugePage)) (by rw [List.length_cons]; omega)
    (level_of_descend_root h.arrived) (PageTableEntry.isUnused_of_isHugePage hhuge')
    (fun _ => ⟨htable, hhuge'.trans hhuge.symm⟩) hused
  refine (h.rewrites.trans hwrite).congr fun d hd u hu k hk => ?_
  rw [turned_of_leaf hleaf]
  by_cases hslot : u = t ∧ k = i
  · rw [if_pos hslot]
    obtain ⟨rfl, rfl⟩ := hslot
    rw [editAt_self, setFlags_widened]
    rfl
  · rw [if_neg hslot, editAt_of_ne hslot, widened, widened, hslots]
    simp only [List.mem_append, List.mem_singleton, Prod.mk.injEq, hslot, or_false]

/-- A turn that ends in a level-1 table. -/
lemma setsLeaf_rewrites (hJ : Walkable root J) (hp : flags.get .present = true)
    (h : Walked J root (parentTableFlags flags) s₀ (upperIndices page) t s) {n : ℕ}
    (hs : SetsLeaf t page.l1Index flags s s' (.ok n)) :
    J s' ∧ (∀ l, leaf s₀.mem root page = some l → l.level = 0) ∧ n = 0
      ∧ Rewrites root (turned s₀.mem root page flags) s₀.mem s'.mem := by
  obtain ⟨hn, hs⟩ := hs
  cases hn
  have hindices : [page.l3Index, page.l2Index] ++ [page.l1Index]
      = [page.l3Index, page.l2Index, page.l1Index] := rfl
  rcases hs with ⟨hused, rfl⟩ | ⟨hun, rfl⟩
  · obtain ⟨hdesc, heq⟩ := h.entry_eq le_rfl hused
    have hleaf : leaf s₀.mem root page = some ⟨0, t, page.l1Index⟩ := by
      rw [leaf_of_descend hdesc hindices (by simp), leafBelow, ← heq, hused]
      rfl
    refine ⟨hJ.writeLeaf h.inv (level_of_descend_root h.arrived), fun l hl => ?_, rfl, ?_⟩
    · rw [hleaf] at hl
      cases hl
      rfl
    have hused' : ((s.mem t page.l1Index).setFlags flags).isUnused = false :=
      PageTableEntry.isUnused_of_isPresent (by rw [PageTableEntry.isPresent_setFlags, hp])
    have hwrite := (hJ.hierarchy h.inv).rewrites_write (i := page.l1Index)
      (F := fun e => e.setFlags flags) le_rfl (level_of_descend_root h.arrived) hused'
      (fun hc => absurd hc (lt_irrefl 3)) hused
    refine (h.rewrites.trans hwrite).congr fun d hd u hu k hk => ?_
    rw [turned_of_leaf hleaf]
    by_cases hslot : u = t ∧ k = page.l1Index
    · rw [if_pos hslot]
      obtain ⟨rfl, rfl⟩ := hslot
      rw [editAt_self, setFlags_widened]
      rfl
    · rw [if_neg hslot, editAt_of_ne hslot]
  · -- nothing is written: the page had no leaf
    have hnone : leaf s₀.mem root page = none := by
      rcases h.place with hdesc | ⟨-, -, hdead⟩
      · have heq := h.ahead 3 le_rfl le_rfl t (level_of_descend_root hdesc) page.l1Index
        rw [leaf_of_descend hdesc hindices (by simp), leafBelow, ← heq, hun]
        rfl
      · exact leaf_of_dead hdead.append
    refine ⟨h.inv, fun l hl => ?_, rfl, h.rewrites.congr fun d hd u hu k hk => ?_⟩
    · rw [hnone] at hl
      cases hl
    · rw [turned, hnone]

/-- **One turn of `set_flags`.** -/
lemma setFlagsPage_rewrites (hJ : Walkable root J) (h : J s) (hp : flags.get .present = true)
    {res : Except MappingError ℕ} (hs : setFlagsPage root flags page s = .ok (res, s')) :
    (∀ n, res = .ok n → J s' ∧ n = skipAfter s.mem root page
        ∧ Rewrites root (turned s.mem root page flags) s.mem s'.mem)
      ∧ ∀ x, res = .error x → leaf s.mem root page = none
        ∧ Rewrites root (widened s.mem root (upperIndices page) (parentTableFlags flags))
          s.mem s'.mem := by
  have h₀ := hJ.hierarchy h
  have hh := parentTableFlags_hugePage flags
  rcases (hJ.stepsDown hh h₀).setFlagsPage (Walked.start h) hs with
    ⟨x, q, i, is, t, s₁, rfl, hq, hw, hsmall, hx⟩ | ⟨q, i, is, t, s₁, hq, his, hw, hs⟩
    | ⟨t, s₁, hw, hs⟩
  · obtain ⟨hrew, hend⟩ := hw.rewrites_of_error hJ hh h₀ hq hx
    refine ⟨by simp, fun y _ => ⟨?_, hrew⟩⟩
    rcases hend with hdead | hhuge
    · exact leaf_of_dead hdead.append
    · -- only the first step is made without a look at the entry
      have hnil : q = [] := by_contra fun hc => by simp [hsmall hc] at hhuge
      subst hnil
      cases hq
      obtain rfl : root = t := Except.ok.inj hw.arrived
      rw [hw.ahead 0 le_rfl (by omega) root rfl] at hhuge
      rw [leaf, table_of_isHugePage hhuge]
  · obtain ⟨hs', hleaf, hres, hrew⟩ := hJ.setsHuge_rewrites hw hq his hs
    refine ⟨fun n hn => ⟨hs', ?_, hrew⟩, fun y hy => absurd (hres.symm.trans hy) (by simp)⟩
    rw [skipAfter_of_leaf hleaf, Leaf.skip, if_neg (List.length_pos_iff.mpr his).ne']
    exact (Except.ok.inj (hres.symm.trans hn)).symm
  · obtain ⟨rfl, -⟩ := id hs
    obtain ⟨hs', hlevel, -, hrew⟩ := hJ.setsLeaf_rewrites hp hw hs
    refine ⟨fun n hn => ?_, by simp⟩
    cases hn
    refine ⟨hs', ?_, hrew⟩
    rw [skipAfter]
    cases hl : leaf s.mem root page with
    | none => rfl
    | some l => simp [Leaf.skip, hlevel l hl]

end Walkable

/-! ### The loop -/

/-- The pages at which the loop of `set_flags` stops; it passes over the pages that it skips
after a huge leaf. -/
def stops (mem : PhysMem) (root : Frame) : ℕ → List Page → List Page
  | _, [] => []
  | skip + 1, _ :: pages => stops mem root skip pages
  | 0, page :: pages => page :: stops mem root (skipAfter mem root page) pages

/-- What the turns at several pages do to an entry. -/
def turnedAll (mem : PhysMem) (root : Frame) (flags : PageTableFlags) (pages : List Page) :
    Frame → TableIndex → PageTableEntry → PageTableEntry := fun t i e =>
  pages.foldl (fun e page => turned mem root page flags t i e) e

lemma turnedAll_cons (mem : PhysMem) (root : Frame) (flags : PageTableFlags) (page : Page)
    (pages : List Page) (t : Frame) (i : TableIndex) (e : PageTableEntry) :
    turnedAll mem root flags (page :: pages) t i e
      = turnedAll mem root flags pages t i (turned mem root page flags t i e) := by
  rw [turnedAll, List.foldl_cons, turnedAll]

section Base

variable {root : Frame} {f : Frame → TableIndex → PageTableEntry → PageTableEntry}
  {mem mem' : PhysMem} {flags : PageTableFlags} {page : Page} {d : ℕ} {u : Frame}

lemma Rewrites.mem_slots_iff (h : Rewrites root f mem mem') (hq : q.length ≤ 4) (hd : d ≤ 3)
    (hu : Level (edges mem) {root} d u) (j : TableIndex) :
    (u, j) ∈ slots mem' root q ↔ (u, j) ∈ slots mem root q := by
  have hroot : Level (edges mem) {root} 0 root := rfl
  have hlen : 0 + q.length ≤ 4 := by omega
  exact ⟨fun hm => ((h.mem_slots_below hlen hroot).2 hm).resolve_right fun hc => hc ⟨d, hd, hu⟩,
    (h.mem_slots_below hlen hroot).1⟩

/-- The turns are told by the walks there were before. -/
lemma Rewrites.turned_eq (h : Rewrites root f mem mem') (hd : d ≤ 3)
    (hu : Level (edges mem) {root} d u) (j : TableIndex) (e : PageTableEntry) :
    turned mem' root page flags u j e = turned mem root page flags u j e := by
  have hslots := h.mem_slots_iff (q := upperIndices page) (by simp [upperIndices]) hd hu j
  simp only [turned, h.leaf_eq, widened, hslots]

lemma Rewrites.turnedAll_eq (h : Rewrites root f mem mem') (hd : d ≤ 3)
    (hu : Level (edges mem) {root} d u) (j : TableIndex) (pages : List Page)
    (e : PageTableEntry) :
    turnedAll mem' root flags pages u j e = turnedAll mem root flags pages u j e := by
  induction pages generalizing e with
  | nil => rw [turnedAll, turnedAll, List.foldl_nil, List.foldl_nil]
  | cons page pages ih =>
    rw [turnedAll_cons, turnedAll_cons, h.turned_eq hd hu, ih]

lemma Rewrites.stops_eq (h : Rewrites root f mem mem') (skip : ℕ) (pages : List Page) :
    stops mem' root skip pages = stops mem root skip pages := by
  induction pages generalizing skip with
  | nil => rfl
  | cons page pages ih =>
    cases skip with
    | zero => rw [stops, stops, ih, skipAfter, skipAfter, h.leaf_eq]
    | succ skip => exact ih skip

end Base

section Loop

variable {A : Type} [AllocateFrame A] {J : PagingState A → Prop} {root : Frame}
  {s s' : PagingState A} {flags : PageTableFlags}

/-- The loop of `set_flags` that failed at a page: the turns at the stops before it were made,
and the walk of that page, which was not mapped, was widened. -/
def FailedAt (mem : PhysMem) (root : Frame) (flags : PageTableFlags) (all done : List Page)
    (stop : Page) (mem' : PhysMem) : Prop :=
  done ++ [stop] <+: all ∧ leaf mem root stop = none
    ∧ Rewrites root (fun t i e => widened mem root (upperIndices stop) (parentTableFlags flags) t i
        (turnedAll mem root flags done t i e)) mem mem'

/-- **The loop of `set_flags`** makes a turn at every stop, or fails at one of them. -/
lemma Walkable.setFlagsLoop_rewrites (hJ : Walkable root J) (h : J s)
    (hp : flags.get .present = true) {skip : ℕ} {pages : List Page}
    {res : Except MappingError Unit}
    (hs : setFlagsLoop root flags skip pages s = .ok (res, s')) :
    (res = .ok () → J s' ∧
        Rewrites root (turnedAll s.mem root flags (stops s.mem root skip pages)) s.mem s'.mem)
      ∧ ∀ x, res = .error x →
        ∃ done stop, FailedAt s.mem root flags (stops s.mem root skip pages) done stop s'.mem := by
  induction pages generalizing skip s with
  | nil =>
    cases hs
    exact ⟨fun _ => ⟨h, Rewrites.refl root _⟩, by simp⟩
  | cons page pages ih =>
    cases skip with
    | succ skip => exact ih h hs
    | zero =>
      rcases Comp.bind_eq_ok hs with ⟨n, s₁, h₁, hs⟩ | ⟨x, s₁, h₁, hx⟩
      · obtain ⟨hs₁, rfl, hrew⟩ := (hJ.setFlagsPage_rewrites h hp h₁).1 n rfl
        obtain ⟨hok, herr⟩ := ih hs₁ hs
        refine ⟨fun hr => ⟨(hok hr).1, ?_⟩, fun x hx => ?_⟩
        · refine (hrew.trans (hok hr).2).congr fun d hd u hu j _ => ?_
          rw [hrew.stops_eq, hrew.turnedAll_eq hd hu, stops, turnedAll_cons]
        · obtain ⟨done, stop, hpre, hnone, hrest⟩ := herr x hx
          refine ⟨page :: done, stop, ?_, hrew.leaf_eq ▸ hnone, ?_⟩
          · rw [hrew.stops_eq] at hpre
            exact List.prefix_cons_inj page |>.mpr hpre
          · refine (hrew.trans hrest).congr fun d hd u hu j _ => ?_
            have hslots := hrew.mem_slots_iff (q := upperIndices stop)
              (by simp [upperIndices]) hd hu j
            simp only [widened, hslots, hrew.turnedAll_eq hd hu, turnedAll_cons]
      · cases hx
        obtain ⟨hnone, hrew⟩ := (hJ.setFlagsPage_rewrites h hp h₁).2 x rfl
        exact ⟨by simp, fun y _ => ⟨[], page, ⟨_, rfl⟩, hnone, hrew⟩⟩

end Loop

end Rhubarb
