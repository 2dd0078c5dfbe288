import Rhubarb.Foundations.Levels
import Rhubarb.Foundations.Runs
import Rhubarb.Memory.Walks

/-!
The graph of page tables below several address spaces.

An entry that refers to a table is an edge; the address spaces that exist are the roots.  The
tables are `Tables` when each has one level, is in use, and holds only filled entries above
the last level.

* `edges_link`, `edges_write_eq`, `edges_write_of_ne`: what each action of a walk does to
  the graph.
* `Tables.link`, `Tables.rewrite`, `Tables.leaf`, `Tables.allocate`: the actions keep the
  tables sound, and `Tables.descend_link`, `Tables.descend_rewrite` that the walk goes on.
-/

namespace Rhubarb

open Foundations Level4PageTable Levels Radix

/-! ### The graph of tables -/

/-- The table an entry refers to, as the edge of a graph. -/
def edges (mem : PhysMem) (t : Frame) (i : TableIndex) : Option Frame := (mem t i).table

/-- The frame is not free: marked as used, or beyond the allocator's range. -/
def InUse (g : FrameAllocator) (f : Frame) : Prop :=
  maxFrames ≤ f.number ∨ g.isAllocated f.number = true

/-- An entry of an upper table that is used is present or a huge leaf. -/
def Filled (e : PageTableEntry) : Prop :=
  e.isUnused = true ∨ e.isPresent = true ∨ e.isHugePage = true

variable {e : PageTableEntry} {f t u : Frame} {d : ℕ} {q : List TableIndex} {g : FrameAllocator}
  {flags : PageTableFlags}

lemma view_eq_ok_iff_table :
    view e = .ok f ↔ e.table = some f :=
  view_eq_ok.trans PageTableEntry.table_eq_some.symm

lemma table_unused : PageTableEntry.unused.table = none := by decide

lemma table_of_isHugePage (h : e.isHugePage = true) : e.table = none := by
  cases ht : e.table with
  | none => rfl
  | some f =>
    have := (PageTableEntry.frame_eq_ok (PageTableEntry.table_eq_some.mp ht)).2.1
    rw [h] at this
    cases this

/-- A walk is a path of the graph. -/
lemma level_of_descend {mem : PhysMem} {roots : Set Frame} {r : Frame}
    (hr : Level (edges mem) roots d r) (h : descend view mem r q = .ok t) :
    Level (edges mem) roots (d + q.length) t := by
  induction q generalizing d r with
  | nil =>
    cases h
    exact hr
  | cons i q ih =>
    obtain ⟨g, hv, h⟩ := descend_cons_eq_ok h
    have hg : Level (edges mem) roots (d + 1) g := ⟨r, i, hr, view_eq_ok_iff_table.mp hv⟩
    have := ih hg h
    rwa [List.length_cons, show d + (q.length + 1) = d + 1 + q.length from by omega]

lemma level_of_mem {mem : PhysMem} {roots : Set Frame} {r : Frame} (hr : r ∈ roots)
    (h : descend view mem r q = .ok t) : Level (edges mem) roots q.length t := by
  have hr₀ : Level (edges mem) roots 0 r := hr
  simpa using level_of_descend hr₀ h

/-! ### The edges after each action -/

section Edges

variable {mem : PhysMem} {t f : Frame} {i : TableIndex} {flags : PageTableFlags}

lemma edges_link {g : Frame} (hg : (PageTableEntry.ofFrame f flags).frame = .ok (.ok g)) :
    edges (Radix.link mem t i (.ofFrame f flags) g .unused) = addEdge (edges mem) t i g := by
  funext u j
  by_cases hu : u = g
  · subst hu
    rw [addEdge_new, edges, Radix.link, clear_self, table_unused]
  by_cases hslot : u = t ∧ j = i
  · obtain ⟨rfl, rfl⟩ := hslot
    rw [addEdge_self hu, edges, link_self hu]
    exact PageTableEntry.table_eq_some.mpr hg
  · rw [addEdge_of_ne hu hslot, edges, link_of_ne hu hslot, edges]

lemma edges_write_eq (h : e.table = (mem t i).table) :
    edges (write mem t i e) = edges mem := by
  funext u j
  by_cases hslot : u = t ∧ j = i
  · obtain ⟨rfl, rfl⟩ := hslot
    rw [edges, write_self, h, edges]
  · rw [edges, write_of_ne hslot, edges]

lemma edges_write_of_ne (h : u ≠ t) (j : TableIndex) :
    edges (write mem t i e) u j = edges mem u j := by
  rw [edges, write_of_ne (fun hc => h hc.1), edges]

/-- Adding flags to a filled entry leaves it leading where it led. -/
lemma table_withFlags (hused : e.isUnused = false) (he : Filled e)
    (hh : flags.get .hugePage = false) : (withFlags e flags).table = e.table := by
  rcases he with hun | hp | hhuge
  · rw [hused] at hun
    cases hun
  · rw [PageTableEntry.table, frame_withFlags hp hh, PageTableEntry.table]
  · rw [table_of_isHugePage hhuge, table_of_isHugePage (isHugePage_withFlags flags hhuge)]

/-- A used filled entry is still filled, and used, after flags have been added. -/
lemma filled_withFlags (flags : PageTableFlags) (hused : e.isUnused = false) (he : Filled e) :
    Filled (withFlags e flags) ∧ (withFlags e flags).isUnused = false := by
  rcases he with hun | hp | hhuge
  · rw [hused] at hun
    cases hun
  · have hp' := isPresent_withFlags flags hp
    exact ⟨.inr (.inl hp'), PageTableEntry.isUnused_of_isPresent hp'⟩
  · have hh' := isHugePage_withFlags flags hhuge
    exact ⟨.inr (.inr hh'), PageTableEntry.isUnused_of_isHugePage hh'⟩

/-- A huge leaf stays one when its flags are set. -/
lemma isHugePage_setFlags_or (e : PageTableEntry) (flags : PageTableFlags) :
    (e.setFlags (flags.or .hugePage)).isHugePage = true := by
  rw [PageTableEntry.isHugePage_setFlags, PageTableFlags.get_hugePage]
  show (flags.bits ||| _).getLsbD 7 = true
  rw [BitVec.getLsbD_or, Bool.or_eq_true]
  exact .inr rfl

end Edges

/-! ### Allocation through a proxy -/

lemma proxyAllocator_cases {a a' : ProxyAllocator} {f : Option Frame}
    (hint : a.frameAllocator.nextFreeHint ≤ maxFrames)
    (h : AllocateFrame.allocateFrame a = (f, a')) :
    (f = none ∧ a' = a)
      ∨ ∃ n < maxFrames, a.frameAllocator.isAllocated n = false ∧ f = some ⟨n⟩
        ∧ a' = ⟨(a.frameAllocator.take n).2, ⟨a.proxy.allocatedFrames ++ [⟨n⟩]⟩⟩ := by
  rcases a.frameAllocator.allocateFrame_cases hint with heq | ⟨n, hn, hc, heq⟩
  · simp only [AllocateFrame.allocateFrame, FrameAllocatorProxy.allocateFrame, heq,
      Prod.mk.injEq] at h
    exact .inl ⟨h.1.symm, h.2.symm⟩
  · simp only [AllocateFrame.allocateFrame, FrameAllocatorProxy.allocateFrame, heq,
      Prod.mk.injEq] at h
    exact .inr ⟨n, hn, hc, h.1.symm, h.2.symm⟩

lemma proxyAllocator_some {a a' : ProxyAllocator}
    (hint : a.frameAllocator.nextFreeHint ≤ maxFrames)
    (h : AllocateFrame.allocateFrame a = (some f, a')) :
    ∃ n < maxFrames, a.frameAllocator.isAllocated n = false ∧ f = ⟨n⟩
      ∧ a' = ⟨(a.frameAllocator.take n).2, ⟨a.proxy.allocatedFrames ++ [⟨n⟩]⟩⟩ := by
  rcases proxyAllocator_cases hint h with ⟨hf, -⟩ | ⟨n, hn, hc, hf, ha⟩
  · cases hf
  · exact ⟨n, hn, hc, Option.some.inj hf, ha⟩

lemma InUse.take (h : InUse g f) (n : ℕ) :
    InUse (g.take n).2 f := by
  refine h.imp_right fun h => ?_
  rw [FrameAllocator.isAllocated_take, h, Bool.or_true]

lemma physical_of_lt {n : ℕ} (h : n < maxFrames) : (⟨n⟩ : Frame).Physical := by
  have : maxFrames < 2 ^ 35 := by decide
  exact lt_trans h this

/-- The frame an entry made from a physical frame refers to is that frame. -/
lemma frame_ofFrame_of_physical {g : Frame} (hf : f.Physical)
    (h : (PageTableEntry.ofFrame f flags).frame = .ok (.ok g)) : g = f := by
  have hframe := (PageTableEntry.frame_eq_ok h).2.2.2
  rw [hframe, PageTableEntry.addr_ofFrame hf]
  simp

lemma frame_ofFrame_eq {n : ℕ} (hn : n < maxFrames) {g : Frame}
    (h : (PageTableEntry.ofFrame ⟨n⟩ flags).frame = .ok (.ok g)) : g = ⟨n⟩ :=
  frame_ofFrame_of_physical (physical_of_lt hn) h

/-! ### Hierarchies -/

/-- Tables with one level each, the entries above the last level filled. -/
structure Hierarchy (mem : PhysMem) (roots : Set Frame) : Prop where
  levelled : Levelled (edges mem) roots 3
  filled : ∀ d < 3, ∀ t, Level (edges mem) roots d t → ∀ i, Filled (mem t i)

namespace Hierarchy

variable {mem : PhysMem} {roots : Set Frame} {root t f g : Frame} {i : TableIndex}
  {q : List TableIndex} {flags : PageTableFlags}

lemma mono {roots' : Set Frame} (h : Hierarchy mem roots') (hsub : roots ⊆ roots') :
    Hierarchy mem roots :=
  ⟨h.levelled.mono hsub, fun d hd t ht => h.filled d hd t (level_mono hsub ht)⟩

/-- A fresh blank table is hung below an unused entry. -/
lemma link (h : Hierarchy mem roots) (hun : (mem t i).isUnused = true)
    (hframe : (PageTableEntry.ofFrame f flags).frame = .ok (.ok g))
    (hfresh : ¬Node (edges mem) roots 3 g) :
    Hierarchy (Radix.link mem t i (.ofFrame f flags) g .unused) roots := by
  have hfree : edges mem t i = none := by rw [edges, eq_unused hun, table_unused]
  refine ⟨?_, fun d hd u hu j => ?_⟩
  · rw [edges_link hframe]
    exact h.levelled.addEdge hfree hfresh
  · rw [edges_link hframe, level_addEdge hfree hfresh (by omega)] at hu
    rcases hu with hu | ⟨rfl, -⟩
    · have hne : u ≠ g := by
        rintro rfl
        exact hfresh ⟨d, hd.le, hu⟩
      by_cases hslot : u = t ∧ j = i
      · obtain ⟨rfl, rfl⟩ := hslot
        rw [link_self hne]
        exact .inr (.inl (PageTableEntry.frame_eq_ok hframe).1)
      · rw [link_of_ne hne hslot]
        exact h.filled d hd u hu j
    · rw [Radix.link, clear_self]
      exact .inl rfl

/-- Rewriting an entry of an upper table that leads where it led. -/
lemma rewrite (h : Hierarchy mem roots) (he : e.table = (mem t i).table) (hfilled : Filled e) :
    Hierarchy (write mem t i e) roots := by
  have hedges := edges_write_eq he
  refine ⟨by rw [hedges]; exact h.levelled, fun d hd u hu j => ?_⟩
  rw [hedges] at hu
  by_cases hslot : u = t ∧ j = i
  · obtain ⟨rfl, rfl⟩ := hslot
    rw [write_self]
    exact hfilled
  · rw [write_of_ne hslot]
    exact h.filled d hd u hu j

/-- No table above the last level is touched by a write to a table of the last level. -/
lemma ne_of_level (h : Hierarchy mem roots) (ht : Level (edges mem) roots 3 t) (hd : d < 3)
    (hu : Level (edges mem) roots d u) : u ≠ t := by
  rintro rfl
  have := h.levelled d 3 u hd.le le_rfl hu ht
  omega

lemma leaf_edges (h : Hierarchy mem roots) (ht : Level (edges mem) roots 3 t)
    (e : PageTableEntry) : ∀ d < 3, ∀ u, Level (edges mem) roots d u → ∀ j,
      edges (write mem t i e) u j = edges mem u j :=
  fun _ hd _ hu j => edges_write_of_ne (h.ne_of_level ht hd hu) j

lemma leaf (h : Hierarchy mem roots) (ht : Level (edges mem) roots 3 t) (e : PageTableEntry) :
    Hierarchy (write mem t i e) roots := by
  have hedges := h.leaf_edges (i := i) ht e
  refine ⟨h.levelled.congr hedges, fun d hd u hu j => ?_⟩
  have hu := (level_congr hedges hd.le).mp hu
  rw [write_of_ne fun hc => h.ne_of_level ht hd hu hc.1]
  exact h.filled d hd u hu j

/-! The path walked so far survives the next action. -/

lemma descend_link (h : Hierarchy mem roots) (hroot : root ∈ roots) (hq : q.length < 3)
    (hd : descend view mem root q = .ok t) (hfresh : ¬Node (edges mem) roots 3 g)
    (hframe : (PageTableEntry.ofFrame f flags).frame = .ok (.ok g)) :
    descend view (Radix.link mem t i (.ofFrame f flags) g .unused) root (q ++ [i]) = .ok g := by
  have hne : ∀ {q' u}, q'.length ≤ 3 → descend view mem root q' = .ok u → u ≠ g := by
    rintro q' u hq' hu rfl
    exact hfresh ⟨q'.length, hq', level_of_mem hroot hu⟩
  have hpath : descend view (Radix.link mem t i (.ofFrame f flags) g .unused) root q = .ok t := by
    rw [← hd]
    refine descend_congr fun q' j hq' u hu => ?_
    have hlen := length_lt_of_extends hq'
    -- the tables passed are above `t`
    have hut : u ≠ t := by
      rintro rfl
      have := h.levelled _ _ u (by omega) (by omega) (level_of_mem hroot hu) (level_of_mem hroot hd)
      omega
    rw [link_of_ne (hne (by omega) hu) fun hc => hut hc.1]
  rw [descend_append hpath, descend_singleton, link_self (hne hq.le hd)]
  exact view_eq_ok.mpr hframe

lemma descend_rewrite (he : e.table = (mem t i).table) (hd : descend view mem root q = .ok t)
    (hf : e.frame = .ok (.ok f)) :
    descend view (write mem t i e) root (q ++ [i]) = .ok f := by
  have hedges := edges_write_eq he
  have hpath : descend view (write mem t i e) root q = .ok t := by
    refine descend_ok_congr (fun q' j _ u g _ hg => ?_) hd
    rw [view_eq_ok_iff_table] at hg ⊢
    rw [← hg]
    exact congrFun (congrFun hedges u) j
  rw [descend_append hpath, descend_singleton, write_self]
  exact view_eq_ok.mpr hf

end Hierarchy

/-! ### Sound tables -/

/-- **Sound tables**: every table below the roots has one level and is in use, and the entries
above the last level are filled. -/
structure Tables (mem : PhysMem) (g : FrameAllocator) (roots : Set Frame) : Prop where
  hint : g.nextFreeHint ≤ maxFrames
  levelled : Levelled (edges mem) roots 3
  filled : ∀ d < 3, ∀ t, Level (edges mem) roots d t → ∀ i, Filled (mem t i)
  inUse : ∀ t, Node (edges mem) roots 3 t → InUse g t

namespace Tables

variable {mem : PhysMem} {g : FrameAllocator} {roots : Set Frame} {n : ℕ}
  {root t : Frame} {i : TableIndex} {q : List TableIndex} {flags : PageTableFlags}

lemma hierarchy (h : Tables mem g roots) : Hierarchy mem roots := ⟨h.levelled, h.filled⟩

/-- A free frame is no table. -/
lemma fresh (h : Tables mem g roots) (hn : n < maxFrames) (hc : g.isAllocated n = false) :
    ¬Node (edges mem) roots 3 ⟨n⟩ := by
  intro hnode
  rcases h.inUse _ hnode with hle | hused
  · exact absurd hn (not_lt.mpr hle)
  · rw [hc] at hused
    cases hused

lemma allocate (h : Tables mem g roots) (hn : n < maxFrames) :
    Tables mem (g.take n).2 roots :=
  ⟨hn, h.levelled, h.filled, fun t ht => (h.inUse t ht).take n⟩

lemma link (h : Tables mem g roots) (hn : n < maxFrames) (hc : g.isAllocated n = false)
    (hun : (mem t i).isUnused = true)
    (hframe : (PageTableEntry.ofFrame ⟨n⟩ flags).frame = .ok (.ok ⟨n⟩)) :
    Tables (Radix.link mem t i (.ofFrame ⟨n⟩ flags) ⟨n⟩ .unused) (g.take n).2 roots := by
  have hfresh := h.fresh hn hc
  have hfree : edges mem t i = none := by rw [edges, eq_unused hun, table_unused]
  have hh := h.hierarchy.link hun hframe hfresh
  refine ⟨hn, hh.levelled, hh.filled, fun u hu => ?_⟩
  rw [edges_link hframe] at hu
  rcases node_addEdge hfree hfresh hu with hu | rfl
  · exact (h.inUse u hu).take n
  · exact .inr (by simp)

/-- Rewriting an entry of an upper table that leads where it led. -/
lemma rewrite (h : Tables mem g roots) (he : e.table = (mem t i).table) (hfilled : Filled e) :
    Tables (write mem t i e) g roots := by
  have hh := h.hierarchy.rewrite he hfilled
  refine ⟨h.hint, hh.levelled, hh.filled, fun u hu => ?_⟩
  rw [edges_write_eq he] at hu
  exact h.inUse u hu

lemma leaf (h : Tables mem g roots) (ht : Level (edges mem) roots 3 t) (e : PageTableEntry) :
    Tables (write mem t i e) g roots := by
  have hh := h.hierarchy.leaf (i := i) ht e
  exact ⟨h.hint, hh.levelled, hh.filled,
    fun u hu => h.inUse u ((node_congr (h.hierarchy.leaf_edges ht e)).mp hu)⟩

end Tables

/-! ### A new root -/

section NewTable

variable {mem : PhysMem} {g : FrameAllocator} {roots : Set Frame} {kroot : Frame} {n : ℕ}

/-- The edges of a new root: the shared ones of the kernel's. -/
lemma edges_newTable (hne : kroot ≠ ⟨n⟩) (u : Frame) (j : TableIndex) :
    edges (MemoryState.newTable mem kroot ⟨n⟩ none) u j
      = if u = ⟨n⟩ then (if MemoryState.sharedIndex j then edges mem kroot j else none)
        else edges mem u j := by
  by_cases hu : u = ⟨n⟩
  · subst hu
    by_cases hj : MemoryState.sharedIndex j = true
    · simp [edges, MemoryState.newTable, hj, clear_of_ne hne]
    · simp [edges, MemoryState.newTable, hj, table_unused]
  · simp [edges, MemoryState.newTable, hu, clear_of_ne hu]

/-- What a new root reaches the kernel reaches. -/
lemma level_newTable (hk : ¬Node (edges mem) {kroot} 3 ⟨n⟩) (hd : d < 3)
    (hu : Level (edges (MemoryState.newTable mem kroot ⟨n⟩ none)) {⟨n⟩} (d + 1) u) :
    Level (edges mem) {kroot} (d + 1) u := by
  have hne : kroot ≠ ⟨n⟩ := by
    rintro rfl
    exact hk ⟨0, by omega, rfl⟩
  induction d generalizing u with
  | zero =>
    obtain ⟨v, j, rfl, hj⟩ := hu
    rw [edges_newTable hne, if_pos rfl] at hj
    split_ifs at hj
    exact ⟨kroot, j, rfl, hj⟩
  | succ d ih =>
    obtain ⟨v, j, hv, hj⟩ := hu
    have hv := ih (by omega) hv
    have hvn : v ≠ ⟨n⟩ := by
      rintro rfl
      exact hk ⟨d + 1, by omega, hv⟩
    rw [edges_newTable hne, if_neg hvn] at hj
    exact ⟨v, j, hv, hj⟩

/-- A table below the roots is the new root, or was below the old ones. -/
lemma Tables.level_newSpace (h : Tables mem g roots) (hk : kroot ∈ roots) (hn : n < maxFrames)
    (hc : g.isAllocated n = false) (hd : d ≤ 3)
    (hu : Level (edges (MemoryState.newTable mem kroot ⟨n⟩ none)) (insert ⟨n⟩ roots) d u) :
    d = 0 ∧ u = ⟨n⟩ ∨ Level (edges mem) roots d u := by
  have hfresh := h.fresh hn hc
  have hnot : ∀ {r}, r ∈ roots → ¬Node (edges mem) {r} 3 ⟨n⟩ := by
    rintro r hr ⟨k, hk, hl⟩
    exact hfresh ⟨k, hk, level_mono (Set.singleton_subset_iff.mpr hr) hl⟩
  have hne : kroot ≠ ⟨n⟩ := by
    rintro rfl
    exact hnot hk ⟨0, by omega, rfl⟩
  obtain ⟨r, rfl | hr, hu⟩ := level_singleton hu
  · cases d with
    | zero => exact .inl ⟨rfl, hu⟩
    | succ d =>
      exact .inr (level_mono (Set.singleton_subset_iff.mpr hk) (level_newTable (hnot hk) hd hu))
  · have hedges : ∀ k < 3, ∀ v, Level (edges mem) {r} k v → ∀ j,
        edges (MemoryState.newTable mem kroot ⟨n⟩ none) v j = edges mem v j := by
      intro k hk v hv j
      rw [edges_newTable hne, if_neg]
      rintro rfl
      exact hnot hr ⟨k, hk.le, hv⟩
    exact .inr (level_mono (Set.singleton_subset_iff.mpr hr) ((level_congr hedges hd).mp hu))

/-- **A new address space** keeps the tables sound. -/
lemma Tables.newSpace (h : Tables mem g roots) (hk : kroot ∈ roots) (hn : n < maxFrames)
    (hc : g.isAllocated n = false) :
    Tables (MemoryState.newTable mem kroot ⟨n⟩ none) (g.take n).2 (insert ⟨n⟩ roots) := by
  have hfresh := h.fresh hn hc
  have hne : kroot ≠ ⟨n⟩ := by
    rintro rfl
    exact hfresh ⟨0, by omega, hk⟩
  refine ⟨hn, fun d d' u hd hd' hu hu' => ?_, fun d hd u hu j => ?_, ?_⟩
  · rcases h.level_newSpace hk hn hc hd hu with ⟨hd₀, hun⟩ | hold <;>
      rcases h.level_newSpace hk hn hc hd' hu' with ⟨hd₀', hun'⟩ | hold'
    · rw [hd₀, hd₀']
    · exact absurd ⟨d', hd', hun ▸ hold'⟩ hfresh
    · exact absurd ⟨d, hd, hun' ▸ hold⟩ hfresh
    · exact h.levelled d d' u hd hd' hold hold'
  · rcases h.level_newSpace hk hn hc hd.le hu with ⟨-, rfl⟩ | hu
    · by_cases hj : MemoryState.sharedIndex j = true
      · have hcopy : MemoryState.newTable mem kroot ⟨n⟩ none ⟨n⟩ j = mem kroot j := by
          simp [MemoryState.newTable, hj, clear_of_ne hne]
        rw [hcopy]
        exact h.filled 0 (by omega) kroot hk j
      · have hblank : MemoryState.newTable mem kroot ⟨n⟩ none ⟨n⟩ j = .unused := by
          simp [MemoryState.newTable, hj]
        rw [hblank]
        exact .inl rfl
    · have hun : u ≠ ⟨n⟩ := by
        rintro rfl
        exact hfresh ⟨d, hd.le, hu⟩
      have hsame : MemoryState.newTable mem kroot ⟨n⟩ none u j = mem u j := by
        simp [MemoryState.newTable, hun, clear_of_ne hun]
      rw [hsame]
      exact h.filled d hd u hu j
  · rintro u ⟨d, hd, hu⟩
    rcases h.level_newSpace hk hn hc hd hu with ⟨-, rfl⟩ | hu
    · exact .inr (by simp)
    · exact (h.inUse u ⟨d, hd, hu⟩).take n

end NewTable

/-! ### The roots of a memory state -/

section Roots

variable {rootOf : SpaceId → Option Frame} {id : SpaceId} {root : Frame}

/-- The roots of the address spaces that exist. -/
def rootSet (rootOf : SpaceId → Option Frame) : Set Frame := {r | ∃ id, rootOf id = some r}

lemma subset_rootSet (h : rootOf id = some root) : ({root} : Set Frame) ⊆ rootSet rootOf := by
  rintro r rfl
  exact ⟨id, h⟩

/-- The roots after an address space has been added. -/
lemma rootSet_update (hnone : rootOf id = none) :
    rootSet (Function.update rootOf id (some root)) = insert root (rootSet rootOf) := by
  ext r
  constructor
  · rintro ⟨j, hj⟩
    by_cases hjk : j = id
    · subst hjk
      rw [Function.update_self] at hj
      exact .inl (Option.some.inj hj).symm
    · rw [Function.update_of_ne hjk] at hj
      exact .inr ⟨j, hj⟩
  · rintro (rfl | ⟨j, hj⟩)
    · exact ⟨id, by rw [Function.update_self]⟩
    · refine ⟨j, ?_⟩
      rw [Function.update_of_ne, hj]
      rintro rfl
      rw [hnone] at hj
      cases hj

/-- A walk is a path from the roots. -/
lemma level_rootSet {mem : PhysMem} (hroot : rootOf id = some root)
    (hd : descend view mem root q = .ok t) :
    Level (edges mem) (rootSet rootOf) q.length t :=
  level_of_mem ⟨id, hroot⟩ hd

end Roots

namespace MemoryState

/-- The root of an address space. -/
def rootOf (m : MemoryState) (id : SpaceId) : Option Frame := (m.spaces id).map (·.frame)

section Views

variable {m m' : MemoryState} {id : SpaceId} {x : Option AddressSpace}

lemma rootOf_of_spaces (h : m'.spaces = Function.update m.spaces id x) :
    m'.rootOf = Function.update m.rootOf id (x.map (·.frame)) := by
  funext j
  by_cases hj : j = id
  · subst hj
    simp [rootOf, h]
  · simp [rootOf, h, hj]

lemma spaces_put (a : AddressSpace) (s : PagingState ProxyAllocator) :
    (m.put id a s).spaces = Function.update m.spaces id
      (some { a with frameAllocator := s.allocator.proxy }) := rfl

lemma spaces_dropSpace (a : AddressSpace) :
    (m.dropSpace id a).spaces = Function.update m.spaces id none := rfl

lemma rootOf_put {a : AddressSpace} (ha : m.spaces id = some a) (s : PagingState ProxyAllocator) :
    (m.put id a s).rootOf = m.rootOf := by
  have hroot : m.rootOf id = some a.frame := by rw [rootOf, ha]; rfl
  have hput : (m.put id a s).rootOf = Function.update m.rootOf id (some a.frame) :=
    rootOf_of_spaces (spaces_put a s)
  rw [hput, ← hroot, Function.update_eq_self]

end Views

lemma newSpace_cases {m m' : MemoryState} {k : ℕ} {name : String} {kroot : Frame}
    (hk : m.rootOf .kernel = some kroot) (hint : m.frameAllocator.nextFreeHint ≤ maxFrames)
    (h : m.newSpace (.process k) name none = .ok m') :
    ∃ n < maxFrames, m.frameAllocator.isAllocated n = false
      ∧ m'.mem = newTable m.mem kroot ⟨n⟩ none
      ∧ m'.frameAllocator = (m.frameAllocator.take n).2
      ∧ m'.spaces = Function.update m.spaces (.process k) (some ⟨name, ⟨n⟩, ⟨[⟨n⟩]⟩⟩) := by
  obtain ⟨a, ha, rfl⟩ := Option.map_eq_some_iff.mp hk
  have hkernel : m.kernelAddressSpace = .ok a := by simp only [kernelAddressSpace, ha]
  simp only [newSpace, hkernel] at h
  change (if m.isCurrent a = false then _ else _) = _ at h
  split_ifs at h
  rcases m.frameAllocator.allocateFrame_cases hint with heq | ⟨n, hn, hc, heq⟩
  · simp only [FrameAllocatorProxy.allocateFrame, heq] at h
    cases h
  · simp only [FrameAllocatorProxy.allocateFrame, heq] at h
    cases h
    exact ⟨n, hn, hc, rfl, rfl, rfl⟩

end MemoryState

/-! ### A small machine

The kernel's root and one table of each level lie beyond the allocator's range and map the
pages 0 and 1 to themselves; four frames from 1 MiB on are free. -/

namespace MemoryState

/-- The tables of the small machine, one below the other. -/
def smallMem : PhysMem := fun f i =>
  if f.number = 300003 then
    if i ≤ 1 then .ofFrame ⟨i⟩ (PageTableFlags.present.or .writable) else .unused
  else if 300000 ≤ f.number ∧ f.number < 300003 ∧ i = 0 then
    .ofFrame ⟨f.number + 1⟩ (PageTableFlags.present.or .writable)
  else .unused

/-- The allocator of the small machine. -/
def smallAllocator : FrameAllocator where
  bitmap := fun w => if w = 4 then 0xFFFFFFFFFFFFFFF0 else BitVec.allOnes 64
  totalFrames := 4
  freeFrames := 4
  nextFreeHint := 256

/-- The small machine after boot. -/
def smallMemory : MemoryState where
  mem := smallMem
  frameAllocator := smallAllocator
  spaces
    | .kernel => some ⟨"", ⟨300000⟩, ⟨[]⟩⟩
    | .process _ => none
  cr3 := ⟨300000⟩
  tracker := fun _ => none

/-- The small machine with another allocator. -/
def smallMachine (g : FrameAllocator) : MemoryState := { smallMemory with frameAllocator := g }

/-- The small machine with sixty-four free frames. -/
def roomyMemory : MemoryState :=
  smallMachine ⟨fun w => if w = 4 then 0 else BitVec.allOnes 64, 64, 64, 256⟩

lemma edges_smallMem (hd : d < 3) {j : TableIndex} (h : edges smallMem ⟨300000 + d⟩ j = some t) :
    j = 0 ∧ t = ⟨300000 + (d + 1)⟩ := by
  rw [edges, smallMem, if_neg (by simp only; omega)] at h
  split_ifs at h with hj
  · refine ⟨hj.2.2, ?_⟩
    have hphys : (⟨300000 + d + 1⟩ : Frame).Physical := by
      show 300000 + d + 1 < 2 ^ 35
      omega
    rw [PageTableEntry.table_eq_some,
      PageTableEntry.frame_ofFrame hphys (by decide) (by decide)] at h
    cases h
    rfl
  · rw [table_unused] at h
    cases h

lemma level_smallMem (hd : d ≤ 3) (h : Level (edges smallMem) {⟨300000⟩} d t) :
    t = ⟨300000 + d⟩ := by
  induction d generalizing t with
  | zero => exact h
  | succ d ih =>
    obtain ⟨u, j, hu, hj⟩ := h
    rw [ih (by omega) hu] at hj
    exact (edges_smallMem (by omega) hj).2

lemma tables_smallMem (hg : g.nextFreeHint ≤ maxFrames) :
    Tables smallMem g {⟨300000⟩} where
  hint := hg
  levelled := by
    intro d d' t hd hd' ht ht'
    have := (level_smallMem hd ht).symm.trans (level_smallMem hd' ht')
    simpa using this
  filled := by
    intro d hd t ht i
    rw [level_smallMem hd.le ht, smallMem, if_neg (by simp only; omega)]
    split
    · refine .inr (.inl ?_)
      rw [PageTableEntry.isPresent_ofFrame]
      decide
    · exact .inl rfl
  inUse := by
    rintro t ⟨d, hd, ht⟩
    rw [level_smallMem hd ht]
    refine .inl ?_
    show 262144 ≤ 300000 + d
    omega

end MemoryState

end Rhubarb
