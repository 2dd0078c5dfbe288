import Rhubarb.Memory.FreshFrames

/-!
Running out of frames in `AddressSpace::map_pages` and `map_pages_untracked`
(`kernel/src/memory.rs`).

For every page the loops take a frame for the page, which they unwrap, and then up to three frames
for tables, whose lack is an error.  So what happens when the frames run out depends on whether
the last one went to a page or to a table.

* `status`: what a walk finds, as `map_to` sees it.
* `mapTo_outcome`: what `map_to` does, and how many frames it takes.
* `mapPagesLoop_exhausted_iff`, `mapPagesUntrackedLoop_exhausted_iff`: the loops panic exactly if
  the free frames are just enough for the first pages and their tables.
-/

namespace Rhubarb

open Foundations Level4PageTable Levels Radix

/-! ### Free frames -/

/-- The frames the allocator still gives: it counts them, and it looks for a clear bit. -/
def FrameAllocator.available (g : FrameAllocator) : ℕ := min g.freeFrames g.clearCount

abbrev PagingState.available (s : PagingState ProxyAllocator) : ℕ :=
  s.allocator.frameAllocator.available

variable {a : ProxyAllocator} {flags : PageTableFlags} {s : PagingState ProxyAllocator}
  {pages : List Page}

/-- A frame is given as long as one is available. -/
lemma allocateFrame_available (hint : a.frameAllocator.nextFreeHint ≤ maxFrames) :
    (a.frameAllocator.available = 0 ∧ AllocateFrame.allocateFrame a = (none, a))
      ∨ ∃ f a', AllocateFrame.allocateFrame a = (some f, a')
        ∧ a'.frameAllocator.available + 1 = a.frameAllocator.available := by
  rcases FrameAllocator.allocate_cases hint with ⟨heq, hnone⟩ | ⟨n, hn, hc, hpos, heq⟩
  · refine .inl ⟨?_, ?_⟩
    · rcases hnone with hzero | hall
      · rw [FrameAllocator.available, hzero, Nat.zero_min]
      · have hclear : a.frameAllocator.clearCount = 0 := by
          by_contra hne
          obtain ⟨n, hn, hc⟩ :=
            (Bitmap.clearCount_pos_iff a.frameAllocator.bitmap).mp (Nat.pos_of_ne_zero hne)
          have hset : a.frameAllocator.bitmap.test n = true := hall n hn
          rw [hc] at hset
          cases hset
        rw [FrameAllocator.available, hclear, Nat.min_zero]
    · simp only [AllocateFrame.allocateFrame, FrameAllocatorProxy.allocateFrame,
        FrameAllocator.allocateFrame, heq]
  · refine .inr ⟨⟨n⟩, ⟨(a.frameAllocator.take n).2, ⟨a.proxy.allocatedFrames ++ [⟨n⟩]⟩⟩, ?_, ?_⟩
    · simp only [AllocateFrame.allocateFrame, FrameAllocatorProxy.allocateFrame,
        FrameAllocator.allocateFrame, heq]
      rfl
    · have hcount := FrameAllocator.clearCount_markUsed hn hc
      have hfree : (a.frameAllocator.take n).2.freeFrames + 1 = a.frameAllocator.freeFrames :=
        Nat.sub_add_cancel hpos
      have hclear : (a.frameAllocator.take n).2.clearCount
          = (a.frameAllocator.markUsed n).clearCount := rfl
      simp only [FrameAllocator.available]
      omega

/-! ### What a walk finds -/

/-- At the end of a path there is a table, or one is missing that can be linked, or the path is
blocked by an entry that leads to no table, such as a huge leaf. -/
inductive Status where
  | table
  | missing
  | blocked
  deriving DecidableEq

/-- What the walk along a path finds. -/
def status (mem : PhysMem) : Frame → List TableIndex → Status
  | _, [] => .table
  | t, i :: is =>
    match (mem t i).table with
    | some g => status mem g is
    | none => if (mem t i).isUnused then .missing else .blocked

section Status

variable {mem mem' : PhysMem} {r t g : Frame} {i : TableIndex} {p q : List TableIndex}

lemma status_cons_some (h : (mem t i).table = some g) :
    status mem t (i :: p) = status mem g p := by
  simp only [status, h]

lemma status_cons_none (h : (mem t i).table = none) :
    status mem t (i :: p) = if (mem t i).isUnused then .missing else .blocked := by
  simp only [status, h]

lemma status_cons_unused (h : (mem t i).isUnused = true) :
    status mem t (i :: p) = .missing := by
  rw [status_cons_none (by rw [eq_unused h, table_unused]), if_pos h]

/-- The walk goes on where a descent has arrived. -/
lemma status_append (h : descend view mem r q = .ok t) (p : List TableIndex) :
    status mem r (q ++ p) = status mem t p := by
  induction q generalizing r with
  | nil =>
    cases h
    rfl
  | cons j q ih =>
    obtain ⟨g, hv, h⟩ := descend_cons_eq_ok h
    rw [List.cons_append, status_cons_some (view_eq_ok_iff_table.mp hv), ih h]

lemma status_of_descend (h : descend view mem r q = .ok t) : status mem r q = .table := by
  have happ := status_append h []
  rwa [List.append_nil] at happ

/-- **What a walk finds depends only on the entries it passes.** -/
lemma status_congr
    (h : ∀ q i, q ++ [i] <+: p → ∀ t, descend view mem r q = .ok t →
      (mem' t i).table = (mem t i).table ∧ (mem' t i).isUnused = (mem t i).isUnused) :
    status mem' r p = status mem r p := by
  induction p generalizing r with
  | nil => rfl
  | cons j p ih =>
    obtain ⟨htable, hun⟩ := h [] j ⟨p, rfl⟩ r rfl
    cases ht : (mem r j).table with
    | none => rw [status_cons_none (htable.trans ht), status_cons_none ht, hun]
    | some g =>
      rw [status_cons_some (htable.trans ht), status_cons_some ht]
      refine ih fun q i hq t hd => h (j :: q) i ?_ t ?_
      · exact (List.prefix_cons_inj j).mpr hq
      · rw [descend_cons_ok (view_eq_ok_iff_table.mpr ht), hd]

end Status

section Changes

variable {mem : PhysMem} {g : FrameAllocator} {roots : Set Frame} {r t : Frame} {i : TableIndex}
  {p q : List TableIndex}

/-- Every table below a root is found on one path. -/
lemma Tidy.unique (h : Tidy mem g roots) (hr : r ∈ roots) : Radix.Unique view 3 mem r := by
  intro p q t hp hq hpt hqt
  have hlen : p.length = q.length :=
    h.tables.levelled _ _ t hp hq (level_of_mem hr hpt) (level_of_mem hr hqt)
  cases p with
  | nil => exact (List.eq_nil_of_length_eq_zero hlen.symm).symm
  | cons i p =>
    cases q with
    | nil => cases hlen
    | cons j q =>
      have hlen : p.length = q.length := Nat.succ.inj hlen
      obtain ⟨rfl, rfl, -⟩ := h.path_unique hr hr hlen (Nat.le_of_succ_le_succ hp) hpt hqt
      rfl

/-- A free frame is no table below a root. -/
lemma Tidy.not_table {n : ℕ} (h : Tidy mem g roots) (hr : r ∈ roots) (hn : n < maxFrames)
    (hc : g.isAllocated n = false) : ¬Radix.Table view 3 mem r ⟨n⟩ := by
  rintro ⟨p, hp, hd⟩
  exact h.tables.fresh hn hc ⟨p.length, hp, level_of_mem hr hd⟩

/-- **Linking a fresh table** changes what is found at the end of its path only. -/
lemma Tidy.status_link {n : ℕ} (h : Tidy mem g roots) (hr : r ∈ roots) (hn : n < maxFrames)
    (hc : g.isAllocated n = false) (hq : q.length < 3) (hd : descend view mem r q = .ok t)
    (hun : (mem t i).isUnused = true)
    (hframe : (PageTableEntry.ofFrame ⟨n⟩ flags).frame = .ok (.ok ⟨n⟩)) (hp : p.length ≤ 3) :
    status (Radix.link mem t i (.ofFrame ⟨n⟩ flags) ⟨n⟩ .unused) r p
      = if p = q ++ [i] then .table else status mem r p := by
  have hu := h.unique hr
  have hnot := h.not_table hr hn hc
  have hself : descend view (Radix.link mem t i (.ofFrame ⟨n⟩ flags) ⟨n⟩ .unused) r
      (q ++ [i]) = .ok ⟨n⟩ :=
    descend_link_self hu hq hd hnot (view_eq_ok.mpr hframe)
  by_cases hpre : q ++ [i] <+: p
  · obtain ⟨p', rfl⟩ := hpre
    rw [status_append hself, List.append_assoc, status_append hd, List.singleton_append,
      status_cons_unused hun]
    cases p' with
    | nil => rw [if_pos (by simp)]; rfl
    | cons j p' =>
      rw [if_neg (by simp), status_cons_unused]
      rw [Radix.link, clear_self]
      rfl
  · have hne : p ≠ q ++ [i] := by
      rintro rfl
      exact hpre (List.prefix_refl _)
    rw [if_neg hne]
    refine status_congr fun q' j hq' u hu' => ?_
    have hlen := length_lt_of_extends hq'
    rw [link_of_ne]
    · exact ⟨rfl, rfl⟩
    · rintro rfl
      exact hnot ⟨q', by omega, hu'⟩
    · rintro ⟨rfl, rfl⟩
      exact hpre (hu q' q u (by omega) hq.le hu' hd ▸ hq')

/-- Adding flags to an entry changes nothing that is found. -/
lemma Tidy.status_withFlags {d : ℕ} (h : Tidy mem g roots) (hd : d < 3)
    (ht : Level (edges mem) roots d t) (hused : (mem t i).isUnused = false)
    (hh : flags.get .hugePage = false) :
    status (write mem t i (withFlags (mem t i) flags)) r p = status mem r p := by
  have hfilled := h.tables.filled d hd t ht i
  refine status_congr fun q' j _ u _ => ?_
  by_cases hslot : u = t ∧ j = i
  · obtain ⟨rfl, rfl⟩ := hslot
    rw [write_self, (filled_withFlags flags hused hfilled).2, hused,
      table_withFlags hused hfilled hh]
    exact ⟨rfl, rfl⟩
  · rw [write_of_ne hslot]
    exact ⟨rfl, rfl⟩

/-- Writing a leaf changes nothing that is found. -/
lemma Tidy.status_leaf {e : PageTableEntry} (h : Tidy mem g roots) (hr : r ∈ roots)
    (ht : Level (edges mem) roots 3 t) (hp : p.length ≤ 3) :
    status (write mem t i e) r p = status mem r p := by
  refine status_congr fun q' j hq' u hu => ?_
  have hlen := length_lt_of_extends hq'
  rw [write_of_ne fun hc =>
    h.tables.hierarchy.ne_of_level ht (by omega) (level_of_mem hr hu) hc.1]
  exact ⟨rfl, rfl⟩

end Changes

/-! ### One step down -/

/-- A computation that ends for another reason than the lack of a frame. -/
def Stuck {α : Type} (x : Except Panic (Except MappingError α × PagingState ProxyAllocator)) :
    Prop :=
  (∃ s', x = .ok (.error .mappedToHugePage, s')) ∨ ∃ p, x = .error p ∧ p ≠ .mapPagesFrame

/-- What follows does not matter then. -/
lemma Stuck.bind {α β : Type} {c : Comp Panic (PagingState ProxyAllocator) MappingError α}
    (h : Stuck (c s)) (f : α → Comp Panic (PagingState ProxyAllocator) MappingError β) :
    Stuck ((c >>= f) s) := by
  rcases h with ⟨s', hs⟩ | ⟨p, hp, hne⟩
  · exact .inl ⟨s', Comp.bind_apply_error hs⟩
  · exact .inr ⟨p, Comp.bind_apply_panic hp, hne⟩

section NextTable

variable {roots : Set Frame} {r t : Frame} {i : TableIndex} {q : List TableIndex}
  {flags : PageTableFlags} {s : PagingState ProxyAllocator}

/-- An entry that leads to no table cannot be opened. -/
lemma opened_stuck {e : PageTableEntry} (h : e.table = none) (s : PagingState ProxyAllocator) :
    Stuck ((opened e).map (·, s)) := by
  rw [opened]
  rcases hf : e.frame with p | (x | g)
  · refine .inr ⟨p, rfl, ?_⟩
    rw [PageTableEntry.frame] at hf
    split_ifs at hf
    rw [Frame.containingAddr] at hf
    split_ifs at hf <;> cases hf
    simp
  · cases x with
    | hugePage => exact .inl ⟨s, rfl⟩
    | notPresent => exact .inr ⟨_, rfl, by simp⟩
  · rw [PageTableEntry.table_eq_some.mpr hf] at h
    cases h

/-- A linked entry that is not present cannot be opened. -/
lemma nextTable_absent {f : Frame} (hun : (s.mem t i).isUnused = true)
    (hal : AllocateFrame.allocateFrame s.allocator = (some f, a)) (hf : f.Physical)
    (hh : flags.get .hugePage = false) (hp : flags.get .present = false) :
    nextTable t i flags s = .error .entryNotMapped := by
  have hframe : (PageTableEntry.ofFrame f flags).frame = .ok (.error .notPresent) := by
    rw [PageTableEntry.frame, if_pos (by rw [PageTableEntry.isPresent_ofFrame, hp])]
  simp only [nextTable_of_unused hun, hal, PageTableEntry.setFrame_of_physical hf hh]
  change (opened _).map _ = _
  rw [opened, hframe]
  rfl

/-- **What one step down does.** -/
lemma nextTable_outcome (h : s.Tidy roots) (hr : r ∈ roots) (hq : q.length < 3)
    (hd : descend view s.mem r q = .ok t) (hh : flags.get .hugePage = false) :
    (∃ g s', nextTable t i flags s = .ok (.ok g, s')
        ∧ s'.Tidy roots ∧ descend view s'.mem r (q ++ [i]) = .ok g
        ∧ (∀ p, p.length ≤ 3 → status s'.mem r p
          = if p = q ++ [i] then .table else status s.mem r p)
        ∧ (status s.mem r (q ++ [i]) = .table ∧ s'.available = s.available
          ∨ status s.mem r (q ++ [i]) = .missing ∧ flags.get .present = true
            ∧ s'.available + 1 = s.available))
      ∨ (status s.mem r (q ++ [i]) = .missing ∧ s.available = 0
        ∧ nextTable t i flags s = .ok (.error .frameAllocationFailed, s))
      ∨ (status s.mem r (q ++ [i]) = .missing ∧ flags.get .present = false
        ∧ Stuck (nextTable t i flags s))
      ∨ (status s.mem r (q ++ [i]) = .blocked ∧ Stuck (nextTable t i flags s)) := by
  have hlevel := level_of_mem hr hd
  have hW := walkable_tidy hr
  rw [status_append hd]
  cases hun : (s.mem t i).isUnused with
  | true =>
    rw [status_cons_unused hun]
    rcases allocateFrame_available h.tables.hint with ⟨hnone, hal⟩ | ⟨f, a, hal, havail⟩
    · refine .inr (.inl ⟨rfl, hnone, ?_⟩)
      rw [nextTable_of_unused hun, hal]
    · have hphys := h.physical hal
      cases hp : flags.get .present with
      | false =>
        exact .inr (.inr (.inl ⟨rfl, rfl, .inr ⟨_, nextTable_absent hun hal hphys hh hp, by simp⟩⟩))
      | true =>
        have hnext := nextTable_unused hun hal hphys hp hh
        obtain ⟨htidy, hdesc⟩ := hW.nextTable h hq hd hh hnext
        refine .inl ⟨f, _, hnext, htidy, hdesc, fun p hp3 => ?_, .inr ⟨rfl, rfl, havail⟩⟩
        obtain ⟨n, hn, hc, rfl, -⟩ := proxyAllocator_some h.tables.hint hal
        exact h.status_link hr hn hc hq hd hun (PageTableEntry.frame_ofFrame hphys hp hh) hp3
  | false =>
    cases ht : (s.mem t i).table with
    | some g =>
      rw [status_cons_some ht]
      have hframe := PageTableEntry.table_eq_some.mp ht
      have hnext := nextTable_table hun (PageTableEntry.frame_eq_ok hframe).1 hframe hh
      obtain ⟨htidy, hdesc⟩ := hW.nextTable h hq hd hh hnext
      refine .inl ⟨g, _, hnext, htidy, hdesc, fun p _ => ?_, .inl ⟨rfl, rfl⟩⟩
      rw [h.status_withFlags hq hlevel hun hh]
      split_ifs with hp
      · rw [hp, status_append hd, status_cons_some ht]
        rfl
      · rfl
    | none =>
      rw [status_cons_none ht, hun]
      refine .inr (.inr (.inr ⟨rfl, ?_⟩))
      rw [nextTable_of_used hun]
      refine opened_stuck ?_ _
      rw [table_withFlags hun (h.tables.filled _ hq t hlevel i) hh, ht]

end NextTable

/-! ### The way to the level-1 table -/

/-- The steps down along a path. -/
def tablesDown (flags : PageTableFlags) : Frame → List TableIndex →
    Comp Panic (PagingState ProxyAllocator) MappingError Frame
  | t, [] => pure t
  | t, i :: is => do
    let g ← nextTable t i flags
    tablesDown flags g is

lemma level1Table_eq (r : Frame) (page : Page) (flags : PageTableFlags)
    (s : PagingState ProxyAllocator) :
    level1Table r page flags s = tablesDown flags r (upperIndices page) s := by
  simp only [level1Table, upperIndices, tablesDown, bind_pure]

/-- The number of tables that are missing on the way from `q` along a path. -/
def lack (mem : PhysMem) (r : Frame) : List TableIndex → List TableIndex → ℕ
  | _, [] => 0
  | q, i :: is => (if status mem r (q ++ [i]) = .missing then 1 else 0) + lack mem r (q ++ [i]) is

section Down

variable {mem mem' : PhysMem} {roots : Set Frame} {r t : Frame} {p q is : List TableIndex}
  {flags : PageTableFlags} {s : PagingState ProxyAllocator}

lemma lack_congr (h : ∀ p, p ≠ [] → p <+: is → status mem' r (q ++ p) = status mem r (q ++ p)) :
    lack mem' r q is = lack mem r q is := by
  induction is generalizing q with
  | nil => rfl
  | cons i is ih =>
    rw [lack, lack, h [i] (by simp) ⟨is, rfl⟩]
    congr 1
    refine ih fun p _ hp => ?_
    rw [List.append_assoc, List.singleton_append]
    exact h (i :: p) (by simp) ((List.prefix_cons_inj i).mpr hp)

/-- A walk that is stopped finds nothing else further on. -/
lemma status_append_of_ne (h : status mem r q ≠ .table) (p : List TableIndex) :
    status mem r (q ++ p) = status mem r q := by
  induction q generalizing r with
  | nil => exact absurd rfl h
  | cons j q ih =>
    cases ht : (mem r j).table with
    | none => rw [List.cons_append, status_cons_none ht, status_cons_none ht]
    | some g =>
      rw [status_cons_some ht] at h
      rw [List.cons_append, status_cons_some ht, status_cons_some ht, ih h]

/-- On the way to a table there are tables. -/
lemma status_of_extends (h : descend view mem r q = .ok t) (hp : p <+: q) :
    status mem r p = .table := by
  obtain ⟨u, rfl⟩ := hp
  by_contra hne
  rw [← status_append_of_ne hne u, status_of_descend h] at hne
  exact hne rfl

/-- **A walk that arrived**: the tables on the path are there now, each that was missing at the
cost of a frame, and nothing else has changed for the walks. -/
structure WalkArrives (roots : Set Frame) (r : Frame) (flags : PageTableFlags)
    (p : List TableIndex) (n : ℕ) (s s' : PagingState ProxyAllocator) : Prop where
  tidy : Tidy s'.mem s'.allocator.frameAllocator roots
  count : s'.available + n = s.available
  free : status s.mem r p ≠ .blocked
  present : flags.get .present = true ∨ n = 0
  walks : ∀ p', p'.length ≤ 3 → status s'.mem r p'
    = if p' <+: p then .table else status s.mem r p'

/-- **What the steps down do**: they arrive, or the frames run out, or they are stuck. -/
lemma tablesDown_outcome (h : s.Tidy roots) (hr : r ∈ roots)
    (hq : q.length + is.length ≤ 3) (hd : descend view s.mem r q = .ok t)
    (hh : flags.get .hugePage = false) :
    (∃ g s', tablesDown flags t is s = .ok (.ok g, s')
        ∧ descend view s'.mem r (q ++ is) = .ok g
        ∧ WalkArrives roots r flags (q ++ is) (lack s.mem r q is) s s')
      ∨ (s.available < lack s.mem r q is
        ∧ ∃ s', tablesDown flags t is s = .ok (.error .frameAllocationFailed, s'))
      ∨ ((status s.mem r (q ++ is) = .blocked ∨ flags.get .present = false ∧ 0 < lack s.mem r q is)
        ∧ Stuck (tablesDown flags t is s)) := by
  induction is generalizing q t s with
  | nil =>
    refine .inl ⟨t, s, rfl, by rwa [List.append_nil], h, Nat.add_zero _, ?_, .inr rfl,
      fun p _ => ?_⟩
    · rw [List.append_nil, status_of_descend hd]
      nofun
    · split_ifs with hp
      · exact status_of_extends hd (List.append_nil q ▸ hp)
      · rfl
  | cons i is ih =>
    rw [List.length_cons] at hq
    have happ : q ++ i :: is = q ++ [i] ++ is := by simp
    rcases nextTable_outcome (i := i) h hr (by omega) hd hh with
      ⟨g, s₁, hnext, htidy₁, hdesc₁, hstatus₁, hfirst⟩ | ⟨hmiss, hzero, hnext⟩
      | ⟨hmiss, hp, hstuck⟩ | ⟨hblocked, hstuck⟩
    · -- the step is made, and what follows is as before
      have hrest : ∀ p, p ≠ [] → q.length + 1 + p.length ≤ 3 →
          status s₁.mem r (q ++ [i] ++ p) = status s.mem r (q ++ [i] ++ p) := by
        intro p hp hlen
        rw [hstatus₁ _ (by simp; omega), if_neg (by simpa using hp)]
      have hlack : lack s₁.mem r (q ++ [i]) is = lack s.mem r (q ++ [i]) is :=
        lack_congr fun p hp hpre => hrest p hp (by have := hpre.length_le; omega)
      have hcount : s₁.available
          + (if status s.mem r (q ++ [i]) = .missing then 1 else 0) = s.available := by
        rcases hfirst with ⟨htable, hsame⟩ | ⟨hmiss, -, hone⟩
        · rw [htable, if_neg (by simp), Nat.add_zero, hsame]
        · rw [hmiss, if_pos rfl, hone]
      have hblocked : status s₁.mem r (q ++ [i] ++ is) = .blocked
          ↔ status s.mem r (q ++ [i] ++ is) = .blocked := by
        cases is with
        | nil =>
          rw [List.append_nil, hstatus₁ _ (by simp; omega), if_pos rfl]
          rcases hfirst with ⟨htable, -⟩ | ⟨hmiss, -⟩
          · rw [htable]
          · rw [hmiss]
            exact iff_of_false nofun nofun
        | cons j is => rw [hrest (j :: is) (by simp) (by simp at hq ⊢; omega)]
      have hrun : tablesDown flags t (i :: is) s = tablesDown flags g is s₁ := by
        rw [tablesDown, Comp.bind_apply_ok hnext]
      rw [hrun, lack, happ]
      rcases ih htidy₁ (by simp; omega) hdesc₁ with ⟨g', s', hrun', hdesc', harr⟩
        | ⟨hless, s', hrun'⟩ | ⟨hwhy, hstuck⟩
      · refine .inl ⟨g', s', hrun', hdesc', harr.tidy, ?_, ?_, ?_, fun p hp => ?_⟩
        · have hcount' := harr.count
          rw [hlack] at hcount'
          omega
        · exact mt hblocked.mpr harr.free
        · rcases hfirst with ⟨htable, -⟩ | ⟨-, hp, -⟩
          · rw [htable, if_neg (by simp), Nat.zero_add, ← hlack]
            exact harr.present
          · exact .inl hp
        · rw [harr.walks p hp, hstatus₁ p hp]
          split_ifs with hpre heq
          · rfl
          · exact absurd (heq ▸ List.prefix_append _ _) hpre
          · rfl
      · refine .inr (.inl ⟨?_, s', hrun'⟩)
        rw [hlack] at hless
        omega
      · refine .inr (.inr ⟨?_, hstuck⟩)
        rw [hlack] at hwhy
        exact hwhy.imp hblocked.mp fun hpos => ⟨hpos.1, by omega⟩
    · refine .inr (.inl ⟨?_, s, ?_⟩)
      · rw [lack, if_pos hmiss]
        omega
      · rw [tablesDown, Comp.bind_apply_error hnext]
    · refine .inr (.inr ⟨.inr ⟨hp, ?_⟩, ?_⟩)
      · rw [lack, if_pos hmiss]
        omega
      · rw [tablesDown]
        exact hstuck.bind _
    · refine .inr (.inr ⟨.inl ?_, ?_⟩)
      · rw [happ, status_append_of_ne (by rw [hblocked]; nofun), hblocked]
      · rw [tablesDown]
        exact hstuck.bind _

end Down

/-! ### `map_to` -/

/-- The page can be mapped, or is mapped already, as far as the tables and the flags go: no
assertion of `map_to` fails, and no huge leaf is in the way. -/
def Passes (r : Frame) (flags : PageTableFlags) (mem : PhysMem) (page : Page) : Prop :=
  status mem r (upperIndices page) ≠ .blocked
    ∧ (flags.get .present = true ∨ lack mem r [] (upperIndices page) = 0)
    ∧ (flags.get .hugePage = false ∨ (pageEntry mem r page).isSome)

instance (r : Frame) (flags : PageTableFlags) (mem : PhysMem) (page : Page) :
    Decidable (Passes r flags mem page) :=
  inferInstanceAs (Decidable (_ ∧ _))

section MapTo

variable {roots : Set Frame} {r frame : Frame} {page : Page} {flags : PageTableFlags}
  {s s' : PagingState ProxyAllocator}

/-- The entries of all pages are what they were when the level-1 table has been reached. -/
lemma Tidy.level1Table_pageEntry {res : Except MappingError Frame}
    (h : s.Tidy roots) (hr : r ∈ roots) (hh : flags.get .hugePage = false)
    (hl : level1Table r page flags s = .ok (res, s')) (q : Page) :
    pageEntry s'.mem r q = pageEntry s.mem r q := by
  have hins : Inserted roots r (fun _ _ => False) s.mem s'.mem := h.level1Table_inserted hr hh hl
  exact hins.found_eq hr rfl

/-- **What `map_to` does**: the page is mapped, or was before; or the frames run out; or it is
stuck. -/
lemma mapTo_outcome (h : s.Tidy roots) (hr : r ∈ roots) (hframe : frame.Physical) :
    (∃ res s', mapTo r page frame flags s = .ok (res, s')
        ∧ WalkArrives roots r flags (upperIndices page) (lack s.mem r [] (upperIndices page)) s s'
        ∧ (res = .ok () ∧ pageEntry s.mem r page = none ∧ flags.get .hugePage = false
          ∨ res = .error (.pageAlreadyMapped frame) ∧ (pageEntry s.mem r page).isSome
            ∧ ∀ q, pageEntry s'.mem r q = pageEntry s.mem r q))
      ∨ (s.available < lack s.mem r [] (upperIndices page)
        ∧ ∃ s', mapTo r page frame flags s = .ok (.error .frameAllocationFailed, s'))
      ∨ (¬Passes r flags s.mem page ∧ Stuck (mapTo r page frame flags s)) := by
  have hh := parentTableFlags_hugePage flags
  have hlen : ([] : List TableIndex).length + (upperIndices page).length ≤ 3 := le_rfl
  have houtcome := tablesDown_outcome h hr hlen (descend_nil s.mem r) hh
  rw [List.nil_append, parentTableFlags_get_present, ← level1Table_eq] at houtcome
  rcases houtcome with ⟨l1, s₁, hrun, hdesc, harr⟩ | ⟨hless, s₁, hrun⟩ | ⟨hwhy, hstuck⟩
  · have hpresent := harr.present
    rw [parentTableFlags_get_present] at hpresent
    have hentries := h.level1Table_pageEntry hr hh hrun
    have hentry : pageEntry s.mem r page = if (s₁.mem l1 page.l1Index).isUnused then none
        else some (s₁.mem l1 page.l1Index) := by
      rw [← hentries page, pageEntry, found_of_descend hdesc]
    have hl1 : Level (edges s₁.mem) roots 3 l1 := level_of_mem hr hdesc
    have hmap : mapTo r page frame flags s = _ := mapTo_of_level1Table hrun
    cases hun : (s₁.mem l1 page.l1Index).isUnused with
    | false =>
      rw [if_neg (by simp [hun])] at hmap
      refine .inl ⟨_, s₁, hmap, ⟨harr.tidy, harr.count, harr.free, hpresent, harr.walks⟩,
        Or.inr ⟨rfl, ?_, hentries⟩⟩
      rw [hentry, hun]
      rfl
    | true =>
      have hnone : pageEntry s.mem r page = none := by rw [hentry, if_pos hun]
      rw [if_pos hun] at hmap
      cases hhuge : flags.get .hugePage with
      | true =>
        refine .inr (.inr ⟨fun hpass => ?_, .inr ⟨.entryHuge, ?_, by simp⟩⟩)
        · rcases hpass.2.2 with hc | hc
          · rw [hhuge] at hc
            cases hc
          · rw [hnone] at hc
            cases hc
        · rw [hmap, PageTableEntry.setFrame, if_neg]
          · rfl
          · rw [flags.and_hugePage_ne_iff, hhuge]
            simp
      | false =>
        rw [PageTableEntry.setFrame_of_physical hframe hhuge] at hmap
        refine .inl ⟨_, _, hmap, ⟨(h.mapTo_inserted hr hmap).tidy, harr.count, harr.free,
          hpresent, fun p hp => ?_⟩, .inl ⟨rfl, hnone, rfl⟩⟩
        rw [harr.tidy.status_leaf hr hl1 hp]
        exact harr.walks p hp
  · refine .inr (.inl ⟨hless, s₁, ?_⟩)
    rw [mapTo, Comp.bind_apply_error hrun]
  · refine .inr (.inr ⟨fun hpass => ?_, ?_⟩)
    · rcases hwhy with hblocked | ⟨hp, hpos⟩
      · exact hpass.1 hblocked
      · rcases hpass.2.1 with hc | hc
        · rw [hp] at hc
          cases hc
        · omega
    · rw [mapTo]
      exact hstuck.bind _

end MapTo

/-! ### The tables that are missing for some pages -/

/-- The paths of the tables that a page needs. -/
def tablePaths (page : Page) : List (List TableIndex) :=
  [[page.l4Index], [page.l4Index, page.l3Index], [page.l4Index, page.l3Index, page.l2Index]]

/-- The tables that are missing for some pages. -/
def missing (mem : PhysMem) (r : Frame) (pages : List Page) : Finset (List TableIndex) :=
  (pages.flatMap tablePaths).toFinset.filter fun p => status mem r p = .missing

section Missing

variable {mem mem' : PhysMem} {r : Frame} {page : Page} {pages : List Page} {p : List TableIndex}

lemma mem_tablePaths : p ∈ tablePaths page ↔ p ≠ [] ∧ p <+: upperIndices page := by
  constructor
  · intro h
    simp only [tablePaths, List.mem_cons, List.not_mem_nil, or_false] at h
    rcases h with rfl | rfl | rfl
    · exact ⟨by simp, ⟨[page.l3Index, page.l2Index], rfl⟩⟩
    · exact ⟨by simp, ⟨[page.l2Index], rfl⟩⟩
    · exact ⟨by simp, ⟨[], rfl⟩⟩
  · rintro ⟨hne, u, hu⟩
    match p, hne with
    | [a], _ =>
      cases hu
      simp [tablePaths]
    | [a, b], _ =>
      cases hu
      simp [tablePaths]
    | a :: b :: c :: p, _ =>
      simp only [upperIndices, List.cons_append, List.cons.injEq] at hu
      obtain ⟨rfl, rfl, rfl, hu⟩ := hu
      obtain ⟨rfl, -⟩ := List.append_eq_nil_iff.mp hu
      simp [tablePaths]

lemma length_of_mem_tablePaths (h : p ∈ tablePaths page) : p.length ≤ 3 :=
  (mem_tablePaths.mp h).2.length_le

/-- The tables missing for one page. -/
lemma card_missing_singleton :
    (missing mem r [page]).card = lack mem r [] (upperIndices page) := by
  simp only [missing, List.flatMap_singleton, tablePaths, upperIndices, lack, List.nil_append,
    List.cons_append, List.toFinset_cons, List.toFinset_nil, Finset.card_filter]
  rw [Finset.sum_insert (by simp), Finset.sum_insert (by simp), insert_empty_eq,
    Finset.sum_singleton, Nat.add_zero]

/-- **One page after the other**: when the tables of a page are there, the others lack the rest. -/
lemma card_missing_cons
    (h : ∀ p, p.length ≤ 3 → status mem' r p
      = if p <+: upperIndices page then .table else status mem r p) :
    (missing mem r (page :: pages)).card
      = lack mem r [] (upperIndices page) + (missing mem' r pages).card := by
  have hsplit : missing mem r (page :: pages) = missing mem r [page] ∪ missing mem' r pages := by
    ext p
    simp only [missing, Finset.mem_union, Finset.mem_filter, List.mem_toFinset,
      List.flatMap_cons, List.flatMap_nil, List.append_nil, List.mem_append]
    constructor
    · rintro ⟨hp, hmiss⟩
      by_cases hpage : p ∈ tablePaths page
      · exact .inl ⟨hpage, hmiss⟩
      · have hp := hp.resolve_left hpage
        obtain ⟨q, -, hq⟩ := List.mem_flatMap.mp hp
        refine .inr ⟨hp, ?_⟩
        rw [h p (length_of_mem_tablePaths hq), if_neg, hmiss]
        intro hpre
        exact hpage (mem_tablePaths.mpr ⟨(mem_tablePaths.mp hq).1, hpre⟩)
    · rintro (⟨hp, hmiss⟩ | ⟨hp, hmiss⟩)
      · exact ⟨.inl hp, hmiss⟩
      · obtain ⟨q, -, hq⟩ := List.mem_flatMap.mp hp
        rw [h p (length_of_mem_tablePaths hq)] at hmiss
        split_ifs at hmiss
        exact ⟨.inr hp, hmiss⟩
  have hdisjoint : Disjoint (missing mem r [page]) (missing mem' r pages) := by
    rw [Finset.disjoint_left]
    intro p hp hp'
    simp only [missing, Finset.mem_filter, List.mem_toFinset, List.flatMap_cons,
      List.flatMap_nil, List.append_nil] at hp hp'
    have hstatus := h p (length_of_mem_tablePaths hp.1)
    rw [if_pos (mem_tablePaths.mp hp.1).2, hp'.2] at hstatus
    cases hstatus
  rw [hsplit, Finset.card_union_of_disjoint hdisjoint, card_missing_singleton]

end Missing

/-! ### The loops -/

/-- **The frames run out at a page**: they are just enough for the first pages, which all pass,
and the tables missing for them. -/
def RunsOutAtPage (P : PhysMem → Page → Prop) (r : Frame) (mem : PhysMem) (free : ℕ)
    (pages : List Page) : Prop :=
  ∃ n < pages.length, (∀ page ∈ pages.take n, P mem page)
    ∧ free = n + (missing mem r (pages.take n)).card

section Loop

variable {roots : Set Frame} {r : Frame} {flags : PageTableFlags}
  {P : PhysMem → Page → Prop}

/-- What one turn of the loops does, if there is a frame for the page. -/
structure Turn (roots : Set Frame) (r : Frame) (P : PhysMem → Page → Prop) (page : Page)
    (s s' : PagingState ProxyAllocator) : Prop where
  passes : P s.mem page
  tidy : Tidy s'.mem s'.allocator.frameAllocator roots
  count : s'.available + lack s.mem r [] (upperIndices page) + 1
    = s.available
  walks : ∀ p, p.length ≤ 3 → status s'.mem r p
    = if p <+: upperIndices page then .table else status s.mem r p
  others : ∀ q, ¬MemoryState.SameIndices page q → (P s'.mem q ↔ P s.mem q)

/-- **The loops panic exactly if the frames run out at a page**, whatever pages pass. -/
lemma loop_exhausted_iff
    (loop : List Page → Comp Panic (PagingState ProxyAllocator) MappingError Unit)
    (hnil : ∀ s, loop [] s ≠ .error .mapPagesFrame)
    (hnone : ∀ s page pages, s.Tidy roots → s.available = 0 →
      loop (page :: pages) s = .error .mapPagesFrame)
    (hturn : ∀ s page pages, s.Tidy roots → 0 < s.available →
      (∃ s₁, loop (page :: pages) s = loop pages s₁ ∧ Turn roots r P page s s₁)
        ∨ loop (page :: pages) s ≠ .error .mapPagesFrame
          ∧ (¬P s.mem page ∨ s.available ≤ lack s.mem r [] (upperIndices page)))
    (h : s.Tidy roots)
    (hapart : (pages.take (s.available + 1)).Pairwise fun p q => ¬MemoryState.SameIndices p q) :
    loop pages s = .error .mapPagesFrame ↔ RunsOutAtPage P r s.mem s.available pages := by
  induction pages generalizing s with
  | nil =>
    refine iff_of_false (hnil s) ?_
    rintro ⟨n, hn, -⟩
    cases hn
  | cons page pages ih =>
    rcases Nat.eq_zero_or_pos s.available with hzero | hpos
    · refine iff_of_true (hnone s page pages h hzero) ⟨0, by simp, by simp, ?_⟩
      rw [hzero]
      rfl
    rcases hturn s page pages h hpos with ⟨s₁, hrun, ht⟩ | ⟨hends, hwhy⟩
    · have hcount := ht.count
      rw [List.take_succ_cons, List.pairwise_cons] at hapart
      obtain ⟨hfirst, hapart⟩ := hapart
      have hsub : (pages.take (s₁.available + 1)).Sublist (pages.take s.available) :=
        (List.take_prefix_take_left (by omega)).sublist
      rw [hrun, ih ht.tidy (hapart.sublist hsub)]
      -- the pages that are counted are among those that are apart
      have hothers : ∀ n ≤ s.available, ∀ q ∈ pages.take n,
          (P s₁.mem q ↔ P s.mem q) := fun n hn q hq =>
        ht.others q (hfirst q ((List.take_prefix_take_left hn).subset hq))
      constructor
      · rintro ⟨n, hn, hpass, hfree⟩
        refine ⟨n + 1, by simpa using hn, ?_, ?_⟩
        · rw [List.take_succ_cons]
          refine List.forall_mem_cons.mpr ⟨ht.passes, fun q hq => ?_⟩
          exact (hothers n (by omega) q hq).mp (hpass q hq)
        · rw [List.take_succ_cons, card_missing_cons ht.walks]
          omega
      · rintro ⟨n, hn, hpass, hfree⟩
        cases n with
        | zero =>
          rw [List.take_zero] at hfree
          have hcard : (missing s.mem r []).card = 0 := rfl
          omega
        | succ n =>
          rw [List.take_succ_cons] at hpass hfree
          rw [card_missing_cons ht.walks] at hfree
          refine ⟨n, by simpa using hn, fun q hq => ?_, by omega⟩
          exact (hothers n (by omega) q hq).mpr (hpass q (List.mem_cons_of_mem _ hq))
    · refine iff_of_false hends ?_
      rintro ⟨n, hn, hpass, hfree⟩
      cases n with
      | zero =>
        rw [List.take_zero] at hfree
        have hcard : (missing s.mem r []).card = 0 := rfl
        omega
      | succ n =>
        rw [List.take_succ_cons] at hpass hfree
        rcases hwhy with hnot | hless
        · exact hnot (hpass page List.mem_cons_self)
        · have hmono : (missing s.mem r [page]).card
              ≤ (missing s.mem r (page :: pages.take n)).card := by
            refine Finset.card_le_card fun p hp => ?_
            simp only [missing, Finset.mem_filter, List.mem_toFinset, List.flatMap_cons,
              List.flatMap_nil, List.append_nil, List.mem_append] at hp ⊢
            exact ⟨.inl hp.1, hp.2⟩
          rw [card_missing_singleton] at hmono
          omega

end Loop

/-! ### `map_pages` and `map_pages_untracked` -/

section Calls

variable {roots : Set Frame} {r : Frame} {flags : PageTableFlags} {page : Page} {n : ℕ}
  {mem : PhysMem} {q is : List TableIndex} {s s' : PagingState ProxyAllocator}

/-- Where nothing is missing and nothing is blocked there are tables. -/
lemma status_of_lack (hlack : lack mem r [] (upperIndices page) = 0)
    (hfree : status mem r (upperIndices page) ≠ .blocked) {p : List TableIndex} (hne : p ≠ [])
    (hp : p <+: upperIndices page) : status mem r p = .table := by
  rw [← card_missing_singleton, Finset.card_eq_zero, missing, Finset.filter_eq_empty_iff] at hlack
  have hmiss := hlack (show p ∈ ([page].flatMap tablePaths).toFinset by
    simpa using mem_tablePaths.mpr ⟨hne, hp⟩)
  obtain ⟨u, hu⟩ := hp
  cases hstatus : status mem r p with
  | table => rfl
  | missing => exact absurd hstatus hmiss
  | blocked =>
    rw [← hu, status_append_of_ne (by rw [hstatus]; nofun)] at hfree
    exact absurd hstatus hfree

/-- The other pages pass as before. -/
lemma WalkArrives.passes_iff (h : WalkArrives roots r flags (upperIndices page)
      (lack s.mem r [] (upperIndices page)) s s')
    (hleaf : flags.get .hugePage = false ∨ ∀ q, pageEntry s'.mem r q = pageEntry s.mem r q)
    (q : Page) : Passes r flags s'.mem q ↔ Passes r flags s.mem q := by
  have hblocked : status s'.mem r (upperIndices q) ≠ .blocked
      ↔ status s.mem r (upperIndices q) ≠ .blocked := by
    rw [h.walks _ (by simp [upperIndices])]
    split_ifs with hpre
    · have hsame : upperIndices q = upperIndices page := hpre.eq_of_length (by simp [upperIndices])
      rw [hsame]
      exact iff_of_true (by simp) h.free
    · rfl
  have hlack : flags.get .present = true ∨ lack s'.mem r [] (upperIndices q)
      = lack s.mem r [] (upperIndices q) := by
    refine h.present.imp_right fun hzero => lack_congr fun p hne hp => ?_
    rw [List.nil_append, h.walks p (hp.length_le.trans (by simp [upperIndices]))]
    split_ifs with hpre
    · exact (status_of_lack hzero h.free hne hpre).symm
    · rfl
  have hentry : flags.get .hugePage = false ∨ pageEntry s'.mem r q = pageEntry s.mem r q :=
    hleaf.imp_right fun hsame => hsame q
  rw [Passes, Passes, hblocked]
  rcases hlack with hp | hl <;> rcases hentry with hh | he
  · simp only [hp, hh, true_or]
  · simp only [hp, he, true_or]
  · simp only [hl, hh, true_or]
  · rw [hl, he]

/-- A frame for the page is taken. -/
lemma Tidy.take_frame (h : s.Tidy roots) (hpos : 0 < s.available) :
    ∃ f a, AllocateFrame.allocateFrame s.allocator = (some f, a) ∧ f.Physical
      ∧ Tidy s.mem a.frameAllocator roots
      ∧ (PagingState.mk s.mem a).available + 1 = s.available := by
  rcases allocateFrame_available h.tables.hint with ⟨hnone, -⟩ | ⟨f, a, hal, hcount⟩
  · exact absurd hnone hpos.ne'
  · refine ⟨f, a, hal, h.physical hal, ?_, hcount⟩
    obtain ⟨k, hk, -, -, rfl⟩ := proxyAllocator_some h.tables.hint hal
    exact ⟨h.tables.allocate hk, h.parents⟩

/-- Without a frame the unwrap panics. -/
lemma Tidy.unwrapFrame_panics (h : s.Tidy roots) (hzero : s.available = 0) (p : Panic) :
    unwrapFrame p s = .error p := by
  rcases allocateFrame_available h.tables.hint with ⟨-, hal⟩ | ⟨f, a, -, hcount⟩
  · have halloc : allocateFrame s = .ok (.ok none, s) := by simp only [allocateFrame, hal]
    rw [unwrapFrame, Comp.bind_apply_ok halloc]
    rfl
  · exact absurd (hcount.trans hzero) (Nat.succ_ne_zero _)

/-- **`map_pages`** panics exactly if the frames run out at a page. -/
lemma mapPagesLoop_exhausted_iff (h : s.Tidy roots) (hr : r ∈ roots)
    (hapart : (pages.take (s.available + 1)).Pairwise fun p q => ¬MemoryState.SameIndices p q) :
    mapPagesLoop r flags pages s = .error .mapPagesFrame
      ↔ RunsOutAtPage (Passes r flags) r s.mem s.available pages := by
  refine loop_exhausted_iff (mapPagesLoop r flags) (fun s => by simp [mapPagesLoop])
    (fun s page pages h hzero => ?_) (fun s page pages h hpos => ?_) h hapart
  · rw [mapPagesLoop, Comp.bind_apply_panic (h.unwrapFrame_panics hzero _)]
  · obtain ⟨f, a, hal, hphys, htidy, hcount⟩ := h.take_frame hpos
    -- the loop goes on also where the page was mapped before
    have hgoes : ∀ {res : Except MappingError Unit} {s₁},
        mapTo r page f flags ⟨s.mem, a⟩ = .ok (res, s₁) →
        res = .ok () ∨ res = .error (.pageAlreadyMapped f) →
        mapPagesLoop r flags (page :: pages) s = mapPagesLoop r flags pages s₁ := by
      intro res s₁ hmap hres
      rw [mapPagesLoop, Comp.bind_apply_ok (unwrapFrame_apply hal)]
      refine (Comp.bind_apply_ok (Comp.attempt_apply hmap)).trans ?_
      rcases hres with rfl | rfl
      · rfl
      · simp only [if_true]
    have hstops : ∀ {e s₁}, mapTo r page f flags ⟨s.mem, a⟩ = .ok (.error e, s₁) →
        e ≠ .pageAlreadyMapped f →
        mapPagesLoop r flags (page :: pages) s ≠ .error .mapPagesFrame := by
      intro e s₁ hmap hne
      rw [mapPagesLoop, Comp.bind_apply_ok (unwrapFrame_apply hal)]
      refine ne_of_eq_of_ne (Comp.bind_apply_ok (Comp.attempt_apply hmap)) ?_
      simp [hne]
    rcases mapTo_outcome (s := ⟨s.mem, a⟩) htidy hr hphys with
      ⟨res, s₁, hmap, harr, hres⟩ | ⟨hless, s₁, hmap⟩ | ⟨hnot, hstuck⟩
    · refine .inl ⟨s₁, hgoes hmap (hres.imp And.left And.left), ⟨harr.free, harr.present, ?_⟩,
        harr.tidy, ?_, harr.walks, fun q _ => harr.passes_iff ?_ q⟩
      · exact hres.imp (fun hok => hok.2.2) fun herr => herr.2.1
      · have hleft := harr.count
        simp only at hleft
        omega
      · exact hres.imp (fun hok => hok.2.2) fun herr => herr.2.2
    · refine .inr ⟨hstops hmap (by simp), .inr ?_⟩
      simp only at hless
      omega
    · refine .inr ⟨?_, .inl hnot⟩
      rcases hstuck with ⟨s₁, hmap⟩ | ⟨p, hmap, hne⟩
      · exact hstops hmap (by simp)
      · rw [mapPagesLoop, Comp.bind_apply_ok (unwrapFrame_apply hal),
          Comp.bind_apply_panic (Comp.attempt_apply_panic hmap)]
        simpa using hne

/-- The page can be mapped, and is not mapped yet. -/
def PassesNew (r : Frame) (flags : PageTableFlags) (mem : PhysMem) (page : Page) : Prop :=
  Passes r flags mem page ∧ pageEntry mem r page = none

instance (r : Frame) (flags : PageTableFlags) (mem : PhysMem) (page : Page) :
    Decidable (PassesNew r flags mem page) :=
  inferInstanceAs (Decidable (_ ∧ _))

/-- **`map_pages_untracked`** panics exactly if the frames run out at a page. -/
lemma mapPagesUntrackedLoop_exhausted_iff (h : s.Tidy roots) (hr : r ∈ roots)
    (hapart : (pages.take (s.available + 1)).Pairwise fun p q => ¬MemoryState.SameIndices p q) :
    mapPagesUntrackedLoop r flags pages s = .error .mapPagesFrame
      ↔ RunsOutAtPage (PassesNew r flags) r s.mem s.available pages := by
  refine loop_exhausted_iff (mapPagesUntrackedLoop r flags) (fun s => by simp [mapPagesUntrackedLoop])
    (fun s page pages h hzero => ?_) (fun s page pages h hpos => ?_) h hapart
  · rw [mapPagesUntrackedLoop, Comp.bind_apply_panic (h.unwrapFrame_panics hzero _)]
  · obtain ⟨f, a, hal, hphys, htidy, hcount⟩ := h.take_frame hpos
    have hframe : mapPagesUntrackedLoop r flags (page :: pages) s
        = (do
            mapTo r page f flags
            mapPagesUntrackedLoop r flags pages) ⟨s.mem, a⟩ := by
      rw [mapPagesUntrackedLoop, Comp.bind_apply_ok (unwrapFrame_apply hal)]
    rw [hframe]
    rcases mapTo_outcome (s := ⟨s.mem, a⟩) htidy hr hphys with
      ⟨res, s₁, hmap, harr, ⟨rfl, hnone, hhuge⟩ | ⟨rfl, hsome, -⟩⟩ | ⟨hless, s₁, hmap⟩
      | ⟨hnot, hstuck⟩
    · refine .inl ⟨s₁, Comp.bind_apply_ok hmap, ⟨⟨harr.free, harr.present, .inl hhuge⟩, hnone⟩,
        harr.tidy, ?_, harr.walks, fun q hq => ?_⟩
      · have hleft := harr.count
        simp only at hleft
        omega
      · rw [PassesNew, PassesNew, harr.passes_iff (.inl hhuge) q]
        have hins := (htidy.mapTo_inserted (s := ⟨s.mem, a⟩) hr hmap).inserted
        refine and_congr_right fun _ => ⟨hins.none_kept hr, fun hno => ?_⟩
        cases hentry : pageEntry s₁.mem r q with
        | none => rfl
        | some e =>
          rcases hins.added r hr _ _ e rfl hentry with hold | ⟨p, ⟨rfl, -⟩, hup, hl1, -⟩
          · rw [show pageEntry s.mem r q = some e from hold] at hno
            cases hno
          · exact absurd ⟨hup.symm, hl1.symm⟩ hq
    · refine .inr ⟨?_, .inl fun hpass => ?_⟩
      · rw [Comp.bind_apply_error hmap]
        simp
      · rw [hpass.2] at hsome
        cases hsome
    · refine .inr ⟨?_, .inr ?_⟩
      · rw [Comp.bind_apply_error hmap]
        simp
      · simp only at hless
        omega
    · refine .inr ⟨?_, .inl fun hpass => hnot hpass.1⟩
      rcases hstuck with ⟨s₁, hmap⟩ | ⟨p, hmap, hne⟩
      · rw [Comp.bind_apply_error hmap]
        simp
      · rw [Comp.bind_apply_panic hmap]
        simpa using hne

end Calls

namespace MemoryState

variable {m : MemoryState} {id : SpaceId} {a : AddressSpace} {name : String} {pages : PageRange}
  {flags : PageTableFlags}

instance {P : PhysMem → Page → Prop} [∀ mem page, Decidable (P mem page)] (r : Frame)
    (mem : PhysMem) (free : ℕ) (pages : List Page) : Decidable (RunsOutAtPage P r mem free pages) :=
  inferInstanceAs (Decidable (∃ n < pages.length, _))

lemma withPageTable_panics (m : MemoryState) (id : SpaceId)
    {c : Comp Panic (PagingState ProxyAllocator) MappingError Unit} {p : Panic} :
    m.withPageTable id a c = .error p ↔ c (m.paging a) = .error p := by
  rw [withPageTable]
  split
  · next hc => simp [hc]
  · next hc => simp [hc]

lemma mapPages_panics {p : Panic} : m.mapPages id a name pages flags = .error p
    ↔ mapPagesLoop a.frame flags pages.pages (m.paging a) = .error p := by
  rw [mapPages, ← withPageTable_panics m id]
  cases m.withPageTable id a (mapPagesLoop a.frame flags pages.pages) with
  | error q => rfl
  | ok x => simp [Except.map]

/-- The pages that the free frames can be enough for have different indices. -/
lemma pairwise_available (g : FrameAllocator) (pages : PageRange) :
    (pages.pages.take (g.available + 1)).Pairwise fun p q => ¬SameIndices p q := by
  have hle : g.available ≤ maxFrames := (Nat.min_le_right _ _).trans (Bitmap.clearCount_le _ _)
  exact pages.pairwise_not_sameIndices ((Nat.succ_le_succ hle).trans (by decide))

/-- The frames ran out during the call. -/
def RanOut (call : Except Panic (Except MappingError Unit × MemoryState)) : Prop :=
  call = .error .mapPagesFrame ∨ ∃ m', call = .ok (.error .frameAllocationFailed, m')

/-- If the frames run out, the call returns an error. -/
def ExhaustionFails (call : Except Panic (Except MappingError Unit × MemoryState)) : Prop :=
  RanOut call → ∃ m', call = .ok (.error .frameAllocationFailed, m')

lemma exhaustionFails_iff {call : Except Panic (Except MappingError Unit × MemoryState)} :
    ExhaustionFails call ↔ call ≠ .error .mapPagesFrame := by
  constructor
  · rintro h rfl
    obtain ⟨m', hc⟩ := h (.inl rfl)
    cases hc
  · rintro h (hc | hc)
    · exact absurd hc h
    · exact hc

end MemoryState

end Rhubarb
