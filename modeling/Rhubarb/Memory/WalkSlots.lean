import Rhubarb.Memory.Tables

/-!
The entries on the walk of a page, and what the page-table functions do to them.

A walk passes one entry per level until it comes to a huge leaf, to an unused entry or to the
last level.  A function that links tables and rewrites flags below a root leaves the tables of
every walk where they are; what it changes is told by a function on entries (`Rewrites`), and
such changes compose.

* `slots`, `Dead`, `leaf`: the entries of a walk, the walks that end at an unused entry, and
  the entry that maps a page, which may be huge.
* `Rewrites.slots_eq`, `Rewrites.dead`, `Rewrites.leaf_eq`: walks after a change.
* `Hierarchy.nextTable_rewrites`: `next_table` changes the entry it was called on only.
-/

namespace Rhubarb

open Foundations Level4PageTable Levels Radix

/-! ### Walks -/

/-- An entry, by the frame of its table and its index. -/
abbrev Slot : Type := Frame × TableIndex

/-- The indices of a page, from the root down. -/
def Page.indices (page : Page) : List TableIndex :=
  [page.l4Index, page.l3Index, page.l2Index, page.l1Index]

/-- The entries that a walk passes. -/
def slots (mem : PhysMem) : Frame → List TableIndex → List Slot
  | _, [] => []
  | t, i :: is =>
    (t, i) :: match (mem t i).table with
      | some g => slots mem g is
      | none => []

/-- The walk comes to an unused entry. -/
def Dead (mem : PhysMem) (t : Frame) (is : List TableIndex) : Prop :=
  ∃ slot ∈ slots mem t is, (mem slot.1 slot.2).isUnused = true

instance (mem : PhysMem) (t : Frame) (is : List TableIndex) : Decidable (Dead mem t is) :=
  inferInstanceAs (Decidable (∃ slot ∈ slots mem t is, _))

/-- The entry that maps a page, with the number of levels that are left below it. -/
structure Leaf where
  level : ℕ
  table : Frame
  index : TableIndex
  deriving DecidableEq

/-- The leaf below a table; an entry of the last level is one if it is used. -/
def leafBelow (mem : PhysMem) : Frame → List TableIndex → Option Leaf
  | _, [] => none
  | t, [i] => if (mem t i).isUnused then none else some ⟨0, t, i⟩
  | t, i :: j :: is =>
    if (mem t i).isHugePage then some ⟨(j :: is).length, t, i⟩
    else
      match (mem t i).table with
      | some g => leafBelow mem g (j :: is)
      | none => none

variable {slot : Slot} {page : Page} {l : Leaf} {F : PageTableEntry → PageTableEntry}

/-- The leaf of a page: an entry of a level-1 table, or a huge leaf of the second or third
level. -/
def leaf (mem : PhysMem) (root : Frame) (page : Page) : Option Leaf :=
  match (mem root page.l4Index).table with
  | some l3 => leafBelow mem l3 [page.l3Index, page.l2Index, page.l1Index]
  | none => none

section Walks

variable {mem : PhysMem} {t g root : Frame} {i j : TableIndex} {is : List TableIndex}

lemma slots_cons_some (h : (mem t i).table = some g) :
    slots mem t (i :: is) = (t, i) :: slots mem g is := by
  rw [slots, h]

lemma slots_cons_none (h : (mem t i).table = none) : slots mem t (i :: is) = [(t, i)] := by
  rw [slots, h]

lemma slots_singleton : slots mem t [i] = [(t, i)] := by
  rw [slots]
  split <;> rfl

lemma mem_slots_head : (t, i) ∈ slots mem t (i :: is) := by
  rw [slots]
  exact List.mem_cons_self

/-- A walk is dead if its first entry is unused or the walk below it is dead. -/
lemma dead_cons : Dead mem t (i :: is)
    ↔ (mem t i).isUnused = true ∨ ∃ g, (mem t i).table = some g ∧ Dead mem g is := by
  cases ht : (mem t i).table with
  | none => simp [Dead, slots_cons_none ht]
  | some g => simp [Dead, slots_cons_some ht]

lemma not_dead_cons : ¬Dead mem t (i :: is)
    ↔ (mem t i).isUnused = false ∧ ∀ g, (mem t i).table = some g → ¬Dead mem g is := by
  rw [dead_cons, not_or, Bool.not_eq_true, not_exists]
  simp only [not_and]

/-- The tables of a walk are as far below the roots as they come in it. -/
lemma level_of_mem_slots {roots : Set Frame} {d : ℕ} (ht : Level (edges mem) roots d t)
    (h : slot ∈ slots mem t is) :
    ∃ k < is.length, Level (edges mem) roots (d + k) slot.1 := by
  induction is generalizing t d with
  | nil => cases h
  | cons i is ih =>
    rw [slots] at h
    rcases List.mem_cons.mp h with rfl | h
    · exact ⟨0, by simp, ht⟩
    · cases hg : (mem t i).table with
      | none =>
        rw [hg] at h
        cases h
      | some g =>
        rw [hg] at h
        have hlevel : Level (edges mem) roots (d + 1) g := ⟨t, i, ht, hg⟩
        obtain ⟨k, hk, hl⟩ := ih hlevel h
        exact ⟨k + 1, by simpa using hk, by rwa [show d + (k + 1) = d + 1 + k by omega]⟩

/-- Nothing is mapped where a walk is dead. -/
lemma leafBelow_of_dead (h : Dead mem t is) : leafBelow mem t is = none := by
  induction is generalizing t with
  | nil => rfl
  | cons i is ih =>
    rw [dead_cons] at h
    cases is with
    | nil =>
      rcases h with hun | ⟨g, -, hd⟩
      · rw [leafBelow, if_pos hun]
      · obtain ⟨slot, hs, -⟩ := hd
        cases hs
    | cons j is =>
      rcases h with hun | ⟨g, hg, hd⟩
      · rw [leafBelow, eq_unused hun, table_unused]
        rfl
      · have hhuge : (mem t i).isHugePage = false := by
          have := PageTableEntry.frame_eq_ok (PageTableEntry.table_eq_some.mp hg)
          exact this.2.1
        rw [leafBelow, hhuge, hg]
        exact ih hd

lemma leaf_of_dead (h : Dead mem root page.indices) :
    leaf mem root page = none := by
  rw [Page.indices, dead_cons] at h
  rcases h with hun | ⟨g, hg, hd⟩
  · rw [leaf, eq_unused hun, table_unused]
  · rw [leaf, hg]
    exact leafBelow_of_dead hd

/-- The leaf is on the walk. -/
lemma mem_slots_of_leafBelow (h : leafBelow mem t is = some l) :
    (l.table, l.index) ∈ slots mem t is := by
  induction is generalizing t with
  | nil => cases h
  | cons i is ih =>
    cases is with
    | nil =>
      rw [leafBelow] at h
      split_ifs at h
      cases h
      exact mem_slots_head
    | cons j is =>
      rw [leafBelow] at h
      split_ifs at h
      · cases h
        exact mem_slots_head
      · cases hg : (mem t i).table with
        | none =>
          rw [hg] at h
          cases h
        | some g =>
          rw [hg] at h
          rw [slots_cons_some hg]
          exact List.mem_cons_of_mem _ (ih h)

lemma mem_slots_of_leaf (h : leaf mem root page = some l) :
    (l.table, l.index) ∈ slots mem root page.indices := by
  rw [leaf] at h
  cases hg : (mem root page.l4Index).table with
  | none =>
    rw [hg] at h
    cases h
  | some g =>
    rw [hg] at h
    rw [Page.indices, slots_cons_some hg]
    exact List.mem_cons_of_mem _ (mem_slots_of_leafBelow h)

lemma not_dead_of_leaf (h : leaf mem root page = some l) :
    ¬Dead mem root page.indices := by
  intro hd
  rw [leaf_of_dead hd] at h
  cases h

end Walks

/-! ### Changes below a root -/

/-- **A change of entries below a root**: the used entries become what `f` says, lead where they
led and stay huge or not; behind the unused ones there is still nothing, and what tables there
are behind them are new. -/
structure Rewrites (root : Frame) (f : Frame → TableIndex → PageTableEntry → PageTableEntry)
    (mem mem' : PhysMem) : Prop where
  entry : ∀ d ≤ 3, ∀ t, Level (edges mem) {root} d t → ∀ i, (mem t i).isUnused = false →
    mem' t i = f t i (mem t i)
  used : ∀ d ≤ 3, ∀ t, Level (edges mem) {root} d t → ∀ i, (mem t i).isUnused = false →
    (mem' t i).isUnused = false
  table : ∀ d < 3, ∀ t, Level (edges mem) {root} d t → ∀ i, (mem t i).isUnused = false →
    (mem' t i).table = (mem t i).table
  huge : ∀ d < 3, ∀ t, Level (edges mem) {root} d t → ∀ i, (mem t i).isUnused = false →
    (mem' t i).isHugePage = (mem t i).isHugePage
  unused : ∀ d ≤ 3, ∀ t, Level (edges mem) {root} d t → ∀ i, (mem t i).isUnused = true →
    ∀ is, is.length = 3 - d → Dead mem' t (i :: is)
  fresh : ∀ d ≤ 3, ∀ t, Level (edges mem) {root} d t → ∀ i, (mem t i).isUnused = true →
    ∀ is, d + is.length ≤ 3 → ∀ slot ∈ slots mem' t (i :: is),
      slot = (t, i) ∨ ¬Node (edges mem) {root} 3 slot.1

namespace Rewrites

variable {root t : Frame} {f f' : Frame → TableIndex → PageTableEntry → PageTableEntry}
  {mem mem' mem'' : PhysMem} {d : ℕ} {is : List TableIndex}

lemma level (h : Rewrites root f mem mem') (hd : d ≤ 3) (ht : Level (edges mem) {root} d t) :
    Level (edges mem') {root} d t := by
  refine level_of_edges (fun k hk u hu i v hv => ?_) hd ht
  have hused : (mem u i).isUnused = false := by
    have := PageTableEntry.frame_eq_ok (PageTableEntry.table_eq_some.mp hv)
    exact PageTableEntry.isUnused_of_isPresent this.1
  rw [edges, h.table k hk u hu i hused]
  exact hv

/-- A walk that is not dead passes the same entries. -/
lemma slots_eq_below (h : Rewrites root f mem mem') (hlen : d + is.length ≤ 4)
    (ht : Level (edges mem) {root} d t) (hlive : ¬Dead mem t is) :
    slots mem' t is = slots mem t is ∧ ¬Dead mem' t is := by
  induction is generalizing d t with
  | nil => exact ⟨rfl, by rintro ⟨slot, hs, -⟩; cases hs⟩
  | cons i is ih =>
    rw [List.length_cons] at hlen
    obtain ⟨hused, hrest⟩ := not_dead_cons.mp hlive
    have hused' := h.used d (by omega) t ht i hused
    cases is with
    | nil =>
      refine ⟨?_, ?_⟩
      · rw [slots_singleton, slots_singleton]
      · rw [not_dead_cons]
        exact ⟨hused', fun g _ => by rintro ⟨slot, hs, -⟩; cases hs⟩
    | cons j is =>
      rw [List.length_cons] at hlen
      have htable := h.table d (by omega) t ht i hused
      cases hg : (mem t i).table with
      | none =>
        rw [slots_cons_none hg, slots_cons_none (htable.trans hg)]
        refine ⟨rfl, not_dead_cons.mpr ⟨hused', fun g hg' => ?_⟩⟩
        rw [htable, hg] at hg'
        cases hg'
      | some g =>
        have hlevel : Level (edges mem) {root} (d + 1) g := ⟨t, i, ht, hg⟩
        obtain ⟨hs, hl⟩ := ih (by rw [List.length_cons]; omega) hlevel (hrest g hg)
        rw [slots_cons_some hg, slots_cons_some (htable.trans hg), hs]
        refine ⟨rfl, not_dead_cons.mpr ⟨hused', fun g' hg' => ?_⟩⟩
        rw [htable, hg] at hg'
        cases hg'
        exact hl

/-- A walk passes the entries it passed, and after them entries of new tables. -/
lemma mem_slots_below (h : Rewrites root f mem mem') (hlen : d + is.length ≤ 4)
    (ht : Level (edges mem) {root} d t) :
    (slot ∈ slots mem t is → slot ∈ slots mem' t is)
      ∧ (slot ∈ slots mem' t is → slot ∈ slots mem t is ∨ ¬Node (edges mem) {root} 3 slot.1) := by
  induction is generalizing d t with
  | nil => exact ⟨id, .inl⟩
  | cons i is ih =>
    rw [List.length_cons] at hlen
    cases hun : (mem t i).isUnused with
    | true =>
      have hnone : (mem t i).table = none := by rw [eq_unused hun, table_unused]
      rw [slots_cons_none hnone]
      refine ⟨fun hs => ?_, fun hs => ?_⟩
      · rw [List.mem_singleton.mp hs]
        exact mem_slots_head
      · exact (h.fresh d (by omega) t ht i hun is (by omega) slot hs).imp_left
          List.mem_singleton.mpr
    | false =>
      cases is with
      | nil =>
        rw [slots_singleton, slots_singleton]
        exact ⟨id, .inl⟩
      | cons j is =>
        rw [List.length_cons] at hlen
        have htable := h.table d (by omega) t ht i hun
        cases hg : (mem t i).table with
        | none =>
          rw [slots_cons_none hg, slots_cons_none (htable.trans hg)]
          exact ⟨id, .inl⟩
        | some g =>
          have hlevel : Level (edges mem) {root} (d + 1) g := ⟨t, i, ht, hg⟩
          obtain ⟨hto, hfrom⟩ := ih (by rw [List.length_cons]; omega) hlevel
          rw [slots_cons_some hg, slots_cons_some (htable.trans hg), List.mem_cons, List.mem_cons]
          exact ⟨Or.imp_right hto, fun hs => hs.elim (fun hs => .inl (.inl hs))
            fun hs => (hfrom hs).imp_left Or.inr⟩

/-- A dead walk stays dead. -/
lemma dead_below (h : Rewrites root f mem mem') (hlen : d + is.length = 4)
    (ht : Level (edges mem) {root} d t) (hdead : Dead mem t is) : Dead mem' t is := by
  induction is generalizing d t with
  | nil =>
    obtain ⟨slot, hs, -⟩ := hdead
    cases hs
  | cons i is ih =>
    rw [List.length_cons] at hlen
    cases hun : (mem t i).isUnused with
    | true => exact h.unused d (by omega) t ht i hun is (by omega)
    | false =>
      rcases dead_cons.mp hdead with hc | ⟨g, hg, hd⟩
      · rw [hun] at hc
        cases hc
      · have hlt : d < 3 := by
          by_contra hc
          have hnil : is = [] := List.length_eq_zero_iff.mp (by omega)
          obtain ⟨slot, hs, -⟩ := hnil ▸ hd
          cases hs
        have hlevel : Level (edges mem) {root} (d + 1) g := ⟨t, i, ht, hg⟩
        refine dead_cons.mpr (.inr ⟨g, ?_, ih (by omega) hlevel hd⟩)
        rw [h.table d hlt t ht i hun, hg]

lemma leafBelow_eq (h : Rewrites root f mem mem') (hlen : d + is.length = 4)
    (ht : Level (edges mem) {root} d t) (hlive : ¬Dead mem t is) :
    leafBelow mem' t is = leafBelow mem t is := by
  induction is generalizing d t with
  | nil => rfl
  | cons i is ih =>
    rw [List.length_cons] at hlen
    obtain ⟨hused, hrest⟩ := not_dead_cons.mp hlive
    cases is with
    | nil => rw [leafBelow, leafBelow, hused, h.used d (by omega) t ht i hused]
    | cons j is =>
      rw [List.length_cons] at hlen
      rw [leafBelow, leafBelow, h.huge d (by omega) t ht i hused, h.table d (by omega) t ht i hused]
      cases hg : (mem t i).table with
      | none => rfl
      | some g =>
        have hlevel : Level (edges mem) {root} (d + 1) g := ⟨t, i, ht, hg⟩
        have hb := ih (by rw [List.length_cons]; omega) hlevel (hrest g hg)
        simp only [hb]

section Pages

variable {page : Page} (h : Rewrites root f mem mem')
include h

lemma slots_eq (hlive : ¬Dead mem root page.indices) :
    slots mem' root page.indices = slots mem root page.indices :=
  (h.slots_eq_below (d := 0) (by simp [Page.indices]) rfl hlive).1

lemma not_dead (hlive : ¬Dead mem root page.indices) : ¬Dead mem' root page.indices :=
  (h.slots_eq_below (d := 0) (by simp [Page.indices]) rfl hlive).2

lemma dead (hdead : Dead mem root page.indices) : Dead mem' root page.indices :=
  h.dead_below (d := 0) (by simp [Page.indices]) rfl hdead

/-- **Every page has the leaf it had.** -/
lemma leaf_eq : leaf mem' root page = leaf mem root page := by
  by_cases hdead : Dead mem root page.indices
  · rw [leaf_of_dead hdead, leaf_of_dead (h.dead hdead)]
  · obtain ⟨hused, hrest⟩ := not_dead_cons.mp hdead
    have hroot : Level (edges mem) {root} 0 root := rfl
    rw [leaf, leaf, h.table 0 (by omega) root hroot _ hused]
    cases hg : (mem root page.l4Index).table with
    | none => rfl
    | some g =>
      exact h.leafBelow_eq (d := 1) (by simp) ⟨root, _, hroot, hg⟩ (hrest g hg)

/-- What became of an entry on the walk of a page. -/
lemma entry_of_mem (hlive : ¬Dead mem root page.indices) (hs : slot ∈ slots mem root page.indices) :
    mem' slot.1 slot.2 = f slot.1 slot.2 (mem slot.1 slot.2) := by
  have hroot : Level (edges mem) {root} 0 root := rfl
  obtain ⟨k, hk, hlevel⟩ := level_of_mem_slots hroot hs
  have hk : k < 4 := hk
  refine h.entry (0 + k) (by omega) slot.1 hlevel slot.2 ?_
  by_contra hc
  exact hlive ⟨slot, hs, by simpa using hc⟩

end Pages

lemma trans (h : Rewrites root f mem mem') (h' : Rewrites root f' mem' mem'') :
    Rewrites root (fun t i e => f' t i (f t i e)) mem mem'' where
  entry := fun d hd t ht i hu => by
    rw [h'.entry d hd t (h.level hd ht) i (h.used d hd t ht i hu), h.entry d hd t ht i hu]
  used := fun d hd t ht i hu => h'.used d hd t (h.level hd ht) i (h.used d hd t ht i hu)
  table := fun d hd t ht i hu =>
    (h'.table d hd t (h.level hd.le ht) i (h.used d hd.le t ht i hu)).trans (h.table d hd t ht i hu)
  huge := fun d hd t ht i hu =>
    (h'.huge d hd t (h.level hd.le ht) i (h.used d hd.le t ht i hu)).trans (h.huge d hd t ht i hu)
  unused := fun d hd t ht i hu is hlen =>
    h'.dead_below (by rw [List.length_cons]; omega) (h.level hd ht)
      (h.unused d hd t ht i hu is hlen)
  fresh := fun d hd t ht i hu is hlen slot hs => by
    rcases (h'.mem_slots_below (by rw [List.length_cons]; omega) (h.level hd ht)).2 hs with hs | hs
    · exact h.fresh d hd t ht i hu is hlen slot hs
    · exact .inr fun ⟨k, hk, hl⟩ => hs ⟨k, hk, h.level hk hl⟩

lemma refl (root : Frame) (mem : PhysMem) : Rewrites root (fun _ _ e => e) mem mem where
  entry := fun _ _ _ _ _ _ => rfl
  used := fun _ _ _ _ _ hu => hu
  table := fun _ _ _ _ _ _ => rfl
  huge := fun _ _ _ _ _ _ => rfl
  unused := fun _ _ _ _ _ hu _ _ => dead_cons.mpr (.inl hu)
  fresh := fun _ _ _ _ _ hu _ _ _ hs => by
    rw [slots_cons_none (by rw [eq_unused hu, table_unused])] at hs
    exact .inl (List.mem_singleton.mp hs)

lemma congr (h : Rewrites root f mem mem')
    (hf : ∀ d ≤ 3, ∀ t, Level (edges mem) {root} d t → ∀ i, (mem t i).isUnused = false →
      f t i (mem t i) = f' t i (mem t i)) : Rewrites root f' mem mem' :=
  ⟨fun d hd t ht i hu => (h.entry d hd t ht i hu).trans (hf d hd t ht i hu), h.used, h.table,
    h.huge, h.unused, h.fresh⟩

end Rewrites

/-! ### The actions of a walk -/

/-- The change of one entry. -/
def editAt (t : Frame) (i : TableIndex) (F : PageTableEntry → PageTableEntry) :
    Frame → TableIndex → PageTableEntry → PageTableEntry := fun u j e =>
  if u = t ∧ j = i then F e else e

lemma editAt_self (t : Frame) (i : TableIndex) (F : PageTableEntry → PageTableEntry)
    (e : PageTableEntry) : editAt t i F t i e = F e := by
  rw [editAt, if_pos ⟨rfl, rfl⟩]

lemma editAt_of_ne {t u : Frame} {i j : TableIndex} (h : ¬(u = t ∧ j = i)) (e : PageTableEntry) :
    editAt t i F u j e = e := by
  rw [editAt, if_neg h]

namespace Hierarchy

variable {mem : PhysMem} {root t g : Frame} {i : TableIndex} {d : ℕ}

/-- A used entry is replaced by one that is used and, above the last level, leads where it led
and is huge if it was. -/
lemma rewrites_write (h : Hierarchy mem {root}) (hd : d ≤ 3) (ht : Level (edges mem) {root} d t)
    (hused : (F (mem t i)).isUnused = false)
    (hupper : d < 3 → (F (mem t i)).table = (mem t i).table ∧ (F (mem t i)).isHugePage = (mem t
      i).isHugePage) (hold : (mem t i).isUnused = false) :
    Rewrites root (editAt t i F) mem (write mem t i (F (mem t i))) := by
  have hsame : ∀ k ≤ 3, ∀ {u}, Level (edges mem) {root} k u → u = t → k = d := by
    rintro k hk u hu rfl
    exact h.levelled k d u hk hd hu ht
  refine ⟨fun k hk u hu j hj => ?_, fun k hk u hu j hj => ?_, fun k hk u hu j hj => ?_,
    fun k hk u hu j hj => ?_, fun k hk u hu j hj is hlen => ?_,
    fun k hk u hu j hj is hlen slot hs => ?_⟩ <;> by_cases hslot : u = t ∧ j = i
  · obtain ⟨rfl, rfl⟩ := hslot
    rw [write_self, editAt_self]
  · rw [write_of_ne hslot, editAt_of_ne hslot]
  · obtain ⟨rfl, rfl⟩ := hslot
    rw [write_self, hused]
  · rw [write_of_ne hslot, hj]
  · have hkd := hsame k hk.le hu hslot.1
    obtain ⟨rfl, rfl⟩ := hslot
    rw [write_self, (hupper (by omega)).1]
  · rw [write_of_ne hslot]
  · have hkd := hsame k hk.le hu hslot.1
    obtain ⟨rfl, rfl⟩ := hslot
    rw [write_self, (hupper (by omega)).2]
  · rw [write_of_ne hslot]
  · obtain ⟨rfl, rfl⟩ := hslot
    rw [hold] at hj
    cases hj
  · exact dead_cons.mpr (.inl (by rw [write_of_ne hslot, hj]))
  · obtain ⟨rfl, rfl⟩ := hslot
    rw [hold] at hj
    cases hj
  · rw [slots_cons_none (by rw [write_of_ne hslot, eq_unused hj, table_unused])] at hs
    exact .inl (List.mem_singleton.mp hs)

/-- A blank table is hung below an unused entry. -/
lemma rewrites_link (h : Hierarchy mem {root}) (hd : d < 3) (ht : Level (edges mem) {root} d t)
    (hun : (mem t i).isUnused = true) {e : PageTableEntry} (he : e.table = some g)
    (hg : ¬Node (edges mem) {root} 3 g) :
    Rewrites root (fun _ _ e => e) mem (Radix.link mem t i e g .unused) := by
  have hne : ∀ k ≤ 3, ∀ {u}, Level (edges mem) {root} k u → u ≠ g := by
    rintro k hk u hu rfl
    exact hg ⟨k, hk, hu⟩
  have hold : ∀ k ≤ 3, ∀ u, Level (edges mem) {root} k u → ∀ j, (mem u j).isUnused = false →
      Radix.link mem t i e g .unused u j = mem u j := by
    intro k hk u hu j hj
    refine link_of_ne (hne k hk hu) ?_
    rintro ⟨rfl, rfl⟩
    rw [hun] at hj
    cases hj
  refine ⟨hold, fun k hk u hu j hj => by rw [hold k hk u hu j hj, hj],
    fun k hk u hu j hj => by rw [hold k hk.le u hu j hj],
    fun k hk u hu j hj => by rw [hold k hk.le u hu j hj], fun k hk u hu j hj is hlen => ?_,
    fun k hk u hu j hj is hlen slot hs => ?_⟩ <;> by_cases hslot : u = t ∧ j = i
  · -- the walk goes on into the blank table
    obtain ⟨rfl, rfl⟩ := hslot
    have hkd := h.levelled k d u hk hd.le hu ht
    refine dead_cons.mpr (.inr ⟨g, ?_, ?_⟩)
    · rw [link_self (hne k hk hu), he]
    · cases is with
      | nil =>
        rw [List.length_nil] at hlen
        omega
      | cons j' is =>
        refine dead_cons.mpr (.inl ?_)
        rw [Radix.link, clear_self]
        rfl
  · refine dead_cons.mpr (.inl ?_)
    rw [link_of_ne (hne k hk hu) hslot, hj]
  · obtain ⟨rfl, rfl⟩ := hslot
    have hto : (Radix.link mem u j e g .unused u j).table = some g := by
      rw [link_self (hne k hk hu), he]
    rw [slots_cons_some hto] at hs
    refine (List.mem_cons.mp hs).imp_right fun hs => ?_
    cases is with
    | nil => cases hs
    | cons j' is =>
      have hblank : (Radix.link mem u j e g .unused g j').table = none := by
        rw [Radix.link, clear_self, table_unused]
      rw [slots_cons_none hblank] at hs
      rw [List.mem_singleton.mp hs]
      exact hg
  · have hnone : (Radix.link mem t i e g .unused u j).table = none := by
      rw [link_of_ne (hne k hk hu) hslot, eq_unused hj, table_unused]
    rw [slots_cons_none hnone] at hs
    exact .inl (List.mem_singleton.mp hs)

variable {A : Type} [AllocateFrame A] {s s' : PagingState A} {flags : PageTableFlags}

/-- **`next_table`** adds flags to the entry it was called on, if that was used, and otherwise
hangs a blank table below it. -/
lemma nextTable_rewrites (h : Hierarchy s.mem {root}) (hd : d < 3)
    (ht : Level (edges s.mem) {root} d t) (hh : flags.get .hugePage = false)
    (hfresh : ∀ f a g, AllocateFrame.allocateFrame s.allocator = (some f, a) →
      (PageTableEntry.ofFrame f flags).frame = .ok (.ok g) → ¬Node (edges s.mem) {root} 3 g)
    {res : Except MappingError Frame}
    (hnext : nextTable t i flags s = .ok (res, s')) :
    Rewrites root (editAt t i fun e => withFlags e flags) s.mem s'.mem
      ∧ ∀ g, res = .ok g → (s.mem t i).table = some g
        ∨ (s.mem t i).isUnused = true ∧ ¬Node (edges s.mem) {root} 3 g := by
  have hunused : (s.mem t i).isUnused = true → ∀ k ≤ 3, ∀ u, Level (edges s.mem) {root} k u →
      ∀ j, (s.mem u j).isUnused = false →
        s.mem u j = editAt t i (fun e => withFlags e flags) u j (s.mem u j) := by
    intro hun k hk u hu j hj
    rw [editAt_of_ne]
    rintro ⟨rfl, rfl⟩
    rw [hun] at hj
    cases hj
  have hwrite : (s.mem t i).isUnused = false →
      Rewrites root (editAt t i fun e => withFlags e flags) s.mem
        (write s.mem t i (withFlags (s.mem t i) flags)) := by
    intro hused
    have hfilled := h.filled d hd t ht i
    refine h.rewrites_write hd.le ht (filled_withFlags flags hused hfilled).2 (fun _ => ?_) hused
    exact ⟨table_withFlags hused hfilled hh, isHugePage_withFlags_eq _ hh⟩
  rcases nextTable_cases hnext with ⟨hun, a, -, rfl, rfl⟩ | ⟨hun, f, a, g, hal, hg, rfl, rfl⟩
    | ⟨hused, g, hg, rfl, rfl⟩ | ⟨hused, -, rfl, rfl⟩
  · exact ⟨(Rewrites.refl root s.mem).congr (hunused hun), nofun⟩
  · have hnew := hfresh f a g hal hg
    have hlink := h.rewrites_link hd ht hun (PageTableEntry.table_eq_some.mpr hg) hnew
    refine ⟨hlink.congr (hunused hun), fun g' hg' => ?_⟩
    cases hg'
    exact .inr ⟨hun, hnew⟩
  · refine ⟨hwrite hused, fun g' hg' => ?_⟩
    cases hg'
    refine .inl ?_
    rw [← table_withFlags hused (h.filled d hd t ht i) hh]
    exact PageTableEntry.table_eq_some.mpr hg
  · exact ⟨hwrite hused, nofun⟩

end Hierarchy

end Rhubarb
