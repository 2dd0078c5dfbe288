import Rhubarb.MemoryTypes.Paging

/-!
`map_to` as insertion into a partial map.

The partial map of a page table is its `walk`: the leaf entry found under the four indices of
a page, or why there is none.  Both translation functions are functions of the walk
(`translatePage_eq`, `translateAddr_eq`), so a statement about walks is one about them.

* `Tree`: each table frame is referred to by exactly one entry and every used entry is
  present; huge leaves may stand anywhere.
* `Tree.nextTable`: one step of the walk down keeps the tree and changes no walk at all,
  whether it links a fresh table, rewrites the flags of a parent or fails.
* `mapTo_refines_insert`: the three steps and the write of the leaf together.
-/

namespace Rhubarb

variable {e : PageTableEntry} {mem : PhysMem} {n : ℕ} {T : Frame → Prop} {flags : PageTableFlags}
  {r : Except MappingError Frame}

open Foundations Radix

namespace Level4PageTable

/-! ### The walk -/

/-- A leaf entry, an error or a panic. -/
abbrev Answer : Type := Except Panic (Except TranslationError PageTableEntry)

/-- Where an entry of an upper table leads. -/
def view (e : PageTableEntry) : Except Answer Frame :=
  match e.frame with
  | .ok (.ok f) => .ok f
  | .ok (.error x) => .error (.ok (.error x.toTranslationError))
  | .error p => .error (.error p)

/-- What an entry of a level-1 table answers. -/
def leafAnswer (e : PageTableEntry) : Answer :=
  if e.isUnused then .ok (.error .notMapped) else .ok (.ok e)

/-- The leaf entry under three upper indices and a leaf index. -/
def walk (mem : PhysMem) (root : Frame) (p : List TableIndex) (i : TableIndex) : Answer :=
  Radix.lookup view leafAnswer mem root p i

/-- The upper indices of a page, from the root down. -/
def upperIndices (page : Page) : List TableIndex := [page.l4Index, page.l3Index, page.l2Index]

/-- What the translations do with a used leaf entry. -/
def usedFrame (e : PageTableEntry) : Translation Frame := do
  match ← ExceptT.lift (Frame.fromBaseAddr e.addr) with
  | some frame => pure frame
  | none => throw (.invalidFrameAddress e.addr)

/-- What `translate_addr` does with a used leaf entry. -/
def usedTranslation (addr : Address) (e : PageTableEntry) : Translation AddressTranslation := do
  let frame ← usedFrame e
  pure { frame, offset := addr.pageOffset, flags := e.flags }

lemma view_eq_ok {f : Frame} : view e = .ok f ↔ e.frame = .ok (.ok f) := by
  rw [view]
  split <;> simp_all

lemma view_congr {e' : PageTableEntry} (h : e.frame = e'.frame) : view e = view e' := by
  rw [view, view, h]

lemma eq_unused (h : e.isUnused = true) : e = .unused :=
  PageTableEntry.ext (of_decide_eq_true h)

lemma view_unused : view .unused = .error (.ok (.error .notMapped)) := by decide

lemma leafAnswer_unused : leafAnswer .unused = .ok (.error .notMapped) := by decide

/-- One table of a translation is one step of the walk. -/
lemma getTable_bind {α : Type} {t : Frame} {i j : TableIndex} {p : List TableIndex}
    {k : PageTableEntry → Translation α} {k' : Frame → Translation α}
    (h : ∀ g, k' g = ExceptT.mk (walk mem g p j) >>= k) :
    getTable (mem t i) >>= k' = ExceptT.mk (walk mem t (i :: p) j) >>= k := by
  cases hf : (mem t i).frame with
  | error x =>
    have hv : view (mem t i) = .error (.error x) := by rw [view, hf]
    rw [walk, lookup_of_error (descend_cons_error hv p), getTable, hf]
    rfl
  | ok r =>
    cases r with
    | error x =>
      have hv : view (mem t i) = .error (.ok (.error x.toTranslationError)) := by
        rw [view, hf]
      rw [walk, lookup_of_error (descend_cons_error hv p), getTable, hf]
      rfl
    | ok g =>
      have hv : view (mem t i) = .ok g := view_eq_ok.mpr hf
      have hw : walk mem t (i :: p) j = walk mem g p j := by
        rw [walk, walk, lookup, lookup, descend_cons_ok hv]
      rw [hw, ← h, getTable, hf]
      rfl

lemma leafFrame_eq (e : PageTableEntry) :
    leafFrame e = ExceptT.mk (leafAnswer e) >>= usedFrame := by
  rw [leafFrame, leafAnswer]
  split <;> rfl

theorem translatePage_eq (mem : PhysMem) (root : Frame) (page : Page) :
    translatePage mem root page
      = ExceptT.mk (walk mem root (upperIndices page) page.l1Index) >>= usedFrame :=
  getTable_bind fun _ => getTable_bind fun _ => getTable_bind fun _ => leafFrame_eq _

theorem translateAddr_eq (mem : PhysMem) (root : Frame) (addr : Address) :
    translateAddr mem root addr
      = ExceptT.mk (walk mem root [addr.l4Index, addr.l3Index, addr.l2Index] addr.l1Index)
        >>= usedTranslation addr := by
  refine getTable_bind fun _ => getTable_bind fun _ => getTable_bind fun l1 => ?_
  simp only [leafFrame_eq]
  cases hu : (mem l1 addr.l1Index).isUnused with
  | true =>
    have hw : walk mem l1 [] addr.l1Index = .ok (.error .notMapped) := by
      rw [walk, lookup_of_ok (descend_nil mem l1), leafAnswer, if_pos hu]
    rw [hw, leafAnswer, if_pos hu]
    rfl
  | false =>
    have hw : walk mem l1 [] addr.l1Index = .ok (.ok (mem l1 addr.l1Index)) := by
      rw [walk, lookup_of_ok (descend_nil mem l1), leafAnswer, hu]
      rfl
    rw [hw, leafAnswer, hu]
    rfl

/-! ### Trees -/

/-- The table frames of an address space: the root and what is at most three levels below. -/
abbrev IsTable (mem : PhysMem) (root t : Frame) : Prop := Radix.Table view 3 mem root t

/-- A page-table tree: each table frame is referred to by exactly one entry, and every used
entry has `PRESENT`. -/
structure Tree (mem : PhysMem) (root : Frame) : Prop where
  once : Radix.Once view 2 mem root
  present : ∀ t, IsTable mem root t → ∀ i, (mem t i).isUnused = false →
    (mem t i).isPresent = true

/-- The next `n` frames of the allocator are physical and outside a set of frames that grows
by every frame handed out. -/
def Outside {A : Type} [AllocateFrame A] : ℕ → A → (Frame → Prop) → Prop
  | 0, _, _ => True
  | n + 1, a, T => ∀ f a', AllocateFrame.allocateFrame a = (some f, a') →
      f.Physical ∧ ¬T f ∧ Outside n a' fun g => g = f ∨ T g

section Steps

variable {A : Type} [AllocateFrame A]

lemma Outside.mono {a : A} {T' : Frame → Prop} (h : Outside n a T) (hT : ∀ f, T' f → T f) :
    Outside n a T' := by
  induction n generalizing a T T' with
  | zero => trivial
  | succ n ih =>
    intro f a' hf
    obtain ⟨hphys, hout, hrest⟩ := h f a' hf
    refine ⟨hphys, fun hc => hout (hT f hc), ih hrest fun g hg => ?_⟩
    exact hg.imp_right (hT g)

lemma Outside.of_succ {a : A} (h : Outside (n + 1) a T) :
    Outside n a T := by
  induction n generalizing a T with
  | zero => trivial
  | succ n ih =>
    intro f a' hf
    obtain ⟨hphys, hout, hrest⟩ := h f a' hf
    exact ⟨hphys, hout, ih hrest⟩

/-- The low bits of an entry after the flags of a walk have been added. -/
lemma getLsbD_withFlags (e : PageTableEntry) (flags : PageTableFlags) (hn : n < 12) :
    (withFlags e flags).value.getLsbD n = (e.value.getLsbD n || flags.bits.getLsbD n) := by
  rw [← PageTableEntry.flags_getLsbD e hn, withFlags]
  split
  · rw [PageTableEntry.setFlags, PageTableEntry.ofAddr_getLsbD _ e.addr_toRaw_bounds.1 hn]
    exact BitVec.getLsbD_or
  · next hno =>
      rw [← PageTableEntry.flags_getLsbD e hn]
      -- the flags were there already, or there are none
      rw [not_and_or, not_not, not_not] at hno
      have hbit : flags.bits.getLsbD n = true → e.flags.bits.getLsbD n = true := by
        intro hset
        rcases hno with rfl | hall
        · simp [PageTableFlags.none] at hset
        · rw [← hall] at hset
          exact (Bool.and_eq_true _ _ ▸ BitVec.getLsbD_and ▸ hset : _ ∧ _).1
      cases hf : flags.bits.getLsbD n with
      | false => rw [Bool.or_false]
      | true => rw [hbit hf, Bool.or_true]

lemma isPresent_withFlags (flags : PageTableFlags) (hp : e.isPresent = true) :
    (withFlags e flags).isPresent = true := by
  rw [PageTableEntry.isPresent_eq] at hp ⊢
  rw [getLsbD_withFlags e flags (by norm_num), hp, Bool.true_or]

lemma isHugePage_withFlags (flags : PageTableFlags) (h : e.isHugePage = true) :
    (withFlags e flags).isHugePage = true := by
  rw [PageTableEntry.isHugePage_eq] at h ⊢
  rw [getLsbD_withFlags e flags (by norm_num), h, Bool.true_or]

lemma isHugePage_withFlags_eq (e : PageTableEntry) (hh : flags.get .hugePage = false) :
    (withFlags e flags).isHugePage = e.isHugePage := by
  rw [PageTableEntry.isHugePage_eq, PageTableEntry.isHugePage_eq,
    getLsbD_withFlags e flags (by norm_num), ← flags.get_hugePage, hh, Bool.or_false]

lemma addr_withFlags (e : PageTableEntry) (flags : PageTableFlags) :
    (withFlags e flags).addr = e.addr := by
  rw [withFlags]
  split
  · exact PageTableEntry.addr_setFlags e _
  · rfl

/-- Adding the flags of a walk to a present entry leaves it leading where it led. -/
lemma frame_withFlags (hp : e.isPresent = true) (hh : flags.get .hugePage = false) :
    (withFlags e flags).frame = e.frame :=
  PageTableEntry.frame_congr (by rw [isPresent_withFlags flags hp, hp])
    (isHugePage_withFlags_eq e hh) (addr_withFlags e flags)

lemma parentTableFlags_get_present (flags : PageTableFlags) :
    (parentTableFlags flags).get .present = flags.get .present := by
  rw [PageTableFlags.get_present, PageTableFlags.get_present, parentTableFlags]
  show (flags.bits &&& _).getLsbD 0 = _
  rw [BitVec.getLsbD_and]
  exact Bool.and_true _

lemma parentTableFlags_hugePage (flags : PageTableFlags) :
    (parentTableFlags flags).get .hugePage = false := by
  rw [PageTableFlags.get_hugePage]
  show (flags.bits &&& _).getLsbD 7 = false
  rw [BitVec.getLsbD_and, Bool.and_eq_false_iff]
  exact .inr rfl

/-! ### The steps down to a page -/

section StepsDown

variable {A : Type} [AllocateFrame A]

/-- What holds of a path, the table it leads to and the state holds again after each step on
the way down to a page. -/
structure StepsDown (page : Page) (flags : PageTableFlags)
    (W : List TableIndex → Frame → PagingState A → Prop) : Prop where
  step : ∀ {q i t s g s'}, q ++ [i] <+: upperIndices page → W q t s →
    nextTable t i flags s = .ok (.ok g, s') → W (q ++ [i]) g s'

/-- The leaf of a turn of `set_flags`: a huge leaf is rewritten and the pages after it are
skipped. -/
def SetsHuge (t : Frame) (i : TableIndex) (flags : PageTableFlags) (skip : ℕ)
    (s s' : PagingState A) (res : Except MappingError ℕ) : Prop :=
  (s.mem t i).isHugePage = true ∧ res = .ok skip
    ∧ s' = ⟨Radix.write s.mem t i ((s.mem t i).setFlags (flags.or .hugePage)), s.allocator⟩

/-- The leaf of the turn in a level-1 table: it is rewritten if it is used. -/
def SetsLeaf (t : Frame) (i : TableIndex) (flags : PageTableFlags)
    (s s' : PagingState A) (res : Except MappingError ℕ) : Prop :=
  res = .ok 0 ∧ ((s.mem t i).isUnused = false
      ∧ s' = ⟨Radix.write s.mem t i ((s.mem t i).setFlags flags), s.allocator⟩
    ∨ (s.mem t i).isUnused = true ∧ s' = s)

variable {page : Page} {flags : PageTableFlags} {root : Frame} {s s' : PagingState A}
  {W : List TableIndex → Frame → PagingState A → Prop}

/-- The steps of the walk down to a page. -/
lemma extends_upperIndices (page : Page) : [] ++ [page.l4Index] <+: upperIndices page
    ∧ [page.l4Index] ++ [page.l3Index] <+: upperIndices page
    ∧ [page.l4Index, page.l3Index] ++ [page.l2Index] <+: upperIndices page :=
  ⟨⟨_, rfl⟩, ⟨_, rfl⟩, ⟨[], rfl⟩⟩

/-- The path of a huge leaf is on the way down. -/
lemma extends_of_huge {q is : List TableIndex} {i : TableIndex}
    (h : q ++ i :: is = [page.l3Index, page.l2Index, page.l1Index]) (his : is ≠ []) :
    page.l4Index :: q ++ [i] <+: upperIndices page := by
  refine ⟨is.dropLast, ?_⟩
  have hdrop := congrArg (fun l => page.l4Index :: l.dropLast) h
  simpa [upperIndices, List.dropLast_append_of_ne_nil, List.dropLast_cons_of_ne_nil his] using hdrop

/-- **The walk of `map_to`** arrives in the level-1 table of the page or stops at a step. -/
lemma StepsDown.level1Table {r : Except MappingError Frame} (hW : StepsDown page flags W)
    (h : W [] root s) (hl : level1Table root page flags s = .ok (r, s')) :
    (∃ g, r = .ok g ∧ W (upperIndices page) g s')
      ∨ ∃ x q i is t s₁, r = .error x ∧ upperIndices page = q ++ [i] ++ is ∧ W q t s₁
        ∧ nextTable t i flags s₁ = .ok (.error x, s') := by
  obtain ⟨hp₁, hp₂, hp₃⟩ := extends_upperIndices page
  rcases Comp.bind_eq_ok hl with ⟨l3, s₁, h₁, hl⟩ | ⟨x, s₁, h₁, hx⟩
  swap
  · cases hx
    exact .inr ⟨x, [], page.l4Index, [page.l3Index, page.l2Index], root, s, rfl, rfl, h, h₁⟩
  have hw₁ := hW.step hp₁ h h₁
  rcases Comp.bind_eq_ok hl with ⟨l2, s₂, h₂, hl⟩ | ⟨x, s₂, h₂, hx⟩
  swap
  · cases hx
    exact .inr ⟨x, [page.l4Index], page.l3Index, [page.l2Index], l3, s₁, rfl, rfl, hw₁, h₂⟩
  have hw₂ := hW.step hp₂ hw₁ h₂
  cases r with
  | ok g => exact .inl ⟨g, rfl, hW.step hp₃ hw₂ hl⟩
  | error x =>
    exact .inr ⟨x, [page.l4Index, page.l3Index], page.l2Index, [], l2, s₂, rfl, rfl, hw₂, hl⟩

/-- **One turn of `set_flags`**: a step down fails, or the turn ends at a huge leaf of the third
or second level, or in the level-1 table. -/
lemma StepsDown.setFlagsPage {res : Except MappingError ℕ}
    (hW : StepsDown page (parentTableFlags flags) W) (h : W [] root s)
    (hs : setFlagsPage root flags page s = .ok (res, s')) :
    (∃ x q i is t s₁, res = .error x ∧ upperIndices page = q ++ [i] ++ is ∧ W q t s₁
        ∧ (q ≠ [] → (s₁.mem t i).isHugePage = false)
        ∧ nextTable t i (parentTableFlags flags) s₁ = .ok (.error x, s'))
      ∨ (∃ q i is t s₁, q ++ i :: is = [page.l3Index, page.l2Index, page.l1Index] ∧ is ≠ []
        ∧ W (page.l4Index :: q) t s₁ ∧ SetsHuge t i flags
          (if is.length = 1 then pagesPerL2HugePage else pagesPerL3HugePage) s₁ s' res)
      ∨ ∃ t s₁, W (upperIndices page) t s₁ ∧ SetsLeaf t page.l1Index flags s₁ s' res := by
  obtain ⟨hp₁, hp₂, hp₃⟩ := extends_upperIndices page
  rcases Comp.bind_eq_ok hs with ⟨l3, s₁, h₁, hs⟩ | ⟨x, s₁, h₁, hx⟩
  swap
  · cases hx
    exact .inl ⟨x, [], page.l4Index, [page.l3Index, page.l2Index], root, s, rfl, rfl, h,
      fun hc => absurd rfl hc, h₁⟩
  have hw₁ := hW.step hp₁ h h₁
  rw [Comp.bind_apply_ok (entry_apply l3 page.l3Index s₁)] at hs
  split at hs
  · next hhuge =>
      rw [Comp.bind_apply_ok (setEntry_apply _ _ _ s₁)] at hs
      cases hs
      exact .inr (.inl ⟨[], page.l3Index, [page.l2Index, page.l1Index], l3, s₁, rfl,
        by simp, hw₁, hhuge, by rw [if_neg (by simp)], rfl⟩)
  next hsmall₁ =>
  rcases Comp.bind_eq_ok hs with ⟨l2, s₂, h₂, hs⟩ | ⟨x, s₂, h₂, hx⟩
  swap
  · cases hx
    exact .inl ⟨x, [page.l4Index], page.l3Index, [page.l2Index], l3, s₁, rfl, rfl, hw₁,
      fun _ => by simpa using hsmall₁, h₂⟩
  have hw₂ := hW.step hp₂ hw₁ h₂
  rw [Comp.bind_apply_ok (entry_apply l2 page.l2Index s₂)] at hs
  split at hs
  · next hhuge =>
      rw [Comp.bind_apply_ok (setEntry_apply _ _ _ s₂)] at hs
      cases hs
      exact .inr (.inl ⟨[page.l3Index], page.l2Index, [page.l1Index], l2, s₂, rfl,
        by simp, hw₂, hhuge, by rw [if_pos (by simp)], rfl⟩)
  next hsmall₂ =>
  rcases Comp.bind_eq_ok hs with ⟨l1, s₃, h₃, hs⟩ | ⟨x, s₃, h₃, hx⟩
  swap
  · cases hx
    exact .inl ⟨x, [page.l4Index, page.l3Index], page.l2Index, [], l2, s₂, rfl, rfl, hw₂,
      fun _ => by simpa using hsmall₂, h₃⟩
  refine .inr (.inr ⟨l1, s₃, hW.step hp₃ hw₂ h₃, ?_⟩)
  rw [Comp.bind_apply_ok (entry_apply l1 page.l1Index s₃)] at hs
  split at hs
  · next hused =>
      rw [Comp.bind_apply_ok (setEntry_apply _ _ _ s₃)] at hs
      cases hs
      exact ⟨rfl, .inl ⟨hused, rfl⟩⟩
  · next hun =>
      cases hs
      exact ⟨rfl, .inr ⟨by simpa using hun, rfl⟩⟩

end StepsDown

/-! ### The tree is kept -/

variable {root t : Frame} {i : TableIndex} {flags : PageTableFlags} {pt : List TableIndex}

/-- Hanging a fresh cleared table below an unused entry keeps the tree. -/
lemma Tree.link {f : Frame} (ht : Tree mem root) (hlen : pt.length < 3)
    (hd : descend view mem root pt = .ok t) (hf : ¬IsTable mem root f) (he : view e = .ok f)
    (hep : e.isPresent = true) :
    Tree (Radix.link mem t i e f .unused) root where
  once := (unique_link ht.once.unique hlen hd hf he view_unused).once
  present := by
    intro g hg j hu
    by_cases hgf : g = f
    · subst hgf
      rw [Radix.link, clear_self] at hu
      cases hu
    by_cases hslot : g = t ∧ j = i
    · obtain ⟨rfl, rfl⟩ := hslot
      rw [link_self hgf]
      exact hep
    rw [link_of_ne hgf hslot] at hu ⊢
    rcases table_link ht.once.unique hlen hd hf he view_unused hg with rfl | hg
    · exact absurd rfl hgf
    · exact ht.present g hg j hu

/-- Writing a present entry that changes no descent keeps the tree. -/
lemma Tree.write (ht : Tree mem root)
    (hd : ∀ p, p.length ≤ 3 → descend view (write mem t i e) root p = descend view
      mem root p) (hep : e.isPresent = true) : Tree (write mem t i e) root where
  once := (ht.once.unique.congr hd).once
  present := by
    intro g hg j hu
    by_cases hslot : g = t ∧ j = i
    · obtain ⟨rfl, rfl⟩ := hslot
      rw [write_self]
      exact hep
    rw [write_of_ne hslot] at hu ⊢
    exact ht.present g ((table_congr hd).mp hg) j hu

variable {s s' : PagingState A}

/-- **One step down** keeps the tree and every walk; when it arrives, it has arrived at the
table of the extended path, and the allocator still supplies frames outside. -/
lemma Tree.nextTable (ht : Tree s.mem root) (hlen : pt.length < 3)
    (hd : descend view s.mem root pt = .ok t)
    (hal : Outside (n + 1) s.allocator (IsTable s.mem root)) (hp : flags.get .present = true)
    (hh : flags.get .hugePage = false) (h : nextTable t i flags s = .ok (r, s')) :
    Tree s'.mem root
      ∧ (∀ p j, p.length = 3 → walk s'.mem root p j = walk s.mem root p j)
      ∧ ∀ g, r = .ok g → descend view s'.mem root (pt ++ [i]) = .ok g
        ∧ Outside n s'.allocator (IsTable s'.mem root) := by
  have hu := ht.once.unique
  have hpt : IsTable s.mem root t := ⟨pt, hlen.le, hd⟩
  rcases nextTable_cases h with ⟨-, a, -, rfl, rfl⟩ | ⟨hun, f, a, g, hf, hg, rfl, rfl⟩
    | ⟨hused, g, hg, rfl, rfl⟩ | ⟨hused, hg, rfl, rfl⟩
  · exact ⟨ht, fun _ _ _ => rfl, nofun⟩
  · -- a fresh frame is linked: it is physical, so the entry leads back to it
    obtain ⟨hphys, hout, hrest⟩ := hal f a hf
    rw [PageTableEntry.frame_ofFrame hphys hp hh] at hg
    cases hg
    have he : view (.ofFrame f flags) = .ok f :=
      view_eq_ok.mpr (PageTableEntry.frame_ofFrame hphys hp hh)
    have hold : view (s.mem t i) = .error (.ok (.error .notMapped)) := by
      rw [eq_unused hun, view_unused]
    refine ⟨ht.link hlen hd hout he (by rw [PageTableEntry.isPresent_ofFrame, hp]),
      fun p j hl => lookup_link hu hlen hd hout he hold view_unused leafAnswer_unused hl,
      fun g hg => ?_⟩
    cases hg
    refine ⟨descend_link_self hu hlen hd hout he, hrest.mono fun g hg => ?_⟩
    exact table_link hu hlen hd hout he view_unused hg
  · -- a used entry keeps leading to its table
    have hpres := ht.present t hpt i hused
    have hv : view (withFlags (s.mem t i) flags) = view (s.mem t i) :=
      view_congr (frame_withFlags hpres hh)
    have hsame := fun p (_ : p.length ≤ 3) => descend_relabel hv root p
    refine ⟨ht.write hsame (isPresent_withFlags flags hpres),
      fun p j hl => lookup_relabel hu hlen hd hv hl, fun g' hg' => ?_⟩
    cases hg'
    refine ⟨?_, hal.of_succ.mono fun g hg => (table_congr hsame).mp hg⟩
    rw [descend_relabel hv, descend_append hd, descend_singleton, ← hv]
    exact view_eq_ok.mpr hg
  · -- a huge leaf: its flags may have changed, but it stops the walk as before
    have hpres := ht.present t hpt i hused
    have hv : view (withFlags (s.mem t i) flags) = view (s.mem t i) :=
      view_congr (frame_withFlags hpres hh)
    have hsame := fun p (_ : p.length ≤ 3) => descend_relabel hv root p
    exact ⟨ht.write hsame (isPresent_withFlags flags hpres),
      fun p j hl => lookup_relabel hu hlen hd hv hl, nofun⟩

/-- The three steps of `map_to`: the tree and the walks are kept, and on arrival the level-1
table of the page has been reached. -/
lemma Tree.level1Table {page : Page} (ht : Tree s.mem root)
    (hal : Outside (n + 3) s.allocator (IsTable s.mem root)) (hp : flags.get .present = true)
    (hh : flags.get .hugePage = false) (h : level1Table root page flags s = .ok (r, s')) :
    Tree s'.mem root
      ∧ (∀ p j, p.length = 3 → walk s'.mem root p j = walk s.mem root p j)
      ∧ ∀ g, r = .ok g → descend view s'.mem root (upperIndices page) = .ok g
        ∧ Outside n s'.allocator (IsTable s'.mem root) := by
  rcases Comp.bind_eq_ok h with ⟨l3, s₁, h₁, h⟩ | ⟨x, s₁, h₁, hr⟩
  · obtain ⟨ht₁, hw₁, hd₁⟩ := ht.nextTable (by simp) (descend_nil _ _) hal hp hh h₁
    obtain ⟨hd₁, hal₁⟩ := hd₁ l3 rfl
    rcases Comp.bind_eq_ok h with ⟨l2, s₂, h₂, h₃⟩ | ⟨x, s₂, h₂, hr⟩
    · obtain ⟨ht₂, hw₂, hd₂⟩ := ht₁.nextTable (by simp) hd₁ hal₁ hp hh h₂
      obtain ⟨hd₂, hal₂⟩ := hd₂ l2 rfl
      obtain ⟨ht₃, hw₃, hd₃⟩ := ht₂.nextTable (by simp) hd₂ hal₂ hp hh h₃
      refine ⟨ht₃, fun p j hl => ?_, hd₃⟩
      rw [hw₃ p j hl, hw₂ p j hl, hw₁ p j hl]
    · cases hr
      obtain ⟨ht₂, hw₂, -⟩ := ht₁.nextTable (by simp) hd₁ hal₁ hp hh h₂
      exact ⟨ht₂, fun p j hl => by rw [hw₂ p j hl, hw₁ p j hl], nofun⟩
  · cases hr
    obtain ⟨ht₁, hw₁, -⟩ := ht.nextTable (by simp) (descend_nil _ _) hal hp hh h₁
    exact ⟨ht₁, hw₁, nofun⟩

/-- `map_to` after its walk down. -/
lemma mapTo_of_level1Table {page : Page} {frame l1 : Frame} {s₁ : PagingState A}
    (h : level1Table root page (parentTableFlags flags) s = .ok (.ok l1, s₁)) :
    mapTo root page frame flags s = if (s₁.mem l1 page.l1Index).isUnused
      then (PageTableEntry.setFrame frame flags).map fun e =>
        (.ok (), ⟨write s₁.mem l1 page.l1Index e, s₁.allocator⟩)
      else .ok (.error (.pageAlreadyMapped frame), s₁) := by
  rw [mapTo, Comp.bind_apply_ok h, Comp.bind_apply_ok (entry_apply l1 page.l1Index s₁)]
  cases (s₁.mem l1 page.l1Index).isUnused
  · rfl
  · cases PageTableEntry.setFrame frame flags <;> rfl

/-- What `map_to` does after its walk down. -/
lemma mapTo_cases {r : Except MappingError Unit} {page : Page} {frame : Frame}
    (h : mapTo root page frame flags s = .ok (r, s')) :
    (∃ x, level1Table root page (parentTableFlags flags) s = .ok (.error x, s') ∧ r = .error x)
      ∨ ∃ l1 s₁, level1Table root page (parentTableFlags flags) s = .ok (.ok l1, s₁)
        ∧ (((s₁.mem l1 page.l1Index).isUnused = false ∧ r = .error (.pageAlreadyMapped frame)
            ∧ s' = s₁)
          ∨ ((s₁.mem l1 page.l1Index).isUnused = true ∧ r = .ok ()
            ∧ s' = ⟨write s₁.mem l1 page.l1Index (.ofFrame frame flags), s₁.allocator⟩)) := by
  rcases Comp.bind_eq_ok h with ⟨l1, s₁, h₁, -⟩ | ⟨x, s₁, h₁, hr⟩
  · refine .inr ⟨l1, s₁, h₁, ?_⟩
    rw [mapTo_of_level1Table h₁] at h
    split at h
    · next hu =>
        obtain ⟨e, hset, h⟩ := ok_of_map h
        obtain ⟨rfl, -⟩ := PageTableEntry.setFrame_eq_ok hset
        cases h
        exact .inr ⟨hu, rfl, rfl⟩
    · next hu =>
        cases h
        exact .inl ⟨by simpa using hu, rfl, rfl⟩
  · cases hr
    exact .inl ⟨x, h₁, rfl⟩

end Steps

/-! ### Insertion -/

section Insert

variable {A : Type} [AllocateFrame A] {s s' : PagingState A} {root frame : Frame} {page : Page}
  {flags : PageTableFlags} {r : Except MappingError Unit}

/-- **`map_to` on walks**: an error changes none, success changes the one of the page from
nothing to the new entry; the tree is kept. -/
lemma Tree.mapTo (ht : Tree s.mem root) (hal : Outside (n + 3) s.allocator (IsTable s.mem root))
    (hp : flags.get .present = true) (h : mapTo root page frame flags s = .ok (r, s')) :
    Tree s'.mem root
      ∧ (∀ p j, p.length = 3 → ¬(p = upperIndices page ∧ j = page.l1Index) →
        walk s'.mem root p j = walk s.mem root p j)
      ∧ (∀ x, r = .error x → walk s'.mem root (upperIndices page) page.l1Index
        = walk s.mem root (upperIndices page) page.l1Index)
      ∧ (r = .ok () → walk s.mem root (upperIndices page) page.l1Index = .ok (.error .notMapped)
        ∧ walk s'.mem root (upperIndices page) page.l1Index = leafAnswer (.ofFrame frame flags)
        ∧ Outside n s'.allocator (IsTable s'.mem root)) := by
  have hp' := (parentTableFlags_get_present flags).trans hp
  have hh' := parentTableFlags_hugePage flags
  rcases mapTo_cases h with ⟨x, h₁, rfl⟩ | ⟨l1, s₁, h₁, ⟨-, rfl, rfl⟩ | ⟨hun, rfl, rfl⟩⟩
  · obtain ⟨ht₁, hw, -⟩ := ht.level1Table hal hp' hh' h₁
    exact ⟨ht₁, fun p j hl _ => hw p j hl, fun _ _ => hw _ _ rfl, nofun⟩
  · obtain ⟨ht₁, hw, -⟩ := ht.level1Table hal hp' hh' h₁
    exact ⟨ht₁, fun p j hl _ => hw p j hl, fun _ _ => hw _ _ rfl, nofun⟩
  · obtain ⟨ht₁, hw, hd⟩ := ht.level1Table hal hp' hh' h₁
    obtain ⟨hd, hal₁⟩ := hd l1 rfl
    have hu := ht₁.once.unique
    have hsame := fun (q : List TableIndex) (hq : q.length ≤ 3) =>
      descend_store (i := page.l1Index) (e := .ofFrame frame flags) hu rfl hd hq
    refine ⟨ht₁.write hsame ?_, fun q j hl hne => ?_, nofun,
      fun _ => ⟨?_, ?_, hal₁.mono fun g hg => (table_congr hsame).mp hg⟩⟩
    · rw [PageTableEntry.isPresent_ofFrame, hp]
    · rw [← hw q j hl]
      exact lookup_store_of_ne hu rfl hd hl hne
    · rw [← hw _ _ rfl, walk, lookup_of_ok hd, eq_unused hun, leafAnswer_unused]
    · exact lookup_store_self hu rfl hd

/-- The frame of an entry made from a physical frame. -/
lemma usedFrame_ofFrame (hf : frame.Physical) :
    usedFrame (.ofFrame frame flags) = pure frame := by
  have hnum : frame.number < 2 ^ 35 := hf
  have haddr := PageTableEntry.addr_ofFrame hf flags
  have hbase : Frame.fromBaseAddr (PageTableEntry.ofFrame frame flags).addr = .ok (some frame) := by
    rw [Frame.fromBaseAddr, if_pos ((Address.isPageAligned_iff _).mpr (by omega)),
      Frame.containingAddr_of_physical (by omega), haddr,
      show frame.number * 4096 / 4096 = frame.number from by omega]
    rfl
  rw [usedFrame, hbase]
  rfl

lemma leafAnswer_ofFrame (hp : flags.get .present = true) :
    leafAnswer (.ofFrame frame flags) = .ok (.ok (.ofFrame frame flags)) := by
  rw [leafAnswer, if_neg]
  rw [PageTableEntry.isUnused_of_isPresent]
  · simp
  · rw [PageTableEntry.isPresent_ofFrame, hp]

/-- Translations agree where the walks do. -/
lemma translatePage_congr {mem' : PhysMem} {q : Page}
    (h : walk mem' root (upperIndices q) q.l1Index = walk mem root (upperIndices q) q.l1Index) :
    translatePage mem' root q = translatePage mem root q := by
  rw [translatePage_eq, translatePage_eq, h]

lemma translateAddr_congr {mem' : PhysMem} {addr : Address}
    (h : walk mem' root [addr.l4Index, addr.l3Index, addr.l2Index] addr.l1Index = walk mem root
      [addr.l4Index, addr.l3Index, addr.l2Index] addr.l1Index) :
    translateAddr mem' root addr = translateAddr mem root addr := by
  rw [translateAddr_eq, translateAddr_eq, h]

/-- The indices of an address are those of its page. -/
lemma addr_indices {addr : Address} (h : addr.page.Canonical) :
    [addr.l4Index, addr.l3Index, addr.l2Index] = upperIndices addr.page
      ∧ addr.l1Index = addr.page.l1Index := by
  have key := fun {shift : ℕ} (hs : 12 ≤ shift) => Page.indexAt_page h.lt hs
  refine ⟨?_, (key le_rfl).symm⟩
  show _ = [addr.page.baseAddr.indexAt 39, addr.page.baseAddr.indexAt 30,
    addr.page.baseAddr.indexAt 21]
  rw [key (by norm_num), key (by norm_num), key (by norm_num)]
  rfl

lemma upperIndices_injective {p q : Page} (hp : p.Canonical) (hq : q.Canonical)
    (h : upperIndices p = upperIndices q) (h1 : p.l1Index = q.l1Index) : p = q := by
  simp only [upperIndices, List.cons.injEq, and_true] at h
  exact Page.index_injective hp hq h.1 h.2.1 h.2.2 h1

/-- **`map_to` refines insertion into a partial map.**  A success means that the page was not
translated and now is, to the given frame, with the given flags, and that no other page has
changed; a failure changes no translation. -/
theorem mapTo_refines_insert (ht : Tree s.mem root) (hpage : page.Canonical)
    (hframe : frame.Physical) (hp : flags.get .present = true)
    (hal : Outside 3 s.allocator (IsTable s.mem root))
    (h : Level4PageTable.mapTo root page frame flags s = .ok (r, s')) :
    (r = .ok () →
        translatePage s.mem root page = throw .notMapped
        ∧ translatePage s'.mem root page = pure frame
        ∧ (∀ addr : Address, addr.page = page → translateAddr s'.mem root addr
          = pure { frame, offset := addr.toRaw % 4096, flags })
        ∧ (∀ q : Page, q.Canonical → q ≠ page →
          translatePage s'.mem root q = translatePage s.mem root q)
        ∧ (∀ addr : Address, addr.page.Canonical → addr.page ≠ page →
          translateAddr s'.mem root addr = translateAddr s.mem root addr)
        ∧ Tree s'.mem root)
      ∧ ∀ x, r = .error x →
        (∀ q, translatePage s'.mem root q = translatePage s.mem root q)
        ∧ (∀ addr, translateAddr s'.mem root addr = translateAddr s.mem root addr) := by
  obtain ⟨ht', hother, herr, hok⟩ := ht.mapTo (n := 0) hal hp h
  constructor
  · intro hr
    obtain ⟨hbefore, hafter, -⟩ := hok hr
    rw [leafAnswer_ofFrame hp] at hafter
    have hdiff : ∀ q : Page, q.Canonical → q ≠ page →
        walk s'.mem root (upperIndices q) q.l1Index
          = walk s.mem root (upperIndices q) q.l1Index := by
      intro q hq hne
      exact hother _ _ rfl fun hc => hne (upperIndices_injective hq hpage hc.1 hc.2)
    refine ⟨?_, ?_, fun addr haddr => ?_, fun q hq hne => translatePage_congr (hdiff q hq hne),
      fun addr hc hne => ?_, ht'⟩
    · rw [translatePage_eq, hbefore]
      rfl
    · rw [translatePage_eq, hafter]
      exact usedFrame_ofFrame hframe
    · subst haddr
      rw [translateAddr_eq, (addr_indices hpage).1, (addr_indices hpage).2, hafter]
      show usedTranslation addr _ = _
      rw [usedTranslation, usedFrame_ofFrame hframe, PageTableEntry.flags_ofFrame hframe]
      rfl
    · apply translateAddr_congr
      rw [(addr_indices hc).1, (addr_indices hc).2]
      exact hdiff _ hc hne
  · intro x hr
    have hall : ∀ p j, p.length = 3 → walk s'.mem root p j = walk s.mem root p j := by
      intro p j hl
      by_cases hpj : p = upperIndices page ∧ j = page.l1Index
      · rw [hpj.1, hpj.2, herr x hr]
      · exact hother p j hl hpj
    exact ⟨fun q => translatePage_congr (hall _ _ rfl),
      fun addr => translateAddr_congr (hall _ _ rfl)⟩

end Insert

/-! ### The empty address space -/

lemma isTable_of_cleared {root t : Frame} (h : ∀ i, mem root i = .unused)
    (ht : Radix.Table view n mem root t) : t = root := by
  obtain ⟨p, -, hd⟩ := ht
  cases p with
  | nil => exact (Except.ok.inj hd).symm
  | cons i p =>
    rw [descend_cons_error (by rw [h i, view_unused])] at hd
    cases hd

/-- A cleared root is a tree with no other table. -/
lemma Tree.of_cleared {root : Frame} (h : ∀ i, mem root i = .unused) :
    Tree mem root := by
  refine ⟨⟨fun f g hf _ i j t hi _ => ?_, fun f hf i hi => ?_⟩, fun t ht i hu => ?_⟩
  · rw [isTable_of_cleared h hf, h i, view_unused] at hi
    cases hi
  · rw [isTable_of_cleared h hf, h i, view_unused] at hi
    cases hi
  · rw [isTable_of_cleared h ht, h i] at hu
    cases hu

/-- The simplest allocator: a list of frames, handed out from the front. -/
instance : AllocateFrame (List Frame) where
  allocateFrame
    | [] => (none, [])
    | f :: fs => (some f, fs)

lemma outside_list {fs : List Frame} (hphys : ∀ f ∈ fs, f.Physical) (hnodup : fs.Nodup)
    (hT : ∀ f ∈ fs, ¬T f) (n : ℕ) : Outside n fs T := by
  induction n generalizing fs T with
  | zero => trivial
  | succ n ih =>
    intro f fs' hf
    cases fs with
    | nil => cases hf
    | cons g gs =>
      cases hf
      obtain ⟨hfresh, hnodup⟩ := List.nodup_cons.mp hnodup
      refine ⟨hphys f (by simp), hT f (by simp), ih ?_ hnodup ?_⟩
      · exact fun g hg => hphys g (List.mem_cons_of_mem f hg)
      · rintro g hg (rfl | hTg)
        · exact hfresh hg
        · exact hT g (List.mem_cons_of_mem f hg) hTg

/-- Page 3 of an empty address space, mapped to frame 7 through three new tables. -/
theorem mapTo_refines_insert_empty :
    ∃ s' : PagingState (List Frame),
      Level4PageTable.mapTo ⟨0⟩ ⟨3⟩ ⟨7⟩ (PageTableFlags.present.or .writable)
        ⟨fun _ _ => .unused, [⟨1⟩, ⟨2⟩, ⟨4⟩]⟩ = .ok (.ok (), s')
      ∧ translatePage s'.mem ⟨0⟩ ⟨3⟩ = pure ⟨7⟩ := by
  obtain ⟨s', hs'⟩ : ∃ s' : PagingState (List Frame),
      Level4PageTable.mapTo ⟨0⟩ ⟨3⟩ ⟨7⟩ (PageTableFlags.present.or .writable)
        ⟨fun _ _ => .unused, [⟨1⟩, ⟨2⟩, ⟨4⟩]⟩ = .ok (.ok (), s') := ⟨_, rfl⟩
  refine ⟨s', hs', ((mapTo_refines_insert ?_ ?_ ?_ ?_ ?_ hs').1 rfl).2.1⟩
  · exact Tree.of_cleared fun _ => rfl
  · decide
  · decide
  · decide
  · refine outside_list (by decide) (by decide) (fun f hf hc => ?_) 3
    rw [isTable_of_cleared (fun _ => rfl) hc] at hf
    exact absurd hf (by decide)

end Level4PageTable

end Rhubarb
