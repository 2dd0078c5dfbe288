import Rhubarb.Memory.Insertion

/-!
What `set_flags` does to the pages of all address spaces.

`set_flags` rewrites entries and links tables, but the frame behind a page is the one it was:
no page is mapped, unmapped or moved (`SameLeaves`), as long as the new flags are not such that
an entry becomes unused.

* `Tidy.setFlagsLoop_sameLeaves`: the loop keeps the leaves of every root.
-/

namespace Rhubarb

open Foundations Level4PageTable Levels

/-! ### The leaves stay -/

/-- Every page is mapped to the address it was mapped to, or not mapped as before. -/
def SameLeaves (roots : Set Frame) (mem mem' : PhysMem) : Prop :=
  ∀ b ∈ roots, ∀ p j, p.length = 3 →
    (found mem' b p j).map (·.addr) = (found mem b p j).map (·.addr)

lemma SameLeaves.refl (roots : Set Frame) (mem : PhysMem) : SameLeaves roots mem mem :=
  fun _ _ _ _ _ => rfl

variable {skip : ℕ} {res : Except MappingError Unit} {pages : List Page}

lemma SameLeaves.trans {roots : Set Frame} {mem mem' mem'' : PhysMem}
    (h : SameLeaves roots mem mem') (h' : SameLeaves roots mem' mem'') :
    SameLeaves roots mem mem'' :=
  fun b hb p j hp => (h' b hb p j hp).trans (h b hb p j hp)

section Leaves

variable {roots : Set Frame} {r t : Frame} {i : TableIndex} {flags : PageTableFlags}
  {page : Page} {s s' : PagingState ProxyAllocator}

lemma Tidy.nextTable_sameLeaves {d : ℕ} {res : Except MappingError Frame}
    (h : s.Tidy roots) (ht : Level (edges s.mem) roots d t)
    (hd : d < 3) (hh : flags.get .hugePage = false)
    (hnext : nextTable t i flags s = .ok (res, s')) :
    SameLeaves roots s.mem s'.mem := by
  have hins : Inserted roots t (fun _ _ => False) s.mem s'.mem :=
    h.nextTable_inserted ht hd hh hnext
  intro b hb p j hp
  rw [hins.found_eq hb hp]

/-- A huge leaf is no leaf of the partial maps. -/
lemma Tidy.setsHuge_sameLeaves {d : ℕ} {res : Except MappingError ℕ}
    (h : s.Tidy roots) (ht : Level (edges s.mem) roots d t)
    (hd : d < 3) (hs : SetsHuge t i flags skip s s' res) : SameLeaves roots s.mem s'.mem := by
  obtain ⟨hhuge, -, rfl⟩ := hs
  intro b hb p j hp
  have htable : ((s.mem t i).setFlags (flags.or .hugePage)).table = (s.mem t i).table := by
    rw [table_of_isHugePage hhuge, table_of_isHugePage (isHugePage_setFlags_or _ flags)]
  have hb₀ : Level (edges s.mem) roots 0 b := hb
  rw [found_rewrite h.tables ht hd htable hb₀ (by omega)]

/-- A used entry of a level-1 table keeps its address. -/
lemma Tidy.setsLeaf_sameLeaves {res : Except MappingError ℕ}
    (h : s.Tidy roots) (ht : Level (edges s.mem) roots 3 t)
    (hp : flags.get .present = true) (hs : SetsLeaf t i flags s s' res) :
    SameLeaves roots s.mem s'.mem := by
  obtain ⟨-, ⟨hused, rfl⟩ | ⟨-, rfl⟩⟩ := hs
  swap
  · exact .refl _ _
  intro b hb p j hlen
  have hb₀ : Level (edges s.mem) roots 0 b := hb
  have hnew : ((s.mem t i).setFlags flags).isUnused = false :=
    PageTableEntry.isUnused_of_isPresent (by rw [PageTableEntry.isPresent_setFlags, hp])
  rcases found_leaf (i := i) (j := j) (e := (s.mem t i).setFlags flags) h.tables ht hb₀
    (p := p) (by omega) with ⟨hlead, rfl, hfound⟩ | ⟨-, hsame⟩
  · rw [hfound, found_of_descend hlead, hnew, hused]
    simp [PageTableEntry.addr_setFlags]
  · rw [hsame]

/-- **One turn of `set_flags` moves no page.** -/
lemma Tidy.setFlagsPage_sameLeaves {res : Except MappingError ℕ}
    (h : s.Tidy roots) (hr : r ∈ roots)
    (hp : flags.get .present = true)
    (hs : setFlagsPage r flags page s = .ok (res, s')) :
    SameLeaves roots s.mem s'.mem := by
  have hW : WalkInvariant r (fun _ => True) (·.Tidy roots) := walkInvariant_tidy hr
  have hh := parentTableFlags_hugePage flags
  have hnext : ∀ {q i t s₁ res s₂}, q ++ [i] <+: upperIndices page → s₁.Tidy roots →
      Radix.descend view s₁.mem r q = .ok t →
      nextTable t i (parentTableFlags flags) s₁ = .ok (res, s₂) →
      SameLeaves roots s.mem s₁.mem → SameLeaves roots s.mem s₂.mem :=
    fun hq ht hd h₂ hsame => hsame.trans (ht.nextTable_sameLeaves (level_of_mem hr hd)
      (Radix.length_lt_of_extends hq) hh h₂)
  have hdown : StepsDown page (parentTableFlags flags) fun q t s₁ => (s₁.Tidy roots
      ∧ Radix.descend view s₁.mem r q = .ok t) ∧ SameLeaves roots s.mem s₁.mem :=
    ⟨fun hq hw h₂ => ⟨(hW.stepsDown trivial hh).step hq hw.1 h₂, hnext hq hw.1.1 hw.1.2 h₂ hw.2⟩⟩
  rcases hdown.setFlagsPage ⟨⟨h, Radix.descend_nil _ _⟩, .refl _ _⟩ hs with
    ⟨x, q, i, is, t, s₁, -, hq, ⟨⟨ht, hd⟩, hsame⟩, -, hx⟩
    | ⟨q, i, is, t, s₁, hq, his, ⟨⟨ht, hd⟩, hsame⟩, hs⟩ | ⟨t, s₁, ⟨⟨ht, hd⟩, hsame⟩, hs⟩
  · exact hnext ⟨is, hq.symm⟩ ht hd hx hsame
  · exact hsame.trans (ht.setsHuge_sameLeaves (level_of_mem hr hd)
      (Radix.length_lt_of_extends (extends_of_huge hq his)) hs)
  · exact hsame.trans (ht.setsLeaf_sameLeaves (level_of_mem hr hd) hp hs)

/-- **`set_flags` moves no page** of any address space. -/
lemma Tidy.setFlagsLoop_sameLeaves (h : s.Tidy roots)
    (hr : r ∈ roots) (hp : flags.get .present = true)
    (hs : setFlagsLoop r flags skip pages s = .ok (res, s')) :
    SameLeaves roots s.mem s'.mem := by
  have hW : WalkInvariant r (fun _ => True) (·.Tidy roots) := walkInvariant_tidy hr
  induction pages generalizing skip s with
  | nil =>
    cases skip <;> cases hs <;> exact .refl _ _
  | cons page pages ih =>
    cases skip with
    | succ skip => exact ih h hs
    | zero =>
      rcases Comp.bind_eq_ok hs with ⟨n, s₁, h₁, hs⟩ | ⟨x, s₁, h₁, hx⟩
      · exact (h.setFlagsPage_sameLeaves hr hp h₁).trans
          (ih (hW.setFlagsPage flags h trivial _ _ h₁) hs)
      · cases hx
        exact h.setFlagsPage_sameLeaves hr hp h₁

/-- The calls take frames and do nothing else to the allocator. -/
lemma callInvariant_allocator {A : Type} [AllocateFrame A] {J : A → Prop}
    (hJ : ∀ a f a', J a → AllocateFrame.allocateFrame a = (f, a') → J a') (pages : Page → Prop) :
    CallInvariant r pages fun s : PagingState A => J s.allocator where
  allocate hs hal := hJ _ _ _ hs hal
  mapTo _ _ hs _ _ _ h := mapTo_allocator hJ hs h
  setFlagsPage {page s} flags hs _ res s' h := by
    have hW : StepsDown page (parentTableFlags flags) fun _ _ (s : PagingState A) =>
        J s.allocator := ⟨fun _ hs hn => nextTable_allocator hJ hs hn⟩
    rcases hW.setFlagsPage hs h with ⟨x, q, i, is, t, s₁, -, -, hs₁, -, hx⟩
      | ⟨q, i, is, t, s₁, -, -, hs₁, -, -, rfl⟩ | ⟨t, s₁, hs₁, -, ⟨-, rfl⟩ | ⟨-, rfl⟩⟩
    · exact nextTable_allocator hJ hs₁ hx
    · exact hs₁
    · exact hs₁
    · exact hs₁

lemma setFlagsLoop_grown {a : ProxyAllocator} (ha : a.Grown s.allocator)
    (h : setFlagsLoop r flags skip pages s = .ok (res, s')) :
    a.Grown s'.allocator :=
  (callInvariant_allocator (J := fun a' => a.Grown a') (fun _ _ _ h hal => h.allocate hal)
    fun _ => True).setFlagsLoop flags (fun _ _ => trivial) skip ha _ _ h

end Leaves

end Rhubarb
