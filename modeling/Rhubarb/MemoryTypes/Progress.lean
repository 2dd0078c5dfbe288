import Rhubarb.MemoryTypes.MapTo

/-!
`map_to` succeeds.

The refinement of `map_to` says what an outcome means; here is when the outcome is a success:
in a page-table tree, on a page that is not mapped and does not lie in a huge leaf, with an
allocator that can still supply the three tables the walk may need.  No assertion on the way
fails either.

* `Supplies n a`: the allocator has `n` more frames to give.
* `mapTo_allocator`: what every allocation keeps, the call keeps.
* `Tree.mapTo_ok`: the success of `map_to`, with what is left of the supply, so that loops over
  pages can be followed by induction.
-/

namespace Rhubarb

variable {n : ℕ} {flags : PageTableFlags} {r : Except MappingError Frame}

open Foundations

namespace Level4PageTable

/-- The allocator gives the next `n` frames it is asked for. -/
def Supplies {A : Type} [AllocateFrame A] : ℕ → A → Prop
  | 0, _ => True
  | n + 1, a => ∃ f a', AllocateFrame.allocateFrame a = (some f, a') ∧ Supplies n a'

variable {A : Type} [AllocateFrame A]

lemma Supplies.of_succ {a : A} (h : Supplies (n + 1) a) : Supplies n a := by
  induction n generalizing a with
  | zero => trivial
  | succ n ih =>
    obtain ⟨f, a', hf, hrest⟩ := h
    exact ⟨f, a', hf, ih hrest⟩

/-! ### What the walk does to the allocator -/

section Allocator

variable {J : A → Prop} (hJ : ∀ a f a', J a → AllocateFrame.allocateFrame a = (f, a') → J a')
include hJ

variable {s s' : PagingState A}

/-- The allocator is only ever asked for frames. -/
lemma nextTable_allocator {t : Frame} {i : TableIndex} (hs : J s.allocator)
    (h : nextTable t i flags s = .ok (r, s')) : J s'.allocator := by
  rcases nextTable_cases h with ⟨-, a, hal, -, rfl⟩ | ⟨-, f, a, g, hal, -, -, rfl⟩
    | ⟨-, g, -, -, rfl⟩ | ⟨-, -, -, rfl⟩
  · exact hJ _ _ _ hs hal
  · exact hJ _ _ _ hs hal
  · exact hs
  · exact hs

lemma level1Table_allocator {root : Frame} {page : Page} (hs : J s.allocator)
    (h : level1Table root page flags s = .ok (r, s')) : J s'.allocator := by
  have hW : StepsDown page flags fun _ _ (s : PagingState A) => J s.allocator :=
    ⟨fun _ hs hn => nextTable_allocator hJ hs hn⟩
  rcases hW.level1Table hs h with ⟨g, -, hs'⟩ | ⟨x, q, i, is, t, s₁, -, -, hs₁, hx⟩
  · exact hs'
  · exact nextTable_allocator hJ hs₁ hx

lemma mapTo_allocator {root frame : Frame} {page : Page} {r : Except MappingError Unit}
    (hs : J s.allocator) (h : mapTo root page frame flags s = .ok (r, s')) : J s'.allocator := by
  rcases mapTo_cases h with ⟨x, h₁, -⟩ | ⟨l1, s₁, h₁, ⟨-, -, rfl⟩ | ⟨-, -, rfl⟩⟩
  · exact level1Table_allocator hJ hs h₁
  · exact level1Table_allocator hJ hs h₁
  · have hs₁ := level1Table_allocator hJ hs h₁
    exact hs₁

end Allocator

/-! ### Success -/

variable {root t : Frame} {i j : TableIndex} {flags : PageTableFlags} {s : PagingState A}
  {pt q : List TableIndex}

/-- An unused entry gets a fresh table. -/
lemma nextTable_unused {f : Frame} {a : A} (hu : (s.mem t i).isUnused = true)
    (hf : AllocateFrame.allocateFrame s.allocator = (some f, a)) (hphys : f.Physical)
    (hp : flags.get .present = true) (hh : flags.get .hugePage = false) :
    nextTable t i flags s
      = .ok (.ok f, ⟨Radix.link s.mem t i (.ofFrame f flags) f .unused, a⟩) := by
  simp only [nextTable_of_unused hu, hf, PageTableEntry.setFrame_of_physical hphys hh]
  change (opened _).map _ = _
  rw [opened_of_frame (PageTableEntry.frame_ofFrame hphys hp hh)]
  rfl

/-- A present entry that leads to a table is followed. -/
lemma nextTable_table {g : Frame} (hu : (s.mem t i).isUnused = false)
    (hpres : (s.mem t i).isPresent = true) (hg : (s.mem t i).frame = .ok (.ok g))
    (hh : flags.get .hugePage = false) :
    nextTable t i flags s
      = .ok (.ok g, ⟨Radix.write s.mem t i (withFlags (s.mem t i) flags), s.allocator⟩) := by
  rw [nextTable_of_used hu, opened_of_frame ((frame_withFlags hpres hh).trans hg)]
  rfl

omit [AllocateFrame A] in
/-- What the walk of an unmapped page meets on its way: an unused entry or another table. -/
lemma Tree.entry_cases (ht : Tree s.mem root) (hlen : pt.length ≤ 3)
    (hd : Radix.descend view s.mem root pt = .ok t)
    (hw : walk s.mem root (pt ++ i :: q) j = .ok (.error .notMapped)) :
    (s.mem t i).isUnused = true
      ∨ (s.mem t i).isUnused = false ∧ (s.mem t i).isPresent = true
        ∧ ∃ g, (s.mem t i).frame = .ok (.ok g) := by
  -- A huge leaf and an entry that cannot be read would both be the answer of the walk.
  have hstop : ∀ answer, view (s.mem t i) = .error answer → answer = .ok (.error .notMapped) := by
    intro answer hview
    rw [← hw, walk, Radix.lookup_of_error]
    rw [Radix.descend_append hd, Radix.descend_cons_error hview]
  cases hu : (s.mem t i).isUnused with
  | true => exact .inl rfl
  | false =>
    have hpres := ht.present t ⟨pt, hlen, hd⟩ i hu
    refine .inr ⟨rfl, hpres, ?_⟩
    cases hf : (s.mem t i).frame with
    | error p =>
      have hbad := hstop _ (by rw [view, hf])
      cases hbad
    | ok r =>
      cases r with
      | ok g => exact ⟨g, rfl⟩
      | error x =>
        cases x with
        | notPresent =>
          rw [PageTableEntry.frame, if_neg (by simp [hpres])] at hf
          split at hf
          · cases hf
          · cases hc : Frame.containingAddr (s.mem t i).addr <;> rw [hc] at hf <;> cases hf
        | hugePage =>
          have hbad := hstop _ (by rw [view, hf])
          cases hbad

/-- **A step down succeeds** on the way to a page that is not mapped. -/
lemma Tree.nextTable_ok (ht : Tree s.mem root) (hlen : pt.length ≤ 3)
    (hd : Radix.descend view s.mem root pt = .ok t)
    (hw : walk s.mem root (pt ++ i :: q) j = .ok (.error .notMapped))
    (hal : Outside (n + 1) s.allocator (IsTable s.mem root)) (hsup : Supplies (n + 1) s.allocator)
    (hp : flags.get .present = true) (hh : flags.get .hugePage = false) :
    ∃ g s', Level4PageTable.nextTable t i flags s = .ok (.ok g, s') ∧ Supplies n s'.allocator := by
  rcases ht.entry_cases hlen hd hw with hu | ⟨hu, hpres, g, hg⟩
  · obtain ⟨f, a, hf, hrest⟩ := hsup
    exact ⟨f, _, nextTable_unused hu hf (hal f a hf).1 hp hh, hrest⟩
  · exact ⟨g, _, nextTable_table hu hpres hg hh, hsup.of_succ⟩

variable {page : Page} {frame : Frame}

/-- The three steps of `map_to` succeed for a page that is not mapped. -/
lemma Tree.level1Table_ok (ht : Tree s.mem root)
    (hw : walk s.mem root (upperIndices page) page.l1Index = .ok (.error .notMapped))
    (hal : Outside (n + 3) s.allocator (IsTable s.mem root)) (hsup : Supplies (n + 3) s.allocator)
    (hp : flags.get .present = true) (hh : flags.get .hugePage = false) :
    ∃ g s', Level4PageTable.level1Table root page flags s = .ok (.ok g, s') ∧ Supplies n s'.allocator := by
  have hd : Radix.descend view s.mem root [] = .ok root := Radix.descend_nil _ _
  obtain ⟨l3, s₁, h₁, hsup₁⟩ := ht.nextTable_ok (by simp) hd hw hal hsup hp hh
  obtain ⟨ht₁, hw₁, hd₁⟩ := ht.nextTable (by simp) hd hal hp hh h₁
  obtain ⟨hd₁, hal₁⟩ := hd₁ l3 rfl
  have hwalk₁ := (hw₁ (upperIndices page) page.l1Index rfl).trans hw
  obtain ⟨l2, s₂, h₂, hsup₂⟩ := ht₁.nextTable_ok (by simp) hd₁ hwalk₁ hal₁ hsup₁ hp hh
  obtain ⟨ht₂, hw₂, hd₂⟩ := ht₁.nextTable (by simp) hd₁ hal₁ hp hh h₂
  obtain ⟨hd₂, hal₂⟩ := hd₂ l2 rfl
  have hwalk₂ := (hw₂ (upperIndices page) page.l1Index rfl).trans hwalk₁
  obtain ⟨l1, s₃, h₃, hsup₃⟩ := ht₂.nextTable_ok (by simp) hd₂ hwalk₂ hal₂ hsup₂ hp hh
  refine ⟨l1, s₃, ?_, hsup₃⟩
  rw [Level4PageTable.level1Table, Comp.bind_apply_ok h₁, Comp.bind_apply_ok h₂, h₃]

/-- **`map_to` succeeds** on a page that is not mapped, given three frames for tables. -/
lemma Tree.mapTo_ok (ht : Tree s.mem root)
    (hw : walk s.mem root (upperIndices page) page.l1Index = .ok (.error .notMapped))
    (hal : Outside (n + 3) s.allocator (IsTable s.mem root)) (hsup : Supplies (n + 3) s.allocator)
    (hframe : frame.Physical) (hp : flags.get .present = true) (hh : flags.get .hugePage = false) :
    ∃ s', Level4PageTable.mapTo root page frame flags s = .ok (.ok (), s')
      ∧ Supplies n s'.allocator := by
  have hp' := (parentTableFlags_get_present flags).trans hp
  have hh' := parentTableFlags_hugePage flags
  obtain ⟨l1, s₁, h₁, hsup₁⟩ := ht.level1Table_ok hw hal hsup hp' hh'
  obtain ⟨-, hw₁, hd₁⟩ := ht.level1Table hal hp' hh' h₁
  -- The leaf is unused: it is what the walk of the page answered with.
  have hu : (s₁.mem l1 page.l1Index).isUnused = true := by
    have hleaf := (hw₁ (upperIndices page) page.l1Index rfl).trans hw
    rw [walk, Radix.lookup_of_ok (hd₁ l1 rfl).1, leafAnswer] at hleaf
    by_contra hc
    rw [if_neg hc] at hleaf
    cases hleaf
  refine ⟨⟨Radix.write s₁.mem l1 page.l1Index (.ofFrame frame flags), s₁.allocator⟩, ?_, hsup₁⟩
  rw [mapTo_of_level1Table h₁, if_pos hu, PageTableEntry.setFrame_of_physical hframe hh]
  rfl

end Level4PageTable

end Rhubarb
