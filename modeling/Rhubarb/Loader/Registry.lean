import Rhubarb.Loader.Nested

/-!
What loading does to the maps of the loader.

Only two steps change the maps: an object is published once its sections are loaded, and an alias
is recorded; relocation adds dependencies.  So an invariant of the maps is kept by a whole load if
these three keep it, however deeply loads are nested.

* `OfMaps`: a predicate that does not speak of the memory; `loadObjectSections_keeps`.
* `KeptMaps`: one that aliases and dependencies keep; `KeptMaps.load_succ`, `KeptMaps.load_keeps`.
-/

namespace Rhubarb.Loader

open Foundations Comp Elf

/-! ### Loading the sections -/

/-- A predicate that speaks of the maps only. -/
def OfMaps (P : State → Prop) : Prop :=
  ∀ s k c p n, P s → P { s with kernel := k, contents := c, startPage := p, reads := n }

section Sections

variable {P : State → Prop} {E : Panic → Prop} {α : Type}

lemma onKernel_keeps (hP : OfMaps P) (hE : ∀ p, p ≠ .depth → E p)
    (f : KernelMemory → Except Rhubarb.Panic (α × KernelMemory)) : Keeps P E (onKernel f) := by
  refine Spec.intro fun s hs => ?_
  rw [onKernel]
  rcases f s.kernel with p | ⟨a, k⟩
  · exact hE _ (by simp)
  · exact hP s _ _ _ _ hs

lemma write_keeps (hP : OfMaps P) (addr : Address) (bytes : List UInt8) :
    Keeps P E (write addr bytes) :=
  Spec.modify fun s hs => hP s _ _ _ _ hs

lemma sliceOf_keeps (hP : OfMaps P) (hE : ∀ p, p ≠ .depth → E p) (mapping : KernelMapping)
    (offset len : ℕ) : Keeps P E (sliceOf mapping offset len) := by
  refine Spec.bind (onKernel_keeps hP hE _) fun addr => ?_
  split_ifs
  · exact Spec.panic (hE _ (by simp))
  · exact Spec.pure fun _ h => h

lemma OfMaps.writes (hP : OfMaps P) (mapping : KernelMapping) : Writes P mapping :=
  fun s _ _ _ hs _ _ => hP s _ _ _ _ hs

lemma loadSections_keeps (hP : OfMaps P) (hE : ∀ p, p ≠ .depth → E p) (l : Loading)
    (hs : List SectionHeader) (index : ℕ) (c : Cursor) (loaded : List (ℕ × LoadedSection)) :
    Keeps P E (loadSections l index hs c loaded) := by
  have hwrites : WritesAll P l.mappings :=
    ⟨fun _ _ => hP.writes _, fun _ _ => hP.writes _, fun _ _ => hP.writes _⟩
  have hloop : LoopInvariant E l fun _ _ _ _ => True :=
    ⟨fun _ _ => trivial, fun _ _ _ _ => Safe.of_allowed hE _ _ _ _ _, fun _ _ _ _ _ => trivial⟩
  exact (loadSections_spec (allowsRest hE) hwrites hloop trivial).mono (fun _ h => h)
    (fun _ h => h) (fun _ h => h) fun _ _ h => h.1

lemma allocateSectionMappings_keeps (hP : OfMaps P) (hE : ∀ p, p ≠ .depth → E p) (name : Str)
    (file : ElfFile) : Keeps P E (allocateSectionMappings name file) := by
  refine Spec.bind (ofResult_keeps fun p hp => hE p ?_) fun lens =>
    Spec.bind (onKernel_keeps hP hE _) fun _ => Spec.bind (onKernel_keeps hP hE _) fun _ =>
      Spec.bind (onKernel_keeps hP hE _) fun _ => Spec.pure fun _ h => h
  rcases measureLoop_panics hp with ⟨q, rfl⟩ | ⟨rfl, -⟩ <;> simp

lemma mapPart_keeps (hP : OfMaps P) (hE : ∀ p, p ≠ .depth → E p) (i : ℕ)
    (mapping : Option KernelMapping) : Keeps P E (mapPart i mapping) :=
  Spec.bind Spec.read_same fun _ => Spec.bind (onKernel_keeps hP hE _) fun _ =>
    Spec.modify fun s hs => hP s _ _ _ _ hs

lemma copyText_keeps (hP : OfMaps P) (hE : ∀ p, p ≠ .depth → E p) (file : ElfFile)
    (mapping : Option KernelMapping) : Keeps P E (copyText file mapping) := by
  cases mapping with
  | none => exact Spec.pure fun _ h => h
  | some mapping =>
    rw [copyText]
    split_ifs
    · exact Spec.fail fun _ h => h
    · exact Spec.bind (sliceOf_keeps hP hE _ _ _) fun _ => write_keeps hP _ _

/-- **Loading the sections leaves the maps alone**, whether it fails or not. -/
lemma loadObjectSections_keeps (hP : OfMaps P) (hE : ∀ p, p ≠ .depth → E p) (env : Env) (i : ℕ)
    (name : Str) (bytes : Slice) :
    Spec P E P (fun r s => r.1.name = name ∧ P s) (loadObjectSections env i name bytes) := by
  refine Spec.bind (elf_keeps (allowsRest hE) _) fun file => ?_
  split_ifs
  · exact Spec.fail fun _ h => h
  · exact Spec.bind (allocateSectionMappings_keeps hP hE _ _) fun _ =>
      Spec.bind (mapPart_keeps hP hE _ _) fun _ => Spec.bind (mapPart_keeps hP hE _ _) fun _ =>
        Spec.bind (mapPart_keeps hP hE _ _) fun _ => Spec.bind (copyText_keeps hP hE _ _) fun _ =>
          Spec.bind (elf_keeps (allowsRest hE) _) fun _ => Spec.bind Spec.read_same fun _ =>
            Spec.bind (loadSections_keeps hP hE _ _ _ _ _) fun _ => Spec.pure fun _ h => ⟨rfl, h⟩

end Sections

/-! ### Whole loads -/

/-- **A predicate of the maps that an alias and a dependency keep.** -/
structure KeptMaps (P : State → Prop) : Prop where
  ofMaps : OfMaps P
  named : ∀ s n sec, P s → P { s with sections := insertKey n sec s.sections }
  depends : ∀ s o d, P s → P (s.addDependency o d)

namespace KeptMaps

variable {P I : State → Prop} {E : Panic → Prop} {env : Env} {i : ℕ}

lemma kept (hP : KeptMaps P) : Kept P fun _ => True :=
  ⟨fun s _ hs => hP.ofMaps s _ _ _ _ hs, hP.named, hP.depends,
    fun s _ _ _ _ _ _ _ hs => hP.ofMaps s _ _ _ _ hs⟩

/-- **One load**: the sections are loaded with `P`, publishing the object makes `I` hold, and
relocation keeps `I` as the nested loads do. -/
lemma load_succ {X : State → Prop} {depth : ℕ} {name : Str} {bytes : Slice} (hI : KeptMaps I)
    (hE : ∀ p, p ≠ .depth → E p) (hP : OfMaps P)
    (hload : LoadKeeps env I E (loadObjectImpl env i depth))
    (hfail : ∀ s, P s → X s) (hdone : ∀ s, I s → X s)
    (hpublish : ∀ s object, object.name = name → P s → I (s.publish env.byIndex object)) :
    Spec P E X (fun _ => I) (loadObjectImpl env i (depth + 1) name bytes) := by
  refine loadObjectImpl_succ (fun p hp _ => hE p hp) hI.kept hload ?_ hdone
  exact (loadObjectSections_keeps hP hE env i name bytes).mono (fun _ h => h) (fun _ h => h) hfail
    fun r s h => ⟨hpublish s r.1 h.1 h.2, fun _ _ => trivial⟩

/-- **A whole load keeps** what publishing an object with a new name keeps, and what relocation
keeps. -/
lemma load_keeps (hP : KeptMaps P) (env : Env) (i : ℕ)
    (hpublish : ∀ s object, P s → s.getObject object.name = none →
      P (s.publish env.byIndex object)) (depth : ℕ) :
    LoadKeeps env P (fun _ => True) (loadObjectImpl env i depth) := by
  refine loadObjectImpl_keeps (fun _ _ _ => trivial) trivial hP.kept (fun name bytes => ?_) depth
  have hkeep : OfMaps fun s => P s ∧ s.getObject name = none ∧ name ∈ readable env :=
    fun s k c p n hs => ⟨hP.ofMaps s k c p n hs.1, hs.2⟩
  exact (loadObjectSections_keeps hkeep (fun _ _ => trivial) env i name bytes).mono (fun _ h => h)
    (fun _ h => h) (fun _ h => h.1) fun r s h =>
      ⟨hpublish s r.1 h.2.1 (by rw [h.1]; exact h.2.2.1), fun _ _ => trivial⟩

end KeptMaps

end Rhubarb.Loader
