import Rhubarb.Loader.Entries
import Rhubarb.Loader.Placement

/-!
What a load keeps, with the loads that are nested in it.

Besides the loading of sections and the publishing of an object, a load changes the state in four
ways: an object is read, an alias is recorded, a dependency is added and a relocation entry is
written into a mapping of the object.  A predicate that these four keep, and that one object keeps
until it is published, is kept by a whole load, however deeply loads are nested.

* `readObject_spec`: the objects that can be read.
* `Kept`: the four steps; `relocate_keeps`, `getOrLoad_keeps`.
* `loadObjectImpl_succ`: one load; `loadObjectImpl_keeps`: the nested ones.
-/

namespace Rhubarb.Loader

open Foundations Comp Elf

variable {P : State → Prop} {E : Panic → Prop} {M : KernelMapping → Prop} {env : Env}
  {get : Str → Load LoadedSection} {load : Str → Slice → Load ℕ}

/-- All panics are allowed but the bound on nested loads and a failed `map_into`. -/
def AllowsMost (E : Panic → Prop) : Prop := ∀ p : Panic, p ≠ .depth → p ≠ .memory .mapSections → E p

lemma AllowsMost.rest (hE : AllowsMost E) : AllowsRest E := by
  intro p hp
  refine hE p ?_ ?_ <;> rintro rfl <;> cases hp

/-! ### Reading objects -/

lemma fileAt_panics {env : Env} {path : Str} {p : Panic} (h : fileAt env path = .error p) :
    p = .path := by
  rw [fileAt] at h
  split_ifs at h
  · dsimp only at h
    split at h <;> cases h
  · cases h
    rfl

lemma lookup_mem {κ ν : Type} [DecidableEq κ] {m : List (κ × ν)} {k : κ} {v : ν}
    (h : lookup m k = some v) : (k, v) ∈ m := by
  obtain ⟨e, he, rfl⟩ := Option.map_eq_some_iff.mp h
  have hk := List.find?_some he
  rw [decide_eq_true_eq] at hk
  rw [← hk]
  exact List.mem_of_find?_eq_some he

/-- The names an object may be read under: its own, and its path. -/
def readable (env : Env) : Finset Str :=
  (env.files.map fun f => f.1).toFinset ∪
    (env.files.map fun f => str "/" ++ f.1 ++ str ".o").toFinset

lemma fileAt_eq_ok {env : Env} {path : Str} {bytes : List UInt8}
    (h : fileAt env path = .ok (.ok bytes)) :
    ∃ f ∈ env.files, path = str "/" ++ f.1 ++ str ".o" := by
  rw [fileAt] at h
  split_ifs at h with hpath
  dsimp only at h
  split at h
  swap
  · cases h
  next found hfound =>
  refine ⟨_, lookup_mem hfound, ?_⟩
  obtain ⟨rest, rfl⟩ := List.isPrefixOf_iff_prefix.mp hpath.1
  have hslash : (str "/").length = 1 := by decide
  have hdrop : (str "/" ++ rest).drop 1 = rest := by
    rw [← hslash, List.drop_left]
  rw [hdrop] at hpath ⊢
  obtain ⟨stem, rfl⟩ := List.isSuffixOf_iff_suffix.mp hpath.2
  have hdot : (str ".o").length = 2 := by decide
  have hlen : (str "/" ++ (stem ++ str ".o")).length - 3 = stem.length := by
    simp only [List.length_append, hslash, hdot]
    omega
  rw [hlen, List.take_left, List.append_assoc]

/-- An object that can be read is one of the files. -/
lemma readObject_spec (hP : ∀ s n, P s → P { s with reads := n }) (hE : AllowsMost E) (env : Env)
    (name : Str) :
    Spec P E P (fun _ s => name ∈ readable env ∧ P s) (readObject env name) := by
  refine Spec.bind (ofResult_spec nofun) fun path => Spec.assume fun hpath => ?_
  refine Spec.bind (ofResult_spec fun p hp => ?_) fun bytes => Spec.assume fun hfile => ?_
  · rw [fileAt_panics hp]
    exact hE _ (by simp) (by simp)
  have hpath : filePath env name = .ok path := Except.ok.inj hpath
  refine Spec.bind Spec.read_same fun _ => Spec.bind (Spec.modify fun s hs => hP s _ hs) fun _ =>
    Spec.pure fun s hs => ⟨?_, hs⟩
  obtain ⟨f, hf, rfl⟩ := fileAt_eq_ok hfile
  simp only [filePath] at hpath
  split_ifs at hpath
  · cases hpath
    exact Finset.mem_union_right _ (List.mem_toFinset.mpr (List.mem_map.mpr ⟨f, hf, rfl⟩))
  · have hname : name = f.1 := by
      have h₁ := Except.ok.inj hpath
      rw [List.append_assoc, List.append_assoc, List.append_cancel_left_eq,
        List.append_cancel_right_eq] at h₁
      exact h₁
    exact Finset.mem_union_left _ (List.mem_toFinset.mpr (List.mem_map.mpr ⟨f, hf, hname.symm⟩))

/-! ### Relocation -/

/-- **A predicate that relocation keeps**, if it writes into mappings with `M`. -/
structure Kept (P : State → Prop) (M : KernelMapping → Prop) : Prop where
  reads : ∀ s n, P s → P { s with reads := n }
  named : ∀ s n sec, P s → P { s with sections := insertKey n sec s.sections }
  depends : ∀ s o d, P s → P (s.addDependency o d)
  applied : ∀ s m base offset bytes, M m → m.addr.add 0 = .ok base →
    offset + bytes.length ≤ m.size → P s →
      P { s with contents := store s.contents (base.toRaw + offset) bytes }

lemma writeRelocation_panics {entry : Rela} {base len targetOffset : ℕ} {source : Address}
    {p : Panic} (h : writeRelocation entry base len targetOffset source = .error p) :
    p = .relocationRange := by
  simp only [writeRelocation] at h
  split_ifs at h
  cases h
  rfl

lemma sourceName_keeps (hE : AllowsRest E) (env : Env) (file : ElfFile) (e : SymbolTableEntry) :
    Keeps P E (sourceName env file e) := by
  refine Spec.bind (Keeps.attempt (elf_keeps hE _)) fun r => ?_
  split
  · exact Spec.fail fun _ h => h
  split_ifs
  · split
    · exact Spec.pure fun _ h => h
    · exact Spec.fail fun _ h => h
  · exact Spec.pure fun _ h => h

lemma externalSection_keeps (hP : Kept P M) (hE : AllowsMost E)
    (hget : ∀ name, Keeps P E (get name)) (file : ElfFile) (o : ℕ) (target : LoadedSection)
    (e : SymbolTableEntry) : Keeps P E (externalSection env get file o target e) := by
  refine Spec.bind (sourceName_keeps hE.rest env file e) fun name =>
    Spec.bind (Keeps.attempt (hget name)) fun r => ?_
  split
  · split_ifs
    · exact Spec.pure fun _ h => h
    · exact Spec.fail fun _ h => h
  refine Spec.bind Spec.read_same fun s => ?_
  split_ifs
  · exact Spec.bind (Spec.modify fun s hs => hP.depends s _ _ hs) fun _ => Spec.pure fun _ h => h
  · exact Spec.fail fun _ h => h

/-- An entry is written into the mapping of its target. -/
lemma applyEntry_keeps (hP : Kept P M) (hE : AllowsMost E) {target : LoadedSection} {base : Address}
    (hM : M target.mapping) (hbase : target.mapping.addr.add 0 = .ok base)
    (hlen : wrappingAdd target.mappingOffset target.size ≤ target.mapping.size) (entry : Rela)
    (source : Address) : Keeps P E (applyEntry target base entry source) := by
  refine Spec.bind (ofResult_spec fun p hp => ?_) fun w => Spec.assume fun hw =>
    Spec.modify fun s hs => ?_
  · rw [writeRelocation_panics hp]
    exact hE _ (by simp) (by simp)
  · obtain ⟨-, hfits, rfl⟩ :=
      (writeRelocation_eq_ok (wrappingAdd_lt _ _) (wrappingAdd_lt _ _)).mp hw
    exact hP.applied s _ _ _ _ hM hbase (by rw [length_leBytes]; omega) hs

lemma relocateEntry_keeps (hP : Kept P M) (hE : AllowsMost E)
    (hget : ∀ name, Keeps P E (get name)) (file : ElfFile) (symbols : List SymbolTableEntry)
    (o : ℕ) (sections : List (ℕ × LoadedSection)) {target : LoadedSection} {base : Address}
    (hM : M target.mapping) (hbase : target.mapping.addr.add 0 = .ok base)
    (hlen : wrappingAdd target.mappingOffset target.size ≤ target.mapping.size) (entry : Rela) :
    Keeps P E (relocateEntry env get file symbols o sections target base entry) := by
  rw [relocateEntry]
  split
  · exact Spec.panic (hE _ (by simp) (by simp))
  refine Spec.bind (Q := fun _ => P) ?_ fun source => ?_
  · rw [sourceSection]
    split
    · exact Spec.pure fun _ h => h
    · exact externalSection_keeps hP hE hget _ _ _ _
  split
  · exact Spec.pure fun _ h => h
  exact Spec.bind (addAddress_spec hE.rest _ _) fun addr => Spec.assume fun _ =>
    applyEntry_keeps hP hE hM hbase hlen entry addr

lemma relaArray_panics {h : SectionHeader} {file : ElfFile} {p : Panic}
    (hp : relaArray h file = .error p) : p.told = false := by
  rw [relaArray] at hp
  split at hp
  · cases hp
    rfl
  · cases hp
  · cases hp

/-- **Relocation keeps what a lookup keeps.** -/
lemma relocate_keeps (hP : Kept P M) (hE : AllowsMost E) (hget : ∀ name, Keeps P E (get name))
    (file : ElfFile) (o : ℕ) {sections : List (ℕ × LoadedSection)}
    (hM : ∀ e ∈ sections, M e.2.mapping) :
    Keeps P E (relocateObjectSections env get file o sections) := by
  refine Spec.bind (elf_keeps hE.rest _) fun symbols => Spec.bind (Spec.each fun h _ => ?_) fun _ => ?_
  · refine Spec.bind (ofResult_keeps fun p hp => hE.rest p (relaArray_panics hp)) fun entries => ?_
    split
    · exact Spec.fail fun _ h => h
    next target htarget =>
    refine Spec.bind (sliceOf_spec hE.rest fun _ => hE _ (by simp) (by simp)) fun base =>
      Spec.assume fun hbase => Spec.each fun entry _ => ?_
    exact relocateEntry_keeps hP hE hget _ _ _ _ (hM _ (lookup_mem htarget)) hbase.1
      (by simpa using hbase.2) _
  · split
    · exact Spec.pure fun _ h => h
    · exact Spec.panic (hE _ (by simp) (by simp))

/-! ### Nested loads -/

/-- What is asked of the loading of a dependency: its name is not known yet, and it is a file. -/
def LoadKeeps (env : Env) (P : State → Prop) (E : Panic → Prop) (load : Str → Slice → Load ℕ) :
    Prop :=
  ∀ name bytes, Spec (fun s => P s ∧ s.getObject name = none ∧ name ∈ readable env) E P
    (fun _ => P) (load name bytes)

lemma loadFirst_keeps (hP : Kept P M) (hE : AllowsMost E) (hload : LoadKeeps env P E load)
    (name : Str) (objects : List Str) : Keeps P E (loadFirst env load name objects) := by
  induction objects with
  | nil => exact Spec.fail fun _ h => h
  | cons object objects ih =>
    rw [loadFirst]
    refine Spec.bind (Spec.read (Q := fun s s' => s' = s ∧ P s) fun _ h => ⟨rfl, h⟩) fun s => ?_
    split_ifs with hsome
    · exact ih.mono (fun s' h => h.1 ▸ h.2) (fun _ h => h) (fun _ h => h) fun _ _ h => h
    have hnone : s.getObject object = none := by simpa using hsome
    have hread : Spec (fun s' => s' = s ∧ P s) E P
        (fun _ s => object ∈ readable env ∧ P s ∧ s.getObject object = none)
        (readObject env object) :=
      (readObject_spec (P := fun s => P s ∧ s.getObject object = none)
        (fun s n hs => ⟨hP.reads s n hs.1, hs.2⟩) hE env object).mono
        (fun s' h => ⟨h.1 ▸ h.2, h.1 ▸ hnone⟩) (fun _ h => h) (fun _ h => h.1) fun _ _ h => h
    refine Spec.bind hread fun bytes => Spec.bind ((hload object bytes).mono
      (fun _ h => ⟨h.2.1, h.2.2, h.1⟩) (fun _ h => h) (fun _ h => h) fun _ _ h => h) fun _ =>
      Spec.bind Spec.read_same fun s' => ?_
    split
    · exact Spec.pure fun _ h => h
    · exact ih

/-- **Looking a symbol up keeps what the loading of a dependency keeps.** -/
lemma getOrLoad_keeps (hP : Kept P M) (hE : AllowsMost E) (hload : LoadKeeps env P E load)
    (name : Str) : Keeps P E (getOrLoadSection env load name) := by
  refine Spec.bind Spec.read_same fun s => ?_
  split
  · exact Spec.pure fun _ h => h
  split
  · split
    · exact Spec.panic (hE _ (by simp) (by simp))
    · exact Spec.bind (Spec.modify fun s hs => hP.named s _ _ hs) fun _ => Spec.pure fun _ h => h
  · exact loadFirst_keeps hP hE hload _ _

/-- **One load**: once its sections are loaded, publishing the object makes `I` hold, and relocation
keeps `I` as the nested loads do. -/
lemma loadObjectImpl_succ {I X : State → Prop} {i depth : ℕ} {name : Str} {bytes : Slice}
    (hE : AllowsMost E) (hI : Kept I M) (hload : LoadKeeps env I E (loadObjectImpl env i depth))
    (hsections : Spec P E X
      (fun r s => I (s.publish env.byIndex r.1) ∧ ∀ e ∈ r.1.sections, M e.2.mapping)
      (loadObjectSections env i name bytes)) (hdone : ∀ s, I s → X s) :
    Spec P E X (fun _ => I) (loadObjectImpl env i (depth + 1) name bytes) := by
  refine Spec.bind hsections fun r => Spec.assume fun hM => Spec.bind Spec.read_same fun s =>
    Spec.bind (Spec.modify fun s hs => hs) fun _ => Spec.bind
      ((relocate_keeps hI hE (getOrLoad_keeps hI hE hload) _ _ hM).mono (fun _ h => h)
        (fun _ h => h) hdone fun _ _ h => h) fun _ => Spec.pure fun _ h => h

/-- **The nested loads** keep what the loading of one new object keeps. -/
lemma loadObjectImpl_keeps {i : ℕ} (hE : AllowsMost E) (hdepth : E .depth) (hP : Kept P M)
    (hsections : ∀ name bytes,
      Spec (fun s => P s ∧ s.getObject name = none ∧ name ∈ readable env) E P
        (fun r s => P (s.publish env.byIndex r.1) ∧ ∀ e ∈ r.1.sections, M e.2.mapping)
        (loadObjectSections env i name bytes)) (depth : ℕ) :
    LoadKeeps env P E (loadObjectImpl env i depth) := by
  induction depth with
  | zero => exact fun _ _ => Spec.panic hdepth
  | succ depth ih =>
    exact fun name bytes => loadObjectImpl_succ hE hP ih (hsections name bytes) fun _ hs => hs

end Rhubarb.Loader
