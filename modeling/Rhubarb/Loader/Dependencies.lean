import Rhubarb.Loader.Registry
import Rhubarb.Elf.RoundTrip

/-!
Loading an object together with its dependencies.

* `loadObject_returns`: nested loads come to an end, since each of them is of a file that is not
  in the map of the objects yet and is put there before it is relocated.
* `loadObject_atomic_iff`: a load that fails leaves the maps as they were exactly if it fails
  before the object is published.
-/

namespace Rhubarb.Loader

open Foundations Comp Elf

/-! ### Maps and publishing -/

section Maps

variable {κ ν : Type} [DecidableEq κ]

lemma lookup_cons (e : κ × ν) (m : List (κ × ν)) (k : κ) :
    lookup (e :: m) k = if e.1 = k then some e.2 else lookup m k := by
  rw [lookup, List.find?_cons]
  split_ifs with h
  · simp [h]
  · simp [h, lookup]

lemma lookup_insertKey (k k' : κ) (v : ν) (m : List (κ × ν)) :
    lookup (insertKey k v m) k' = if k = k' then some v else lookup m k' := by
  induction m with
  | nil => rw [insertKey, lookup_cons]
  | cons e m ih =>
    rw [insertKey]
    split_ifs with he hk hk
    · rw [lookup_cons, if_pos hk]
    · rw [lookup_cons, if_neg hk, lookup_cons, if_neg (he ▸ hk)]
    · rw [lookup_cons, if_neg (fun hek => he (hek.trans hk.symm)), ih, if_pos hk]
    · rw [lookup_cons, lookup_cons, ih, if_neg hk]

end Maps

namespace State

variable {s : State} {order : HashOrder (ℕ × LoadedSection)} {object : LoadedObject}

lemma getObject_publish (s : State) (order : HashOrder (ℕ × LoadedSection))
    (object : LoadedObject) (name : Str) :
    (s.publish order object).getObject name =
      if object.name = name then some s.instances.length else s.getObject name :=
  lookup_insertKey _ _ _ _

@[simp] lemma instances_publish : (s.publish order object).instances = s.instances ++ [object] :=
  rfl

lemma names_addDependency (s : State) (o : ℕ) (d : Dependency) :
    (s.addDependency o d).instances.map (·.name) = s.instances.map (·.name) := by
  refine List.ext_getElem (by simp [addDependency]) fun n h₁ h₂ => ?_
  simp only [addDependency, List.getElem_map, List.getElem_modify]
  split_ifs <;> rfl

end State

/-! ### Nested loads come to an end -/

/-- The number of files that are not in the map of the objects yet. -/
def missing (env : Env) (s : State) : ℕ :=
  ((readable env).filter fun n => s.getObject n = none).card

lemma missing_le (env : Env) (s : State) : missing env s ≤ (readable env).card :=
  Finset.card_filter_le _ _

/-- Publishing a file that is missing leaves one file less. -/
lemma missing_publish_lt {env : Env} {s : State} (order : HashOrder (ℕ × LoadedSection))
    {object : LoadedObject} (hmem : object.name ∈ readable env)
    (hnone : s.getObject object.name = none) :
    missing env (s.publish order object) < missing env s := by
  refine Finset.card_lt_card ⟨fun n hn => ?_, fun hle => ?_⟩
  · rw [Finset.mem_filter, State.getObject_publish] at hn
    obtain ⟨hn, hnew⟩ := hn
    split_ifs at hnew
    exact Finset.mem_filter.mpr ⟨hn, hnew⟩
  · have hn := hle (Finset.mem_filter.mpr ⟨hmem, hnone⟩)
    rw [Finset.mem_filter, State.getObject_publish, if_pos rfl] at hn
    cases hn.2

lemma kept_missing (env : Env) (d : ℕ) : KeptMaps fun s => missing env s ≤ d :=
  ⟨fun _ _ _ _ _ hs => hs, fun _ _ _ hs => hs, fun _ _ _ hs => hs⟩

/-- **The bound on nested loads is not reached** as long as it is no lower than the number of
files that are missing. -/
lemma loadObjectImpl_ne_depth (env : Env) (i d : ℕ) :
    LoadKeeps env (fun s => missing env s ≤ d) (· ≠ .depth) (loadObjectImpl env i d) := by
  induction d with
  | zero =>
    intro name bytes s hs
    obtain ⟨hle, hnone, hmem⟩ := hs
    have hpos : 0 < missing env s := Finset.card_pos.mpr ⟨name, Finset.mem_filter.mpr ⟨hmem, hnone⟩⟩
    omega
  | succ d ih =>
    intro name bytes
    refine ((kept_missing env d).load_succ (fun _ h => h) (fun _ _ _ _ _ hs => hs) ih
      (fun _ hs => hs.1) (fun _ hs => Nat.le_succ_of_le hs) fun s object hname hs => ?_).mono
      (fun _ h => h) (fun _ h => h) (fun _ h => h) fun _ _ h => Nat.le_succ_of_le h
    obtain ⟨hle, hnone, hmem⟩ := hs
    rw [← hname] at hnone hmem
    have hlt := missing_publish_lt env.byIndex hmem hnone
    omega

section Bounds

variable {env : Env} {get get' : Str → Load LoadedSection} {load load' : Str → Slice → Load ℕ}

lemma relocateEntry_below (h : ∀ name, Below .depth (get name) (get' name)) (file : ElfFile)
    (symbols : List SymbolTableEntry) (o : ℕ) (sections : List (ℕ × LoadedSection))
    (target : LoadedSection) (base : Address) (entry : Rela) :
    Below .depth (relocateEntry env get file symbols o sections target base entry)
      (relocateEntry env get' file symbols o sections target base entry) := by
  rw [relocateEntry, relocateEntry]
  cases symbols[entry.getSymbolTableIndex]? with
  | none => exact Below.refl _
  | some e =>
    refine Below.bind ?_ fun _ => Below.refl _
    rw [sourceSection, sourceSection]
    cases lookup sections e.shndx.toNat with
    | some _ => exact Below.refl _
    | none => exact Below.bind (Below.refl _) fun name =>
      Below.bind (Below.attempt (h name)) fun _ => Below.refl _

lemma relocate_below (h : ∀ name, Below .depth (get name) (get' name)) (file : ElfFile) (o : ℕ)
    (sections : List (ℕ × LoadedSection)) :
    Below .depth (relocateObjectSections env get file o sections)
      (relocateObjectSections env get' file o sections) := by
  refine Below.bind (Below.refl _) fun symbols => Below.bind (Below.each (fun header => ?_) _)
    fun _ => Below.refl _
  refine Below.bind (Below.refl _) fun entries => ?_
  cases lookup sections header.info.toNat with
  | none => exact Below.refl _
  | some target =>
    exact Below.bind (Below.refl _) fun base =>
      Below.each (relocateEntry_below h file symbols o sections target base) entries

lemma loadFirst_below (h : ∀ name bytes, Below .depth (load name bytes) (load' name bytes))
    (name : Str) (objects : List Str) :
    Below .depth (loadFirst env load name objects) (loadFirst env load' name objects) := by
  induction objects with
  | nil => exact Below.refl _
  | cons object objects ih =>
    refine Below.bind (Below.refl _) fun s => ?_
    split_ifs
    · exact ih
    refine Below.bind (Below.refl _) fun bytes => Below.bind (h object bytes) fun _ =>
      Below.bind (Below.refl _) fun s' => ?_
    cases lookup s'.sections name with
    | some _ => exact Below.refl _
    | none => exact ih

lemma getOrLoad_below (h : ∀ name bytes, Below .depth (load name bytes) (load' name bytes))
    (name : Str) :
    Below .depth (getOrLoadSection env load name) (getOrLoadSection env load' name) := by
  refine Below.bind (Below.refl _) fun s => ?_
  cases lookup s.sections name with
  | some _ => exact Below.refl _
  | none =>
    dsimp only
    cases aliasOf name with
    | some _ => exact Below.refl _
    | none => exact loadFirst_below h _ _

/-- A higher bound changes nothing but a run into the bound. -/
lemma loadObjectImpl_below (env : Env) (i : ℕ) (depth : ℕ) (name : Str) (bytes : Slice) :
    Below .depth (loadObjectImpl env i depth name bytes)
      (loadObjectImpl env i (depth + 1) name bytes) := by
  induction depth generalizing name bytes with
  | zero => exact fun s => .inl rfl
  | succ depth ih =>
    exact Below.bind (Below.refl _) fun _ => Below.bind (Below.refl _) fun _ =>
      Below.bind (Below.refl _) fun _ =>
        Below.bind (relocate_below (getOrLoad_below ih) _ _ _) fun _ => Below.refl _

lemma loadObjectImpl_below_of_le (env : Env) (i : ℕ) {d d' : ℕ} (h : d ≤ d') (name : Str)
    (bytes : Slice) :
    Below .depth (loadObjectImpl env i d name bytes) (loadObjectImpl env i d' name bytes) := by
  induction d', h using Nat.le_induction with
  | base => exact Below.refl _
  | succ d' _ ih => exact ih.trans (loadObjectImpl_below env i d' name bytes)

end Bounds

/-! ### Each dependency is loaded once -/

/-- The objects loaded since there were those with the names `old`: no two of one name, and all
in the map. -/
def LoadedOnce (old : List Str) (s : State) : Prop :=
  ∃ new, s.instances.map (·.name) = old ++ new ∧ new.Nodup ∧ ∀ n ∈ new, (s.getObject n).isSome

lemma LoadedOnce.start {old : List Str} {s : State} (h : s.instances.map (·.name) = old) :
    LoadedOnce old s :=
  ⟨[], by rw [h, List.append_nil], List.nodup_nil, fun _ hn => (List.not_mem_nil hn).elim⟩

lemma LoadedOnce.publish {old : List Str} {s : State} (h : LoadedOnce old s)
    (order : HashOrder (ℕ × LoadedSection)) {object : LoadedObject}
    (hnone : s.getObject object.name = none) : LoadedOnce old (s.publish order object) := by
  obtain ⟨new, hnames, hnodup, hknown⟩ := h
  have hnew : object.name ∉ new := fun hmem => by
    have := hknown _ hmem
    rw [hnone] at this
    cases this
  refine ⟨new ++ [object.name], ?_, ?_, fun n hn => ?_⟩
  · rw [State.instances_publish, List.map_append, hnames, List.append_assoc]
    rfl
  · rw [List.nodup_append]
    refine ⟨hnodup, List.nodup_singleton _, fun a ha b hb hab => hnew ?_⟩
    rw [List.mem_singleton] at hb
    rwa [← hb, ← hab]
  · rw [State.getObject_publish]
    split_ifs with heq
    · rfl
    · rcases List.mem_append.mp hn with hn | hn
      · exact hknown n hn
      · exact absurd (List.mem_singleton.mp hn).symm heq

lemma kept_loadedOnce (old : List Str) : KeptMaps (LoadedOnce old) := by
  refine ⟨fun _ _ _ _ _ hs => hs, fun _ _ _ hs => hs, fun s o d hs => ?_⟩
  obtain ⟨new, hnames, hrest⟩ := hs
  exact ⟨new, (s.names_addDependency o d).trans hnames, hrest⟩

/-- The requested object is loaded, then each of its dependencies once. -/
lemma loadObjectImpl_loadedOnce (env : Env) (i depth : ℕ) (name : Str) (bytes : Slice)
    (old : List Str) :
    Spec (fun s => s.instances.map (·.name) = old) (fun _ => True) (LoadedOnce old)
      (fun _ => LoadedOnce old) (loadObjectImpl env i depth name bytes) := by
  cases depth with
  | zero => exact Spec.panic trivial
  | succ depth =>
    have hload := (kept_loadedOnce old).load_keeps env i
      (fun s object hs hnone => hs.publish env.byIndex hnone) depth
    refine (kept_loadedOnce old).load_succ (fun _ _ => trivial) (fun _ _ _ _ _ hs => hs)
      hload (fun _ => .start) (fun _ hs => hs) fun s object _ hs => ?_
    refine ⟨[object.name], ?_, List.nodup_singleton _, fun n hn => ?_⟩
    · rw [State.instances_publish, List.map_append, hs]
      rfl
    · rw [State.getObject_publish, if_pos (List.mem_singleton.mp hn).symm]
      rfl

/-- **Loading with dependencies ends**: for a bound above the number of files the call comes to an
end of its own, which does not depend on the bound; and if it returns, the objects it has
loaded have names of their own, so that no dependency was loaded twice. -/
theorem loadObject_returns (env : Env) (i : ℕ) (name : Str) (startPage : Page) (s : State) :
    ∃ x, x ≠ .error .depth
      ∧ (∀ depth, (readable env).card < depth → loadObject env depth i name startPage s = x)
      ∧ ∀ r s', x = .ok (r, s') →
        ∃ new, s'.instances.map (·.name) = s.instances.map (·.name) ++ new
          ∧ ∀ n, n ≠ name → new.count n ≤ 1 := by
  -- the bound that is one more than the number of files
  set s₀ : State := { s with startPage }
  have hsame : ∀ depth, loadObject env depth i name startPage s =
      (readObject env name >>= loadObjectImpl env i depth name) s₀ := fun _ => rfl
  have hbelow : ∀ depth, (readable env).card < depth →
      Below .depth (readObject env name >>= loadObjectImpl env i ((readable env).card + 1) name)
        (readObject env name >>= loadObjectImpl env i depth name) := fun depth hd =>
    Below.bind (Below.refl _) fun bytes => loadObjectImpl_below_of_le env i hd name bytes
  have hends : loadObject env ((readable env).card + 1) i name startPage s ≠ .error .depth := by
    have hspec : Spec (fun _ => True) (· ≠ .depth) (fun _ => True) (fun _ _ => True)
        (readObject env name >>= loadObjectImpl env i ((readable env).card + 1) name) := by
      refine Spec.bind (readObject_spec (fun _ _ _ => trivial) (fun _ h _ => h) env name)
        fun bytes => ?_
      refine ((kept_missing env (readable env).card).load_succ (P := fun _ => True) (fun _ h => h)
        (fun _ _ _ _ _ hs => hs) (loadObjectImpl_ne_depth env i _)
        (fun _ _ => trivial) (fun _ _ => trivial) fun s object _ _ => missing_le env _).mono
        (fun _ _ => trivial) (fun _ h => h) (fun _ h => h) fun _ _ _ => trivial
    exact fun hd => (hspec s₀ trivial).1 _ hd rfl
  refine ⟨_, hends, fun depth hd => ?_, fun r s' hx => ?_⟩
  · rw [hsame, hsame] at *
    exact ((hbelow depth hd s₀).resolve_left hends).symm
  · have hspec : Spec (fun s' => s'.instances.map (·.name) = s.instances.map (·.name))
        (fun _ => True) (LoadedOnce (s.instances.map (·.name)))
        (fun _ => LoadedOnce (s.instances.map (·.name)))
        (readObject env name >>= loadObjectImpl env i ((readable env).card + 1) name) := by
      refine Spec.bind ((readObject_spec (fun _ _ hs => hs) (fun _ _ _ => trivial) env
        name).mono (fun _ h => h) (fun _ h => h) (fun _ => .start) fun _ _ h => h.2)
        fun bytes => loadObjectImpl_loadedOnce env i _ name bytes _
    have honce : LoadedOnce (s.instances.map (·.name)) s' := by
      obtain ⟨-, herror, hok⟩ := hspec s₀ rfl
      cases r with
      | ok o => exact hok o s' hx
      | error e => exact herror e s' hx
    obtain ⟨new, hnames, hnodup, -⟩ := honce
    exact ⟨new, hnames, fun n _ => List.nodup_iff_count_le_one.mp hnodup n⟩

/-! ### Loads that fail -/

/-- The maps give the same answer to every name and address. -/
structure SameAnswers (s s' : State) : Prop where
  objects : ∀ n, s'.getObject n = s.getObject n
  sections : ∀ n, lookup s'.sections n = lookup s.sections n
  byAddr : ∀ a, s'.getSectionForAddr a = s.getSectionForAddr a

/-- The object is read and its sections are loaded, so that it is published. -/
def Publishes (env : Env) (i : ℕ) (name : Str) (startPage : Page) (s : State) : Prop :=
  ∃ bytes s₁ r s₂, readObject env name { s with startPage } = .ok (.ok bytes, s₁)
    ∧ loadObjectSections env i name bytes s₁ = .ok (.ok r, s₂)

/-- The objects are numbered by their place among the instances. -/
def State.Numbered (s : State) : Prop := ∀ e ∈ s.objects, e.2 < s.instances.length

lemma State.Numbered.getObject_lt {s : State} (h : s.Numbered) {n : Str} {o : ℕ}
    (ho : s.getObject n = some o) : o < s.instances.length := by
  obtain ⟨e, he, rfl⟩ := Option.map_eq_some_iff.mp ho
  exact h e (List.mem_of_find?_eq_some he)

/-- The maps of two states are the same. -/
def SameMaps (s s' : State) : Prop :=
  s'.instances = s.instances ∧ s'.objects = s.objects ∧ s'.sections = s.sections
    ∧ s'.sectionsByAddr = s.sectionsByAddr

lemma SameMaps.answers {s s' : State} (h : SameMaps s s') : SameAnswers s s' := by
  obtain ⟨-, hobjects, hsections, hbyAddr⟩ := h
  refine ⟨fun n => ?_, fun n => ?_, fun a => ?_⟩
  · rw [State.getObject, hobjects, State.getObject]
  · rw [hsections]
  · rw [State.getSectionForAddr, hbyAddr, State.getSectionForAddr]

/-- What is published stays in the map of the objects, whatever is loaded after it. -/
lemma relocate_getObject (env : Env) (i depth : ℕ) (file : ElfFile) (o : ℕ)
    (sections : List (ℕ × LoadedSection)) (name : Str) (n : ℕ) :
    Keeps (fun s => s.getObject name = some n) (fun _ => True)
      (relocateObjectSections env (getOrLoadSection env (loadObjectImpl env i depth)) file o
        sections) := by
  have hkept : KeptMaps fun s => s.getObject name = some n :=
    ⟨fun _ _ _ _ _ hs => hs, fun _ _ _ hs => hs, fun _ _ _ hs => hs⟩
  refine relocate_keeps hkept.kept (fun _ _ _ => trivial) (getOrLoad_keeps hkept.kept
    (fun _ _ _ => trivial) (hkept.load_keeps env i (fun s object hs hnone => ?_) depth)) _ _
      fun _ _ => trivial
  rw [State.getObject_publish, if_neg, hs]
  rintro rfl
  rw [hs] at hnone
  cases hnone

/-- **Which failures leave the maps alone**: those that come before the object is published. -/
theorem loadObject_atomic_iff {env : Env} {depth i : ℕ} {name : Str} {startPage : Page}
    {s s' : State} {e : String} (hs : s.Numbered)
    (h : loadObject env depth i name startPage s = .ok (.error e, s')) :
    SameAnswers s s' ↔ ¬ Publishes env i name startPage s := by
  have hmaps : OfMaps (SameMaps s) := fun _ _ _ _ _ hs => hs
  have hread := readObject_spec (E := fun _ => True) (P := SameMaps s) (fun _ _ hs => hs)
    (fun _ _ _ => trivial) env name { s with startPage } ⟨rfl, rfl, rfl, rfl⟩
  have h : (readObject env name >>= loadObjectImpl env i depth name) { s with startPage } =
    .ok (.error e, s') := h
  rcases bind_eq_ok h with ⟨bytes, s₁, hbytes, hload⟩ | ⟨e', s₁, hfail, heq⟩
  swap
  · -- the object cannot be read
    cases heq
    refine ⟨fun _ => ?_, fun _ => (hread.2.1 _ _ hfail).answers⟩
    rintro ⟨bytes, s₁, r, s₂, hbytes, -⟩
    rw [hfail] at hbytes
    cases hbytes
  have hmaps₁ : SameMaps s s₁ := (hread.2.2 _ _ hbytes).2
  cases depth with
  | zero => cases hload
  | succ depth =>
  have hsections := loadObjectSections_keeps (E := fun _ => True) hmaps
    (fun _ _ => trivial) env i name bytes s₁ hmaps₁
  rcases bind_eq_ok hload with ⟨r, s₂, hr, hrest⟩ | ⟨e', s₂, hfail, heq⟩
  swap
  · -- its sections cannot be loaded
    cases heq
    refine ⟨fun _ => ?_, fun _ => (hsections.2.1 _ _ hfail).answers⟩
    rintro ⟨bytes', s₁', r, s₂, hbytes', hr⟩
    rw [hbytes] at hbytes'
    cases hbytes'
    rw [hfail] at hr
    cases hr
  -- the object is published, and its name stands for it from then on
  refine ⟨fun hsame => ?_, fun hnot => absurd ⟨bytes, s₁, r, s₂, hbytes, hr⟩ hnot⟩
  obtain ⟨hname, hmaps₂⟩ := hsections.2.2 _ _ hr
  have hpublished : (s₂.publish env.byIndex r.1).getObject name = some s.instances.length := by
    rw [State.getObject_publish, if_pos hname, hmaps₂.1]
  have hkept := relocate_getObject env i depth r.2 s₂.instances.length r.1.sections name
    s.instances.length (s₂.publish env.byIndex r.1) hpublished
  have hlast : s'.getObject name = some s.instances.length := by
    have hrest : (relocateObjectSections env (getOrLoadSection env (loadObjectImpl env i depth))
        r.2 s₂.instances.length r.1.sections >>= fun _ => pure s₂.instances.length)
        (s₂.publish env.byIndex r.1) = .ok (.error e, s') := hrest
    rcases bind_eq_ok hrest with ⟨_, _, -, hpure⟩ | ⟨e', s₃, hfail, heq⟩
    · cases hpure
    · cases heq
      exact hkept.2.1 _ _ hfail
  rw [hsame.objects] at hlast
  exact absurd (hs.getObject_lt hlast) (lt_irrefl _)

/-- The objects of a boot image with plain names, iterated over in the order they are in. -/
def plainEnv (files : List (Str × List UInt8)) : Env where
  files
  bufferAddr := fun _ => 4096
  demangle := id
  alphanumeric := fun _ => true
  byName := ⟨id, fun _ => .refl _⟩
  byIndex := ⟨id, fun _ => .refl _⟩

/-- `Loader::new`, over some memory. -/
def State.start (kernel : KernelMemory) : State where
  kernel
  contents := fun _ => 0
  instances := []
  objects := []
  sections := []
  sectionsByAddr := []
  startPage := ⟨0⟩
  reads := 0

/-- The loader on the small machine, with nothing loaded. -/
def smallStart : State := .start ⟨MemoryState.roomyMemory, kernelMappingBase⟩

/-- An object whose only section is not loaded, with a relocation entry for that section. -/
def looseEnv : Env := plainEnv [(str "app", Image.sampleBytes 0 ⟨0, 1, 1, 5⟩)]

lemma loadObject_loose :
    ∃ e s', loadObject looseEnv 1 0 (str "app") ⟨0⟩ smallStart = .ok (.error e, s')
      ∧ s'.getObject (str "app") = some 0 := by
  obtain ⟨⟨r, s'⟩, hload, hr, hknown⟩ : ∃ y, loadObject looseEnv 1 0 (str "app") ⟨0⟩ smallStart = .ok y
      ∧ y.1.toOption = none ∧ y.2.getObject (str "app") = some 0 := by
    decide +kernel
  cases r with
  | ok o => cases hr
  | error e => exact ⟨e, s', hload, hknown⟩

theorem loadObject_atomic_iff_loose :
    smallStart.Numbered
      ∧ ∃ e s', loadObject looseEnv 1 0 (str "app") ⟨0⟩ smallStart = .ok (.error e, s')
        ∧ (SameAnswers smallStart s' ↔ ¬ Publishes looseEnv 0 (str "app") ⟨0⟩ smallStart) := by
  have hnumbered : smallStart.Numbered := fun _ he => (List.not_mem_nil he).elim
  obtain ⟨e, s', hload, -⟩ := loadObject_loose
  exact ⟨hnumbered, e, s', hload, loadObject_atomic_iff hnumbered hload⟩

/-- The load fails, and the name of the object, which was unknown, has become known. -/
theorem loadObject_publishes_loose :
    ∃ e s', loadObject looseEnv 1 0 (str "app") ⟨0⟩ smallStart = .ok (.error e, s')
      ∧ smallStart.getObject (str "app") = none ∧ s'.getObject (str "app") = some 0
      ∧ ¬ SameAnswers smallStart s' := by
  obtain ⟨e, s', hload, hknown⟩ := loadObject_loose
  refine ⟨e, s', hload, rfl, hknown, fun h => ?_⟩
  have hsame := h.objects (str "app")
  rw [hknown] at hsame
  cases hsame

end Rhubarb.Loader
