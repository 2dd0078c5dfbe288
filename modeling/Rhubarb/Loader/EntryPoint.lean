import Rhubarb.Loader.Dependencies

/-!
The entry point of a process (`Scheduler::run_user_process`, `Loader::get_text_section`).

The entry point is looked for among all sections ever loaded, by the start and the end of the
name, and the first one in the order of a hash map is taken.

* `getTextSection_forall_iff`: in every order it is the same section that is found, exactly if it
  is the only one with such a name.
* `runUserProcess_entry`: the entry point of a new process.
* `entryPoint_iff`: both together, after the object of the process was loaded.
-/

namespace Rhubarb.Loader

open Foundations Comp Elf

/-! ### Lookups in an arbitrary order -/

/-- The order that takes one entry first. -/
noncomputable def HashOrder.first {α : Type} (a : α) : HashOrder α := by
  classical
  exact ⟨fun m => if a ∈ m then a :: m.erase a else m, fun m => by
    split_ifs with h
    · exact (List.perm_cons_erase h).symm
    · exact .refl m⟩

lemma HashOrder.find?_first {α : Type} {p : α → Bool} {a : α} {m : List α} (ha : a ∈ m)
    (hp : p a = true) : ((HashOrder.first a).order m).find? p = some a := by
  classical
  have horder : (HashOrder.first a).order m = a :: m.erase a := if_pos ha
  rw [horder, List.find?_cons_of_pos hp]

/-- A search finds the same in every order if only one thing can be found. -/
lemma HashOrder.find?_map_forall_iff {α β : Type} {p : α → Bool} {f : α → β} {m : List α} {b : β} :
    (∀ order : HashOrder α, ((order.order m).find? p).map f = some b) ↔
      (∃ a ∈ m, p a = true ∧ f a = b) ∧ ∀ a ∈ m, p a = true → f a = b := by
  constructor
  · intro h
    have hall : ∀ a ∈ m, p a = true → f a = b := by
      intro a ha hp
      have := h (.first a)
      rwa [HashOrder.find?_first ha hp, Option.map_some, Option.some_inj] at this
    obtain ⟨a, ha, hb⟩ := Option.map_eq_some_iff.mp (h ⟨id, fun _ => .refl _⟩)
    exact ⟨⟨a, List.mem_of_find?_eq_some ha, List.find?_some ha, hb⟩, hall⟩
  · rintro ⟨⟨a, ha, hp, -⟩, hall⟩ order
    have hsome : ((order.order m).find? p).isSome :=
      List.find?_isSome.mpr ⟨a, (order.perm m).mem_iff.mpr ha, hp⟩
    obtain ⟨a', ha'⟩ := Option.isSome_iff_exists.mp hsome
    have hmem : a' ∈ m := (order.perm m).mem_iff.mp (List.mem_of_find?_eq_some ha')
    rw [ha', Option.map_some, hall a' hmem (List.find?_some ha')]

/-! ### The section of the entry point -/

/-- The live text sections whose name has a start and an end. -/
def State.textMatches (s : State) (start stop : Str) : Set LoadedSection :=
  { sec | ∃ n, (n, sec) ∈ s.sections ∧ s.upgrades sec ∧ sec.kind = .text
    ∧ startsWith n start ∧ endsWith n stop }

lemma getTextSection_forall_iff (s : State) (start stop : Str) (m : LoadedSection) :
    (∀ order, s.getTextSection order start stop = some m) ↔ s.textMatches start stop = {m} := by
  refine HashOrder.find?_map_forall_iff.trans ⟨fun h => ?_, fun h => ?_⟩
  · obtain ⟨⟨⟨n, sec⟩, hmem, hp, rfl⟩, hall⟩ := h
    refine Set.eq_singleton_iff_unique_mem.mpr ⟨⟨n, hmem, of_decide_eq_true hp⟩, ?_⟩
    rintro sec' ⟨n', hmem', hp'⟩
    exact hall (n', sec') hmem' (decide_eq_true hp')
  · obtain ⟨⟨n, hmem, hp⟩, hall⟩ := Set.eq_singleton_iff_unique_mem.mp h
    refine ⟨⟨(n, m), hmem, decide_eq_true hp, rfl⟩, fun e hmem' hp' => ?_⟩
    exact hall e.2 ⟨e.1, hmem', of_decide_eq_true hp'⟩

/-- The process is started at the section that is found, in the code of the process. -/
lemma runUserProcess_entry {env : Env} {depth i id o : ℕ} {name : Str} {stackSize : Option ℕ}
    {s s₁ s₂ : State} {k : KernelMemory} {m : LoadedSection} {r : ℕ × Address}
    (hspace : s.kernel.newSpace i (Str.text name ++ "." ++ toString id) = .ok k)
    (hload : loadObject env depth i name AddressDomain.userCode.baseAddr.page
      { s with kernel := k } = .ok (.ok o, s₁))
    (hfound : s₁.getTextSection env.byName name (str "main") = some m)
    (h : runUserProcess env depth i id name stackSize s = .ok (.ok r, s₂)) :
    r.1 = o ∧ AddressDomain.userCode.baseAddr.add m.mappingOffset = .ok r.2 := by
  have hnew : (onKernel fun k => do
      let k ← k.newSpace i (Str.text name ++ "." ++ toString id)
      .ok ((), k) : Load Unit) s = .ok (.ok (), { s with kernel := k }) := by
    rw [onKernel, bind_of_ok hspace]
  rw [runUserProcess, bind_apply_ok hnew, bind_apply_ok (attempt_apply hload)] at h
  simp only at h
  rw [bind_apply_ok (read_apply _), hfound] at h
  simp only at h
  split_ifs at h
  · rcases bind_eq_ok h with ⟨entry, s₃, hentry, h⟩ | ⟨_, _, _, he⟩
    · rcases bind_eq_ok h with ⟨_, s₄, _, h⟩ | ⟨_, _, _, he⟩
      · cases h
        obtain ⟨_, heq, hentry, -⟩ := onAddress_eq_ok hentry
        cases heq
        exact ⟨rfl, hentry⟩
      · cases he
    · cases he
  · cases h

/-- **The entry point**: after the object of a process was loaded, the section `m` is found as the
entry point in every order of the hash map exactly if no other live text section has a name that
starts with the name of the object and ends with `main`; the process is then started there. -/
theorem entryPoint_iff {env : Env} {depth i o : ℕ} {name : Str} {s s₁ : State} {k : KernelMemory}
    (id : ℕ) (stackSize : Option ℕ) (m : LoadedSection)
    (hspace : s.kernel.newSpace i (Str.text name ++ "." ++ toString id) = .ok k)
    (hload : loadObject env depth i name AddressDomain.userCode.baseAddr.page
      { s with kernel := k } = .ok (.ok o, s₁)) :
    ((∀ order, s₁.getTextSection order name (str "main") = some m) ↔
        s₁.textMatches name (str "main") = {m})
      ∧ (s₁.textMatches name (str "main") = {m} → ∀ r s₂,
        runUserProcess env depth i id name stackSize s = .ok (.ok r, s₂) →
          r.1 = o ∧ AddressDomain.userCode.baseAddr.add m.mappingOffset = .ok r.2) := by
  refine ⟨getTextSection_forall_iff s₁ name (str "main") m, fun h r s₂ hrun => ?_⟩
  have hfound := (getTextSection_forall_iff s₁ name (str "main") m).mpr h env.byName
  exact runUserProcess_entry hspace hload hfound hrun

/-! ### Two functions that end in the same letters -/

/-- An object with the function `app::main`, another one behind it, whose name has eleven letters,
and a relocation entry for that. -/
def pairBytes (other : String) (r : Relocation) : List UInt8 :=
  let sectionNames := str ("\x00.text.app::main\x00.text." ++ other ++
    "\x00.symtab\x00.strtab\x00.shstrtab\x00.rela.text." ++ other ++ "\x00")
  let symbolNames := str ("\x00app::main\x00" ++ other ++ "\x00")
  let header : FileHeader := ⟨1, 0, 0, 1, 62, 1, 0, 0, 288, 0, 0, 0, 5⟩
  let symbols : List SymbolTableEntry :=
    [⟨0, 0, 0, 0, 0, 0⟩, ⟨1, 0x12, 0, 1, 0, 8⟩, ⟨11, 0x12, 0, 2, 0, 8⟩]
  let sections : List SectionHeader :=
    [⟨0, 0, 0, 0, 0, 0, 0, 0, 0, 0⟩, ⟨1, 1, 6, 0, 64, 8, 0, 0, 8, 0⟩,
      ⟨17, 1, 6, 0, 72, 8, 0, 0, 8, 0⟩, ⟨35, 2, 0, 0, 80, 72, 4, 1, 8, 24⟩,
      ⟨43, 3, 0, 0, 152, 23, 0, 0, 1, 0⟩, ⟨51, 3, 0, 0, 176, 84, 0, 0, 1, 0⟩,
      ⟨61, 4, 0x40, 0, 264, 24, 3, 2, 8, 24⟩]
  header.encodeIdent ++ header.encodeBody 7 ++ List.replicate 8 1 ++ List.replicate 8 2 ++
    symbols.flatMap SymbolTableEntry.encode ++ symbolNames ++ [0] ++ sectionNames ++
    [0, 0, 0, 0] ++ r.encode ++ sections.flatMap SectionHeader.encode

/-- The object with a second function, and its first loading into a new address space. -/
def pairEnv (other : String) : Env := plainEnv [(str "app", pairBytes other ⟨0, 1, 1, 5⟩)]

theorem entryPoint_iff_helper :
    ∃ k o s₁ m, smallStart.kernel.newSpace 0 (Str.text (str "app") ++ "." ++ toString 0) = .ok k
      ∧ loadObject (pairEnv "app::helper") 1 0 (str "app") AddressDomain.userCode.baseAddr.page
        { smallStart with kernel := k } = .ok (.ok o, s₁)
      ∧ s₁.getTextSection ⟨List.reverse, List.reverse_perm⟩ (str "app") (str "main") = some m
      ∧ ((∀ order, s₁.getTextSection order (str "app") (str "main") = some m) ↔
        s₁.textMatches (str "app") (str "main") = {m}) := by
  obtain ⟨k, hnew, o, s₁, hload, m, hm, -⟩ :
      ∃ k, smallStart.kernel.newSpace 0 (Str.text (str "app") ++ "." ++ toString 0) = .ok k
        ∧ ∃ o s₁, loadObject (pairEnv "app::helper") 1 0 (str "app")
            AddressDomain.userCode.baseAddr.page { smallStart with kernel := k } = .ok (.ok o, s₁)
          ∧ ∃ m, s₁.getTextSection ⟨List.reverse, List.reverse_perm⟩ (str "app") (str "main")
            = some m ∧ True := by
    decide +kernel
  exact ⟨k, o, s₁, m, hnew, hload, hm, (entryPoint_iff 0 none m hnew hload).1⟩

set_option synthInstance.maxSize 256

/-- The object has the section `app::main`, and the function `app::domain` is found. -/
theorem entryPoint_domain :
    ∃ k o s₁ object main other order,
      smallStart.kernel.newSpace 0 (Str.text (str "app") ++ "." ++ toString 0) = .ok k
      ∧ loadObject (pairEnv "app::domain") 1 0 (str "app") AddressDomain.userCode.baseAddr.page
        { smallStart with kernel := k } = .ok (.ok o, s₁)
      ∧ s₁.instances[o]? = some object ∧ lookup object.sections 1 = some main
      ∧ main.name = str "app::main" ∧ main.global = true ∧ main.kind = .text
      ∧ s₁.getTextSection order (str "app") (str "main") = some other
      ∧ other.name = str "app::domain" := by
  obtain ⟨k, hnew, o, s₁, hload, object, hobject, main, hmain, hn, hg, hk, other, hother, hname⟩ :
      ∃ k, smallStart.kernel.newSpace 0 (Str.text (str "app") ++ "." ++ toString 0) = .ok k
        ∧ ∃ o s₁, loadObject (pairEnv "app::domain") 1 0 (str "app")
            AddressDomain.userCode.baseAddr.page { smallStart with kernel := k } = .ok (.ok o, s₁)
          ∧ ∃ object, s₁.instances[o]? = some object
            ∧ ∃ main, lookup object.sections 1 = some main ∧ main.name = str "app::main"
              ∧ main.global = true ∧ main.kind = .text
              ∧ ∃ other, s₁.getTextSection ⟨List.reverse, List.reverse_perm⟩ (str "app")
                  (str "main") = some other ∧ other.name = str "app::domain" := by
    decide +kernel
  exact ⟨k, o, s₁, object, main, other, _, hnew, hload, hobject, hmain, hn, hg, hk, hother, hname⟩

end Rhubarb.Loader
