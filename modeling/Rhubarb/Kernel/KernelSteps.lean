import Rhubarb.Kernel.ProcessMemory

/-!
The kernel's invariant over its processes, and that every step keeps it.

A step changes one process at most.  What the others have mapped stays as it was, and the pages
a process has mapped stay mapped where they are for as long as the process lives; its number is
not given to another process.

* `KernelState.Sound`: the invariant, `KernelState.Follows`: what a step keeps.
* `pageFault_cases`, `allowModuleAccess_cases`: what the fault handler and an answer of the
  shell can do.
* `step_follows`: every step keeps the invariant, as long as the tables that `set_flags` links
  are linked below tables of the process (`GrantsOwn`).
-/

namespace Rhubarb

open Foundations MemoryState KernelMemory

variable {kernel : KernelMemory} {sections : List LoadedSection} {processId : ℕ}
  {approvals : List Approval} {images : List ObjectImage} {new : SpaceId → Page → Address → Prop}
  {weak : WeakRefs}

/-! ### The invariant of the kernel -/

namespace KernelState

variable {s s' s'' : KernelState} {kroot : Frame} {i : ℕ} {process : UserProcess}

/-- **The kernel's invariant**: sound memory, known sections that are mapped, an address space
for each process, and sound processes. -/
structure Sound (s : KernelState) (kroot : Frame) : Prop where
  kernel : s.kernel.Sound kroot
  sections : ∀ sec ∈ s.sections, s.kernel.Loaded sec
  live : ∀ i, (s.kernel.memory.spaces (.process i)).isSome = (s.processes i).isSome
  fresh : ∀ i, s.nextProcess ≤ i → s.processes i = none
  framebuffer : ∀ fb, s.framebuffer = some fb → fb.flags.get .present = true
  processes : ∀ i process, s.processes i = some process →
    s.kernel.ProcessSound s.approvals i process

/-- The tables that a fault's `set_flags` links are linked below tables of the process. -/
def GrantsOwn (s : KernelState) : KernelEvent → Prop
  | .pageFault i cr2 weak => ∀ pages flags, s.sectionAt (Address.new cr2) weak = .ok none →
      grantFor s.framebuffer s.pciBars (Address.new cr2) = .ok (some (pages, flags)) →
        s.kernel.LinksOwn i pages
  | .loadObject _ _ => True
  | .idle => True
  | .startProcess _ _ _ => True
  | .exit _ => True
  | .exitProcess => True
  | .allowModuleAccess _ _ _ => True

instance GrantsOwn.decidable (s : KernelState) : ∀ ev, Decidable (s.GrantsOwn ev)
  | .pageFault i cr2 weak =>
    match hsec : s.sectionAt (Address.new cr2) weak with
    | .error _ => isTrue fun _ _ hc => by rw [hsec] at hc; cases hc
    | .ok (some _) => isTrue fun _ _ hc => by rw [hsec] at hc; cases hc
    | .ok none =>
      match hgrant : grantFor s.framebuffer s.pciBars (Address.new cr2) with
      | .error _ => isTrue fun _ _ _ hc => by rw [hgrant] at hc; cases hc
      | .ok none => isTrue fun _ _ _ hc => by rw [hgrant] at hc; cases hc
      | .ok (some (pages, _)) =>
        decidable_of_iff (s.kernel.LinksOwn i pages) (by simp [GrantsOwn, hsec, hgrant])
  | .loadObject _ _ => isTrue trivial
  | .idle => isTrue trivial
  | .startProcess _ _ _ => isTrue trivial
  | .exit _ => isTrue trivial
  | .exitProcess => isTrue trivial
  | .allowModuleAccess _ _ _ => isTrue trivial

/-- **What a step keeps**: the invariant, and what a process that lives on has mapped.  The number
of a process that is gone is not used again. -/
structure Follows (s s' : KernelState) (kroot : Frame) : Prop where
  sound : s'.Sound kroot
  kept : ∀ i, (s.processes i).isSome → (s'.processes i).isSome → ∀ page x,
    s.kernel.memory.leafOf (.process i) page = some x →
      s'.kernel.memory.leafOf (.process i) page = some x
  gone : ∀ i < s.nextProcess, s.processes i = none → s'.processes i = none
  next : s.nextProcess ≤ s'.nextProcess

lemma Follows.refl (hs : s.Sound kroot) : Follows s s kroot :=
  ⟨hs, fun _ _ _ _ _ hx => hx, fun _ _ h => h, le_rfl⟩

lemma Sound.lt_nextProcess (hs : s.Sound kroot) (hi : (s.processes i).isSome) :
    i < s.nextProcess := by
  by_contra hc
  rw [hs.fresh i (not_lt.mp hc)] at hi
  cases hi

/-- A process that is there in the end was there in between. -/
lemma Follows.isSome_between (hs : s.Sound kroot) (h : Follows s s' kroot)
    (h' : Follows s' s'' kroot) (hi : (s.processes i).isSome) (hi'' : (s''.processes i).isSome) :
    (s'.processes i).isSome := by
  by_contra hc
  have hlt := (hs.lt_nextProcess hi).trans_le h.next
  rw [h'.gone i hlt (by simpa using hc)] at hi''
  cases hi''

lemma Follows.trans (hs : s.Sound kroot) (h : Follows s s' kroot) (h' : Follows s' s'' kroot) :
    Follows s s'' kroot := by
  refine ⟨h'.sound, fun i hi hi'' page x hx => ?_, fun i hlt hi => ?_, h.next.trans h'.next⟩
  · have hi' := h.isSome_between hs h' hi hi''
    exact h'.kept i hi' hi'' page x (h.kept i hi hi' page x hx)
  · exact h'.gone i (hlt.trans_le h.next) (h.gone i hlt hi)

/-- **A step that changes one process**: the others and the sections are as they were. -/
lemma Follows.of_elsewhere {processes : ℕ → Option UserProcess} {blocked : List ℕ} {nextProcess : ℕ}
    (hs : s.Sound kroot) (he : Elsewhere s.kernel kernel kroot i)
    (hsections : ∀ sec ∈ sections, kernel.Loaded sec) (happ : s.approvals ⊆ approvals)
    (hothers : ∀ j, j ≠ i → processes j = s.processes j)
    (hlive : (kernel.memory.spaces (.process i)).isSome = (processes i).isSome)
    (hnext : s.nextProcess ≤ nextProcess) (hi : i < nextProcess ∨ processes i = none)
    (hgone : i < s.nextProcess → s.processes i = none → processes i = none)
    (hkept : (s.processes i).isSome → (processes i).isSome → ∀ page x, s.kernel.memory.leafOf
      (.process i) page = some x → kernel.memory.leafOf (.process i) page = some x)
    (hself : ∀ process, processes i = some process → kernel.ProcessSound approvals i process) :
    Follows s { s with
      kernel, sections, processes, blocked, nextProcess, processId, approvals } kroot := by
  have hid : ∀ j, j ≠ i → SpaceId.process j ≠ .process i :=
    fun j hj hc => hj (SpaceId.process.inj hc)
  refine ⟨⟨he.sound, hsections, fun j => ?_, fun j hj => ?_, hs.framebuffer,
    fun j process hp => ?_⟩, fun j hj hj' page x hx => ?_, fun j hlt hj => ?_, hnext⟩
  · by_cases hji : j = i
    · rw [hji]
      exact hlive
    · show (kernel.memory.spaces (.process j)).isSome = (processes j).isSome
      rw [hothers j hji, ← hs.live j, ← Option.isSome_map (f := (·.name)), he.names _ (hid j hji),
        Option.isSome_map]
  · show processes j = none
    by_cases hji : j = i
    · subst hji
      exact hi.resolve_left (not_lt.mpr hj)
    · rw [hothers j hji]
      exact hs.fresh j (hnext.trans hj)
  · have hp : processes j = some process := hp
    by_cases hji : j = i
    · subst hji
      exact hself process hp
    · rw [hothers j hji] at hp
      exact (hs.processes j process hp).elsewhere he hji happ
  · by_cases hji : j = i
    · subst hji
      exact hkept hj hj' page x hx
    · exact he.kept _ (hid j hji) page x hx
  · show processes j = none
    by_cases hji : j = i
    · subst hji
      exact hgone hlt hj
    · rw [hothers j hji, hj]

end KernelState

namespace KernelState

variable {s s' : KernelState} {kroot : Frame} {i : ℕ} {process : UserProcess}

lemma Sound.noSpace (hs : s.Sound kroot) (hi : s.processes i = none) :
    s.kernel.memory.spaces (.process i) = none := by
  have := hs.live i
  rw [hi, Option.isSome_none, Option.isSome_eq_false_iff, Option.isNone_iff_eq_none] at this
  exact this

lemma Sound.exists_space (hs : s.Sound kroot) (hi : s.processes i = some process) :
    ∃ a, s.kernel.memory.spaces (.process i) = some a := by
  rw [← Option.isSome_iff_exists, hs.live i, hi]
  rfl

/-- Entering the kernel's address space changes no address space. -/
lemma Sound.enterKernel (hs : s.Sound kroot) (h : s.kernel.enterKernel = .ok kernel) :
    Follows s { s with kernel } kroot := by
  have hadv := enterKernel_sound hs.kernel h
  refine ⟨⟨hadv.sound, fun sec hsec => (hs.sections sec hsec).advances hadv, fun j => ?_,
    hs.fresh, hs.framebuffer, fun j process hp => ?_⟩, fun j _ _ => hadv.kept _, fun _ _ hj => hj,
    le_rfl⟩
  · rw [← hs.live j]
    exact hadv.spaces_isSome _
  · exact (hs.processes j process hp).advances hadv (List.Subset.refl _) (fun _ _ _ hc => hc)
      fun _ _ _ _ hc => hc.elim

/-- **Dropping a process**. -/
lemma dropProcess_follows (hs : s.Sound kroot) (h : s.dropProcess i = .ok s') :
    Follows s s' kroot := by
  obtain ⟨k₁, henter, h⟩ := ok_of_bind h
  obtain ⟨k₂, hdrop, hrest⟩ := ok_of_bind h
  cases hrest
  have hf₁ := hs.enterKernel henter
  have hs₁ := hf₁.sound
  obtain ⟨he, hnone⟩ := dropSpace_elsewhere hs₁.kernel hdrop
  have hself : Function.update s.processes i none i = none := Function.update_self _ _ _
  refine hf₁.trans hs (Follows.of_elsewhere hs₁ he
    (fun sec hsec => (hs₁.sections sec hsec).elsewhere he) (List.Subset.refl _)
    (fun j hj => Function.update_of_ne hj _ _) ?_ le_rfl (.inr hself) (fun _ _ => hself)
    (fun _ hc => ?_) (fun process hp => ?_))
  · rw [hnone, hself]
    rfl
  · rw [hself] at hc
    cases hc
  · rw [hself] at hp
    cases hp

/-- **Loading an object** for an address space that is dropped afterwards. -/
lemma loadObject_follows {spaceName : String} (hs : s.Sound kroot)
    (h : s.loadObject spaceName images = .ok s') : Follows s s' kroot := by
  obtain ⟨k₁, henter, h⟩ := ok_of_bind h
  obtain ⟨k₂, hnew, h⟩ := ok_of_bind h
  obtain ⟨⟨k₃, sections⟩, hload, h⟩ := ok_of_bind h
  obtain ⟨k₄, hdrop, hrest⟩ := ok_of_bind h
  cases hrest
  have hf₁ := hs.enterKernel henter
  have hs₁ := hf₁.sound
  have hfresh := hs.fresh s.nextProcess le_rfl
  obtain ⟨he₂, -, -⟩ := newSpace_elsewhere hs₁.kernel (hs₁.noSpace hfresh) hnew
  obtain ⟨hadv₃, hsections⟩ := loadObjects_advances he₂.sound ownFrom_heap le_rfl
    (Nat.le_add_right _ _) (fun sec hsec => (hs₁.sections sec hsec).elsewhere he₂) hload
  have he₃ : Elsewhere k₂ k₃ kroot s.nextProcess := by
    refine hadv₃.elsewhere fun j page x hj _ hc => ?_
    rcases hc with ⟨hc, -⟩ | ⟨hc, -⟩
    · cases hc
    · exact hj (SpaceId.process.inj hc)
  obtain ⟨he₄, hnone⟩ := dropSpace_elsewhere hadv₃.sound hdrop
  refine hf₁.trans hs (Follows.of_elsewhere hs₁ ((he₂.trans he₃).trans he₄)
    (fun sec hsec => (hsections sec hsec).elsewhere he₄) (List.Subset.refl _) (fun _ _ => rfl) ?_
    le_rfl (.inr hfresh) (fun hlt => absurd hlt (lt_irrefl _)) (fun hc => ?_)
    (fun process hp => ?_))
  · rw [hnone]
    exact (Option.isSome_eq_false_iff.mpr (by rw [hfresh]; rfl)).symm
  · have hc : (s.processes s.nextProcess).isSome := hc
    rw [hfresh] at hc
    cases hc
  · rw [hfresh] at hp
    cases hp

/-- **A process is added** with an address space that leaves the others alone. -/
lemma addProcess_follows (hs : s.Sound kroot) (he : Elsewhere s.kernel kernel kroot s.nextProcess)
    (hsome : (kernel.memory.spaces (.process s.nextProcess)).isSome)
    (hsections : ∀ sec ∈ sections, kernel.Loaded sec)
    (hproc : kernel.ProcessSound s.approvals s.nextProcess process) :
    Follows s (addProcess { s with kernel, sections, processId } process) kroot := by
  have hself : Function.update s.processes s.nextProcess (some process) s.nextProcess
      = some process := Function.update_self _ _ _
  refine Follows.of_elsewhere hs he hsections (List.Subset.refl _)
    (fun j hj => Function.update_of_ne hj _ _) ?_ (Nat.le_succ _) (.inl (Nat.lt_succ_self _))
    (fun hlt => absurd hlt (lt_irrefl _)) (fun hc => ?_) (fun p hp => ?_)
  · rw [hsome, hself]
    rfl
  · rw [hs.fresh s.nextProcess le_rfl] at hc
    cases hc
  · rw [hself] at hp
    cases hp
    exact hproc

/-- **The idle process** is added. -/
lemma idle_follows (hs : s.Sound kroot) (h : s.idle = .ok s') : Follows s s' kroot := by
  obtain ⟨k₁, henter, h⟩ := ok_of_bind h
  obtain ⟨k₂, hnew, hrest⟩ := ok_of_bind h
  cases hrest
  have hf₁ := hs.enterKernel henter
  have hs₁ := hf₁.sound
  obtain ⟨he, hsome, hnone⟩ :=
    newSpace_elsewhere hs₁.kernel (hs₁.noSpace (hs.fresh s.nextProcess le_rfl)) hnew
  exact hf₁.trans hs (addProcess_follows hs₁ he hsome
    (fun sec hsec => (hs₁.sections sec hsec).elsewhere he) (processSound_new rfl hnone))

/-- **A process is started**. -/
lemma runUserProcess_follows {name : String} {policy : AccessPolicy} (hs : s.Sound kroot)
    (h : s.runUserProcess name none policy images = .ok s') :
    Follows s s' kroot := by
  obtain ⟨k₁, henter, h⟩ := ok_of_bind h
  obtain ⟨⟨k₂, sections⟩, hspace, hrest⟩ := ok_of_bind h
  cases hrest
  have hf₁ := hs.enterKernel henter
  have hs₁ := hf₁.sound
  obtain ⟨he, hsome, hsections, hproc⟩ : Elsewhere k₁ k₂ kroot s.nextProcess
      ∧ (k₂.memory.spaces (.process s.nextProcess)).isSome ∧ (∀ sec ∈ sections, k₂.Loaded sec)
      ∧ k₂.ProcessSound s.approvals s.nextProcess ⟨s.processId, name, policy, none⟩ :=
    userSpace_sound hs₁.kernel hs₁.sections (hs₁.noSpace (hs.fresh s.nextProcess le_rfl)) rfl hspace
  exact hf₁.trans hs (addProcess_follows hs₁ he hsome hsections hproc)

end KernelState

namespace KernelState

variable {s s' : KernelState} {kroot : Frame} {i : ℕ} {process : UserProcess} {cr2 : ℕ}
  {weak : WeakRefs} {res : FaultResult}

lemma sectionAt_eq_some {addr : Address} {sec : LoadedSection}
    (h : s.sectionAt addr weak = .ok (some sec)) :
    getSectionForAddr addr s.sections = .ok (some sec) := by
  obtain ⟨found, hfound, hrest⟩ := ok_of_bind h
  have hsome := (Option.filter_eq_some_iff.mp (Except.ok.inj hrest)).1
  rw [hfound, hsome]

/-- **What the page-fault handler does** when it does not end the process. -/
lemma pageFault_cases (hres : ∀ code, res ≠ .exit code)
    (h : s.pageFault i process cr2 weak = .ok (res, s')) :
    ((Address.new cr2).domain = .userHeap ∧ res = .resume ∧ ∃ process' kernel,
        heapFault s.kernel i process (Address.new cr2) = .ok (.resume, process', kernel)
          ∧ s' = { s with kernel, processes := Function.update s.processes i (some process') })
      ∨ ((Address.new cr2).domain ≠ .userHeap ∧ res = .resume ∧ ∃ pages flags kernel,
        s.sectionAt (Address.new cr2) weak = .ok none
          ∧ grantFor s.framebuffer s.pciBars (Address.new cr2) = .ok (some (pages, flags))
          ∧ s.kernel.setFlags i pages flags = .ok (.ok (), kernel) ∧ s' = { s with kernel })
      ∨ ((Address.new cr2).domain ≠ .userHeap ∧ res = .resume ∧ process.accessPolicy = .all
        ∧ ∃ sec kernel, s.sectionAt (Address.new cr2) weak = .ok (some sec)
          ∧ s.kernel.mapInto i sec.mapping sec.mapping.pages sec.mapping.flags
            = .ok (.ok (), kernel) ∧ s' = { s with kernel })
      ∨ ((Address.new cr2).domain ≠ .userHeap ∧ process.accessPolicy = .normal
        ∧ (∃ addr owner name, res = .block addr owner name) ∧ s' = s) := by
  simp only [pageFault] at h
  split_ifs at h with hinvalid hheap
  · cases h
    exact absurd rfl (hres _)
  · obtain ⟨⟨r, process', kernel⟩, hfault, hrest⟩ := ok_of_bind h
    cases hrest
    obtain rfl := heapFault_resume hres hfault
    exact .inl ⟨hheap, rfl, process', kernel, hfault, rfl⟩
  refine .inr ?_
  obtain ⟨found, hfound, h⟩ := ok_of_bind h
  cases found with
  | none =>
    obtain ⟨⟨r, kernel⟩, hfault, hrest⟩ := ok_of_bind h
    cases hrest
    obtain ⟨grant, hgrant, hfault⟩ := ok_of_bind hfault
    rcases grant with _ | ⟨pages, flags⟩
    · cases hfault
      exact absurd rfl (hres _)
    · obtain ⟨⟨r', k'⟩, hset, hrest⟩ := ok_of_bind hfault
      cases r' with
      | error e =>
        cases hrest
        exact absurd rfl (hres _)
      | ok u =>
        cases hrest
        exact .inl ⟨hheap, rfl, pages, flags, kernel, hfound, hgrant, hset, rfl⟩
  | some sec =>
    refine .inr ?_
    obtain ⟨⟨r, kernel⟩, hfault, hrest⟩ := ok_of_bind h
    cases hrest
    rw [sectionFault] at hfault
    split at hfault
    · next hpolicy =>
        obtain ⟨⟨r', k'⟩, hmap, hrest⟩ := ok_of_bind hfault
        cases r' with
        | error e =>
          cases hrest
          exact absurd rfl (hres _)
        | ok u =>
          cases hrest
          exact .inl ⟨hheap, rfl, hpolicy, sec, kernel, hfound, hmap, rfl⟩
    · next hpolicy =>
        split_ifs at hfault
        cases hfault
        exact .inr ⟨hheap, hpolicy, ⟨_, _, _, rfl⟩, rfl⟩

/-- A call on the address space of a process that leaves the process sound. -/
lemma Follows.of_advances (hs : s.Sound kroot) (hi : s.processes i = some process)
    (hadv : Advances s.kernel kernel kroot new) (happ : s.approvals ⊆ approvals)
    (hothers : ∀ j page x, j ≠ i → ¬new (.process j) page x) {process' : UserProcess}
    (hself : kernel.ProcessSound approvals i process') :
    Follows s { s with
      kernel, approvals, processes := Function.update s.processes i (some process') } kroot := by
  have hupdate : Function.update s.processes i (some process') i = some process' :=
    Function.update_self _ _ _
  refine Follows.of_elsewhere hs (hadv.elsewhere fun j page x hj _ => hothers j page x hj)
    (fun sec hsec => (hs.sections sec hsec).advances hadv) happ
    (fun j hj => Function.update_of_ne hj _ _) ?_ le_rfl
    (.inl (hs.lt_nextProcess (by rw [hi]; rfl))) (fun _ hc => ?_)
    (fun _ _ => hadv.kept (.process i)) (fun p hp => ?_)
  · rw [hadv.spaces_isSome, hs.live i, hi, hupdate]
    rfl
  · rw [hi] at hc
    cases hc
  · rw [hupdate] at hp
    cases hp
    exact hself

/-- Nothing but the memory and the approvals changes. -/
lemma Follows.of_advances_same (hs : s.Sound kroot) (hi : s.processes i = some process)
    (hadv : Advances s.kernel kernel kroot new) (happ : s.approvals ⊆ approvals)
    (hothers : ∀ j page x, j ≠ i → ¬new (.process j) page x)
    (hself : kernel.ProcessSound approvals i process) :
    Follows s { s with kernel, approvals } kroot := by
  have hf := Follows.of_advances hs hi hadv happ hothers hself
  rwa [← hi, Function.update_eq_self] at hf

/-- **The page-fault handler** keeps the invariant unless it ends the process. -/
lemma pageFault_follows (hs : s.Sound kroot) (hi : s.processes i = some process)
    (hgrants : s.GrantsOwn (.pageFault i cr2 weak)) (hres : ∀ code, res ≠ .exit code)
    (h : s.pageFault i process cr2 weak = .ok (res, s')) : Follows s s' kroot := by
  have hproc := hs.processes i process hi
  obtain ⟨hdom, -, process', kernel, hfault, rfl⟩ | ⟨-, -, pages, flags, kernel, hsec, hgrant, hset,
    rfl⟩ | ⟨-, -, hpolicy, sec, kernel, hsec, hmap, rfl⟩ | ⟨-, -, -, rfl⟩ := pageFault_cases hres h
  · obtain ⟨mapping, rfl, hheap, -, hadv⟩ := heapFault_sound hs.kernel hproc.heap hdom hfault
    refine Follows.of_advances hs hi hadv (List.Subset.refl _) ?_
      ⟨hheap, fun hpolicy page x hpage hx => ?_⟩
    · rintro j page x hj (hc | ⟨hc, -⟩)
      · cases hc
      · exact hj (SpaceId.process.inj hc)
    · have hold : s.kernel.memory.leafOf (.process i) page = some x := by
        rw [← hx, hadv.leafOf_eq hpage.canonical hpage.sharedIndex]
        rintro y (hc | ⟨-, hc⟩)
        · cases hc
        · exact hc.not_inArea hpage
      exact hproc.approved hpolicy page x hpage hold
  · have hflags := grantFor_flags hs.framebuffer hgrant
    have hadv := setFlags_advances hs.kernel hflags.1 (hgrants pages flags hsec hgrant) hset
    exact Follows.of_advances_same hs hi hadv (List.Subset.refl _) (fun _ _ _ _ hc => hc)
      (hproc.advances hadv (List.Subset.refl _) (fun _ _ _ hc => hc) fun _ _ _ _ hc => hc.elim)
  · have hloaded := hs.sections sec (getSectionForAddr_eq_some (sectionAt_eq_some hsec)).1
    have hadv := mapSection_advances hs.kernel hloaded hmap
    refine Follows.of_advances_same hs hi hadv (List.Subset.refl _)
      (fun j page x hj hc => hj (SpaceId.process.inj hc.1))
      (hproc.advances hadv (List.Subset.refl _) (fun page x hp hc => hp.not_inArea hc.2.1) ?_)
    intro hnormal
    rw [hpolicy] at hnormal
    cases hnormal
  · exact Follows.refl hs

end KernelState

/-! ### Every step -/

namespace KernelState

variable {s s' : KernelState} {kroot : Frame} {i : ℕ} {process : UserProcess}
  {ev : KernelEvent}

lemma Sound.of_blocked (hs : s.Sound kroot) (blocked : List ℕ) :
    Follows s { s with blocked } kroot :=
  ⟨⟨hs.kernel, hs.sections, hs.live, hs.fresh, hs.framebuffer, hs.processes⟩,
    fun _ _ _ _ _ hx => hx, fun _ _ hi => hi, le_rfl⟩

/-- The process that has waited longest is one of the processes. -/
lemma popBlocked_eq_ok (h : s.popBlocked = .ok (i, process, s')) :
    s.processes i = some process ∧ ∃ blocked, s.blocked = i :: blocked ∧ s' = { s with blocked } := by
  rw [popBlocked] at h
  split at h
  · cases h
  · next j blocked hb =>
      split at h
      · cases h
      · next p hp =>
          cases h
          exact ⟨hp, blocked, hb, rfl⟩

/-- **What an answer does**: the process that has waited longest is the one it is for, and it is
given the section of the address or dropped. -/
lemma allowModuleAccess_cases {addr : ℕ} (h : s.allowModuleAccess addr processId weak = .ok s') :
    ∃ kernel blocked i process, s.kernel.enterKernel = .ok kernel
      ∧ s.processes i = some process ∧ process.id = processId ∧ s.blocked = i :: blocked
      ∧ (dropProcess { s with kernel, blocked } i = .ok s'
        ∨ ∃ sec res k, getSectionForAddr (Address.new addr) s.sections = .ok (some sec)
          ∧ kernel.mapInto i sec.mapping sec.mapping.pages sec.mapping.flags = .ok (res, k)
          ∧ (s' = { s with kernel := k, blocked, approvals := ⟨process.id, sec⟩ :: s.approvals }
            ∨ dropProcess { s with
                kernel := k, blocked, approvals := ⟨process.id, sec⟩ :: s.approvals } i
              = .ok s')) := by
  obtain ⟨kernel, henter, h⟩ := ok_of_bind h
  obtain ⟨⟨i, process, s₁⟩, hpop, h⟩ := ok_of_bind h
  obtain ⟨hi, blocked, hb, rfl⟩ := popBlocked_eq_ok hpop
  dsimp only at h
  split_ifs at h with hid
  obtain rfl := not_not.mp hid
  obtain ⟨found, hfound, h⟩ := ok_of_bind h
  refine ⟨kernel, blocked, i, process, henter, hi, rfl, hb, ?_⟩
  cases found with
  | none => exact .inl h
  | some sec =>
    obtain ⟨⟨res, k⟩, hmap, h⟩ := ok_of_bind h
    refine .inr ⟨sec, res, k, sectionAt_eq_some hfound, hmap, ?_⟩
    cases res with
    | ok u => exact .inl (Except.ok.inj h).symm
    | error e => exact .inr h

/-- **An answer of the shell**. -/
lemma allowModuleAccess_follows {addr : ℕ} (hs : s.Sound kroot)
    (h : s.allowModuleAccess addr processId weak = .ok s') : Follows s s' kroot := by
  obtain ⟨kernel, blocked, i, process, henter, hi, rfl, -, hcases⟩ := allowModuleAccess_cases h
  have hf₀ := hs.enterKernel henter
  have hf₁ := hf₀.trans hs (hf₀.sound.of_blocked blocked)
  have hs₁ := hf₁.sound
  obtain hdrop | ⟨sec, res, k, hsec, hmap, hcases⟩ := hcases
  · exact hf₁.trans hs (dropProcess_follows hs₁ hdrop)
  have hadv := mapSection_advances hs₁.kernel (hs₁.sections sec (getSectionForAddr_eq_some hsec).1)
    hmap
  have hself : k.ProcessSound (⟨process.id, sec⟩ :: s.approvals) i process :=
    (hs₁.processes i process hi).advances hadv (List.subset_cons_self _ _)
      (fun page x hp hc => hp.not_inArea hc.2.1)
      fun _ page x _ hc => ⟨_, List.mem_cons_self, rfl, hc.2.2⟩
  have hf₂ := hf₁.trans hs (Follows.of_advances_same hs₁ hi hadv
    (List.subset_cons_self ⟨process.id, sec⟩ _) (fun j page x hj hc => hj (SpaceId.process.inj hc.1))
    hself)
  obtain rfl | hdrop := hcases
  · exact hf₂
  · exact hf₂.trans hs (dropProcess_follows hf₂.sound hdrop)

/-- **What a fault event does**: nothing, or what the handler does; a process that has to wait
is blocked. -/
lemma step_pageFault_cases {cr2 : ℕ} (h : s.step (.pageFault i cr2 weak) = .ok s') :
    (s.processes i = none ∨ i ∈ s.blocked) ∧ s' = s
      ∨ ∃ process res s₁, s.processes i = some process ∧ i ∉ s.blocked
      ∧ (∀ code, res ≠ FaultResult.exit code) ∧ s.pageFault i process cr2 weak = .ok (res, s₁)
      ∧ (res = .resume ∧ s' = s₁ ∨ s' = { s₁ with blocked := s₁.blocked ++ [i] }) := by
  rw [step] at h
  split at h
  · next hi =>
      cases h
      exact .inl ⟨.inl hi, rfl⟩
  next process hi =>
  split_ifs at h with hb
  · cases h
    exact .inl ⟨.inr hb, rfl⟩
  refine .inr ?_
  obtain ⟨⟨res, s₁⟩, hfault, h⟩ := ok_of_bind h
  cases res with
  | resume =>
    cases h
    exact ⟨process, _, s', hi, hb, by simp, hfault, .inl ⟨rfl, rfl⟩⟩
  | block addr moduleName sectionName =>
    cases h
    exact ⟨process, _, s₁, hi, hb, by simp, hfault, .inr rfl⟩
  | exit code => cases h

/-- **Every step keeps the invariant**, and what the processes that live on have mapped. -/
theorem step_follows (hs : s.Sound kroot) (hgrants : s.GrantsOwn ev) (h : s.step ev = .ok s') :
    Follows s s' kroot := by
  cases ev with
  | loadObject spaceName images => exact loadObject_follows hs h
  | idle => exact idle_follows hs h
  | startProcess name policy images => exact runUserProcess_follows hs h
  | pageFault i cr2 weak =>
    obtain ⟨-, rfl⟩ | ⟨process, res, s₁, hi, -, hres, hfault, hcases⟩ := step_pageFault_cases h
    · exact Follows.refl hs
    have hf₁ := pageFault_follows hs hi hgrants hres hfault
    obtain ⟨-, rfl⟩ | rfl := hcases
    · exact hf₁
    · exact hf₁.trans hs (hf₁.sound.of_blocked _)
  | exit i =>
    rw [step] at h
    split_ifs at h
    · exact dropProcess_follows hs h
    · cases h
      exact Follows.refl hs
  | exitProcess =>
    obtain ⟨⟨i, process, s₁⟩, hpop, h⟩ := ok_of_bind h
    obtain ⟨-, blocked, -, rfl⟩ := popBlocked_eq_ok hpop
    have hf₁ := hs.of_blocked blocked
    exact hf₁.trans hs (dropProcess_follows hf₁.sound h)
  | allowModuleAccess addr processId weak => exact allowModuleAccess_follows hs h

/-- **Every run keeps the invariant**, and what the processes that live on have mapped. -/
theorem run_follows {evs : List KernelEvent} (hs : s.Sound kroot)
    (hevs : Meets step GrantsOwn s evs) (h : run step s evs = .ok s') : Follows s s' kroot := by
  induction evs generalizing s with
  | nil =>
    cases h
    exact Follows.refl hs
  | cons ev evs ih =>
    obtain ⟨s₁, h₁, h₂⟩ := run_cons_eq_ok h
    have hf₁ := step_follows hs hevs.1 h₁
    exact hf₁.trans hs (ih hf₁.sound (hevs.2 s₁ h₁) h₂)

end KernelState

end Rhubarb
