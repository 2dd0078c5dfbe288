import Rhubarb.Foundations.Comp
import Rhubarb.Kernel.Census
import Rhubarb.Memory.Ownership

/-!
Which address space is active (`Cr3` and the TSS, as `kernel/src/scheduler.rs` sets them).

The scheduler of `Kernel/Scheduler.lean` says which process goes on.  A `Machine` runs it over
the memory of `Memory/AddressSpace.lean`: the handlers enter the kernel's address space and that
of a process, create and drop address spaces, and look into the shell's rings through the
kernel's mapping.  A process has the number under which the memory has its address space.  What
the loader and the fault handler map meanwhile is any list of mapping calls.

* `step_simulates`: without the memory, a step of the machine is a step of the scheduler's system.
* `Sound`, `step_ends`: every process has an address space of its own, and each step keeps that.
* `activation_run`: what is active, in every run.
-/

namespace Rhubarb

open Foundations Scheduler MemoryState

variable {F : Type}

/-! ### The machine -/

/-- Why the machine stops: for an expect or an assertion of the scheduler or of the memory code.
The other reasons are not in the code.  The machine is watched: it stops where a process has lost
its address space, where the active address space is dropped, and where the shell's queue is
accessed while another address space than the kernel's is active. -/
inductive MachineStop where
  | scheduler (p : SchedulerPanic)
  | memory (p : Panic)
  | noSpace
  | droppedActive
  | accessedElsewhere
  deriving DecidableEq, Repr

/-- The code itself panics. -/
def MachineStop.IsPanic : MachineStop → Prop
  | .scheduler _ => True
  | .memory _ => True
  | .noSpace => False
  | .droppedActive => False
  | .accessedElsewhere => False

/-- The offset of the I/O map in the TSS for a process that may use it or not:
`size_of::<TaskStateSegment>()`, or past the end. -/
def iomapOffset (allowUserIo : Bool) : ℕ := if allowUserIo then 104 else 0xFFFF

/-- The scheduler's system over the memory, and the I/O map of the TSS. -/
structure Machine (F : Type) where
  system : System ℕ F
  memory : MemoryState
  nextSpace : ℕ
  iomapBase : ℕ

/-- What the memory code and the loader do and answer during a step. -/
structure Calls (F : Type) where
  mapping : List MappingCall
  translateAddress : ℕ → ℕ → Option ℕ
  moduleAccess : ModuleAccess Unit
  load : Option ExecutionContext
  fault : FaultDecision Unit
  initFxsaveArea : F

/-- The same answers for the scheduler alone, where `next` is the number of the next address
space: the address space of a process stays its own. -/
def Calls.env (calls : Calls F) (next : ℕ) : Env ℕ F where
  translateAddress := calls.translateAddress
  moduleAccess space _ :=
    match calls.moduleAccess with
    | .granted _ => .granted space
    | .mappingFailed => .mappingFailed
    | .noSection => .noSection
  loadProcess _ _ := calls.load.map fun context => (next, context)
  fault process :=
    match calls.fault with
    | .resume _ => .resume process.addressSpace
    | .block addr moduleName sectionName => .block addr moduleName sectionName
    | .terminate context => .terminate context
  initFxsaveArea := calls.initFxsaveArea

variable {kroot : Frame} {memory : MemoryState}

/-- The name of an address space: the bytes of the process's name, and its id. -/
def spaceName (name : List UInt8) (id : ℕ) : String :=
  String.ofList (name.map fun byte => Char.ofNat byte.toNat) ++ "." ++ toString id

namespace Machine

open MachineStop

/-- The scheduler of the machine. -/
def scheduler (m : Machine F) : Scheduler ℕ F := m.system.scheduler

def withScheduler (m : Machine F) (scheduler : Scheduler ℕ F) : Machine F :=
  { m with system := { m.system with scheduler } }

@[simp] lemma scheduler_withScheduler (m : Machine F) (c : Scheduler ℕ F) :
    (m.withScheduler c).scheduler = c := rfl

/-- An operation of the scheduler that leaves the memory alone. -/
def onScheduler (m : Machine F)
    (op : Scheduler ℕ F → Except SchedulerPanic (Scheduler ℕ F)) : Except MachineStop (Machine F) :=
  match op m.scheduler with
  | .ok scheduler => .ok (m.withScheduler scheduler)
  | .error p => .error (.scheduler p)

/-- `AddressSpace::enter`. -/
def enter (m : Machine F) (id : SpaceId) : Except MachineStop (Machine F) :=
  match m.memory.spaces id with
  | some space => .ok { m with memory := { m.memory with cr3 := space.frame } }
  | none => .error .noSpace

/-- `KernelMapping::as_mut`, on the mapping of the shell's queue. -/
def asMut (m : Machine F) : Except MachineStop (Machine F) :=
  if m.memory.rootOf .kernel = some m.memory.cr3 then .ok m else .error .accessedElsewhere

/-- `gdt::set_user_io_allowed`. -/
def setUserIoAllowed (m : Machine F) (allowUserIo : Bool) : Machine F :=
  { m with iomapBase := iomapOffset allowUserIo }

/-- The address space of a process is dropped with it. -/
def dropSpace (m : Machine F) (i : ℕ) : Except MachineStop (Machine F) :=
  match m.memory.spaces (.process i) with
  | some space =>
    if m.memory.cr3 = space.frame then .error .droppedActive
    else .ok { m with memory := m.memory.dropSpace (.process i) space }
  | none => .error .noSpace

/-- `AddressSpace::new(name, None)`, under the next number. -/
def newSpace (m : Machine F) (name : String) : Except MachineStop (ℕ × Machine F) :=
  match m.memory.newSpace (.process m.nextSpace) name none with
  | .ok memory => .ok (m.nextSpace, { m with memory, nextSpace := m.nextSpace + 1 })
  | .error p => .error (.memory p)

/-- The mapping calls of a step. -/
def map (m : Machine F) (cs : List MappingCall) : Except MachineStop (Machine F) :=
  match m.memory.calls cs with
  | .ok memory => .ok { m with memory }
  | .error p => .error (.memory p)

/-- `Scheduler::run_user_process`. -/
def runUserProcess (calls : Calls F) (m : Machine F) (name : List UInt8) (allowIo : Bool)
    (accessPolicy : AccessPolicy) : Except MachineStop (Machine F) := do
  let id := m.scheduler.processId
  let (space, m) ← m.newSpace (spaceName name id)
  let m ← m.map calls.mapping
  match calls.load with
  | none => .error (.scheduler .loadObject)
  | some context =>
    .ok <| m.withScheduler <|
      { m.scheduler with processId := (id + 1) % processIdRange }.addToQueue
        ⟨id, name, accessPolicy, .normal, space, some context, allowIo, calls.initFxsaveArea⟩

/-- What `schedule_next` does with a message of the shell.  A process that is not queued again is
dropped at the end of its arm of the `match`. -/
def handleOutput (calls : Calls F) (m : Machine F) : ShellOutput → Except MachineStop (Machine F)
  | .exitProcess _ =>
    match m.scheduler.blocked with
    | [] => .error (.scheduler .noBlockedProcess)
    | process :: rest =>
      (m.withScheduler { m.scheduler with blocked := rest }).dropSpace process.addressSpace
  | .startProcess name => m.runUserProcess calls name.asStr true .normal
  | .allowModuleAccess _ processId =>
    match m.scheduler.blocked with
    | [] => .error (.scheduler .noBlockedProcess)
    | process :: rest =>
      if processId ≠ process.id then .error (.scheduler .processIdMismatch)
      else do
        let m ← (m.withScheduler { m.scheduler with blocked := rest }).map calls.mapping
        match calls.moduleAccess with
        | .granted _ => .ok (m.withScheduler (m.scheduler.addToQueue process))
        | .mappingFailed => m.dropSpace process.addressSpace
        | .noSection => m.dropSpace process.addressSpace

/-- The first part of `schedule_next`: the kernel's address space is entered and the shell's ring
looked at. -/
def pollShell (calls : Calls F) (m : Machine F) : Except MachineStop (Machine F) := do
  let m ← m.enter .kernel
  match m.scheduler.shellQueue with
  | none => .ok m
  | some q => do
    let m ← m.asMut
    let m := m.withScheduler
      { m.scheduler with shellQueue := some { q with output := q.output.pop.2 } }
    match q.output.pop.1 with
    | none => .ok m
    | some output => m.handleOutput calls output

/-- The second part: the address space of the process to go on with is entered.  The I/O map is
set only for a process that is taken from a queue. -/
def selectCurrent (m : Machine F) : Except MachineStop (Process ℕ F × Machine F) :=
  match m.scheduler.current with
  | some process => do
    let m ← m.enter (.process process.addressSpace)
    .ok (process, m)
  | none =>
    match m.scheduler.popNext with
    | .error p => .error (.scheduler p)
    | .ok (process, scheduler) => do
      let m ← (m.withScheduler scheduler).enter (.process process.addressSpace)
      .ok (process, m.setUserIoAllowed process.allowIo)

/-- `Scheduler::schedule_next`. -/
def scheduleNext (calls : Calls F) (m : Machine F) :
    Except MachineStop (ExecutionContext × Machine F) := do
  let m ← m.pollShell calls
  let (process, m) ← m.selectCurrent
  match process.context with
  | none => .error (.scheduler .noContext)
  | some context =>
    .ok (context,
      m.withScheduler { m.scheduler with current := some { process with context := none } })

/-- `Scheduler::block_current`. -/
def blockCurrent (m : Machine F) (request : ShellInput) : Except MachineStop (Machine F) :=
  match m.scheduler.current with
  | none => .error (.scheduler .noProcessToBlock)
  | some process => do
    let m ← (m.withScheduler { m.scheduler with current := none }).enter .kernel
    let m := m.withScheduler
      { m.scheduler with blocked := m.scheduler.blocked ++ [process] }
    match m.scheduler.shellQueue with
    | none => .error (.scheduler .shellNotReady)
    | some q => do
      let m ← m.asMut
      .ok (m.withScheduler
        { m.scheduler with shellQueue := some { q with input := q.input.push request } })

/-- The body of `exit_interrupt_handler`: the process is taken first and dropped last. -/
def exitCurrent (m : Machine F) : Except MachineStop (Machine F) :=
  match m.scheduler.current with
  | none => .error (.scheduler .unreachable)
  | some process =>
    match process.context with
    | none => .error (.scheduler .noContextOnExit)
    | some _ => do
      let m ← (m.withScheduler { m.scheduler with current := none }).enter .kernel
      m.dropSpace process.addressSpace

/-- How `__page_fault_handler` ends, after it has mapped what it could. -/
def faultCurrent (calls : Calls F) (m : Machine F) : Except MachineStop (Machine F) :=
  match m.scheduler.current with
  | none => .error (.scheduler .noRunningProcess)
  | some process => do
    let m ← m.map calls.mapping
    match calls.fault with
    | .resume _ => .ok m
    | .block addr moduleName sectionName =>
      m.blockCurrent (accessRequest process addr moduleName sectionName)
    | .terminate context => do
      let m ← m.onScheduler (·.setCurrentContext context process.fxsaveArea)
      m.exitCurrent

/-- The body of a handler. -/
def body (calls : Calls F) (m : Machine F) : Interrupt → Except MachineStop (Machine F)
  | .timer => m.onScheduler preemptCurrent
  | .defer => m.onScheduler preemptCurrent
  | .exit => m.exitCurrent
  | .translateAddr => m.onScheduler (translateCurrent (calls.env m.nextSpace))
  | .pageFault => m.faultCurrent calls

/-- The steps of the machine. -/
inductive Event (F : Type) where
  | interrupt (interrupt : Interrupt) (context : ExecutionContext) (fxsaveArea : F)
  | handle (calls : Calls F)
  | schedule (calls : Calls F)
  | shell (step : ShellStep)

/-- A step of the system that leaves the memory alone. -/
def onSystem (m : Machine F) (result : Except SchedulerPanic (System ℕ F)) :
    Except MachineStop (Machine F) :=
  match result with
  | .ok system => .ok { m with system }
  | .error p => .error (.scheduler p)

/-- The body of the handler the processor is in. -/
def handle (m : Machine F) (calls : Calls F) (i : Interrupt) : Except MachineStop (Machine F) := do
  let m' ← m.body calls i
  .ok { m' with
    system := { m'.system with
      history := m.system.history.body (calls.env m.nextSpace) m.scheduler i
      phase := .scheduling } }

/-- `schedule`. -/
def schedule (m : Machine F) (calls : Calls F) : Except MachineStop (Machine F) := do
  let (context, m') ← m.scheduleNext calls
  .ok { m' with
    system := { m'.system with
      history := m.system.history.poll (calls.env m.nextSpace) m.scheduler
      phase := .executing
      resumed := m'.scheduler.current.map fun process => (process.id, context) } }

/-- One step of the machine. -/
def step (m : Machine F) : Event F → Except MachineStop (Machine F)
  | .interrupt i context fxsaveArea =>
    m.onSystem (m.system.step (.interrupt i context fxsaveArea))
  | .handle calls =>
    match m.system.phase with
    | .handling i => m.handle calls i
    | .executing => .ok m
    | .scheduling => .ok m
  | .schedule calls =>
    match m.system.phase with
    | .scheduling => m.schedule calls
    | .executing => .ok m
    | .handling _ => .ok m
  | .shell shellStep => m.onSystem (m.system.step (.shell shellStep))

/-- The system before there is a process: `Scheduler::new`. -/
def emptySystem : System ℕ F where
  scheduler := ⟨none, fun _ => [], [], none, 1⟩
  phase := .scheduling
  hand := none
  resumed := none
  history := ⟨[], [], fun _ => none, fun _ => none⟩

/-- The machine when `run` calls `schedule`: the shell was started first, then `Scheduler::init`
has added the idle process and found the rings. -/
def boot (memory : MemoryState) (calls : Calls F) (idleContext : ExecutionContext)
    (shellName idleName : List UInt8) (iomapBase : ℕ) : Except MachineStop (Machine F) := do
  let m ← (⟨emptySystem, memory, 0, iomapBase⟩ : Machine F).runUserProcess calls shellName true .all
  let (space, m) ← m.newSpace "idle"
  let idle : Process ℕ F :=
    ⟨idleProcessId, idleName, .all, .idle, space, some idleContext, true, calls.initFxsaveArea⟩
  .ok (m.withScheduler { m.scheduler.addToQueue idle with shellQueue := some .new })

/-! ### Address spaces of their own -/

/-- The address spaces of all the processes. -/
def tenants (c : Scheduler ℕ F) : List ℕ := c.processes.map (·.addressSpace)

/-- **What holds at every point of a run**: each process has an address space of its own, and the
I/O map is that of the current process. -/
structure Sound (m : Machine F) (kroot : Frame) : Prop where
  housing : m.memory.Housing kroot
  nodup : (tenants m.scheduler).Nodup
  housed : ∀ i ∈ tenants m.scheduler, (m.memory.rootOf (.process i)).isSome
  unused : ∀ i, m.nextSpace ≤ i → m.memory.rootOf (.process i) = none
  io : ∀ p, m.scheduler.current = some p → m.iomapBase = iomapOffset p.allowIo

namespace Sound

variable {m : Machine F} {kroot frame : Frame} {c : Scheduler ℕ F} {i : ℕ}

/-- The processes change places, or some of their other fields. -/
lemma permute (h : m.Sound kroot) (hp : (tenants c).Perm (tenants m.scheduler))
    (hio : ∀ p, c.current = some p → m.iomapBase = iomapOffset p.allowIo) :
    (m.withScheduler c).Sound kroot :=
  ⟨h.housing, hp.nodup_iff.mpr h.nodup, fun i hi => h.housed i (hp.mem_iff.mp hi), h.unused, hio⟩

/-- A process is taken out; its address space is still there and nobody else's. -/
lemma remove (h : m.Sound kroot) (hp : (i :: tenants c).Perm (tenants m.scheduler))
    (hio : ∀ p, c.current = some p → m.iomapBase = iomapOffset p.allowIo) :
    (m.withScheduler c).Sound kroot ∧ i ∉ tenants c ∧ (m.memory.rootOf (.process i)).isSome := by
  obtain ⟨hi, hnodup⟩ := List.nodup_cons.mp (hp.nodup_iff.mpr h.nodup)
  refine ⟨⟨h.housing, hnodup, fun j hj => ?_, h.unused, hio⟩, hi, ?_⟩
  · exact h.housed j (hp.mem_iff.mp (List.mem_cons_of_mem i hj))
  · exact h.housed i (hp.mem_iff.mp List.mem_cons_self)

/-- The address space of the kernel or of a process is entered. -/
lemma enter (h : m.Sound kroot) (id : SpaceId) (hroot : m.memory.rootOf id = some frame) :
    m.enter id = .ok { m with memory := { m.memory with cr3 := frame } }
      ∧ ({ m with memory := { m.memory with cr3 := frame } } : Machine F).Sound kroot := by
  obtain ⟨a, ha, rfl⟩ := Option.map_eq_some_iff.mp hroot
  refine ⟨by simp only [Machine.enter, ha], ?_⟩
  exact ⟨h.housing.setCr3 a.frame, h.nodup, h.housed, h.unused, h.io⟩

/-- The shell's queue is accessed while the kernel's address space is active. -/
lemma asMut (h : m.Sound kroot) (hcr3 : m.memory.cr3 = kroot) : m.asMut = .ok m := by
  rw [Machine.asMut, if_pos (by rw [hcr3, h.housing.kernel])]

lemma setUserIoAllowed (h : m.Sound kroot) (hc : m.scheduler.current = none)
    (allowUserIo : Bool) : (m.setUserIoAllowed allowUserIo).Sound kroot := by
  refine ⟨h.housing, h.nodup, h.housed, h.unused, fun p hp => ?_⟩
  rw [show (m.setUserIoAllowed allowUserIo).scheduler.current = none from hc] at hp
  cases hp

lemma map (h : m.Sound kroot) (cs : List MappingCall) :
    Ends IsPanic (m.map cs) fun m' => m'.Sound kroot ∧ m'.system = m.system
      ∧ m'.nextSpace = m.nextSpace ∧ m'.iomapBase = m.iomapBase
      ∧ m'.memory.cr3 = m.memory.cr3 ∧ m'.memory.rootOf = m.memory.rootOf := by
  cases hcalls : m.memory.calls cs with
  | error p =>
    simp only [Machine.map, hcalls]
    trivial
  | ok memory =>
    obtain ⟨hhousing, hcr3, hroot⟩ := h.housing.calls hcalls
    simp only [Machine.map, hcalls]
    refine ⟨⟨hhousing, h.nodup, fun i hi => ?_, fun i hi => ?_, h.io⟩, rfl, rfl, rfl, hcr3, hroot⟩
    · rw [hroot]
      exact h.housed i hi
    · rw [hroot]
      exact h.unused i hi

/-- The address space of a process that has been taken out is dropped, while that of the kernel
is active. -/
lemma dropSpace (h : m.Sound kroot) (hcr3 : m.memory.cr3 = kroot)
    (hi : i ∉ tenants m.scheduler) (hroot : (m.memory.rootOf (.process i)).isSome) :
    Ends IsPanic (m.dropSpace i) fun m' => m'.Sound kroot ∧ m'.system = m.system
      ∧ m'.memory.cr3 = kroot := by
  obtain ⟨frame, hframe⟩ := Option.isSome_iff_exists.mp hroot
  obtain ⟨a, ha, rfl⟩ := Option.map_eq_some_iff.mp hframe
  have hroots : (m.memory.dropSpace (.process i) a).rootOf
      = Function.update m.memory.rootOf (.process i) none :=
    rootOf_of_spaces (spaces_dropSpace a)
  have hne : m.memory.cr3 ≠ a.frame := by
    rw [hcr3]
    exact h.housing.frame_ne ha
  simp only [Machine.dropSpace, ha, if_neg hne]
  refine ⟨⟨h.housing.dropSpace ha, h.nodup, fun j hj => ?_, fun j hj => ?_, h.io⟩, rfl, hcr3⟩
  · have hne : SpaceId.process j ≠ .process i := fun hc => hi (SpaceId.process.inj hc ▸ hj)
    rw [hroots, Function.update_of_ne hne]
    exact h.housed j hj
  · rw [hroots, Function.update_apply]
    split_ifs
    · rfl
    · exact h.unused j hj

/-- A new address space is nobody's. -/
lemma newSpace (h : m.Sound kroot) (name : String) :
    Ends IsPanic (m.newSpace name) fun (i, m') => m'.Sound kroot ∧ m'.system = m.system
      ∧ i = m.nextSpace ∧ i ∉ tenants m.scheduler ∧ (m'.memory.rootOf (.process i)).isSome
      ∧ m'.iomapBase = m.iomapBase ∧ m'.memory.cr3 = m.memory.cr3 := by
  cases hnew : m.memory.newSpace (.process m.nextSpace) name none with
  | error p =>
    simp only [Machine.newSpace, hnew]
    trivial
  | ok memory =>
    obtain ⟨hhousing, a, hspaces⟩ := h.housing.newSpace hnew
    have hroots : memory.rootOf
        = Function.update m.memory.rootOf (.process m.nextSpace) (some a.frame) :=
      rootOf_of_spaces hspaces
    have hnext : m.nextSpace ∉ tenants m.scheduler := by
      intro hmem
      have hhoused := h.housed _ hmem
      rw [h.unused _ le_rfl] at hhoused
      cases hhoused
    simp only [Machine.newSpace, hnew]
    refine ⟨⟨hhousing, h.nodup, fun j hj => ?_, fun j hj => ?_, h.io⟩, rfl, rfl, hnext,
      ?_, rfl, newSpace_cr3 hnew⟩
    · have hne : SpaceId.process j ≠ .process m.nextSpace :=
        fun hc => hnext (SpaceId.process.inj hc ▸ hj)
      rw [hroots, Function.update_of_ne hne]
      exact h.housed j hj
    · have hj' : m.nextSpace + 1 ≤ j := hj
      have hne : SpaceId.process j ≠ .process m.nextSpace := by
        intro hc
        have := SpaceId.process.inj hc
        omega
      rw [hroots, Function.update_of_ne hne]
      exact h.unused j (by omega)
    · rw [hroots, Function.update_self]
      rfl

/-- A process is added, with an address space that was nobody's. -/
lemma insert (h : m.Sound kroot) (hp : (tenants c).Perm (i :: tenants m.scheduler))
    (hi : i ∉ tenants m.scheduler) (hroot : (m.memory.rootOf (.process i)).isSome)
    (hio : ∀ p, c.current = some p → m.iomapBase = iomapOffset p.allowIo) :
    (m.withScheduler c).Sound kroot := by
  refine ⟨h.housing, hp.nodup_iff.mpr (List.nodup_cons.mpr ⟨hi, h.nodup⟩), fun j hj => ?_,
    h.unused, hio⟩
  rcases List.mem_cons.mp (hp.mem_iff.mp hj) with rfl | hj
  · exact hroot
  · exact h.housed j hj

end Sound

/-! ### The operations of the scheduler -/

lemma tenants_addToQueue (c : Scheduler ℕ F) (p : Process ℕ F) :
    (tenants (c.addToQueue p)).Perm (p.addressSpace :: tenants c) :=
  (processes_addToQueue c p).map _

variable {c c' : Scheduler ℕ F} {p : Process ℕ F} {m m' m₁ : Machine F}
  {x : Except SchedulerPanic (Scheduler ℕ F)} {s : System ℕ F}

lemma tenants_unblock {rest : List (Process ℕ F)} (h : c.blocked = p :: rest) :
    (p.addressSpace :: tenants { c with blocked := rest }).Perm (tenants c) :=
  ((processes_unblock h).map _).symm

lemma tenants_setCurrent (c : Scheduler ℕ F) (p : Process ℕ F) :
    tenants { c with current := some p } = p.addressSpace :: tenants { c with current := none } :=
  rfl

lemma tenants_current (h : c.current = some p) :
    tenants c = p.addressSpace :: tenants { c with current := none } := by
  rw [← tenants_setCurrent, ← h]

/-- The current process changes in other fields. -/
lemma tenants_replace {p' : Process ℕ F} (h : c.current = some p)
    (hp : p'.addressSpace = p.addressSpace) :
    tenants { c with current := some p' } = tenants c := by
  rw [tenants_setCurrent, hp, ← tenants_current h]

/-- A process waits for the shell. -/
lemma tenants_block (c : Scheduler ℕ F) (p : Process ℕ F) :
    (tenants { c with blocked := c.blocked ++ [p] }).Perm (p.addressSpace :: tenants c) := by
  have hperm : { c with blocked := c.blocked ++ [p] }.processes.Perm (p :: c.processes) := by
    simp only [processes, waiting, ← List.append_assoc]
    exact List.perm_append_singleton p _
  exact hperm.map _

/-- The process to go on with is taken from its queue. -/
lemma tenants_popNext (h : c.popNext = .ok (p, c')) :
    c'.current = c.current ∧ (p.addressSpace :: tenants c').Perm (tenants c) := by
  obtain ⟨priority, rest, hq, -, rfl⟩ := popNext_eq_ok h
  exact ⟨rfl, ((processes_pop hq).map _).symm⟩

/-- It becomes the current one. -/
lemma tenants_of_current (h : c.current = none) (p : Process ℕ F) :
    tenants { c with current := some p } = p.addressSpace :: tenants c := by
  rw [tenants_setCurrent, ← h]

/-- The machine has done what the scheduler alone does, and is sound. -/
def Does (m : Machine F) (kroot : Frame) (x : Except SchedulerPanic (Scheduler ℕ F))
    (m' : Machine F) : Prop :=
  m'.Sound kroot ∧ ∃ c, x = .ok c ∧ m'.system = { m.system with scheduler := c }

lemma Does.of_withScheduler (h : (m'.withScheduler c).Sound kroot)
    (hsys : m'.system = { m.system with scheduler := c' }) (hx : x = .ok c) :
    m.Does kroot x (m'.withScheduler c) :=
  ⟨h, c, hx, by simp only [withScheduler, hsys]⟩

/-- Two operations, one after the other. -/
lemma Does.trans (hsys : m₁.system = { m.system with scheduler := c }) (h : m₁.Does kroot x m') :
    m.Does kroot x m' := by
  obtain ⟨h', c', hx, hm'⟩ := h
  exact ⟨h', c', hx, by rw [hm', hsys]⟩

namespace Sound

variable {m : Machine F} {kroot : Frame}

lemma runUserProcess (h : m.Sound kroot) (calls : Calls F) (name : List UInt8) (allowIo : Bool)
    (accessPolicy : AccessPolicy) :
    Ends IsPanic (m.runUserProcess calls name allowIo accessPolicy) (m.Does kroot
      (m.scheduler.runUserProcess (calls.env m.nextSpace) name allowIo accessPolicy)) := by
  refine (h.newSpace _).bind ?_
  rintro ⟨i, m₁⟩ ⟨h₁, hsys₁, rfl, hfresh, hroot, hio₁, -⟩
  refine (h₁.map calls.mapping).bind ?_
  rintro m₂ ⟨h₂, hsys₂, -, hio₂, -, hroots₂⟩
  have hsys : m₂.system = m.system := hsys₂.trans hsys₁
  have hsched : m₂.scheduler = m.scheduler := congrArg System.scheduler hsys
  cases hload : calls.load with
  | none => trivial
  | some context =>
    refine .of_withScheduler (h₂.insert (i := m.nextSpace) (tenants_addToQueue _ _) ?_ ?_ h₂.io)
      hsys ?_
    · rwa [hsched]
    · rwa [hroots₂]
    · simp only [Scheduler.runUserProcess, Calls.env, hload, Option.map_some, hsched]

lemma handleOutput (h : m.Sound kroot) (hcr3 : m.memory.cr3 = kroot) (calls : Calls F)
    (o : ShellOutput) :
    Ends IsPanic (m.handleOutput calls o)
      (m.Does kroot (m.scheduler.handleOutput (calls.env m.nextSpace) o)) := by
  cases o with
  | startProcess name => exact h.runUserProcess calls name.asStr true .normal
  | exitProcess code =>
    cases hb : m.scheduler.blocked with
    | nil =>
      simp only [Machine.handleOutput, hb]
      trivial
    | cons p rest =>
      simp only [Machine.handleOutput, Scheduler.handleOutput, hb]
      obtain ⟨h₁, hout, hroot⟩ := h.remove (tenants_unblock hb) h.io
      refine (h₁.dropSpace hcr3 hout hroot).mono ?_
      rintro m' ⟨h', hsys, -⟩
      exact ⟨h', _, rfl, hsys⟩
  | allowModuleAccess addr processId =>
    cases hb : m.scheduler.blocked with
    | nil =>
      simp only [Machine.handleOutput, hb]
      trivial
    | cons p rest =>
      simp only [Machine.handleOutput, Scheduler.handleOutput, hb]
      split_ifs
      · trivial
      obtain ⟨h₁, hout, hroot⟩ := h.remove (tenants_unblock hb) h.io
      refine (h₁.map calls.mapping).bind ?_
      rintro m₂ ⟨h₂, hsys, -, -, hcr3₂, hroots⟩
      have hsched : m₂.scheduler = { m.scheduler with blocked := rest } :=
        congrArg System.scheduler hsys
      -- a process that is not queued again is dropped while the kernel's space is active
      have hdrop : Ends IsPanic (m₂.dropSpace p.addressSpace) (m.Does kroot
          (.ok { m.scheduler with blocked := rest })) := by
        refine (h₂.dropSpace (hcr3₂.trans hcr3) (hsched ▸ hout) (hroots ▸ hroot)).mono ?_
        rintro m' ⟨h', hsys', -⟩
        exact ⟨h', _, rfl, hsys'.trans hsys⟩
      cases hma : calls.moduleAccess with
      | granted u =>
        simp only [Calls.env, hma]
        exact .of_withScheduler (h₂.insert (i := p.addressSpace) (tenants_addToQueue _ _)
          (hsched ▸ hout) (hroots ▸ hroot) h₂.io) hsys (by rw [hsched])
      | mappingFailed =>
        simp only [Calls.env, hma]
        exact hdrop
      | noSection =>
        simp only [Calls.env, hma]
        exact hdrop

/-- The shell's queue is looked at, and its message handled, in the kernel's address space. -/
lemma pollShell (h : m.Sound kroot) (calls : Calls F) :
    Ends IsPanic (m.pollShell calls)
      (m.Does kroot (m.scheduler.pollShell (calls.env m.nextSpace))) := by
  obtain ⟨henter, h₁⟩ := h.enter .kernel h.housing.kernel
  rw [Machine.pollShell, bind_of_ok henter]
  set m₁ : Machine F := { m with memory := { m.memory with cr3 := kroot } } with hm₁
  have hsched : m₁.scheduler = m.scheduler := rfl
  cases hq : m.scheduler.shellQueue with
  | none =>
    simp only [hsched, hq, Scheduler.pollShell, takeOutput]
    exact ⟨h₁, _, rfl, rfl⟩
  | some q =>
    have h₂ : (m₁.withScheduler { m.scheduler with
        shellQueue := some { q with output := q.output.pop.2 } }).Sound kroot :=
      h₁.permute (List.Perm.refl _) h₁.io
    simp only [hsched, hq, Scheduler.pollShell, takeOutput, bind_of_ok (h₁.asMut rfl)]
    cases ho : q.output.pop.1 with
    | none => exact ⟨h₂, _, rfl, rfl⟩
    | some o => exact h₂.handleOutput rfl calls o

/-- **The process to go on with** finds its address space active, and the I/O map set for it. -/
lemma selectCurrent (h : m.Sound kroot) (context : Option ExecutionContext) :
    Ends IsPanic m.selectCurrent fun (p, m') =>
      (m'.withScheduler { m'.scheduler with current := some { p with context } }).Sound kroot
        ∧ m'.memory.rootOf (.process p.addressSpace) = some m'.memory.cr3
        ∧ ∃ c, m.scheduler.selectCurrent = .ok (p, c)
          ∧ m'.system = { m.system with scheduler := c } := by
  cases hc : m.scheduler.current with
  | some p =>
    have hmem : p.addressSpace ∈ tenants m.scheduler := by
      rw [tenants_current hc]
      exact List.mem_cons_self
    obtain ⟨frame, hroot⟩ := Option.isSome_iff_exists.mp (h.housed _ hmem)
    obtain ⟨henter, h₁⟩ := h.enter (.process p.addressSpace) hroot
    simp only [Machine.selectCurrent, hc, bind_of_ok henter, Scheduler.selectCurrent]
    refine ⟨h₁.permute (List.Perm.of_eq (tenants_current hc).symm) ?_, hroot, _, rfl, rfl⟩
    rintro q ⟨⟩
    exact h.io p hc
  | none =>
    cases hpop : m.scheduler.popNext with
    | error e =>
      simp only [Machine.selectCurrent, hc, hpop]
      trivial
    | ok x =>
      obtain ⟨p, c⟩ := x
      obtain ⟨hcur, htaken⟩ := tenants_popNext hpop
      have hnone : c.current = none := hcur.trans hc
      obtain ⟨h₁, hout, hsome⟩ := h.remove htaken fun q hq => by
        rw [hnone] at hq
        cases hq
      obtain ⟨frame, hroot⟩ := Option.isSome_iff_exists.mp hsome
      obtain ⟨henter, h₂⟩ := h₁.enter (.process p.addressSpace) hroot
      simp only [Machine.selectCurrent, hc, hpop, bind_of_ok henter, Scheduler.selectCurrent]
      refine ⟨(h₂.setUserIoAllowed hnone p.allowIo).insert (i := p.addressSpace)
        (List.Perm.of_eq (tenants_of_current hnone _)) hout hsome ?_, hroot, _, rfl, rfl⟩
      rintro q ⟨⟩
      rfl

/-- `schedule_next` returns a context with the address space of its process active. -/
lemma scheduleNext (h : m.Sound kroot) (calls : Calls F) :
    Ends IsPanic (m.scheduleNext calls) fun (context, m') =>
      m'.Sound kroot
        ∧ (∃ p, m'.scheduler.current = some p
            ∧ m'.memory.rootOf (.process p.addressSpace) = some m'.memory.cr3)
        ∧ ∃ c, m.scheduler.scheduleNext (calls.env m.nextSpace) = .ok (context, c)
          ∧ m'.system = { m.system with scheduler := c } := by
  refine (h.pollShell calls).bind ?_
  rintro m₁ ⟨h₁, c₁, hpoll, hsys₁⟩
  have hsched₁ : m₁.scheduler = c₁ := congrArg System.scheduler hsys₁
  refine (h₁.selectCurrent none).bind ?_
  rintro ⟨p, m₂⟩ ⟨h₂, hroot, c₂, hsel, hsys₂⟩
  have hsched₂ : m₂.scheduler = c₂ := congrArg System.scheduler hsys₂
  cases hctx : p.context with
  | none =>
    simp only [hctx]
    trivial
  | some context =>
    have hnext : m.scheduler.scheduleNext (calls.env m.nextSpace)
        = .ok (context, { c₂ with current := some { p with context := none } }) := by
      rw [Scheduler.scheduleNext, bind_of_ok hpoll, ← hsched₁, bind_of_ok hsel]
      simp only [hctx]
    simp only [hctx]
    refine ⟨h₂, ⟨_, rfl, hroot⟩, _, hnext, ?_⟩
    simp only [withScheduler, hsched₂, hsys₂, hsys₁]

/-- A process that waits for the shell is put aside, and its request pushed in the kernel's
address space. -/
lemma blockCurrent (h : m.Sound kroot) (request : ShellInput) :
    Ends IsPanic (m.blockCurrent request) (m.Does kroot (m.scheduler.blockCurrent request)) := by
  cases hc : m.scheduler.current with
  | none =>
    simp only [Machine.blockCurrent, hc]
    trivial
  | some p =>
    obtain ⟨h₁, hout, hsome⟩ := h.remove (List.Perm.of_eq (tenants_current hc).symm) nofun
    obtain ⟨henter, h₂⟩ := h₁.enter .kernel h.housing.kernel
    simp only [Machine.blockCurrent, Scheduler.blockCurrent, hc, bind_of_ok henter]
    set m₁ := m.withScheduler { m.scheduler with current := none } with hm₁
    set m₂ : Machine F := { m₁ with memory := { m₁.memory with cr3 := kroot } } with hm₂
    have hsched : m₂.scheduler = { m.scheduler with current := none } := rfl
    have h₃ := h₂.insert (tenants_block m₂.scheduler p) hout hsome h₂.io
    cases hq : m.scheduler.shellQueue with
    | none =>
      simp only [scheduler_withScheduler, hsched, hq]
      trivial
    | some q =>
      have hmut := h₃.asMut rfl
      simp only [hsched, hq] at hmut
      simp only [scheduler_withScheduler, hsched, hq, bind_of_ok hmut]
      exact ⟨h₃.permute (List.Perm.refl _) h₃.io, _, rfl, rfl⟩

/-- A process that exits is taken out, and dropped in the kernel's address space. -/
lemma exitCurrent (h : m.Sound kroot) :
    Ends IsPanic m.exitCurrent (m.Does kroot m.scheduler.exitCurrent) := by
  cases hc : m.scheduler.current with
  | none =>
    simp only [Machine.exitCurrent, hc]
    trivial
  | some p =>
    cases hctx : p.context with
    | none =>
      simp only [Machine.exitCurrent, hc, hctx]
      trivial
    | some context =>
      obtain ⟨h₁, hout, hsome⟩ := h.remove (List.Perm.of_eq (tenants_current hc).symm) nofun
      obtain ⟨henter, h₂⟩ := h₁.enter .kernel h.housing.kernel
      simp only [Machine.exitCurrent, Scheduler.exitCurrent, hc, hctx, bind_of_ok henter]
      refine (h₂.dropSpace rfl hout hsome).mono ?_
      rintro m' ⟨h', hsys, -⟩
      exact ⟨h', _, rfl, hsys⟩

/-- An operation of the scheduler that keeps the processes and who is the current one. -/
lemma onScheduler (h : m.Sound kroot) {op : Scheduler ℕ F → Except SchedulerPanic (Scheduler ℕ F)}
    (hop : ∀ c', op m.scheduler = .ok c' → (tenants c').Perm (tenants m.scheduler)
      ∧ ∀ p, c'.current = some p → m.iomapBase = iomapOffset p.allowIo) :
    Ends IsPanic (m.onScheduler op) (m.Does kroot (op m.scheduler)) := by
  cases hx : op m.scheduler with
  | error p =>
    simp only [Machine.onScheduler, hx]
    trivial
  | ok c' =>
    obtain ⟨hperm, hio⟩ := hop c' hx
    simp only [Machine.onScheduler, hx]
    exact ⟨h.permute hperm hio, _, rfl, rfl⟩

lemma setCurrentContext (h : m.Sound kroot) (context : ExecutionContext) (fxsaveArea : F) :
    Ends IsPanic (m.onScheduler (·.setCurrentContext context fxsaveArea))
      (m.Does kroot (m.scheduler.setCurrentContext context fxsaveArea)) := by
  refine h.onScheduler fun c' hc' => ?_
  obtain ⟨p, hp, -, rfl⟩ := (setCurrentContext_ends _ _ _).result hc'
  refine ⟨List.Perm.of_eq (tenants_replace hp rfl), ?_⟩
  rintro q ⟨⟩
  exact h.io p hp

/-- The handlers that do not touch the memory. -/
lemma onBody (h : m.Sound kroot) (env : Env ℕ F) {i : Interrupt}
    (hi : i ≠ .exit ∧ i ≠ .pageFault) :
    Ends IsPanic (m.onScheduler (System.body env · i))
      (m.Does kroot (System.body env m.scheduler i)) := by
  refine h.onScheduler fun c' hc' => ?_
  have hpreempt : ∀ {p}, m.scheduler.current = some p →
      (tenants ({ m.scheduler with current := none }.addToQueue p)).Perm (tenants m.scheduler) :=
    fun hp => by rw [tenants_current hp]; exact tenants_addToQueue _ _
  cases (body_ends env _ i).result hc' with
  | timer hp => exact ⟨hpreempt hp, nofun⟩
  | defer hp => exact ⟨hpreempt hp, nofun⟩
  | @translate p hp context =>
    refine ⟨List.Perm.of_eq (tenants_replace hp rfl), ?_⟩
    rintro q ⟨⟩
    exact h.io p hp
  | _ => simp at hi

lemma faultCurrent (h : m.Sound kroot) (calls : Calls F) :
    Ends IsPanic (m.faultCurrent calls)
      (m.Does kroot (m.scheduler.faultCurrent (calls.env m.nextSpace))) := by
  cases hc : m.scheduler.current with
  | none =>
    simp only [Machine.faultCurrent, hc]
    trivial
  | some p =>
    simp only [Machine.faultCurrent, Scheduler.faultCurrent, hc]
    refine (h.map calls.mapping).bind ?_
    rintro m₁ ⟨h₁, hsys, -⟩
    have hsched : m₁.scheduler = m.scheduler := congrArg System.scheduler hsys
    cases hf : calls.fault with
    | resume u =>
      have hsame : ({ m.scheduler with
          current := some { p with addressSpace := p.addressSpace } } : Scheduler ℕ F)
            = m.scheduler := by rw [← hc]
      simp only [Calls.env, hf, hsame]
      exact ⟨h₁, _, rfl, hsys⟩
    | block addr moduleName sectionName =>
      simp only [Calls.env, hf, ← hsched]
      exact (h₁.blockCurrent _).mono fun m' hm' => hm'.trans (c := m.scheduler) hsys
    | terminate context =>
      simp only [Calls.env, hf, ← hsched]
      refine (h₁.setCurrentContext context p.fxsaveArea).bind ?_
      rintro m₂ ⟨h₂, c₂, hset, hsys₂⟩
      rw [bind_of_ok hset]
      refine h₂.exitCurrent.mono fun m' hm' => ?_
      have hsched₂ : m₂.scheduler = c₂ := congrArg System.scheduler hsys₂
      rw [hsched₂] at hm'
      exact hm'.trans (hsys₂.trans (by rw [hsys]))

lemma body (h : m.Sound kroot) (calls : Calls F) (i : Interrupt) :
    Ends IsPanic (m.body calls i)
      (m.Does kroot (System.body (calls.env m.nextSpace) m.scheduler i)) := by
  cases i with
  | timer => exact h.onBody (i := .timer) _ (by decide)
  | defer => exact h.onBody (i := .defer) _ (by decide)
  | exit => exact h.exitCurrent
  | translateAddr => exact h.onBody (i := .translateAddr) _ (by decide)
  | pageFault => exact h.faultCurrent calls

/-- The rest of the system is not the machine's concern. -/
lemma withSystem (h : m.Sound kroot) {s : System ℕ F} (hs : s.scheduler = m.scheduler) :
    ({ m with system := s } : Machine F).Sound kroot := by
  have hsched : ({ m with system := s } : Machine F).scheduler = m.scheduler := hs
  exact ⟨h.housing, hsched ▸ h.nodup, hsched ▸ h.housed, h.unused, hsched ▸ h.io⟩

end Sound

/-! ### Steps and runs -/

/-- The same step for the scheduler's system alone. -/
def Event.erase (m : Machine F) : Event F → Rhubarb.Event ℕ F
  | .interrupt i context fxsaveArea => .interrupt i context fxsaveArea
  | .handle calls => .handle (calls.env m.nextSpace)
  | .schedule calls => .schedule (calls.env m.nextSpace)
  | .shell shellStep => .shell shellStep

/-- **What is active while a process executes**: its address space, and its I/O map. -/
def Activated (m : Machine F) : Prop :=
  ∃ process space, m.scheduler.current = some process
    ∧ m.memory.spaces (.process process.addressSpace) = some space ∧ m.memory.cr3 = space.frame
    ∧ m.iomapBase = iomapOffset process.allowIo

/-- What a run keeps. -/
def Kept (kroot : Frame) (m : Machine F) : Prop :=
  m.Sound kroot ∧ (m.system.phase = .executing → m.Activated)

lemma Sound.activated (h : m.Sound kroot) (hp : m.scheduler.current = some p)
    (hroot : m.memory.rootOf (.process p.addressSpace) = some m.memory.cr3) : m.Activated := by
  obtain ⟨space, hspace, hframe⟩ := Option.map_eq_some_iff.mp hroot
  exact ⟨p, space, hp, hspace, hframe.symm, h.io p hp⟩

/-- A step of the system that leaves the memory alone. -/
lemma onSystem_ends {x : Except SchedulerPanic (System ℕ F)}
    (hx : ∀ s, x = .ok s → ({ m with system := s } : Machine F).Kept kroot) :
    Ends IsPanic (m.onSystem x) fun m' => m'.Kept kroot ∧ x = .ok m'.system := by
  cases x with
  | error p => trivial
  | ok s => exact ⟨hx s rfl, rfl⟩

/-- The prologue of a handler saves the context of the current process; a step of the shell
changes its rings only. -/
lemma Kept.onSystem (h : m.Kept kroot) {e : Rhubarb.Event ℕ F}
    (he : ∀ env, e ≠ .handle env ∧ e ≠ .schedule env) (hs : m.system.step e = .ok s) :
    ({ m with system := s } : Machine F).Kept kroot := by
  have hstep := m.system.steps e
  generalize m.system.step e = x at hstep hs
  cases hstep with
  | idle =>
    cases hs
    exact h
  | interrupt context fxsaveArea hi =>
    obtain ⟨c, hc, hs⟩ := ok_of_bind hs
    cases hs
    have hset := h.1.setCurrentContext context fxsaveArea
    simp only [Machine.onScheduler, Machine.scheduler, hc] at hset
    exact ⟨hset.1.withSystem rfl, nofun⟩
  | @shell q shellStep hphase hq =>
    obtain ⟨hand, queue, heq⟩ := m.system.shell_eq q shellStep
    rw [heq] at hs
    cases hs
    have hsound : (m.withScheduler { m.scheduler with shellQueue := queue }).Sound kroot :=
      h.1.permute (List.Perm.refl _) h.1.io
    exact ⟨hsound.withSystem rfl, fun _ => h.2 hphase⟩
  | handle env => exact absurd rfl (he env).1
  | schedule env => exact absurd rfl (he env).2

/-- **A step of the machine** keeps every process with its address space active while it executes,
and is a step of the scheduler's system. -/
theorem step_ends (m : Machine F) (e : Event F) (h : m.Kept kroot) :
    Ends IsPanic (m.step e) fun m' =>
      m'.Kept kroot ∧ m.system.step (e.erase m) = .ok m'.system := by
  cases e with
  | interrupt i context fxsaveArea => exact onSystem_ends fun s hs => h.onSystem (by simp) hs
  | shell shellStep => exact onSystem_ends fun s hs => h.onSystem (by simp) hs
  | handle calls =>
    cases hphase : m.system.phase with
    | executing | scheduling =>
      simp only [step, Event.erase, System.step, hphase]
      exact ⟨h, rfl⟩
    | handling i =>
      simp only [step, Event.erase, System.step, hphase]
      refine (h.1.body calls i).bind ?_
      rintro m₁ ⟨h₁, c, hbody, hsys⟩
      have hbody' : System.body (calls.env m.nextSpace) m.system.scheduler i = .ok c := hbody
      rw [System.handle, bind_of_ok hbody', hsys]
      exact ⟨⟨h₁.withSystem (congrArg System.scheduler hsys).symm, by simp⟩, rfl⟩
  | schedule calls =>
    cases hphase : m.system.phase with
    | executing | handling i =>
      simp only [step, Event.erase, System.step, hphase]
      exact ⟨h, rfl⟩
    | scheduling =>
      simp only [step, Event.erase, System.step, hphase]
      refine (h.1.scheduleNext calls).bind ?_
      rintro ⟨context, m₁⟩ ⟨h₁, ⟨p, hp, hroot⟩, c, hnext, hsys⟩
      have hnext' : m.system.scheduler.scheduleNext (calls.env m.nextSpace)
          = .ok (context, c) := hnext
      have hsched : m₁.scheduler = c := congrArg System.scheduler hsys
      rw [System.schedule, bind_of_ok hnext']
      refine ⟨⟨h₁.withSystem rfl, fun _ => h₁.activated hp hroot⟩, ?_⟩
      simp only [hsched, hsys]
      rfl

/-- **The machine refines the scheduler's system**: what it does to the processes, the system does
alone. -/
theorem run_simulates {events : List (Event F)} (h : m.Kept kroot)
    (hrun : run step m events = .ok m') :
    ∃ events', run System.step m.system events' = .ok m'.system := by
  induction events generalizing m with
  | nil =>
    cases hrun
    exact ⟨[], rfl⟩
  | cons e events ih =>
    obtain ⟨m₁, hstep, hrest⟩ := run_cons_eq_ok hrun
    obtain ⟨h₁, hsys⟩ := (step_ends m e h).result hstep
    obtain ⟨events', hrun'⟩ := ih h₁ hrest
    exact ⟨e.erase m :: events', (run_cons_ok hsys events').trans hrun'⟩

lemma empty_sound (hmem : memory.Housing kroot) (halone : ∀ i, memory.spaces (.process i) = none)
    (iomapBase : ℕ) :
    (Machine.mk emptySystem memory 0 iomapBase : Machine F).Sound kroot :=
  ⟨hmem, List.nodup_nil, nofun, fun i _ => by rw [rootOf, halone i]; rfl, nofun⟩

/-- The machine that `run` starts. -/
lemma boot_kept (hmem : memory.Housing kroot) (halone : ∀ i, memory.spaces (.process i) = none)
    (calls : Calls F) (idleContext : ExecutionContext) (shellName idleName : List UInt8)
    (iomapBase : ℕ) :
    Ends IsPanic (boot memory calls idleContext shellName idleName iomapBase) (Kept kroot) := by
  have h : (Machine.mk emptySystem memory 0 iomapBase : Machine F).Sound kroot :=
    empty_sound hmem halone iomapBase
  refine (h.runUserProcess calls shellName true .all).bind ?_
  rintro m₁ ⟨h₁, c, hshell, hsys₁⟩
  refine (h₁.newSpace "idle").bind ?_
  rintro ⟨i, m₂⟩ ⟨h₂, hsys₂, -, hfresh, hroot, -⟩
  have hsched : m₂.scheduler = m₁.scheduler := congrArg System.scheduler hsys₂
  refine ⟨h₂.insert (tenants_addToQueue m₂.scheduler ⟨idleProcessId, idleName, .all, .idle, i,
    some idleContext, true, calls.initFxsaveArea⟩) (hsched ▸ hfresh) hroot h₂.io, fun hc => ?_⟩
  have hphase : m₂.system.phase = .scheduling := by rw [hsys₂, hsys₁]; rfl
  have hexecuting : m₂.system.phase = .executing := hc
  rw [hphase] at hexecuting
  cases hexecuting

lemma Kept.of_boot {calls : Calls F} {idleContext : ExecutionContext}
    {shellName idleName : List UInt8} {iomapBase : ℕ} (hmem : memory.Housing kroot)
    (halone : ∀ i, memory.spaces (.process i) = none)
    (hboot : boot memory calls idleContext shellName idleName iomapBase = .ok m) : m.Kept kroot :=
  (boot_kept hmem halone _ _ _ _ _).result hboot

/-- **What is active, in every run**: whenever a process executes, `Cr3` holds the frame of its
address space and the I/O map is as its `allow_io` says; and the machine never stops for an active
address space that is dropped, for an access to the shell's queue outside of the kernel's address
space, or for an address space that is missing. -/
theorem activation_run {memory : MemoryState} {kroot : Frame} {calls : Calls F}
    {idleContext : ExecutionContext} {shellName idleName : List UInt8} {iomapBase : ℕ}
    {m₀ : Machine F} (hmem : memory.Housing kroot)
    (halone : ∀ i, memory.spaces (.process i) = none)
    (hboot : boot memory calls idleContext shellName idleName iomapBase = .ok m₀)
    (events : List (Event F)) :
    (∀ m, run step m₀ events = .ok m → m.system.phase = .executing → m.Activated)
      ∧ ∀ p, run step m₀ events = .error p → p.IsPanic := by
  have hkept : m₀.Kept kroot := .of_boot hmem halone hboot
  have hrun : Ends IsPanic (run step m₀ events) (Kept kroot) :=
    run_ends (fun m e h => (step_ends m e h).mono fun m' hm' => hm'.1) hkept events
  exact ⟨fun m hm => (hrun.result hm).2, fun p hp => hrun.reason hp⟩

/-- A memory code that can do everything it is asked for. -/
def smallCalls (mapping : List MappingCall) : Calls Unit where
  mapping
  translateAddress _ _ := none
  moduleAccess := .granted ()
  load := some System.emptyContext
  fault := .block 0 [] []
  initFxsaveArea := ()

/-- A whole interrupt. -/
def turn (i : Interrupt) : List (Event Unit) :=
  [.interrupt i System.emptyContext (), .handle (smallCalls []), .schedule (smallCalls [])]

/-- The shell starts a process, which waits for the shell, is answered, and exits. -/
def startedAndExited : List (Event Unit) :=
  [.schedule (smallCalls []), .shell (.send (.startProcess (.newTruncate 32 [])))] ++ turn .timer
    ++ turn .timer ++ turn .pageFault ++ [.shell .take, .shell .answer] ++ turn .timer
    ++ turn .timer ++ turn .exit

lemma startedAndExited_ends :
    ∃ m₀, boot roomyMemory (smallCalls []) System.emptyContext [] [] 0 = .ok m₀
      ∧ ∃ m, run step m₀ startedAndExited = .ok m ∧ m.memory.cr3 = ⟨256⟩
        ∧ m.system.phase = .executing := by
  decide +kernel

lemma roomyMemory_housing : roomyMemory.Housing ⟨300000⟩ := (smallMachine_booted (by decide)).housing

/-- In the end the shell goes on, in its address space. -/
theorem activation_run_startedAndExited :
    ∃ m₀ m, boot roomyMemory (smallCalls []) System.emptyContext [] [] 0 = .ok m₀
      ∧ run step m₀ startedAndExited = .ok m ∧ m.memory.cr3 = ⟨256⟩ ∧ m.Activated := by
  obtain ⟨m₀, hboot, m, hrun, hcr3, hphase⟩ := startedAndExited_ends
  exact ⟨m₀, m, hboot, hrun, hcr3,
    (activation_run roomyMemory_housing (fun _ => rfl) hboot startedAndExited).1 m hrun hphase⟩

/-- The scheduler's system alone comes to the same processes. -/
theorem run_simulates_startedAndExited :
    ∃ m₀ m events, boot roomyMemory (smallCalls []) System.emptyContext [] [] 0 = .ok m₀
      ∧ run step m₀ startedAndExited = .ok m ∧ run System.step m₀.system events = .ok m.system := by
  obtain ⟨m₀, hboot, m, hrun, -, -⟩ := startedAndExited_ends
  have hkept := Kept.of_boot roomyMemory_housing (fun _ => rfl) hboot
  obtain ⟨events, hsim⟩ := run_simulates hkept hrun
  exact ⟨m₀, m, events, hboot, hrun, hsim⟩

end Machine

end Rhubarb
