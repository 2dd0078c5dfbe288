import Rhubarb.Foundations.Runs
import Rhubarb.Kernel.ShellQueue

/-!
The process scheduler (`kernel/src/scheduler.rs`) and the interrupt handlers that drive it.

An interrupt runs in three parts: the prologue saves the context of the interrupted process
(`setCurrentContext`), the body does what the interrupt is for, and `scheduleNext` handles one
message of the shell and takes the context of the process to go on with.  Interrupts are off
in all three, so they are three steps of the system, told apart by its `Phase`.  What the
memory code and the loader answer is not the scheduler's: each step takes it from an `Env`.

* `System.step`: one part of an interrupt, or one step of the shell.
* `History`: which processes were started and ended, and the contexts they were interrupted in.
-/

namespace Rhubarb

open Foundations

/-! ### Processes -/

/-- A register. -/
abbrev Word : Type := BitVec 64

/-- `CpuRegisters`. -/
structure CpuRegisters where
  r15 : Word
  r14 : Word
  r13 : Word
  r12 : Word
  r11 : Word
  r10 : Word
  r9 : Word
  r8 : Word
  rsi : Word
  rdi : Word
  rbp : Word
  rdx : Word
  rcx : Word
  rbx : Word
  rax : Word
  deriving DecidableEq, Repr

/-- `CpuRegisters::EMPTY`. -/
def CpuRegisters.empty : CpuRegisters := ⟨0, 0, 0, 0, 0, 0, 0, 0, 0, 0, 0, 0, 0, 0, 0⟩

/-- `InterruptStackFrameValue`. -/
structure InterruptStackFrame where
  instructionPointer : Word
  codeSegment : Word
  cpuFlags : Word
  stackPointer : Word
  stackSegment : Word
  deriving DecidableEq, Repr

/-- `ExecutionContext`. -/
structure ExecutionContext where
  registers : CpuRegisters
  frame : InterruptStackFrame
  deriving DecidableEq, Repr

/-- The context with another `rax`. -/
def ExecutionContext.withRax (c : ExecutionContext) (value : Word) : ExecutionContext :=
  { c with registers := { c.registers with rax := value } }

variable {A F : Type}

/-- `Process`, over the address spaces `A` (with the heap mapping in it) and the areas `F` of
`fxsave`. -/
structure Process (A F : Type) where
  id : ℕ
  name : List UInt8
  accessPolicy : AccessPolicy
  priority : Priority
  addressSpace : A
  context : Option ExecutionContext
  allowIo : Bool
  fxsaveArea : F
  deriving DecidableEq

/-- `IDLE_PROCESS_ID`. -/
def idleProcessId : ℕ := 0

/-- The number of process ids: `PROCESS_ID` is a `u64`. -/
def processIdRange : ℕ := 2 ^ 64

/-- The expects and assertions of the scheduler and of the handlers. -/
inductive SchedulerPanic where
  | noRunningProcess
  | contextNotTaken
  | noProcessToPreempt
  | noProcessToBlock
  | shellNotReady
  | noBlockedProcess
  | processIdMismatch
  | loadObject
  | noIdleProcess
  | noContext
  | unreachable
  | noContextOnExit
  deriving DecidableEq, Repr

/-- What the shell's answer to a module request leads to: the address space with the module
mapped, a failed mapping, or an address in no section. -/
inductive ModuleAccess (A : Type) where
  | granted (addressSpace : A)
  | mappingFailed
  | noSection

/-- How the page-fault handler ends: by resuming the process with a changed address space, by
a request to the shell, or by `scheduler::exit`, itself an interrupt with its own context. -/
inductive FaultDecision (A : Type) where
  | resume (addressSpace : A)
  | block (addr : ℕ) (moduleName sectionName : List UInt8)
  | terminate (context : ExecutionContext)

/-- What the memory code and the loader answer during a step. -/
structure Env (A F : Type) where
  translateAddress : A → ℕ → Option ℕ
  moduleAccess : A → ℕ → ModuleAccess A
  loadProcess : List UInt8 → ℕ → Option (A × ExecutionContext)
  fault : Process A F → FaultDecision A
  initFxsaveArea : F

/-- The handler ends the process. -/
def FaultDecision.terminates : FaultDecision A → Bool
  | .resume _ => false
  | .block _ _ _ => false
  | .terminate _ => true

/-- The process a message asks for can be loaded, and there is an id left for it. -/
def Env.loads (env : Env A F) (processId : ℕ) : ShellOutput → Bool
  | .startProcess name =>
    (env.loadProcess name.asStr processId).isSome && decide (processId + 1 < processIdRange)
  | .exitProcess _ => true
  | .allowModuleAccess _ _ => true

/-- `Scheduler`, with the static `PROCESS_ID` it takes ids from. -/
structure Scheduler (A F : Type) where
  current : Option (Process A F)
  queue : Priority → List (Process A F)
  blocked : List (Process A F)
  shellQueue : Option ShellQueue
  processId : ℕ

namespace Scheduler

/-- `Scheduler::add_to_queue`. -/
def addToQueue (s : Scheduler A F) (process : Process A F) : Scheduler A F :=
  { s with
    queue := Function.update s.queue process.priority (s.queue process.priority ++ [process]) }

/-- `Scheduler::run_user_process`; the id is taken before anything can fail. -/
def runUserProcess (env : Env A F) (s : Scheduler A F) (name : List UInt8) (allowIo : Bool)
    (accessPolicy : AccessPolicy) : Except SchedulerPanic (Scheduler A F) :=
  match env.loadProcess name s.processId with
  | none => .error .loadObject
  | some (addressSpace, context) =>
    .ok <| { s with processId := (s.processId + 1) % processIdRange }.addToQueue
      ⟨s.processId, name, accessPolicy, .normal, addressSpace, some context, allowIo,
        env.initFxsaveArea⟩

/-- The message the shell has waiting, taken from its ring. -/
def takeOutput (s : Scheduler A F) : Option ShellOutput × Scheduler A F :=
  match s.shellQueue with
  | none => (none, s)
  | some q => (q.output.pop.1, { s with shellQueue := some { q with output := q.output.pop.2 } })

/-- What `schedule_next` does with a message of the shell.  A process whose mapping fails, or
whose address is in no section, is not queued again. -/
def handleOutput (env : Env A F) (s : Scheduler A F) :
    ShellOutput → Except SchedulerPanic (Scheduler A F)
  | .exitProcess _ =>
    match s.blocked with
    | [] => .error .noBlockedProcess
    | _ :: rest => .ok { s with blocked := rest }
  | .startProcess name => s.runUserProcess env name.asStr true .normal
  | .allowModuleAccess addr processId =>
    match s.blocked with
    | [] => .error .noBlockedProcess
    | process :: rest =>
      if processId ≠ process.id then .error .processIdMismatch
      else
        match env.moduleAccess process.addressSpace addr with
        | .granted addressSpace =>
          .ok ({ s with blocked := rest }.addToQueue { process with addressSpace })
        | .mappingFailed => .ok { s with blocked := rest }
        | .noSection => .ok { s with blocked := rest }

/-- The first part of `schedule_next`: the next message of the shell, if there is one. -/
def pollShell (env : Env A F) (s : Scheduler A F) : Except SchedulerPanic (Scheduler A F) :=
  match s.takeOutput with
  | (none, s) => .ok s
  | (some output, s) => s.handleOutput env output

/-- The first process of the first queue that is not empty. -/
def popNext (s : Scheduler A F) : Except SchedulerPanic (Process A F × Scheduler A F) :=
  match [Priority.none, .normal, .idle].find? fun priority => s.queue priority ≠ [] with
  | none => .error .noIdleProcess
  | some priority =>
    match s.queue priority with
    | [] => .error .noIdleProcess
    | process :: rest =>
      .ok (process, { s with queue := Function.update s.queue priority rest })

/-- The process to go on with becomes the current one, unless there is one. -/
def selectCurrent (s : Scheduler A F) : Except SchedulerPanic (Process A F × Scheduler A F) :=
  match s.current with
  | some process => .ok (process, s)
  | none => s.popNext

/-- `Scheduler::schedule_next`: the context to go on with. -/
def scheduleNext (env : Env A F) (s : Scheduler A F) :
    Except SchedulerPanic (ExecutionContext × Scheduler A F) := do
  let s ← s.pollShell env
  let (process, s) ← s.selectCurrent
  match process.context with
  | none => .error .noContext
  | some context => .ok (context, { s with current := some { process with context := none } })

/-- `Scheduler::set_current_context`. -/
def setCurrentContext (s : Scheduler A F) (context : ExecutionContext) (fxsaveArea : F) :
    Except SchedulerPanic (Scheduler A F) :=
  match s.current with
  | none => .error .noRunningProcess
  | some process =>
    match process.context with
    | some _ => .error .contextNotTaken
    | none => .ok { s with current := some { process with context := some context, fxsaveArea } }

/-- `Scheduler::preempt_current`. -/
def preemptCurrent (s : Scheduler A F) : Except SchedulerPanic (Scheduler A F) :=
  match s.current with
  | none => .error .noProcessToPreempt
  | some process => .ok ({ s with current := none }.addToQueue process)

/-- `Scheduler::block_current`. -/
def blockCurrent (s : Scheduler A F) (request : ShellInput) :
    Except SchedulerPanic (Scheduler A F) :=
  match s.current with
  | none => .error .noProcessToBlock
  | some process =>
    match s.shellQueue with
    | none => .error .shellNotReady
    | some q =>
      .ok { s with
        current := none
        blocked := s.blocked ++ [process]
        shellQueue := some { q with input := q.input.push request } }

/-- The body of `exit_interrupt_handler`: the process is dropped. -/
def exitCurrent (s : Scheduler A F) : Except SchedulerPanic (Scheduler A F) :=
  match s.current with
  | none => .error .unreachable
  | some process =>
    match process.context with
    | none => .error .noContextOnExit
    | some _ => .ok { s with current := none }

/-- What the translate-address handler writes to `rax`: the address, or `-2`. -/
def translateAnswer (env : Env A F) (addressSpace : A) (context : ExecutionContext) : Word :=
  match env.translateAddress addressSpace context.registers.rdi.toNat with
  | some addr => BitVec.ofNat 64 addr
  | none => -2

/-- The body of `translate_addr_interrupt_handler`. -/
def translateCurrent (env : Env A F) (s : Scheduler A F) :
    Except SchedulerPanic (Scheduler A F) :=
  match s.current with
  | none => .error .unreachable
  | some process =>
    match process.context with
    | none => .error .unreachable
    | some context =>
      .ok { s with
        current := some { process with
          context := some (context.withRax (translateAnswer env process.addressSpace context)) } }

/-- The request of `__page_fault_handler` for a process. -/
def accessRequest (process : Process A F) (addr : ℕ) (moduleName sectionName : List UInt8) :
    ShellInput :=
  .accessModuleRequest addr process.id (.newTruncate 32 process.name)
    (.newTruncate 32 moduleName) (.newTruncate 32 sectionName)

/-- How `__page_fault_handler` carries out its decision.  `scheduler::exit` raises the exit
interrupt inside the handler, so that its prologue saves a context once more. -/
def faultCurrent (env : Env A F) (s : Scheduler A F) : Except SchedulerPanic (Scheduler A F) :=
  match s.current with
  | none => .error .noRunningProcess
  | some process =>
    match env.fault process with
    | .resume addressSpace => .ok { s with current := some { process with addressSpace } }
    | .block addr moduleName sectionName =>
      s.blockCurrent (accessRequest process addr moduleName sectionName)
    | .terminate context => do
      let s ← s.setCurrentContext context process.fxsaveArea
      s.exitCurrent

end Scheduler

/-! ### The system -/

/-- The interrupts that run with the context of the interrupted process. -/
inductive Interrupt where
  | timer
  | defer
  | exit
  | translateAddr
  | pageFault
  deriving DecidableEq, Repr

/-- Where the processor is: in a process, in the body of a handler, or before `schedule_next`. -/
inductive Phase where
  | executing
  | handling (interrupt : Interrupt)
  | scheduling
  deriving DecidableEq, Repr

/-- What has happened so far: the processes that were started, those that ended, the context
each was last interrupted in, and the `rax` the translate-address handler gave it since. -/
structure History where
  started : List ℕ
  ended : List ℕ
  saved : ℕ → Option ExecutionContext
  answer : ℕ → Option Word

namespace History

/-- The context a process should be resumed with. -/
def resume (h : History) (id : ℕ) : Option ExecutionContext :=
  match h.answer id with
  | none => h.saved id
  | some value => (h.saved id).map (·.withRax value)

/-- A process is started with a context, or interrupted in it. -/
def save (h : History) (id : ℕ) (context : ExecutionContext) : History :=
  { h with
    saved := Function.update h.saved id (some context)
    answer := Function.update h.answer id none }

end History

/-- The scheduler, the shell's hand, and the history. -/
structure System (A F : Type) where
  scheduler : Scheduler A F
  phase : Phase
  hand : Option ShellInput
  resumed : Option (ℕ × ExecutionContext)
  history : History

/-- The steps of the shell: its loop takes a request and answers it; `send` is any other
message. -/
inductive ShellStep where
  | take
  | answer
  | send (output : ShellOutput)
  deriving DecidableEq

/-- The steps of the system. -/
inductive Event (A F : Type) where
  | interrupt (interrupt : Interrupt) (context : ExecutionContext) (fxsaveArea : F)
  | handle (env : Env A F)
  | schedule (env : Env A F)
  | shell (step : ShellStep)

/-! ### What the history records

Starts and ends are recorded where they are caused, not read off the queues, so that a process
that the scheduler loses or keeps twice shows up against the history. -/

namespace History

/-- A process is loaded and will run from a context. -/
def start (h : History) (id : ℕ) (context : ExecutionContext) : History :=
  { h.save id context with started := h.started ++ [id] }

/-- A process exits, is stopped by the shell, or cannot be given what it waits for. -/
def finish (h : History) (id : ℕ) : History := { h with ended := h.ended ++ [id] }

/-- A message of the shell, about the process that has waited longest. -/
def output (env : Env A F) (s : Scheduler A F) (h : History) : ShellOutput → History
  | .startProcess name =>
    match env.loadProcess name.asStr s.processId with
    | some (_, context) => h.start s.processId context
    | none => h
  | .exitProcess _ =>
    match s.blocked with
    | [] => h
    | process :: _ => h.finish process.id
  | .allowModuleAccess addr _ =>
    match s.blocked with
    | [] => h
    | process :: _ =>
      match env.moduleAccess process.addressSpace addr with
      | .granted _ => h
      | .mappingFailed => h.finish process.id
      | .noSection => h.finish process.id

/-- The message `schedule_next` handles, if there is one. -/
def poll (env : Env A F) (s : Scheduler A F) (h : History) : History :=
  match s.takeOutput.1 with
  | some message => h.output env s message
  | none => h

/-- The body of a handler, about the current process. -/
def body (env : Env A F) (s : Scheduler A F) (h : History) : Interrupt → History
  | .exit =>
    match s.current with
    | some process => h.finish process.id
    | none => h
  | .translateAddr =>
    match s.current with
    | some process =>
      match process.context with
      | some context =>
        { h with
          answer := Function.update h.answer process.id
            (some (Scheduler.translateAnswer env process.addressSpace context)) }
      | none => h
    | none => h
  | .pageFault =>
    match s.current with
    | some process =>
      match env.fault process with
      | .terminate _ => h.finish process.id
      | .resume _ => h
      | .block _ _ _ => h
    | none => h
  | .timer => h
  | .defer => h

end History

namespace System

/-- The body of a handler. -/
def body (env : Env A F) (s : Scheduler A F) :
    Interrupt → Except SchedulerPanic (Scheduler A F)
  | .timer => s.preemptCurrent
  | .defer => s.preemptCurrent
  | .exit => s.exitCurrent
  | .translateAddr => s.translateCurrent env
  | .pageFault => s.faultCurrent env

/-- An interrupt can happen while a process executes.  The idle process only halts: it raises
no interrupt of its own. -/
def CanInterrupt (s : System A F) (i : Interrupt) : Prop :=
  s.phase = .executing ∧ (i = .timer ∨ s.scheduler.current.map (·.id) ≠ some idleProcessId)

instance (s : System A F) (i : Interrupt) : Decidable (s.CanInterrupt i) :=
  inferInstanceAs (Decidable (_ ∧ _))

/-- The prologue of a handler. -/
def interrupt (s : System A F) (i : Interrupt) (context : ExecutionContext) (fxsaveArea : F) :
    Except SchedulerPanic (System A F) := do
  let scheduler ← s.scheduler.setCurrentContext context fxsaveArea
  let history := match s.scheduler.current with
    | some process => s.history.save process.id context
    | none => s.history
  .ok { s with scheduler, history, phase := .handling i }

/-- The body of the handler the processor is in. -/
def handle (s : System A F) (env : Env A F) (i : Interrupt) :
    Except SchedulerPanic (System A F) := do
  let scheduler ← body env s.scheduler i
  .ok { s with scheduler, history := s.history.body env s.scheduler i, phase := .scheduling }

/-- `schedule`. -/
def schedule (s : System A F) (env : Env A F) : Except SchedulerPanic (System A F) := do
  let (context, scheduler) ← s.scheduler.scheduleNext env
  .ok { s with
    scheduler
    history := s.history.poll env s.scheduler
    phase := .executing
    resumed := scheduler.current.map fun process => (process.id, context) }

/-- A step of the shell on the two rings. -/
def shell (s : System A F) (q : ShellQueue) : ShellStep → System A F
  | .take =>
    match s.hand with
    | some _ => s
    | none =>
      { s with
        hand := q.input.pop.1
        scheduler := { s.scheduler with
          shellQueue := some { q with input := q.input.pop.2 } } }
  | .answer =>
    match s.hand with
    | none => s
    | some request =>
      { s with
        hand := none
        scheduler := { s.scheduler with
          shellQueue := some { q with output := q.output.push request.answer } } }
  | .send output =>
    { s with
      scheduler := { s.scheduler with
        shellQueue := some { q with output := q.output.push output } } }

/-- One step of the system; a step that cannot happen where the processor is does nothing. -/
def step (s : System A F) : Event A F → Except SchedulerPanic (System A F)
  | .interrupt i context fxsaveArea =>
    if s.CanInterrupt i then s.interrupt i context fxsaveArea else .ok s
  | .handle env =>
    match s.phase with
    | .handling i => s.handle env i
    | .executing => .ok s
    | .scheduling => .ok s
  | .schedule env =>
    match s.phase with
    | .scheduling => s.schedule env
    | .executing => .ok s
    | .handling _ => .ok s
  | .shell shellStep =>
    match s.phase, s.scheduler.shellQueue with
    | .executing, some q => .ok (s.shell q shellStep)
    | .executing, none => .ok s
    | .handling _, _ => .ok s
    | .scheduling, _ => .ok s

/-- The system when `run` calls `schedule`: the shell process was queued at the start of the
kernel, and `Scheduler::init` has added the idle process and found the rings. -/
def initial (shellSpace idleSpace : A) (shellContext idleContext : ExecutionContext)
    (shellName idleName : List UInt8) (fxsaveArea : F) : System A F where
  scheduler :=
    { current := none
      queue := fun
        | .none => []
        | .normal =>
          [⟨1, shellName, .all, .normal, shellSpace, some shellContext, true, fxsaveArea⟩]
        | .idle =>
          [⟨idleProcessId, idleName, .all, .idle, idleSpace, some idleContext, true, fxsaveArea⟩]
      blocked := []
      shellQueue := some .new
      processId := 2 }
  phase := .scheduling
  hand := none
  resumed := none
  history :=
    { started := [1, idleProcessId]
      ended := []
      saved := fun id =>
        if id = 1 then some shellContext else if id = idleProcessId then some idleContext else none
      answer := fun _ => none }

/-! ### A small system -/

/-- A context with empty registers. -/
def emptyContext : ExecutionContext := ⟨.empty, ⟨0, 0, 0, 0, 0⟩⟩

/-- The shell and the idle process, over address spaces that are not looked into. -/
def smallSystem : System Unit Unit := initial () () emptyContext emptyContext [] [] ()

/-- A memory that can do everything it is asked for, and a fault handler that decides the same
way each time. -/
def smallEnv (decision : FaultDecision Unit) : Env Unit Unit where
  translateAddress _ _ := none
  moduleAccess _ _ := .granted ()
  loadProcess _ _ := some ((), emptyContext)
  fault _ := decision
  initFxsaveArea := ()

/-- A whole interrupt: prologue, body and `schedule_next`. -/
def turn (i : Interrupt) (decision : FaultDecision Unit) : List (Event Unit Unit) :=
  [.interrupt i emptyContext (), .handle (smallEnv decision), .schedule (smallEnv decision)]

/-- The current process is preempted by the timer. -/
def tick : List (Event Unit Unit) := turn .timer (.resume ())

/-- The current process touches a module and waits for the shell. -/
def request : List (Event Unit Unit) := turn .pageFault (.block 0 [] [])

/-- The shell asks for a process. -/
def startMessage : Event Unit Unit := .shell (.send (.startProcess (.newTruncate 32 [])))

/-- The shell starts a process, the process waits for the shell, and the shell answers. -/
def oneRequest : List (Event Unit Unit) :=
  [.schedule (smallEnv (.resume ())), startMessage] ++ tick ++ tick ++ request
    ++ [.shell .take, .shell .answer] ++ tick

end System

end Rhubarb
