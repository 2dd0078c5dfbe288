import Rhubarb.Kernel.ShellProtocol

/-!
The spin locks of the rings (`spin_mutex.rs`, and their use in `scheduler.rs` and `shell.rs`).

Both rings are behind spin locks that the shell takes with interrupts on and the kernel takes
with interrupts off.  There is one processor: if the kernel finds a lock taken, whoever holds it
never runs again, and the kernel spins forever.

The guard of `QUEUE.input` in the head of the shell's `while let` is dropped only after the
body, so that the shell holds both locks while it pushes an answer.

* `LockedSystem.step`: the scheduler's system with the locks and the shell's place in its loop.
* `locks_run`: the kernel never spins if the shell is interrupted only where it holds no lock.
-/

namespace Rhubarb

open Foundations

variable {A F : Type}

/-- The locks of `ShellQueue`. -/
inductive ShellLock where
  | input
  | output
  deriving DecidableEq, Repr

/-- Where the shell is, as far as its locks go. -/
inductive ShellPlace where
  /-- Anywhere without a lock: drawing, reading events, in `process::defer`. -/
  | outside
  /-- With the lock of the output ring, about to push `StartProcess`. -/
  | starting (name : SizedString 32)
  /-- The message is pushed; the guard is about to be dropped. -/
  | started
  /-- With the lock of the input ring, about to pop. -/
  | polling
  /-- In the body of the `while let`, with the lock of the input ring. -/
  | serving
  /-- With both locks, about to push the answer. -/
  | answering
  /-- The answer is pushed; the guard of the output ring is about to be dropped. -/
  | answered
  /-- At the end of the body, or after a pop of nothing; the guard of the input ring is about to
  be dropped. -/
  | releasing
  deriving DecidableEq

/-- The locks the shell holds at a place. -/
def ShellPlace.holds : ShellPlace → ShellLock → Bool
  | .outside, _ => false
  | .starting _, .output => true
  | .starting _, .input => false
  | .started, .output => true
  | .started, .input => false
  | .polling, .input => true
  | .polling, .output => false
  | .serving, .input => true
  | .serving, .output => false
  | .answering, _ => true
  | .answered, _ => true
  | .releasing, .input => true
  | .releasing, .output => false

/-- The id of the shell: the first process to be started. -/
def shellProcessId : ℕ := 1

/-- Why a run stops: a panic, or a lock that the kernel waits for with interrupts off. -/
inductive Stop where
  | panic (p : SchedulerPanic)
  | spins (lock : ShellLock)
  deriving DecidableEq, Repr

/-- The system with the locks. -/
structure LockedSystem (A F : Type) where
  system : System A F
  place : ShellPlace
  locked : ShellLock → Bool

variable {lock : ShellLock} {shellStep : ShellStep} {start : Option (SizedString 32)}

/-- A part of an interrupt, or one instruction of the shell.  Outside, the shell goes on to push
`StartProcess`, or to poll the input ring. -/
inductive LockedEvent (A F : Type) where
  | interrupt (interrupt : Interrupt) (context : ExecutionContext) (fxsaveArea : F)
  | handle (env : Env A F)
  | schedule (env : Env A F)
  | shell (start : Option (SizedString 32))

namespace LockedSystem

/-- A step of the scheduler's system, its panics handed on. -/
def lift (s : LockedSystem A F) (e : Event A F) : Except Stop (LockedSystem A F) :=
  match s.system.step e with
  | .ok system => .ok { s with system }
  | .error p => .error (.panic p)

/-- `Mutex::lock` in the shell: it spins, with interrupts on, until the lock is free. -/
def acquire (s : LockedSystem A F) (lock : ShellLock) (place : ShellPlace) : LockedSystem A F :=
  if s.locked lock then s
  else { s with locked := Function.update s.locked lock true, place }

/-- The guard is dropped. -/
def release (s : LockedSystem A F) (lock : ShellLock) (place : ShellPlace) : LockedSystem A F :=
  { s with locked := Function.update s.locked lock false, place }

/-- A step of the shell on the rings, after which it is at another place. -/
def act (s : LockedSystem A F) (shellStep : ShellStep) (place : System A F → ShellPlace) :
    Except Stop (LockedSystem A F) :=
  (s.lift (.shell shellStep)).map fun s' => { s' with place := place s'.system }

/-- The next instruction of the shell. -/
def advance (s : LockedSystem A F) (start : Option (SizedString 32)) :
    Except Stop (LockedSystem A F) :=
  match s.place with
  | .outside =>
    match start with
    | some name => .ok (s.acquire .output (.starting name))
    | none => .ok (s.acquire .input .polling)
  | .starting name => s.act (.send (.startProcess name)) fun _ => .started
  | .started => .ok (s.release .output .outside)
  | .polling => s.act .take fun system => if system.hand.isSome then .serving else .releasing
  | .serving => .ok (s.acquire .output .answering)
  | .answering => s.act .answer fun _ => .answered
  | .answered => .ok (s.release .output .releasing)
  | .releasing => .ok (s.release .input .outside)

/-- The shell is the process that executes. -/
def ShellRuns (s : LockedSystem A F) : Prop :=
  s.system.phase = .executing ∧ s.system.scheduler.current.map (·.id) = some shellProcessId

instance (s : LockedSystem A F) : Decidable s.ShellRuns := inferInstanceAs (Decidable (_ ∧ _))

/-- The handler the processor is in is about to call `block_current`. -/
def blocks (s : LockedSystem A F) (env : Env A F) : Bool :=
  decide (s.system.phase = .handling .pageFault) && s.system.scheduler.current.any fun p =>
    match env.fault p with
    | .block _ _ _ => true
    | .resume _ => false
    | .terminate _ => false

/-- One step.  `block_current` takes the lock of the input ring and `schedule_next` that of the
output ring; both give it back at once. -/
def step (s : LockedSystem A F) : LockedEvent A F → Except Stop (LockedSystem A F)
  | .interrupt i context fxsaveArea => s.lift (.interrupt i context fxsaveArea)
  | .handle env =>
    if s.blocks env ∧ s.locked .input then .error (.spins .input) else s.lift (.handle env)
  | .schedule env =>
    if s.system.phase = .scheduling ∧ s.locked .output then .error (.spins .output)
    else s.lift (.schedule env)
  | .shell start => if s.ShellRuns then s.advance start else .ok s

/-- The locks are free when the scheduler starts. -/
def initial (system : System A F) : LockedSystem A F := ⟨system, .outside, fun _ => false⟩

/-! ### The shell interrupted without a lock -/

/-- The locks are those the shell holds at its place, and it holds one only while it runs. -/
structure Unlocked (s : LockedSystem A F) : Prop where
  locked : ∀ lock, s.locked lock = s.place.holds lock
  runs : s.place ≠ .outside → s.ShellRuns

/-- The condition on a step: an interrupt does not find the shell at a place with a lock. -/
def Outside (s : LockedSystem A F) : LockedEvent A F → Prop
  | .interrupt _ _ _ => s.ShellRuns → s.place = .outside
  | .handle _ => True
  | .schedule _ => True
  | .shell _ => True

instance Outside.decidable (s : LockedSystem A F) : ∀ e, Decidable (s.Outside e)
  | .interrupt _ _ _ => inferInstanceAs (Decidable (_ → _))
  | .handle _ => isTrue trivial
  | .schedule _ => isTrue trivial
  | .shell _ => isTrue trivial

/-- The kernel does not wait for a lock. -/
def NoSpin (stop : Stop) : Prop := ∀ lock, stop ≠ .spins lock

variable {s : LockedSystem A F} {e : Event A F}

/-- The scheduler's system does not look at the locks. -/
lemma lift_ends (s : LockedSystem A F) (e : Event A F) :
    Ends NoSpin (s.lift e) fun s' =>
      ∃ system, s.system.step e = .ok system ∧ s' = { s with system } := by
  rw [lift]
  split
  · next system hstep => exact ⟨system, hstep, rfl⟩
  · exact .stop nofun

/-- Outside the kernel's steps do not matter to the locks. -/
lemma Unlocked.lift (h : s.Unlocked) (hplace : s.place = .outside) (e : Event A F) :
    Ends NoSpin (s.lift e) Unlocked := by
  refine (s.lift_ends e).mono ?_
  rintro _ ⟨system, -, rfl⟩
  exact ⟨h.locked, fun hne => absurd hplace hne⟩

/-- While the kernel runs, the shell is outside. -/
lemma Unlocked.outside (h : s.Unlocked) (hphase : s.system.phase ≠ .executing) :
    s.place = .outside := by
  by_contra hne
  exact hphase (h.runs hne).1

/-- **The kernel finds the lock free**. -/
lemma Unlocked.free (h : s.Unlocked) (hphase : s.system.phase ≠ .executing) (lock : ShellLock) :
    s.locked lock = false := by
  rw [h.locked, h.outside hphase]
  rfl

/-- A step of the kernel, which nothing comes of while a process executes. -/
lemma Unlocked.kernel (h : s.Unlocked)
    (hidle : s.system.phase = .executing → s.system.step e = .ok s.system) :
    Ends NoSpin (s.lift e) Unlocked := by
  by_cases hphase : s.system.phase = .executing
  · rw [LockedSystem.lift, hidle hphase]
    exact h
  · exact h.lift (h.outside hphase) e

/-- A lock is taken, if it is free. -/
lemma Unlocked.acquire (h : s.Unlocked) (hruns : s.ShellRuns) {place : ShellPlace}
    (hplace : ∀ l, place.holds l = (decide (l = lock) || s.place.holds l)) :
    (s.acquire lock place).Unlocked := by
  unfold LockedSystem.acquire
  split
  · exact h
  · refine ⟨fun l => ?_, fun _ => hruns⟩
    rcases eq_or_ne l lock with rfl | hne
    · simp [hplace]
    · simp [hplace, hne, h.locked]

/-- A lock is given back. -/
lemma Unlocked.release (h : s.Unlocked) (hruns : s.ShellRuns) {place : ShellPlace}
    (hplace : ∀ l, place.holds l = (!decide (l = lock) && s.place.holds l)) :
    (s.release lock place).Unlocked := by
  refine ⟨fun l => ?_, fun _ => hruns⟩
  rcases eq_or_ne l lock with rfl | hne
  · simp [LockedSystem.release, hplace]
  · simp [LockedSystem.release, hplace, hne, h.locked]

/-- A step of the shell on the rings leaves it the current process. -/
lemma shellRuns_step {system : System A F} (hruns : s.ShellRuns)
    (hs : s.system.step (.shell shellStep) = .ok system) :
    ({ s with system } : LockedSystem A F).ShellRuns := by
  have hstep := s.system.steps (.shell shellStep)
  rw [hs] at hstep
  cases hstep with
  | idle => exact hruns
  | @shell q _ hphase hq =>
    obtain ⟨hand, queue, heq⟩ := s.system.shell_eq q shellStep
    rw [heq]
    exact hruns

/-- The shell works on a ring with the locks it has. -/
lemma Unlocked.act (h : s.Unlocked) (hruns : s.ShellRuns) {place : System A F → ShellPlace}
    (hplace : ∀ system l, (place system).holds l = s.place.holds l) :
    Ends NoSpin (s.act shellStep place) Unlocked := by
  have hlift := s.lift_ends (.shell shellStep)
  rw [LockedSystem.act]
  cases hl : s.lift (.shell shellStep) with
  | error p => exact hlift.reason hl
  | ok s₁ =>
    obtain ⟨system, hstep, rfl⟩ := hlift.result hl
    exact ⟨fun l => (h.locked l).trans (hplace system l).symm, fun _ => shellRuns_step hruns hstep⟩

/-- The next instruction of the shell keeps the locks where they should be. -/
lemma Unlocked.advance (h : s.Unlocked) (hruns : s.ShellRuns) :
    Ends NoSpin (s.advance start) Unlocked := by
  unfold LockedSystem.advance
  cases hp : s.place with
  | outside =>
    cases start with
    | some name => exact h.acquire hruns fun l => by cases l <;> simp [hp, ShellPlace.holds]
    | none => exact h.acquire hruns fun l => by cases l <;> simp [hp, ShellPlace.holds]
  | starting name => exact h.act hruns fun _ l => by cases l <;> simp [hp, ShellPlace.holds]
  | started => exact h.release hruns fun l => by cases l <;> simp [hp, ShellPlace.holds]
  | polling =>
    refine h.act hruns fun system l => ?_
    rw [hp]
    split <;> cases l <;> rfl
  | serving => exact h.acquire hruns fun l => by cases l <;> simp [hp, ShellPlace.holds]
  | answering => exact h.act hruns fun _ l => by cases l <;> simp [hp, ShellPlace.holds]
  | answered => exact h.release hruns fun l => by cases l <;> simp [hp, ShellPlace.holds]
  | releasing => exact h.release hruns fun l => by cases l <;> simp [hp, ShellPlace.holds]

/-- **Every step keeps the shell's locks with the shell**, and the kernel does not wait. -/
lemma step_unlocked (s : LockedSystem A F) (e : LockedEvent A F) (h : s.Unlocked)
    (he : s.Outside e) : Ends NoSpin (s.step e) Unlocked := by
  cases e with
  | interrupt i context fxsaveArea =>
    exact h.lift (by_contra fun hplace => hplace (he (h.runs hplace))) _
  | handle env =>
    rw [step]
    split
    · next hspin =>
        have hblocks := hspin.1
        rw [blocks, Bool.and_eq_true, decide_eq_true_eq] at hblocks
        have hfree := h.free (by rw [hblocks.1]; decide) .input
        exact absurd (hspin.2.symm.trans hfree) (by decide)
    · exact h.kernel fun hphase => by simp only [System.step, hphase]
  | schedule env =>
    rw [step]
    split
    · next hspin =>
        have hfree := h.free (by rw [hspin.1]; decide) .output
        exact absurd (hspin.2.symm.trans hfree) (by decide)
    · exact h.kernel fun hphase => by simp only [System.step, hphase]
  | shell start =>
    rw [step]
    split
    · next hruns => exact h.advance hruns
    · exact h

/-- **The kernel never spins on a lock of the shell**, in every run in which interrupts find the
shell only at places where it holds no lock. -/
theorem locks_run {system : System A F} {events : List (LockedEvent A F)}
    (houtside : Meets step Outside (initial system) events) (lock : ShellLock) :
    run step (initial system) events ≠ .error (.spins lock) := by
  intro hspins
  have hinit : (initial system).Unlocked := ⟨fun _ => rfl, fun hne => absurd rfl hne⟩
  exact (run_ends_of_meets step_unlocked hinit houtside).reason hspins lock rfl

/-! ### The shell interrupted with a lock -/

/-- An interrupt by the timer. -/
def tickEvents : List (LockedEvent Unit Unit) :=
  [.interrupt .timer System.emptyContext (), .handle (System.smallEnv (.resume ())),
    .schedule (System.smallEnv (.resume ()))]

/-- The shell starts a process and is interrupted afterwards. -/
def interruptedOutside : List (LockedEvent Unit Unit) :=
  [.schedule (System.smallEnv (.resume ())), .shell (some (.newTruncate 32 [])), .shell none,
    .shell none] ++ tickEvents

/-- After its message the shell holds no lock, and the interrupt does no harm. -/
theorem locks_run_interruptedOutside :
    run step (initial System.smallSystem) interruptedOutside ≠ .error (.spins .output) :=
  locks_run (by decide +kernel) .output

/-- The shell is interrupted as soon as it has the lock of the output ring. -/
def interruptedWithLock : List (LockedEvent Unit Unit) :=
  [.schedule (System.smallEnv (.resume ())), .shell (some (.newTruncate 32 []))] ++ tickEvents

/-- **The kernel spins forever** on the lock of the shell it has just preempted. -/
theorem kernel_spins_on_output :
    run step (initial System.smallSystem) interruptedWithLock = .error (.spins .output) := by
  decide +kernel

end LockedSystem

end Rhubarb
