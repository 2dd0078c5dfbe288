import Rhubarb.Foundations.RoundRobin
import Rhubarb.Kernel.Activation

/-!
Turns of the processes (`Scheduler::add_to_queue`, `schedule_next`, `preempt_current`).

`Moves` says once what a step of the system does to the current process and the queues: who is
put at the end of which queue, and who is taken from the front of one.  For each priority that is
a `Turn` of `Foundations/RoundRobin.lean`, where a process is known by its address space, which is
its own for as long as it lives.

* `step_moves`: the moves of one step.
* `Moves.turn`: what a move is for the queue of one priority.
* `roundRobin_run`: who is taken when, in every run of the machine.
-/

namespace Rhubarb

open Foundations Scheduler MemoryState

variable {A F : Type}

/-! ### Moves -/

/-- What stays with a process. -/
def Process.seat (p : Process A F) : ℕ × Priority × A := (p.id, p.priority, p.addressSpace)

lemma space_of_seat {o o' : Option (Process A F)} (h : o'.map Process.seat = o.map Process.seat) :
    o'.map (·.addressSpace) = o.map (·.addressSpace) := by
  cases o with
  | none => rw [Option.map_eq_none_iff.mp h]
  | some p =>
    obtain ⟨p', rfl, hseat⟩ := Option.map_eq_some_iff.mp h
    simp only [Process.seat, Prod.mk.injEq] at hseat
    rw [Option.map_some, Option.map_some, hseat.2.2]

/-- The process that is taken from a queue if none is current, with the scheduler it is taken
from. -/
def Scheduler.taken (c : Scheduler A F) : Option (Process A F × Scheduler A F) :=
  match c.current, c.popNext with
  | none, .ok (p, _) => some (p, c)
  | _, _ => none

/-- The process that `schedule_next` takes from a queue in a step, after the message of the
shell. -/
def System.dequeued (s : System A F) : Event A F → Option (Process A F × Scheduler A F)
  | .schedule env =>
    match s.phase, s.scheduler.pollShell env with
    | .scheduling, .ok c => c.taken
    | _, _ => none
  | .interrupt _ _ _ => none
  | .handle _ => none
  | .shell _ => none

/-- The memory code leaves every process its address space. -/
structure Env.Stable (env : Env A F) : Prop where
  moduleAccess : ∀ {a addr b}, env.moduleAccess a addr = .granted b → b = a
  fault : ∀ {p b}, env.fault p = .resume b → b = p.addressSpace

def Event.Stable : Event A F → Prop
  | .schedule env => env.Stable
  | .handle env => env.Stable
  | .interrupt _ _ _ => True
  | .shell _ => True

/-- At most one process comes, to the end of its queue: one that is started, or one that has
waited for the shell. -/
structure Arrives (c c' : Scheduler A F) : Prop where
  current : c'.current = c.current
  queue : c'.queue = c.queue ∨ ∃ p, c'.queue = (c.addToQueue p).queue
    ∧ (p.priority = .normal ∨ ∃ q ∈ c.blocked, p.seat = q.seat)
  blocked : c'.blocked ⊆ c.blocked

/-- **What a step does to the current process and the queues**, and who is taken. -/
inductive Moves (c : Scheduler A F) : Option (Process A F × Scheduler A F) → Scheduler A F → Prop
  | stay {c'} (current : c'.current.map Process.seat = c.current.map Process.seat)
      (queue : c'.queue = c.queue) (blocked : c'.blocked = c.blocked) : Moves c none c'
  | preempt {c' p} (running : c.current = some p) (current : c'.current = none)
      (queue : c'.queue = (c.addToQueue p).queue) (blocked : c'.blocked = c.blocked) :
      Moves c none c'
  | leave {c' p} (running : c.current = some p) (current : c'.current = none)
      (queue : c'.queue = c.queue) (blocked : c'.blocked ⊆ c.blocked ++ [p]) : Moves c none c'
  | arrive {c₁ c' p} (arrives : Arrives c c₁) (running : c.current = some p)
      (current : c'.current.map Process.seat = c.current.map Process.seat)
      (queue : c'.queue = c₁.queue) (blocked : c'.blocked = c₁.blocked) : Moves c none c'
  | take {c₁ c' p priority rest} (arrives : Arrives c c₁) (running : c.current = none)
      (first : c₁.queue priority = p :: rest)
      (higher : ∀ higher : Priority, higher.value < priority.value → c₁.queue higher = [])
      (current : c'.current.map Process.seat = some p.seat)
      (queue : c'.queue = Function.update c₁.queue priority rest)
      (blocked : c'.blocked = c₁.blocked) : Moves c (some (p, c₁)) c'

namespace Scheduler

variable {c c' : Scheduler A F}

lemma takeOutput_snd (c : Scheduler A F) :
    ∃ shellQueue, c.takeOutput.2 = { c with shellQueue } := by
  rw [takeOutput]
  split
  · exact ⟨c.shellQueue, rfl⟩
  · exact ⟨_, rfl⟩

lemma handleOutput_arrives {env : Env A F} (henv : env.Stable) {o : ShellOutput}
    (h : c.handleOutput env o = .ok c') : Arrives c c' := by
  cases o with
  | startProcess name =>
    simp only [handleOutput, runUserProcess] at h
    split at h
    · cases h
    · cases h
      exact ⟨rfl, .inr ⟨_, rfl, .inl rfl⟩, List.Subset.refl _⟩
  | exitProcess code =>
    cases hb : c.blocked with
    | nil =>
      simp only [handleOutput, hb] at h
      cases h
    | cons p rest =>
      simp only [handleOutput, hb] at h
      cases h
      exact ⟨rfl, .inl rfl, hb ▸ List.subset_cons_self p rest⟩
  | allowModuleAccess addr processId =>
    cases hb : c.blocked with
    | nil =>
      simp only [handleOutput, hb] at h
      cases h
    | cons p rest =>
      have hsub : rest ⊆ c.blocked := hb ▸ List.subset_cons_self p rest
      simp only [handleOutput, hb] at h
      split_ifs at h
      split at h
      · next b hgranted =>
          obtain rfl := henv.moduleAccess hgranted
          cases h
          exact ⟨rfl, .inr ⟨p, rfl, .inr ⟨p, by simp [hb], rfl⟩⟩, hsub⟩
      · cases h
        exact ⟨rfl, .inl rfl, hsub⟩
      · cases h
        exact ⟨rfl, .inl rfl, hsub⟩

/-- The message of the shell that is handled makes at most one process come. -/
lemma pollShell_arrives {env : Env A F} (henv : env.Stable) (h : c.pollShell env = .ok c') :
    Arrives c c' := by
  obtain ⟨shellQueue, hsnd⟩ := c.takeOutput_snd
  rw [pollShell] at h
  split at h
  · next c₁ htake =>
      rw [htake] at hsnd
      cases h
      rw [show c' = _ from hsnd]
      exact ⟨rfl, .inl rfl, List.Subset.refl _⟩
  · next o c₁ htake =>
      rw [htake] at hsnd
      obtain ⟨hcurrent, hqueue, hblocked⟩ := handleOutput_arrives henv h
      rw [show c₁ = _ from hsnd] at hcurrent hqueue hblocked
      exact ⟨hcurrent, hqueue, hblocked⟩

end Scheduler

namespace System

variable {s s' : System A F}

variable {c c' : Scheduler A F}

/-- The context of the current process is saved. -/
lemma setCurrentContext_seat {context : ExecutionContext} {area : F}
    (h : c.setCurrentContext context area = .ok c') :
    c'.current.map Process.seat = c.current.map Process.seat ∧ c'.queue = c.queue
      ∧ c'.blocked = c.blocked := by
  obtain ⟨p, hp, -, rfl⟩ := (setCurrentContext_ends c context area).result h
  refine ⟨?_, rfl, rfl⟩
  rw [hp]
  rfl

/-- The body of a handler keeps the current process, queues it, or lets it leave. -/
lemma body_moves {env : Env A F} (henv : env.Stable) {i : Interrupt} (h : Handled env c i c') :
    Moves c none c' := by
  cases h with
  | timer hp => exact .preempt hp rfl rfl rfl
  | defer hp => exact .preempt hp rfl rfl rfl
  | exit hp => exact .leave hp rfl rfl (List.subset_append_left _ _)
  | translate hp context => exact .stay (by rw [hp]; rfl) rfl rfl
  | resume hp hfault =>
    obtain rfl := henv.fault hfault
    exact .stay (by rw [hp]) rfl rfl
  | block hp hq hid => exact .leave hp rfl rfl (List.Subset.refl _)
  | terminate hp => exact .leave hp rfl rfl (List.subset_append_left _ _)

/-- `schedule_next` goes on with the current process, or takes one from a queue. -/
lemma schedule_moves {env : Env A F} (henv : env.Stable) (hphase : s.phase = .scheduling)
    (h : s.schedule env = .ok s') : Moves s.scheduler (s.dequeued (.schedule env)) s'.scheduler := by
  obtain ⟨⟨context, c'⟩, hnext, hs⟩ := ok_of_bind h
  cases hs
  obtain ⟨c₁, hpoll, hrest⟩ := ok_of_bind hnext
  obtain ⟨⟨p, c₂⟩, hsel, hctx⟩ := ok_of_bind hrest
  have harr := pollShell_arrives henv hpoll
  have hc' : c' = { c₂ with current := some { p with context := none } } := by
    simp only at hctx
    split at hctx
    · cases hctx
    · cases hctx
      rfl
  subst hc'
  cases hc : c₁.current with
  | some p₁ =>
    have hdeq : s.dequeued (.schedule env) = none := by
      simp only [dequeued, hphase, hpoll, taken, hc]
    simp only [selectCurrent, hc] at hsel
    cases hsel
    rw [hdeq]
    have hrunning : s.scheduler.current = some p := harr.current ▸ hc
    refine .arrive harr hrunning ?_ rfl rfl
    rw [hrunning]
    rfl
  | none =>
    simp only [selectCurrent, hc] at hsel
    obtain ⟨priority, rest, hfirst, hhigher, rfl⟩ := popNext_eq_ok hsel
    have hdeq : s.dequeued (.schedule env) = some (p, c₁) := by
      simp only [dequeued, hphase, hpoll, taken, hc, hsel]
    rw [hdeq]
    exact .take harr (harr.current ▸ hc) hfirst hhigher rfl rfl rfl

theorem step_moves {e : Event A F} (he : e.Stable) (h : s.step e = .ok s') :
    Moves s.scheduler (s.dequeued e) s'.scheduler := by
  have hstep := s.steps e
  generalize s.step e = x at hstep h
  cases hstep with
  | idle hidle =>
    cases h
    have hnone : s.dequeued e = none := by
      cases e with
      | schedule env => cases hphase : s.phase <;> simp_all [dequeued]
      | _ => rfl
    rw [hnone]
    exact .stay rfl rfl rfl
  | interrupt context area hi =>
    obtain ⟨c, hset, hs⟩ := ok_of_bind h
    cases hs
    obtain ⟨hcurrent, hqueue, hblocked⟩ := setCurrentContext_seat hset
    exact .stay hcurrent hqueue hblocked
  | handle env hphase =>
    obtain ⟨c, hbody, hs⟩ := ok_of_bind h
    cases hs
    exact body_moves he ((body_ends env _ _).result hbody)
  | schedule env hphase => exact schedule_moves he hphase h
  | @shell q shellStep hphase hq =>
    obtain ⟨hand, queue, heq⟩ := s.shell_eq q shellStep
    rw [heq] at h
    cases h
    exact .stay rfl rfl rfl

end System

/-! ### Queues -/

namespace Scheduler

/-- What is seen of one priority, by the address spaces. -/
def view (c : Scheduler A F) (priority : Priority) : View A where
  current := c.current.map (·.addressSpace)
  queue := (c.queue priority).map (·.addressSpace)

lemma queue_addToQueue (c : Scheduler A F) (p : Process A F) (priority : Priority) :
    (c.addToQueue p).queue priority
      = c.queue priority ++ if p.priority = priority then [p] else [] := by
  by_cases hp : p.priority = priority
  · subst hp
    simp [addToQueue]
  · simp [addToQueue, Function.update_of_ne (Ne.symm hp), hp]

end Scheduler

variable {c c' : Scheduler A F} {taken : Option (Process A F × Scheduler A F)} {priority : Priority}
  {p : Process A F}

/-- One queue gets at most one process more. -/
lemma Arrives.queue_eq (h : Arrives c c') (priority : Priority) :
    ∃ new, c'.queue priority = c.queue priority ++ new := by
  rcases h.queue with heq | ⟨p, heq, -⟩
  · exact ⟨[], by rw [heq, List.append_nil]⟩
  · exact ⟨_, by rw [heq, queue_addToQueue]⟩

/-- **A move is a turn** of every queue. -/
lemma Moves.turn (h : Moves c taken c') (priority : Priority) :
    Turn (c.view priority) (taken.map (·.1.addressSpace)) (c'.view priority) := by
  cases h with
  | stay hcurrent hqueue hblocked =>
    have hview : c'.view priority = ⟨(c.view priority).current, (c.view priority).queue ++ []⟩ := by
      simp only [view, space_of_seat hcurrent, hqueue, List.append_nil]
    rw [hview]
    exact .stay _ _ _
  | @preempt _ p hrunning hcurrent hqueue hblocked =>
    simp only [view, hrunning, hcurrent, hqueue, queue_addToQueue]
    by_cases hp : p.priority = priority
    · simp only [hp, if_true, List.map_append]
      exact .preempt _ _
    · simp only [hp, if_false, List.append_nil]
      exact .leave _ _
  | leave hrunning hcurrent hqueue hblocked =>
    simp only [view, hrunning, hcurrent, hqueue]
    exact .leave _ _
  | arrive harrives hrunning hcurrent hqueue hblocked =>
    obtain ⟨new, hnew⟩ := harrives.queue_eq priority
    simp only [view, space_of_seat hcurrent, hqueue, hnew, List.map_append]
    exact .stay _ _ _
  | @take c₁ _ p priority' rest harrives hrunning hfirst hhigher hcurrent hqueue hblocked =>
    obtain ⟨new, hnew⟩ := harrives.queue_eq priority
    have hseat : c'.current.map (·.addressSpace) = some p.addressSpace :=
      space_of_seat (o := some p) hcurrent
    simp only [view, hrunning, hseat, hqueue, Option.map_some, Option.map_none]
    by_cases hp : priority = priority'
    · subst hp
      have hfront : (c.queue priority).map (·.addressSpace) ++ new.map (·.addressSpace)
          = p.addressSpace :: rest.map (·.addressSpace) := by
        rw [← List.map_append, ← hnew, hfirst, List.map_cons]
      rw [Function.update_self]
      exact .take hfront
    · rw [Function.update_of_ne hp, hnew, List.map_append]
      exact .other _ _ _

/-! ### Priorities -/

/-- Every process waits in the queue of its priority. -/
def Queued (c : Scheduler A F) : Prop := ∀ priority, ∀ p ∈ c.queue priority, p.priority = priority

lemma Queued.addToQueue (h : Queued c) (p : Process A F) :
    Queued (c.addToQueue p) := by
  intro priority q hq
  rcases mem_queue_addToQueue hq with hq | ⟨rfl, rfl⟩
  · exact h priority q hq
  · rfl

lemma Queued.of_queue (h : Queued c) (hq : c'.queue = c.queue) :
    Queued c' := by
  intro priority p hp
  exact h priority p (hq ▸ hp)

lemma Arrives.queued (h : Arrives c c') (hc : Queued c) : Queued c' := by
  rcases h.queue with heq | ⟨p, heq, -⟩
  · exact hc.of_queue heq
  · exact (hc.addToQueue p).of_queue heq

lemma Queued.pop {rest : List (Process A F)} (h : Queued c) (hfirst : c.queue priority = p :: rest)
    (hq : c'.queue = Function.update c.queue priority rest) : Queued c' := by
  intro priority' q hmem
  rw [hq] at hmem
  by_cases hp : priority' = priority
  · subst hp
    rw [Function.update_self] at hmem
    exact h priority' q (hfirst ▸ List.mem_cons_of_mem p hmem)
  · rw [Function.update_of_ne hp] at hmem
    exact h priority' q hmem

lemma Moves.queued (h : Moves c taken c') (hc : Queued c) : Queued c' := by
  cases h with
  | stay hcurrent hqueue hblocked => exact hc.of_queue hqueue
  | preempt hrunning hcurrent hqueue hblocked => exact (hc.addToQueue _).of_queue hqueue
  | leave hrunning hcurrent hqueue hblocked => exact hc.of_queue hqueue
  | arrive harrives hrunning hcurrent hqueue hblocked =>
    exact (harrives.queued hc).of_queue hqueue
  | take harrives hrunning hfirst hhigher hcurrent hqueue hblocked =>
    exact (harrives.queued hc).pop hfirst hqueue

namespace Scheduler

variable {c : Scheduler A F} {p : Process A F}

lemma mem_processes :
    p ∈ c.processes ↔ c.current = some p ∨ (∃ priority, p ∈ c.queue priority) ∨ p ∈ c.blocked := by
  simp only [processes, waiting, List.mem_append, Option.mem_toList]
  constructor
  · rintro (hp | hp | hp | hp | hp)
    · exact .inl hp
    · exact .inr (.inl ⟨_, hp⟩)
    · exact .inr (.inl ⟨_, hp⟩)
    · exact .inr (.inl ⟨_, hp⟩)
    · exact .inr (.inr hp)
  · rintro (hp | ⟨priority, hp⟩ | hp)
    · exact .inl hp
    · cases priority with
      | none => exact .inr (.inl hp)
      | normal => exact .inr (.inr (.inl hp))
      | idle => exact .inr (.inr (.inr (.inl hp)))
    · exact .inr (.inr (.inr (.inr hp)))

/-- A process that was there before, in its seat, or a normal one. -/
def Known (c : Scheduler A F) (p : Process A F) : Prop :=
  (∃ q ∈ c.processes, p.seat = q.seat) ∨ p.priority = .normal

lemma known_of_mem (h : p ∈ c.processes) : c.Known p :=
  Or.inl ⟨p, h, rfl⟩

lemma known_of_seat {q : Process A F} (h : c.Known q) (hseat : p.seat = q.seat) : c.Known p := by
  rcases h with ⟨r, hr, hqr⟩ | hq
  · exact .inl ⟨r, hr, hseat.trans hqr⟩
  · simp only [Process.seat, Prod.mk.injEq] at hseat
    exact .inr (hseat.2.1.trans hq)

end Scheduler

lemma Arrives.known (h : Arrives c c') (hp : p ∈ c'.queue priority) : c.Known p := by
  have hold : p ∈ c.queue priority → c.Known p :=
    fun hp => known_of_mem (mem_processes.mpr (.inr (.inl ⟨priority, hp⟩)))
  rcases h.queue with heq | ⟨q, heq, hq⟩
  · exact hold (heq ▸ hp)
  · rw [heq] at hp
    rcases mem_queue_addToQueue hp with hp | ⟨rfl, -⟩
    · exact hold hp
    · rcases hq with hq | ⟨r, hr, hseat⟩
      · exact .inr hq
      · exact .inl ⟨r, mem_processes.mpr (.inr (.inr hr)), hseat⟩

/-- **No process comes from nowhere**, but the normal ones that are started. -/
lemma Moves.known (h : Moves c taken c') (hp : p ∈ c'.processes) : c.Known p := by
  have hcurrent : ∀ {o : Option (Process A F)}, (∀ q, o = some q → c.Known q) →
      c'.current.map Process.seat = o.map Process.seat → c'.current = some p → c.Known p := by
    intro o ho hseat hc
    rw [hc, Option.map_some] at hseat
    obtain ⟨q, hq, hqp⟩ := Option.map_eq_some_iff.mp hseat.symm
    exact known_of_seat (ho q hq) hqp.symm
  have hrunning : ∀ q, c.current = some q → c.Known q :=
    fun q hq => known_of_mem (mem_processes.mpr (.inl hq))
  have hqueued : ∀ {priority q}, q ∈ c.queue priority → c.Known q :=
    fun hq => known_of_mem (mem_processes.mpr (.inr (.inl ⟨_, hq⟩)))
  have hblocked : ∀ {q}, q ∈ c.blocked → c.Known q :=
    fun hq => known_of_mem (mem_processes.mpr (.inr (.inr hq)))
  rcases mem_processes.mp hp with hc | ⟨priority, hq⟩ | hb
  · cases h with
    | stay current queue blocked => exact hcurrent hrunning current hc
    | preempt running current queue blocked => rw [current] at hc; cases hc
    | leave running current queue blocked => rw [current] at hc; cases hc
    | arrive arrives running current queue blocked => exact hcurrent hrunning current hc
    | take arrives running first higher current queue blocked =>
      refine hcurrent (o := some _) (fun q hq => ?_) current hc
      cases hq
      exact arrives.known (first ▸ List.mem_cons_self)
  · cases h with
    | stay current queue blocked => exact hqueued (queue ▸ hq)
    | preempt running current queue blocked =>
      rw [queue] at hq
      rcases mem_queue_addToQueue hq with hq | ⟨rfl, -⟩
      · exact hqueued hq
      · exact hrunning _ running
    | leave running current queue blocked => exact hqueued (queue ▸ hq)
    | arrive arrives running current queue blocked => exact arrives.known (queue ▸ hq)
    | @take c₁ _ _ priority' _ arrives running first higher current queue blocked =>
      rw [queue] at hq
      by_cases hpr : priority = priority'
      · subst hpr
        rw [Function.update_self] at hq
        exact arrives.known (first ▸ List.mem_cons_of_mem _ hq)
      · rw [Function.update_of_ne hpr] at hq
        exact arrives.known hq
  · cases h with
    | stay current queue blocked => exact hblocked (blocked ▸ hb)
    | preempt running current queue blocked => exact hblocked (blocked ▸ hb)
    | leave running current queue blocked =>
      rcases List.mem_append.mp (blocked hb) with hb | hb
      · exact hblocked hb
      · rw [List.mem_singleton.mp hb]
        exact hrunning _ running
    | arrive arrives running current queue blocked => exact hblocked (arrives.blocked (blocked ▸ hb))
    | take arrives running first higher current queue blocked =>
      exact hblocked (arrives.blocked (blocked ▸ hb))

/-- Only the idle process has the priority of the idle process. -/
def IdleAlone (c : Scheduler A F) : Prop :=
  ∀ p ∈ c.processes, p.priority = .idle → p.id = idleProcessId

lemma Moves.idleAlone (h : Moves c taken c') (hc : IdleAlone c) : IdleAlone c' := by
  intro p hp hidle
  rcases h.known hp with ⟨q, hq, hseat⟩ | hnormal
  · simp only [Process.seat, Prod.mk.injEq] at hseat
    exact hseat.1.trans (hc q hq (hseat.2.1.symm.trans hidle))
  · rw [hnormal] at hidle
    cases hidle

namespace System

/-- The current process, if it has the idle priority, satisfies `P`. -/
def IdleRuns (s : System A F) (P : Prop) : Prop :=
  ∀ p, s.scheduler.current = some p → p.priority = .idle → P

/-- **When the idle process runs**: with no other process queued; it is interrupted by the timer
only, and then gives up its place. -/
def IdleWaits (s : System A F) : Prop :=
  match s.phase with
  | .executing => s.IdleRuns (∀ higher : Priority, higher.value < Priority.idle.value →
      s.scheduler.queue higher = [])
  | .handling i => s.IdleRuns (i = .timer)
  | .scheduling => s.IdleRuns False

variable {s s' : System A F}

lemma idleWaits_of_none (h : s.scheduler.current = none) : s.IdleWaits := by
  have hruns : ∀ P, s.IdleRuns P := by
    intro P p hp
    rw [h] at hp
    cases hp
  rw [IdleWaits]
  split <;> exact hruns _

/-- What a run keeps about the queues. -/
structure Orderly (s : System A F) : Prop where
  queued : Queued s.scheduler
  idleAlone : IdleAlone s.scheduler
  idleWaits : s.IdleWaits

/-- Who has the priority of the current process. -/
lemma IdleRuns.of_seat {P : Prop} (h : s.IdleRuns P)
    (hseat : s'.scheduler.current.map Process.seat = s.scheduler.current.map Process.seat) :
    s'.IdleRuns P := by
  intro p hp hidle
  rw [hp, Option.map_some] at hseat
  obtain ⟨q, hq, hqp⟩ := Option.map_eq_some_iff.mp hseat.symm
  simp only [Process.seat, Prod.mk.injEq] at hqp
  exact h q hq (hqp.2.1.trans hidle)

/-- After the body of a handler there is no current process, or it is the one before, unless the
timer has gone off. -/
lemma body_current {c c' : Scheduler A F} {env : Env A F} (henv : env.Stable) {i : Interrupt}
    (h : Handled env c i c') :
    c'.current = none ∨ i ≠ .timer ∧ c'.current.map Process.seat = c.current.map Process.seat := by
  cases h with
  | translate hp context => exact .inr ⟨by decide, by rw [hp]; rfl⟩
  | resume hp hfault =>
    obtain rfl := henv.fault hfault
    exact .inr ⟨by decide, by rw [hp]⟩
  | _ => exact .inl rfl

/-- The process that goes on is the one before, or the first of the highest priority. -/
lemma Moves.idleRuns {taken : Option (Process A F × Scheduler A F)}
    (h : Moves s.scheduler taken s'.scheduler) (hqueued : Queued s.scheduler)
    (hidle : s.IdleRuns False) :
    s'.IdleRuns (∀ higher : Priority, higher.value < Priority.idle.value →
      s'.scheduler.queue higher = []) := by
  have hsame : s'.scheduler.current.map Process.seat = s.scheduler.current.map Process.seat →
      ∀ {P}, s'.IdleRuns P := fun hseat {P} p hp hpi => (hidle.of_seat hseat p hp hpi).elim
  have hnone : s'.scheduler.current = none → ∀ {P}, s'.IdleRuns P := by
    intro hc P p hp
    rw [hc] at hp
    cases hp
  cases h with
  | stay hcurrent hqueue hblocked => exact hsame hcurrent
  | preempt hrunning hcurrent hqueue hblocked => exact hnone hcurrent
  | leave hrunning hcurrent hqueue hblocked => exact hnone hcurrent
  | arrive harrives hrunning hcurrent hqueue hblocked => exact hsame hcurrent
  | @take c₁ _ p priority rest harrives hrunning hfirst hhigher hcurrent hqueue hblocked =>
    intro q hq hqi higher hlt
    rw [hq, Option.map_some, Option.some.injEq] at hcurrent
    simp only [Process.seat, Prod.mk.injEq] at hcurrent
    have hpriority : p.priority = priority :=
      harrives.queued hqueued priority p (hfirst ▸ List.mem_cons_self)
    obtain rfl : priority = .idle := by rw [← hpriority, ← hcurrent.2.1, hqi]
    have hne : higher ≠ .idle := by
      rintro rfl
      exact lt_irrefl _ hlt
    rw [hqueue, Function.update_of_ne hne]
    exact hhigher higher hlt

/-- **A step keeps the queues in order.** -/
theorem step_orderly {e : Event A F} (he : e.Stable) (hs : s.Orderly) (h : s.step e = .ok s') :
    s'.Orderly := by
  have hmoves := step_moves he h
  refine ⟨hmoves.queued hs.queued, hmoves.idleAlone hs.idleAlone, ?_⟩
  have hwaits := hs.idleWaits
  have hstep := s.steps e
  generalize s.step e = x at hstep h
  cases hstep with
  | idle =>
    cases h
    exact hwaits
  | @interrupt i context area hi =>
    obtain ⟨c, hset, hs'⟩ := ok_of_bind h
    cases hs'
    have htimer : s.IdleRuns (i = .timer) := by
      intro p hp hidle
      have hid := hs.idleAlone p (mem_processes.mpr (.inl hp)) hidle
      refine hi.2.resolve_right fun hne => hne ?_
      rw [hp, Option.map_some, hid]
    exact htimer.of_seat (setCurrentContext_seat hset).1
  | @handle i env hphase =>
    obtain ⟨c, hbody, hs'⟩ := ok_of_bind h
    cases hs'
    simp only [IdleWaits, hphase] at hwaits
    rcases body_current he ((body_ends env _ i).result hbody) with hnone | ⟨hi, hseat⟩
    · intro p hp
      rw [show c.current = some p from hp] at hnone
      cases hnone
    · have hruns : ({ s with scheduler := c } : System A F).IdleRuns (i = .timer) :=
        hwaits.of_seat hseat
      exact fun p hp hidle => hi (hruns p hp hidle)
  | schedule env hphase =>
    simp only [IdleWaits, hphase] at hwaits
    obtain ⟨⟨context, c⟩, -, hs'⟩ := ok_of_bind h
    cases hs'
    exact Moves.idleRuns hmoves hs.queued hwaits
  | @shell q shellStep hphase hq =>
    obtain ⟨hand, queue, heq⟩ := s.shell_eq q shellStep
    rw [heq] at h
    cases h
    exact hwaits

end System

/-! ### The machine -/

namespace Machine

/-- The process that `schedule_next` takes from a queue in a step. -/
def dequeued (m : Machine F) : Event F → Option (Process ℕ F × Scheduler ℕ F)
  | .schedule calls =>
    match m.system.phase, m.pollShell calls with
    | .scheduling, .ok m₁ => m₁.scheduler.taken
    | _, _ => none
  | .interrupt _ _ _ => none
  | .handle _ => none
  | .shell _ => none

/-- The process with an address space is taken from its queue. -/
def Dequeues (m : Machine F) (e : Event F) (space : ℕ) : Prop :=
  (m.dequeued e).map (·.1.addressSpace) = some space

instance (m : Machine F) (e : Event F) (space : ℕ) : Decidable (m.Dequeues e space) :=
  inferInstanceAs (Decidable (_ = _))

/-- The process runs, or waits in the queue of its priority: it neither waits for the shell nor
has it exited. -/
def Runnable (m : Machine F) (p : Process ℕ F) : Prop :=
  p.addressSpace ∈ (m.scheduler.view p.priority).members

instance (m : Machine F) (p : Process ℕ F) : Decidable (m.Runnable p) :=
  inferInstanceAs (Decidable (_ ∈ _))

/-- A step between two turns of `p`, after which `p` and `q` are runnable. -/
def Between (p q : Process ℕ F) (m : Machine F) (e : Event F) : Prop :=
  ¬m.Dequeues e p.addressSpace ∧ ∀ m', m.step e = .ok m' → m'.Runnable p ∧ m'.Runnable q

instance (p q : Process ℕ F) (m : Machine F) (e : Event F) : Decidable (Between p q m e) :=
  match hs : m.step e with
  | .ok m' =>
    decidable_of_iff (¬m.Dequeues e p.addressSpace ∧ m'.Runnable p ∧ m'.Runnable q)
      (and_congr_right fun _ => by simp [hs])
  | .error _ => decidable_of_iff (¬m.Dequeues e p.addressSpace) (by simp [Between, hs])

lemma Calls.env_stable (calls : Calls F) (next : ℕ) : (calls.env next).Stable where
  moduleAccess h := by
    simp only [Calls.env] at h
    split at h
    · cases h
      rfl
    · cases h
    · cases h
  fault h := by
    simp only [Calls.env] at h
    split at h
    · cases h
      rfl
    · cases h
    · cases h

lemma Event.erase_stable (m : Machine F) (e : Event F) : (e.erase m).Stable := by
  cases e with
  | interrupt i context area => trivial
  | handle calls => exact Calls.env_stable calls _
  | schedule calls => exact Calls.env_stable calls _
  | shell shellStep => trivial

variable {m m' : Machine F} {kroot : Frame} {e : Event F}

/-- What the machine takes, the system takes in the same step. -/
lemma Kept.dequeued_eq (h : m.Kept kroot) (hs : m.step e = .ok m') :
    m.dequeued e = m.system.dequeued (e.erase m) := by
  cases e with
  | interrupt i context area => rfl
  | handle calls => rfl
  | shell shellStep => rfl
  | schedule calls =>
    cases hphase : m.system.phase with
    | executing => simp only [dequeued, Event.erase, System.dequeued, hphase]
    | handling i => simp only [dequeued, Event.erase, System.dequeued, hphase]
    | scheduling =>
      simp only [step, hphase] at hs
      obtain ⟨x, hnext, -⟩ := ok_of_bind hs
      obtain ⟨m₁, hpoll, -⟩ := ok_of_bind hnext
      obtain ⟨-, c, hc, hsys⟩ := (h.1.pollShell calls).result hpoll
      have hsched : m₁.scheduler = c := congrArg System.scheduler hsys
      have hc' : m.system.scheduler.pollShell (calls.env m.nextSpace) = .ok c := hc
      simp only [dequeued, Event.erase, System.dequeued, hphase, hpoll, hc', hsched]

/-- **The moves of the machine.** -/
lemma Kept.moves (h : m.Kept kroot) (hs : m.step e = .ok m') :
    Moves m.scheduler (m.dequeued e) m'.scheduler := by
  rw [h.dequeued_eq hs]
  exact System.step_moves (e.erase_stable m) ((step_ends m e h).result hs).2

variable {p : Process ℕ F} {c : Scheduler ℕ F}

/-- The process that is taken, whatever happens then. -/
lemma Kept.dequeued_eq_some (h : m.Kept kroot) (hd : m.dequeued e = some (p, c)) :
    Arrives m.scheduler c ∧ (tenants c).Nodup ∧ m.scheduler.current = none
      ∧ ∃ priority rest, c.queue priority = p :: rest
        ∧ ∀ higher : Priority, higher.value < priority.value → c.queue higher = [] := by
  cases e with
  | interrupt i context area => cases hd
  | handle calls => cases hd
  | shell shellStep => cases hd
  | schedule calls =>
    rw [dequeued] at hd
    split at hd
    · next m₁ hphase hpoll =>
        rw [taken] at hd
        split at hd
        · next c' hcurrent hpop =>
            cases hd
            obtain ⟨h₁, c, hc, hsys⟩ := (h.1.pollShell calls).result hpoll
            obtain rfl : m₁.scheduler = c := congrArg System.scheduler hsys
            have harr := pollShell_arrives (Calls.env_stable calls _) hc
            obtain ⟨priority, rest, hfirst, hhigher, -⟩ := popNext_eq_ok hpop
            exact ⟨harr, h₁.nodup, harr.current ▸ hcurrent, priority, rest, hfirst, hhigher⟩
        · cases hd
    · cases hd

/-- What is seen of one priority is seen once. -/
lemma nodup_view (h : (tenants c).Nodup) (priority : Priority) :
    (c.view priority).members.Nodup := by
  have hsub : ((c.queue priority).map (·.addressSpace)).Sublist (c.waiting.map (·.addressSpace)) := by
    refine List.Sublist.map _ ?_
    cases priority with
    | none => exact List.sublist_append_left _ _
    | normal => exact (List.sublist_append_left _ _).trans (List.sublist_append_right _ _)
    | idle =>
      exact ((List.sublist_append_left _ _).trans (List.sublist_append_right _ _)).trans
        (List.sublist_append_right _ _)
  have hcurrent : (c.view priority).current.toList = c.current.toList.map (·.addressSpace) := by
    rw [view]
    cases c.current <;> rfl
  rw [tenants, processes, List.map_append] at h
  rw [View.members, hcurrent]
  exact h.sublist ((List.Sublist.refl _).append hsub)

/-- **The count between two turns** of `p`. -/
lemma Kept.awaits {q : Process ℕ F} {n : ℕ} (hpq : q.priority = p.priority)
    (h : m.Kept kroot ∧ Awaits p.addressSpace q.addressSpace (m.scheduler.view p.priority) n)
    (he : Between p q m e) (hs : m.step e = .ok m') :
    m'.Kept kroot ∧ Awaits p.addressSpace q.addressSpace (m'.scheduler.view p.priority)
      (n + if m.Dequeues e q.addressSpace then 1 else 0) := by
  have hkept := ((step_ends m e h.1).result hs).1
  obtain ⟨hp, hq⟩ := he.2 m' hs
  rw [Runnable, hpq] at hq
  exact ⟨hkept, h.2.turn ((h.1.moves hs).turn p.priority) (nodup_view h.1.1.nodup _)
    (nodup_view hkept.1.nodup _) hp hq he.1⟩

/-- What is seen when a process has been taken: it runs, and those behind it wait. -/
lemma Kept.view_dequeued (h : m.Kept kroot) (hc : Queued c) (hd : m.dequeued e = some (p, c))
    (hs : m.step e = .ok m') :
    ∃ rest, c.queue p.priority = p :: rest
      ∧ m'.scheduler.view p.priority = ⟨some p.addressSpace, rest.map (·.addressSpace)⟩ := by
  have hmoves := h.moves hs
  rw [hd] at hmoves
  cases hmoves with
  | @take _ _ _ priority rest harrives hrunning hfirst hhigher hcurrent hqueue hblocked =>
    obtain rfl : p.priority = priority := hc priority p (hfirst ▸ List.mem_cons_self)
    refine ⟨rest, hfirst, ?_⟩
    rw [Scheduler.view, space_of_seat (o := some p) hcurrent, hqueue, Function.update_self]
    rfl

/-- To take a process is a turn of every queue, whatever happens then. -/
lemma Kept.turn_dequeued (h : m.Kept kroot) (hd : m.dequeued e = some (p, c)) (priority : Priority) :
    ∃ v, Turn (m.scheduler.view priority) (some p.addressSpace) v ∧ v.members.Nodup := by
  obtain ⟨harr, hnodup, hnone, priority', rest, hfirst, hhigher⟩ := h.dequeued_eq_some hd
  let popped : Scheduler ℕ F := { c with queue := Function.update c.queue priority' rest }
  have hpopped : popped.current = none := harr.current.trans hnone
  have hmoves : Moves m.scheduler (some (p, c)) { popped with current := some p } :=
    .take harr hnone hfirst hhigher rfl rfl rfl
  have hperm : (tenants c).Perm (p.addressSpace :: tenants popped) := (processes_pop hfirst).map _
  refine ⟨_, hmoves.turn priority, nodup_view ?_ priority⟩
  rw [tenants_of_current hpopped]
  exact hperm.nodup hnodup

/-- The queues of the machine that `run` starts: the shell and the idle process. -/
lemma boot_orderly {memory : MemoryState} {kroot : Frame} {calls : Calls F}
    {idleContext : ExecutionContext} {shellName idleName : List UInt8} {iomapBase : ℕ}
    {m₀ : Machine F} (hmem : memory.Housing kroot)
    (halone : ∀ i, memory.spaces (.process i) = none)
    (hboot : boot memory calls idleContext shellName idleName iomapBase = .ok m₀) :
    m₀.system.Orderly := by
  obtain ⟨m₁, hshell, hrest⟩ := ok_of_bind hboot
  obtain ⟨⟨i, m₂⟩, hidle, hlast⟩ := ok_of_bind hrest
  cases hlast
  have h : (Machine.mk emptySystem memory 0 iomapBase : Machine F).Sound kroot :=
    empty_sound hmem halone iomapBase
  obtain ⟨h₁, c, hc, hsys₁⟩ := (h.runUserProcess calls shellName true .all).result hshell
  obtain ⟨-, hsys₂, -⟩ := (h₁.newSpace "idle").result hidle
  have hsys : m₂.system = { (emptySystem : System ℕ F) with scheduler := c } := hsys₂.trans hsys₁
  have hsched : m₂.scheduler = c := congrArg System.scheduler hsys
  simp only [Scheduler.runUserProcess] at hc
  split at hc
  · cases hc
  cases hc
  have hnone : m₂.scheduler.current = none := by rw [hsched]; rfl
  have hempty : Queued (emptySystem : System ℕ F).scheduler :=
    fun priority p hp => absurd hp List.not_mem_nil
  refine ⟨((hempty.addToQueue _).addToQueue _).of_queue (by rw [hsched]; rfl), ?_, ?_⟩
  · intro p hp hp'
    rcases mem_processes.mp hp with hp | ⟨priority, hp⟩ | hp
    · exact absurd (hnone.symm.trans hp) (by simp)
    · rcases mem_queue_addToQueue hp with hp | ⟨rfl, -⟩
      · rw [hsched] at hp
        rcases mem_queue_addToQueue hp with hp | ⟨rfl, -⟩
        · exact absurd hp List.not_mem_nil
        · cases hp'
      · rfl
    · have hnil : m₂.scheduler.blocked = [] := by rw [hsched]; rfl
      exact absurd (show p ∈ m₂.scheduler.blocked from hp) (hnil ▸ List.not_mem_nil)
  · exact System.idleWaits_of_none hnone

/-- **Turns by priority, in every run**: a process is taken from its queue only when all queues of
higher priority are empty, the idle process runs only while they are, and between two turns of a
process `p` each other one of its priority that waited at the first of them, and stays runnable as
`p` does, is taken exactly once. -/
theorem roundRobin_run {memory : MemoryState} {kroot : Frame} {calls : Calls F}
    {idleContext : ExecutionContext} {shellName idleName : List UInt8} {iomapBase : ℕ}
    {m₀ m : Machine F} {events : List (Event F)} (hmem : memory.Housing kroot)
    (halone : ∀ i, memory.spaces (.process i) = none)
    (hboot : boot memory calls idleContext shellName idleName iomapBase = .ok m₀)
    (hrun : run step m₀ events = .ok m) :
    (∀ e p c, m.dequeued e = some (p, c) → ∀ higher : Priority,
        higher.value < p.priority.value → c.queue higher = [])
      ∧ (m.system.phase = .executing → ∀ p, m.scheduler.current = some p → p.priority = .idle →
        m.scheduler.queue .normal = [])
      ∧ ∀ e₁ p c m₁ between m₂ e₂ q,
        m.dequeued e₁ = some (p, c) → m.step e₁ = .ok m₁ → run step m₁ between = .ok m₂ →
        m₂.Dequeues e₂ p.addressSpace → q ∈ c.queue p.priority → q.addressSpace ≠ p.addressSpace →
        Meets step (Between p q) m₁ between →
        tally step (fun m e => m.Dequeues e q.addressSpace) m₁ between = 1 := by
  obtain ⟨hkept, horderly⟩ : m.Kept kroot ∧ m.system.Orderly := by
    refine run_invariant (I := fun m : Machine F => m.Kept kroot ∧ m.system.Orderly)
      (fun m e m' hm hs => ?_) ⟨.of_boot hmem halone hboot, boot_orderly hmem halone hboot⟩ hrun
    obtain ⟨hkept, hsim⟩ := (step_ends m e hm.1).result hs
    exact ⟨hkept, System.step_orderly (e.erase_stable m) hm.2 hsim⟩
  have hqueued : ∀ {e p c}, m.dequeued e = some (p, c) → Queued c :=
    fun hd => (hkept.dequeued_eq_some hd).1.queued horderly.queued
  refine ⟨fun e p c hd => ?_, fun hphase p hp hidle => ?_, ?_⟩
  · obtain ⟨-, -, -, priority, rest, hfirst, hhigher⟩ := hkept.dequeued_eq_some hd
    rw [hqueued hd priority p (hfirst ▸ List.mem_cons_self)]
    exact hhigher
  · have hwaits := horderly.idleWaits
    rw [System.IdleWaits, hphase] at hwaits
    exact hwaits p hp hidle .normal (by decide)
  · intro e₁ p c m₁ between m₂ e₂ q hd hs hbetween hd₂ hq hne hmeets
    obtain ⟨rest, hrest, hview⟩ := hkept.view_dequeued (hqueued hd) hd hs
    have hpq : q.priority = p.priority := hqueued hd _ q hq
    -- at the first turn `p` runs and `q` waits
    have hwaits : q ∈ rest := by
      rw [hrest] at hq
      exact (List.mem_cons.mp hq).resolve_left fun hc => hne (by rw [hc])
    have hbegin : Awaits p.addressSpace q.addressSpace (m₁.scheduler.view p.priority) 0 := by
      rw [hview]
      exact Or.inl ⟨rfl, List.mem_map_of_mem hwaits, rfl⟩
    have hkept₁ : m₁.Kept kroot := ((step_ends m e₁ hkept).result hs).1
    obtain ⟨hkept₂, hawaits⟩ :=
      run_tally (f := fun m e => m.Dequeues e q.addressSpace)
        (I := fun m n => m.Kept kroot
          ∧ Awaits p.addressSpace q.addressSpace (m.scheduler.view p.priority) n)
        (fun m e m' n hm he hs => Kept.awaits hpq hm he hs) ⟨hkept₁, hbegin⟩ hmeets hbetween
    -- at the second one `p` is taken
    obtain ⟨⟨p₂, c₂⟩, hp₂, hspace⟩ := Option.map_eq_some_iff.mp hd₂
    obtain ⟨v, hturn, hnodup⟩ := hkept₂.turn_dequeued hp₂ p.priority
    rw [show p₂.addressSpace = p.addressSpace from hspace] at hturn
    rw [← Nat.zero_add (tally _ _ _ _)]
    exact hawaits.next_turn hturn hnodup hne

/-- The shell has started a process, and the timer interrupts it. -/
def startedAndPreempted : List (Event Unit) :=
  [.schedule (smallCalls []), .shell (.send (.startProcess (.newTruncate 32 []))),
    .interrupt .timer System.emptyContext (), .handle (smallCalls [])]

/-- The timer interrupts the shell, and then the other process. -/
def bothPreempted : List (Event Unit) :=
  turn .timer ++ [.interrupt .timer System.emptyContext (), .handle (smallCalls [])]

/-- Between two turns of the shell the process that it has started gets its turn. -/
theorem roundRobin_run_startedAndPreempted :
    ∃ m₀ m m₁ p q, boot roomyMemory (smallCalls []) System.emptyContext [] [] 0 = .ok m₀
      ∧ run step m₀ startedAndPreempted = .ok m ∧ m.Dequeues (.schedule (smallCalls [])) p.addressSpace
      ∧ m.step (.schedule (smallCalls [])) = .ok m₁ ∧ Meets step (Between p q) m₁ bothPreempted
      ∧ tally step (fun m e => m.Dequeues e q.addressSpace) m₁ bothPreempted = 1 := by
  obtain ⟨m₀, hboot, m, hrun, ⟨p, c⟩, hd, m₁, hs, m₂, hbetween, hd₂, q, hq, hne, hmeets⟩ :
      ∃ m₀, boot roomyMemory (smallCalls []) System.emptyContext [] [] 0 = .ok m₀
        ∧ ∃ m, run step m₀ startedAndPreempted = .ok m
          ∧ ∃ t, m.dequeued (.schedule (smallCalls [])) = some t
            ∧ ∃ m₁, m.step (.schedule (smallCalls [])) = .ok m₁
              ∧ ∃ m₂, run step m₁ bothPreempted = .ok m₂
                ∧ m₂.Dequeues (.schedule (smallCalls [])) t.1.addressSpace
                ∧ ∃ q ∈ t.2.queue t.1.priority, q.addressSpace ≠ t.1.addressSpace
                  ∧ Meets step (Between t.1 q) m₁ bothPreempted := by
    decide +kernel
  have hmem : roomyMemory.Housing ⟨300000⟩ := (smallMachine_booted (by decide)).housing
  exact ⟨m₀, m, m₁, p, q, hboot, hrun, by rw [Dequeues, hd]; rfl, hs, hmeets,
    (roundRobin_run hmem (fun _ => rfl) hboot hrun).2.2 _ p c m₁ bothPreempted m₂ _ q hd hs hbetween
      hd₂ hq hne hmeets⟩

end Machine

end Rhubarb
