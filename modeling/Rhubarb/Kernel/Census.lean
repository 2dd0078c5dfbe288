import Mathlib.Data.List.Perm.Basic
import Rhubarb.Kernel.Scheduler

/-!
Who is where: the processes of the scheduler against the history.

The places a process can be in are lists; moving a process from one to another permutes all of
them together.  `Census` says what does not depend on the order: no process is in two places,
those that are somewhere are those that were started and have not ended, and the idle process
is among them.

* `Census.perm`, `Census.insert`, `Census.remove`: moving, starting and ending a process.
* `waiting_addToQueue`, `waiting_pop`: what the queue operations do to the places.
* `popNext_eq_ok`: the process that is taken is the first of the highest priority.
* `body_ends`, `steps`: what the body of a handler and a step of the system can do.
* `answers`: which of the waiting processes the shell's messages leave unanswered.
-/

namespace Rhubarb

open Foundations

variable {A F : Type}

/-- What tells a process apart from the others, and which queue is its own. -/
def Process.key (p : Process A F) : ℕ × Priority := (p.id, p.priority)

/-- **The census**: of the keys of all processes, the next id, and the ids that were started
and that ended. -/
structure Census (keys : List (ℕ × Priority)) (next : ℕ) (started ended : List ℕ) : Prop where
  nodup : (keys.map Prod.fst).Nodup
  live : ∀ id, id ∈ keys.map Prod.fst ↔ id ∈ started ∧ id ∉ ended
  started_lt : ∀ id ∈ started, id < next
  ended_started : ∀ id ∈ ended, id ∈ started
  idle : ∀ k ∈ keys, k.2 = .idle ↔ k.1 = idleProcessId
  idle_live : idleProcessId ∈ keys.map Prod.fst

namespace Census

variable {keys keys' : List (ℕ × Priority)} {k : ℕ × Priority} {next : ℕ} {started ended : List ℕ}

/-- Processes may change places. -/
lemma perm (h : Census keys next started ended) (hp : keys'.Perm keys) :
    Census keys' next started ended where
  nodup := (hp.map Prod.fst).nodup_iff.mpr h.nodup
  live id := ((hp.map Prod.fst).mem_iff).trans (h.live id)
  started_lt := h.started_lt
  ended_started := h.ended_started
  idle k hk := h.idle k (hp.mem_iff.mp hk)
  idle_live := (hp.map Prod.fst).mem_iff.mpr h.idle_live

/-- A process is started under the next id, with a priority of its own. -/
lemma insert (h : Census keys next started ended) (priority : Priority)
    (hpriority : priority ≠ .idle) :
    Census ((next, priority) :: keys) (next + 1) (started ++ [next]) ended := by
  have hnew : next ∉ started := fun hmem => lt_irrefl _ (h.started_lt next hmem)
  have hzero : idleProcessId < next := h.started_lt _ ((h.live _).mp h.idle_live).1
  refine ⟨?_, fun id => ?_, fun id hid => ?_, fun id hid => ?_, fun k hk => ?_, ?_⟩
  · rw [List.map_cons, List.nodup_cons]
    exact ⟨fun hmem => hnew ((h.live next).mp hmem).1, h.nodup⟩
  · rw [List.map_cons, List.mem_cons, h.live, List.mem_append, List.mem_singleton]
    constructor
    · rintro (rfl | ⟨hs, he⟩)
      · exact ⟨.inr rfl, fun he => hnew (h.ended_started _ he)⟩
      · exact ⟨.inl hs, he⟩
    · rintro ⟨hs | rfl, he⟩
      · exact .inr ⟨hs, he⟩
      · exact .inl rfl
  · rcases List.mem_append.mp hid with hid | hid
    · exact Nat.lt_succ_of_lt (h.started_lt id hid)
    · rw [List.mem_singleton.mp hid]
      exact Nat.lt_succ_self next
  · exact List.mem_append_left _ (h.ended_started id hid)
  · rcases List.mem_cons.mp hk with rfl | hk
    · exact ⟨fun hidle => absurd hidle hpriority, fun hid => absurd hid hzero.ne'⟩
    · exact h.idle k hk
  · exact List.mem_cons_of_mem _ h.idle_live

/-- A process other than the idle one ends. -/
lemma remove (h : Census (k :: keys) next started ended) (hk : k.1 ≠ idleProcessId) :
    Census keys next started (ended ++ [k.1]) := by
  have hnodup := List.nodup_cons.mp h.nodup
  have hlive := h.live k.1
  refine ⟨hnodup.2, fun id => ?_, h.started_lt, fun id hid => ?_, fun j hj => ?_, ?_⟩
  · have hid := h.live id
    rw [List.map_cons, List.mem_cons] at hid
    rw [List.mem_append, List.mem_singleton]
    constructor
    · intro hmem
      have hne : id ≠ k.1 := fun heq => hnodup.1 (heq ▸ hmem)
      obtain ⟨hs, he⟩ := hid.mp (.inr hmem)
      exact ⟨hs, fun hor => hor.elim he hne⟩
    · rintro ⟨hs, he⟩
      refine (hid.mpr ⟨hs, fun hmem => he (.inl hmem)⟩).resolve_left fun heq => he (.inr heq)
  · rcases List.mem_append.mp hid with hid | hid
    · exact h.ended_started id hid
    · rw [List.mem_singleton.mp hid]
      exact (hlive.mp (by simp)).1
  · exact h.idle j (List.mem_cons_of_mem _ hj)
  · have hidle := h.idle_live
    rw [List.map_cons, List.mem_cons] at hidle
    exact hidle.resolve_left fun heq => hk heq.symm

end Census

variable {priority : Priority}

/-! ### The places -/

namespace Scheduler

/-- The processes that are queued or blocked. -/
def waiting (s : Scheduler A F) : List (Process A F) :=
  s.queue .none ++ (s.queue .normal ++ (s.queue .idle ++ s.blocked))

/-- All the processes there are. -/
def processes (s : Scheduler A F) : List (Process A F) := s.current.toList ++ s.waiting

variable {s s' : Scheduler A F} {p : Process A F}

lemma mem_waiting_of_queue (h : p ∈ s.queue priority) : p ∈ s.waiting := by
  cases priority <;> simp [waiting, h]

lemma mem_waiting_of_blocked (h : p ∈ s.blocked) : p ∈ s.waiting := by
  simp [waiting, h]

/-- Queueing a process adds it to those that wait. -/
lemma waiting_addToQueue (s : Scheduler A F) (p : Process A F) :
    (s.addToQueue p).waiting.Perm (p :: s.waiting) := by
  cases hp : p.priority with
  | none =>
    simp only [waiting, addToQueue, hp, Function.update_self, ne_eq, reduceCtorEq,
      not_false_eq_true, Function.update_of_ne, List.append_assoc]
    exact List.perm_middle
  | normal =>
    simp only [waiting, addToQueue, hp, Function.update_self, ne_eq, reduceCtorEq,
      not_false_eq_true, Function.update_of_ne, List.append_assoc]
    exact (List.Perm.append_left _ List.perm_middle).trans List.perm_middle
  | idle =>
    simp only [waiting, addToQueue, hp, Function.update_self, ne_eq, reduceCtorEq,
      not_false_eq_true, Function.update_of_ne, List.append_assoc]
    exact (List.Perm.append_left _ ((List.Perm.append_left _ List.perm_middle).trans
      List.perm_middle)).trans List.perm_middle

lemma mem_queue_addToQueue {q : Process A F} (h : q ∈ (s.addToQueue p).queue priority) :
    q ∈ s.queue priority ∨ q = p ∧ priority = p.priority := by
  rcases eq_or_ne priority p.priority with rfl | hne
  · simp only [addToQueue, Function.update_self, List.mem_append, List.mem_singleton] at h
    exact h.imp_right fun hq => ⟨hq, rfl⟩
  · simp only [addToQueue, Function.update_of_ne hne] at h
    exact .inl h

variable {rest : List (Process A F)}

/-- Taking the head of a queue takes it from those that wait. -/
lemma waiting_pop (h : s.queue priority = p :: rest) :
    s.waiting.Perm (p :: { s with queue := Function.update s.queue priority rest }.waiting) := by
  cases priority with
  | none => simp [waiting, h]
  | normal =>
    simp only [waiting, h, Function.update_self, ne_eq, reduceCtorEq, not_false_eq_true,
      Function.update_of_ne, List.cons_append]
    exact List.perm_middle
  | idle =>
    simp only [waiting, h, Function.update_self, ne_eq, reduceCtorEq, not_false_eq_true,
      Function.update_of_ne, List.cons_append]
    exact (List.Perm.append_left _ List.perm_middle).trans List.perm_middle

/-- Taking the process that has waited longest for the shell takes it from those that wait. -/
lemma waiting_unblock (h : s.blocked = p :: rest) :
    s.waiting.Perm (p :: { s with blocked := rest }.waiting) := by
  simp only [waiting, h, ← List.append_assoc]
  exact List.perm_middle

/-- Queueing a process adds it to all the processes. -/
lemma processes_addToQueue (s : Scheduler A F) (p : Process A F) :
    (s.addToQueue p).processes.Perm (p :: s.processes) :=
  ((waiting_addToQueue s p).append_left _).trans List.perm_middle

/-- Taking the head of a queue takes it from all the processes. -/
lemma processes_pop (h : s.queue priority = p :: rest) :
    s.processes.Perm (p :: { s with queue := Function.update s.queue priority rest }.processes) :=
  ((waiting_pop h).append_left _).trans List.perm_middle

/-- Taking the process that has waited longest takes it from all the processes. -/
lemma processes_unblock (h : s.blocked = p :: rest) :
    s.processes.Perm (p :: { s with blocked := rest }.processes) :=
  ((waiting_unblock h).append_left _).trans List.perm_middle

/-- **The process to go on with** is the head of its queue, and the queues of higher priority are
empty. -/
lemma popNext_eq_ok (h : s.popNext = .ok (p, s')) :
    ∃ priority rest, s.queue priority = p :: rest
      ∧ (∀ higher : Priority, higher.value < priority.value → s.queue higher = [])
      ∧ s' = { s with queue := Function.update s.queue priority rest } := by
  rw [popNext] at h
  split at h
  · cases h
  · next priority hfind =>
      split at h
      · cases h
      · next process rest hq =>
          cases h
          refine ⟨priority, rest, hq, fun higher hlt => ?_, rfl⟩
          -- a queue before the one that was found, if it were not empty, would have been found
          by_contra hne
          cases higher with
          | none =>
            rw [List.find?_cons_of_pos (by simpa using hne)] at hfind
            cases hfind
            exact lt_irrefl _ hlt
          | normal =>
            rw [List.find?_cons] at hfind
            split at hfind
            · cases hfind
              exact absurd hlt (by decide)
            · rw [List.find?_cons_of_pos (by simpa using hne)] at hfind
              cases hfind
              exact lt_irrefl _ hlt
          | idle =>
            cases priority <;> exact absurd hlt (by decide)

/-- There is a process to go on with as long as the idle queue is not empty, and it is the head
of a queue. -/
lemma popNext_ok (h : s.queue .idle ≠ []) :
    ∃ priority p rest, s.queue priority = p :: rest
      ∧ s.popNext = .ok (p, { s with queue := Function.update s.queue priority rest }) := by
  have hsome : ([Priority.none, .normal, .idle].find? fun priority =>
      decide (s.queue priority ≠ [])).isSome := by
    rw [List.find?_isSome]
    exact ⟨.idle, by simp, by simpa using h⟩
  obtain ⟨priority, hfind⟩ := Option.isSome_iff_exists.mp hsome
  have hne : s.queue priority ≠ [] := by simpa using List.find?_some hfind
  obtain ⟨p, rest, hq⟩ := List.exists_cons_of_ne_nil hne
  exact ⟨priority, p, rest, hq, by simp only [popNext, hfind, hq]⟩

end Scheduler

/-! ### What the steps do -/

/-- The panics of `schedule_next` over an answer: it is for another process, or nobody waits. -/
def System.Misdelivered (p : SchedulerPanic) : Prop :=
  p = .processIdMismatch ∨ p = .noBlockedProcess

instance (p : SchedulerPanic) : Decidable (System.Misdelivered p) :=
  inferInstanceAs (Decidable (_ ∨ _))

namespace Scheduler

/-- The context is saved in the current process, which has none. -/
lemma setCurrentContext_ends (c : Scheduler A F) (context : ExecutionContext) (fxsaveArea : F) :
    Ends (¬System.Misdelivered ·) (c.setCurrentContext context fxsaveArea) fun c' =>
      ∃ p, c.current = some p ∧ p.context = none
        ∧ c' = { c with current := some { p with context := some context, fxsaveArea } } := by
  rw [setCurrentContext]
  split
  · exact .stop (by decide)
  · next p hp =>
      split
      · exact .stop (by decide)
      · next hnone => exact ⟨p, hp, hnone, rfl⟩

/-- **What the body of a handler does** to the current process. -/
inductive Handled (env : Env A F) (c : Scheduler A F) : Interrupt → Scheduler A F → Prop
  | timer {p} (hp : c.current = some p) :
      Handled env c .timer ({ c with current := none }.addToQueue p)
  | defer {p} (hp : c.current = some p) :
      Handled env c .defer ({ c with current := none }.addToQueue p)
  | exit {p} (hp : c.current = some p) : Handled env c .exit { c with current := none }
  | translate {p} (hp : c.current = some p) (context : ExecutionContext) :
      Handled env c .translateAddr { c with current := some { p with context := some context } }
  | resume {p addressSpace} (hp : c.current = some p)
      (hfault : env.fault p = .resume addressSpace) :
      Handled env c .pageFault { c with current := some { p with addressSpace } }
  | block {p q request} (hp : c.current = some p) (hq : c.shellQueue = some q)
      (hid : request.processId = p.id) :
      Handled env c .pageFault { c with
        current := none
        blocked := c.blocked ++ [p]
        shellQueue := some { q with input := q.input.push request } }
  | terminate {p} (hp : c.current = some p) :
      Handled env c .pageFault { c with current := none }

/-- The body of a handler does not look at answers. -/
lemma body_ends (env : Env A F) (c : Scheduler A F) (i : Interrupt) :
    Ends (¬System.Misdelivered ·) (System.body env c i) (Handled env c i) := by
  cases hp : c.current with
  | none => cases i <;> simp only [System.body, preemptCurrent, exitCurrent, translateCurrent,
      faultCurrent, hp] <;> exact .stop (by decide)
  | some p =>
    cases i with
    | timer =>
      simp only [System.body, preemptCurrent, hp]
      exact .timer hp
    | defer =>
      simp only [System.body, preemptCurrent, hp]
      exact .defer hp
    | exit =>
      simp only [System.body, exitCurrent, hp]
      split
      · exact .stop (by decide)
      · exact .exit hp
    | translateAddr =>
      simp only [System.body, translateCurrent, hp]
      split
      · exact .stop (by decide)
      · exact .translate hp _
    | pageFault =>
      simp only [System.body, faultCurrent, hp]
      split
      · next hfault => exact .resume hp hfault
      · simp only [blockCurrent, hp]
        split
        · exact .stop (by decide)
        · next hq => exact .block hp hq rfl
      · -- the exit interrupt, raised inside of the handler
        refine (setCurrentContext_ends c _ _).bind ?_
        rintro _ ⟨p', hp', -, rfl⟩
        exact .terminate hp'

end Scheduler

namespace System

/-- A step of the shell changes its hand and the rings only. -/
lemma shell_eq (s : System A F) (q : ShellQueue) (shellStep : ShellStep) :
    ∃ hand queue, s.shell q shellStep
      = { s with hand, scheduler := { s.scheduler with shellQueue := queue } } := by
  cases shellStep with
  | take =>
    rw [shell]
    split
    · exact ⟨s.hand, s.scheduler.shellQueue, rfl⟩
    · exact ⟨_, _, rfl⟩
  | answer =>
    rw [shell]
    split
    · exact ⟨s.hand, s.scheduler.shellQueue, rfl⟩
    · exact ⟨_, _, rfl⟩
  | send output => exact ⟨s.hand, _, rfl⟩

/-- **What a step is**: a part of an interrupt, a step of the shell, or nothing where the event
does not fit the phase. -/
inductive Steps (s : System A F) : Event A F → Except SchedulerPanic (System A F) → Prop
  | idle {e} (h : ∀ env, e = .schedule env → s.phase ≠ .scheduling) : Steps s e (.ok s)
  | interrupt {i} (context fxsaveArea) (h : s.CanInterrupt i) :
      Steps s (.interrupt i context fxsaveArea) (s.interrupt i context fxsaveArea)
  | handle {i} (env) (h : s.phase = .handling i) : Steps s (.handle env) (s.handle env i)
  | schedule (env) (h : s.phase = .scheduling) : Steps s (.schedule env) (s.schedule env)
  | shell {q} (shellStep) (h : s.phase = .executing) (hq : s.scheduler.shellQueue = some q) :
      Steps s (.shell shellStep) (.ok (s.shell q shellStep))

lemma steps (s : System A F) (e : Event A F) : s.Steps e (s.step e) := by
  cases e with
  | interrupt i context fxsaveArea =>
    rw [step]
    split_ifs with hi
    · exact .interrupt context fxsaveArea hi
    · exact .idle nofun
  | handle env =>
    rw [step]
    split
    · next i hphase => exact .handle env hphase
    all_goals exact .idle nofun
  | schedule env =>
    rw [step]
    split
    · next hphase => exact .schedule env hphase
    all_goals exact .idle fun _ _ hphase => by simp_all
  | shell shellStep =>
    rw [step]
    split
    · next q hphase hq => exact .shell shellStep hphase hq
    all_goals exact .idle nofun

end System

/-! ### Answers of the shell -/

/-- The waiting ids that the messages leave unanswered, or `none` if a message does not answer
the id that has waited longest. -/
def answers : List ShellOutput → List ℕ → Option (List ℕ)
  | [], ids => some ids
  | .startProcess _ :: outputs, ids => answers outputs ids
  | .exitProcess _ :: _, [] => none
  | .exitProcess _ :: outputs, _ :: ids => answers outputs ids
  | .allowModuleAccess _ _ :: _, [] => none
  | .allowModuleAccess _ processId :: outputs, id :: ids =>
    if processId = id then answers outputs ids else none

/-- One more process waits. -/
lemma answers_snoc {outputs : List ShellOutput} {ids : List ℕ} (id : ℕ)
    (h : (answers outputs ids).isSome) : (answers outputs (ids ++ [id])).isSome := by
  fun_induction answers outputs ids with
  | case1 ids => rfl
  | case2 name outputs ids ih => exact ih h
  | case3 => cases h
  | case4 code outputs first ids ih => exact ih h
  | case5 => cases h
  | case6 addr outputs first ids ih =>
    simp only [List.cons_append, answers, if_pos]
    exact ih h
  | case7 => cases h

end Rhubarb
