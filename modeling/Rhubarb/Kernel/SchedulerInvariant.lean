import Rhubarb.Foundations.Comp
import Rhubarb.Kernel.Census

/-!
The scheduler along every run.

Between two parts of an interrupt the processes are in their places (`Kept`), and the phase says
what the current process is: without a context exactly while it executes, with the one it was
interrupted in otherwise (`InPhase`).

* `Kept.setCurrent`, `Kept.preempt`, `Kept.block`, `Kept.exit`, `Kept.output`, `Kept.select`:
  each operation of the scheduler keeps the processes in their places.
* `step_sound`: no step panics, and every step keeps both, as long as the shell answers the
  processes in the order they were blocked in and its ring has room (`Obeys`).
* `fault_exit_stops`: the exit interrupt that the page-fault handler raises always panics.
-/

namespace Rhubarb

open Foundations Scheduler

variable {A F : Type}

/-! ### Contexts to resume with -/

namespace History

variable {h : History} {id id' : ℕ} {c : ExecutionContext}

lemma resume_save_self : (h.save id c).resume id = some c := by
  simp [resume, save]

lemma resume_save_of_ne (hne : id' ≠ id) : (h.save id c).resume id' = h.resume id' := by
  simp [resume, save, hne]

/-- The translate-address handler changes `rax`, whatever it was. -/
lemma resume_answer (hres : h.resume id = some c) (value : Word) :
    { h with answer := Function.update h.answer id (some value) }.resume id
      = some (c.withRax value) := by
  simp only [resume, Function.update_self]
  cases ha : h.answer id with
  | none =>
    simp only [resume, ha] at hres
    rw [hres, Option.map_some]
  | some old =>
    simp only [resume, ha] at hres
    obtain ⟨c₀, hsaved, rfl⟩ := Option.map_eq_some_iff.mp hres
    rw [hsaved]
    rfl

end History

/-- The process waits with the context it should be resumed with. -/
def Parked (h : History) (p : Process A F) : Prop :=
  ∃ c, p.context = some c ∧ h.resume p.id = some c

/-! ### Processes in their places -/

/-- **The processes are in their places**. -/
structure Kept (c : Scheduler A F) (h : History) : Prop where
  census : Census (c.processes.map Process.key) c.processId h.started h.ended
  queued : ∀ priority, ∀ p ∈ c.queue priority, p.priority = priority
  parked : ∀ p ∈ c.waiting, Parked h p
  awake : ∀ p ∈ c.blocked, p.id ≠ idleProcessId
  answered : ∃ q outputs, c.shellQueue = some q ∧ q.output.Holds outputs
    ∧ (answers outputs (c.blocked.map (·.id))).isSome

namespace Kept

variable {c : Scheduler A F} {h h' : History} {p p' : Process A F}

/-- The current process is not among those that wait. -/
lemma ne_current (hk : Kept c h) (hp : c.current = some p) {q : Process A F}
    (hq : q ∈ c.waiting) : q.id ≠ p.id := by
  have hnodup := hk.census.nodup
  simp only [processes, hp, Option.toList_some, List.singleton_append, List.map_cons,
    List.nodup_cons] at hnodup
  intro heq
  refine hnodup.1 ?_
  rw [List.map_map]
  exact List.mem_map.mpr ⟨q, hq, heq⟩

/-- The current process is replaced by a later state of it. -/
lemma setCurrent (hk : Kept c h) (hp : c.current = some p) (hkey : p'.key = p.key)
    (hs : h'.started = h.started) (he : h'.ended = h.ended)
    (hresume : ∀ id, id ≠ p.id → h'.resume id = h.resume id) :
    Kept { c with current := some p' } h' where
  census := by
    have hcensus := hk.census
    rw [hs, he]
    simpa [processes, waiting, hp, hkey] using hcensus
  queued := hk.queued
  parked q hq := by
    obtain ⟨ctx, hctx, hres⟩ := hk.parked q hq
    exact ⟨ctx, hctx, (hresume q.id (hk.ne_current hp hq)).trans hres⟩
  awake := hk.awake
  answered := hk.answered

/-- The current process goes to the end of its own queue. -/
lemma preempt (hk : Kept c h) (hp : c.current = some p) (hpark : Parked h p) :
    Kept ({ c with current := none }.addToQueue p) h where
  census := by
    refine hk.census.perm ((List.Perm.map _ ?_))
    have hwait := waiting_addToQueue { c with current := none } p
    simpa [processes, hp, addToQueue, waiting] using hwait
  queued priority q hq := by
    rcases mem_queue_addToQueue hq with hq | ⟨rfl, rfl⟩
    · exact hk.queued priority q hq
    · rfl
  parked q hq := by
    rcases List.mem_cons.mp ((waiting_addToQueue _ p).mem_iff.mp hq) with rfl | hq
    · exact hpark
    · exact hk.parked q hq
  awake := hk.awake
  answered := hk.answered

/-- The current process, which is not the idle one, waits for the shell. -/
lemma block (hk : Kept c h) (hp : c.current = some p) (hpark : Parked h p)
    (hid : p.id ≠ idleProcessId) {q : ShellQueue} (hq : c.shellQueue = some q)
    (request : ShellInput) :
    Kept { c with
      current := none
      blocked := c.blocked ++ [p]
      shellQueue := some { q with input := q.input.push request } } h where
  census := by
    refine hk.census.perm (List.Perm.map _ ?_)
    simp only [processes, waiting, hp, Option.toList_none, Option.toList_some, List.nil_append,
      List.singleton_append]
    simp only [← List.append_assoc]
    exact List.perm_append_singleton p _
  queued := hk.queued
  parked r hr := by
    simp only [waiting, ← List.append_assoc, List.mem_append, List.mem_singleton] at hr
    rcases hr with hr | rfl
    · exact hk.parked r (by simpa only [waiting, ← List.append_assoc, List.mem_append] using hr)
    · exact hpark
  awake r hr := by
    rcases List.mem_append.mp hr with hr | hr
    · exact hk.awake r hr
    · rw [List.mem_singleton.mp hr]
      exact hid
  answered := by
    obtain ⟨q', outputs, hq', hholds, hans⟩ := hk.answered
    cases hq.symm.trans hq'
    refine ⟨_, outputs, rfl, hholds, ?_⟩
    rw [List.map_append]
    exact answers_snoc p.id hans

/-- The current process, which is not the idle one, ends. -/
lemma exit (hk : Kept c h) (hp : c.current = some p) (hid : p.id ≠ idleProcessId) :
    Kept { c with current := none } (h.finish p.id) where
  census := by
    have hcensus := hk.census
    simp only [processes, hp, Option.toList_some, List.singleton_append, List.map_cons] at hcensus
    exact hcensus.remove hid
  queued := hk.queued
  parked := hk.parked
  awake := hk.awake
  answered := hk.answered

/-- With no current process the idle process is in its queue. -/
lemma queue_idle (hk : Kept c h) (hnone : c.current = none) : c.queue .idle ≠ [] := by
  have hlive := hk.census.idle_live
  simp only [processes, hnone, Option.toList_none, List.nil_append, List.map_map,
    List.mem_map] at hlive
  obtain ⟨p, hp, hid⟩ := hlive
  have hidle : p.priority = .idle :=
    (hk.census.idle p.key (List.mem_map.mpr ⟨p, by simp [processes, hp], rfl⟩)).mpr hid
  have hplace : p ∈ c.queue .idle := by
    simp only [waiting, List.mem_append] at hp
    rcases hp with hp | hp | hp | hp
    · exact absurd ((hk.queued _ p hp).symm.trans hidle) (by decide)
    · exact absurd ((hk.queued _ p hp).symm.trans hidle) (by decide)
    · exact hp
    · exact absurd hid (hk.awake p hp)
  exact List.ne_nil_of_mem hplace

/-- The process to go on with is taken from its queue. -/
lemma select (hk : Kept c h) (hcur : ∀ p, c.current = some p → Parked h p) :
    ∃ p c', c.selectCurrent = .ok (p, c') ∧ Parked h p ∧ Kept { c' with current := some p } h := by
  cases hc : c.current with
  | some p =>
    refine ⟨p, c, by simp only [selectCurrent, hc], hcur p hc, ?_⟩
    exact hk.setCurrent hc rfl rfl rfl fun _ _ => rfl
  | none =>
    obtain ⟨priority, p, rest, hq, hpop⟩ := popNext_ok (hk.queue_idle hc)
    have hperm := waiting_pop hq
    have hrest : ∀ q ∈ Function.update c.queue priority rest priority, q ∈ c.queue priority := by
      intro q hmem
      rw [Function.update_self] at hmem
      rw [hq]
      exact List.mem_cons_of_mem _ hmem
    have hsel : c.selectCurrent = c.popNext := by rw [selectCurrent, hc]
    refine ⟨p, _, hsel.trans hpop, hk.parked p (mem_waiting_of_queue (hq ▸ List.mem_cons_self)), ?_⟩
    refine ⟨?_, fun pr q hmem => ?_, fun q hmem => ?_, hk.awake, hk.answered⟩
    · refine hk.census.perm (List.Perm.map _ ?_)
      simpa [processes, hc, waiting] using hperm.symm
    · rcases eq_or_ne pr priority with rfl | hne
      · exact hk.queued pr q (hrest q hmem)
      · exact hk.queued pr q (by simpa [Function.update_of_ne hne] using hmem)
    · exact hk.parked q (hperm.mem_iff.mpr (List.mem_cons_of_mem _ hmem))

/-! ### Messages of the shell -/

section Output

variable {q : ShellQueue} {outputs : List ShellOutput} {rest : List (Process A F)}

/-- The process that has waited longest is queued again, with what it waited for. -/
lemma unblock (hk : Kept c h) (hb : c.blocked = p :: rest) (hkey : p'.key = p.key)
    (hctx : p'.context = p.context) (hholds : q.output.Holds outputs)
    (hans : (answers outputs (rest.map (·.id))).isSome) :
    Kept ({ c with blocked := rest, shellQueue := some q }.addToQueue p') h where
  census := by
    have hnew := (processes_addToQueue { c with blocked := rest, shellQueue := some q } p').map
      Process.key
    rw [List.map_cons, hkey, ← List.map_cons] at hnew
    exact hk.census.perm (hnew.trans ((processes_unblock hb).map Process.key).symm)
  queued priority r hr := by
    rcases mem_queue_addToQueue hr with hr | ⟨rfl, rfl⟩
    · exact hk.queued priority r hr
    · rfl
  parked r hr := by
    have hold := waiting_unblock hb
    rcases List.mem_cons.mp ((waiting_addToQueue _ p').mem_iff.mp hr) with rfl | hr
    · obtain ⟨ctx, hc, hres⟩ := hk.parked p (mem_waiting_of_blocked (hb ▸ List.mem_cons_self))
      have hid : r.id = p.id := congrArg Prod.fst hkey
      exact ⟨ctx, hctx.trans hc, by rw [hid, hres]⟩
    · exact hk.parked r (hold.mem_iff.mpr (List.mem_cons_of_mem _ hr))
  awake r hr := hk.awake r (hb ▸ List.mem_cons_of_mem _ hr)
  answered := ⟨q, outputs, rfl, hholds, hans⟩

/-- The process that has waited longest ends. -/
lemma drop (hk : Kept c h) (hb : c.blocked = p :: rest) (hholds : q.output.Holds outputs)
    (hans : (answers outputs (rest.map (·.id))).isSome) :
    Kept { c with blocked := rest, shellQueue := some q } (h.finish p.id) where
  census := by
    have hcensus := hk.census.perm ((processes_unblock hb).map Process.key).symm
    rw [List.map_cons] at hcensus
    exact hcensus.remove (hk.awake p (hb ▸ List.mem_cons_self))
  queued := hk.queued
  parked r hr := hk.parked r ((waiting_unblock hb).mem_iff.mpr (List.mem_cons_of_mem _ hr))
  awake r hr := hk.awake r (hb ▸ List.mem_cons_of_mem _ hr)
  answered := ⟨q, outputs, rfl, hholds, hans⟩

/-- A process has an id that was given out before. -/
lemma id_lt (hk : Kept c h) (hp : p ∈ c.processes) : p.id < c.processId :=
  hk.census.started_lt _ ((hk.census.live p.id).mp
    (List.mem_map.mpr ⟨p.key, List.mem_map.mpr ⟨p, hp, rfl⟩, rfl⟩)).1

/-- A process is loaded and queued. -/
lemma start (hk : Kept c h) (hctx : ∃ ctx, p.context = some ctx ∧ h' = h.start c.processId ctx)
    (hid : p.id = c.processId) (hpriority : p.priority = .normal) (hholds : q.output.Holds outputs)
    (hans : (answers outputs (c.blocked.map (·.id))).isSome) :
    Kept ({ c with shellQueue := some q, processId := c.processId + 1 }.addToQueue p) h' := by
  obtain ⟨ctx, hctx, rfl⟩ := hctx
  refine ⟨?_, fun priority r hr => ?_, fun r hr => ?_, hk.awake, ⟨q, outputs, rfl, hholds, hans⟩⟩
  · have hkey : p.key = (c.processId, .normal) := by rw [Process.key, hid, hpriority]
    have hnew := (processes_addToQueue
      { c with shellQueue := some q, processId := c.processId + 1 } p).map Process.key
    rw [List.map_cons, hkey] at hnew
    exact (hk.census.insert .normal (by decide)).perm hnew
  · rcases mem_queue_addToQueue hr with hr | ⟨rfl, rfl⟩
    · exact hk.queued priority r hr
    · rfl
  · rcases List.mem_cons.mp ((waiting_addToQueue _ p).mem_iff.mp hr) with rfl | hr
    · exact ⟨ctx, hctx, by rw [hid]; exact History.resume_save_self⟩
    · -- The new id is larger than every id in use.
      obtain ⟨ctx', hc', hres⟩ := hk.parked r hr
      have hne : r.id ≠ c.processId := (hk.id_lt (List.mem_append_right _ hr)).ne
      exact ⟨ctx', hc', (History.resume_save_of_ne hne).trans hres⟩

/-- The message the shell has waiting, if any. -/
lemma takeOutput_cases (hk : Kept c h) :
    (∃ c', c.takeOutput = (none, c') ∧ c'.current = c.current ∧ Kept c' h)
      ∨ ∃ o outputs q, c.takeOutput = (some o, { c with shellQueue := some q })
          ∧ q.output.Holds outputs ∧ (answers (o :: outputs) (c.blocked.map (·.id))).isSome := by
  obtain ⟨q, outputs, hq, hholds, hans⟩ := hk.answered
  cases outputs with
  | nil =>
    refine .inl ⟨{ c with shellQueue := some q }, ?_, rfl, ?_⟩
    · simp only [takeOutput, hq, hholds.pop_nil]
    · exact ⟨hk.census, hk.queued, hk.parked, hk.awake, ⟨q, [], rfl, hholds, hans⟩⟩
  | cons o outputs =>
    obtain ⟨ring, hpop, hring⟩ := hholds.pop_cons
    refine .inr ⟨o, outputs, { q with output := ring }, ?_, hring, hans⟩
    simp only [takeOutput, hq, hpop]

/-- **A message is handled** if it answers the process that has waited longest, or asks for a
process that can be loaded; the current process stays as it is. -/
lemma output (hk : Kept c h) (env : Env A F) {o : ShellOutput} (hholds : q.output.Holds outputs)
    (hans : (answers (o :: outputs) (c.blocked.map (·.id))).isSome)
    (hload : env.loads c.processId o = true) :
    ∃ c', handleOutput env { c with shellQueue := some q } o = .ok c' ∧ c'.current = c.current
      ∧ Kept c' (h.output env c o)
      ∧ ∀ p, c.current = some p → Parked h p → Parked (h.output env c o) p := by
  cases o with
  | startProcess name =>
    simp only [Env.loads, Bool.and_eq_true, decide_eq_true_eq] at hload
    obtain ⟨hsome, hlt⟩ := hload
    obtain ⟨⟨space, ctx⟩, hl⟩ := Option.isSome_iff_exists.mp hsome
    have hrun : handleOutput env { c with shellQueue := some q } (.startProcess name)
        = .ok ({ c with shellQueue := some q, processId := c.processId + 1 }.addToQueue
            ⟨c.processId, name.asStr, .normal, .normal, space, some ctx, true,
              env.initFxsaveArea⟩) := by
      simp only [handleOutput, runUserProcess, hl, Nat.mod_eq_of_lt hlt]
    simp only [History.output, hl]
    refine ⟨_, hrun, rfl, hk.start ⟨ctx, rfl, rfl⟩ rfl rfl hholds hans, fun p hp hpark => ?_⟩
    obtain ⟨ctx', hc', hres⟩ := hpark
    have hne : p.id ≠ c.processId := (hk.id_lt (by simp [processes, hp])).ne
    exact ⟨ctx', hc', (History.resume_save_of_ne hne).trans hres⟩
  | exitProcess code =>
    cases hb : c.blocked with
    | nil => simp [hb, answers] at hans
    | cons p rest =>
      rw [hb, List.map_cons, answers] at hans
      simp only [handleOutput, History.output, hb]
      exact ⟨_, rfl, rfl, hk.drop hb hholds hans, fun _ _ hpark => hpark⟩
  | allowModuleAccess addr processId =>
    cases hb : c.blocked with
    | nil => simp [hb, answers] at hans
    | cons p rest =>
      rw [hb, List.map_cons, answers] at hans
      by_cases hid : processId = p.id
      · rw [if_pos hid] at hans
        simp only [handleOutput, History.output, hb, hid, ne_eq, not_true_eq_false, if_false]
        cases env.moduleAccess p.addressSpace addr with
        | granted space =>
          exact ⟨_, rfl, rfl, hk.unblock hb rfl rfl hholds hans, fun _ _ hpark => hpark⟩
        | mappingFailed =>
          exact ⟨_, rfl, rfl, hk.drop hb hholds hans, fun _ _ hpark => hpark⟩
        | noSection =>
          exact ⟨_, rfl, rfl, hk.drop hb hholds hans, fun _ _ hpark => hpark⟩
      · rw [if_neg hid] at hans
        cases hans

/-- After the message, whatever it was, the processes are in their places. -/
lemma poll (hk : Kept c h) (env : Env A F)
    (hload : c.takeOutput.1.all (env.loads c.processId) = true)
    (hcur : ∀ p, c.current = some p → Parked h p) :
    ∃ c', c.pollShell env = .ok c' ∧ Kept c' (h.poll env c)
      ∧ ∀ p, c'.current = some p → Parked (h.poll env c) p := by
  rcases hk.takeOutput_cases with ⟨c', htake, hsame, hk'⟩ | ⟨o, outputs, q, htake, hholds, hans⟩
  · simp only [pollShell, History.poll, htake]
    exact ⟨c', rfl, hk', fun p hp => hcur p (hsame ▸ hp)⟩
  · rw [htake, Option.all_some] at hload
    obtain ⟨c', hrun, hsame, hk', hpark⟩ := hk.output env hholds hans hload
    simp only [pollShell, History.poll, htake]
    exact ⟨c', hrun, hk', fun p hp => hpark p (hsame ▸ hp) (hcur p (hsame ▸ hp))⟩

end Output

end Kept

/-! ### The system -/

namespace System

/-- What the phase says about the current process: it has no context exactly while it executes,
and then it was resumed with the one it should be. -/
def InPhase (s : System A F) : Prop :=
  match s.phase with
  | .executing => ∃ p c, s.scheduler.current = some p ∧ p.context = none
      ∧ s.resumed = some (p.id, c) ∧ s.history.resume p.id = some c
  | .handling i => ∃ p, s.scheduler.current = some p ∧ Parked s.history p
      ∧ (i = .timer ∨ p.id ≠ idleProcessId)
  | .scheduling => ∀ p, s.scheduler.current = some p → Parked s.history p

/-- **What holds at every point of a run**. -/
structure Sound (s : System A F) : Prop where
  kept : Kept s.scheduler s.history
  inPhase : s.InPhase

/-- The message answers the process that has waited longest of those not answered yet, and the
ring has room for it. -/
def answersNext (s : Scheduler A F) (q : ShellQueue) (o : ShellOutput) : Bool :=
  decide (q.output.contents.length < shellInputQueueSize)
    && (answers (q.output.contents ++ [o]) (s.blocked.map (·.id))).isSome

/-- The shell's step sends only such messages. -/
def inOrder (s : System A F) (q : ShellQueue) : ShellStep → Bool
  | .take => true
  | .answer => s.hand.all fun request => answersNext s.scheduler q request.answer
  | .send output => answersNext s.scheduler q output

/-- The condition on a step: page faults do not end the process, processes that are started
can be loaded, and the shell answers in order. -/
def Obeys (s : System A F) : Event A F → Prop
  | .interrupt _ _ _ => True
  | .handle env => s.phase = .handling .pageFault →
      s.scheduler.current.all (fun p => !(env.fault p).terminates) = true
  | .schedule env => s.phase = .scheduling →
      s.scheduler.takeOutput.1.all (env.loads s.scheduler.processId) = true
  | .shell shellStep => s.phase = .executing →
      s.scheduler.shellQueue.all (fun q => s.inOrder q shellStep) = true

instance Obeys.decidable (s : System A F) : ∀ e, Decidable (s.Obeys e)
  | .interrupt _ _ _ => isTrue trivial
  | .handle _ => inferInstanceAs (Decidable (_ → _))
  | .schedule _ => inferInstanceAs (Decidable (_ → _))
  | .shell _ => inferInstanceAs (Decidable (_ → _))

variable {s : System A F}

/-- The prologue finds the current process without a context. -/
lemma interrupt_sound (hs : s.Sound) {i : Interrupt} (hi : s.CanInterrupt i)
    (context : ExecutionContext) (fxsaveArea : F) :
    ∃ s', s.interrupt i context fxsaveArea = .ok s' ∧ s'.Sound := by
  have hphase := hs.inPhase
  rw [InPhase, hi.1] at hphase
  obtain ⟨p, c, hp, hnone, -, -⟩ := hphase
  have hset : s.scheduler.setCurrentContext context fxsaveArea
      = .ok { s.scheduler with
          current := some { p with context := some context, fxsaveArea } } := by
    simp only [setCurrentContext, hp, hnone]
  refine ⟨_, bind_of_ok hset _, ?_, ?_⟩
  · simp only [hp]
    exact hs.kept.setCurrent hp rfl rfl rfl fun id hid => History.resume_save_of_ne hid
  · simp only [InPhase, hp]
    refine ⟨_, rfl, ⟨context, rfl, History.resume_save_self⟩, hi.2.imp_right fun hne hid => hne ?_⟩
    rw [hp, Option.map_some, ← hid]

/-- The body of a handler finds the current process with its context. -/
lemma handle_sound (hs : s.Sound) {i : Interrupt} (hi : s.phase = .handling i) (env : Env A F)
    (hfault : i = .pageFault →
      s.scheduler.current.all (fun p => !(env.fault p).terminates) = true) :
    ∃ s', s.handle env i = .ok s' ∧ s'.Sound := by
  have hphase := hs.inPhase
  rw [InPhase, hi] at hphase
  obtain ⟨p, hp, hpark, hidle⟩ := hphase
  obtain ⟨c, hc, hres⟩ := hpark
  -- A handler that gives the process up leaves no current process behind.
  have hgone : ∀ {c' : Scheduler A F} {h' : History}, c'.current = none → Kept c' h' →
      (System.mk c' .scheduling s.hand s.resumed h').Sound := by
    intro c' h' hnone hkept
    exact ⟨hkept, fun q hq => by rw [hnone] at hq; cases hq⟩
  cases i with
  | timer =>
    have hbody : body env s.scheduler .timer = .ok ({ s.scheduler with current := none }.addToQueue p) := by
      simp only [body, preemptCurrent, hp]
    exact ⟨_, bind_of_ok hbody _, hgone rfl (hs.kept.preempt hp ⟨c, hc, hres⟩)⟩
  | defer =>
    have hbody : body env s.scheduler .defer = .ok ({ s.scheduler with current := none }.addToQueue p) := by
      simp only [body, preemptCurrent, hp]
    exact ⟨_, bind_of_ok hbody _, hgone rfl (hs.kept.preempt hp ⟨c, hc, hres⟩)⟩
  | exit =>
    have hid := hidle.resolve_left (by decide)
    have hbody : body env s.scheduler .exit = .ok { s.scheduler with current := none } := by
      simp only [body, exitCurrent, hp, hc]
    refine ⟨_, bind_of_ok hbody _, hgone rfl ?_⟩
    simpa only [History.body, hp] using hs.kept.exit hp hid
  | translateAddr =>
    have hbody : body env s.scheduler .translateAddr = .ok { s.scheduler with
        current := some { p with
          context := some (c.withRax (translateAnswer env p.addressSpace c)) } } := by
      simp only [body, translateCurrent, hp, hc]
    refine ⟨_, bind_of_ok hbody _, ?_, ?_⟩
    · simp only [History.body, hp, hc]
      refine hs.kept.setCurrent hp rfl rfl rfl fun id hid => ?_
      simp only [History.resume, Function.update_of_ne hid]
    · intro q hq
      cases hq
      simp only [History.body, hp, hc]
      exact ⟨_, rfl, History.resume_answer hres _⟩
  | pageFault =>
    have hid := hidle.resolve_left (by decide)
    have hterm := hfault rfl
    rw [hp, Option.all_some] at hterm
    cases hd : env.fault p with
    | terminate context => simp [hd, FaultDecision.terminates] at hterm
    | resume space =>
      have hbody : body env s.scheduler .pageFault
          = .ok { s.scheduler with current := some { p with addressSpace := space } } := by
        simp only [body, faultCurrent, hp, hd]
      refine ⟨_, bind_of_ok hbody _, ?_, ?_⟩
      · simp only [History.body, hp, hd]
        exact hs.kept.setCurrent hp rfl rfl rfl fun _ _ => rfl
      · intro q hq
        cases hq
        simp only [History.body, hp, hd]
        exact ⟨c, hc, hres⟩
    | block addr moduleName sectionName =>
      obtain ⟨q, outputs, hq, -, -⟩ := hs.kept.answered
      have hbody : body env s.scheduler .pageFault = .ok { s.scheduler with
          current := none
          blocked := s.scheduler.blocked ++ [p]
          shellQueue := some { q with
            input := q.input.push (accessRequest p addr moduleName sectionName) } } := by
        simp only [body, faultCurrent, blockCurrent, hp, hd, hq]
      refine ⟨_, bind_of_ok hbody _, hgone rfl ?_⟩
      simp only [History.body, hp, hd]
      exact hs.kept.block hp ⟨c, hc, hres⟩ hid hq _

/-- `schedule_next` finds a message it can handle and a process with a context. -/
lemma schedule_sound (hs : s.Sound) (hphase : s.phase = .scheduling) (env : Env A F)
    (hload : s.scheduler.takeOutput.1.all (env.loads s.scheduler.processId) = true) :
    ∃ s', s.schedule env = .ok s' ∧ s'.Sound := by
  have hcur := hs.inPhase
  rw [InPhase, hphase] at hcur
  obtain ⟨c₁, hpoll, hk₁, hcur₁⟩ := hs.kept.poll env hload hcur
  obtain ⟨p, c₂, hsel, ⟨c, hc, hres⟩, hk₂⟩ := hk₁.select hcur₁
  have hnext : s.scheduler.scheduleNext env
      = .ok (c, { c₂ with current := some { p with context := none } }) := by
    rw [scheduleNext, bind_of_ok hpoll, bind_of_ok hsel]
    simp only [hc]
  refine ⟨_, bind_of_ok hnext _, ?_, ?_⟩
  · exact hk₂.setCurrent rfl rfl rfl rfl fun _ _ => rfl
  · exact ⟨_, c, rfl, rfl, rfl, hres⟩

/-- A message of the shell goes to the end of its ring. -/
lemma kept_push (hk : Kept s.scheduler s.history) {q : ShellQueue}
    (hq : s.scheduler.shellQueue = some q) {o : ShellOutput}
    (ho : answersNext s.scheduler q o = true) :
    Kept { s.scheduler with shellQueue := some { q with output := q.output.push o } } s.history := by
  obtain ⟨q', outputs, hq', hholds, -⟩ := hk.answered
  cases hq.symm.trans hq'
  rw [answersNext, hholds.contents_eq, Bool.and_eq_true, decide_eq_true_eq] at ho
  exact ⟨hk.census, hk.queued, hk.parked, hk.awake, ⟨_, _, rfl, hholds.push ho.1 o, ho.2⟩⟩

/-- A step of the shell changes nothing but the rings. -/
lemma shell_sound (hs : s.Sound) {q : ShellQueue} (hq : s.scheduler.shellQueue = some q)
    {shellStep : ShellStep} (horder : s.inOrder q shellStep = true) : (s.shell q shellStep).Sound := by
  have hphase := hs.inPhase
  cases shellStep with
  | take =>
    cases hh : s.hand with
    | some request => simpa only [shell, hh] using hs
    | none =>
      obtain ⟨q', outputs, hq', hholds, hans⟩ := hs.kept.answered
      cases hq.symm.trans hq'
      simp only [shell, hh]
      exact ⟨⟨hs.kept.census, hs.kept.queued, hs.kept.parked, hs.kept.awake,
        ⟨_, outputs, rfl, hholds, hans⟩⟩, hphase⟩
  | answer =>
    cases hh : s.hand with
    | none => simpa only [shell, hh] using hs
    | some request =>
      rw [inOrder, hh, Option.all_some] at horder
      simp only [shell, hh]
      exact ⟨kept_push hs.kept hq horder, hphase⟩
  | send output => exact ⟨kept_push hs.kept hq horder, hphase⟩

/-- **No step panics, and every step keeps the invariant**. -/
theorem step_sound (s : System A F) (e : Event A F) (hs : s.Sound) (he : s.Obeys e) :
    ∃ s', s.step e = .ok s' ∧ s'.Sound := by
  have hstep := s.steps e
  generalize s.step e = x at hstep ⊢
  cases hstep with
  | idle => exact ⟨s, rfl, hs⟩
  | interrupt context fxsaveArea hi => exact interrupt_sound hs hi context fxsaveArea
  | handle env hphase => exact handle_sound hs hphase env fun hi => he (by rw [hphase, hi])
  | schedule env hphase => exact schedule_sound hs hphase env (he hphase)
  | shell shellStep hphase hq =>
    have horder := he hphase
    rw [hq, Option.all_some] at horder
    exact ⟨_, rfl, shell_sound hs hq horder⟩

/-- The system the scheduler starts with. -/
lemma initial_sound (shellSpace idleSpace : A) (shellContext idleContext : ExecutionContext)
    (shellName idleName : List UInt8) (fxsaveArea : F) :
    (initial shellSpace idleSpace shellContext idleContext shellName idleName fxsaveArea).Sound where
  kept := by
    refine ⟨⟨?_, fun id => ?_, ?_, ?_, ?_, ?_⟩, ?_, ?_, ?_, ⟨.new, [], rfl, ?_, rfl⟩⟩
    · simp [initial, processes, waiting, Process.key, idleProcessId]
    · simp [initial, processes, waiting, Process.key]
    · simp [initial, idleProcessId]
    · simp [initial]
    · simp [initial, processes, waiting, Process.key, idleProcessId]
    · simp [initial, processes, waiting, Process.key]
    · intro priority p hp
      cases priority <;> simp_all [initial]
    · intro p hp
      simp only [initial, waiting, List.nil_append, List.append_nil, List.cons_append,
        List.mem_cons, List.not_mem_nil, or_false] at hp
      rcases hp with rfl | rfl
      · exact ⟨_, rfl, rfl⟩
      · exact ⟨_, rfl, rfl⟩
    · simp [initial]
    · exact SizedQueue.holds_new (by decide)
  inPhase p hp := by cases hp

/-- **The scheduler never loses, duplicates or mixes up a process**: in every run in which the
shell answers in order, no expect or assertion fails, and at its end the processes are in their
places, and the one that executes was resumed with the context it was interrupted in. -/
theorem scheduler_run {shellSpace idleSpace : A} {shellContext idleContext : ExecutionContext}
    {shellName idleName : List UInt8} {fxsaveArea : F} {events : List (Event A F)}
    (hobeys : Meets step Obeys (initial shellSpace idleSpace shellContext idleContext shellName
      idleName fxsaveArea) events) :
    ∃ s, run step (initial shellSpace idleSpace shellContext idleContext shellName idleName
      fxsaveArea) events = .ok s ∧ s.Sound :=
  run_total_of_meets step_sound (initial_sound _ _ _ _ _ _ _) hobeys

/-- A process that waits for the shell and is answered. -/
theorem scheduler_run_oneRequest : ∃ s, run step smallSystem oneRequest = .ok s ∧ s.Sound :=
  scheduler_run (by decide +kernel)

/-- The shell starts nine processes; all of them have touched a module before the shell gets to
the requests, of which the ring keeps eight.  Then the shell answers the first it finds. -/
def nineRequests : List (Event Unit Unit) :=
  [.schedule (smallEnv (.resume ()))] ++ List.replicate 8 startMessage
    ++ (List.replicate 15 tick).flatten ++ [startMessage] ++ tick
    ++ (List.replicate 8 request).flatten ++ tick ++ request
    ++ [.shell .take, .shell .answer] ++ tick

/-- **The ninth request replaces the first**: the shell answers the process that was blocked
last, and `assert_eq!(process_id, process.id)` fails. -/
theorem ninth_request_panics : run step smallSystem nineRequests = .error .processIdMismatch := by
  decide +kernel

/-! ### Ending a process from the page-fault handler -/

/-- In the body of a handler the interrupted process is the current one, with its context. -/
def ContextSaved (s : System A F) : Prop :=
  ∀ i, s.phase = .handling i →
    ∃ process context, s.scheduler.current = some process ∧ process.context = some context

lemma step_contextSaved (s : System A F) (ev : Event A F) (s' : System A F)
    (hs : s.ContextSaved) (h : s.step ev = .ok s') : s'.ContextSaved := by
  have hstep := s.steps ev
  generalize s.step ev = x at hstep h
  cases hstep with
  | idle =>
    cases h
    exact hs
  | interrupt context fxsaveArea hi =>
    obtain ⟨c, hc, hrest⟩ := ok_of_bind h
    cases hrest
    obtain ⟨p, -, -, rfl⟩ := (setCurrentContext_ends _ _ _).result hc
    exact fun _ _ => ⟨_, context, rfl, rfl⟩
  | handle env hphase =>
    obtain ⟨c, -, hrest⟩ := ok_of_bind h
    cases hrest
    exact nofun
  | schedule env hphase =>
    obtain ⟨c, -, hrest⟩ := ok_of_bind h
    cases hrest
    exact nofun
  | @shell q shellStep hphase hq =>
    obtain ⟨hand, queue, heq⟩ := s.shell_eq q shellStep
    rw [heq] at h
    cases h
    exact fun i hi => by simp_all

/-- The exit of the faulting process completes: its context is saved once more, the process is
removed, and another one goes on. -/
def ExitCompletes (s : System A F) (env env' : Env A F) : Prop :=
  ∃ s₁ s₂, s.step (.handle env) = .ok s₁ ∧ s₁.scheduler.current = none
    ∧ s₁.step (.schedule env') = .ok s₂ ∧ s₂.phase = .executing

/-- **A fault cannot end its process**: whenever the page-fault handler decides to end the
process, the prologue of the exit interrupt finds the context that its own prologue has saved,
and the assertion of `set_current_context` fails. -/
theorem fault_exit_stops {shellSpace idleSpace : A} {shellContext idleContext : ExecutionContext}
    {shellName idleName : List UInt8} {fxsaveArea : F} {events : List (Event A F)}
    {s : System A F} {process : Process A F} {env : Env A F}
    (hrun : run step (initial shellSpace idleSpace shellContext idleContext shellName idleName
      fxsaveArea) events = .ok s)
    (hphase : s.phase = .handling .pageFault) (hcurrent : s.scheduler.current = some process)
    (hfault : (env.fault process).terminates = true) :
    s.step (.handle env) = .error .contextNotTaken ∧ ∀ env', ¬s.ExitCompletes env env' := by
  have hs : s.ContextSaved :=
    run_invariant step_contextSaved (fun _ hc => by cases hc) hrun
  obtain ⟨process', context, hcurrent', hcontext⟩ := hs _ hphase
  obtain rfl : process' = process := Option.some.inj (hcurrent'.symm.trans hcurrent)
  have hstep : s.step (.handle env) = .error .contextNotTaken := by
    cases hdecision : env.fault process' with
    | resume addressSpace =>
      rw [hdecision] at hfault
      cases hfault
    | block addr moduleName sectionName =>
      rw [hdecision] at hfault
      cases hfault
    | terminate exitContext =>
      simp only [step, hphase, handle, body, faultCurrent, hcurrent, hdecision,
        setCurrentContext, hcontext]
      rfl
  refine ⟨hstep, ?_⟩
  rintro env' ⟨s₁, s₂, h₁, -⟩
  rw [hstep] at h₁
  cases h₁

/-- The shell runs, and touches an address of no domain. -/
def invalidAccess : List (Event Unit Unit) :=
  [.schedule (smallEnv (.resume ())), .interrupt .pageFault emptyContext ()]

/-- **The first fault that ends a process stops the kernel**. -/
theorem invalid_access_stops :
    run step smallSystem (invalidAccess ++ [.handle (smallEnv (.terminate emptyContext))])
      = .error .contextNotTaken := by
  decide +kernel

theorem fault_exit_stops_invalidAccess :
    ∃ s, run step smallSystem invalidAccess = .ok s
      ∧ s.step (.handle (smallEnv (.terminate emptyContext))) = .error .contextNotTaken := by
  obtain ⟨s, hs, hphase, process, hcurrent, -⟩ : ∃ s, run step smallSystem invalidAccess = .ok s
      ∧ s.phase = .handling .pageFault ∧ ∃ process, s.scheduler.current = some process ∧ True := by
    decide +kernel
  exact ⟨s, hs, (fault_exit_stops hs hphase hcurrent rfl).1⟩

end System

end Rhubarb
