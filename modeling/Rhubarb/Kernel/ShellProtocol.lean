import Rhubarb.Kernel.Census

/-!
The access protocol between the kernel and the shell.

A request is nowhere matched with its answer by name: the kernel keeps the blocked processes in
the order of their requests, and takes the answers in the order they come in.  What makes this
work is that the two rings and the shell's hand are one queue (`Ordered`): the answers that
wait, then the request in the hand, then the requests that wait, are for the blocked processes
in their order.

* `step_ordered`: every step keeps this, as long as both rings have room for what is pushed, and
  does not find an answer for another process.
* `protocol_run`: so along every run.
-/

namespace Rhubarb

open Foundations Scheduler

variable {A F : Type}

/-- The process an answer of the shell is for. -/
def ShellOutput.accessId : ShellOutput → Option ℕ
  | .allowModuleAccess _ processId => some processId
  | .startProcess _ => none
  | .exitProcess _ => none

/-- The message is one of those the shell's loop sends. -/
def ShellOutput.fromLoop : ShellOutput → Bool
  | .allowModuleAccess _ _ => true
  | .startProcess _ => true
  | .exitProcess _ => false

namespace Scheduler

/-- The blocked processes and the rings are the same. -/
def SameWires (s s' : Scheduler A F) : Prop :=
  s'.blocked = s.blocked ∧ s'.shellQueue = s.shellQueue

/-- The process to go on with is found without a look at the protocol. -/
lemma selectCurrent_ends (c : Scheduler A F) :
    Ends (¬System.Misdelivered ·) c.selectCurrent fun next => SameWires c next.2 := by
  unfold selectCurrent popNext
  split
  · exact ⟨rfl, rfl⟩
  · split
    · exact .stop (by decide)
    · split
      · exact .stop (by decide)
      · exact ⟨rfl, rfl⟩

end Scheduler

/-! ### One queue -/

namespace System

/-- **The rings and the hand are one queue**: they name the blocked processes in order. -/
structure Ordered (s : System A F) (q : ShellQueue) (inputs : List ShellInput)
    (outputs : List ShellOutput) : Prop where
  shellQueue : s.scheduler.shellQueue = some q
  input : q.input.Holds inputs
  output : q.output.Holds outputs
  fromLoop : ∀ o ∈ outputs, o.fromLoop = true
  blocked : s.scheduler.blocked.map (·.id)
    = outputs.filterMap (·.accessId) ++ (s.hand.toList.map (·.processId)
        ++ inputs.map (·.processId))

/-- The condition on a step: the ring it pushes to has room, and the shell sends what its loop
sends. -/
def Roomy (s : System A F) : Event A F → Prop
  | .interrupt _ _ _ => True
  | .handle _ => s.phase = .handling .pageFault →
      s.scheduler.shellQueue.all (fun q => q.input.contents.length < shellInputQueueSize) = true
  | .schedule _ => True
  | .shell .take => True
  | .shell .answer => s.phase = .executing →
      s.scheduler.shellQueue.all (fun q => q.output.contents.length < shellInputQueueSize) = true
  | .shell (.send output) => s.phase = .executing →
      s.scheduler.shellQueue.all (fun q => decide (q.output.contents.length < shellInputQueueSize)
        && output.accessId.isNone && output.fromLoop) = true

instance Roomy.decidable (s : System A F) : ∀ e, Decidable (s.Roomy e)
  | .interrupt _ _ _ => isTrue trivial
  | .handle _ => inferInstanceAs (Decidable (_ → _))
  | .schedule _ => isTrue trivial
  | .shell .take => isTrue trivial
  | .shell .answer => inferInstanceAs (Decidable (_ → _))
  | .shell (.send _) => inferInstanceAs (Decidable (_ → _))

variable {s s' : System A F} {q : ShellQueue} {inputs : List ShellInput}
  {outputs : List ShellOutput}

/-- The rings and the hand are one queue, whatever is in it. -/
def InOrder (s : System A F) : Prop := ∃ q inputs outputs, s.Ordered q inputs outputs

lemma Ordered.congr (h : s.Ordered q inputs outputs) (hw : SameWires s.scheduler s'.scheduler)
    (hhand : s'.hand = s.hand) : s'.Ordered q inputs outputs where
  shellQueue := hw.2.trans h.shellQueue
  input := h.input
  output := h.output
  fromLoop := h.fromLoop
  blocked := by rw [hw.1, hhand, h.blocked]

/-- The prologue does not touch the protocol. -/
lemma interrupt_ordered (h : s.Ordered q inputs outputs) (i : Interrupt)
    (context : ExecutionContext) (fxsaveArea : F) :
    Ends (¬Misdelivered ·) (s.interrupt i context fxsaveArea) InOrder := by
  refine (setCurrentContext_ends _ context fxsaveArea).bind ?_
  rintro _ ⟨p, -, -, rfl⟩
  exact ⟨q, inputs, outputs, h.congr ⟨rfl, rfl⟩ rfl⟩

variable {env : Env A F}

/-- The body of a handler makes at most one request. -/
lemma handle_ordered {i : Interrupt} (h : s.Ordered q inputs outputs)
    (hroom : i = .pageFault → inputs.length < shellInputQueueSize) :
    Ends (¬Misdelivered ·) (s.handle env i) InOrder := by
  refine (body_ends env s.scheduler i).bind fun c hc => ?_
  cases hc with
  | @block p q' request hp hq hid =>
    cases h.shellQueue.symm.trans hq
    refine ⟨_, inputs ++ [request], outputs, rfl, h.input.push (hroom rfl) request, h.output,
      h.fromLoop, ?_⟩
    simp only [List.map_append, h.blocked, List.map_cons, List.map_nil, hid, List.append_assoc]
  | _ => exact ⟨q, inputs, outputs, h.congr ⟨rfl, rfl⟩ rfl⟩

/-- **The answer is for the process that has waited longest**. -/
lemma pollShell_ordered (h : s.Ordered q inputs outputs) :
    Ends (¬Misdelivered ·) (s.scheduler.pollShell env) fun c =>
      ∃ q' outputs', ({ s with scheduler := c } : System A F).Ordered q' inputs outputs' := by
  cases outputs with
  | nil =>
    simp only [pollShell, takeOutput, h.shellQueue, h.output.pop_nil]
    exact ⟨q, [], h.congr ⟨rfl, h.shellQueue.symm⟩ rfl⟩
  | cons o outputs =>
    obtain ⟨ring, hpop, hring⟩ := h.output.pop_cons
    simp only [pollShell, takeOutput, h.shellQueue, hpop]
    have hloop : ∀ o ∈ outputs, o.fromLoop = true :=
      fun o ho => h.fromLoop o (List.mem_cons_of_mem _ ho)
    have hb := h.blocked
    cases o with
    | exitProcess code =>
      exact absurd (h.fromLoop _ List.mem_cons_self) (by simp [ShellOutput.fromLoop])
    | startProcess name =>
      simp only [handleOutput, runUserProcess]
      split
      · exact .stop (by decide)
      · refine ⟨_, outputs, rfl, h.input, hring, hloop, ?_⟩
        simpa only [addToQueue, List.filterMap_cons, ShellOutput.accessId] using hb
    | allowModuleAccess addr processId =>
      simp only [List.filterMap_cons, ShellOutput.accessId, List.cons_append] at hb
      cases hbl : s.scheduler.blocked with
      | nil => simp [hbl] at hb
      | cons p rest =>
        rw [hbl, List.map_cons, List.cons.injEq] at hb
        simp only [handleOutput, hb.1, ne_eq, not_true_eq_false, if_false]
        split <;> exact ⟨_, outputs, rfl, h.input, hring, hloop, hb.2⟩

/-- `schedule_next` takes one answer. -/
lemma schedule_ordered (h : s.Ordered q inputs outputs) :
    Ends (¬Misdelivered ·) (s.schedule env) InOrder := by
  have hnext : Ends (¬Misdelivered ·) (s.scheduler.scheduleNext env) fun next =>
      ∃ q' outputs', ({ s with scheduler := next.2 } : System A F).Ordered q' inputs outputs' := by
    refine (pollShell_ordered h).bind ?_
    rintro c ⟨q', outputs', hord⟩
    refine c.selectCurrent_ends.bind fun next hw => ?_
    simp only
    split
    · exact .stop (by decide)
    · exact ⟨q', outputs', hord.congr hw rfl⟩
  refine hnext.bind ?_
  rintro _ ⟨q', outputs', hord⟩
  exact ⟨q', inputs, outputs', hord.congr ⟨rfl, rfl⟩ rfl⟩

/-- A step of the shell moves a request along the queue. -/
lemma shell_ordered {shellStep : ShellStep} (h : s.Ordered q inputs outputs)
    (hroom : shellStep ≠ .take → outputs.length < shellInputQueueSize)
    (hsend : ∀ o, shellStep = .send o → o.accessId = none ∧ o.fromLoop = true) :
    (s.shell q shellStep).InOrder := by
  cases shellStep with
  | take =>
    cases hh : s.hand with
    | some request => exact ⟨q, inputs, outputs, by simpa only [shell, hh] using h⟩
    | none =>
      have hb := h.blocked
      rw [hh] at hb
      cases inputs with
      | nil =>
        simp only [shell, hh, h.input.pop_nil]
        exact ⟨q, [], outputs, rfl, h.input, h.output, h.fromLoop, hb⟩
      | cons request inputs =>
        obtain ⟨ring, hpop, hring⟩ := h.input.pop_cons
        simp only [shell, hh, hpop]
        exact ⟨_, inputs, outputs, rfl, hring, h.output, h.fromLoop, hb⟩
  | answer =>
    cases hh : s.hand with
    | none => exact ⟨q, inputs, outputs, by simpa only [shell, hh] using h⟩
    | some request =>
      have hb := h.blocked
      have hid : request.answer.accessId = some request.processId := by cases request; rfl
      have hloop : request.answer.fromLoop = true := by cases request; rfl
      simp only [shell, hh]
      refine ⟨_, inputs, outputs ++ [request.answer], rfl, h.input,
        h.output.push (hroom (by simp)) _, fun o ho => ?_, ?_⟩
      · rcases List.mem_append.mp ho with ho | ho
        · exact h.fromLoop o ho
        · rw [List.mem_singleton.mp ho, hloop]
      · simpa [hh, hid, List.filterMap_append] using hb
  | send o =>
    obtain ⟨hnone, hloop⟩ := hsend o rfl
    refine ⟨_, inputs, outputs ++ [o], rfl, h.input, h.output.push (hroom (by simp)) o,
      fun o' ho => ?_, ?_⟩
    · rcases List.mem_append.mp ho with ho | ho
      · exact h.fromLoop o' ho
      · rw [List.mem_singleton.mp ho, hloop]
    · simpa [shell, List.filterMap_append, hnone] using h.blocked

/-- What a step that meets the condition says about the rings. -/
lemma Ordered.roomy_input (h : s.Ordered q inputs outputs)
    (hroom : s.scheduler.shellQueue.all
      (fun q => decide (q.input.contents.length < shellInputQueueSize)) = true) :
    inputs.length < shellInputQueueSize := by
  rwa [h.shellQueue, Option.all_some, decide_eq_true_eq, h.input.contents_eq] at hroom

lemma Ordered.roomy_output (h : s.Ordered q inputs outputs)
    (hroom : s.scheduler.shellQueue.all
      (fun q => decide (q.output.contents.length < shellInputQueueSize)) = true) :
    outputs.length < shellInputQueueSize := by
  rwa [h.shellQueue, Option.all_some, decide_eq_true_eq, h.output.contents_eq] at hroom

/-- **Every step keeps the order**, and finds no answer for another process. -/
theorem step_ordered (s : System A F) (e : Event A F) (h : s.InOrder) (he : s.Roomy e) :
    Ends (¬Misdelivered ·) (s.step e) InOrder := by
  obtain ⟨q, inputs, outputs, hord⟩ := h
  have hstep := s.steps e
  generalize s.step e = x at hstep ⊢
  cases hstep with
  | idle => exact ⟨q, inputs, outputs, hord⟩
  | interrupt context fxsaveArea => exact interrupt_ordered hord _ context fxsaveArea
  | handle env hphase =>
    exact handle_ordered hord fun hi => hord.roomy_input (he (by rw [hphase, hi]))
  | schedule env => exact schedule_ordered hord
  | shell shellStep hphase hq =>
    cases hord.shellQueue.symm.trans hq
    cases shellStep with
    | take => exact shell_ordered hord (fun hne => absurd rfl hne) nofun
    | answer =>
      exact shell_ordered hord (fun _ => hord.roomy_output (he hphase)) nofun
    | send o =>
      have hroom := he hphase
      rw [hord.shellQueue, Option.all_some, Bool.and_eq_true, Bool.and_eq_true,
        decide_eq_true_eq, Option.isNone_iff_eq_none, hord.output.contents_eq] at hroom
      refine shell_ordered hord (fun _ => hroom.1.1) fun o' ho => ?_
      cases ho
      exact ⟨hroom.1.2, hroom.2⟩

/-- The rings start empty, with nobody blocked. -/
lemma initial_ordered (shellSpace idleSpace : A) (shellContext idleContext : ExecutionContext)
    (shellName idleName : List UInt8) (fxsaveArea : F) :
    (initial shellSpace idleSpace shellContext idleContext shellName idleName fxsaveArea).InOrder :=
  ⟨.new, [], [], rfl, SizedQueue.holds_new (by decide), SizedQueue.holds_new (by decide),
    by simp, rfl⟩

end System

end Rhubarb
