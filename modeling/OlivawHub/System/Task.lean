import OlivawHub.Pipeline.Run

/-!
# The pipeline task, one action at a time

`pipeline` takes a whole pass in one step; here other tasks may look at the hub between any
two actions. `task` begins a pass by setting up its program and then performs the program's
operations one by one. `log` is a history variable: the actions performed so far, which no
step reads.

A run of `task` is a run of `pipeline` cut into pieces. `Task.completed` finishes the pass in
progress; it moves only when a pass begins, and then as `pipeline` does
(`Task.Invariant.run`). The hub of a state is the replay of its log, and log and pending
actions together are those of the passes begun so far (`Task.Invariant.trace`), so what is
shown of the actions of complete passes holds, cut at any point, of what other tasks see.
-/

namespace OlivawHub

open Foundations

/-- The pipeline task and the hub it writes. -/
structure Task (T F : Type) where
  hub : Hub T F
  /-- What is left of the pass; between two passes, the local tables. -/
  prog : HubProg T F (Locals F)
  log : List (HubOp T F)

/-- The task when `run` starts. -/
def Task.new {T F : Type} : Task T F := ⟨Hub.new, .ret Locals.new, []⟩

/-- Begin a pass, or perform the next action of the one in progress. -/
inductive TaskStep (T F : Type) where
  | begin (i : Input T F)
  | act

/-- The pass a step begins. -/
def TaskStep.input? {T F : Type} : TaskStep T F → Option (Input T F)
  | .begin i => some i
  | .act => none

variable {T F : Type}

/-- The passes begun in a run. -/
def inputsOf (steps : List (TaskStep T F)) : List (Input T F) := steps.filterMap TaskStep.input?

/-- Between two passes. -/
def Task.Idle (s : Task T F) : Prop := ∃ l, s.prog = .ret l

variable [HubFloat F]

/-- `run`, one action at a time. -/
def task (T F : Type) [HubFloat F] (trajectoryLen : Nat) : Machine (Task T F) (TaskStep T F) where
  step
    | s, .begin i =>
        match s.prog with
        | .ret l => if i.Enabled l then some { s with prog := body trajectoryLen l i } else none
        | .op _ _ => none
    | s, .act =>
        (s.prog.next (hubHandler T F) s.hub).map fun (o, prog, hub) => ⟨hub, prog, s.log ++ [o]⟩

theorem task_begin {n : Nat} {s s' : Task T F} {i : Input T F} :
    (task T F n).step s (.begin i) = some s' ↔
      ∃ l, s.prog = .ret l ∧ i.Enabled l ∧ s' = { s with prog := body n l i } := by
  obtain ⟨hub, prog, log⟩ := s
  cases prog with
  | ret l => simp [task, eq_comm]
  | op o k => simp [task]

theorem task_act {n : Nat} {s s' : Task T F} :
    (task T F n).step s .act = some s' ↔ ∃ o prog hub,
      s.prog.next (hubHandler T F) s.hub = some (o, prog, hub) ∧
        s' = ⟨hub, prog, s.log ++ [o]⟩ := by
  simp [task, eq_comm]

namespace Task

/-- The actions left of the pass in progress. -/
def pending (s : Task T F) : List (HubOp T F) := s.prog.ops (hubHandler T F) s.hub

/-- The pipeline after the pass in progress. -/
def completed (s : Task T F) : Pipeline T F :=
  let (l, hub) := s.prog.run (hubHandler T F) s.hub
  ⟨hub, l⟩

theorem pending_of_idle {s : Task T F} (h : s.Idle) : s.pending = [] := by
  obtain ⟨l, hl⟩ := h
  rw [pending, hl]
  rfl

theorem completed_of_ret {s : Task T F} {l : Locals F} (h : s.prog = .ret l) :
    s.completed = ⟨s.hub, l⟩ := by
  rw [completed, h]
  rfl

end Task

/-- What every run of the task keeps. -/
structure Task.Invariant (n : Nat) (steps : List (TaskStep T F)) (s : Task T F) : Prop where
  hub : s.hub = Hub.new.after s.log
  run : (pipeline T F n).exec Pipeline.new (inputsOf steps) = some s.completed
  trace : s.log ++ s.pending = actionsOf n (inputsOf steps)

namespace Task.Invariant

variable {n : Nat} {steps : List (TaskStep T F)} {s s' : Task T F}

theorem new (n : Nat) : Invariant n [] (Task.new : Task T F) := ⟨rfl, rfl, rfl⟩

theorem begin {i : Input T F} (h : Invariant n steps s)
    (hStep : (task T F n).step s (.begin i) = some s') :
    Invariant n (steps ++ [.begin i]) s' := by
  obtain ⟨l, hl, hEnabled, rfl⟩ := task_begin.mp hStep
  have hInputs : inputsOf (steps ++ [.begin i]) = inputsOf steps ++ [i] := by
    simp [inputsOf, TaskStep.input?]
  have hRun := h.run
  rw [completed_of_ret hl] at hRun
  have hPending := pending_of_idle ⟨l, hl⟩
  obtain ⟨hOps, -⟩ := body_spec n hEnabled s.hub
  refine ⟨h.hub, ?_, ?_⟩
  · rw [hInputs, Machine.exec_snoc, hRun, Option.bind_some, pipeline]
    exact if_pos hEnabled
  · rw [hInputs, actionsOf_concat hRun, ← h.trace, hPending, List.append_nil]
    exact congrArg (s.log ++ ·) hOps

theorem act (h : Invariant n steps s) (hStep : (task T F n).step s .act = some s') :
    Invariant n (steps ++ [.act]) s' := by
  obtain ⟨o, prog, hub, hNext, rfl⟩ := task_act.mp hStep
  obtain ⟨hOps, hRun, hHub⟩ := Prog.ops_next hNext
  have hInputs : inputsOf (steps ++ [.act]) = inputsOf steps := by
    simp [inputsOf, TaskStep.input?]
  refine ⟨?_, ?_, ?_⟩
  · rw [Hub.after_append, ← h.hub]
    exact hHub
  · rw [hInputs, h.run]
    simp only [completed, hRun]
  · rw [hInputs, ← h.trace, List.append_assoc]
    exact congrArg (s.log ++ ·) hOps.symm

theorem step {t : TaskStep T F} (h : Invariant n steps s)
    (hStep : (task T F n).step s t = some s') : Invariant n (steps ++ [t]) s' := by
  cases t with
  | begin i => exact h.begin hStep
  | act => exact h.act hStep

theorem of_run (hRun : (task T F n).exec Task.new steps = some s) : Invariant n steps s :=
  Machine.exec_history (new n) (fun _ _ _ _ _ h hStep => h.step hStep) hRun

theorem events (h : Invariant n steps s) : s.hub.events = emitted s.log := by
  rw [h.hub, Hub.new_after_events]

/-- Between two passes the log is that of the passes begun. -/
theorem log_of_idle (h : Invariant n steps s) (hIdle : s.Idle) :
    s.log = actionsOf n (inputsOf steps) := by
  rw [← h.trace, pending_of_idle hIdle, List.append_nil]

end Task.Invariant

end OlivawHub
