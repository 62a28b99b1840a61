import OlivawHub.System.Task
import OlivawHub.Pipeline.Handles
import OlivawHub.Slam.Thread

/-!
# The pipeline, its workers and the output channel

The whole concurrent core of the hub: the pipeline task, one thread for each worker it started,
and the unbounded channel that carries the outputs of all workers to the task. The scheduler
picks any party at any moment. The events, the clock readings, the outcome of `spawn` and the
results of the SLAM library are the environment's.

`System.Invariant` relates every state to the passes begun so far: each thread is explained by
the frames submitted to it and the outputs it sent (`Worker.Explains`), the outputs of a car
being those the pipeline has received followed by those in the channel.
-/

namespace OlivawHub

open Foundations

/-- The hub's concurrent core. -/
structure System (S T F : Type) where
  task : Task T F
  workers : List (Worker S F)
  /-- The channel to `slam_rx`. -/
  queue : List (String × SlamOutput F)
  /-- The loop in `run` goes on. -/
  isOpen : Bool

/-- The system when `run` starts. -/
def System.new {S T F : Type} : System S T F := ⟨Task.new, [], [], true⟩

/-- The steps of the system. -/
inductive SystemStep (S T F : Type) where
  /-- The pipeline receives an event; `spawned` is the outcome of a `spawn` it may need. -/
  | event (e : CarEvent T) (now : F) (spawned : Bool)
  /-- The pipeline receives the next SLAM output. -/
  | slam
  | tick (visits : List (Visit F))
  /-- The next action of the pass in progress. -/
  | act
  | worker (i : Nat) (k : WorkerStep S F)
  /-- All sources are gone, and the pipeline drops its receiver. -/
  | stop

/-- What an action does to the threads. -/
def spawnOrSubmit {S T F : Type} (workers : List (Worker S F)) : HubOp T F → List (Worker S F)
  | .spawn car _ => workers ++ [Worker.new car]
  | .submit w frame => workers.modify w fun worker => worker.submit frame
  | .updateCar _ _ => workers
  | .insertMap _ _ => workers
  | .emit _ => workers

theorem map_car_spawnOrSubmit {S T F : Type} (workers : List (Worker S F)) (o : HubOp T F) :
    (spawnOrSubmit workers o).map Worker.car = workers.map Worker.car ++ spawnedCars [o] := by
  cases o with
  | spawn car w => simp [spawnOrSubmit, Worker.new]
  | submit w frame =>
      refine List.ext_getElem? fun j => ?_
      simp only [spawnOrSubmit, spawnedCars_cons, HubOp.spawned?, Option.toList_none,
        spawnedCars_nil, List.append_nil, List.getElem?_map, List.getElem?_modify]
      cases workers[j]? with
      | none => rfl
      | some v => by_cases hj : w = j <;> simp [hj, Worker.submit]
  | updateCar id f => simp [spawnOrSubmit]
  | insertMap id m => simp [spawnOrSubmit]
  | emit e => simp [spawnOrSubmit]

variable {S T F : Type} [HubFloat F]

/-- One step of the system. -/
def system (lib : SlamLib S F) (tuning : WorkerTuning) (trajectoryLen : Nat) :
    Machine (System S T F) (SystemStep S T F) where
  step s
    | .event e now spawned =>
        if s.isOpen then
          let handle := if spawned then some s.workers.length else none
          ((task T F trajectoryLen).step s.task (.begin (.event e now handle))).map
            fun task => { s with task }
        else none
    | .slam =>
        match s.isOpen, s.queue with
        | true, (car, output) :: queue =>
            ((task T F trajectoryLen).step s.task (.begin (.slam car output))).map
              fun task => { s with task, queue }
        | _, _ => none
    | .tick visits =>
        if s.isOpen then
          ((task T F trajectoryLen).step s.task (.begin (.tick visits))).map
            fun task => { s with task }
        else none
    | .act =>
        (s.task.prog.next (hubHandler T F) s.task.hub).map fun (o, prog, hub) =>
          { s with task := ⟨hub, prog, s.task.log ++ [o]⟩, workers := spawnOrSubmit s.workers o }
    | .worker i k =>
        match s.workers[i]? with
        | some w =>
            (w.step lib tuning s.isOpen k).map fun (w', output) =>
              { s with
                workers := s.workers.set i w'
                queue := s.queue ++ output.toList.map fun output => (w.car, output) }
        | none => none
    | .stop =>
        match s.task.prog with
        | .ret _ => some { s with isOpen := false }
        | .op _ _ => none

omit [HubFloat F] in
/-- The steps of the pipeline task in a step of the system. -/
def System.taskSteps (s : System S T F) : SystemStep S T F → List (TaskStep T F)
  | .event e now spawned =>
      [.begin (.event e now (if spawned then some s.workers.length else none))]
  | .slam =>
      match s.queue with
      | (car, output) :: _ => [.begin (.slam car output)]
      | [] => []
  | .tick visits => [.begin (.tick visits)]
  | .act => [.act]
  | .worker _ _ => []
  | .stop => []

omit [HubFloat F] in
/-- The outputs for `c` in the channel. -/
def queued (c : String) (queue : List (String × SlamOutput F)) : List (SlamOutput F) :=
  queue.filterMap fun entry => if entry.1 = c then some entry.2 else none

omit [HubFloat F] in
/-- All outputs the worker of `c` sent: those received by the pipeline, then those in the
channel. -/
def sentFor (c : String) (inputs : List (Input T F)) (queue : List (String × SlamOutput F)) :
    List (SlamOutput F) :=
  (carLog c inputs).outputs ++ queued c queue

variable {lib : SlamLib S F} {tuning : WorkerTuning} {n : Nat} {s s' : System S T F}
  {l : SystemStep S T F}

theorem system_cases (h : (system lib tuning n).step s l = some s') :
    (∃ i task, s.taskSteps l = [.begin i] ∧ s'.isOpen = s.isOpen ∧
      (OlivawHub.task T F n).step s.task (.begin i) = some task ∧
      s'.task = task ∧ s'.workers = s.workers ∧ i.Fresh s.workers.length ∧
      ∀ c, (i.outputOf? c).toList ++ queued c s'.queue = queued c s.queue) ∨
    (∃ o prog hub, l = .act ∧ s'.isOpen = s.isOpen ∧
      s.task.prog.next (hubHandler T F) s.task.hub = some (o, prog, hub) ∧
      s'.task = ⟨hub, prog, s.task.log ++ [o]⟩ ∧ s'.workers = spawnOrSubmit s.workers o ∧
      s'.queue = s.queue) ∨
    (∃ i k w w' output, l = .worker i k ∧ s'.isOpen = s.isOpen ∧ s.workers[i]? = some w ∧
      w.step lib tuning s.isOpen k = some (w', output) ∧ s'.task = s.task ∧
      s'.workers = s.workers.set i w' ∧
      s'.queue = s.queue ++ output.toList.map fun output => (w.car, output)) ∨
    (l = .stop ∧ s'.isOpen = false ∧ s'.task = s.task ∧ s'.workers = s.workers ∧
      s'.queue = s.queue) := by
  cases l with
  | event e now spawned =>
      simp only [system] at h
      split at h
      · obtain ⟨task, hTask, rfl⟩ := Option.map_eq_some_iff.mp h
        refine Or.inl ⟨_, task, rfl, rfl, hTask, rfl, rfl, ?_, fun c => rfl⟩
        cases spawned
        · trivial
        · rfl
      · cases h
  | slam =>
      simp only [system] at h
      split at h
      · rename_i car output queue _ hQueue
        obtain ⟨task, hTask, rfl⟩ := Option.map_eq_some_iff.mp h
        refine Or.inl ⟨.slam car output, task, by simp [System.taskSteps, hQueue], rfl, hTask, rfl,
          rfl, trivial, fun c => ?_⟩
        rw [hQueue, queued, queued, filterMap_cons_toList]
        rfl
      · cases h
  | tick visits =>
      simp only [system] at h
      split at h
      · obtain ⟨task, hTask, rfl⟩ := Option.map_eq_some_iff.mp h
        exact Or.inl ⟨_, task, rfl, rfl, hTask, rfl, rfl, trivial, fun c => rfl⟩
      · cases h
  | act =>
      obtain ⟨⟨o, prog, hub⟩, hNext, rfl⟩ := Option.map_eq_some_iff.mp h
      exact Or.inr (Or.inl ⟨o, prog, hub, rfl, rfl, hNext, rfl, rfl, rfl⟩)
  | worker i k =>
      simp only [system] at h
      split at h
      · rename_i w hw
        obtain ⟨⟨w', output⟩, hStep, rfl⟩ := Option.map_eq_some_iff.mp h
        exact Or.inr (Or.inr (Or.inl ⟨i, k, w, w', output, rfl, rfl, hw, hStep, rfl, rfl, rfl⟩))
      · cases h
  | stop =>
      simp only [system] at h
      split at h
      · cases h
        exact Or.inr (Or.inr (Or.inr ⟨rfl, rfl, rfl, rfl, rfl⟩))
      · cases h

/-! ## The invariant -/

/-- What every run of the system keeps, after the task took `steps`. -/
structure System.Invariant (lib : SlamLib S F) (tuning : WorkerTuning) (n : Nat)
    (steps : List (TaskStep T F)) (s : System S T F) : Prop where
  task : Task.Invariant n steps s.task
  handles : Handles (actionsOf n (inputsOf steps)) s.task.completed.locals (inputsOf steps)
  cars : s.workers.map Worker.car = spawnedCars s.task.log
  explains : ∀ (i : Nat) (w : Worker S F), s.workers[i]? = some w →
    w.Explains lib tuning (framesTo i s.task.log) (sentFor w.car (inputsOf steps) s.queue)
  unsent : ∀ c, c ∉ spawnedCars s.task.log → sentFor c (inputsOf steps) s.queue = []

namespace System.Invariant

variable {steps : List (TaskStep T F)}

theorem new (lib : SlamLib S F) (tuning : WorkerTuning) (n : Nat) :
    Invariant lib tuning n [] (System.new : System S T F) where
  task := Task.Invariant.new n
  handles := Handles.new
  cars := rfl
  explains i w hw := by simp [System.new] at hw
  unsent c _ := rfl

theorem car_of_worker (h : Invariant lib tuning n steps s) {i : Nat} {w : Worker S F}
    (hw : s.workers[i]? = some w) : (spawnedCars s.task.log)[i]? = some w.car := by
  rw [← h.cars, List.getElem?_map, hw, Option.map_some]

theorem spawned_of_log (h : Invariant lib tuning n steps s) {i : Nat} {c : String}
    (hi : (spawnedCars s.task.log)[i]? = some c) :
    (spawnedCars (actionsOf n (inputsOf steps)))[i]? = some c := by
  obtain ⟨hLt, -⟩ := List.getElem?_eq_some_iff.mp hi
  rw [← h.task.trace, spawnedCars_append, List.getElem?_append_left hLt, hi]

theorem car_unique (h : Invariant lib tuning n steps s) {i j : Nat} {w w' : Worker S F}
    (hw : s.workers[i]? = some w) (hw' : s.workers[j]? = some w') (hCar : w'.car = w.car) :
    i = j := by
  have hi := h.spawned_of_log (h.car_of_worker hw)
  have hj := h.spawned_of_log (h.car_of_worker hw')
  rw [hCar] at hj
  exact h.handles.unique hi hj

/-- A car for which a thread is about to be started has none. -/
theorem not_spawned (h : Invariant lib tuning n steps s) {car : String} {w : Nat}
    {rest : List (HubOp T F)}
    (hTrace : s.task.log ++ .spawn car w :: rest = actionsOf n (inputsOf steps)) :
    car ∉ spawnedCars s.task.log := by
  intro hMem
  obtain ⟨j, hj⟩ := List.mem_iff_getElem?.mp hMem
  obtain ⟨hLt, -⟩ := List.getElem?_eq_some_iff.mp hj
  have hAgain : (spawnedCars (actionsOf n (inputsOf steps)))[(spawnedCars s.task.log).length]? =
      some car := by
    rw [← hTrace, spawnedCars_append]
    simp
  have hSame := h.handles.unique (h.spawned_of_log hj) hAgain
  omega

/-- A pass begins: nothing is sent, and what leaves the channel is now received. -/
theorem pass (h : Invariant lib tuning n steps s) {i : Input T F} {task : Task T F}
    (hStep : (OlivawHub.task T F n).step s.task (.begin i) = some task) (hTask : s'.task = task)
    (hWorkers : s'.workers = s.workers) (hFresh : i.Fresh s.workers.length)
    (hQueue : ∀ c, (i.outputOf? c).toList ++ queued c s'.queue = queued c s.queue) :
    Invariant lib tuning n (steps ++ [.begin i]) s' := by
  subst hTask
  have hInputs : inputsOf (steps ++ [.begin i]) = inputsOf steps ++ [i] := by
    simp [inputsOf, TaskStep.input?]
  have hNext := h.task.begin hStep
  obtain ⟨locals, hIdle, hEnabled, hEq⟩ := task_begin.mp hStep
  have hLog : s'.task.log = s.task.log := by rw [hEq]
  have hDone : s.task.completed = ⟨s.task.hub, locals⟩ := Task.completed_of_ret hIdle
  have hActions : s.task.log = actionsOf n (inputsOf steps) := h.task.log_of_idle ⟨locals, hIdle⟩
  have hSent : ∀ c, sentFor c (inputsOf (steps ++ [.begin i])) s'.queue =
      sentFor c (inputsOf steps) s.queue := by
    intro c
    rw [sentFor, hInputs, carLog_concat, List.append_assoc, hQueue, sentFor]
  refine ⟨hNext, ?_, ?_, fun j w hw => ?_, fun c hc => ?_⟩
  · have hBefore := h.handles
    rw [hDone] at hBefore
    have hRun := h.task.run
    have hRunNext := hNext.run
    rw [hInputs, Machine.exec_snoc, hRun, Option.bind_some, pipeline_step] at hRunNext
    rw [hInputs, actionsOf_concat hRun, hRunNext.2, hDone]
    refine hBefore.pass n s.task.hub ?_
    rwa [← hActions, ← h.cars, List.length_map]
  · rw [hWorkers, hLog, h.cars]
  · rw [hWorkers] at hw
    rw [hLog, hSent]
    exact h.explains j w hw
  · rw [hLog] at hc
    rw [hSent]
    exact h.unsent c hc

/-- An action of the pipeline: a thread is added, or gets a frame, or nothing changes. -/
theorem act (h : Invariant lib tuning n steps s) {o : HubOp T F} {prog : HubProg T F (Locals F)}
    {hub : Hub T F} (hNext : s.task.prog.next (hubHandler T F) s.task.hub = some (o, prog, hub))
    (hTask : s'.task = ⟨hub, prog, s.task.log ++ [o]⟩)
    (hWorkers : s'.workers = spawnOrSubmit s.workers o) (hQueue : s'.queue = s.queue) :
    Invariant lib tuning n (steps ++ [.act]) s' := by
  have hInputs : inputsOf (steps ++ [.act]) = inputsOf steps := by
    simp [inputsOf, TaskStep.input?]
  have hNextTask := h.task.act (task_act.mpr ⟨o, prog, hub, hNext, rfl⟩)
  obtain ⟨hOps, hRun, -⟩ := Prog.ops_next hNext
  have hLog : s'.task.log = s.task.log ++ [o] := by rw [hTask]
  have hSent : ∀ c, sentFor c (inputsOf (steps ++ [.act])) s'.queue =
      sentFor c (inputsOf steps) s.queue := fun c => by rw [hInputs, hQueue]
  have hDone : s'.task.completed = s.task.completed := by
    simp only [Task.completed, hTask, hRun]
  -- the action in the list of all actions of the passes begun
  have hTrace : s.task.log ++ o :: s'.task.pending = actionsOf n (inputsOf steps) := by
    rw [← h.task.trace]
    simp only [Task.pending, hTask, hOps]
  have hSubmits := h.handles.submits
  rw [← hTrace, submitsOk_append, Nat.zero_add] at hSubmits
  refine ⟨hTask ▸ hNextTask, ?_, ?_, ?_, fun c hc => ?_⟩
  · rw [hInputs, hDone]
    exact h.handles
  · rw [hWorkers, hLog, map_car_spawnOrSubmit, spawnedCars_append, h.cars]
  · intro i w hw
    rw [hSent, hLog, framesTo_append]
    rw [hWorkers] at hw
    cases o with
    | spawn car k =>
        rw [spawnOrSubmit, getElem?_concat_eq_some] at hw
        rcases hw with hOld | ⟨rfl, rfl⟩
        · simpa using h.explains i w hOld
        · have hCount : (spawnedCars s.task.log).length = s.workers.length := by
            rw [← h.cars, List.length_map]
          have hFrames : framesTo s.workers.length s.task.log = [] :=
            framesTo_of_ge hSubmits.1 (by omega)
          have hNew := h.not_spawned hTrace
          have hStart := Worker.Explains.new lib tuning car
          rw [← h.unsent car hNew, ← hFrames] at hStart
          have hSilent : framesTo s.workers.length [(.spawn car k : HubOp T F)] = [] := rfl
          rw [hSilent, List.append_nil]
          exact hStart
    | submit k frame =>
        rw [spawnOrSubmit, List.getElem?_modify] at hw
        obtain ⟨v, hv, rfl⟩ := Option.map_eq_some_iff.mp hw
        by_cases hk : k = i
        · simpa [hk, Worker.submit] using (h.explains i v hv).submit frame
        · simpa [hk] using h.explains i v hv
    | updateCar id f => simpa using h.explains i w hw
    | insertMap id m => simpa using h.explains i w hw
    | emit e => simpa using h.explains i w hw
  · rw [hSent]
    refine h.unsent c fun hMem => hc ?_
    rw [hLog, spawnedCars_append]
    exact List.mem_append_left _ hMem

/-- A step of a thread: what it sends goes to the end of the channel. -/
theorem worker (h : Invariant lib tuning n steps s) {i : Nat} {k : WorkerStep S F}
    {w w' : Worker S F} {output : Option (SlamOutput F)} (hw : s.workers[i]? = some w)
    (hStep : w.step lib tuning s.isOpen k = some (w', output)) (hTask : s'.task = s.task)
    (hWorkers : s'.workers = s.workers.set i w')
    (hQueue : s'.queue = s.queue ++ output.toList.map fun output => (w.car, output)) :
    Invariant lib tuning n steps s' := by
  have hCar := Worker.step_car hStep
  have hSame : sentFor w.car (inputsOf steps) s'.queue =
      sentFor w.car (inputsOf steps) s.queue ++ output.toList := by
    rw [hQueue]
    cases output <;> simp [sentFor, queued]
  have hOther : ∀ c, c ≠ w.car → sentFor c (inputsOf steps) s'.queue =
      sentFor c (inputsOf steps) s.queue := by
    intro c hc
    rw [hQueue]
    cases output <;> simp [sentFor, queued, Ne.symm hc]
  have hKnown : w.car ∈ spawnedCars s.task.log := by
    rw [← h.cars]
    exact List.mem_map_of_mem (List.mem_of_getElem? hw)
  refine ⟨hTask ▸ h.task, hTask ▸ h.handles, ?_, fun j v hv => ?_, fun c hc => ?_⟩
  · rw [hTask, hWorkers, ← h.cars]
    refine List.ext_getElem? fun j => ?_
    rw [List.getElem?_map, List.getElem?_map, List.getElem?_set]
    obtain ⟨hLt, -⟩ := List.getElem?_eq_some_iff.mp hw
    by_cases hi : i = j
    · subst hi
      rw [if_pos rfl, if_pos hLt, hw, Option.map_some, Option.map_some, hCar]
    · rw [if_neg hi]
  · rw [hWorkers, List.getElem?_set] at hv
    rw [hTask]
    by_cases hi : i = j
    · subst hi
      obtain ⟨hLt, -⟩ := List.getElem?_eq_some_iff.mp hw
      rw [if_pos rfl, if_pos hLt] at hv
      cases hv
      rw [hCar, hSame]
      exact (h.explains i w hw).step hStep
    · rw [if_neg hi] at hv
      rw [hOther v.car fun hEq => hi (h.car_unique hw hv hEq)]
      exact h.explains j v hv
  · rw [hTask] at hc
    rw [hOther c fun hEq => hc (hEq ▸ hKnown)]
    exact h.unsent c hc

theorem step (h : Invariant lib tuning n steps s)
    (hStep : (system lib tuning n).step s l = some s') :
    Invariant lib tuning n (steps ++ s.taskSteps l) s' := by
  rcases system_cases hStep with ⟨i, task, hSteps, -, hTask, hEq, hWorkers, hFresh, hQueue⟩ |
    ⟨o, prog, hub, rfl, -, hNext, hTask, hWorkers, hQueue⟩ |
    ⟨i, k, w, w', output, rfl, -, hw, hWorker, hTask, hWorkers, hQueue⟩ |
    ⟨rfl, -, hTask, hWorkers, hQueue⟩
  · rw [hSteps]
    exact h.pass hTask hEq hWorkers hFresh hQueue
  · exact h.act hNext hTask hWorkers hQueue
  · rw [System.taskSteps, List.append_nil]
    exact h.worker hw hWorker hTask hWorkers hQueue
  · rw [System.taskSteps, List.append_nil]
    refine ⟨hTask ▸ h.task, hTask ▸ h.handles, by rw [hTask, hWorkers, h.cars], ?_, ?_⟩
    · rw [hTask, hWorkers, hQueue]
      exact h.explains
    · rw [hTask, hQueue]
      exact h.unsent

end System.Invariant

/-- The steps of the pipeline task in a run of the system. -/
def taskStepsOf (lib : SlamLib S F) (tuning : WorkerTuning) (n : Nat)
    (steps : List (SystemStep S T F)) : List (TaskStep T F) :=
  (system lib tuning n).outputs System.taskSteps System.new steps

theorem System.Invariant.of_run {steps : List (SystemStep S T F)}
    (hRun : (system lib tuning n).exec System.new steps = some s) :
    Invariant lib tuning n (taskStepsOf lib tuning n steps) s := by
  refine Machine.exec_history
    (P := fun past s => Invariant lib tuning n (taskStepsOf lib tuning n past) s)
    (Invariant.new lib tuning n) ?_ hRun
  intro past s l s' hPast h hStep
  rw [taskStepsOf, Machine.outputs_concat _ hPast]
  exact h.step hStep

/-- Two scans of `a`, of which the second replaces the first in the mailbox; the worker matches
it, and the pipeline receives its pose and its map. -/
def twoScans : List (SystemStep Nat Unit ℚ) :=
  [.event ⟨"a", 0, .scan ⟨1, 0, [⟨0, 0, 0⟩], 0⟩⟩ 0 true, .act, .act, .act, .act,
    .event ⟨"a", 1, .scan ⟨2, 0, [⟨0, 0, 0⟩], 0⟩⟩ 0 true, .act, .act, .act,
    .worker 0 (.start (some 0)), .worker 0 .take, .worker 0 (.track 0), .worker 0 .send,
    .worker 0 .render, .worker 0 .send, .slam, .act, .act, .act, .slam, .act, .act, .act]

end OlivawHub
