import OlivawHub.System.Reads
import OlivawHub.System.Provenance
import OlivawHub.Slam.Sequential

/-!
# The hub maps as one loop would

Scans of all cars reach their workers through mailboxes that keep only the latest, workers run as
the scheduler likes, and their outputs come back through one channel. Still every car is mapped as
by a single loop that is given some of its scans, in their order: the poses broadcast, the
snapshot, and the images that can be downloaded are those of this loop
(`hub_maps_as_one_loop`), and the last scan received is never one that is left out.
-/

namespace OlivawHub

open Foundations

variable {S T F : Type}

/-! ## The frames of a thread -/

/-- Every thread was given frames, and from its first one on all scans of its car. -/
def Fed (os : List (HubOp T F)) (inputs : List (Input T F)) : Prop :=
  ∀ c w, (spawnedCars os)[w]? = some c → framesTo w os ≠ [] ∧ framesTo w os <:+ scansOf c inputs

namespace Fed

variable {os ps : List (HubOp T F)} {l : Locals F} {inputs : List (Input T F)} {i : Input T F}

theorem scanOf_event (e : CarEvent T) (now : F) (spawned : Option Nat) (c : String) :
    (Input.event e now spawned : Input T F).scanOf? c = if e.car = c then e.scan? else none := by
  by_cases hCar : e.car = c <;> simp [Input.scanOf?, Input.eventOf?, hCar]

/-- A pass that hands no scan to a thread. -/
theorem quiet (h : Fed os inputs) (hOps : ∀ o ∈ ps, o.spawned? = none ∧ ∀ w, o.frameTo? w = none)
    (hNone : ∀ (c : String) (w : Nat), (spawnedCars os)[w]? = some c → i.scanOf? c = none) :
    Fed (os ++ ps) (inputs ++ [i]) := by
  intro c w hw
  have hSpawned : spawnedCars ps = [] := List.filterMap_eq_nil_iff.mpr fun o ho => (hOps o ho).1
  have hFrames : framesTo w ps = [] :=
    List.filterMap_eq_nil_iff.mpr fun o ho => (hOps o ho).2 w
  rw [spawnedCars_append, hSpawned, List.append_nil] at hw
  rw [framesTo_append, hFrames, List.append_nil, scansOf_concat, hNone c w hw, Option.toList_none,
    List.append_nil]
  exact h c w hw

/-- A scan that is handed to the thread `w` of `c`, which may have just been started. -/
theorem submit (h : Fed os inputs) {c : String} {w : Nat} {frame : ScanFrame}
    (hFrames : ∀ v, framesTo v ps = if v = w then [frame] else [])
    (hThreads : ∀ (v : Nat) d, (spawnedCars (os ++ ps))[v]? = some d →
      (v = w ∧ d = c) ∨ v ≠ w ∧ d ≠ c ∧ (spawnedCars os)[v]? = some d)
    (hSuffix : framesTo w os <:+ scansOf c inputs)
    (hScan : ∀ d, i.scanOf? d = if c = d then some frame else none) :
    Fed (os ++ ps) (inputs ++ [i]) := by
  intro d v hv
  rw [framesTo_append, hFrames, scansOf_concat, hScan]
  rcases hThreads v d hv with ⟨rfl, rfl⟩ | ⟨hOther, hCar, hOld⟩
  · rw [if_pos rfl, if_pos rfl, Option.toList_some]
    refine ⟨by simp, ?_⟩
    obtain ⟨before, hBefore⟩ := hSuffix
    exact ⟨before, by rw [← List.append_assoc, hBefore]⟩
  · rw [if_neg hOther, if_neg (Ne.symm hCar), Option.toList_none, List.append_nil, List.append_nil]
    exact h d v hOld

variable [HubFloat F]

theorem pass (h : Fed os inputs) (hHandles : Handles os l inputs) (n : Nat) (hub : Hub T F)
    (hFresh : i.Fresh (spawnedCars os).length) : Fed (os ++ bodyOps n hub l i) (inputs ++ [i]) := by
  cases i with
  | event e now spawned =>
      obtain ⟨car, atMs, kind⟩ := e
      cases kind with
      | status status =>
          refine h.quiet ?_ fun c w _ => by simp [scanOf_event, CarEvent.scan?]
          by_cases hSame : (hub.car car).status = status <;> simp [bodyOps, eventOps, hSame]
      | telemetry t =>
          refine h.quiet ?_ fun c w _ => by simp [scanOf_event, CarEvent.scan?]
          simp [bodyOps, eventOps]
      | scan frame =>
          have hScan : ∀ d, (Input.event ⟨car, atMs, .scan frame⟩ now spawned : Input T F).scanOf?
              d = if car = d then some frame else none := fun d => scanOf_event _ now spawned d
          cases hw : l.workers.lookup car with
          | some w =>
              have hThread := (hHandles.handles car w).mp hw
              have hOps : bodyOps n hub l (.event ⟨car, atMs, .scan frame⟩ now spawned) =
                  [.updateCar car (.lastSeenMs atMs), .updateCar car .scansTotal,
                    .submit w frame] := by simp [bodyOps, eventOps, workerOps, hw]
              rw [hOps]
              refine h.submit (fun v => ?_) (fun v d hv => ?_) (h car w hThread).2 hScan
              · by_cases hSame : w = v
                · simp [hSame]
                · simp [hSame, Ne.symm hSame]
              · have hOld : (spawnedCars os)[v]? = some d := by simpa using hv
                by_cases hSame : v = w
                · subst hSame
                  exact Or.inl ⟨rfl, Option.some.inj (hOld.symm.trans hThread)⟩
                · refine Or.inr ⟨hSame, ?_, hOld⟩
                  rintro rfl
                  exact hSame (hHandles.unique hOld hThread)
          | none =>
              have hNew : ∀ v : Nat, (spawnedCars os)[v]? ≠ some car := by
                intro v hv
                rw [(hHandles.handles car v).mpr hv] at hw
                cases hw
              cases spawned with
              | none =>
                  refine h.quiet (by simp [bodyOps, eventOps, workerOps, hw]) fun d v hThread => ?_
                  rw [hScan, if_neg]
                  rintro rfl
                  exact hNew v hThread
              | some w =>
                  have hOps : bodyOps n hub l (.event ⟨car, atMs, .scan frame⟩ now (some w)) =
                      [.updateCar car (.lastSeenMs atMs), .updateCar car .scansTotal,
                        .spawn car w, .submit w frame] := by
                    simp [bodyOps, eventOps, workerOps, hw]
                  have hCount : w = (spawnedCars os).length := hFresh
                  have hNone : framesTo w os = [] :=
                    framesTo_of_ge hHandles.submits (by omega)
                  rw [hOps]
                  refine h.submit (fun v => ?_) (fun v d hv => ?_) (hNone ▸ List.nil_suffix) hScan
                  · by_cases hSame : w = v
                    · simp [hSame]
                    · simp [hSame, Ne.symm hSame]
                  · have hv : (spawnedCars os ++ [car])[v]? = some d := by simpa using hv
                    rcases getElem?_concat_eq_some.mp hv with hOld | ⟨hLast, hCar⟩
                    · obtain ⟨hLt, -⟩ := List.getElem?_eq_some_iff.mp hOld
                      refine Or.inr ⟨by omega, ?_, hOld⟩
                      rintro rfl
                      exact hNew v hOld
                    · exact Or.inl ⟨hLast.trans hCount.symm, hCar.symm⟩
  | slam car output =>
      refine h.quiet ?_ fun c w _ => rfl
      cases output <;> simp [bodyOps, slamOps]
  | tick visits =>
      refine h.quiet (fun o ho => ?_) fun c w _ => rfl
      obtain ⟨_, _, _, rfl | ⟨_, rfl⟩⟩ := mem_visits ho <;> exact ⟨rfl, fun _ => rfl⟩

variable {lib : SlamLib S F} {tuning : WorkerTuning} {n : Nat} {s : System S T F}

theorem of_run {steps : List (SystemStep S T F)}
    (hRun : (system lib tuning n).exec System.new steps = some s) :
    Fed (actionsOf n (inputsOf (taskStepsOf lib tuning n steps)))
      (inputsOf (taskStepsOf lib tuning n steps)) := by
  refine Machine.exec_history (P := fun past _ =>
    Fed (actionsOf n (inputsOf (taskStepsOf lib tuning n past)))
      (inputsOf (taskStepsOf lib tuning n past))) (fun c w hw => ?_) ?_ hRun
  · cases hw
  intro past s l s' hPast ih hStep
  have hInv := System.Invariant.of_run hPast
  have hSame : ∀ more, inputsOf (T := T) (F := F) more = [] →
      inputsOf (taskStepsOf lib tuning n past ++ more) =
        inputsOf (taskStepsOf lib tuning n past) := by
    intro more hNone
    rw [inputsOf, List.filterMap_append, ← inputsOf, ← inputsOf, hNone, List.append_nil]
  rw [taskStepsOf, Machine.outputs_concat _ hPast, ← taskStepsOf]
  rcases system_cases hStep with ⟨i, task, hSteps, -, hTask, -, -, hFresh, -⟩ |
    ⟨o, prog, hub, rfl, -, -, -, -, -⟩ | ⟨_, _, _, _, _, rfl, -⟩ | ⟨rfl, -⟩
  · obtain ⟨locals, hIdle, hEnabled, -⟩ := task_begin.mp hTask
    have hDone : s.task.completed = ⟨s.task.hub, locals⟩ := Task.completed_of_ret hIdle
    have hActions := hInv.task.log_of_idle ⟨locals, hIdle⟩
    have hHandles := hInv.handles
    have hInputs : inputsOf (taskStepsOf lib tuning n past ++ [.begin i]) =
        inputsOf (taskStepsOf lib tuning n past) ++ [i] := by
      simp [inputsOf, TaskStep.input?]
    rw [hSteps, hInputs, actionsOf_concat hInv.task.run, hDone]
    rw [hDone] at hHandles
    refine ih.pass hHandles n s.task.hub ?_
    rwa [← hActions, ← hInv.cars, List.length_map]
  · rw [System.taskSteps, hSame _ rfl]
    exact ih
  · rw [System.taskSteps, hSame _ rfl]
    exact ih
  · rw [System.taskSteps, hSame _ rfl]
    exact ih

end Fed

/-! ## A rule for the threads -/

variable [HubFloat F]

variable {lib : SlamLib S F} {tuning : WorkerTuning} {n : Nat} {s s' : System S T F}

omit [HubFloat F] in
/-- What leaves the channel in the pass that begins is received. -/
theorem sentFor_begin {steps : List (TaskStep T F)} {i : Input T F}
    {queue queue' : List (String × SlamOutput F)}
    (hQueue : ∀ c, (i.outputOf? c).toList ++ queued c queue' = queued c queue) (c : String) :
    sentFor c (inputsOf (steps ++ [.begin i])) queue' = sentFor c (inputsOf steps) queue := by
  have hInputs : inputsOf (steps ++ [.begin i]) = inputsOf steps ++ [i] := by
    simp [inputsOf, TaskStep.input?]
  rw [sentFor, hInputs, carLog_concat, List.append_assoc, hQueue, sentFor]

omit [HubFloat F] in
theorem sentFor_act (steps : List (TaskStep T F)) (queue : List (String × SlamOutput F))
    (c : String) : sentFor c (inputsOf (steps ++ [.act])) queue =
      sentFor c (inputsOf steps) queue := by
  have hInputs : inputsOf (steps ++ [.act]) = inputsOf steps := by
    simp [inputsOf, TaskStep.input?]
  rw [hInputs]

omit [HubFloat F] in
/-- What a thread sends is at the end of what its car was sent for. -/
theorem sentFor_send (inputs : List (Input T F)) (queue : List (String × SlamOutput F))
    (car : String) (output : Option (SlamOutput F)) (c : String) :
    sentFor c inputs (queue ++ output.toList.map fun output => (car, output)) =
      sentFor c inputs queue ++ if car = c then output.toList else [] := by
  cases output with
  | none => simp
  | some output =>
      by_cases hCar : car = c <;> simp [sentFor, queued, hCar]

/-- The steps of thread `i`. -/
def threadSteps (i : Nat) (steps : List (SystemStep S T F)) : List (WorkerStep S F) :=
  steps.filterMap fun
    | .worker j k => if j = i then some k else none
    | _ => none

omit [HubFloat F] in
theorem threadSteps_concat (i : Nat) (past : List (SystemStep S T F)) (l : SystemStep S T F) :
    threadSteps i (past ++ [l]) = threadSteps i past ++ threadSteps i [l] :=
  List.filterMap_append

omit [HubFloat F] in
/-- The beginning of a pass is no step of a thread. -/
theorem threadSteps_of_begin {l : SystemStep S T F} {input : Input T F}
    (h : s.taskSteps l = [.begin input]) (i : Nat) : threadSteps i [l] = [] := by
  cases l with
  | worker j k => cases h
  | _ => rfl

/-- A thread that is not there yet has taken no step. -/
theorem threadSteps_of_ge {steps : List (SystemStep S T F)}
    (hRun : (system lib tuning n).exec System.new steps = some s) {i : Nat}
    (h : s.workers.length ≤ i) : threadSteps i steps = [] := by
  refine Machine.exec_history (P := fun past s => s.workers.length ≤ i → threadSteps i past = [])
    (fun _ => rfl) ?_ hRun h
  intro past s l s' _ ih hStep hLen
  rw [threadSteps_concat]
  rcases system_cases hStep with ⟨input, task, hSteps, -, -, -, hWorkers, -, -⟩ |
    ⟨o, prog, hub, rfl, -, -, -, hWorkers, -⟩ |
    ⟨j, k, v, v', output, rfl, -, hv, -, -, hWorkers, -⟩ | ⟨rfl, -, -, hWorkers, -⟩
  · rw [ih (hWorkers ▸ hLen), threadSteps_of_begin hSteps, List.append_nil]
  · have hBefore : s.workers.length ≤ i := by
      refine le_trans ?_ hLen
      rw [hWorkers]
      cases o <;> simp [spawnOrSubmit]
    rw [ih hBefore]
    rfl
  · rw [hWorkers, List.length_set] at hLen
    obtain ⟨hLt, -⟩ := List.getElem?_eq_some_iff.mp hv
    have hOther : j ≠ i := by omega
    rw [ih hLen]
    simp [threadSteps, hOther]
  · rw [ih (hWorkers ▸ hLen)]
    rfl

/-- What is true of a new thread, and is kept by what is submitted to it and by its own steps, is
true of every thread, with the steps it has taken, the frames submitted to it and the outputs sent
for its car. -/
theorem worker_rule
    {P : List (WorkerStep S F) → List ScanFrame → List (SlamOutput F) → Worker S F → Prop}
    (hNew : ∀ car, P [] [] [] (Worker.new car))
    (hSubmit : ∀ ks frames outs w frame, P ks frames outs w →
      P ks (frames ++ [frame]) outs (w.submit frame))
    (hThread : ∀ ks frames outs w isOpen k w' out, P ks frames outs w →
      w.step lib tuning isOpen k = some (w', out) → P (ks ++ [k]) frames (outs ++ out.toList) w')
    {steps : List (SystemStep S T F)}
    (hRun : (system lib tuning n).exec System.new steps = some s) {i : Nat} {w : Worker S F}
    (hw : s.workers[i]? = some w) :
    P (threadSteps i steps) (framesTo i s.task.log)
      (sentFor w.car (inputsOf (taskStepsOf lib tuning n steps)) s.queue) w := by
  refine Machine.exec_history (P := fun past s => ∀ (i : Nat) (w : Worker S F),
    s.workers[i]? = some w → P (threadSteps i past) (framesTo i s.task.log)
      (sentFor w.car (inputsOf (taskStepsOf lib tuning n past)) s.queue) w)
    (fun i w hw => by simp [System.new] at hw) ?_ hRun i w hw
  intro past s l s' hPast ih hStep i w hw
  have hInv := System.Invariant.of_run hPast
  have hIdle : threadSteps i [l] = [] → threadSteps i (past ++ [l]) = threadSteps i past :=
    fun hNone => by rw [threadSteps_concat, hNone, List.append_nil]
  rw [taskStepsOf, Machine.outputs_concat _ hPast, ← taskStepsOf]
  rcases system_cases hStep with ⟨input, task, hSteps, -, hTask, rfl, hWorkers, -, hQueue⟩ |
    ⟨o, prog, hub, rfl, -, hNext, hTask, hWorkers, hQueue⟩ |
    ⟨j, k, v, v', output, rfl, -, hv, hStep, hTask, hWorkers, hQueue⟩ |
    ⟨rfl, -, hTask, hWorkers, hQueue⟩
  · obtain ⟨_, -, -, hSame⟩ := task_begin.mp hTask
    rw [hIdle (threadSteps_of_begin hSteps i), hSteps, sentFor_begin hQueue, hSame]
    rw [hWorkers] at hw
    exact ih i w hw
  · rw [hIdle rfl, System.taskSteps, sentFor_act, hQueue, hTask]
    rw [hWorkers] at hw
    obtain ⟨hOps, -, -⟩ := Prog.ops_next hNext
    have hTrace : s.task.log ++ o :: prog.ops (hubHandler T F) hub =
        actionsOf n (inputsOf (taskStepsOf lib tuning n past)) := by
      rw [← hInv.task.trace]
      simp only [Task.pending, hOps]
    show P _ (framesTo i (s.task.log ++ [o])) _ w
    rw [framesTo_append]
    cases o with
    | spawn car k =>
        have hSilent : framesTo i [(.spawn car k : HubOp T F)] = [] := rfl
        rw [hSilent, List.append_nil]
        rw [spawnOrSubmit, getElem?_concat_eq_some] at hw
        rcases hw with hOld | ⟨rfl, rfl⟩
        · exact ih i w hOld
        · have hSubmits := hInv.handles.submits
          rw [← hTrace, submitsOk_append, Nat.zero_add] at hSubmits
          have hCount : (spawnedCars s.task.log).length = s.workers.length := by
            rw [← hInv.cars, List.length_map]
          have hNone := hInv.unsent car (hInv.not_spawned hTrace)
          rw [framesTo_of_ge hSubmits.1 (by omega), threadSteps_of_ge hPast le_rfl]
          show P [] [] (sentFor car _ _) (Worker.new car)
          rw [hNone]
          exact hNew car
    | submit k frame =>
        rw [spawnOrSubmit, List.getElem?_modify] at hw
        obtain ⟨v, hv, rfl⟩ := Option.map_eq_some_iff.mp hw
        by_cases hk : k = i
        · simpa [hk, Worker.submit] using hSubmit _ _ _ v frame (ih i v hv)
        · simpa [hk] using ih i v hv
    | updateCar id f => simpa using ih i w hw
    | insertMap id m => simpa using ih i w hw
    | emit e => simpa using ih i w hw
  · rw [System.taskSteps, List.append_nil, hQueue, sentFor_send, hTask]
    rw [hWorkers, List.getElem?_set] at hw
    by_cases hj : j = i
    · subst hj
      obtain ⟨hLt, -⟩ := List.getElem?_eq_some_iff.mp hv
      rw [if_pos rfl, if_pos hLt] at hw
      cases hw
      have hCar := Worker.step_car hStep
      have hOwn : threadSteps j (past ++ [.worker j k]) = threadSteps j past ++ [k] := by
        simp [threadSteps]
      rw [if_pos hCar.symm, hCar, hOwn]
      exact hThread _ _ _ _ _ _ _ _ (ih j v hv) hStep
    · have hNone : threadSteps i [(.worker j k : SystemStep S T F)] = [] := by
        simp [threadSteps, hj]
      rw [if_neg hj] at hw
      rw [if_neg fun hCar => hj (hInv.car_unique hv hw hCar.symm), List.append_nil, hIdle hNone]
      exact ih i w hw
  · rw [hIdle rfl, System.taskSteps, List.append_nil, hTask, hQueue]
    rw [hWorkers] at hw
    exact ih i w hw

/-! ## The loop of a car -/

/-- The thread of `c` waits for a scan, and nothing that it sent is still on its way. -/
def AtRest (c : String) (s : System S T F) : Prop :=
  s.task.Idle ∧ queued c s.queue = [] ∧
    ∃ w ∈ s.workers, w.car = c ∧ w.slot = none ∧ ∃ st, w.phase = .idle st

/-- What `Slam::new` gave the thread of `c`. Nothing before its call. -/
def slamFor (c : String) (steps : List (SystemStep S T F)) (s : System S T F) : Option S :=
  (s.workers.findIdx? fun w => w.car = c).bind fun i => slamOf (threadSteps i steps)

theorem slamFor_of_worker {steps : List (SystemStep S T F)} (hInv : System.Invariant lib tuning n
    (taskStepsOf lib tuning n steps) s) {i : Nat} {w : Worker S F}
    (hw : s.workers[i]? = some w) : slamFor w.car steps s = slamOf (threadSteps i steps) := by
  obtain ⟨hLt, hAt⟩ := List.getElem?_eq_some_iff.mp hw
  have hIndex : (s.workers.findIdx? fun v => v.car = w.car) = some i := by
    rw [List.findIdx?_eq_some_iff_getElem]
    refine ⟨hLt, by simp [hAt], fun j hj => ?_⟩
    have hOther : s.workers[j]? = some s.workers[j] := List.getElem?_eq_getElem (hj.trans hLt)
    have hCar : s.workers[j].car ≠ w.car := fun hSame =>
      absurd (hInv.car_unique hOther hw hSame.symm) hj.ne
    simp [hCar]
  rw [slamFor, hIndex, Option.bind_some]

theorem Worker.InStep.of_run {steps : List (SystemStep S T F)}
    (hRun : (system lib tuning n).exec System.new steps = some s) {i : Nat} {w : Worker S F}
    (hw : s.workers[i]? = some w) :
    ∃ turns, w.InStep lib tuning (slamOf (threadSteps i steps)) turns (framesTo i s.task.log)
      (sentFor w.car (inputsOf (taskStepsOf lib tuning n steps)) s.queue) := by
  refine (worker_rule (P := fun ks frames outs w => (w.phase = .starting → slamOf ks = none) ∧
    ∃ turns, w.InStep lib tuning (slamOf ks) turns frames outs) ?_ ?_ ?_ hRun hw).2
  · intro car
    exact ⟨fun _ => rfl, [], .new lib tuning car⟩
  · rintro ks frames outs w frame ⟨hStarting, turns, h⟩
    exact ⟨hStarting, turns, h.submit frame⟩
  · rintro ks frames outs w isOpen k w' out ⟨hStarting, turns, h⟩ hStep
    refine ⟨fun hStill => absurd hStill (Worker.step_started hStep), ?_⟩
    by_cases hStart : ∃ result, k = .start result
    · obtain ⟨result, rfl⟩ := hStart
      have hPhase : w.phase = .starting := Worker.start_phase hStep
      rw [slamOf_concat, hStarting hPhase, Option.none_or]
      exact ⟨[], h.start hStep⟩
    · have hNone : k.slam? = none := by
        cases k with
        | start result => exact absurd ⟨result, rfl⟩ hStart
        | _ => rfl
      rw [slamOf_concat, hNone, Option.or_none]
      exact h.step hStep fun result hk => hStart ⟨result, hk⟩

/-- What was sent for a car is what the loop sends for some of its scans, or a first part. -/
theorem exists_turns {steps : List (SystemStep S T F)}
    (hRun : (system lib tuning n).exec System.new steps = some s) (c : String) :
    ∃ turns, (turns.map Prod.fst).Sublist (scansReceived c steps) ∧
      sentFor c (inputsOf (taskStepsOf lib tuning n steps)) s.queue <+:
        slamOutputs lib tuning (slamFor c steps s) turns ∧
      (AtRest c s → sentFor c (inputsOf (taskStepsOf lib tuning n steps)) s.queue =
          slamOutputs lib tuning (slamFor c steps s) turns ∧
        (turns.map Prod.fst).getLast? = (scansReceived c steps).getLast?) := by
  have hInv := System.Invariant.of_run hRun
  by_cases hCar : c ∈ spawnedCars s.task.log
  · obtain ⟨i, hi⟩ := List.mem_iff_getElem?.mp hCar
    have hi' := hi
    rw [← hInv.cars, List.getElem?_map, Option.map_eq_some_iff] at hi'
    obtain ⟨w, hw, rfl⟩ := hi'
    obtain ⟨turns, h⟩ := Worker.InStep.of_run hRun hw
    rw [slamFor_of_worker hInv hw]
    have hThread := hInv.spawned_of_log hi
    have hFrames : (framesTo i s.task.log).Sublist (scansReceived w.car steps) := by
      rw [← scansOf_taskStepsOf hRun]
      refine List.Sublist.trans ?_ (hInv.handles.frames w.car i hThread)
      rw [← hInv.task.trace, framesTo_append]
      exact List.sublist_append_left _ _
    refine ⟨turns, ((List.sublist_append_left _ _).trans h.kept).trans hFrames,
      h.reached.isPrefix, ?_⟩
    rintro ⟨hIdle, hQueue, v, hMem, hSame, hSlot, st, hPhase⟩
    obtain ⟨j, hv⟩ := List.mem_iff_getElem?.mp hMem
    obtain rfl := hInv.car_unique hw hv hSame
    obtain rfl : w = v := Option.some.inj (hw.symm.trans hv)
    refine ⟨?_, ?_⟩
    · have hReached := h.reached
      rw [hPhase] at hReached
      cases hReached with
      | starting hOther => cases hOther
      | stopped hOther => cases hOther
      | turning slam₀ _ _ _ hOuts => exact (hOuts.trans (List.append_nil _)).symm
    · have hLast := h.last
      rw [hPhase, hSlot] at hLast
      obtain ⟨hSome, before, hBefore⟩ := Fed.of_run hRun w.car i hThread
      rw [← hInv.task.log_of_idle hIdle] at hSome hBefore
      rw [scansOf_taskStepsOf hRun] at hBefore
      rw [← hBefore, List.getLast?_append_of_ne_nil _ hSome, ← hLast]
      exact congrArg List.getLast? (List.append_nil _).symm
  · have hNone : ∀ w ∈ s.workers, w.car ≠ c := by
      rintro w hw rfl
      refine hCar ?_
      rw [← hInv.cars]
      exact List.mem_map_of_mem hw
    refine ⟨[], List.nil_sublist _, hInv.unsent c hCar ▸ List.nil_prefix, ?_⟩
    rintro ⟨-, -, w, hMem, hSame, -⟩
    exact absurd hSame (hNone w hMem)

/-! ## What is shown of it -/

omit [HubFloat F] in
/-- An image of `c` that was fetched is that of one of the maps. -/
def Reading.ImageOf (c : String) (maps : List (MapSnapshot F)) (r : Reading T F) : Prop :=
  ∀ headers body, r.answer = .image (.ok headers body) →
    (r.request = .mapPng c → ∃ m ∈ maps, body = m.png) ∧
    (r.request = .mapPgm c → ∃ m ∈ maps, body = m.toPgm)

namespace System.Invariant

variable {steps : List (TaskStep T F)}

/-- The maps stored by some moment are among those sent. -/
theorem storedMaps_isPrefix (h : Invariant lib tuning n steps s) {os : List (HubOp T F)}
    (hPrefix : os <+: s.task.log) (c : String) :
    storedMaps c os <+: (sentFor c (inputsOf steps) s.queue).filterMap SlamOutput.map? := by
  have hStored : storedMaps c os <+: storedMaps c (actionsOf n (inputsOf steps)) := by
    rw [← h.task.trace]
    exact (hPrefix.trans (List.prefix_append _ _)).filterMap _
  rw [storedMaps_actionsOf c h.task.run] at hStored
  refine hStored.trans ?_
  rw [sentFor, List.filterMap_append]
  exact List.prefix_append _ _

theorem posesTold_isPrefix (h : Invariant lib tuning n steps s) (c : String) :
    posesFor c (posesTold s.task.hub.events) <+:
      ((sentFor c (inputsOf steps) s.queue).filterMap SlamOutput.tracked?).map Prod.fst := by
  have hTold : posesTold s.task.hub.events <+: (inputsOf steps).filterMap Input.pose? := by
    rw [h.task.events, ← posesApplied_actionsOf h.task.run, ← h.task.trace, posesApplied_append]
    exact ((posesInOrder_actionsOf h.task.run).2 _ ⟨_, h.task.trace⟩).trans (List.prefix_append _ _)
  refine (posesFor_isPrefix hTold).trans ?_
  rw [posesFor_inputs, sentFor, List.filterMap_append, List.map_append]
  exact List.prefix_append _ _

theorem posesTold_of_idle (h : Invariant lib tuning n steps s) (hIdle : s.task.Idle) (c : String) :
    posesFor c (posesTold s.task.hub.events) =
      ((carLog c (inputsOf steps)).outputs.filterMap SlamOutput.tracked?).map Prod.fst := by
  rw [← posesFor_inputs, ← posesApplied_actionsOf h.task.run,
    ← (posesInOrder_actionsOf h.task.run).1, h.task.events, h.task.log_of_idle hIdle]
  rfl

theorem describes_of_idle (h : Invariant lib tuning n steps s) (hIdle : s.task.Idle) (c : String) :
    CarLog.Describes c n (carLog c (inputsOf steps)) (s.task.hub.car c) := by
  obtain ⟨locals, hLocals⟩ := hIdle
  have hDescribes := (CarLog.Invariant.of_run h.task.run).describes c
  rwa [Task.completed_of_ret hLocals] at hDescribes

end System.Invariant

theorem Reading.ImageOf.of_stored {r : Reading T F} {os : List (HubOp T F)} (hGenuine : r.Genuine)
    (hHub : r.hub = Hub.new.after os) (c : String) : r.ImageOf c (storedMaps c os) := by
  intro headers body hAnswer
  have hServed := hGenuine.served
  have hStored : ∀ m, r.hub.maps.lookup c = some m → m ∈ storedMaps c os := by
    intro m hm
    rw [hHub, Hub.after_maps] at hm
    exact List.mem_of_getLast? (by simpa [Hub.new] using hm)
  refine ⟨fun hRequest => ?_, fun hRequest => ?_⟩
  · rw [hRequest, hAnswer] at hServed
    cases hLookup : r.hub.maps.lookup c with
    | none => simp [Hub.serve, Http.mapPng, Http.latestMap, hLookup] at hServed
    | some m =>
        refine ⟨m, hStored m hLookup, ?_⟩
        simp only [Hub.serve, Http.mapPng, Http.latestMap, hLookup, MapSnapshot.pngResponse,
          Option.some.injEq, Answer.image.injEq, Response.ok.injEq] at hServed
        exact hServed.2.symm
  · rw [hRequest, hAnswer] at hServed
    cases hLookup : r.hub.maps.lookup c with
    | none => simp [Hub.serve, Http.mapPgm, Http.latestMap, hLookup] at hServed
    | some m =>
        refine ⟨m, hStored m hLookup, ?_⟩
        simp only [Hub.serve, Http.mapPgm, Http.latestMap, hLookup, MapSnapshot.pgmResponse,
          Option.some.injEq, Answer.image.injEq, Response.ok.injEq] at hServed
        exact hServed.2.symm

omit [HubFloat F] in
theorem Reading.ImageOf.mono {r : Reading T F} {c : String} {maps maps' : List (MapSnapshot F)}
    (h : r.ImageOf c maps) (hSubset : maps ⊆ maps') : r.ImageOf c maps' := by
  intro headers body hAnswer
  obtain ⟨hPng, hPgm⟩ := h headers body hAnswer
  refine ⟨fun hRequest => ?_, fun hRequest => ?_⟩
  · obtain ⟨m, hm, hBody⟩ := hPng hRequest
    exact ⟨m, hSubset hm, hBody⟩
  · obtain ⟨m, hm, hBody⟩ := hPgm hRequest
    exact ⟨m, hSubset hm, hBody⟩

/-- **One loop.** In every run with readers, for every car there are some of its scans, in the order
in which they were received, such that the poses broadcast for the car are those, or the first of
those, that the loop of `worker.rs` alone computes from these scans with what `Slam::new` gave the
car's thread, and every image of its map anyone has fetched is that of a map the loop renders. When
its thread is at rest the last scan received is one of them, the poses broadcast are all poses of
the loop, the snapshot is what its outputs describe, and the map kept is its last one. -/
theorem hub_maps_as_one_loop (lib : SlamLib S F) (tuning : WorkerTuning) (n : Nat)
    (steps : List (SystemStep S T F ⊕ Request)) (s : System S T F) (readings : List (Reading T F))
    (hRun : (observed lib tuning n).exec (System.new, []) steps = some (s, readings)) (c : String) :
    ∃ turns,
      let received := steps.filterMap Sum.getLeft?
      let scans := scansReceived c received
      let outs := slamOutputs lib tuning (slamFor c received s) turns
      let poses := (outs.filterMap SlamOutput.tracked?).map Prod.fst
      let maps := outs.filterMap SlamOutput.map?
      (turns.map Prod.fst).Sublist scans ∧
        posesFor c (posesTold s.task.hub.events) <+: poses ∧
        (∀ r ∈ readings, r.ImageOf c maps) ∧
        (AtRest c s → (turns.map Prod.fst).getLast? = scans.getLast? ∧
          posesFor c (posesTold s.task.hub.events) = poses ∧
          (∃ events, events.filterMap CarEvent.scan? = scans ∧
            CarLog.Describes c n ⟨events, outs⟩ (s.task.hub.car c)) ∧
          s.task.hub.maps.lookup c = maps.getLast?) := by
  have hSystem := Machine.watch_exec hRun
  have hInv := System.Invariant.of_run hSystem
  have hReadings := Ascending.of_run hRun
  obtain ⟨turns, hScans, hSent, hRest⟩ := exists_turns hSystem c
  refine ⟨turns, hScans, ?_, fun r hr => ?_, fun hAtRest => ?_⟩
  · exact (hInv.posesTold_isPrefix c).trans ((hSent.filterMap _).map _)
  · obtain ⟨os, hos, hHub⟩ := hReadings.past r hr
    refine (Reading.ImageOf.of_stored (hReadings.genuine r hr) hHub c).mono ?_
    exact ((hInv.storedMaps_isPrefix hos c).trans (hSent.filterMap _)).subset
  · obtain ⟨hAll, hLast⟩ := hRest hAtRest
    obtain ⟨hIdle, hQueue, -⟩ := hAtRest
    rw [sentFor, hQueue, List.append_nil] at hAll
    refine ⟨hLast, ?_, ⟨_, scansOf_taskStepsOf hSystem c, ?_⟩, ?_⟩
    · rw [hInv.posesTold_of_idle hIdle, hAll]
    · rw [← hAll]
      exact hInv.describes_of_idle hIdle c
    · rw [hInv.task.hub, Hub.after_maps, hInv.task.log_of_idle hIdle,
        storedMaps_actionsOf c hInv.task.run, hAll]
      exact Option.or_none

/-- Of two scans the first is replaced in the mailbox; the loop is given the second. -/
theorem hub_maps_as_one_loop_two : ∃ p turns,
    (observed countingLib ⟨1, 1⟩ 5).exec (System.new, []) twoScansRead = some p ∧
      AtRest "a" p.1 ∧ (turns.map fun turn => turn.1.seq).getLast? = some 2 ∧
      posesFor "a" (posesTold p.1.task.hub.events) =
        ((slamOutputs countingLib ⟨1, 1⟩
          (slamFor "a" (twoScansRead.filterMap Sum.getLeft?) p.1) turns).filterMap
            SlamOutput.tracked?).map Prod.fst ∧
      ∀ r ∈ p.2, r.ImageOf "a" ((slamOutputs countingLib ⟨1, 1⟩
        (slamFor "a" (twoScansRead.filterMap Sum.getLeft?) p.1) turns).filterMap
          SlamOutput.map?) := by
  obtain ⟨p, hRun, hAtRest, hSeq⟩ : ∃ p,
      (observed countingLib ⟨1, 1⟩ 5).exec (System.new, []) twoScansRead = some p ∧
        AtRest "a" p.1 ∧
        ((scansReceived "a" (twoScansRead.filterMap Sum.getLeft?)).getLast?.map ScanFrame.seq) =
          some 2 := by
    refine ⟨_, rfl, ⟨⟨_, rfl⟩, ?_, _, List.mem_cons_self, ?_, ?_, _, rfl⟩, ?_⟩
    · rfl
    · rfl
    · rfl
    · rfl
  obtain ⟨turns, -, -, hImages, hRest⟩ :=
    hub_maps_as_one_loop countingLib ⟨1, 1⟩ 5 twoScansRead p.1 p.2 hRun "a"
  obtain ⟨hLast, hPoses, -⟩ := hRest hAtRest
  refine ⟨p, turns, hRun, hAtRest, ?_, hPoses, hImages⟩
  rw [← hSeq, ← hLast, ← List.getLast?_map, List.map_map]
  rfl

end OlivawHub
