import OlivawHub.System.Whole

/-!
# What waits is served

`select!` of `run` receives car events and SLAM outputs in any order, with ticks between. While the
loop goes on, each of these passes and each of their actions shortens the work that waits, and as
long as some does one of them is possible (`hub_drains`). So the pipeline, left to itself, soon
stands still, and then every snapshot shows all that the sources have ever sent.
-/

namespace OlivawHub

open Foundations

variable {S T F : Type}

/-- The pipeline receives what waits, or goes on with a pass. -/
def WholeStep.Serves : WholeStep S T F → Prop
  | .receive _ _ => True
  | .slam => True
  | .act => True
  | _ => False

variable [HubFloat F]

/-- The actions left of the pass, those an event or a SLAM output in a channel can lead to, and one
step for receiving each. -/
def waiting (p : MainState T × System S T F) : Nat :=
  p.2.task.pending.length + 5 * p.1.channel.length + 4 * p.2.queue.length

/-- The pipeline is in its loop exactly as long as the channel has a receiver. -/
def InLoop (p : MainState T × System S T F) : Prop := p.1.looping = true ∧ p.2.isOpen = true

omit [HubFloat F] in
theorem length_workerOps (car : String) (spawned : Option Nat) (workers : Table String Nat)
    (frame : ScanFrame) :
    (workerOps car spawned workers frame : List (HubOp T F)).length ≤ 2 := by
  unfold workerOps
  split
  · exact Nat.le_succ 1
  · exact le_rfl
  · exact Nat.zero_le 2

theorem length_eventOps (hub : Hub T F) (l : Locals F) (e : CarEvent T) (spawned : Option Nat) :
    (eventOps hub l e spawned).length ≤ 4 := by
  rw [eventOps, List.length_cons]
  cases e.kind with
  | status s =>
      by_cases hSame : (hub.car e.car).status = s
      · simp [hSame]
      · simp [hSame]
  | telemetry t => simp
  | scan frame =>
      have hShort := length_workerOps (T := T) (F := F) e.car spawned l.workers frame
      rw [List.length_cons]
      omega

omit [HubFloat F] in
theorem length_slamOps (car : String) (output : SlamOutput F) (n : Nat) :
    (slamOps car output n : List (HubOp T F)).length = 3 := by
  cases output <;> rfl

variable {setup : Setup T} {lib : SlamLib S F} {tuning : WorkerTuning} {n : Nat}
  {p q : MainState T × System S T F} {w : WholeStep S T F}

/-- The actions of a pass wait from its beginning. -/
theorem pending_begin {t t' : Task T F} {i : Input T F}
    (hStep : (task T F n).step t (.begin i) = some t') :
    t.pending = [] ∧ ∃ l, t'.pending = bodyOps n t.hub l i := by
  obtain ⟨l, hRet, hEnabled, rfl⟩ := task_begin.mp hStep
  exact ⟨Task.pending_of_idle ⟨l, hRet⟩, l, (body_spec n hEnabled t.hub).1⟩

theorem system_event {t t' : System S T F} {e : CarEvent T} {now : F} {spawned : Bool} :
    (system lib tuning n).step t (.event e now spawned) = some t' ↔ t.isOpen = true ∧
      ∃ task', (task T F n).step t.task
          (.begin (.event e now (if spawned then some t.workers.length else none))) = some task' ∧
        { t with task := task' } = t' := by
  cases hOpen : t.isOpen <;> simp [system, hOpen]

theorem system_slam {t t' : System S T F} :
    (system lib tuning n).step t .slam = some t' ↔ t.isOpen = true ∧
      ∃ car output queue task', t.queue = (car, output) :: queue ∧
        (task T F n).step t.task (.begin (.slam car output)) = some task' ∧
        { t with task := task', queue } = t' := by
  cases hOpen : t.isOpen with
  | false => simp [system, hOpen]
  | true =>
      cases hQueue : t.queue with
      | nil => simp [system, hOpen, hQueue]
      | cons entry queue =>
          obtain ⟨car, output⟩ := entry
          simp [system, hOpen, hQueue]

theorem serves_step (hServes : w.Serves) (hStep : (whole setup lib tuning n).step p w = some q) :
    waiting q < waiting p ∧ (InLoop p → InLoop q) := by
  obtain ⟨⟨holds, sources, channel, looping⟩, t⟩ := p
  obtain ⟨m', t'⟩ := q
  obtain ⟨hMain, hSystem⟩ := Machine.together_step.mp hStep
  cases w with
  | receive now spawned =>
      cases channel with
      | nil => cases looping <;> cases hMain
      | cons e channel =>
          cases looping with
          | false => cases hMain
          | true =>
              cases hMain
              obtain ⟨t₁, hEvent, hLast⟩ := Machine.exec_cons_some hSystem
              cases hLast
              obtain ⟨-, task', hTask, rfl⟩ := system_event.mp hEvent
              obtain ⟨hIdle, locals, hPending⟩ := pending_begin hTask
              have hShort := length_eventOps t.task.hub locals e
                (if spawned then some t.workers.length else none)
              refine ⟨?_, fun hLoop => hLoop⟩
              simp only [waiting, hIdle, hPending, bodyOps, List.length_nil, List.length_cons]
              omega
  | slam =>
      cases hMain
      obtain ⟨t₁, hSlam, hLast⟩ := Machine.exec_cons_some hSystem
      cases hLast
      obtain ⟨-, car, output, queue, task', hQueue, hTask, rfl⟩ := system_slam.mp hSlam
      obtain ⟨hIdle, locals, hPending⟩ := pending_begin hTask
      have hLength := length_slamOps (T := T) car output n
      have hShorter : t.queue.length = queue.length + 1 := congrArg List.length hQueue
      refine ⟨?_, fun hLoop => hLoop⟩
      simp only [waiting, hIdle, hPending, hShorter, bodyOps, hLength, List.length_nil]
      omega
  | act =>
      cases hMain
      obtain ⟨t₁, hAct, hLast⟩ := Machine.exec_cons_some hSystem
      cases hLast
      obtain ⟨⟨o, prog, hub⟩, hNext, rfl⟩ := Option.map_eq_some_iff.mp hAct
      obtain ⟨hOps, -, -⟩ := Prog.ops_next hNext
      refine ⟨?_, fun hLoop => hLoop⟩
      simp only [waiting, Task.pending, hOps, List.length_cons]
      omega
  | _ => exact absurd hServes id

/-- In the loop, as long as anything waits, some of it can be served. -/
theorem exists_serves (hLoop : InLoop p) (hWaiting : waiting p ≠ 0) :
    ∃ w, w.Serves ∧ ((whole setup lib tuning n).step p w).isSome := by
  obtain ⟨⟨holds, sources, channel, looping⟩, ⟨⟨hub, prog, log⟩, workers, queue, isOpen⟩⟩ := p
  obtain ⟨hLooping, hOpen⟩ := hLoop
  cases hLooping
  cases hOpen
  cases prog with
  | op o k => exact ⟨.act, trivial, rfl⟩
  | ret l =>
      cases channel with
      | cons e channel => exact ⟨.receive 0.0 false, trivial, rfl⟩
      | nil =>
          cases queue with
          | cons entry queue => exact ⟨.slam, trivial, rfl⟩
          | nil => exact absurd rfl hWaiting

theorem serves_run {more : List (WholeStep S T F)} (hServes : ∀ w ∈ more, w.Serves)
    (hRun : (whole setup lib tuning n).exec p more = some q) :
    more.length + waiting q ≤ waiting p ∧ (InLoop p → InLoop q) := by
  induction more generalizing p with
  | nil =>
      cases Option.some.inj hRun
      exact ⟨by rw [List.length_nil, Nat.zero_add], fun hLoop => hLoop⟩
  | cons w more ih =>
      obtain ⟨p', hStep, hRest⟩ := Machine.exec_cons_some hRun
      obtain ⟨hLess, hFirst⟩ := serves_step (hServes w List.mem_cons_self) hStep
      obtain ⟨hLe, hThen⟩ := ih (fun v hv => hServes v (List.mem_cons_of_mem _ hv)) hRest
      rw [List.length_cons]
      exact ⟨by omega, fun hLoop => hThen (hFirst hLoop)⟩

/-! ## The loop -/

/-- `recv` returns `None`. -/
def MainStep.closes : MainStep T → Bool
  | .close => true
  | _ => false

/-- The receiver is dropped. -/
def SystemStep.stops : SystemStep S T F → Bool
  | .stop => true
  | _ => false

omit [HubFloat F] in
theorem main_looping {m m' : MainState T} {l : MainStep T}
    (h : (mainMachine setup).step m l = some m') : m'.looping = (m.looping && !l.closes) := by
  cases l with
  | send i e =>
      simp only [mainMachine] at h
      split at h
      · split at h
        · obtain ⟨_, -, rfl⟩ := Option.map_eq_some_iff.mp h
          exact (Bool.and_true _).symm
        · cases h
      · cases h
  | fail i =>
      simp only [mainMachine] at h
      split at h
      · split at h
        · cases h
        · cases h
          exact (Bool.and_true _).symm
      · cases h
  | finish i =>
      simp only [mainMachine] at h
      split at h
      · split at h
        · cases h
          exact (Bool.and_true _).symm
        · cases h
      · cases h
  | receive =>
      simp only [mainMachine] at h
      split at h
      · cases h
        exact (Bool.and_true _).symm
      · cases h
  | close =>
      simp only [mainMachine] at h
      split at h
      · cases h
        exact (Bool.and_false _).symm
      · cases h
  | «return» =>
      simp only [mainMachine] at h
      split at h
      · cases h
        exact (Bool.and_true _).symm
      · cases h

theorem system_isOpen {t t' : System S T F} {l : SystemStep S T F}
    (h : (system lib tuning n).step t l = some t') : t'.isOpen = (t.isOpen && !l.stops) := by
  have hSame : ∀ b, (b && !false) = b := Bool.and_true
  rcases system_cases h with ⟨i, _, hSteps, hOpen, -⟩ | ⟨_, _, _, rfl, hOpen, -⟩ |
    ⟨_, _, _, _, _, rfl, hOpen, -⟩ | ⟨rfl, hClosed, -⟩
  · cases l with
    | stop => cases hSteps
    | _ => exact hOpen.trans (hSame _).symm
  · exact hOpen.trans (hSame _).symm
  · exact hOpen.trans (hSame _).symm
  · exact hClosed.trans (Bool.and_false _).symm

omit [HubFloat F] in
theorem looping_of_exec {m m' : MainState T} {ls : List (MainStep T)}
    (h : (mainMachine setup).exec m ls = some m') :
    m'.looping = (m.looping && !ls.any MainStep.closes) := by
  induction ls generalizing m with
  | nil =>
      cases Option.some.inj h
      exact (Bool.and_true _).symm
  | cons l ls ih =>
      obtain ⟨m₁, hStep, hRest⟩ := Machine.exec_cons_some h
      rw [ih hRest, main_looping hStep, List.any_cons, Bool.not_or, Bool.and_assoc]

theorem isOpen_of_exec {t t' : System S T F} {ls : List (SystemStep S T F)}
    (h : (system lib tuning n).exec t ls = some t') :
    t'.isOpen = (t.isOpen && !ls.any SystemStep.stops) := by
  induction ls generalizing t with
  | nil =>
      cases Option.some.inj h
      exact (Bool.and_true _).symm
  | cons l ls ih =>
      obtain ⟨t₁, hStep, hRest⟩ := Machine.exec_cons_some h
      rw [ih hRest, system_isOpen hStep, List.any_cons, Bool.not_or, Bool.and_assoc]

/-- `recv` returns `None` and the loop is left at the same moment. -/
theorem inLoop_of_run {steps : List (WholeStep S T F)}
    (hRun : (whole setup lib tuning n).exec (setup.start, System.new) steps = some p)
    (hLoop : p.1.looping = true) : InLoop p := by
  have hSame : p.1.looping = p.2.isOpen := by
    refine Machine.exec_invariant (P := fun p => p.1.looping = p.2.isOpen) ?_ rfl hRun
    intro p w q ih hStep
    obtain ⟨hMain, hSystem⟩ := Machine.together_step.mp hStep
    have hBoth : w.main.any MainStep.closes = (w.system p.1).any SystemStep.stops := by
      cases w with
      | receive now spawned => cases hHead : p.1.channel.head? <;> simp [WholeStep.main,
          WholeStep.system, hHead, MainStep.closes, SystemStep.stops]
      | _ => rfl
    rw [looping_of_exec hMain, isOpen_of_exec hSystem, ih, hBoth]
  exact ⟨hLoop, hSame ▸ hLoop⟩

/-! ## Standing still -/

/-- Serving puts nothing into the channel. -/
theorem putIn_append_serves {steps more : List (WholeStep S T F)} (hServes : ∀ w ∈ more, w.Serves)
    (hRun : (whole setup lib tuning n).exec (setup.start, System.new) (steps ++ more) = some q) :
    putIn setup (sourceSteps (steps ++ more)) = putIn setup (sourceSteps steps) := by
  induction more using List.reverseRecOn generalizing q with
  | nil => rw [List.append_nil]
  | append_singleton more w ih =>
      rw [← List.append_assoc, Machine.exec_snoc] at hRun
      obtain ⟨p, hPast, hStep⟩ := Option.bind_eq_some_iff.mp hRun
      have hBefore := ih (fun v hv => hServes v (List.mem_append_left _ hv)) hPast
      have hMain : (mainMachine setup).exec setup.start (sourceSteps (steps ++ more)) =
          some p.1 := Machine.exec_fst hPast
      have hSteps : sourceSteps (steps ++ (more ++ [w])) =
          sourceSteps (steps ++ more) ++ w.main := by
        simp [sourceSteps]
      rw [hSteps, ← hBefore]
      have hw := hServes w List.mem_concat_self
      cases w with
      | receive now spawned =>
          rw [putIn, WholeStep.main, Machine.outputs_concat _ hMain]
          exact List.append_nil _
      | slam => exact congrArg (putIn setup) (List.append_nil _)
      | act => exact congrArg (putIn setup) (List.append_nil _)
      | _ => exact absurd hw id

/-- Nothing waits. -/
theorem idle_of_waiting (h : waiting p = 0) : p.2.task.Idle ∧ p.1.channel = [] := by
  have hChannel : p.1.channel.length = 0 := by
    unfold waiting at h
    omega
  have hPending : p.2.task.pending.length = 0 := by
    unfold waiting at h
    omega
  refine ⟨?_, List.length_eq_zero_iff.mp hChannel⟩
  obtain ⟨m, ⟨⟨hub, prog, log⟩, workers, queue, isOpen⟩⟩ := p
  cases prog with
  | ret l => exact ⟨l, rfl⟩
  | op o k => cases hPending

/-- What the events of a car that were put into the channel say of it is what its snapshot shows. -/
def ShowsAll (setup : Setup T) (steps : List (WholeStep S T F)) (hub : Hub T F) : Prop :=
  ∀ e ∈ (putIn setup (sourceSteps steps)).map Prod.snd, ∃ snap,
    hub.cars.lookup e.car = some snap ∧ snap.eventFields =
      fieldsAfter (((putIn setup (sourceSteps steps)).map Prod.snd).filter fun d => d.car = e.car)

/-- **Drained.** From any state that can be reached in which the loop goes on, let the pipeline go
on receiving and acting, in any order, while nothing else happens: it takes no more steps than there
is work waiting, it can take one as long as there is any, and then every snapshot shows what all
events say that any source has put into the channel. -/
theorem hub_drains (setup : Setup T) (lib : SlamLib S F) (tuning : WorkerTuning) (n : Nat)
    (steps more : List (WholeStep S T F)) (p q : MainState T × System S T F)
    (hRun : (whole setup lib tuning n).exec (setup.start, System.new) steps = some p)
    (hLoop : p.1.looping = true) (hServes : ∀ w ∈ more, w.Serves)
    (hMore : (whole setup lib tuning n).exec p more = some q) :
    more.length + waiting q ≤ waiting p ∧
      (waiting q ≠ 0 → ∃ w, w.Serves ∧ ((whole setup lib tuning n).step q w).isSome) ∧
      (waiting q = 0 → ShowsAll setup steps q.2.task.hub) := by
  obtain ⟨hLe, hStays⟩ := serves_run hServes hMore
  have hAll := Machine.exec_trans hRun hMore
  refine ⟨hLe, exists_serves (hStays (inLoop_of_run hRun hLoop)), fun hNothing => ?_⟩
  obtain ⟨⟨locals, hLocals⟩, hChannel⟩ := idle_of_waiting hNothing
  have hReceived : received setup lib tuning n (steps ++ more) =
      (putIn setup (sourceSteps steps)).map Prod.snd := by
    have hFifo := (Delivered.of_run (Machine.exec_fst hAll)).fifo
    rw [hChannel, List.append_nil] at hFifo
    rw [received_eq_takenIn hAll, ← putIn_append_serves hServes hAll]
    exact hFifo.symm
  have hPipeline := (System.Invariant.of_run (Machine.exec_snd hAll)).task.run
  rw [Task.completed_of_ret hLocals] at hPipeline
  intro e he
  rw [← hReceived] at he ⊢
  exact event_fields hPipeline he

theorem hub_drains_replay : ∃ p q,
    (whole replayAndSimulate countingLib ⟨1, 1⟩ 5).exec (replayAndSimulate.start, System.new)
        (replayAndSimulateSteps.take 7) = some p ∧ p.1.channel.length = 2 ∧
      (whole replayAndSimulate countingLib ⟨1, 1⟩ 5).exec p
        [.receive 0 true, .act, .act, .act, .act, .receive 1 false, .act, .act, .act] = some q ∧
      waiting p = 10 ∧ waiting q = 0 ∧
      ShowsAll replayAndSimulate (replayAndSimulateSteps.take 7) q.2.task.hub :=
  have h := hub_drains replayAndSimulate countingLib ⟨1, 1⟩ 5 (replayAndSimulateSteps.take 7)
    [.receive 0 true, .act, .act, .act, .act, .receive 1 false, .act, .act, .act] _ _ rfl rfl
    (by simp [WholeStep.Serves]) rfl
  ⟨_, _, rfl, rfl, rfl, rfl, rfl, h.2.2 rfl⟩

end OlivawHub
