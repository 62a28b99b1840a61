import OlivawHub.System.Threads

/-!
# Workers when the pipeline ends

A worker learns that the pipeline has ended from a send that fails. A worker that waits at an empty
mailbox has nothing to send, and nobody is left who could notify it: it never returns
(`Threads.Abandoned`). In a run where no worker gets there, each worker goes on until it returns
(`workers_stop_with_pipeline`).
-/

namespace OlivawHub

open Foundations

variable {S T F : Type}

/-- The worker is to look for a frame, and there is none. -/
def Worker.hungry (w : Worker S F) : Bool :=
  w.slot.isNone &&
    match w.phase with
    | .starting => true
    | .idle _ => true
    | _ => false

/-- The worker waits at the empty mailbox, and nothing has woken it. -/
def Mailbox.Blocked (mb : Mailbox) : Prop :=
  mb.slot = none ∧ mb.worker = .waiting ∧ .worker ∈ mb.monitor.blocked

/-- Worker `i` is blocked, and the pipeline has ended. -/
def Threads.Stuck (s : Threads S T F) (i : Nat) : Prop :=
  s.core.isOpen = false ∧ ∃ mb, s.mailboxes[i]? = some mb ∧ mb.Blocked

/-- A step of worker `i`; that it wakes up for no reason is none. -/
def ThreadsStep.ofWorker (i : Nat) : ThreadsStep S T F → Bool
  | .core (.worker j _) => i = j
  | .mailbox j m => i = j && m.ofWorker
  | _ => false

variable [HubFloat F]

/-- The step takes the worker back to its mailbox without a send: the scan is empty or rejected, or
no map is due. -/
def WorkerStep.skips (lib : SlamLib S F) (tuning : WorkerTuning) (w : Worker S F) :
    WorkerStep S F → Bool
  | .track _ =>
      match w.phase with
      | .matching st frame =>
          let cloud := frameCloud lib frame
          cloud.points.isEmpty || (lib.processScan st.slam cloud).1.isNone
      | _ => false
  | .render =>
      match w.phase with
      | .sent st => !mapDue tuning st
      | _ => false
  | _ => false

/-- The pipeline ends when no worker is hungry; and after its end no worker with an empty mailbox
goes back to it. -/
def System.KeepsFed (lib : SlamLib S F) (tuning : WorkerTuning) (core : System S T F) :
    SystemStep S T F → Prop
  | .stop => ∀ w ∈ core.workers, w.hungry = false
  | .worker i k => core.isOpen = true ∨
      ∀ w ∈ core.workers[i]?, w.slot.isSome = true ∨ k.skips lib tuning w = false
  | _ => True

/-- The condition; the mailboxes are not a part of it. -/
def Threads.KeepsFed (lib : SlamLib S F) (tuning : WorkerTuning) (s : Threads S T F) :
    ThreadsStep S T F → Prop
  | .core l => s.core.KeepsFed lib tuning l
  | .mailbox _ _ => True

instance (lib : SlamLib S F) (tuning : WorkerTuning) (core : System S T F) :
    (l : SystemStep S T F) → Decidable (core.KeepsFed lib tuning l)
  | .stop => inferInstanceAs (Decidable (∀ w ∈ core.workers, w.hungry = false))
  | .worker i k => inferInstanceAs (Decidable (core.isOpen = true ∨
      ∀ w ∈ core.workers[i]?, w.slot.isSome = true ∨ k.skips lib tuning w = false))
  | .event _ _ _ => isTrue trivial
  | .slam => isTrue trivial
  | .tick _ => isTrue trivial
  | .act => isTrue trivial

instance (lib : SlamLib S F) (tuning : WorkerTuning) (s : Threads S T F) :
    (l : ThreadsStep S T F) → Decidable (s.KeepsFed lib tuning l)
  | .core l => inferInstanceAs (Decidable (s.core.KeepsFed lib tuning l))
  | .mailbox _ _ => isTrue trivial

variable {lib : SlamLib S F} {tuning : WorkerTuning} {n : Nat} {s s' : Threads S T F}
  {core core' : System S T F}

/-- A step that leaves the pipeline ended: it ends, or has ended and a worker steps. -/
theorem system_closing (hIdle : core.isOpen = false → core.task.Idle) {l : SystemStep S T F}
    (h : (system lib tuning n).step core l = some core') (hEnded : core'.isOpen = false) :
    (l = .stop ∧ core'.task = core.task ∧ core'.workers = core.workers) ∨
    ∃ i k w w' output, l = .worker i k ∧ core.isOpen = false ∧ core.workers[i]? = some w ∧
      w.step lib tuning core.isOpen k = some (w', output) ∧ core'.task = core.task ∧
        core'.workers = core.workers.set i w' := by
  have hLabel : l = .stop ∨ (core.isOpen = false ∧ ∃ i k, l = .worker i k) := by
    cases hOpen : core.isOpen with
    | true => exact Or.inl (system_ends hOpen h hEnded).1
    | false =>
        obtain ⟨-, -, hStop | hWorker⟩ := system_of_ended hOpen (hIdle hOpen) h
        · exact Or.inl hStop
        · exact Or.inr ⟨rfl, hWorker⟩
  rcases system_cases h with ⟨_, _, hSteps, -⟩ | ⟨_, _, _, rfl, -⟩ |
    ⟨i, k, w, w', output, rfl, -, hw, hThread, hTask, hWorkers, -⟩ | ⟨hStop, -, hTask, hWorkers, -⟩
  · rcases hLabel with rfl | ⟨-, _, _, rfl⟩ <;> cases hSteps
  · rcases hLabel with hStop | ⟨-, _, _, hWorker⟩
    · cases hStop
    · cases hWorker
  · rcases hLabel with hStop | ⟨hOpen, -⟩
    · cases hStop
    · exact Or.inr ⟨i, k, w, w', output, rfl, hOpen, hw, hThread, hTask, hWorkers⟩
  · exact Or.inl ⟨hStop, hTask, hWorkers⟩

/-! ## Fed workers -/

omit [HubFloat F] in
theorem Worker.fed_of_slot {w : Worker S F} (h : w.slot.isSome = true) : w.hungry = false := by
  rw [hungry, Option.isNone_eq_false_iff.mpr h, Bool.false_and]

theorem trackFrame_isNone (lib : SlamLib S F) (tuning : WorkerTuning) (st : WorkerState S)
    (frame : ScanFrame) (matchMs : F) :
    (trackFrame lib tuning st frame matchMs).2.isNone =
      ((frameCloud lib frame).points.isEmpty ||
        (lib.processScan st.slam (frameCloud lib frame)).1.isNone) := by
  simp only [trackFrame]
  cases (frameCloud lib frame).points.isEmpty with
  | true => rfl
  | false =>
      rcases hScan : lib.processScan st.slam (frameCloud lib frame) with ⟨pose, slam⟩
      cases pose <;> rfl

/-- After the end, a worker gets hungry only in a step that takes it back to an empty mailbox. -/
theorem Worker.step_fed {w w' : Worker S F} {k : WorkerStep S F} {output : Option (SlamOutput F)}
    (h : w.step lib tuning false k = some (w', output)) (hFed : w.hungry = false)
    (hKeeps : w.slot.isSome = true ∨ k.skips lib tuning w = false) : w'.hungry = false := by
  by_cases hTake : k = .take
  · subst hTake
    obtain ⟨st, frame, -, -, rfl⟩ := step_take h
    rfl
  rcases hKeeps with hSlot | hSkips
  · exact fed_of_slot (by rw [step_slot h hTake, hSlot])
  obtain ⟨car, slot, phase⟩ := w
  cases k with
  | start slam =>
      cases phase <;> cases slam <;> cases h
      · simp [hungry]
      · cases slot
        · cases hFed
        · rfl
  | take => exact absurd rfl hTake
  | track matchMs =>
      cases phase <;> simp only [Worker.step, reduceCtorEq] at h
      rename_i st frame
      have hTracked := (trackFrame_isNone lib tuning st frame matchMs).trans hSkips
      split at h
      · cases h
        simp [hungry]
      · rename_i hNone
        rw [hNone] at hTracked
        cases hTracked
  | render =>
      cases phase <;> simp only [Worker.step, reduceCtorEq] at h
      simp only [WorkerStep.skips, Bool.not_eq_eq_eq_not, Bool.not_false] at hSkips
      rw [if_pos hSkips] at h
      split at h <;> cases h <;> simp [hungry]
  | send =>
      cases phase <;> simp only [Worker.step, reduceCtorEq] at h
      all_goals
        cases h
        simp [hungry]

/-- After the end of the pipeline, no worker is hungry. -/
def System.Fed (core : System S T F) : Prop :=
  core.isOpen = false → ∀ w ∈ core.workers, w.hungry = false

theorem System.Fed.step {l : SystemStep S T F} (h : core.Fed)
    (hIdle : core.isOpen = false → core.task.Idle) (hKeeps : core.KeepsFed lib tuning l)
    (hStep : (system lib tuning n).step core l = some core') : core'.Fed := by
  intro hEnded w' hMem
  rcases system_closing hIdle hStep hEnded with ⟨rfl, -, hWorkers⟩ |
    ⟨i, k, w, v, output, rfl, hOpen, hw, hThread, -, hWorkers⟩
  · rw [hWorkers] at hMem
    exact hKeeps w' hMem
  · rw [hOpen] at hThread
    rw [hWorkers] at hMem
    rcases List.mem_or_eq_of_mem_set hMem with hOld | rfl
    · exact h hOpen w' hOld
    · refine Worker.step_fed hThread (h hOpen w (List.mem_of_getElem? hw)) ?_
      rcases hKeeps with hStillOpen | hKeeps
      · cases hOpen.symm.trans hStillOpen
      · exact hKeeps w hw

/-- What a step does to the system: a step of its own that meets the condition, or nothing. -/
theorem Threads.Coupled.core_cases (h : s.Coupled) {l : ThreadsStep S T F}
    (hStep : (threads lib tuning n).step s l = some s') :
    s'.core = s.core ∨ ∃ l', (system lib tuning n).step s.core l' = some s'.core ∧
      (s.KeepsFed lib tuning l → s.core.KeepsFed lib tuning l') := by
  cases l with
  | core l =>
      obtain ⟨-, core, hCore, rfl⟩ := threads_core.mp hStep
      exact Or.inr ⟨l, hCore, id⟩
  | mailbox i m =>
      obtain ⟨mb, mb', -, -, hTurn⟩ := turn_of_step hStep fun _ => h.sound
      cases hTurn with
      | call => exact Or.inl rfl
      | submit => exact Or.inl rfl
      | replace _ _ _ _ _ hCore => exact Or.inr ⟨.act, hCore, fun _ => trivial⟩
      | worker => exact Or.inl rfl
      | take _ _ _ _ hCore => exact Or.inr ⟨_, hCore, fun _ => Or.inr fun _ _ => Or.inr rfl⟩

theorem Threads.fed_of_run {steps : List (ThreadsStep S T F)}
    (hMeets : (threads lib tuning n).Meets (Threads.KeepsFed lib tuning) Threads.new steps)
    (hRun : (threads lib tuning n).exec Threads.new steps = some s) : s.core.Fed := by
  refine Machine.exec_history_of_meets (P := fun _ s => s.core.Fed) nofun ?_ hMeets hRun
  intro past s l s' hPast hKeeps h hStep
  have hCoupled := Coupled.of_run hPast
  rcases hCoupled.core_cases hStep with hSame | ⟨l', hCore, hKeeps'⟩
  · rw [hSame]
    exact h
  · exact h.step (fun hEnded => (hCoupled.ended hEnded).1) (hKeeps' hKeeps) hCore

/-! ## Abandoned workers -/

/-- The pipeline has ended, and worker `i` is to look for a frame at an empty mailbox. -/
structure System.Abandoned (i : Nat) (core : System S T F) : Prop where
  ended : core.isOpen = false
  idle : core.task.Idle
  worker : ∃ w st, core.workers[i]? = some w ∧ w.slot = none ∧ w.phase = .idle st

/-- An abandoned worker is abandoned for ever. -/
theorem System.Abandoned.step {i : Nat} (h : core.Abandoned i) {l : SystemStep S T F}
    (hStep : (system lib tuning n).step core l = some core') : core'.Abandoned i := by
  obtain ⟨w, st, hw, hSlot, hPhase⟩ := h.worker
  obtain ⟨hEnded, -⟩ := system_of_ended h.ended h.idle hStep
  rcases system_closing (fun _ => h.idle) hStep hEnded with ⟨-, hTask, hWorkers⟩ |
    ⟨j, k, v, v', output, -, -, hv, hThread, hTask, hWorkers⟩
  · exact ⟨hEnded, hTask ▸ h.idle, w, st, hWorkers ▸ hw, hSlot, hPhase⟩
  · have hj : j ≠ i := by
      rintro rfl
      cases hw.symm.trans hv
      obtain ⟨car, slot, phase⟩ := w
      subst hSlot hPhase
      cases k <;> cases hThread
    refine ⟨hEnded, hTask ▸ h.idle, w, st, ?_, hSlot, hPhase⟩
    rw [hWorkers, List.getElem?_set_ne hj, hw]

theorem Threads.abandoned_of_run {i : Nat} {more : List (ThreadsStep S T F)} (hCoupled : s.Coupled)
    (h : s.core.Abandoned i) (hRun : (threads lib tuning n).exec s more = some s') :
    s'.Coupled ∧ s'.core.Abandoned i := by
  refine Machine.exec_invariant (P := fun s => s.Coupled ∧ s.core.Abandoned i) ?_
    ⟨hCoupled, h⟩ hRun
  rintro s l s' ⟨hCoupled, h⟩ hStep
  refine ⟨hCoupled.step hStep, ?_⟩
  rcases hCoupled.core_cases hStep with hSame | ⟨l', hCore, -⟩
  · exact hSame ▸ h
  · exact h.step hCore

/-- What the worker does to look for a frame and wait. -/
def MailboxStep.looks : MailboxStep → Bool
  | .workerLock => true
  | .check => true
  | .wait => true
  | .relock => true
  | _ => false

namespace Mailbox

variable {mb mb' : Mailbox}

/-- The worker gets there by looking. -/
def WillBlock (mb : Mailbox) : Prop :=
  ∃ steps mb', (∀ m ∈ steps, m.looks = true) ∧ mailbox.exec mb steps = some mb' ∧ mb'.Blocked

theorem WillBlock.look {m : MailboxStep} (hLooks : m.looks = true)
    (hStep : mailbox.step mb m = some mb') (h : mb'.WillBlock) : mb.WillBlock := by
  obtain ⟨steps, mb'', hSteps, hRun, hBlocked⟩ := h
  refine ⟨m :: steps, mb'', ?_, ?_, hBlocked⟩
  · intro m' hm'
    rcases List.mem_cons.mp hm' with rfl | hm'
    · exact hLooks
    · exact hSteps m' hm'
  · rw [Machine.exec_cons, hStep, Option.bind_some, hRun]

theorem willBlock_of_sawNone (hWorker : mb.worker = .sawNone) (hSlot : mb.slot = none)
    (hHeld : mb.monitor.holder = some .worker) : mb.WillBlock := by
  have hStep : mailbox.step mb .wait = some { mb with
      monitor := { mb.monitor with holder := none, blocked := .worker :: mb.monitor.blocked }
      worker := .waiting } := by
    simp only [mailbox, hWorker, Monitor.step_wait.mpr ⟨hHeld, rfl⟩]
    rfl
  exact .look rfl hStep ⟨[], _, by simp, rfl, hSlot, rfl, List.mem_cons_self⟩

theorem willBlock_of_checking (hWorker : mb.worker = .checking) (hSlot : mb.slot = none)
    (hHeld : mb.monitor.holder = some .worker) : mb.WillBlock := by
  have hStep : mailbox.step mb .check = some { mb with worker := .sawNone } := by
    simp only [mailbox, hWorker, hSlot, Option.isNone_none, if_true]
  exact .look rfl hStep (willBlock_of_sawNone rfl hSlot hHeld)

/-- At an empty mailbox, a worker gets to `wait` by its own steps. -/
theorem Invariant.willBlock (h : mb.Invariant) (hQuiet : mb.Quiet) (hSlot : mb.slot = none)
    (hTook : ∀ frame, mb.worker ≠ .took (some frame)) : mb.WillBlock := by
  have hFree := h.free_of_quiet hQuiet
  cases hWorker : mb.worker with
  | outside =>
      rw [hWorker] at hFree
      have hStep : mailbox.step mb .workerLock = some { mb with
          monitor := { mb.monitor with holder := some .worker }
          worker := .checking } := by
        simp only [mailbox, hWorker, Monitor.step_lock.mpr ⟨hFree rfl, rfl⟩]
        rfl
      exact .look rfl hStep (willBlock_of_checking rfl hSlot rfl)
  | checking =>
      exact willBlock_of_checking hWorker hSlot (h.holder_of_worker (by rw [hWorker]; rfl))
  | sawNone =>
      exact willBlock_of_sawNone hWorker hSlot (h.holder_of_worker (by rw [hWorker]; rfl))
  | waiting =>
      rw [hWorker] at hFree
      have hWaits := h.waits
      rw [hWorker] at hWaits
      have hMem : .worker ∈ mb.monitor.waiting := hWaits.mem_iff.mpr List.mem_cons_self
      rcases List.mem_append.mp hMem with hBlocked | hWoken
      · exact ⟨[], mb, by simp, rfl, hSlot, hWorker, hBlocked⟩
      · have hStep : mailbox.step mb .relock = some { mb with
            monitor := { mb.monitor with
              holder := some .worker
              woken := mb.monitor.woken.erase .worker }
            worker := .checking } := by
          simp only [mailbox, hWorker, Monitor.step_relock.mpr ⟨hFree rfl, hWoken, rfl⟩]
          rfl
        exact .look rfl hStep (willBlock_of_checking rfl hSlot rfl)
  | sawSome =>
      obtain ⟨frame, hFull⟩ := h.sawSome hWorker
      cases hSlot.symm.trans hFull
  | took frame =>
      obtain ⟨p, -, rfl⟩ := h.took frame hWorker
      exact absurd hWorker (hTook p.1)

end Mailbox

/-- A worker at the head of its loop looks for a frame while nobody else steps. -/
theorem Threads.exec_looks {i : Nat} {steps : List MailboxStep} {mb mb' : Mailbox}
    (hHead : s.core.atHead i = true) (hmb : s.mailboxes[i]? = some mb)
    (hLooks : ∀ m ∈ steps, m.looks = true) (hRun : mailbox.exec mb steps = some mb') :
    (threads lib tuning n).exec s (steps.map (.mailbox i)) =
      some { s with mailboxes := s.mailboxes.set i mb' } := by
  obtain ⟨hLt, -⟩ := List.getElem?_eq_some_iff.mp hmb
  induction steps generalizing s mb with
  | nil =>
      have hSame : s.mailboxes.set i mb = s.mailboxes := by
        rw [← (List.getElem?_eq_some_iff.mp hmb).2, List.set_getElem_self hLt]
      rw [← Option.some.inj hRun, hSame]
      rfl
  | cons m steps ih =>
      obtain ⟨mb₁, hStep, hRest⟩ := Machine.exec_cons_some hRun
      have hSync : s.sync lib tuning n i mb m = some (s.core, s.call) := by
        have hm := hLooks m List.mem_cons_self
        cases m <;> first | rfl | exact if_pos hHead | cases hm
      have hFirst : (threads lib tuning n).step s (.mailbox i m) =
          some { s with mailboxes := s.mailboxes.set i mb₁ } :=
        threads_mailbox.mpr ⟨mb, mb₁, _, _, hmb, hStep, hSync, rfl⟩
      have hLast := ih (s := { s with mailboxes := s.mailboxes.set i mb₁ }) hHead
        (List.getElem?_set_self hLt) (fun m hm => hLooks m (List.mem_cons_of_mem _ hm)) hRest
        (by simpa using hLt)
      rw [List.map_cons, Machine.exec_cons, hFirst, Option.bind_some, hLast, List.set_set]

/-! ## Progress -/

namespace Threads.Coupled

variable {i : Nat} {w : Worker S F} {mb : Mailbox}

omit [HubFloat F] in
theorem quiet_of_ended (h : s.Coupled) (hEnded : s.core.isOpen = false)
    (hmb : s.mailboxes[i]? = some mb) : mb.Quiet := by
  intro c hc
  obtain ⟨j, hj⟩ := List.mem_iff_getElem?.mp hc
  refine Or.inr (h.others i mb j c hmb hj fun hCall => ?_)
  cases (h.ended hEnded).2.symm.trans hCall

omit [HubFloat F] in
theorem exists_mailbox (h : s.Coupled) (hw : s.core.workers[i]? = some w) :
    ∃ mb, s.mailboxes[i]? = some mb ∧ w.Uses mb := by
  obtain ⟨hLt, -⟩ := List.getElem?_eq_some_iff.mp hw
  rw [← h.length] at hLt
  exact ⟨_, List.getElem?_eq_getElem hLt, h.uses i w _ hw (List.getElem?_eq_getElem hLt)⟩

/-- An abandoned worker gets stuck, if nothing else happens. -/
theorem stuck_of_abandoned (h : s.Coupled) (hAbandoned : s.core.Abandoned i) :
    ∃ more t, (threads lib tuning n).exec s more = some t ∧ t.Stuck i := by
  obtain ⟨w, st, hw, hSlot, hIdle⟩ := hAbandoned.worker
  obtain ⟨mb, hmb, hUses⟩ := h.exists_mailbox hw
  have hTook (frame : ScanFrame) : mb.worker ≠ .took (some frame) := by
    intro hTook
    obtain ⟨st', hMatching⟩ := hUses.took frame hTook
    cases hIdle.symm.trans hMatching
  obtain ⟨steps, mb', hLooks, hRun, hBlocked⟩ := hUses.sound.willBlock
    (h.quiet_of_ended hAbandoned.ended hmb) (hUses.slot.symm.trans hSlot) hTook
  have hHead : s.core.atHead i = true := System.atHead_iff.mpr ⟨w, st, hw, hIdle⟩
  obtain ⟨hLt, -⟩ := List.getElem?_eq_some_iff.mp hmb
  exact ⟨_, _, exec_looks hHead hmb hLooks hRun, hAbandoned.ended, mb', List.getElem?_set_self hLt,
    hBlocked⟩

omit [HubFloat F] in
/-- A stuck worker is abandoned. -/
theorem abandoned_of_stuck (h : s.Coupled) (hStuck : s.Stuck i) : s.core.Abandoned i := by
  obtain ⟨hEnded, mb, hmb, hSlot, hWaiting, -⟩ := hStuck
  obtain ⟨hLt, -⟩ := List.getElem?_eq_some_iff.mp hmb
  rw [h.length] at hLt
  have hUses := h.uses i _ mb (List.getElem?_eq_getElem hLt) hmb
  obtain ⟨st, hIdle⟩ := hUses.seeks (by rw [hWaiting]; rfl)
  exact ⟨hEnded, (h.ended hEnded).1, _, st, List.getElem?_eq_getElem hLt,
    hUses.slot.trans hSlot, hIdle⟩

theorem step_core {k : WorkerStep S F} (hw : s.core.workers[i]? = some w)
    (hAway : s.away (.worker i k : SystemStep S T F) = true)
    (hStep : (w.step lib tuning s.core.isOpen k).isSome = true) :
    ∃ l : ThreadsStep S T F, l.ofWorker i = true ∧
      ((threads lib tuning n).step s l).isSome = true := by
  obtain ⟨p, hp⟩ := Option.isSome_iff_exists.mp hStep
  refine ⟨.core (.worker i k), by simp [ThreadsStep.ofWorker], ?_⟩
  simp [threads, hAway, system, hw, hp]

theorem step_mailbox {m : MailboxStep} (hmb : s.mailboxes[i]? = some mb)
    (hOwn : m.ofWorker = true) (hStep : (mailbox.step mb m).isSome = true)
    (hSync : (s.sync lib tuning n i mb m).isSome = true) :
    ∃ l : ThreadsStep S T F, l.ofWorker i = true ∧
      ((threads lib tuning n).step s l).isSome = true := by
  obtain ⟨mb', hmb'⟩ := Option.isSome_iff_exists.mp hStep
  obtain ⟨p, hp⟩ := Option.isSome_iff_exists.mp hSync
  refine ⟨.mailbox i m, by simp [ThreadsStep.ofWorker, hOwn], ?_⟩
  simp [threads, hmb, hmb', hp]

/-- After the end, a worker that has not returned and is not hungry can take a step of its own. -/
theorem worker_steps (h : s.Coupled) (hEnded : s.core.isOpen = false)
    (hw : s.core.workers[i]? = some w) (hFed : w.hungry = false) (hRunning : w.phase ≠ .stopped) :
    ∃ l : ThreadsStep S T F, l.ofWorker i = true ∧
      ((threads lib tuning n).step s l).isSome = true := by
  obtain ⟨mb, hmb, hUses⟩ := h.exists_mailbox hw
  have hQuiet := h.quiet_of_ended hEnded hmb
  have hFree := hUses.sound.free_of_quiet hQuiet
  cases hWorker : mb.worker with
  | outside =>
      have hAway : mb.worker.away = true := by rw [hWorker]; rfl
      have hHere {k : WorkerStep S F} (hk : k ≠ .take) :
          s.away (.worker i k : SystemStep S T F) = true := by
        cases k <;> first | exact absurd rfl hk | simp [away, hmb, hAway]
      obtain ⟨car, slot, phase⟩ := w
      cases phase with
      | starting => exact step_core (k := .start none) hw (hHere (by simp)) rfl
      | idle st =>
          rw [hWorker] at hFree
          have hHead : s.core.atHead i = true := System.atHead_iff.mpr ⟨_, st, hw, rfl⟩
          refine step_mailbox (m := .workerLock) hmb rfl ?_ (by simp [sync, hHead])
          simp [mailbox, hWorker, Monitor.step, hFree rfl]
      | matching st frame =>
          refine step_core (k := .track ((0 : Nat) : F)) hw (hHere (by simp)) ?_
          simp only [Worker.step]
          split <;> rfl
      | tracked st pose scanWorld =>
          exact step_core (k := .send) hw (hHere (by simp)) (by simp [Worker.step, hEnded])
      | sent st =>
          refine step_core (k := .render) hw (hHere (by simp)) ?_
          simp only [Worker.step]
          split
          · split <;> rfl
          · rfl
      | publishing st m =>
          exact step_core (k := .send) hw (hHere (by simp)) (by simp [Worker.step, hEnded])
      | stopped => exact absurd rfl hRunning
  | checking => exact step_mailbox (m := .check) hmb rfl (by simp [mailbox, hWorker]) rfl
  | sawNone =>
      have hHeld := hUses.sound.holder_of_worker (by rw [hWorker]; rfl)
      refine step_mailbox (m := .wait) hmb rfl ?_ rfl
      simp [mailbox, hWorker, Monitor.step, hHeld]
  | waiting =>
      -- the slot is full, so the worker has been woken
      obtain ⟨st, hIdle⟩ := hUses.seeks (by rw [hWorker]; rfl)
      have hFull : mb.slot ≠ none := by
        intro hNone
        rw [Worker.hungry, hUses.slot, hNone, hIdle] at hFed
        cases hFed
      rw [hWorker] at hFree
      have hWoken : .worker ∈ mb.monitor.woken := by
        have hWaits := hUses.sound.waits
        rw [hWorker] at hWaits
        have hMem : .worker ∈ mb.monitor.waiting := hWaits.mem_iff.mpr List.mem_cons_self
        refine (List.mem_append.mp hMem).resolve_left fun hBlocked => hFull ?_
        exact hUses.sound.slot_of_blocked hQuiet hBlocked
      refine step_mailbox (m := .relock) hmb rfl ?_ rfl
      simp [mailbox, hWorker, Monitor.step, hFree rfl, hWoken]
  | sawSome =>
      obtain ⟨st, hIdle⟩ := hUses.seeks (by rw [hWorker]; rfl)
      obtain ⟨frame, hSlot⟩ := hUses.sound.sawSome hWorker
      refine step_mailbox (m := .take) hmb rfl (by simp [mailbox, hWorker]) ?_
      simp [sync, hSlot, system, hw, Worker.step, hIdle, hUses.slot]
  | took frame =>
      have hHeld := hUses.sound.holder_of_worker (by rw [hWorker]; rfl)
      refine step_mailbox (m := .workerUnlock) hmb rfl ?_ rfl
      simp [mailbox, hWorker, Monitor.step, hHeld]

/-- A stuck worker has no step of its own. -/
theorem no_step_of_stuck (h : s.Coupled) (hStuck : s.Stuck i) {l : ThreadsStep S T F}
    (hOwn : l.ofWorker i = true) : (threads lib tuning n).step s l = none := by
  obtain ⟨-, mb, hmb, -, hWaiting, hBlocked⟩ := hStuck
  have hWoken : .worker ∉ mb.monitor.woken := by
    have hWaits := (h.sound hmb).waits
    rw [hWaiting] at hWaits
    have hLength := hWaits.length_eq
    have hPos := List.length_pos_of_mem hBlocked
    intro hWoken
    have hPos' := List.length_pos_of_mem hWoken
    simp only [Monitor.waiting, List.length_append, TakePhase.waits, if_true,
      List.length_singleton] at hLength
    omega
  cases l with
  | core l =>
      cases l <;> simp only [ThreadsStep.ofWorker, Bool.false_eq_true, decide_eq_true_eq] at hOwn
      subst hOwn
      rename_i k
      have hAway : s.away (.worker i k : SystemStep S T F) = false := by
        cases k <;> first
          | rfl
          | simp [away, hmb, hWaiting, TakePhase.away, TakePhase.holds, TakePhase.waits]
      simp [threads, hAway]
  | mailbox j m =>
      simp only [ThreadsStep.ofWorker, Bool.and_eq_true, decide_eq_true_eq] at hOwn
      obtain ⟨rfl, hOwn⟩ := hOwn
      have hNone : mailbox.step mb m = none := by
        cases m <;> first
          | cases hOwn; done
          | simp [mailbox, hWaiting, Monitor.step, hWoken]
      simp [threads, hmb, hNone]

end Threads.Coupled

/-- **Shutdown.** In every run in which no worker goes to an empty mailbox when the pipeline has
ended, none gets stuck there, and each goes on until it returns. A worker that does go there is
there for ever, however the run continues, and some continuation leaves it blocked, with no step of
its own. -/
theorem workers_stop_with_pipeline (lib : SlamLib S F) (tuning : WorkerTuning) (n : Nat)
    (steps : List (ThreadsStep S T F)) (s : Threads S T F)
    (hRun : (threads lib tuning n).exec Threads.new steps = some s) :
    ((threads lib tuning n).Meets (Threads.KeepsFed lib tuning) Threads.new steps →
      (∀ i, ¬s.Stuck i) ∧
      (s.core.isOpen = false → ∀ i w, s.core.workers[i]? = some w → w.phase ≠ .stopped →
        ∃ l : ThreadsStep S T F, l.ofWorker i = true ∧
          ((threads lib tuning n).step s l).isSome = true)) ∧
    (∀ i, s.core.Abandoned i →
      (∀ more t, (threads lib tuning n).exec s more = some t → t.core.Abandoned i) ∧
      ∃ more t, (threads lib tuning n).exec s more = some t ∧ t.Stuck i) ∧
    ∀ i, s.Stuck i → s.core.Abandoned i ∧ ∀ l : ThreadsStep S T F, l.ofWorker i = true →
      (threads lib tuning n).step s l = none := by
  have hCoupled := Threads.Coupled.of_run hRun
  refine ⟨fun hMeets => ⟨fun i hStuck => ?_, fun hEnded i w hw hRunning => ?_⟩,
    fun i hAbandoned => ⟨fun more t hMore => ?_, hCoupled.stuck_of_abandoned hAbandoned⟩,
    fun i hStuck => ⟨hCoupled.abandoned_of_stuck hStuck, fun l hOwn =>
      hCoupled.no_step_of_stuck hStuck hOwn⟩⟩
  · obtain ⟨hEnded, -, w, st, hw, hSlot, hIdle⟩ := hCoupled.abandoned_of_stuck hStuck
    have hFed := Threads.fed_of_run hMeets hRun hEnded w (List.mem_of_getElem? hw)
    rw [Worker.hungry, hSlot, hIdle] at hFed
    cases hFed
  · have hFed := Threads.fed_of_run hMeets hRun hEnded w (List.mem_of_getElem? hw)
    exact hCoupled.worker_steps hEnded hw hFed hRunning
  · exact (Threads.abandoned_of_run hCoupled hAbandoned hMore).2

/-- The first scan of `a` is handed to a new worker, which takes it. -/
def scanTaken : List (ThreadsStep Nat Unit ℚ) :=
  [.core (.event ⟨"a", 0, .scan ⟨1, 0, [⟨0, 0, 0⟩], 0⟩⟩ 0 true), .core .act, .core .act, .core .act,
    .mailbox 0 (.call ⟨1, 0, [⟨0, 0, 0⟩], 0⟩), .mailbox 0 (.lock 0), .mailbox 0 (.replace 0),
    .mailbox 0 (.notifyOne 0 none), .mailbox 0 (.unlock 0), .core (.worker 0 (.start (some 0))),
    .mailbox 0 .workerLock, .mailbox 0 .check, .mailbox 0 .take, .mailbox 0 .workerUnlock]

/-- The worker sends its pose and its map and waits for the next scan; then the pipeline ends. -/
def endWhileWaiting : List (ThreadsStep Nat Unit ℚ) :=
  scanTaken ++ [.core (.worker 0 (.track 0)), .core (.worker 0 .send), .core (.worker 0 .render),
    .core (.worker 0 .send), .mailbox 0 .workerLock, .mailbox 0 .check, .mailbox 0 .wait,
    .core .stop]

theorem waiting_worker_stuck : ∃ s,
    (threads countingLib ⟨1, 1⟩ 5).exec Threads.new endWhileWaiting = some s ∧ s.Stuck 0 :=
  ⟨_, rfl, rfl, _, rfl, rfl, rfl, List.mem_cons_self⟩

/-- The pipeline ends while the worker matches; its next send fails, and it returns. -/
def endWhileMatching : List (ThreadsStep Nat Unit ℚ) :=
  scanTaken ++ [.core .stop, .core (.worker 0 (.track 0)), .core (.worker 0 .send)]

theorem workers_stop_matching : ∃ s,
    (threads countingLib ⟨1, 1⟩ 5).exec Threads.new endWhileMatching = some s ∧
      s.core.isOpen = false ∧ ∀ i, ¬s.Stuck i := by
  have hMeets : (threads countingLib ⟨1, 1⟩ 5).Meets (Threads.KeepsFed countingLib ⟨1, 1⟩)
      Threads.new endWhileMatching := by
    decide +kernel
  have hRun : ∃ s, (threads countingLib ⟨1, 1⟩ 5).exec Threads.new endWhileMatching = some s ∧
      s.core.isOpen = false := ⟨_, rfl, rfl⟩
  obtain ⟨s, hRun, hEnded⟩ := hRun
  exact ⟨s, hRun, hEnded, ((workers_stop_with_pipeline _ _ _ _ s hRun).1 hMeets).1⟩

end OlivawHub
