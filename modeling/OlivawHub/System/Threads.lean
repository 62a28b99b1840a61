import OlivawHub.System.Core

/-!
# The system with its mailboxes

`system` takes the mailbox of a worker for a slot. Here each worker has a `Mailbox` of its own:
`submit` and the head of the worker's loop go one operation at a time, between any steps of the
others. The pipeline does nothing else while it is in a call of `submit`, and a worker nothing else
while it is at its mailbox.

The frame is in the slot of `system` from `replace` to `take`, so that every run is one of `system`
(`threads_refine_system`).
-/

namespace OlivawHub

open Foundations

/-- The system, a mailbox for each worker, and the call of `submit` the pipeline is in: the worker,
and the number of the call at its mailbox. -/
structure Threads (S T F : Type) where
  core : System S T F
  mailboxes : List Mailbox
  call : Option (Nat × Nat)

def Threads.new {S T F : Type} : Threads S T F := ⟨System.new, [], none⟩

inductive ThreadsStep (S T F : Type) where
  /-- A step of the system away from the mailboxes. -/
  | core (l : SystemStep S T F)
  /-- An operation on the mailbox of worker `i`. -/
  | mailbox (i : Nat) (m : MailboxStep)

variable {S T F : Type}

/-- The worker and the frame of a `submit`. -/
def HubOp.submit? : HubOp T F → Option (Nat × ScanFrame)
  | .submit i frame => some (i, frame)
  | _ => none

/-- The `submit` that is the next action of the pipeline. -/
def System.submitting (s : System S T F) : Option (Nat × ScanFrame) :=
  match s.task.prog with
  | .op o _ => o.submit?
  | .ret _ => none

/-- Worker `i` is at the head of its loop. -/
def System.atHead (s : System S T F) (i : Nat) : Bool :=
  s.workers[i]?.any fun w =>
    match w.phase with
    | .idle _ => true
    | _ => false

/-- The worker is neither in its critical section nor in `wait`. -/
def TakePhase.away (p : TakePhase) : Bool := !p.holds && !p.waits

/-- Whoever takes the step is not at a mailbox. -/
def Threads.away (s : Threads S T F) : SystemStep S T F → Bool
  | .act => s.call.isNone && s.core.submitting.isNone
  | .worker _ .take => false
  | .worker i _ => s.mailboxes[i]?.any fun mb => mb.worker.away
  | _ => s.call.isNone

variable [HubFloat F]

/-- What an operation on the mailbox `mb` of worker `i` is for the others, and the call of the
pipeline after it. -/
def Threads.sync (lib : SlamLib S F) (tuning : WorkerTuning) (n : Nat) (s : Threads S T F) (i : Nat)
    (mb : Mailbox) : MailboxStep → Option (System S T F × Option (Nat × Nat))
  | .call frame =>
      if s.call = none ∧ s.core.submitting = some (i, frame) then
        some (s.core, some (i, mb.calls.length))
      else none
  | .lock j => if s.call = some (i, j) then some (s.core, s.call) else none
  | .replace j =>
      if s.call = some (i, j) then
        ((system lib tuning n).step s.core .act).map fun core => (core, s.call)
      else none
  | .notifyOne j _ => if s.call = some (i, j) then some (s.core, s.call) else none
  | .unlock j => if s.call = some (i, j) then some (s.core, none) else none
  | .workerLock => if s.core.atHead i then some (s.core, s.call) else none
  | .take =>
      if mb.slot.isSome then
        ((system lib tuning n).step s.core (.worker i .take)).map fun core => (core, s.call)
      else some (s.core, s.call)
  | .check => some (s.core, s.call)
  | .wait => some (s.core, s.call)
  | .relock => some (s.core, s.call)
  | .workerUnlock => some (s.core, s.call)
  | .wake => some (s.core, s.call)

/-- One step of some thread. -/
def threads (lib : SlamLib S F) (tuning : WorkerTuning) (n : Nat) :
    Machine (Threads S T F) (ThreadsStep S T F) where
  step s
    | .core l =>
        if s.away l then
          ((system lib tuning n).step s.core l).map fun core => { s with
            core
            -- a new worker comes with a mailbox
            mailboxes := s.mailboxes ++
              List.replicate (core.workers.length - s.mailboxes.length) Mailbox.new }
        else none
    | .mailbox i m =>
        s.mailboxes[i]?.bind fun mb =>
          (mailbox.step mb m).bind fun mb' =>
            (s.sync lib tuning n i mb m).map fun p => ⟨p.1, s.mailboxes.set i mb', p.2⟩

/-- The step of `system` that a step is. -/
def Threads.coreSteps (s : Threads S T F) : ThreadsStep S T F → List (SystemStep S T F)
  | .core l => [l]
  | .mailbox _ (.replace _) => [.act]
  | .mailbox i .take =>
      if s.mailboxes[i]?.any fun mb => mb.slot.isSome then [.worker i .take] else []
  | .mailbox _ _ => []

variable {lib : SlamLib S F} {tuning : WorkerTuning} {n : Nat} {s s' : Threads S T F}

theorem threads_core {l : SystemStep S T F} :
    (threads lib tuning n).step s (.core l) = some s' ↔
      s.away l = true ∧ ∃ core, (system lib tuning n).step s.core l = some core ∧
        s' = ⟨core, s.mailboxes ++
          List.replicate (core.workers.length - s.mailboxes.length) Mailbox.new, s.call⟩ := by
  simp only [threads, Option.ite_none_right_eq_some, Option.map_eq_some_iff, @eq_comm _ s']

theorem threads_mailbox {i : Nat} {m : MailboxStep} :
    (threads lib tuning n).step s (.mailbox i m) = some s' ↔
      ∃ mb mb' core call, s.mailboxes[i]? = some mb ∧ mailbox.step mb m = some mb' ∧
        s.sync lib tuning n i mb m = some (core, call) ∧
          s' = ⟨core, s.mailboxes.set i mb', call⟩ := by
  simp only [threads, Option.bind_eq_some_iff, Option.map_eq_some_iff, Prod.exists]
  constructor
  · rintro ⟨mb, hmb, mb', hStep, core, call, hSync, rfl⟩
    exact ⟨mb, mb', core, call, hmb, hStep, hSync, rfl⟩
  · rintro ⟨mb, mb', core, call, hmb, hStep, hSync, rfl⟩
    exact ⟨mb, hmb, mb', hStep, core, call, hSync, rfl⟩

/-- For `system`, an operation on a mailbox is a step or nothing. -/
theorem Threads.coreSteps_run {l : ThreadsStep S T F}
    (h : (threads lib tuning n).step s l = some s') :
    (system lib tuning n).exec s.core (s.coreSteps l) = some s'.core := by
  cases l with
  | core l =>
      obtain ⟨-, core, hCore, rfl⟩ := threads_core.mp h
      simp only [coreSteps, Machine.exec_cons, hCore, Option.bind_some, Machine.exec_nil]
  | mailbox i m =>
      obtain ⟨mb, mb', core, call, hmb, -, hSync, rfl⟩ := threads_mailbox.mp h
      have hSame : s.coreSteps (.mailbox i m) = [] → core = s.core →
          (system lib tuning n).exec s.core (s.coreSteps (.mailbox i m)) = some core := by
        intro hNil hCore
        rw [hNil, hCore, Machine.exec_nil]
      cases m <;> simp only [sync, Option.ite_none_right_eq_some, Option.some.injEq, Prod.mk.injEq,
        Option.map_eq_some_iff] at hSync
      case replace j =>
        obtain ⟨-, core', hCore, rfl, -⟩ := hSync
        simp only [coreSteps, Machine.exec_cons, hCore, Option.bind_some, Machine.exec_nil]
      case take =>
        by_cases hSlot : mb.slot.isSome
        · rw [if_pos hSlot] at hSync
          obtain ⟨core', hCore, hEq⟩ := Option.map_eq_some_iff.mp hSync
          cases hEq
          simp only [coreSteps, hmb, Option.any_some, hSlot, if_true, Machine.exec_cons, hCore,
            Option.bind_some, Machine.exec_nil]
        · rw [if_neg hSlot] at hSync
          cases hSync
          simp only [coreSteps, hmb, Option.any_some, hSlot, Bool.false_eq_true, if_false,
            Machine.exec_nil]
      all_goals exact hSame rfl (by first | exact hSync.1.symm | exact hSync.2.1.symm)

/-- **Refinement.** Every run with mailboxes is a run of `system`. -/
theorem threads_refine_system {steps : List (ThreadsStep S T F)}
    (hRun : (threads lib tuning n).exec Threads.new steps = some s) :
    ∃ steps', (system lib tuning n).exec System.new steps' = some s.core :=
  ⟨_, Machine.exec_outputs (f := Threads.core) (fun _ _ _ h => Threads.coreSteps_run h) hRun⟩

/-! ## Mailboxes and slots -/

/-- The worker looks for a frame. -/
def TakePhase.seeks : TakePhase → Bool
  | .checking => true
  | .sawNone => true
  | .waiting => true
  | .sawSome => true
  | _ => false

/-- A step of some party at the mailbox `mb` of worker `i`. -/
inductive Threads.Turn (lib : SlamLib S F) (tuning : WorkerTuning) (n : Nat) (s : Threads S T F)
    (i : Nat) (mb mb' : Mailbox) : Threads S T F → Prop where
  | call {frame : ScanFrame} (hFree : s.call = none)
      (hNext : s.core.submitting = some (i, frame))
      (hCalls : mb'.calls = mb.calls ++ [⟨frame, .called⟩])
      (hSlot : mb'.slot = mb.slot) (hWorker : mb'.worker = mb.worker) :
      Turn lib tuning n s i mb mb' ⟨s.core, s.mailboxes.set i mb', some (i, mb.calls.length)⟩
  | submit {j : Nat} {frame : ScanFrame} {p q : SubmitPhase} (hCall : s.call = some (i, j))
      (hAt : mb.calls[j]? = some ⟨frame, p⟩) (hPhase : q.submits = p.submits)
      (hCalls : mb'.calls = mb.advance j frame q)
      (hSlot : mb'.slot = mb.slot) (hWorker : mb'.worker = mb.worker) :
      Turn lib tuning n s i mb mb'
        ⟨s.core, s.mailboxes.set i mb', if q = .returned then none else s.call⟩
  | replace {j : Nat} {frame : ScanFrame} {core : System S T F} (hCall : s.call = some (i, j))
      (hAt : mb.calls[j]? = some ⟨frame, .locked⟩)
      (hCalls : mb'.calls = mb.advance j frame .replaced)
      (hSlot : mb'.slot = some frame) (hWorker : mb'.worker = mb.worker)
      (hCore : (system lib tuning n).step s.core .act = some core) :
      Turn lib tuning n s i mb mb' ⟨core, s.mailboxes.set i mb', s.call⟩
  | worker (hCalls : mb'.calls = mb.calls) (hSlot : mb'.slot = mb.slot)
      (hSeeks : mb'.worker.seeks = true → mb.worker.seeks = true ∨ s.core.atHead i = true)
      (hTook : ∀ frame, mb'.worker = .took frame → mb.worker = .took frame) :
      Turn lib tuning n s i mb mb' ⟨s.core, s.mailboxes.set i mb', s.call⟩
  | take {frame : ScanFrame} {core : System S T F} (hSlot : mb.slot = some frame)
      (hCalls : mb'.calls = mb.calls) (hEmpty : mb'.slot = none)
      (hTook : mb'.worker = .took (some frame))
      (hCore : (system lib tuning n).step s.core (.worker i .take) = some core) :
      Turn lib tuning n s i mb mb' ⟨core, s.mailboxes.set i mb', s.call⟩

theorem Threads.turn_of_step {i : Nat} {m : MailboxStep}
    (h : (threads lib tuning n).step s (.mailbox i m) = some s')
    (hSound : ∀ mb, s.mailboxes[i]? = some mb → mb.Invariant) :
    ∃ mb mb', s.mailboxes[i]? = some mb ∧ mailbox.step mb m = some mb' ∧
      Turn lib tuning n s i mb mb' s' := by
  obtain ⟨mb, mb', core, call, hmb, hStep, hSync, rfl⟩ := threads_mailbox.mp h
  refine ⟨mb, mb', hmb, hStep, ?_⟩
  cases m with
  | call frame =>
      cases hStep
      simp only [sync, Option.ite_none_right_eq_some, Option.some.injEq, Prod.mk.injEq] at hSync
      obtain ⟨⟨hFree, hNext⟩, rfl, rfl⟩ := hSync
      exact .call hFree hNext rfl rfl rfl
  | lock j =>
      obtain ⟨frame, hFrame, hStep⟩ := exists_of_bind hStep
      obtain ⟨monitor, -, hStep⟩ := exists_of_bind hStep
      cases hStep
      simp only [sync, Option.ite_none_right_eq_some, Option.some.injEq, Prod.mk.injEq] at hSync
      obtain ⟨hCall, rfl, rfl⟩ := hSync
      exact .submit (q := .locked) hCall (Mailbox.frameAt_eq_some.mp hFrame) rfl rfl rfl rfl
  | replace j =>
      obtain ⟨frame, hFrame, hStep⟩ := exists_of_bind hStep
      cases hStep
      simp only [sync, Option.ite_none_right_eq_some, Option.map_eq_some_iff,
        Prod.mk.injEq] at hSync
      obtain ⟨hCall, core', hCore, rfl, rfl⟩ := hSync
      exact .replace hCall (Mailbox.frameAt_eq_some.mp hFrame) rfl rfl rfl hCore
  | notifyOne j pick =>
      obtain ⟨frame, hFrame, hStep⟩ := exists_of_bind hStep
      obtain ⟨monitor, -, hStep⟩ := exists_of_bind hStep
      cases hStep
      simp only [sync, Option.ite_none_right_eq_some, Option.some.injEq, Prod.mk.injEq] at hSync
      obtain ⟨hCall, rfl, rfl⟩ := hSync
      exact .submit (q := .notified) hCall (Mailbox.frameAt_eq_some.mp hFrame) rfl rfl rfl rfl
  | unlock j =>
      obtain ⟨frame, hFrame, hStep⟩ := exists_of_bind hStep
      obtain ⟨monitor, -, hStep⟩ := exists_of_bind hStep
      cases hStep
      simp only [sync, Option.ite_none_right_eq_some, Option.some.injEq, Prod.mk.injEq] at hSync
      obtain ⟨hCall, rfl, rfl⟩ := hSync
      exact .submit (q := .returned) hCall (Mailbox.frameAt_eq_some.mp hFrame) rfl rfl rfl rfl
  | take =>
      simp only [mailbox] at hStep
      split at hStep
      · rename_i hWorker
        obtain ⟨frame, hSlot⟩ := (hSound mb hmb).sawSome hWorker
        cases hStep
        simp only [sync, hSlot, Option.isSome_some, if_true, Option.map_eq_some_iff,
          Prod.mk.injEq] at hSync
        obtain ⟨core', hCore, rfl, rfl⟩ := hSync
        exact .take hSlot rfl rfl (congrArg _ hSlot) hCore
      · cases hStep
  | workerLock =>
      simp only [mailbox] at hStep
      split at hStep
      · obtain ⟨monitor, -, hStep⟩ := exists_of_bind hStep
        cases hStep
        simp only [sync, Option.ite_none_right_eq_some, Option.some.injEq, Prod.mk.injEq] at hSync
        obtain ⟨hHead, rfl, rfl⟩ := hSync
        exact .worker rfl rfl (fun _ => Or.inr hHead) fun _ h => by cases h
      · cases hStep
  | check =>
      cases hSync
      simp only [mailbox] at hStep
      split at hStep
      · rename_i hWorker
        cases hStep
        refine .worker rfl rfl (fun _ => Or.inl (by rw [hWorker]; rfl)) fun frame hFrame => ?_
        by_cases hNone : mb.slot.isNone <;> simp [hNone] at hFrame
      · cases hStep
  | wait =>
      cases hSync
      simp only [mailbox] at hStep
      split at hStep
      · rename_i hWorker
        obtain ⟨monitor, -, hStep⟩ := exists_of_bind hStep
        cases hStep
        exact .worker rfl rfl (fun _ => Or.inl (by rw [hWorker]; rfl)) fun _ h => by cases h
      · cases hStep
  | relock =>
      cases hSync
      simp only [mailbox] at hStep
      split at hStep
      · rename_i hWorker
        obtain ⟨monitor, -, hStep⟩ := exists_of_bind hStep
        cases hStep
        exact .worker rfl rfl (fun _ => Or.inl (by rw [hWorker]; rfl)) fun _ h => by cases h
      · cases hStep
  | workerUnlock =>
      cases hSync
      simp only [mailbox] at hStep
      split at hStep
      · obtain ⟨monitor, -, hStep⟩ := exists_of_bind hStep
        cases hStep
        exact .worker rfl rfl (fun h => by cases h) fun _ h => by cases h
      · cases hStep
  | wake =>
      obtain ⟨monitor, -, hStep⟩ := exists_of_bind hStep
      cases hStep
      cases hSync
      exact .worker rfl rfl Or.inl fun _ h => h

theorem Worker.step_slot {isOpen : Bool} {w w' : Worker S F} {k : WorkerStep S F}
    {output : Option (SlamOutput F)} (h : w.step lib tuning isOpen k = some (w', output))
    (hTake : k ≠ .take) : w'.slot = w.slot := by
  obtain ⟨car, slot, phase⟩ := w
  cases k with
  | start slam =>
      cases phase <;> cases slam <;> cases h <;> rfl
  | take => exact absurd rfl hTake
  | track matchMs =>
      cases phase <;> simp only [Worker.step, reduceCtorEq] at h
      split at h <;> cases h <;> rfl
  | render =>
      cases phase <;> simp only [Worker.step, reduceCtorEq] at h
      split at h
      · split at h <;> cases h <;> rfl
      · cases h
        rfl
  | send =>
      cases phase <;> simp only [Worker.step, reduceCtorEq] at h
      all_goals
        split at h <;> cases h <;> rfl

theorem Worker.step_take {isOpen : Bool} {w w' : Worker S F} {output : Option (SlamOutput F)}
    (h : w.step lib tuning isOpen .take = some (w', output)) :
    ∃ st frame, w.phase = .idle st ∧ w.slot = some frame ∧
      w' = { w with slot := none, phase := .matching st frame } := by
  obtain ⟨car, slot, phase⟩ := w
  cases phase <;> cases slot <;> simp only [Worker.step, reduceCtorEq] at h
  cases h
  exact ⟨_, _, rfl, rfl, rfl⟩

theorem TakePhase.outside_of_away {p : TakePhase} (h : p.away = true) : p = .outside := by
  cases p <;> first | rfl | cases h

theorem getElem?_grown {mailboxes : List Mailbox} {k i : Nat} {mb : Mailbox}
    (h : (mailboxes ++ List.replicate k Mailbox.new)[i]? = some mb) :
    mailboxes[i]? = some mb ∨ (mailboxes.length ≤ i ∧ mb = Mailbox.new) := by
  rcases Nat.lt_or_ge i mailboxes.length with hLt | hGe
  · rw [List.getElem?_append_left hLt] at h
    exact Or.inl h
  · rw [List.getElem?_append_right hGe] at h
    exact Or.inr ⟨hGe, List.eq_of_mem_replicate (List.mem_of_getElem? h)⟩

/-- How a worker stands to its mailbox. -/
structure Worker.Uses (w : Worker S F) (mb : Mailbox) : Prop where
  sound : mb.Invariant
  slot : w.slot = mb.slot
  seeks : mb.worker.seeks = true → ∃ st, w.phase = .idle st
  took : ∀ frame, mb.worker = .took (some frame) → ∃ st, w.phase = .matching st frame

omit [HubFloat F] in
theorem Worker.Uses.new (car : String) : (Worker.new car : Worker S F).Uses Mailbox.new where
  sound := .new
  slot := rfl
  seeks h := by cases h
  took frame h := by cases h

/-- A step away from the mailbox. -/
theorem Worker.Uses.away {w w' : Worker S F} {mb : Mailbox} (h : w.Uses mb) {isOpen : Bool}
    {i : Nat} {k : WorkerStep S F} {output : Option (SlamOutput F)}
    (hStep : w.step lib tuning isOpen k = some (w', output))
    (hAway : s.away (.worker i k : SystemStep S T F) = true) (hmb : s.mailboxes[i]? = some mb) :
    w'.Uses mb := by
  have hOutside : k ≠ .take ∧ mb.worker = .outside := by
    cases k <;> simp only [Threads.away, hmb, Option.any_some, Bool.false_eq_true] at hAway
    all_goals exact ⟨nofun, TakePhase.outside_of_away hAway⟩
  refine ⟨h.sound, (Worker.step_slot hStep hOutside.1).trans h.slot, ?_, ?_⟩
  · rw [hOutside.2]
    nofun
  · rw [hOutside.2]
    nofun

/-- What every run keeps. -/
structure Threads.Coupled (s : Threads S T F) : Prop where
  length : s.mailboxes.length = s.core.workers.length
  uses : ∀ (i : Nat) w mb, s.core.workers[i]? = some w → s.mailboxes[i]? = some mb → w.Uses mb
  /-- Until its frame is in the slot, the call is the next action of the pipeline. -/
  call : ∀ i j, s.call = some (i, j) → ∃ mb frame phase, s.mailboxes[i]? = some mb ∧
    mb.calls[j]? = some ⟨frame, phase⟩ ∧
      (phase.submits = false → s.core.submitting = some (i, frame))
  others : ∀ (i : Nat) mb (j : Nat) c, s.mailboxes[i]? = some mb → mb.calls[j]? = some c →
    s.call ≠ some (i, j) → c.phase = .returned
  ended : s.core.isOpen = false → s.core.task.Idle ∧ s.call = none

theorem System.submitting_eq {core : System S T F} {o : HubOp T F} {prog : HubProg T F (Locals F)}
    {hub : Hub T F} (h : core.task.prog.next (hubHandler T F) core.task.hub = some (o, prog, hub)) :
    core.submitting = o.submit? := by
  unfold submitting
  cases hProg : core.task.prog with
  | ret l =>
      rw [hProg] at h
      cases h
  | op o' k =>
      rw [hProg] at h
      cases h
      rfl

omit [HubFloat F] in
theorem System.atHead_iff {core : System S T F} {i : Nat} :
    core.atHead i = true ↔ ∃ w st, core.workers[i]? = some w ∧ w.phase = .idle st := by
  unfold atHead
  cases core.workers[i]? with
  | none => simp
  | some w =>
      obtain ⟨car, slot, phase⟩ := w
      cases phase <;> simp

section Core

variable {core core' : System S T F} {l : SystemStep S T F}

/-- The threads after a step that submits nothing. -/
theorem system_workers (h : (system lib tuning n).step core l = some core')
    (hSubmit : l = .act → core.submitting = none) :
    core.workers.length ≤ core'.workers.length ∧
    ∀ (i : Nat) w', core'.workers[i]? = some w' → core.workers[i]? = some w' ∨
      (i = core.workers.length ∧ ∃ car, w' = Worker.new car) ∨
      ∃ k w output, l = .worker i k ∧ core.workers[i]? = some w ∧
        w.step lib tuning core.isOpen k = some (w', output) := by
  rcases system_cases h with ⟨_, _, -, -, -, -, hWorkers, -⟩ |
    ⟨o, _, _, rfl, -, hNext, -, hWorkers, -⟩ | ⟨j, k, w, w', output, rfl, -, hw, hThread, -,
      hWorkers, -⟩ | ⟨-, -, -, hWorkers, -⟩
  · rw [hWorkers]
    exact ⟨Nat.le_refl _, fun _ _ hw => Or.inl hw⟩
  · have hNone : o.submit? = none := by rw [← System.submitting_eq hNext, hSubmit rfl]
    rw [hWorkers]
    cases o with
    | spawn car k =>
        refine ⟨by simp [spawnOrSubmit], fun i w' hw' => ?_⟩
        rw [spawnOrSubmit, getElem?_concat_eq_some] at hw'
        rcases hw' with hOld | ⟨rfl, rfl⟩
        · exact Or.inl hOld
        · exact Or.inr (Or.inl ⟨rfl, car, rfl⟩)
    | submit k frame => cases hNone
    | updateCar id f => exact ⟨Nat.le_refl _, fun _ _ hw => Or.inl hw⟩
    | insertMap id m => exact ⟨Nat.le_refl _, fun _ _ hw => Or.inl hw⟩
    | emit e => exact ⟨Nat.le_refl _, fun _ _ hw => Or.inl hw⟩
  · rw [hWorkers]
    refine ⟨by simp, fun i v hv => ?_⟩
    rw [List.getElem?_set] at hv
    by_cases hji : j = i
    · subst hji
      obtain ⟨hLt, -⟩ := List.getElem?_eq_some_iff.mp hw
      rw [if_pos rfl, if_pos hLt] at hv
      cases hv
      exact Or.inr (Or.inr ⟨k, w, output, rfl, hw, hThread⟩)
    · rw [if_neg hji] at hv
      exact Or.inl hv
  · rw [hWorkers]
    exact ⟨Nat.le_refl _, fun _ _ hw => Or.inl hw⟩

/-- The frame of a `submit` goes to its worker. -/
theorem system_submit {i : Nat} {frame : ScanFrame} (hNext : core.submitting = some (i, frame))
    (h : (system lib tuning n).step core .act = some core') :
    core'.isOpen = core.isOpen ∧
      core'.workers = core.workers.modify i fun w => w.submit frame := by
  rcases system_cases h with ⟨_, _, hSteps, -⟩ | ⟨o, _, _, -, hOpen, hProg, -, hWorkers, -⟩ |
    ⟨_, _, _, _, _, hLabel, -⟩ | ⟨hLabel, -⟩
  · cases hSteps
  · rw [System.submitting_eq hProg] at hNext
    cases o <;> cases hNext
    exact ⟨hOpen, hWorkers⟩
  · cases hLabel
  · cases hLabel

/-- A worker takes the frame in its slot. -/
theorem system_take {i : Nat} (h : (system lib tuning n).step core (.worker i .take) = some core') :
    ∃ w w', core.workers[i]? = some w ∧
      (∃ st frame, w.phase = .idle st ∧ w.slot = some frame ∧
        w' = { w with slot := none, phase := .matching st frame }) ∧
      core'.isOpen = core.isOpen ∧ core'.task = core.task ∧
        core'.workers = core.workers.set i w' := by
  rcases system_cases h with ⟨_, _, hSteps, -⟩ | ⟨_, _, _, hLabel, -⟩ |
    ⟨_, _, w, w', _, hLabel, hOpen, hw, hThread, hTask, hWorkers, -⟩ | ⟨hLabel, -⟩
  · cases hSteps
  · cases hLabel
  · cases hLabel
    exact ⟨w, w', hw, Worker.step_take hThread, hOpen, hTask, hWorkers⟩
  · cases hLabel

theorem submitting_worker {i : Nat} {k : WorkerStep S F}
    (h : (system lib tuning n).step core (.worker i k) = some core') :
    core'.submitting = core.submitting := by
  rcases system_cases h with ⟨_, _, hSteps, -⟩ | ⟨_, _, _, hLabel, -⟩ |
    ⟨_, _, _, _, _, -, -, -, -, hTask, -⟩ | ⟨hLabel, -⟩
  · cases hSteps
  · cases hLabel
  · rw [System.submitting, System.submitting, hTask]
  · cases hLabel

/-- After its end, the pipeline does nothing. -/
theorem system_of_ended (hEnded : core.isOpen = false) (hIdle : core.task.Idle)
    (h : (system lib tuning n).step core l = some core') :
    core'.isOpen = false ∧ core'.task = core.task ∧ (l = .stop ∨ ∃ i k, l = .worker i k) := by
  obtain ⟨locals, hRet⟩ := hIdle
  cases l with
  | event e now spawned => simp [system, hEnded] at h
  | slam => simp [system, hEnded] at h
  | tick visits => simp [system, hEnded] at h
  | act => simp [system, hRet, Prog.next] at h
  | worker i k =>
      rcases system_cases h with ⟨_, _, hSteps, -⟩ | ⟨_, _, _, hLabel, -⟩ |
        ⟨_, _, _, _, _, -, hOpen, -, -, hTask, -⟩ | ⟨hLabel, -⟩
      · cases hSteps
      · cases hLabel
      · exact ⟨hOpen.trans hEnded, hTask, Or.inr ⟨i, k, rfl⟩⟩
      · cases hLabel
  | stop =>
      rcases system_cases h with ⟨_, _, hSteps, -⟩ | ⟨_, _, _, hLabel, -⟩ |
        ⟨_, _, _, _, _, hLabel, -⟩ | ⟨-, hOpen, hTask, -⟩
      · cases hSteps
      · cases hLabel
      · cases hLabel
      · exact ⟨hOpen, hTask, Or.inl rfl⟩

/-- The pipeline ends between two passes. -/
theorem system_ends (hOpen : core.isOpen = true)
    (h : (system lib tuning n).step core l = some core') (hEnded : core'.isOpen = false) :
    l = .stop ∧ core'.task.Idle := by
  rcases system_cases h with ⟨_, _, -, hSame, -⟩ | ⟨_, _, _, -, hSame, -⟩ |
    ⟨_, _, _, _, _, -, hSame, -⟩ | ⟨rfl, -, hTask, -⟩
  · cases hOpen.symm.trans (hSame.symm.trans hEnded)
  · cases hOpen.symm.trans (hSame.symm.trans hEnded)
  · cases hOpen.symm.trans (hSame.symm.trans hEnded)
  · refine ⟨rfl, ?_⟩
    rw [hTask]
    simp only [system] at h
    split at h
    · rename_i locals hRet
      exact ⟨locals, hRet⟩
    · cases h

end Core

namespace Threads.Coupled

omit [HubFloat F] in
theorem new : Coupled (Threads.new : Threads S T F) where
  length := rfl
  uses i w mb hw := by cases hw
  call i j h := by cases h
  others i mb j c hmb := by cases hmb
  ended h := by cases h

variable {i : Nat} {mb mb' : Mailbox}

theorem core_step (h : Coupled s) {l : SystemStep S T F}
    (hStep : (threads lib tuning n).step s (.core l) = some s') : Coupled s' := by
  obtain ⟨hAway, core, hCore, rfl⟩ := threads_core.mp hStep
  have hSubmit : l = .act → s.core.submitting = none := by
    rintro rfl
    simp only [away, Bool.and_eq_true, Option.isNone_iff_eq_none] at hAway
    exact hAway.2
  have hPipeline : (∃ i k, l = .worker i k) ∨ s.call = none := by
    cases l <;> simp [away] at hAway ⊢ <;> simp [hAway]
  obtain ⟨hMore, hWorkers⟩ := system_workers hCore hSubmit
  have hLength := h.length
  refine ⟨?_, fun i w' mb hw' hmb => ?_, fun i j hCall => ?_, fun i mb j c hmb hc hOther => ?_,
    fun hEnded => ?_⟩
  · simp only [List.length_append, List.length_replicate]
    omega
  · rcases getElem?_grown hmb with hOld | ⟨hLe, rfl⟩
    · obtain ⟨hLt, -⟩ := List.getElem?_eq_some_iff.mp hOld
      rcases hWorkers i w' hw' with hw | ⟨hEq, -⟩ | ⟨k, w, output, rfl, hw, hThread⟩
      · exact h.uses i w' mb hw hOld
      · omega
      · exact (h.uses i w mb hw hOld).away hThread hAway hOld
    · rcases hWorkers i w' hw' with hw | ⟨-, car, rfl⟩ | ⟨k, w, output, -, hw, -⟩
      · obtain ⟨hLt, -⟩ := List.getElem?_eq_some_iff.mp hw
        omega
      · exact .new car
      · obtain ⟨hLt, -⟩ := List.getElem?_eq_some_iff.mp hw
        omega
  · obtain ⟨mb, frame, phase, hmb, hAt, hNext⟩ := h.call i j hCall
    obtain ⟨hLt, -⟩ := List.getElem?_eq_some_iff.mp hmb
    refine ⟨mb, frame, phase, by rw [List.getElem?_append_left hLt, hmb], hAt, fun hBefore => ?_⟩
    rcases hPipeline with ⟨k, step, rfl⟩ | hFree
    · rw [← hNext hBefore]
      exact submitting_worker hCore
    · cases hFree.symm.trans hCall
  · rcases getElem?_grown hmb with hOld | ⟨-, rfl⟩
    · exact h.others i mb j c hOld hc hOther
    · cases hc
  · cases hOpen : s.core.isOpen with
    | false =>
        obtain ⟨hIdle, hFree⟩ := h.ended hOpen
        obtain ⟨-, hTask, -⟩ := system_of_ended hOpen hIdle hCore
        exact ⟨hTask ▸ hIdle, hFree⟩
    | true =>
        obtain ⟨rfl, hIdle⟩ := system_ends hOpen hCore hEnded
        exact ⟨hIdle, hPipeline.resolve_left nofun⟩

omit [HubFloat F] in
theorem sound (h : Coupled s) (hmb : s.mailboxes[i]? = some mb) : mb.Invariant := by
  obtain ⟨hLt, -⟩ := List.getElem?_eq_some_iff.mp hmb
  rw [h.length] at hLt
  exact (h.uses i _ mb (List.getElem?_eq_getElem hLt) hmb).sound

omit [HubFloat F] in
/-- Only worker `i` and its mailbox change. -/
theorem uses_set (h : Coupled s) {workers : List (Worker S F)}
    (hOthers : ∀ j, j ≠ i → workers[j]? = s.core.workers[j]?)
    (hSelf : ∀ w, workers[i]? = some w → w.Uses mb') (j : Nat) (w : Worker S F) (mb : Mailbox)
    (hw : workers[j]? = some w) (hmb : (s.mailboxes.set i mb')[j]? = some mb) : w.Uses mb := by
  by_cases hj : j = i
  · subst hj
    rw [List.getElem?_set_self'] at hmb
    obtain ⟨_, -, hEq⟩ := Option.map_eq_some_iff.mp hmb
    exact hEq ▸ hSelf w hw
  · rw [List.getElem?_set_ne (Ne.symm hj)] at hmb
    rw [hOthers j hj] at hw
    exact h.uses j w mb hw hmb

omit [HubFloat F] in
/-- Only calls at mailbox `i` change. -/
theorem others_set (h : Coupled s) {call : Option (Nat × Nat)}
    (hCall : ∀ i' j, i' ≠ i → call ≠ some (i', j) → s.call ≠ some (i', j))
    (hSelf : ∀ (j : Nat) c, mb'.calls[j]? = some c → call ≠ some (i, j) → c.phase = .returned)
    (i' : Nat) (mb : Mailbox) (j : Nat) (c : SubmitCall)
    (hmb : (s.mailboxes.set i mb')[i']? = some mb) (hc : mb.calls[j]? = some c)
    (hOther : call ≠ some (i', j)) : c.phase = .returned := by
  by_cases hi : i' = i
  · subst hi
    rw [List.getElem?_set_self'] at hmb
    obtain ⟨_, -, hEq⟩ := Option.map_eq_some_iff.mp hmb
    subst hEq
    exact hSelf j c hc hOther
  · rw [List.getElem?_set_ne (Ne.symm hi)] at hmb
    exact h.others i' mb j c hmb hc (hCall i' j hi hOther)

omit [HubFloat F] in
/-- The call in progress at its mailbox. -/
theorem call_at (h : Coupled s) {j : Nat} (hCall : s.call = some (i, j))
    (hmb : s.mailboxes[i]? = some mb) {frame : ScanFrame} {phase : SubmitPhase}
    (hAt : mb.calls[j]? = some ⟨frame, phase⟩) (hBefore : phase.submits = false) :
    s.core.submitting = some (i, frame) := by
  obtain ⟨mb', frame', phase', hmb', hAt', hNext⟩ := h.call i j hCall
  cases hmb.symm.trans hmb'
  cases hAt.symm.trans hAt'
  exact hNext hBefore

omit [HubFloat F] in
/-- A step of the worker leaves the call where it is. -/
theorem call_set (h : Coupled s) (hmb : s.mailboxes[i]? = some mb) (hCalls : mb'.calls = mb.calls)
    {i' j : Nat} (hCall : s.call = some (i', j)) :
    ∃ m frame phase, (s.mailboxes.set i mb')[i']? = some m ∧ m.calls[j]? = some ⟨frame, phase⟩ ∧
      (phase.submits = false → s.core.submitting = some (i', frame)) := by
  obtain ⟨m, frame, phase, hm, hAt, hNext⟩ := h.call i' j hCall
  by_cases hi : i' = i
  · subst hi
    obtain ⟨hLt, -⟩ := List.getElem?_eq_some_iff.mp hmb
    cases hmb.symm.trans hm
    exact ⟨mb', frame, phase, List.getElem?_set_self hLt, hCalls ▸ hAt, hNext⟩
  · exact ⟨m, frame, phase, by rw [List.getElem?_set_ne (Ne.symm hi), hm], hAt, hNext⟩

theorem turn (h : Coupled s) (hmb : s.mailboxes[i]? = some mb) (hSound : mb'.Invariant)
    (hTurn : Turn lib tuning n s i mb mb' s') : Coupled s' := by
  obtain ⟨hLt, -⟩ := List.getElem?_eq_some_iff.mp hmb
  have hUses (w : Worker S F) (hw : s.core.workers[i]? = some w) : w.Uses mb := h.uses i w mb hw hmb
  have hLength : (s.mailboxes.set i mb').length = s.core.workers.length := by
    rw [List.length_set, h.length]
  cases hTurn with
  | @call frame hFree hNext hCalls hSlot hWorker =>
      refine ⟨hLength, h.uses_set (fun _ _ => rfl) fun w hw => ?_, fun i' j hCall => ?_, ?_, ?_⟩
      · have hw := hUses w hw
        exact ⟨hSound, hw.slot.trans hSlot.symm, hWorker ▸ hw.seeks, hWorker ▸ hw.took⟩
      · cases hCall
        exact ⟨mb', frame, .called, List.getElem?_set_self hLt, by simp [hCalls], fun _ => hNext⟩
      · refine h.others_set (fun _ _ _ _ hOld => nomatch hFree.symm.trans hOld)
          fun j c hc hOther => ?_
        rw [hCalls, getElem?_concat_eq_some] at hc
        rcases hc with hOld | ⟨rfl, -⟩
        · exact h.others i mb j c hmb hOld fun hCall => nomatch hFree.symm.trans hCall
        · exact absurd rfl hOther
      · intro hEnded
        obtain ⟨⟨locals, hRet⟩, -⟩ := h.ended hEnded
        simp [System.submitting, hRet] at hNext
  | @submit j frame p q hCall hAt hPhase hCalls hSlot hWorker =>
      have hKeep {i' j' : Nat} (hSome : (if q = .returned then none else s.call) = some (i', j')) :
          s.call = some (i', j') ∧ q ≠ .returned := by
        split at hSome
        · cases hSome
        · exact ⟨hSome, ‹_›⟩
      refine ⟨hLength, h.uses_set (fun _ _ => rfl) fun w hw => ?_, fun i' j' hSome => ?_, ?_, ?_⟩
      · have hw := hUses w hw
        exact ⟨hSound, hw.slot.trans hSlot.symm, hWorker ▸ hw.seeks, hWorker ▸ hw.took⟩
      · cases hCall.symm.trans (hKeep hSome).1
        refine ⟨mb', frame, q, List.getElem?_set_self hLt, ?_, fun hBefore => ?_⟩
        · rw [hCalls, Mailbox.getElem?_advance_self hAt]
        · exact h.call_at hCall hmb hAt (hPhase ▸ hBefore)
      · refine h.others_set (fun i' j' hi hOther hOld => ?_) fun j' c hc hOther => ?_
        · cases hCall.symm.trans hOld
          exact hi rfl
        · rw [hCalls] at hc
          by_cases hj : j' = j
          · subst hj
            rw [Mailbox.getElem?_advance_self hAt] at hc
            cases hc
            by_contra hNot
            exact hOther ((if_neg hNot).trans hCall)
          · rw [Mailbox.getElem?_advance_ne hj] at hc
            refine h.others i mb j' c hmb hc fun hOld => hj ?_
            cases hCall.symm.trans hOld
            rfl
      · intro hEnded
        cases (h.ended hEnded).2.symm.trans hCall
  | @replace j frame core hCall hAt hCalls hSlot hWorker hCore =>
      have hNext := h.call_at hCall hmb hAt rfl
      obtain ⟨hOpen, hWorkers⟩ := system_submit hNext hCore
      refine ⟨?_, h.uses_set (fun k hk => ?_) fun w hw => ?_, fun i' j' hSome => ?_, ?_, ?_⟩
      · rw [hWorkers, List.length_modify, hLength]
      · rw [hWorkers, List.getElem?_modify_ne _ _ (Ne.symm hk)]
      · rw [hWorkers, List.getElem?_modify_eq] at hw
        obtain ⟨v, hv, rfl⟩ := Option.map_eq_some_iff.mp hw
        have hv := hUses v hv
        exact ⟨hSound, hSlot.symm, hWorker ▸ hv.seeks, hWorker ▸ hv.took⟩
      · cases hCall.symm.trans hSome
        refine ⟨mb', frame, .replaced, List.getElem?_set_self hLt, ?_, nofun⟩
        rw [hCalls, Mailbox.getElem?_advance_self hAt]
      · refine h.others_set (fun _ _ _ hOther => hOther) fun j' c hc hOther => ?_
        have hj : j' ≠ j := fun hEq => hOther (hEq ▸ hCall)
        rw [hCalls, Mailbox.getElem?_advance_ne hj] at hc
        exact h.others i mb j' c hmb hc hOther
      · intro hEnded
        cases (h.ended (hOpen.symm.trans hEnded)).2.symm.trans hCall
  | worker hCalls hSlot hSeeks hTook =>
      refine ⟨hLength, h.uses_set (fun _ _ => rfl) fun w hw => ?_, fun i' j' hSome => ?_, ?_,
        h.ended⟩
      · have hUse := hUses w hw
        refine ⟨hSound, hUse.slot.trans hSlot.symm, fun hNow => ?_, fun frame hFrame => ?_⟩
        · rcases hSeeks hNow with hBefore | hHead
          · exact hUse.seeks hBefore
          · obtain ⟨v, st, hv, hIdle⟩ := System.atHead_iff.mp hHead
            cases hv.symm.trans hw
            exact ⟨st, hIdle⟩
        · exact hUse.took frame (hTook _ hFrame)
      · exact h.call_set hmb hCalls hSome
      · refine h.others_set (fun _ _ _ hOther => hOther) fun j' c hc hOther => ?_
        exact h.others i mb j' c hmb (hCalls ▸ hc) hOther
  | @take frame core hFull hCalls hEmpty hTook hCore =>
      obtain ⟨w, w', hw, ⟨st, frame', hIdle, hFrame, rfl⟩, hOpen, hTask, hWorkers⟩ :=
        system_take hCore
      have hSame : core.submitting = s.core.submitting := submitting_worker hCore
      have hOwn := (hUses w hw).slot.symm.trans hFrame
      cases hFull.symm.trans hOwn
      refine ⟨?_, h.uses_set (fun k hk => ?_) fun v hv => ?_, fun i' j' hSome => ?_, ?_, ?_⟩
      · rw [hWorkers, List.length_set, List.length_set, h.length]
      · rw [hWorkers, List.getElem?_set_ne (Ne.symm hk)]
      · obtain ⟨hLt', -⟩ := List.getElem?_eq_some_iff.mp hw
        rw [hWorkers, List.getElem?_set_self hLt'] at hv
        cases hv
        refine ⟨hSound, hEmpty.symm, ?_, fun f hf => ?_⟩
        · rw [hTook]
          nofun
        · cases hTook.symm.trans hf
          exact ⟨st, rfl⟩
      · rw [hSame]
        exact h.call_set hmb hCalls hSome
      · refine h.others_set (fun _ _ _ hOther => hOther) fun j' c hc hOther => ?_
        exact h.others i mb j' c hmb (hCalls ▸ hc) hOther
      · rw [hTask, hOpen]
        exact h.ended

theorem step (h : Coupled s) {l : ThreadsStep S T F}
    (hStep : (threads lib tuning n).step s l = some s') : Coupled s' := by
  cases l with
  | core l => exact h.core_step hStep
  | mailbox i m =>
      obtain ⟨mb, mb', hmb, hMailbox, hTurn⟩ := turn_of_step hStep fun _ => h.sound
      exact h.turn hmb ((h.sound hmb).move (Mailbox.step_move hMailbox)) hTurn

theorem of_run {steps : List (ThreadsStep S T F)}
    (hRun : (threads lib tuning n).exec Threads.new steps = some s) : Coupled s :=
  Machine.exec_invariant (fun _ _ _ h hStep => h.step hStep) new hRun

end Threads.Coupled

end OlivawHub
