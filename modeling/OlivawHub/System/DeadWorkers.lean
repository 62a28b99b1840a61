import OlivawHub.System.Core

/-!
# Workers that ended in an error

A worker thread returns when `Slam::new` fails or a map cannot be rendered, but its handle stays
in the table of the pipeline. A scan is handed to a running worker as long as no worker of its car
has failed, and only so long: once one has, its car never gets another
(`scans_reach_running_workers`).
-/

namespace OlivawHub

open Foundations

variable {S T F : Type} [HubFloat F]

/-- The step in which a worker ends in an error: `Slam::new` fails, or `from_grid` does. -/
def WorkerStep.fails (lib : SlamLib S F) (tuning : WorkerTuning) (w : Worker S F) :
    WorkerStep S F → Bool
  | .start slam => slam.isNone
  | .render =>
      match w.phase with
      | .sent st => mapDue tuning st &&
          match (renderMap lib st).2 with
          | .ok _ => false
          | .error _ => true
      | _ => false
  | _ => false

/-- The step is not one in which a worker of `c` ends in an error. -/
def NoFailure (lib : SlamLib S F) (tuning : WorkerTuning) (c : String) (s : System S T F) :
    SystemStep S T F → Prop
  | .worker i k => (s.workers[i]?.all fun w => w.car ≠ c || !k.fails lib tuning w) = true
  | _ => True

instance (lib : SlamLib S F) (tuning : WorkerTuning) (c : String) (s : System S T F) :
    (l : SystemStep S T F) → Decidable (NoFailure lib tuning c s l)
  | .worker i k => inferInstanceAs
      (Decidable ((s.workers[i]?.all fun w => w.car ≠ c || !k.fails lib tuning w) = true))
  | .event _ _ _ => isTrue trivial
  | .slam => isTrue trivial
  | .tick _ => isTrue trivial
  | .act => isTrue trivial
  | .stop => isTrue trivial

variable {lib : SlamLib S F} {tuning : WorkerTuning} {n : Nat} {s s' : System S T F}

/-- While the pipeline receives, a worker stops only in an error. -/
theorem Worker.fails_of_stopped {w w' : Worker S F} {k : WorkerStep S F}
    {out : Option (SlamOutput F)} (hStep : w.step lib tuning true k = some (w', out))
    (hStopped : w'.phase = .stopped) : k.fails lib tuning w = true := by
  obtain ⟨car, slot, phase⟩ := w
  cases k with
  | start slam =>
      cases phase <;> cases slam <;>
        simp only [Worker.step, reduceCtorEq, Option.some.injEq, Prod.mk.injEq] at hStep
      · rfl
      · obtain ⟨rfl, -⟩ := hStep
        cases hStopped
  | take =>
      cases phase <;> cases slot <;>
        simp only [Worker.step, reduceCtorEq, Option.some.injEq, Prod.mk.injEq] at hStep
      obtain ⟨rfl, -⟩ := hStep
      cases hStopped
  | track matchMs =>
      cases phase <;> simp only [Worker.step, reduceCtorEq] at hStep
      split at hStep <;> cases hStep <;> cases hStopped
  | render =>
      cases phase <;> simp only [Worker.step, reduceCtorEq] at hStep
      split at hStep
      · rename_i hDue
        split at hStep
        · cases hStep
          cases hStopped
        · rename_i e hRender
          simp [WorkerStep.fails, hDue, hRender]
      · cases hStep
        cases hStopped
  | send =>
      cases phase <;> simp only [Worker.step, reduceCtorEq] at hStep
      · cases hStep
        cases hStopped
      · cases hStep
        cases hStopped

/-- An error ends the worker. -/
theorem Worker.stopped_of_fails {w w' : Worker S F} {k : WorkerStep S F} {isOpen : Bool}
    {out : Option (SlamOutput F)} (hStep : w.step lib tuning isOpen k = some (w', out))
    (hFails : k.fails lib tuning w = true) : w'.phase = .stopped := by
  obtain ⟨car, slot, phase⟩ := w
  cases k with
  | start slam =>
      cases phase <;> cases slam <;>
        simp only [Worker.step, reduceCtorEq, Option.some.injEq, Prod.mk.injEq] at hStep
      · rw [← hStep.1]
      · cases hFails
  | render =>
      cases phase <;> simp only [Worker.step, reduceCtorEq] at hStep
      split at hStep
      · split at hStep
        · rename_i st' m hRender
          simp [WorkerStep.fails, hRender] at hFails
        · cases hStep
          rfl
      · rename_i hNotDue
        simp [WorkerStep.fails, hNotDue] at hFails
  | _ => cases hFails

/-- What a step does to the threads: one of them steps, or the pipeline performs an action, or
nothing. -/
theorem workers_cases {l : SystemStep S T F} (h : (system lib tuning n).step s l = some s') :
    (∃ i k w w' output, l = .worker i k ∧ s'.isOpen = s.isOpen ∧ s.workers[i]? = some w ∧
      w.step lib tuning s.isOpen k = some (w', output) ∧ s'.workers = s.workers.set i w') ∨
    ((∀ i k, l ≠ .worker i k) ∧ (s'.isOpen = true → s.isOpen = true) ∧
      (s'.workers = s.workers ∨ ∃ o : HubOp T F, s'.workers = spawnOrSubmit s.workers o)) := by
  rcases system_cases h with ⟨_, _, hSteps, hOpen, -, -, hWorkers, -⟩ |
    ⟨o, _, _, rfl, hOpen, -, -, hWorkers, -⟩ |
    ⟨i, k, w, w', output, hLabel, hOpen, hw, hThread, -, hWorkers, -⟩ |
    ⟨rfl, hOpen, -, hWorkers, -⟩
  · refine Or.inr ⟨?_, fun h => hOpen ▸ h, Or.inl hWorkers⟩
    rintro i k rfl
    cases hSteps
  · exact Or.inr ⟨by simp, fun h => hOpen ▸ h, Or.inr ⟨o, hWorkers⟩⟩
  · exact Or.inl ⟨i, k, w, w', output, hLabel, hOpen, hw, hThread, hWorkers⟩
  · exact Or.inr ⟨by simp, fun h => absurd (hOpen.symm.trans h) Bool.false_ne_true,
      Or.inl hWorkers⟩

omit [HubFloat F] in
/-- A thread after an action of the pipeline is new, or was there in the same phase. -/
theorem mem_spawnOrSubmit {workers : List (Worker S F)} {o : HubOp T F} {w' : Worker S F}
    (h : w' ∈ spawnOrSubmit workers o) :
    (∃ car, w' = Worker.new car) ∨ ∃ w ∈ workers, w'.car = w.car ∧ w'.phase = w.phase := by
  cases o with
  | spawn car k =>
      rcases List.mem_append.mp h with hOld | hNew
      · exact Or.inr ⟨w', hOld, rfl, rfl⟩
      · exact Or.inl ⟨car, List.mem_singleton.mp hNew⟩
  | submit k frame =>
      obtain ⟨i, hi⟩ := List.mem_iff_getElem?.mp h
      rw [spawnOrSubmit, List.getElem?_modify] at hi
      obtain ⟨w, hw, rfl⟩ := Option.map_eq_some_iff.mp hi
      refine Or.inr ⟨w, List.mem_of_getElem? hw, ?_⟩
      by_cases hk : k = i <;> simp [hk, Worker.submit]
  | updateCar id f => exact Or.inr ⟨w', h, rfl, rfl⟩
  | insertMap id m => exact Or.inr ⟨w', h, rfl, rfl⟩
  | emit e => exact Or.inr ⟨w', h, rfl, rfl⟩

/-- While the pipeline receives, the workers of `c` run. -/
def AllRunning (c : String) (s : System S T F) : Prop :=
  s.isOpen = true → ∀ w ∈ s.workers, w.car = c → w.phase ≠ .stopped

theorem AllRunning.step {c : String} {l : SystemStep S T F} (h : AllRunning c s)
    (hNoFailure : NoFailure lib tuning c s l) (hStep : (system lib tuning n).step s l = some s') :
    AllRunning c s' := by
  intro hOpen w' hMem hCar
  rcases workers_cases hStep with ⟨i, k, w, w'', output, rfl, hSame, hw, hThread, hWorkers⟩ |
    ⟨-, hBefore, hSame | ⟨o, hWorkers⟩⟩
  · rw [hSame] at hOpen
    rw [hOpen] at hThread
    rw [hWorkers] at hMem
    rcases List.mem_or_eq_of_mem_set hMem with hOld | rfl
    · exact h hOpen w' hOld hCar
    · intro hStopped
      have hFails := Worker.fails_of_stopped hThread hStopped
      rw [Worker.step_car hThread] at hCar
      simp [NoFailure, hw, hCar, hFails] at hNoFailure
  · rw [hSame] at hMem
    exact h (hBefore hOpen) w' hMem hCar
  · rw [hWorkers] at hMem
    rcases mem_spawnOrSubmit hMem with ⟨car, rfl⟩ | ⟨w, hOld, hSame, hPhase⟩
    · nofun
    · rw [hPhase]
      exact h (hBefore hOpen) w hOld (hSame.symm.trans hCar)

/-- The next action of the pipeline. -/
def System.next (s : System S T F) : Option (HubOp T F) :=
  (s.task.prog.next (hubHandler T F) s.task.hub).map Prod.fst

namespace System.Invariant

variable {steps : List (TaskStep T F)}

theorem next_trace (h : System.Invariant lib tuning n steps s) {o : HubOp T F}
    (hNext : s.next = some o) : ∃ rest, s.task.log ++ o :: rest = actionsOf n (inputsOf steps) := by
  obtain ⟨⟨o', prog, hub⟩, hProg, rfl⟩ := Option.map_eq_some_iff.mp hNext
  obtain ⟨hOps, -⟩ := Prog.ops_next hProg
  exact ⟨prog.ops (hubHandler T F) hub, by rw [← hOps]; exact h.task.trace⟩

/-- A frame is handed to a thread that was started. -/
theorem exists_of_submit (h : System.Invariant lib tuning n steps s) {i : Nat} {frame : ScanFrame}
    (hNext : s.next = some (.submit i frame)) : ∃ w, s.workers[i]? = some w := by
  obtain ⟨rest, hTrace⟩ := h.next_trace hNext
  have hSubmits := h.handles.submits
  rw [← hTrace, submitsOk_append, Nat.zero_add, ← h.cars, List.length_map] at hSubmits
  exact ⟨_, List.getElem?_eq_getElem hSubmits.2.1⟩

theorem next_ne_spawn (h : System.Invariant lib tuning n steps s) {i : Nat} {w : Worker S F}
    (hw : s.workers[i]? = some w) (k : Nat) : s.next ≠ some (.spawn w.car k) := by
  intro hNext
  obtain ⟨rest, hTrace⟩ := h.next_trace hNext
  refine h.not_spawned hTrace ?_
  rw [← h.cars]
  exact List.mem_map_of_mem (List.mem_of_getElem? hw)

end System.Invariant

/-- Worker `i`, of car `c`, has stopped. -/
def Dead (i : Nat) (c : String) (s : System S T F) : Prop :=
  ∃ w, s.workers[i]? = some w ∧ w.car = c ∧ w.phase = .stopped

theorem Worker.step_stopped {w : Worker S F} {isOpen : Bool} (h : w.phase = .stopped)
    (k : WorkerStep S F) : w.step lib tuning isOpen k = none := by
  obtain ⟨car, slot, phase⟩ := w
  subst h
  cases k <;> rfl

theorem Dead.step {i : Nat} {c : String} (h : Dead i c s) {l : SystemStep S T F}
    (hStep : (system lib tuning n).step s l = some s') : Dead i c s' := by
  obtain ⟨w, hw, hCar, hStopped⟩ := h
  rcases workers_cases hStep with ⟨j, k, v, v', output, rfl, -, hv, hThread, hWorkers⟩ |
    ⟨-, -, hSame | ⟨o, hWorkers⟩⟩
  · refine ⟨w, ?_, hCar, hStopped⟩
    by_cases hij : j = i
    · subst hij
      rw [hw, Option.some.injEq] at hv
      rw [← hv, Worker.step_stopped hStopped] at hThread
      cases hThread
    · rw [hWorkers, List.getElem?_set_ne hij, hw]
  · exact ⟨w, by rw [hSame, hw], hCar, hStopped⟩
  · cases o with
    | spawn car k =>
        obtain ⟨hLt, -⟩ := List.getElem?_eq_some_iff.mp hw
        exact ⟨w, by rw [hWorkers, spawnOrSubmit, List.getElem?_append_left hLt, hw], hCar,
          hStopped⟩
    | submit k frame =>
        refine ⟨if k = i then w.submit frame else w, ?_, ?_, ?_⟩
        · rw [hWorkers, spawnOrSubmit, List.getElem?_modify, hw]
          by_cases hk : k = i <;> simp [hk]
        · by_cases hk : k = i <;> simp [hk, Worker.submit, hCar]
        · by_cases hk : k = i <;> simp [hk, Worker.submit, hStopped]
    | updateCar id f => exact ⟨w, by rw [hWorkers, spawnOrSubmit, hw], hCar, hStopped⟩
    | insertMap id m => exact ⟨w, by rw [hWorkers, spawnOrSubmit, hw], hCar, hStopped⟩
    | emit e => exact ⟨w, by rw [hWorkers, spawnOrSubmit, hw], hCar, hStopped⟩

/-- A worker that ends in an error is dead. -/
theorem Dead.of_failure {c : String} {l : SystemStep S T F} (h : ¬NoFailure lib tuning c s l)
    (hStep : (system lib tuning n).step s l = some s') : ∃ i, Dead i c s' := by
  rcases workers_cases hStep with ⟨i, k, w, w', output, rfl, -, hw, hThread, hWorkers⟩ |
    ⟨hOther, -⟩
  · obtain ⟨hCar, hFails⟩ : w.car = c ∧ k.fails lib tuning w = true := by
      simpa [NoFailure, hw] using h
    obtain ⟨hLt, -⟩ := List.getElem?_eq_some_iff.mp hw
    refine ⟨i, w', ?_, (Worker.step_car hThread).trans hCar,
      Worker.stopped_of_fails hThread hFails⟩
    rw [hWorkers, List.getElem?_set_self hLt]
  · cases l with
    | worker i k => exact absurd rfl (hOther i k)
    | _ => exact absurd trivial h

theorem Dead.of_run {c : String} {steps : List (SystemStep S T F)}
    (hRun : (system lib tuning n).exec System.new steps = some s)
    (h : ¬(system lib tuning n).Meets (NoFailure lib tuning c) System.new steps) :
    ∃ i, Dead i c s := by
  refine Machine.exec_history (P := fun past s =>
    ¬(system lib tuning n).Meets (NoFailure lib tuning c) System.new past → ∃ i, Dead i c s)
    (fun hNot => absurd trivial hNot) ?_ hRun h
  intro past s l s' hPast ih hStep hNot
  by_cases hMeets : (system lib tuning n).Meets (NoFailure lib tuning c) System.new past
  · exact Dead.of_failure (fun hLast => hNot ((Machine.meets_concat hPast).mpr ⟨hMeets, hLast⟩))
      hStep
  · obtain ⟨i, hDead⟩ := ih hMeets
    exact ⟨i, hDead.step hStep⟩

/-- **Dead workers.** In every run the worker that a scan is handed to runs if and only if no worker
of that car has ended in an error. Once the worker of a car has stopped, it stays in its place:
whatever is handed to a worker of that car is handed to it, and no other is ever started. -/
theorem scans_reach_running_workers (lib : SlamLib S F) (tuning : WorkerTuning) (n : Nat)
    (steps : List (SystemStep S T F)) (s : System S T F)
    (hRun : (system lib tuning n).exec System.new steps = some s) :
    (s.isOpen = true → ∀ i frame, s.next = some (.submit i frame) →
      ∃ w, s.workers[i]? = some w ∧ (w.phase ≠ .stopped ↔
        (system lib tuning n).Meets (NoFailure lib tuning w.car) System.new steps)) ∧
    ∀ i c, Dead i c s → ∀ more t, (system lib tuning n).exec s more = some t →
      Dead i c t ∧ (∀ k, t.next ≠ some (.spawn c k)) ∧
        ∀ j w, t.workers[j]? = some w → w.car = c → j = i := by
  refine ⟨fun hOpen i frame hNext => ?_, fun i c hDead more t hMore => ?_⟩
  · have hInv := System.Invariant.of_run hRun
    obtain ⟨w, hw⟩ := hInv.exists_of_submit hNext
    refine ⟨w, hw, fun hRunning => ?_, fun hMeets => ?_⟩
    · by_contra hFailed
      obtain ⟨j, v, hv, hCar, hStopped⟩ := Dead.of_run hRun hFailed
      obtain rfl := hInv.car_unique hw hv hCar
      obtain rfl : w = v := Option.some.inj (hw.symm.trans hv)
      exact hRunning hStopped
    · have hAll : AllRunning w.car s :=
        Machine.exec_history_of_meets (P := fun _ s => AllRunning w.car s)
          (fun _ w hw => by cases hw) (fun _ _ _ _ _ hC h hStep => h.step hC hStep) hMeets hRun
      exact hAll hOpen w (List.mem_of_getElem? hw) rfl
  · have hStill := Machine.exec_invariant (P := Dead i c) (fun _ _ _ h hStep => h.step hStep)
      hDead hMore
    have hInv := System.Invariant.of_run (Machine.exec_trans hRun hMore)
    refine ⟨hStill, fun k => ?_, fun j w hw hCar => ?_⟩
    · obtain ⟨w, hw, rfl, -⟩ := hStill
      exact hInv.next_ne_spawn hw k
    · obtain ⟨v, hv, hSame, -⟩ := hStill
      exact hInv.car_unique hw hv (hSame.trans hCar.symm)

/-- Two scans of `a`, of which the first starts a worker whose `Slam::new` fails. -/
def deadWorkerSteps : List (SystemStep Nat Unit ℚ) :=
  [.event ⟨"a", 0, .scan ⟨1, 0, [⟨0, 0, 0⟩], 0⟩⟩ 0 true, .act, .act, .act, .act,
    .worker 0 (.start none), .event ⟨"a", 1, .scan ⟨2, 0, [⟨0, 0, 0⟩], 0⟩⟩ 0 true, .act, .act]

/-- The second scan is handed to the worker that has returned. -/
theorem scan_goes_to_dead_worker :
    ∃ s, (system countingLib ⟨1, 1⟩ 5).exec System.new deadWorkerSteps = some s ∧
      s.isOpen = true ∧ s.next = some (.submit 0 ⟨2, 0, [⟨0, 0, 0⟩], 0⟩) ∧ Dead 0 "a" s :=
  ⟨_, rfl, rfl, rfl, _, rfl, rfl, rfl⟩

theorem scans_reach_running_workers_two :
    ∃ s, (system countingLib ⟨1, 1⟩ 5).exec System.new (twoScans.take 8) = some s ∧
      s.next = some (.submit 0 ⟨2, 0, [⟨0, 0, 0⟩], 0⟩) ∧
      ∃ w, s.workers[0]? = some w ∧ w.phase ≠ .stopped := by
  obtain ⟨w, hw, hRuns⟩ := (scans_reach_running_workers countingLib ⟨1, 1⟩ 5 (twoScans.take 8) _
    rfl).1 rfl 0 ⟨2, 0, [⟨0, 0, 0⟩], 0⟩ rfl
  cases hw
  exact ⟨_, rfl, rfl, _, rfl, hRuns.mpr (by decide)⟩

end OlivawHub
