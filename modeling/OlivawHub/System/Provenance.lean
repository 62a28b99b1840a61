import OlivawHub.System.Core
import OlivawHub.Pipeline.Poses

/-!
# Where poses come from

Frames reach the matcher through a mailbox that keeps only the latest one, and poses come back
through a channel that all cars share. Still, for every car, what is stored in its snapshot and
what is broadcast are the poses of some of its scans, in the order in which these were received,
each from a scan of its own (`poses_stem_from_scans`).
-/

namespace OlivawHub

open Foundations

variable {S T F : Type}

/-- The scan of `c` the pipeline receives in a step. -/
def SystemStep.scanOf? (c : String) : SystemStep S T F → Option ScanFrame
  | .event e _ _ => if e.car = c then e.scan? else none
  | _ => none

/-- The scans of `c` the pipeline received, in order. -/
def scansReceived (c : String) (steps : List (SystemStep S T F)) : List ScanFrame :=
  steps.filterMap (SystemStep.scanOf? c)

/-- The poses of `c` among those of all cars. -/
def posesFor (c : String) (poses : List (String × PoseInfo F)) : List (PoseInfo F) :=
  poses.filterMap fun p => if p.1 = c then some p.2 else none

theorem posesFor_isPrefix {c : String} {poses poses' : List (String × PoseInfo F)}
    (h : poses <+: poses') : posesFor c poses <+: posesFor c poses' := h.filterMap _

variable [HubFloat F]

/-- The poses were computed from some of the frames, in order, each from one of its own, whose
sequence number it carries. -/
def StemFrom (lib : SlamLib S F) (tuning : WorkerTuning) (poses : List (PoseInfo F))
    (frames : List ScanFrame) : Prop :=
  ∃ used, used.Sublist frames ∧ List.Forall₂ (fun pose frame => pose.seq = frame.seq ∧
    ∃ scanWorld, TrackedFrom lib tuning frame (pose, scanWorld)) poses used

theorem StemFrom.of_isPrefix {lib : SlamLib S F} {tuning : WorkerTuning}
    {poses poses' : List (PoseInfo F)} {frames : List ScanFrame}
    (h : StemFrom lib tuning poses frames) (hPrefix : poses' <+: poses) :
    StemFrom lib tuning poses' frames := by
  obtain ⟨used, hSub, hUsed⟩ := h
  obtain ⟨rest, rfl⟩ := hPrefix
  refine ⟨used.take poses'.length, (List.take_sublist _ _).trans hSub, ?_⟩
  have hTake := List.forall₂_take poses'.length hUsed
  rwa [List.take_left] at hTake

/-! ## The trajectory -/

omit [HubFloat F] in
/-- The position a closure pushes. -/
def CarUpdate.pushed? : CarUpdate T F → Option (PoseInfo F)
  | .tracked pose _ _ => some pose
  | _ => none

/-- Pushing and cutting one by one is cutting once. -/
theorem trajectory_applyAll {n : Nat} (us : List (CarUpdate T F))
    (hLen : ∀ pose pts m, CarUpdate.tracked pose pts m ∈ us → m = n) (s : CarSnapshot T F)
    {l : List (F × F)} (h : s.trajectory = l.rtake n) :
    (s.applyAll us).trajectory =
      (l ++ (us.filterMap CarUpdate.pushed?).map PoseInfo.position).rtake n := by
  induction us generalizing s l with
  | nil => simpa using h
  | cons u us ih =>
      have hRest : ∀ pose pts m, CarUpdate.tracked pose pts m ∈ us → m = n :=
        fun pose pts m hm => hLen pose pts m (List.mem_cons_of_mem _ hm)
      rw [CarSnapshot.applyAll_cons]
      cases u with
      | tracked pose pts m =>
          obtain rfl := hLen pose pts m List.mem_cons_self
          have hPush : (CarUpdate.apply (.tracked pose pts m : CarUpdate T F) s).2.trajectory =
              (l ++ [pose.position]).rtake m := by
            rw [← pushTrajectory_rtake, ← h]
            rfl
          rw [ih hRest _ hPush]
          simp [CarUpdate.pushed?]
      | lastSeenMs _ => exact ih hRest _ h
      | status _ => exact ih hRest _ h
      | telemetry _ => exact ih hRest _ h
      | scansTotal => exact ih hRest _ h
      | scanHz _ => exact ih hRest _ h
      | map _ => exact ih hRest _ h

omit [HubFloat F] in
theorem pushed_carUpdates (c : String) (os : List (HubOp T F)) :
    (carUpdates c os).filterMap CarUpdate.pushed? = posesFor c (posesApplied os) := by
  rw [carUpdates, posesFor, posesApplied, List.filterMap_filterMap, List.filterMap_filterMap]
  congr 1
  funext o
  cases o with
  | updateCar id f => by_cases h : id = c <;> cases f <;> simp [HubOp.appliedPose?,
      CarUpdate.pushed?, h]
  | insertMap id m => rfl
  | emit e => rfl
  | spawn car w => rfl
  | submit w frame => rfl

theorem tracked_len {n : Nat} {inputs : List (Input T F)} {s : Pipeline T F}
    (hRun : (pipeline T F n).exec Pipeline.new inputs = some s) (c : String) :
    ∀ pose pts m, CarUpdate.tracked pose pts m ∈ carUpdates c (actionsOf n inputs) → m = n := by
  refine actionsOf_induction (P := fun os =>
    ∀ pose pts m, CarUpdate.tracked pose pts m ∈ carUpdates c os → m = n) (by simp) ?_ hRun
  intro os l i _ ih pose pts m hMem
  rw [carUpdates_append, List.mem_append] at hMem
  refine hMem.elim (ih pose pts m) fun hBody => ?_
  cases i with
  | event e now spawned =>
      rw [bodyOps, carUpdates_eventOps] at hBody
      split at hBody
      · cases hk : e.kind <;> simp [hk, EventKind.update] at hBody
      · cases hBody
  | slam car output =>
      rw [bodyOps, carUpdates_slamOps] at hBody
      split at hBody
      · cases output <;> simp [SlamOutput.update] at hBody
        exact hBody.2.2
      · cases hBody
  | tick visits =>
      obtain ⟨-, hz, hEq⟩ := carUpdates_visits c _ _ _ hBody
      cases hEq

/-! ## Runs -/

variable {lib : SlamLib S F} {tuning : WorkerTuning} {n : Nat} {s : System S T F}

theorem scansOf_taskStepsOf {steps : List (SystemStep S T F)}
    (hRun : (system lib tuning n).exec System.new steps = some s) (c : String) :
    scansOf c (inputsOf (taskStepsOf lib tuning n steps)) = scansReceived c steps := by
  refine Machine.exec_history (P := fun past _ =>
    scansOf c (inputsOf (taskStepsOf lib tuning n past)) = scansReceived c past) rfl ?_ hRun
  intro past s l s' hPast ih hStep
  rw [taskStepsOf, Machine.outputs_concat _ hPast, ← taskStepsOf, scansReceived,
    filterMap_concat_toList, ← scansReceived, ← ih, inputsOf, List.filterMap_append, ← inputsOf]
  cases l with
  | event e now spawned =>
      refine (scansOf_concat c _ _).trans ?_
      by_cases hCar : e.car = c <;> simp [Input.scanOf?, Input.eventOf?, SystemStep.scanOf?, hCar]
  | slam =>
      cases hQueue : s.queue with
      | nil => simp [System.taskSteps, hQueue, SystemStep.scanOf?]
      | cons entry queue =>
          simp only [System.taskSteps, hQueue]
          refine (scansOf_concat c _ _).trans ?_
          simp [Input.scanOf?, Input.eventOf?, SystemStep.scanOf?]
  | tick visits =>
      refine (scansOf_concat c _ _).trans ?_
      simp [Input.scanOf?, Input.eventOf?, SystemStep.scanOf?]
  | act => exact (congrArg (scansOf c) (List.append_nil _)).trans (List.append_nil _).symm
  | worker i k => simp [System.taskSteps, SystemStep.scanOf?]
  | stop => simp [System.taskSteps, SystemStep.scanOf?]

omit [HubFloat F] in
theorem posesFor_inputs (c : String) (inputs : List (Input T F)) :
    posesFor c (inputs.filterMap Input.pose?) =
      ((carLog c inputs).outputs.filterMap SlamOutput.tracked?).map Prod.fst := by
  rw [posesFor, carLog, List.filterMap_filterMap, List.filterMap_filterMap, List.map_filterMap]
  congr 1
  funext i
  rcases i with _ | ⟨car, output⟩ | _
  · simp [Input.pose?, Input.outputOf?]
  · cases output <;> by_cases h : car = c <;>
      simp [Input.pose?, Input.outputOf?, SlamOutput.tracked?, h]
  · rfl

/-- The `Tracked` outputs received for a car were computed from some of its scans, in order. -/
theorem System.Invariant.outputs_stem {steps : List (TaskStep T F)}
    (h : System.Invariant lib tuning n steps s) (c : String) :
    ∃ used, used.Sublist (scansOf c (inputsOf steps)) ∧
      List.Forall₂ (fun out frame => TrackedFrom lib tuning frame out)
        ((carLog c (inputsOf steps)).outputs.filterMap SlamOutput.tracked?) used := by
  by_cases hCar : c ∈ spawnedCars s.task.log
  · obtain ⟨i, hi⟩ := List.mem_iff_getElem?.mp hCar
    have hi' := hi
    rw [← h.cars, List.getElem?_map, Option.map_eq_some_iff] at hi'
    obtain ⟨w, hw, rfl⟩ := hi'
    obtain ⟨used, hUsed, hSub⟩ := (h.explains i w hw).tracked
    -- the frames submitted to this thread are scans of its car
    have hFrames : (framesTo i s.task.log).Sublist (scansOf w.car (inputsOf steps)) := by
      refine List.Sublist.trans ?_ (h.handles.frames w.car i (h.spawned_of_log hi))
      rw [← h.task.trace, framesTo_append]
      exact List.sublist_append_left _ _
    rw [List.append_assoc] at hSub
    rw [Worker.produced, sentFor, List.append_assoc, List.filterMap_append] at hUsed
    have hTake := List.forall₂_take
      ((carLog w.car (inputsOf steps)).outputs.filterMap SlamOutput.tracked?).length hUsed
    rw [List.take_left] at hTake
    exact ⟨_, ((List.take_sublist _ _).trans ((List.sublist_append_left _ _).trans hSub)).trans
      hFrames, hTake⟩
  · have hNone := h.unsent c hCar
    rw [sentFor, List.append_eq_nil_iff] at hNone
    rw [hNone.1]
    exact ⟨[], List.nil_sublist _, List.Forall₂.nil⟩

theorem System.Invariant.stemFrom {steps : List (TaskStep T F)}
    (h : System.Invariant lib tuning n steps s) (c : String) :
    StemFrom lib tuning (posesFor c (posesApplied s.task.log)) (scansOf c (inputsOf steps)) := by
  have hLog : posesApplied s.task.log <+: (inputsOf steps).filterMap Input.pose? := by
    rw [← posesApplied_actionsOf h.task.run, ← h.task.trace, posesApplied_append]
    exact List.prefix_append _ _
  refine StemFrom.of_isPrefix ?_ (posesFor_isPrefix hLog)
  rw [posesFor_inputs]
  obtain ⟨used, hSub, hUsed⟩ := h.outputs_stem c
  refine ⟨used, hSub, ?_⟩
  rw [List.forall₂_map_left_iff]
  exact hUsed.imp fun out frame hOut => ⟨hOut.spec.1, out.2, hOut⟩

/-- **Provenance.** In every state and for every car, both the poses whose positions were pushed
on the car's trajectory and those broadcast for it stem from the scans received from it; the
trajectory holds the last of these positions; and the event after each `Pose` is the `Scan` of
the same car with the sequence number of that pose's frame. -/
theorem poses_stem_from_scans (lib : SlamLib S F) (tuning : WorkerTuning) (n : Nat)
    (steps : List (SystemStep S T F)) (s : System S T F)
    (hRun : (system lib tuning n).exec System.new steps = some s) (c : String) :
    StemFrom lib tuning (posesFor c (posesApplied s.task.log)) (scansReceived c steps) ∧
      StemFrom lib tuning (posesFor c (posesTold s.task.hub.events)) (scansReceived c steps) ∧
      (s.task.hub.car c).trajectory =
        ((posesFor c (posesApplied s.task.log)).map PoseInfo.position).rtake n ∧
      ScanFollows s.task.hub.events := by
  have h := System.Invariant.of_run hRun
  have hTrace := h.task.trace
  have hStem := h.stemFrom c
  rw [scansOf_taskStepsOf hRun] at hStem
  refine ⟨hStem, hStem.of_isPrefix ?_, ?_, ?_⟩
  · rw [h.task.events]
    exact posesFor_isPrefix ((posesInOrder_actionsOf h.task.run).2 _ ⟨_, hTrace⟩)
  · rw [h.task.hub, Hub.after_car, Hub.car_new]
    have hNew : (CarSnapshot.new c : CarSnapshot T F).trajectory = [].rtake n := by
      rw [List.rtake_nil]
      rfl
    refine (trajectory_applyAll _ (fun pose pts m hMem => ?_) _ hNew).trans ?_
    · refine tracked_len h.task.run c pose pts m ?_
      rw [← hTrace, carUpdates_append]
      exact List.mem_append_left _ hMem
    · rw [List.nil_append, pushed_carUpdates]
  · rw [h.task.events]
    refine (scanFollows_actionsOf h.task.run).of_isPrefix ?_
    rw [← hTrace, emitted_append]
    exact List.prefix_append _ _

/-- The one pose of `twoScans` stems from its second scan. -/
theorem poses_stem_from_scans_two :
    ∃ s, (system countingLib ⟨1, 1⟩ 5).exec System.new twoScans = some s ∧
      (posesFor "a" (posesTold s.task.hub.events)).map PoseInfo.seq = [2] ∧
      StemFrom countingLib ⟨1, 1⟩ (posesFor "a" (posesApplied s.task.log))
        (scansReceived "a" twoScans) ∧
      StemFrom countingLib ⟨1, 1⟩ (posesFor "a" (posesTold s.task.hub.events))
        (scansReceived "a" twoScans) ∧
      (s.task.hub.car "a").trajectory =
        ((posesFor "a" (posesApplied s.task.log)).map PoseInfo.position).rtake 5 ∧
      ScanFollows s.task.hub.events :=
  ⟨_, rfl, rfl, poses_stem_from_scans countingLib ⟨1, 1⟩ 5 twoScans _ rfl "a"⟩

end OlivawHub
