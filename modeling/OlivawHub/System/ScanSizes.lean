import OlivawHub.System.Provenance
import OlivawHub.Slam.Decimate

/-!
# How many points a `Scan` event carries

The points of every broadcast `Scan` are a decimated scan of its car
(`System.Invariant.scan_stems`), so their number is what `decimate` lets through.
-/

namespace OlivawHub

open Foundations

variable {S T F : Type} [HubFloat F]

/-- Every broadcast scan came with a `Tracked` output. -/
theorem scan_of_run {n : Nat} {inputs : List (Input T F)} {s : Pipeline T F}
    (hRun : (pipeline T F n).exec Pipeline.new inputs = some s) {c : String} {seq : UInt32}
    {points : List (F × F)} (h : .emit (.scan c seq points) ∈ actionsOf n inputs) :
    ∃ pose, .slam c (.tracked pose points) ∈ inputs := by
  refine Machine.exec_history (P := fun past _ => .emit (.scan c seq points) ∈ actionsOf n past →
    ∃ pose, .slam c (.tracked pose points) ∈ past) (by simp [actionsOf, Machine.outputs]) ?_ hRun h
  intro past s i s' hPast ih hStep hMem
  rw [actionsOf_concat hPast, List.mem_append] at hMem
  rcases hMem with hOld | hNew
  · obtain ⟨pose, hPose⟩ := ih hOld
    exact ⟨pose, List.mem_append_left _ hPose⟩
  · cases i with
    | event e now spawned =>
        rcases mem_eventOps hNew with h | h | ⟨_, h⟩ | ⟨_, h⟩ | ⟨_, h⟩ | ⟨_, _, h⟩ <;> cases h
    | slam car output =>
        cases output with
        | tracked pose scanWorld =>
            simp only [bodyOps, slamOps, List.mem_cons, List.not_mem_nil, or_false] at hNew
            rcases hNew with h | h | h <;> cases h
            exact ⟨pose, by simp⟩
        | map snapshot =>
            simp only [bodyOps, slamOps, List.mem_cons, List.not_mem_nil, or_false] at hNew
            rcases hNew with h | h | h <;> cases h
    | tick visits =>
        obtain ⟨_, _, -, h | ⟨_, h⟩⟩ := mem_visits hNew <;> cases h

variable {lib : SlamLib S F} {tuning : WorkerTuning} {n : Nat} {s : System S T F}

theorem System.Invariant.scan_stems {steps : List (TaskStep T F)}
    (h : System.Invariant lib tuning n steps s) {c : String} {seq : UInt32}
    {points : List (F × F)} (hMem : .scan c seq points ∈ s.task.hub.events) :
    ∃ frame ∈ scansOf c (inputsOf steps), ∃ pose, TrackedFrom lib tuning frame (pose, points) := by
  have hEmitted : .emit (.scan c seq points) ∈ actionsOf n (inputsOf steps) := by
    rw [h.task.events] at hMem
    rw [← h.task.trace]
    exact List.mem_append_left _ (mem_emitted.mp hMem)
  obtain ⟨pose, hPose⟩ := scan_of_run h.task.run hEmitted
  obtain ⟨used, hSub, hUsed⟩ := h.outputs_stem c
  have hOutput : (pose, points) ∈
      (carLog c (inputsOf steps)).outputs.filterMap SlamOutput.tracked? := by
    refine List.mem_filterMap.mpr ⟨.tracked pose points, ?_, rfl⟩
    exact List.mem_filterMap.mpr ⟨_, hPose, by simp [Input.outputOf?]⟩
  obtain ⟨frame, hFrame, hTracked⟩ := exists_of_mem_forall₂ hUsed hOutput
  exact ⟨frame, hSub.subset hFrame, pose, hTracked⟩

/-- `out` are the images of the points at the multiples of one step, no more than `cap` of them,
and of all points where there are no more than `cap`. -/
def KeepsCap (lib : SlamLib S F) (points : List (Point2 F)) (pose : Pose2 F) (cap : Nat)
    (out : List (F × F)) : Prop :=
  out.length ≤ cap ∧
    (∃ step : Nat, 1 ≤ step ∧ ∀ i : Nat, out[i]? = (points[i * step]?).map (mapPoint lib pose)) ∧
    (points.length ≤ cap → out = points.map (mapPoint lib pose))

/-- So many points are left whole by the cap, or divide into as many equal parts as it allows. -/
def Divides (cap len : Nat) : Prop := len ≤ cap ∨ cap ∣ len

/-- `decimate` respects its cap just for the lists whose length the cap divides; if it divides the
sizes of all clouds of a run, no `Scan` of the run carries more points than the cap. -/
theorem decimate_keeps_cap_iff (lib : SlamLib S F) :
    (∀ points pose cap, 1 ≤ cap →
      (KeepsCap lib points pose cap (decimate lib points pose cap) ↔
        Divides cap points.length)) ∧
    ∀ (tuning : WorkerTuning) (n : Nat) (steps : List (SystemStep S T F)) (s : System S T F),
      (system lib tuning n).exec System.new steps = some s → 1 ≤ tuning.wsScanPoints →
      (∀ c, ∀ frame ∈ scansReceived c steps,
        Divides tuning.wsScanPoints (frameCloud lib frame).points.length) →
      ∀ c seq points, .scan c seq points ∈ s.task.hub.events →
        points.length ≤ tuning.wsScanPoints := by
  refine ⟨fun points pose cap hCap => ⟨fun h => (length_decimate_le_iff lib hCap).mp h.1,
    fun h => ⟨(length_decimate_le_iff lib hCap).mpr h, ⟨_, decimateStep_pos _ _,
      getElem?_decimate lib points pose cap⟩, decimate_of_le lib hCap⟩⟩, ?_⟩
  intro tuning n steps s hRun hCap hSizes c seq points hMem
  obtain ⟨frame, hFrame, pose, hTracked⟩ := (System.Invariant.of_run hRun).scan_stems hMem
  rw [scansOf_taskStepsOf hRun] at hFrame
  obtain ⟨-, -, -, pose', -, -, -, -, hPoints⟩ := hTracked.spec
  have hOut : points = _ := hPoints
  rw [hOut]
  exact (length_decimate_le_iff lib hCap).mpr (hSizes c frame hFrame)

/-- Three points in a row. -/
def threePoints : List (Point2 ℚ) := [⟨0, 0⟩, ⟨1, 0⟩, ⟨2, 0⟩]

/-- With a cap of two, all of three points are kept. -/
theorem decimate_exceeds_cap :
    (decimate countingLib threePoints ⟨0, 0, 0⟩ 2).length = 3 ∧
      ¬KeepsCap countingLib threePoints ⟨0, 0, 0⟩ 2
        (decimate countingLib threePoints ⟨0, 0, 0⟩ 2) :=
  ⟨by decide, fun h => absurd h.1 (by decide)⟩

theorem decimate_keeps_cap_four :
    KeepsCap countingLib (threePoints ++ [⟨3, 0⟩]) ⟨0, 0, 0⟩ 2
        (decimate countingLib (threePoints ++ [⟨3, 0⟩]) ⟨0, 0, 0⟩ 2) ∧
      ∃ s, (system countingLib ⟨1, 1⟩ 5).exec System.new twoScans = some s ∧
        ∀ c seq points, .scan c seq points ∈ s.task.hub.events → points.length ≤ 1 :=
  ⟨((decimate_keeps_cap_iff (T := Unit) countingLib).1 _ _ 2 (by decide)).mpr
      (Or.inr ⟨2, rfl⟩), _, rfl,
    (decimate_keeps_cap_iff (T := Unit) countingLib).2 ⟨1, 1⟩ 5 twoScans _ rfl (by decide)
      fun _ _ _ => Or.inr (Nat.one_dvd _)⟩

end OlivawHub
