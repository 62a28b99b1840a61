import OlivawHub.System.Sequential
import OlivawHub.System.Whole
import OlivawHub.Sim.Readings

/-!
# The simulated car

The simulator sends to the event channel like any other source. Between it and the matcher of its
car are the channel, the pipeline, and a mailbox that keeps only the latest scan. In exact
arithmetic, and whatever else the hub does, the matcher is given some of the simulator's scans, in
their order, each as points on the walls as they are seen from where the car was when it sent the
scan; and when all is quiet the snapshot says what the simulator said and what the matcher found
(`simulated_car_is_mapped`).
-/

namespace OlivawHub

open Foundations Real

variable {S T F : Type} [HubFloat F] {setup : Setup T} {lib : SlamLib S F} {tuning : WorkerTuning}
  {n : Nat} {p : MainState T × System S T F} {steps : List (WholeStep S T F)}

/-- What was put into the channel about a car is what was received, and what waits. -/
theorem carLog_of_putIn
    (hRun : (whole setup lib tuning n).exec (setup.start, System.new) steps = some p)
    {c : String} {sent : List (CarEvent T)}
    (hSent : ((putIn setup (sourceSteps steps)).map Prod.snd).filter (fun e => e.car = c) = sent) :
    (carLog c (inputsOf (taskStepsOf lib tuning n (coreSteps setup lib tuning n steps)))).events ++
      p.1.channel.filter (fun e => e.car = c) = sent := by
  have hFifo : (putIn setup (sourceSteps steps)).map Prod.snd =
      takenIn setup (sourceSteps steps) ++ p.1.channel :=
    (Delivered.of_run (Machine.exec_fst hRun)).fifo
  rw [carLog_events, ← hSent, hFifo, ← received_eq_takenIn hRun, List.filter_append]
  rfl

/-- **The simulated car.** Let all that is put into the channel about the car come from a run of
the simulator with at most a metre of noise. Then the loop of a worker, with what `Slam::new` gave
the car's thread, on some of the scans, in the order in which they were sent, gives the poses that
the hub broadcasts, and perhaps more; the cloud it is given for each of them has one point for each
beam that hits a wall from the pose the car had in the turn that sent the scan, and close to what
the beam hits. When the channel is empty and the thread of the car at rest, the last scan sent is
among them, all poses are broadcast, and the snapshot is what the simulator's events and the loop's
outputs describe. -/
theorem simulated_car_is_mapped {S T : Type} (setup : Setup T) (lib : SlamLib S ℝ)
    (hLib : ExactLib lib) (tuning : WorkerTuning) (n : Nat) (crate : SimCrate T)
    (cfg : SimConfig ℝ) (hNoise : |cfg.noiseM| ≤ 1) (labels : List SimLabel) (sim₁ : Sim ℝ T)
    (hSim : (sim crate cfg).exec Sim.new labels = some sim₁) (steps : List (WholeStep S T ℝ))
    (p : MainState T × System S T ℝ)
    (hRun : (whole setup lib tuning n).exec (setup.start, System.new) steps = some p)
    (hSent : ((putIn setup (sourceSteps steps)).map Prod.snd).filter (fun e => e.car = cfg.carId) =
      sim₁.sent) :
    ∃ (turns : List (ScanFrame × ℝ)) (used : List (ScanFrame × CarPose ℝ)),
      let slam := slamFor cfg.carId (coreSteps setup lib tuning n steps) p.2
      let frames := turns.map Prod.fst
      let scans := sim₁.sent.filterMap CarEvent.scan?
      let outs := slamOutputs lib tuning slam turns
      let poses := (outs.filterMap SlamOutput.tracked?).map Prod.fst
      frames.Sublist scans ∧
        (used.Sublist (shotsOf crate cfg labels) ∧ frames = used.map Prod.fst ∧
          ∀ shot ∈ used, OnWalls lib cfg.noiseM crate.maxPoints shot.2
            (frameCloud lib shot.1).points) ∧
        posesFor cfg.carId (posesTold p.2.task.hub.events) <+: poses ∧
        (p.1.channel = [] → AtRest cfg.carId p.2 →
          frames.getLast? = scans.getLast? ∧
          posesFor cfg.carId (posesTold p.2.task.hub.events) = poses ∧
          CarLog.Describes cfg.carId n ⟨sim₁.sent, outs⟩ (p.2.task.hub.car cfg.carId)) := by
  have hCore : (system lib tuning n).exec System.new (coreSteps setup lib tuning n steps) =
      some p.2 := Machine.exec_snd hRun
  have hInv := System.Invariant.of_run hCore
  have hEvents := carLog_of_putIn hRun hSent
  obtain ⟨hShots, hTell⟩ := shots_of_run hSim
  obtain ⟨turns, hScans, hTold, hRest⟩ := exists_turns hCore cfg.carId
  rw [← scansOf_taskStepsOf hCore, scansOf] at hScans hRest
  have hFrames : (turns.map Prod.fst).Sublist (sim₁.sent.filterMap CarEvent.scan?) := by
    rw [← hEvents, List.filterMap_append]
    exact hScans.trans (List.sublist_append_left _ _)
  obtain ⟨used, hUsed, hSame⟩ := List.sublist_map_iff.mp (hShots ▸ hFrames)
  refine ⟨turns, used, hFrames, ⟨hUsed, hSame, fun shot hShot => ?_⟩, ?_,
    fun hChannel hAtRest => ?_⟩
  · obtain ⟨rng, hPoints⟩ := hTell shot (hUsed.subset hShot)
    exact onWalls_frame hLib hNoise _ _ rng hPoints _
  · exact (hInv.posesTold_isPrefix cfg.carId).trans ((hTold.filterMap _).map _)
  · obtain ⟨hAll, hLast⟩ := hRest hAtRest
    obtain ⟨hIdle, hQueue, -⟩ := hAtRest
    rw [sentFor, hQueue, List.append_nil] at hAll
    rw [hChannel, List.filter_nil, List.append_nil] at hEvents
    refine ⟨hEvents ▸ hLast, ?_, ?_⟩
    · rw [hInv.posesTold_of_idle hIdle, ← hAll]
    · have hDescribes := hInv.describes_of_idle hIdle cfg.carId
      rw [← hAll, ← hEvents]
      exact hDescribes

/-! ## One turn of the simulator -/

/-- From where it starts the car faces the cupboard. -/
theorem echo_ahead {p : CarPose ℝ} (hTheta : p.theta = 0) (hX : p.x ∈ Set.Icc 0 6)
    (hY : p.y = 0.8) : (echo p 0).isSome := by
  obtain ⟨hWest, hEast⟩ := hX
  rw [Option.isSome_iff_ne_none]
  intro hNone
  have hBearing : beamBearing p 0 = 0 := by
    rw [beamBearing, hTheta]
    norm_num
  have hEmpty := castAlong_eq_none_iff.mp (show castAlong (p.x, p.y)
    (cos (beamBearing p 0), sin (beamBearing p 0)) walls 12.0 = none from hNone)
  rw [hBearing, cos_zero, sin_zero] at hEmpty
  have hHit : 6.2 - p.x ∈ hits (p.x, p.y) ((1 : ℝ), (0 : ℝ)) walls 12.0 := by
    refine ⟨?_, ?_, ⟨(6.2, 1.5), (6.2, 0.0)⟩, ?_, ?_, 7 / 15, ?_, ?_, ?_⟩
    · norm_num
      linarith
    · norm_num
      linarith
    · simp [walls, rect]
    · norm_num [cross]
    · norm_num
    · norm_num
    · rw [hY]
      ext <;> norm_num
  rw [hEmpty] at hHit
  exact hHit

theorem demo_cloud_ne_nil {p : CarPose ℝ} (hEcho : (echo p 0).isSome) (rng : UInt64)
    {frame : ScanFrame} (hPoints : frame.points = (beams 720 demoConfig.noiseM p rng).1) :
    (frameCloud exactLib frame).points ≠ [] := by
  intro hNone
  have hWalls := onWalls_frame exactLib_exact demoConfig_noise 720 p rng hPoints
    (frame.tMs.toUInt64 * 1000000)
  rw [OnWalls, show (scanFrameToCloud exactLib frame _).points = [] from hNone,
    List.forall₂_nil_right_iff] at hWalls
  have hMem : 0 ∈ (List.range (min 500 720)).filter fun i => (echo p i).isSome :=
    List.mem_filter.mpr ⟨by simp, hEcho⟩
  rw [hWalls] at hMem
  cases hMem

/-- The hub of `--sim`. -/
def simulated : Setup SimReadings := ⟨none, true, false, false, false⟩

/-- A scan goes through the hub, with what a match gives. -/
noncomputable def scanThrough (frame : ScanFrame) : List (WholeStep (Pose2 ℝ) SimReadings ℝ) :=
  [.send 1 ⟨"sim-01", 7, .status "online"⟩, .send 1 ⟨"sim-01", 8, .scan frame⟩, .receive 0 false,
    .act, .act, .act, .receive 0 true, .act, .act, .act, .act,
    .worker 0 (.start (some ⟨1, 0.8, 0⟩)), .worker 0 .take] ++ [.worker 0 (.track 1)] ++
  [.worker 0 .send, .worker 0 .render, .slam, .act, .act, .act]

theorem whole_worker {m : MainState T} {s : System S T F} {i : Nat} {w w' : Worker S F}
    {k : WorkerStep S F} {out : Option (SlamOutput F)} (hw : s.workers[i]? = some w)
    (hStep : w.step lib tuning s.isOpen k = some (w', out)) :
    (whole setup lib tuning n).exec (m, s) [.worker i k] = some (m, { s with
      workers := s.workers.set i w'
      queue := s.queue ++ out.toList.map fun output => (w.car, output) }) := by
  have hSystem : (system lib tuning n).exec s [.worker i k] = some { s with
      workers := s.workers.set i w'
      queue := s.queue ++ out.toList.map fun output => (w.car, output) } := by
    simp only [Machine.exec_cons, system, hw, hStep, Option.map_some, Option.bind_some,
      Machine.exec_nil]
  have hWhole : (whole setup lib tuning n).step (m, s) (.worker i k) = some (m, { s with
      workers := s.workers.set i w'
      queue := s.queue ++ out.toList.map fun output => (w.car, output) }) :=
    Machine.together_step.mpr ⟨rfl, hSystem⟩
  rw [Machine.exec_cons, hWhole]
  rfl

/-- A match of a cloud that is not empty. -/
theorem step_track {frame : ScanFrame} (hCloud : (frameCloud exactLib frame).points ≠ [])
    (pose : Pose2 ℝ) (isOpen : Bool) :
    Worker.step exactLib ⟨2, 1⟩ isOpen ⟨"sim-01", none, .matching (WorkerState.new pose) frame⟩
      (.track 1) = some (⟨"sim-01", none, .tracked ⟨pose, 1, 0⟩
        ⟨pose.x, pose.y, pose.theta, frame.seq, 1, 0, 0⟩
        (decimate exactLib (frameCloud exactLib frame).points pose 1)⟩, none) := by
  have hTrack : trackFrame exactLib ⟨2, 1⟩ (WorkerState.new pose) frame 1 =
      (⟨pose, 1, 0⟩, some (⟨pose.x, pose.y, pose.theta, frame.seq, 1, 0, 0⟩,
        decimate exactLib (frameCloud exactLib frame).points pose 1)) := by
    rw [trackFrame, if_neg (by simpa using hCloud)]
    rfl
  simp only [Worker.step, hTrack]

theorem scanThrough_run {frame : ScanFrame} (hCloud : (frameCloud exactLib frame).points ≠ []) :
    ∃ p, (whole simulated exactLib ⟨2, 1⟩ 5).exec (simulated.start, System.new)
        (scanThrough frame) = some p ∧ p.1.channel = [] ∧ AtRest "sim-01" p.2 := by
  refine ⟨_, Machine.exec_trans (Machine.exec_trans rfl
    (whole_worker rfl (step_track hCloud _ _))) rfl, rfl, ⟨_, rfl⟩, ?_, _, List.mem_cons_self, rfl,
    rfl, _, rfl⟩
  rfl

theorem demoConfig_scansPerSecond : demoConfig.scansPerSecond = 10 := by
  have hRate : max demoConfig.scanHz 1.0 = ((10 : ℤ) : ℝ) := by
    rw [demoConfig]
    norm_num
  have hTrunc : ExactFloat.trunc ((10 : ℤ) : ℝ) = 10 := by
    rw [ExactFloat.trunc, if_pos (by norm_num), Int.floor_intCast]
  have hInt : SimFloat.asInt 0 (2 ^ 32 - 1) (max demoConfig.scanHz 1.0) = 10 := by
    rw [hRate]
    show max 0 (min (2 ^ 32 - 1) (ExactFloat.trunc ((10 : ℤ) : ℝ))) = 10
    rw [hTrunc]
    rfl
  rw [SimConfig.scansPerSecond, hInt]
  rfl

/-- The first turn sends a scan of the cupboard, and nothing else. -/
theorem demo_sends : ∃ (s : Sim ℝ SimReadings) (frame : ScanFrame),
    (sim ⟨720, id⟩ demoConfig).exec Sim.new
        (.start 7 true :: [(⟨0, 8, true, 9, true⟩ : SimTurn)].map .tick) = some s ∧
      s.sent = [⟨"sim-01", 7, .status "online"⟩, ⟨"sim-01", 8, .scan frame⟩] ∧
      (frameCloud exactLib frame).points ≠ [] := by
  obtain ⟨s, hRun, hReport⟩ := demo_turn (⟨720, id⟩ : SimCrate SimReadings) 7 true
    ⟨0, 8, true, 9, true⟩
  have hStart := start_demo (T := SimReadings) 7 true
  generalize hMoved : ({ (Sim.new : Sim ℝ SimReadings).start demoConfig 7 true with
    pose := drive demoConfig.speedMps demoConfig.dt 0 (Sim.new : Sim ℝ SimReadings).pose } :
      Sim ℝ SimReadings) = moved at hReport
  have hFrame : (moved.frame ⟨720, id⟩ demoConfig).points =
      (beams 720 demoConfig.noiseM moved.pose moved.rng).1 := by
    rw [Sim.frame]
  refine ⟨s, moved.frame ⟨720, id⟩ demoConfig, hRun, ?_, demo_cloud_ne_nil ?_ _ hFrame⟩
  · obtain ⟨-, -, -, hEnd⟩ := report_sends (⟨720, id⟩ : SimCrate SimReadings) demoConfig moved 0
      ⟨0, 8, true, 9, true⟩
    rw [← hReport, demoConfig_scansPerSecond] at hEnd
    rcases hEnd with ⟨hClosed, -⟩ | ⟨-, -, hEq⟩ | ⟨hDue, -⟩
    · cases hClosed
    · rw [hEq, ← hMoved, hStart]
      rfl
    · rw [← hMoved, hStart] at hDue
      cases hDue
  · have hBacks := backs_new (T := SimReadings)
    have hPose : moved.pose =
        drive demoConfig.speedMps demoConfig.dt 0 (Sim.new : Sim ℝ SimReadings).pose := by
      rw [← hMoved]
    have hMove := move_straight hBacks.theta demoConfig.speedMps demoConfig.dt
    have hStep : demoConfig.speedMps * demoConfig.dt ∈ Set.Icc (0 : ℝ) 1 := by
      rw [demoConfig_dt, demoConfig]
      constructor <;> norm_num
    have hX : (Sim.new : Sim ℝ SimReadings).pose.x = 1 := by norm_num [Sim.new, path]
    rw [hPose, drive_real, hMove]
    split
    all_goals
      refine echo_ahead rfl ⟨?_, ?_⟩ hBacks.y
      · show 0 ≤ (Sim.new : Sim ℝ SimReadings).pose.x + demoConfig.speedMps * demoConfig.dt
        linarith [hStep.1]
      · show (Sim.new : Sim ℝ SimReadings).pose.x + demoConfig.speedMps * demoConfig.dt ≤ 6
        linarith [hStep.2]

theorem simulated_car_is_mapped_demo : ∃ labels sim₁ frame p,
    (sim (⟨720, id⟩ : SimCrate SimReadings) demoConfig).exec Sim.new labels = some sim₁ ∧
    (whole simulated exactLib ⟨2, 1⟩ 5).exec (simulated.start, System.new) (scanThrough frame) =
      some p ∧
    AtRest "sim-01" p.2 ∧ ∃ turns, (turns.map Prod.fst).getLast? = some frame ∧
      (∃ shot ∈ shotsOf (⟨720, id⟩ : SimCrate SimReadings) demoConfig labels, shot.1 = frame ∧
        OnWalls exactLib 0.01 720 shot.2 (frameCloud exactLib frame).points) ∧
      posesFor "sim-01" (posesTold p.2.task.hub.events) =
        ((slamOutputs exactLib ⟨2, 1⟩
          (slamFor "sim-01" (coreSteps simulated exactLib ⟨2, 1⟩ 5 (scanThrough frame)) p.2)
            turns).filterMap SlamOutput.tracked?).map Prod.fst := by
  obtain ⟨s, frame, hSim, hSent, hCloud⟩ := demo_sends
  obtain ⟨p, hRun, hChannel, hAtRest⟩ := scanThrough_run hCloud
  obtain ⟨turns, used, -, ⟨hUsed, hSame, hWalls⟩, -, hRest⟩ := simulated_car_is_mapped simulated
    exactLib exactLib_exact ⟨2, 1⟩ 5 ⟨720, id⟩ demoConfig demoConfig_noise _ s hSim
    (scanThrough frame) p hRun (hSent.symm ▸ rfl)
  obtain ⟨hLast, hPoses, -⟩ := hRest hChannel hAtRest
  have hScan : (turns.map Prod.fst).getLast? = some frame := by
    rw [hLast, hSent]
    rfl
  have hShot := List.mem_of_getLast? hScan
  rw [hSame] at hShot
  obtain ⟨shot, hMem, rfl⟩ := List.mem_map.mp hShot
  exact ⟨_, s, shot.1, p, hSim, hRun, hAtRest, turns, hScan,
    ⟨shot, hUsed.subset hMem, rfl, hWalls shot hMem⟩, hPoses⟩

end OlivawHub
