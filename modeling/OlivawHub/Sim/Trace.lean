import OlivawHub.Sim.Steering

/-!
# What the simulated car says

The simulator counts its scans and its milliseconds, whatever its floats do. It says `online`, then
sends the scans numbered from 0 on, each one period after the one before and with as many points as
fit, and telemetry after every full second of scans. What cuts this short ends the loop
(`sim_keeps_time`).
-/

namespace OlivawHub

open Foundations

/-- What is seen of an event without looking at measurements. -/
inductive SimShape where
  | status (s : String)
  | scan (seq tMs : UInt32) (points : Nat)
  | telemetry
  deriving DecidableEq, Repr

variable {T : Type}

def EventKind.shape : EventKind T → SimShape
  | .status s => .status s
  | .telemetry _ => .telemetry
  | .scan frame => .scan frame.seq frame.tMs frame.points.length

/-- The shapes of a list of events. -/
def shapesOf (events : List (CarEvent T)) : List SimShape := events.map fun e => e.kind.shape

variable {F : Type} [Add F] [Sub F] [Mul F] [Div F] [Neg F] [Max F] [LT F] [LE F] [DecidableLT F]
  [DecidableLE F] [NatCast F] [OfScientific F] [SimFloat F]

/-- What turn `k` says when nothing goes wrong. -/
def turnShapes (crate : SimCrate T) (cfg : SimConfig F) (k : Nat) : List SimShape :=
  .scan (.ofNat k) (.ofNat k * cfg.dtMs) (min 500 crate.maxPoints) ::
    if UInt32.ofNat (k + 1) % cfg.scansPerSecond = 0 then [.telemetry] else []

/-- What the simulator says in `n` turns when nothing goes wrong. -/
def simShapes (crate : SimCrate T) (cfg : SimConfig F) (isOpen : Bool) (n : Nat) :
    List SimShape :=
  (if isOpen then [.status "online"] else []) ++ (List.range n).flatMap (turnShapes crate cfg)

omit [Add F] [Sub F] [Neg F] [LT F] [LE F] [DecidableLT F] [DecidableLE F] [NatCast F] in
theorem simShapes_succ (crate : SimCrate T) (cfg : SimConfig F) (isOpen : Bool) (n : Nat) :
    simShapes crate cfg isOpen (n + 1) =
      simShapes crate cfg isOpen n ++ turnShapes crate cfg n := by
  simp [simShapes, List.range_succ]

theorem length_beams (maxPoints : Nat) (noiseM : F) (p : CarPose F) (rng : UInt64) :
    (beams maxPoints noiseM p rng).1.length = min 500 maxPoints := by
  have hLoop : ∀ n, ((List.range n).foldl (fun (q : List ScanPoint × UInt64) i =>
      (if q.1.length < maxPoints then q.1 ++ [(beam noiseM p q.2 i).1] else q.1,
        (beam noiseM p q.2 i).2)) ([], rng)).1.length = min n maxPoints := by
    intro n
    induction n with
    | zero => simp
    | succ n ih =>
        rw [List.range_succ, List.foldl_append, List.foldl_cons, List.foldl_nil]
        dsimp only
        split
        · rw [List.length_append, ih, List.length_singleton]
          omega
        · omega
  exact hLoop 500

/-- The frame of a turn. -/
def Sim.frame (crate : SimCrate T) (cfg : SimConfig F) (s : Sim F T) : ScanFrame :=
  ⟨s.seq, s.tMs, (beams crate.maxPoints cfg.noiseM s.pose s.rng).1, 0⟩

/-- All that a turn sends and counts. -/
theorem report_sends (crate : SimCrate T) (cfg : SimConfig F) (s : Sim F T) (err : F)
    (t : SimTurn) :
    (s.report crate cfg err t).pose = s.pose ∧ (s.report crate cfg err t).seq = s.seq + 1 ∧
      (s.report crate cfg err t).tMs = s.tMs + cfg.dtMs ∧
      ((t.scanOpen = false ∧ (s.report crate cfg err t).phase = .returned ∧
          (s.report crate cfg err t).sent = s.sent) ∨
        ((s.seq + 1) % cfg.scansPerSecond ≠ 0 ∧ (s.report crate cfg err t).phase = s.phase ∧
          (s.report crate cfg err t).sent =
            s.sent ++ [⟨cfg.carId, t.scanMs, .scan (s.frame crate cfg)⟩]) ∨
        ((s.seq + 1) % cfg.scansPerSecond = 0 ∧
          (((s.report crate cfg err t).phase ∈ [.returned, .panicked .overflow] ∧
              (s.report crate cfg err t).sent =
                s.sent ++ [⟨cfg.carId, t.scanMs, .scan (s.frame crate cfg)⟩]) ∨
            ∃ r, (s.report crate cfg err t).phase = s.phase ∧ (s.report crate cfg err t).sent =
              s.sent ++ [⟨cfg.carId, t.scanMs, .scan (s.frame crate cfg)⟩,
                ⟨cfg.carId, t.telemetryMs, .telemetry r⟩]))) := by
  unfold Sim.report
  by_cases hOpen : t.scanOpen = true
  · by_cases hDue : (s.seq + 1) % cfg.scansPerSecond = 0
    · simp only [if_pos hOpen, if_pos hDue]
      split
      · exact ⟨rfl, rfl, rfl, Or.inr (Or.inr ⟨hDue, Or.inl ⟨by simp, rfl⟩⟩)⟩
      · rename_i r hSome
        split
        · refine ⟨rfl, rfl, rfl, Or.inr (Or.inr ⟨hDue, Or.inr ⟨crate.telemetry r, rfl, ?_⟩⟩)⟩
          exact List.append_assoc ..
        · exact ⟨rfl, rfl, rfl, Or.inr (Or.inr ⟨hDue, Or.inl ⟨by simp, rfl⟩⟩)⟩
    · simp only [if_pos hOpen, if_neg hDue]
      exact ⟨trivial, trivial, trivial, Or.inr (Or.inl ⟨hDue, trivial, rfl⟩)⟩
  · simp only [if_neg hOpen]
    exact ⟨trivial, trivial, trivial, Or.inl ⟨Bool.eq_false_iff.mpr hOpen, trivial, trivial⟩⟩

/-- What every run keeps after the start, `k` turns of the loop later. -/
structure Sim.KeepsTime (crate : SimCrate T) (cfg : SimConfig F) (isOpen : Bool) (k : Nat)
    (s : Sim F T) : Prop where
  phase : s.phase ≠ .starting
  car : ∀ e ∈ s.sent, e.car = cfg.carId
  counts : s.phase = .driving → s.seq = .ofNat k ∧ s.tMs = .ofNat k * cfg.dtMs ∧
    shapesOf s.sent = simShapes crate cfg isOpen k
  cut : shapesOf s.sent <+: simShapes crate cfg isOpen k

variable {crate : SimCrate T} {cfg : SimConfig F} {s : Sim F T} {k : Nat} {isOpen : Bool}

omit [Add F] [Sub F] [Neg F] [LT F] [LE F] [DecidableLT F] [DecidableLE F] [NatCast F] in
theorem Sim.KeepsTime.start (crate : SimCrate T) (cfg : SimConfig F) (atMs : UInt64)
    (isOpen : Bool) : ((Sim.new : Sim F T).start cfg atMs isOpen).KeepsTime crate cfg isOpen 0 := by
  have hSilent : shapesOf ([] : List (CarEvent T)) <+: simShapes crate cfg isOpen 0 :=
    List.nil_prefix
  unfold Sim.start
  split
  · exact ⟨nofun, nofun, nofun, hSilent⟩
  · exact ⟨nofun, nofun, nofun, hSilent⟩
  · have hShapes : shapesOf ([] ++ if isOpen = true then
        [(⟨cfg.carId, atMs, .status "online"⟩ : CarEvent T)] else []) =
        simShapes crate cfg isOpen 0 := by
      cases isOpen <;> rfl
    refine ⟨nofun, ?_, fun _ => ⟨rfl, ?_, hShapes⟩, ?_⟩
    · cases isOpen <;> simp [Sim.new]
    · exact (UInt32.zero_mul).symm
    · exact ⟨[], by rw [← hShapes, List.append_nil]; rfl⟩

theorem Sim.KeepsTime.turn (h : s.KeepsTime crate cfg isOpen k) (hDriving : s.phase = .driving)
    {t : SimTurn} {s' : Sim F T} (hTick : s.tick crate cfg t = some s') :
    s'.KeepsTime crate cfg isOpen (k + 1) := by
  obtain ⟨err, -, rfl⟩ := Option.map_eq_some_iff.mp hTick
  obtain ⟨hSeq, hMs, hSent⟩ := h.counts hDriving
  generalize hPose : ({ s with pose := drive cfg.speedMps cfg.dt err s.pose } : Sim F T) = moved
  have hMovedSeq : moved.seq = .ofNat k := by rw [← hPose]; exact hSeq
  have hMovedMs : moved.tMs = .ofNat k * cfg.dtMs := by rw [← hPose]; exact hMs
  have hMovedSent : moved.sent = s.sent := by rw [← hPose]
  have hMovedPhase : moved.phase = .driving := by rw [← hPose]; exact hDriving
  have hNext : moved.seq + 1 = .ofNat (k + 1) := by
    rw [hMovedSeq, UInt32.ofNat_add]
    rfl
  have hNextMs : moved.tMs + cfg.dtMs = .ofNat (k + 1) * cfg.dtMs := by
    rw [hMovedMs, UInt32.ofNat_add, UInt32.add_mul]
    exact congrArg _ (UInt32.one_mul _).symm
  have hFrame : (EventKind.scan (moved.frame crate cfg) : EventKind T).shape =
      .scan (.ofNat k) (.ofNat k * cfg.dtMs) (min 500 crate.maxPoints) := by
    simp only [EventKind.shape, Sim.frame, length_beams, hMovedSeq, hMovedMs]
  have hCar : ∀ (ms : UInt64) (kind : EventKind T), ∀ e ∈ s.sent ++ [⟨cfg.carId, ms, kind⟩],
      e.car = cfg.carId := by
    intro ms kind e he
    rcases List.mem_append.mp he with hOld | hNew
    · exact h.car e hOld
    · rw [List.mem_singleton.mp hNew]
  obtain ⟨-, hSeq', hMs', hEnd⟩ := report_sends crate cfg moved err t
  rw [hNext] at hSeq' hEnd
  rw [hNextMs] at hMs'
  rw [hMovedSent, hMovedPhase] at hEnd
  have hScanOnly : ∀ ms, shapesOf (s.sent ++
      [⟨cfg.carId, ms, .scan (moved.frame crate cfg)⟩]) = simShapes crate cfg isOpen k ++
        [.scan (.ofNat k) (.ofNat k * cfg.dtMs) (min 500 crate.maxPoints)] := by
    intro ms
    rw [← hFrame, ← hSent, shapesOf, List.map_append]
    rfl
  rcases hEnd with ⟨-, hPhase, hSame⟩ | ⟨hNotDue, hPhase, hScan⟩ | ⟨hDue, ⟨hPhase, hScan⟩ |
    ⟨r, hPhase, hBoth⟩⟩
  · refine ⟨by rw [hPhase]; exact nofun, by rw [hSame]; exact h.car, ?_, ?_⟩
    · rw [hPhase]
      exact nofun
    · rw [hSame, simShapes_succ]
      exact h.cut.trans (List.prefix_append _ _)
  · have hAll : shapesOf (moved.report crate cfg err t).sent =
        simShapes crate cfg isOpen (k + 1) := by
      rw [hScan, hScanOnly, simShapes_succ, turnShapes, if_neg hNotDue]
    refine ⟨by rw [hPhase]; exact nofun, ?_, fun _ => ⟨hSeq', hMs', hAll⟩, ?_⟩
    · rw [hScan]
      exact hCar _ _
    · exact ⟨[], by rw [hAll, List.append_nil]⟩
  · refine ⟨?_, ?_, fun hDrives => ?_, ?_⟩
    · intro hStarting
      rw [hStarting] at hPhase
      simp at hPhase
    · rw [hScan]
      exact hCar _ _
    · rw [hDrives] at hPhase
      simp at hPhase
    · rw [hScan, hScanOnly, simShapes_succ, turnShapes]
      exact (List.prefix_append_right_inj _).mpr (List.prefix_append _ _)
  · have hAll : shapesOf (moved.report crate cfg err t).sent =
        simShapes crate cfg isOpen (k + 1) := by
      rw [hBoth, simShapes_succ, turnShapes, if_pos hDue, ← hSent, ← hFrame, shapesOf,
        List.map_append]
      rfl
    refine ⟨by rw [hPhase]; exact nofun, ?_, fun _ => ⟨hSeq', hMs', hAll⟩, ?_⟩
    · intro e he
      rw [hBoth] at he
      rcases List.mem_append.mp he with hOld | hNew
      · exact h.car e hOld
      · simp only [List.mem_cons, List.not_mem_nil, or_false] at hNew
        rcases hNew with rfl | rfl <;> rfl
    · exact ⟨[], by rw [hAll, List.append_nil]⟩

theorem Sim.KeepsTime.of_run {turns : List SimTurn}
    (hRun : (sim crate cfg).exec s (turns.map .tick) = some s')
    (h : s.KeepsTime crate cfg isOpen k) :
    s'.KeepsTime crate cfg isOpen (k + turns.length) := by
  induction turns generalizing s k with
  | nil =>
      cases hRun
      exact h
  | cons t turns ih =>
      obtain ⟨next, hStep, hRest⟩ := Machine.exec_cons_some hRun
      obtain ⟨hDriving, hTick⟩ := Option.ite_none_right_eq_some.mp hStep
      have hAll := ih hRest (h.turn hDriving hTick)
      rwa [List.length_cons, Nat.add_comm turns.length, ← Nat.add_assoc]

/-- **Counting scans.** After the start, and `n` turns of the loop, the simulator has sent, all
under its car id, a beginning of: `online` if the channel was open, and then for each turn its scan,
with the number and the time of the turn and as many of the 500 points as fit, and telemetry when
the count of scans is a multiple of the scans of a second. While it drives it has sent all of it. -/
theorem sim_keeps_time (crate : SimCrate T) (cfg : SimConfig F) (atMs : UInt64) (isOpen : Bool)
    (turns : List SimTurn) (s : Sim F T)
    (hRun : (sim crate cfg).exec Sim.new (.start atMs isOpen :: turns.map .tick) = some s) :
    (∀ e ∈ s.sent, e.car = cfg.carId) ∧
      shapesOf s.sent <+: simShapes crate cfg isOpen turns.length ∧
      (s.phase = .driving → s.seq = .ofNat turns.length ∧
        shapesOf s.sent = simShapes crate cfg isOpen turns.length) := by
  obtain ⟨next, hStep, hRest⟩ := Machine.exec_cons_some hRun
  have hNext : next = (Sim.new : Sim F T).start cfg atMs isOpen := (Option.some.inj hStep).symm
  subst hNext
  have h := Sim.KeepsTime.of_run hRest (Sim.KeepsTime.start crate cfg atMs isOpen)
  rw [Nat.zero_add] at h
  exact ⟨h.car, h.cut, fun hDriving => ⟨(h.counts hDriving).1, (h.counts hDriving).2.2⟩⟩

/-- The default configuration. -/
noncomputable def demoConfig : SimConfig ℝ := ⟨"sim-01", 10.0, 0.3, 0.01⟩

theorem demoConfig_dt : demoConfig.dt = 1 / 10 := by
  have hRate : max (10.0 : ℝ) 1.0 = 10 := by norm_num
  show 1.0 / max (10.0 : ℝ) 1.0 = _
  rw [hRate]
  norm_num

theorem start_demo (atMs : UInt64) (isOpen : Bool) :
    (Sim.new : Sim ℝ T).start demoConfig atMs isOpen = { (Sim.new : Sim ℝ T) with
      phase := .driving
      sent := if isOpen then [⟨"sim-01", atMs, .status "online"⟩] else [] } := by
  have hPeriod : SimFloat.fromSecsF64 demoConfig.dt = some 100000000 := by
    rw [demoConfig_dt]
    show ExactFloat.fromSecsF64 (.num (1 / 10 : ℝ)) = _
    rw [ExactFloat.fromSecsF64_num, if_pos (by norm_num), ExactFloat.roundHalfEven]
    norm_num
    rfl
  unfold Sim.start
  rw [hPeriod]
  rfl

/-- One turn of the loop. -/
theorem demo_turn (crate : SimCrate T) (atMs : UInt64) (isOpen : Bool) (t : SimTurn) :
    ∃ s : Sim ℝ T, (sim crate demoConfig).exec Sim.new (.start atMs isOpen :: [t].map .tick) =
        some s ∧
      s = ({ (Sim.new : Sim ℝ T).start demoConfig atMs isOpen with
        pose := drive demoConfig.speedMps demoConfig.dt 0 (Sim.new : Sim ℝ T).pose } :
          Sim ℝ T).report crate demoConfig 0 t := by
  have hPhase : ((Sim.new : Sim ℝ T).start demoConfig atMs isOpen).phase = .driving := by
    rw [start_demo]
  have hPose : ((Sim.new : Sim ℝ T).start demoConfig atMs isOpen).pose =
      (Sim.new : Sim ℝ T).pose := by rw [start_demo]
  refine ⟨_, ?_, rfl⟩
  have hErr := (backs_new (T := T)).headingError t.rounds
  have hTick : (sim crate demoConfig).step ((Sim.new : Sim ℝ T).start demoConfig atMs isOpen)
      (.tick t) = some _ := (if_pos hPhase).trans (by rw [Sim.tick, hPose, hErr]; rfl)
  have hStart : (sim crate demoConfig).exec (Sim.new : Sim ℝ T) [.start atMs isOpen] =
    some ((Sim.new : Sim ℝ T).start demoConfig atMs isOpen) := rfl
  refine Machine.exec_trans hStart ?_
  rw [Machine.exec_cons, hTick]
  rfl

theorem sim_keeps_time_demo :
    ∃ s : Sim ℝ SimReadings, (sim ⟨720, id⟩ demoConfig).exec Sim.new
        (.start 7 true :: [(⟨0, 8, true, 9, true⟩ : SimTurn)].map .tick) = some s ∧
      (∀ e ∈ s.sent, e.car = "sim-01") ∧
      shapesOf s.sent <+: simShapes ⟨720, id⟩ demoConfig true 1 := by
  obtain ⟨s, hRun, -⟩ := demo_turn (⟨720, id⟩ : SimCrate SimReadings) 7 true ⟨0, 8, true, 9, true⟩
  have h := sim_keeps_time ⟨720, id⟩ demoConfig 7 true [⟨0, 8, true, 9, true⟩] s hRun
  exact ⟨s, hRun, h.1, h.2.1⟩

end OlivawHub
