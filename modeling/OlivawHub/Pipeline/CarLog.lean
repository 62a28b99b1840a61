import OlivawHub.Pipeline.Run

/-!
# The pipeline refines a per-car log

The abstract state of a car is its log: the events received from it, and the outputs of its
SLAM worker. `CarLog.Describes` reads every field of the snapshot, the measured scan rate
apart, off those two lists. A pass that concerns the car appends to one of them
(`Describes.event`, `Describes.output`); every other pass leaves the fields alone
(`Describes.scanHz`), so after every run each snapshot is the one its log describes
(`pipeline_refines_carLog`), whatever the other cars did in between.
-/

namespace OlivawHub

open Foundations

variable {T F : Type}

/-- What the hub was told about one car. -/
structure CarLog (T F : Type) where
  events : List (CarEvent T)
  outputs : List (SlamOutput F)

/-- The event of `c` in a pass. -/
def Input.eventOf? (c : String) : Input T F → Option (CarEvent T)
  | .event e _ _ => if e.car = c then some e else none
  | .slam _ _ => none
  | .tick _ => none

/-- The SLAM output of `c` in a pass. -/
def Input.outputOf? (c : String) : Input T F → Option (SlamOutput F)
  | .event _ _ _ => none
  | .slam car output => if car = c then some output else none
  | .tick _ => none

/-- The log of `c` after a list of passes. -/
def carLog (c : String) (inputs : List (Input T F)) : CarLog T F :=
  ⟨inputs.filterMap (Input.eventOf? c), inputs.filterMap (Input.outputOf? c)⟩

theorem carLog_concat (c : String) (past : List (Input T F)) (i : Input T F) :
    carLog c (past ++ [i]) = ⟨(carLog c past).events ++ (i.eventOf? c).toList,
      (carLog c past).outputs ++ (i.outputOf? c).toList⟩ := by
  simp only [carLog, filterMap_concat_toList]

/-- `c` occurs in the log at all. -/
def CarLog.Occurs (log : CarLog T F) : Prop := log.events ≠ [] ∨ log.outputs ≠ []

/-- The scans received from `c`. -/
def scansOf (c : String) (inputs : List (Input T F)) : List ScanFrame :=
  (carLog c inputs).events.filterMap CarEvent.scan?

/-- The scan of `c` in a pass. -/
def Input.scanOf? (c : String) (i : Input T F) : Option ScanFrame :=
  (i.eventOf? c).bind CarEvent.scan?

theorem scansOf_concat (c : String) (past : List (Input T F)) (i : Input T F) :
    scansOf c (past ++ [i]) = scansOf c past ++ (i.scanOf? c).toList := by
  simp only [scansOf, carLog, List.filterMap_filterMap]
  exact filterMap_concat_toList ..

/-- Pushing onto the last `len` elements and cutting again keeps the last `len`. -/
theorem pushTrajectory_rtake {α : Type} (l : List α) (p : α) (len : Nat) :
    pushTrajectory (l.rtake len) p len = (l ++ [p]).rtake len := by
  simp only [pushTrajectory, List.rtake, List.length_append, List.length_drop,
    List.length_singleton]
  rcases Nat.lt_or_ge l.length len with h | h
  · rw [if_neg (by omega), show l.length - len = 0 by omega,
      show l.length + 1 - len = 0 by omega]
    rfl
  · rw [if_pos (by omega), ← List.drop_append_of_le_length (by omega), List.drop_drop]
    congr 1
    omega

variable [HubFloat F]

/-- The position a tracked pose pushes onto the trajectory. -/
def PoseInfo.position (pose : PoseInfo F) : F × F :=
  (HubFloat.asF32 pose.x, HubFloat.asF32 pose.y)

/-- The snapshot of `c` as its log describes it. -/
structure CarLog.Describes (c : String) (len : Nat) (log : CarLog T F)
    (s : CarSnapshot T F) : Prop where
  id : s.id = c
  status : s.status = (lastSome? CarEvent.status? log.events).getD "unknown"
  telemetry : s.telemetry = lastSome? CarEvent.telemetry? log.events
  lastSeenMs : s.lastSeenMs = (log.events.getLast?.map CarEvent.atMs).getD 0
  scansTotal : s.scansTotal = (log.events.filterMap CarEvent.scan?).length
  pose : s.pose = (lastSome? SlamOutput.tracked? log.outputs).map Prod.fst
  scan : s.scan = ((lastSome? SlamOutput.tracked? log.outputs).map Prod.snd).getD []
  trajectory : s.trajectory =
    ((log.outputs.filterMap SlamOutput.tracked?).map fun t => t.1.position).rtake len
  map : s.map = (lastSome? SlamOutput.map? log.outputs).map (mapInfo c)

namespace CarLog.Describes

variable {c : String} {len : Nat} {log : CarLog T F} {s s' : CarSnapshot T F}

theorem new : Describes c len (⟨[], []⟩ : CarLog T F) (CarSnapshot.new c) := by
  constructor <;> simp [CarSnapshot.new, List.rtake]

theorem scanHz (h : Describes c len log s) (hz : F) :
    Describes c len log { s with scanHz := hz } :=
  { h with }

theorem unique (h : Describes c len log s) (h' : Describes c len log s') :
    { s with scanHz := s'.scanHz } = s' := by
  obtain ⟨h1, h2, h3, h4, h5, h6, h7, h8, h9⟩ := h
  obtain ⟨h1', h2', h3', h4', h5', h6', h7', h8', h9'⟩ := h'
  cases s
  cases s'
  simp_all

theorem event (h : Describes c len log s) (e : CarEvent T) :
    Describes c len ⟨log.events ++ [e], log.outputs⟩
      (s.applyAll [.lastSeenMs e.atMs, e.kind.update]) := by
  obtain ⟨car, atMs, kind⟩ := e
  cases kind with
  | status status =>
      exact { h with
        status := by simp [CarUpdate.apply, EventKind.update, CarEvent.status?]
        telemetry := by simp [CarUpdate.apply, EventKind.update, CarEvent.telemetry?, h.telemetry]
        lastSeenMs := by simp [CarUpdate.apply, EventKind.update]
        scansTotal := by
          simp [CarUpdate.apply, EventKind.update, filterMap_cons_toList, CarEvent.scan?,
            h.scansTotal] }
  | telemetry t =>
      exact { h with
        status := by simp [CarUpdate.apply, EventKind.update, CarEvent.status?, h.status]
        telemetry := by simp [CarUpdate.apply, EventKind.update, CarEvent.telemetry?]
        lastSeenMs := by simp [CarUpdate.apply, EventKind.update]
        scansTotal := by
          simp [CarUpdate.apply, EventKind.update, filterMap_cons_toList, CarEvent.scan?,
            h.scansTotal] }
  | scan frame =>
      exact { h with
        status := by simp [CarUpdate.apply, EventKind.update, CarEvent.status?, h.status]
        telemetry := by simp [CarUpdate.apply, EventKind.update, CarEvent.telemetry?, h.telemetry]
        lastSeenMs := by simp [CarUpdate.apply, EventKind.update]
        scansTotal := by simp [CarUpdate.apply, EventKind.update, CarEvent.scan?, h.scansTotal] }

theorem output (h : Describes c len log s) (out : SlamOutput F) :
    Describes c len ⟨log.events, log.outputs ++ [out]⟩ (s.applyAll [out.update c len]) := by
  cases out with
  | tracked pose scanWorld =>
      exact { h with
        pose := by simp [CarUpdate.apply, SlamOutput.update, SlamOutput.tracked?]
        scan := by simp [CarUpdate.apply, SlamOutput.update, SlamOutput.tracked?]
        trajectory := by
          simp [CarUpdate.apply, SlamOutput.update, SlamOutput.tracked?, h.trajectory,
            pushTrajectory_rtake, PoseInfo.position]
        map := by simp [CarUpdate.apply, SlamOutput.update, SlamOutput.map?, h.map] }
  | map snapshot =>
      exact { h with
        pose := by simp [CarUpdate.apply, SlamOutput.update, SlamOutput.tracked?, h.pose]
        scan := by simp [CarUpdate.apply, SlamOutput.update, SlamOutput.tracked?, h.scan]
        trajectory := by
          simp [CarUpdate.apply, SlamOutput.update, SlamOutput.tracked?, filterMap_cons_toList,
            h.trajectory]
        map := by simp [CarUpdate.apply, SlamOutput.update, SlamOutput.map?] }

/-- Closures that only store a rate change nothing the log describes. -/
theorem applyAll_scanHz {us : List (CarUpdate T F)} (hus : ∀ u ∈ us, ∃ hz, u = .scanHz hz)
    (h : Describes c len log s) : Describes c len log (s.applyAll us) := by
  induction us generalizing s with
  | nil => exact h
  | cons u us ih =>
      obtain ⟨hz, rfl⟩ := hus u (by simp)
      exact ih (fun u hu => hus u (by simp [hu])) (h.scanHz hz)

end CarLog.Describes

/-! ## Runs -/

/-- What every run keeps: each car's snapshot is the one its log describes, the hub knows
exactly the cars that occur, and only those have a rate window. -/
structure CarLog.Invariant (len : Nat) (past : List (Input T F)) (s : Pipeline T F) : Prop where
  describes : ∀ c, Describes c len (carLog c past) (s.hub.car c)
  known : ∀ c, c ∈ s.hub.cars ↔ (carLog c past).Occurs
  rates : ∀ c, c ∈ s.locals.rates → (carLog c past).Occurs

namespace CarLog.Invariant

theorem new (len : Nat) : Invariant len ([] : List (Input T F)) Pipeline.new where
  describes c := by
    rw [Pipeline.new, Hub.car_new]
    exact Describes.new
  known c := by simp [carLog, Occurs, Pipeline.new, Hub.new]
  rates c hc := by simp [Pipeline.new, Locals.new] at hc

variable {len : Nat} {past : List (Input T F)} {s s' : Pipeline T F} {i : Input T F}

theorem step (h : Invariant len past s) (hStep : (pipeline T F len).step s i = some s') :
    Invariant len (past ++ [i]) s' := by
  obtain ⟨hEnabled, rfl⟩ := pipeline_step.mp hStep
  cases i with
  | event e now spawned =>
      refine ⟨fun c => ?_, fun c => ?_, fun c hc => ?_⟩
      · rw [carLog_concat, Hub.after_car, bodyOps, carUpdates_eventOps, Input.eventOf?,
          Input.outputOf?]
        by_cases hCar : e.car = c
        · simpa [hCar] using (h.describes c).event e
        · simpa [hCar] using h.describes c
      · rw [carLog_concat, Hub.mem_after, bodyOps, carUpdates_eventOps, Input.eventOf?,
          Input.outputOf?, h.known]
        by_cases hCar : e.car = c <;> simp [hCar, Occurs]
      · rw [carLog_concat, Input.eventOf?, Input.outputOf?]
        by_cases hCar : e.car = c
        · simp [hCar, Occurs]
        · have hOld : c ∈ s.locals.rates := by
            cases hk : e.kind <;>
              simpa [bodyLocals, eventLocals, hk, countScan, Table.mem_upsert, Ne.symm hCar]
                using hc
          simpa [hCar] using h.rates c hOld
  | slam car out =>
      refine ⟨fun c => ?_, fun c => ?_, fun c hc => ?_⟩
      · rw [carLog_concat, Hub.after_car, bodyOps, carUpdates_slamOps, Input.eventOf?,
          Input.outputOf?]
        by_cases hCar : car = c
        · subst hCar
          simpa using (h.describes car).output out
        · simpa [hCar] using h.describes c
      · rw [carLog_concat, Hub.mem_after, bodyOps, carUpdates_slamOps, Input.eventOf?,
          Input.outputOf?, h.known]
        by_cases hCar : car = c <;> simp [hCar, Occurs]
      · rw [carLog_concat]
        exact (h.rates c hc).imp (by simp +contextual) (by simp +contextual)
  | tick visits =>
      have hSame : ∀ c, carLog c (past ++ [.tick visits]) = carLog c past := by
        intro c
        rw [carLog_concat]
        simp [Input.eventOf?, Input.outputOf?]
      refine ⟨fun c => ?_, fun c => ?_, fun c hc => ?_⟩
      · rw [hSame, Hub.after_car]
        exact (h.describes c).applyAll_scanHz fun u hu => (carUpdates_visits c _ _ _ hu).2
      · rw [hSame, Hub.mem_after, ← h.known]
        refine ⟨fun hc => hc.elim id fun hne => ?_, Or.inl⟩
        obtain ⟨u, hu⟩ := List.exists_mem_of_ne_nil _ hne
        exact (h.known c).mpr (h.rates c (carUpdates_visits c _ _ _ hu).1)
      · rw [hSame]
        exact h.rates c ((mem_visitRates visits s.locals.rates c).mp hc)

theorem of_run (hRun : (pipeline T F len).exec Pipeline.new past = some s) :
    Invariant len past s :=
  Machine.exec_history (new len) (fun _ _ _ _ _ h hStep => h.step hStep) hRun

theorem lookup (h : Invariant len past s) {c : String} (hOcc : (carLog c past).Occurs) :
    s.hub.cars.lookup c = some (s.hub.car c) := by
  obtain ⟨snap, hSnap⟩ := Option.isSome_iff_exists.mp
    (AList.lookup_isSome.mpr ((h.known c).mpr hOcc))
  rw [Hub.car, hSnap, Option.getD_some]

end CarLog.Invariant

/-- **Refinement.** After every run from the empty hub, every car that occurs has the
snapshot its own log describes; and two runs that agree on the events of `c` and on the
outputs for `c`, each list on its own, agree on all these fields of `c`. -/
theorem pipeline_refines_carLog (len : Nat) (inputs : List (Input T F)) (s : Pipeline T F)
    (hRun : (pipeline T F len).exec Pipeline.new inputs = some s) (c : String) :
    ((carLog c inputs).Occurs → ∃ snap, s.hub.cars.lookup c = some snap ∧
      CarLog.Describes c len (carLog c inputs) snap) ∧
    ∀ inputs' s', (pipeline T F len).exec Pipeline.new inputs' = some s' →
      carLog c inputs' = carLog c inputs →
      (s'.hub.cars.lookup c).map (fun snap => { snap with scanHz := (s.hub.car c).scanHz }) =
        s.hub.cars.lookup c := by
  have h := CarLog.Invariant.of_run hRun
  refine ⟨fun hOcc => ⟨_, h.lookup hOcc, h.describes c⟩, fun inputs' s' hRun' hLog => ?_⟩
  have h' := CarLog.Invariant.of_run hRun'
  by_cases hOcc : (carLog c inputs).Occurs
  · rw [h.lookup hOcc, h'.lookup (hLog ▸ hOcc), Option.map_some]
    exact congrArg some ((hLog ▸ h'.describes c).unique (h.describes c))
  · rw [AList.lookup_eq_none.mpr fun hm => hOcc ((h.known c).mp hm),
      AList.lookup_eq_none.mpr fun hm => hOcc (hLog ▸ (h'.known c).mp hm), Option.map_none]

/-- Two cars, a failed worker start, a tick and both kinds of SLAM output, interleaved; only
the last position fits the trajectory. -/
theorem pipeline_refines_carLog_two_cars :
    let frame : ScanFrame := ⟨3, 0, [], 0⟩
    let pose : PoseInfo ℚ := ⟨1, 2, 0, 3, 0, 0, 0⟩
    let inputs : List (Input Unit ℚ) :=
      [.event ⟨"a", 5, .scan frame⟩ 0 none, .event ⟨"b", 6, .status "online"⟩ 0 none,
        .slam "a" (.tracked pose [(0, 0)]), .tick [⟨"a", 1, 1⟩],
        .slam "a" (.tracked { pose with x := 7 } [(0, 1)]), .event ⟨"a", 9, .telemetry ()⟩ 0 none]
    ∃ s, (pipeline Unit ℚ 1).exec Pipeline.new inputs = some s ∧
      ∃ snap, s.hub.cars.lookup "a" = some snap ∧
        CarLog.Describes "a" 1 (carLog "a" inputs) snap :=
  ⟨_, rfl, (pipeline_refines_carLog 1 _ _ rfl "a").1 (Or.inl (by decide))⟩

end OlivawHub
