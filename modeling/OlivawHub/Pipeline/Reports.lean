import OlivawHub.Pipeline.CarLog

/-!
# What depends on the car events alone

SLAM outputs and ticks fall anywhere between the events of a run. They leave alone what an event
sets in its car's snapshot (`event_fields`), and the `Status` and `Telemetry` events broadcast are
a function of the car events, whatever happened in between (`reports_of_run`).
-/

namespace OlivawHub

open Foundations

variable {T F : Type}

/-- The event of a pass. -/
def Input.event? : Input T F → Option (CarEvent T)
  | .event e _ _ => some e
  | .slam _ _ => none
  | .tick _ => none

/-- The events of a list of passes. -/
def eventsOf (inputs : List (Input T F)) : List (CarEvent T) := inputs.filterMap Input.event?

theorem eventsOf_concat (past : List (Input T F)) (i : Input T F) :
    eventsOf (past ++ [i]) = eventsOf past ++ i.event?.toList := filterMap_concat_toList ..

theorem carLog_events (c : String) (inputs : List (Input T F)) :
    (carLog c inputs).events = (eventsOf inputs).filter fun e => e.car = c := by
  rw [carLog, eventsOf, List.filter_filterMap]
  refine congrArg (fun f => List.filterMap f inputs) (funext fun i => ?_)
  cases i with
  | event e now spawned =>
      by_cases hCar : e.car = c
      · simp [Input.eventOf?, Input.event?, Option.filter, hCar]
      · simp [Input.eventOf?, Input.event?, Option.filter, hCar]
  | slam car output => rfl
  | tick visits => rfl

/-- The fields of a snapshot that car events set. -/
structure EventFields (T : Type) where
  status : String
  telemetry : Option T
  lastSeenMs : UInt64
  scansTotal : Nat

def CarSnapshot.eventFields (s : CarSnapshot T F) : EventFields T :=
  ⟨s.status, s.telemetry, s.lastSeenMs, s.scansTotal⟩

/-- What the events of a car set in its snapshot. -/
def fieldsAfter (events : List (CarEvent T)) : EventFields T where
  status := (lastSome? CarEvent.status? events).getD "unknown"
  telemetry := lastSome? CarEvent.telemetry? events
  lastSeenMs := (events.getLast?.map CarEvent.atMs).getD 0
  scansTotal := (events.filterMap CarEvent.scan?).length

/-- A `Status` or a `Telemetry` event. -/
def WsEvent.isReport : WsEvent T F → Bool
  | .status _ _ => true
  | .telemetry _ _ _ => true
  | _ => false

/-- What an event makes the hub report, after the events `past`. -/
def CarEvent.report? (past : List (CarEvent T)) (e : CarEvent T) : Option (WsEvent T F) :=
  match e.kind with
  | .status s =>
      if (fieldsAfter (past.filter fun d => d.car = e.car)).status ≠ s then some (.status e.car s)
      else none
  | .telemetry t => some (.telemetry e.car t e.atMs)
  | .scan _ => none

/-- The reports on events that follow `past`. -/
def reports (past : List (CarEvent T)) : List (CarEvent T) → List (WsEvent T F)
  | [] => []
  | e :: es => (e.report? past).toList ++ reports (past ++ [e]) es

theorem reports_concat (past es : List (CarEvent T)) (e : CarEvent T) :
    (reports past (es ++ [e]) : List (WsEvent T F)) =
      reports past es ++ (e.report? (past ++ es)).toList := by
  induction es generalizing past with
  | nil => simp [reports]
  | cons d es ih =>
      simp only [List.cons_append, reports, ih (past ++ [d]), List.append_assoc, List.nil_append]

variable [HubFloat F]

omit [HubFloat F] in
theorem emitted_workerOps (car : String) (spawned : Option Nat) (workers : Table String Nat)
    (frame : ScanFrame) :
    emitted (workerOps car spawned workers frame : List (HubOp T F)) = [] := by
  refine List.filterMap_eq_nil_iff.mpr fun o ho => ?_
  rcases mem_workerOps ho with ⟨w, rfl⟩ | ⟨w, rfl⟩
  · rfl
  · rfl

theorem reports_visits (hub : Hub T F) (rates : Table String (CarRate F))
    (visits : List (Visit F)) :
    (emitted (visits.flatMap (visitOps hub rates))).filter WsEvent.isReport = [] := by
  refine List.filter_eq_nil_iff.mpr fun e he => ?_
  obtain ⟨c, hz, -, hStore | ⟨total, hEmit⟩⟩ := mem_visits (mem_emitted.mp he)
  · cases hStore
  · cases hEmit
    nofun

theorem reports_bodyOps {n : Nat} {past : List (Input T F)} {s : Pipeline T F}
    (hRun : (pipeline T F n).exec Pipeline.new past = some s) (i : Input T F) :
    (emitted (bodyOps n s.hub s.locals i)).filter WsEvent.isReport =
      (i.event?.bind fun e => e.report? (eventsOf past)).toList := by
  cases i with
  | event e now spawned =>
      have hStatus : (s.hub.car e.car).status =
          (fieldsAfter ((eventsOf past).filter fun d => d.car = e.car)).status := by
        rw [((CarLog.Invariant.of_run hRun).describes e.car).status, carLog_events, fieldsAfter]
      obtain ⟨car, atMs, kind⟩ := e
      cases kind with
      | status status =>
          by_cases hSame :
            (fieldsAfter ((eventsOf past).filter fun d => d.car = car)).status = status
          · simp [bodyOps, eventOps, Input.event?, CarEvent.report?, hStatus, hSame]
          · simp [bodyOps, eventOps, Input.event?, CarEvent.report?, hStatus, hSame,
              WsEvent.isReport]
      | telemetry t =>
          simp [bodyOps, eventOps, Input.event?, CarEvent.report?, WsEvent.isReport]
      | scan frame =>
          simp [bodyOps, eventOps, Input.event?, CarEvent.report?, emitted_workerOps]
  | slam car output => cases output <;> rfl
  | tick visits => exact reports_visits s.hub s.locals.rates visits

theorem reports_of_run {n : Nat} {inputs : List (Input T F)} {s : Pipeline T F}
    (hRun : (pipeline T F n).exec Pipeline.new inputs = some s) :
    s.hub.events.filter WsEvent.isReport = reports [] (eventsOf inputs) := by
  refine Machine.exec_history
    (P := fun past s => s.hub.events.filter WsEvent.isReport = reports [] (eventsOf past)) rfl ?_
    hRun
  intro past s i s' hPast ih hStep
  obtain ⟨-, rfl⟩ := pipeline_step.mp hStep
  rw [Hub.after_events, List.filter_append, ih, reports_bodyOps hPast, eventsOf_concat]
  cases i.event? with
  | none => simp
  | some e => simp [reports_concat]

/-- A car that sent an event is known, and its events alone say what they set. -/
theorem event_fields {n : Nat} {inputs : List (Input T F)} {s : Pipeline T F}
    (hRun : (pipeline T F n).exec Pipeline.new inputs = some s) {e : CarEvent T}
    (he : e ∈ eventsOf inputs) :
    ∃ snap, s.hub.cars.lookup e.car = some snap ∧
      snap.eventFields = fieldsAfter ((eventsOf inputs).filter fun d => d.car = e.car) := by
  have hOccurs : (carLog e.car inputs).Occurs := by
    refine Or.inl (List.ne_nil_of_mem (a := e) ?_)
    rw [carLog_events]
    exact List.mem_filter.mpr ⟨he, by simp⟩
  have hInv := CarLog.Invariant.of_run hRun
  have hDescribes := hInv.describes e.car
  refine ⟨_, hInv.lookup hOccurs, ?_⟩
  rw [CarSnapshot.eventFields, fieldsAfter, hDescribes.status, hDescribes.telemetry,
    hDescribes.lastSeenMs, hDescribes.scansTotal, carLog_events]

end OlivawHub
