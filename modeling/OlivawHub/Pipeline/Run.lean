import OlivawHub.Pipeline.Replay
import OlivawHub.Foundations.Machines

/-!
# Whole passes

`run` of `pipeline.rs` as a machine whose labels are the passes of its `select!` loop, each
taken from start to end (`pipeline`). `pipeline_step` says what one pass does to the hub and
to the local tables; `carUpdates_bodyOps` says which closures it runs on one car.
-/

namespace OlivawHub

open Foundations

/-- The pipeline between two passes. -/
structure Pipeline (T F : Type) where
  hub : Hub T F
  locals : Locals F

/-- The pipeline when `run` starts. -/
def Pipeline.new {T F : Type} : Pipeline T F := ⟨Hub.new, Locals.new⟩

variable {T F : Type} [HubFloat F]

/-- `run`, one pass of the loop at a time. -/
def pipeline (T F : Type) [HubFloat F] (trajectoryLen : Nat) :
    Machine (Pipeline T F) (Input T F) where
  step s i :=
    if i.Enabled s.locals then
      let (l, hub) := (body trajectoryLen s.locals i).run (hubHandler T F) s.hub
      some ⟨hub, l⟩
    else none

theorem pipeline_step {n : Nat} {s s' : Pipeline T F} {i : Input T F} :
    (pipeline T F n).step s i = some s' ↔ i.Enabled s.locals ∧
      s' = ⟨s.hub.after (bodyOps n s.hub s.locals i), bodyLocals s.locals i⟩ := by
  unfold pipeline
  dsimp only
  split
  · rename_i hEnabled
    obtain ⟨hOps, hRun⟩ := body_spec n hEnabled s.hub
    rw [Prog.run_snd_eq_replay, hOps, hRun]
    simp [hEnabled, eq_comm]
  · rename_i hNot
    simp [hNot]

/-! ## The actions of a run -/

/-- The actions of whole passes. -/
def actionsOf (trajectoryLen : Nat) (inputs : List (Input T F)) : List (HubOp T F) :=
  (pipeline T F trajectoryLen).outputs (fun s i => bodyOps trajectoryLen s.hub s.locals i)
    Pipeline.new inputs

theorem actionsOf_concat {n : Nat} {inputs : List (Input T F)} {s : Pipeline T F}
    (hRun : (pipeline T F n).exec Pipeline.new inputs = some s) (i : Input T F) :
    actionsOf n (inputs ++ [i]) = actionsOf n inputs ++ bodyOps n s.hub s.locals i :=
  Machine.outputs_concat _ hRun i

/-- The hub of the pipeline is the replay of its actions. -/
theorem hub_eq_after_actionsOf {n : Nat} {inputs : List (Input T F)} {s : Pipeline T F}
    (hRun : (pipeline T F n).exec Pipeline.new inputs = some s) :
    s.hub = Hub.new.after (actionsOf n inputs) := by
  refine Machine.exec_history (P := fun past s => s.hub = Hub.new.after (actionsOf n past)) rfl ?_
    hRun
  intro past s i s' hPast ih hStep
  obtain ⟨-, rfl⟩ := pipeline_step.mp hStep
  rw [actionsOf_concat hPast, Hub.after_append, ← ih]

/-- To show something of the actions of every run, show that one pass keeps it. -/
theorem actionsOf_induction {n : Nat} {P : List (HubOp T F) → Prop} (hNew : P [])
    (hPass : ∀ (os : List (HubOp T F)) (l : Locals F) (i : Input T F), i.Enabled l → P os →
      P (os ++ bodyOps n (Hub.new.after os) l i))
    {inputs : List (Input T F)} {s : Pipeline T F}
    (hRun : (pipeline T F n).exec Pipeline.new inputs = some s) : P (actionsOf n inputs) := by
  refine Machine.exec_history (P := fun past _ => P (actionsOf n past)) hNew ?_ hRun
  intro past s i s' hPast ih hStep
  obtain ⟨hEnabled, -⟩ := pipeline_step.mp hStep
  rw [actionsOf_concat hPast, hub_eq_after_actionsOf hPast]
  exact hPass _ _ _ hEnabled ih

/-! ## What a pass does to one car -/

/-- The closure an event runs besides the time stamp. -/
def EventKind.update : EventKind T → CarUpdate T F
  | .status s => .status s
  | .telemetry t => .telemetry t
  | .scan _ => .scansTotal

/-- The closure a SLAM output runs. -/
def SlamOutput.update (car : String) (trajectoryLen : Nat) : SlamOutput F → CarUpdate T F
  | .tracked pose scanWorld => .tracked pose scanWorld trajectoryLen
  | .map snapshot => .map (mapInfo car snapshot)

omit [HubFloat F] in
theorem carUpdates_workerOps (c car : String) (spawned : Option Nat)
    (workers : Table String Nat) (frame : ScanFrame) :
    carUpdates c (workerOps car spawned workers frame : List (HubOp T F)) = [] := by
  unfold workerOps
  split <;> simp

omit [HubFloat F] in
theorem mem_workerOps {car : String} {spawned : Option Nat} {workers : Table String Nat}
    {frame : ScanFrame} {o : HubOp T F} (h : o ∈ workerOps car spawned workers frame) :
    (∃ w, o = .spawn car w) ∨ ∃ w, o = .submit w frame := by
  unfold workerOps at h
  split at h
  · exact Or.inr ⟨_, List.mem_singleton.mp h⟩
  · rcases List.mem_cons.mp h with h | h
    · exact Or.inl ⟨_, h⟩
    · exact Or.inr ⟨_, List.mem_singleton.mp h⟩
  · cases h

/-- All that `on_event` can do. -/
theorem mem_eventOps {hub : Hub T F} {l : Locals F} {e : CarEvent T} {spawned : Option Nat}
    {o : HubOp T F} (h : o ∈ eventOps hub l e spawned) :
    o = .updateCar e.car (.lastSeenMs e.atMs) ∨ o = .updateCar e.car e.kind.update ∨
      (∃ s, o = .emit (.status e.car s)) ∨ (∃ t, o = .emit (.telemetry e.car t e.atMs)) ∨
      (∃ w, o = .spawn e.car w) ∨ ∃ w frame, o = .submit w frame := by
  obtain ⟨car, atMs, kind⟩ := e
  rcases List.mem_cons.mp h with rfl | h
  · exact Or.inl rfl
  · cases kind with
    | status s =>
        rcases List.mem_cons.mp h with rfl | h
        · exact Or.inr (Or.inl rfl)
        · by_cases hSame : (hub.car car).status = s
          · simp [hSame] at h
          · simp only [ne_eq, hSame, not_false_eq_true, if_true, List.mem_singleton] at h
            exact Or.inr (Or.inr (Or.inl ⟨s, h⟩))
    | telemetry t =>
        rcases List.mem_cons.mp h with rfl | h
        · exact Or.inr (Or.inl rfl)
        · exact Or.inr (Or.inr (Or.inr (Or.inl ⟨t, List.mem_singleton.mp h⟩)))
    | scan frame =>
        rcases List.mem_cons.mp h with rfl | h
        · exact Or.inr (Or.inl rfl)
        · rcases mem_workerOps h with hSpawn | ⟨w, hSubmit⟩
          · exact Or.inr (Or.inr (Or.inr (Or.inr (Or.inl hSpawn))))
          · exact Or.inr (Or.inr (Or.inr (Or.inr (Or.inr ⟨w, frame, hSubmit⟩))))

/-- A tick stores and sends the rates of the windows it finds. -/
theorem mem_visitOps {hub : Hub T F} {rates : Table String (CarRate F)} {visits : List (Visit F)}
    {o : HubOp T F} (h : o ∈ visits.flatMap (visitOps hub rates)) :
    ∃ v ∈ visits, ∃ rate, rates.lookup v.car = some rate ∧
      (o = .updateCar v.car (.scanHz (rate.hz v.elapsedAt)) ∨
        ∃ total, o = .emit (.stats v.car (rate.hz v.elapsedAt) total)) := by
  obtain ⟨v, hv, ho⟩ := List.mem_flatMap.mp h
  unfold visitOps at ho
  split at ho
  · cases ho
  · rename_i rate hRate
    rcases List.mem_cons.mp ho with rfl | ho
    · exact ⟨v, hv, rate, hRate, Or.inl rfl⟩
    · exact ⟨v, hv, rate, hRate, Or.inr ⟨_, List.mem_singleton.mp ho⟩⟩

theorem mem_visits {hub : Hub T F} {rates : Table String (CarRate F)} {visits : List (Visit F)}
    {o : HubOp T F} (h : o ∈ visits.flatMap (visitOps hub rates)) :
    ∃ c hz, c ∈ rates ∧
      (o = .updateCar c (.scanHz hz) ∨ ∃ total, o = .emit (.stats c hz total)) := by
  obtain ⟨v, -, rate, hRate, ho⟩ := mem_visitOps h
  exact ⟨v.car, _, AList.lookup_isSome.mp (by simp [hRate]), ho⟩

theorem carUpdates_eventOps (c : String) (hub : Hub T F) (l : Locals F) (e : CarEvent T)
    (spawned : Option Nat) :
    carUpdates c (eventOps hub l e spawned) =
      if e.car = c then [.lastSeenMs e.atMs, e.kind.update] else [] := by
  unfold eventOps
  cases hk : e.kind with
  | status s =>
      by_cases h : e.car = c <;> simp only [carUpdates_cons, HubOp.carUpdate?, h, if_true,
        if_false, EventKind.update] <;> split <;> simp
  | telemetry t => by_cases h : e.car = c <;> simp [h, EventKind.update]
  | scan frame =>
      by_cases h : e.car = c <;> simp [h, EventKind.update, carUpdates_workerOps]

omit [HubFloat F] in
theorem carUpdates_slamOps (c car : String) (output : SlamOutput F) (n : Nat) :
    carUpdates c (slamOps car output n : List (HubOp T F)) =
      if car = c then [output.update car n] else [] := by
  cases output <;> by_cases h : car = c <;> simp [slamOps, SlamOutput.update, h]

/-- A tick only stores rates, and only for cars with a rate window. -/
theorem carUpdates_visits (c : String) (hub : Hub T F) (rates : Table String (CarRate F))
    (visits : List (Visit F)) {u : CarUpdate T F}
    (hu : u ∈ carUpdates c (visits.flatMap (visitOps hub rates))) :
    c ∈ rates ∧ ∃ hz, u = .scanHz hz := by
  obtain ⟨o, ho, hou⟩ := List.mem_filterMap.mp hu
  obtain ⟨car, hz, hMem, rfl | ⟨total, rfl⟩⟩ := mem_visits ho
  · have hou : car = c ∧ CarUpdate.scanHz hz = u := by simpa using hou
    exact ⟨hou.1 ▸ hMem, hz, hou.2.symm⟩
  · cases hou

end OlivawHub
