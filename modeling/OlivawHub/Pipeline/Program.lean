import OlivawHub.Slam.Worker
import OlivawHub.Foundations.Programs

/-!
# The pipeline as a program of atomic actions

`on_event`, `on_slam` and the stats tick of `pipeline.rs`. Every access of the pipeline to
something other tasks can see is one operation of the interface `HubIface`: a closure run
by `update_car` under the write lock, an insertion into `maps`, a broadcast, the start of a
worker thread, a frame put into a mailbox. The rate windows and the worker handles are
local to the task (`Locals`), so they are plain values here.

A worker handle is the number of its thread; `spawned` is what `SlamWorker::spawn` would
return (`none` is its error), a choice of the environment.
-/

namespace OlivawHub

open Foundations

/-- The closures the pipeline hands to `update_car`. -/
inductive CarUpdate (T F : Type) where
  | lastSeenMs (atMs : UInt64)
  | status (status : String)
  | telemetry (t : T)
  | scansTotal
  | scanHz (hz : F)
  | tracked (pose : PoseInfo F) (scanWorld : List (F × F)) (trajectoryLen : Nat)
  | map (info : MapInfo F)
  deriving DecidableEq, Repr

/-- What each closure returns. -/
def CarUpdate.Result {T F : Type} : CarUpdate T F → Type
  | .status _ => Bool
  | .scanHz _ => Nat
  | _ => Unit

/-- `push` onto the trajectory, then `drain` what exceeds the limit. -/
def pushTrajectory {α : Type} (trajectory : List α) (p : α) (len : Nat) : List α :=
  let trajectory := trajectory ++ [p]
  if trajectory.length > len then trajectory.drop (trajectory.length - len) else trajectory

/-- The closures themselves. -/
def CarUpdate.apply {T F : Type} [HubFloat F] :
    (u : CarUpdate T F) → CarSnapshot T F → u.Result × CarSnapshot T F
  | .lastSeenMs atMs, c => ((), { c with lastSeenMs := atMs })
  | .status s, c => (decide (c.status ≠ s), { c with status := s })
  | .telemetry t, c => ((), { c with telemetry := some t })
  | .scansTotal, c => ((), { c with scansTotal := c.scansTotal + 1 })
  | .scanHz hz, c => (c.scansTotal, { c with scanHz := hz })
  | .tracked pose scanWorld len, c =>
      ((), { c with
        pose := some pose
        trajectory := pushTrajectory c.trajectory
          (HubFloat.asF32 pose.x, HubFloat.asF32 pose.y) len
        scan := scanWorld })
  | .map info, c => ((), { c with map := some info })

/-- The actions of the pipeline. -/
inductive HubOp (T F : Type) where
  | updateCar (id : String) (f : CarUpdate T F)
  | insertMap (id : String) (snapshot : MapSnapshot F)
  | emit (event : WsEvent T F)
  | spawn (car : String) (worker : Nat)
  | submit (worker : Nat) (frame : ScanFrame)
  deriving DecidableEq, Repr

/-- Only `update_car` returns something. -/
@[reducible] def HubIface (T F : Type) : Interface where
  Op := HubOp T F
  Reply
    | .updateCar _ f => f.Result
    | _ => Unit

/-- What an action does to the hub; threads and mailboxes are not part of it. -/
def hubHandler (T F : Type) [HubFloat F] : Handler (HubIface T F) (Hub T F)
  | .updateCar id f, hub => hub.updateCar id f.apply
  | .insertMap id m, hub => ((), hub.insertMap id m)
  | .emit e, hub => ((), hub.emit e)
  | .spawn _ _, hub => ((), hub)
  | .submit _ _, hub => ((), hub)

/-- The pipeline's programs. -/
abbrev HubProg (T F α : Type) := Prog (HubIface T F) α

section Actions

variable {T F : Type}

/-- `update_car` with a closure whose result is not used. -/
def updateCar (id : String) (f : CarUpdate T F) : HubProg T F Unit :=
  .op (.updateCar id f) fun _ => .ret ()

/-- `update_car` with the closure that tells whether the status changed. -/
def updateStatus (id : String) (s : String) : HubProg T F Bool :=
  .op (.updateCar id (.status s)) fun changed => .ret changed

/-- `update_car` with the closure that returns `scans_total`. -/
def updateScanHz (id : String) (hz : F) : HubProg T F Nat :=
  .op (.updateCar id (.scanHz hz)) fun total => .ret total

def insertMap (id : String) (m : MapSnapshot F) : HubProg T F Unit :=
  .op (.insertMap id m) .ret

def emit (e : WsEvent T F) : HubProg T F Unit :=
  .op (.emit e) .ret

def spawnWorker (car : String) (worker : Nat) : HubProg T F Unit :=
  .op (.spawn car worker) .ret

def submit (worker : Nat) (frame : ScanFrame) : HubProg T F Unit :=
  .op (.submit worker frame) .ret

end Actions

/-- The rate window of one car. -/
structure CarRate (F : Type) where
  windowStart : F
  scansInWindow : UInt32
  deriving DecidableEq, Repr

/-- The local tables of the pipeline task. -/
structure Locals (F : Type) where
  workers : Table String Nat
  rates : Table String (CarRate F)

/-- The tables `run` starts with. -/
def Locals.new {F : Type} : Locals F := ⟨∅, ∅⟩

variable {T F : Type} [HubFloat F]

/-- `workers.get(car)`, after starting a worker if there is none. -/
def ensureWorker (car : String) (spawned : Option Nat) (workers : Table String Nat) :
    HubProg T F (Option (Table String Nat)) :=
  if car ∈ workers then return some workers
  else match spawned with
    | some w => do
        spawnWorker car w
        return some (workers.insert car w)
    | none => return none

omit [HubFloat F] in
/-- Count one scan in the car's window, opening it at `now` if it is new. -/
def countScan (car : String) (now : F) (rates : Table String (CarRate F)) :
    Table String (CarRate F) :=
  rates.upsert car ⟨now, 0⟩ fun r => { r with scansInWindow := r.scansInWindow + 1 }

/-- One car event. `now` is the clock when a new rate window opens. -/
def onEvent (event : CarEvent T) (now : F) (spawned : Option Nat) (l : Locals F) :
    HubProg T F (Locals F) := do
  let car := event.car
  updateCar car (.lastSeenMs event.atMs)
  match event.kind with
  | .status status =>
      let changed ← updateStatus car status
      if changed then emit (.status car status)
      return l
  | .telemetry t =>
      updateCar car (.telemetry t)
      emit (.telemetry car t event.atMs)
      return l
  | .scan frame =>
      updateCar car .scansTotal
      let rates := countScan car now l.rates
      match ← ensureWorker car spawned l.workers with
      | none => return { l with rates }
      | some workers =>
          match workers.lookup car with
          | some w => submit w frame
          | none => pure ()
          return { workers, rates }

/-- The metadata `on_slam` announces for a snapshot. -/
def mapInfo (car : String) (snapshot : MapSnapshot F) : MapInfo F where
  version := snapshot.version
  url := s!"/api/cars/{car}/map.png?v={snapshot.version}"
  origin := snapshot.origin
  resolution := snapshot.resolution
  width := snapshot.width
  height := snapshot.height

/-- One output of a SLAM worker. -/
def onSlam (car : String) (output : SlamOutput F) (trajectoryLen : Nat) : HubProg T F Unit := do
  match output with
  | .tracked pose scanWorld =>
      updateCar car (.tracked pose scanWorld trajectoryLen)
      emit (.pose car pose)
      emit (.scan car pose.seq scanWorld)
  | .map snapshot =>
      let info := mapInfo car snapshot
      insertMap car snapshot
      updateCar car (.map info)
      emit (.map car info)

/-- The two clock readings of one iteration of the stats loop. -/
structure Visit (F : Type) where
  car : String
  elapsedAt : F
  resetAt : F
  deriving DecidableEq, Repr

/-- `scans_in_window as f32 / secs`, where `secs` is at least a millisecond. -/
def CarRate.hz (rate : CarRate F) (now : F) : F :=
  let secs : F := max (HubFloat.asF32 (now - rate.windowStart)) 1e-3
  (rate.scansInWindow.toNat : F) / secs

/-- The stats tick over the cars in the order of `visits`. -/
def statsTick : List (Visit F) → Table String (CarRate F) → HubProg T F (Table String (CarRate F))
  | [], rates => return rates
  | v :: vs, rates =>
      match rates.lookup v.car with
      | none => statsTick vs rates
      | some rate => do
          let hz := rate.hz v.elapsedAt
          let rates := rates.insert v.car ⟨v.resetAt, 0⟩
          let total ← updateScanHz v.car hz
          emit (.stats v.car hz total)
          statsTick vs rates

/-- One pass of the `select!` loop in `run`. -/
inductive Input (T F : Type) where
  | event (e : CarEvent T) (now : F) (spawned : Option Nat)
  | slam (car : String) (output : SlamOutput F)
  | tick (visits : List (Visit F))
  deriving DecidableEq, Repr

omit [HubFloat F] in
/-- A tick goes through every entry of `rates` exactly once, in any order. -/
def Input.Enabled (l : Locals F) : Input T F → Prop
  | .tick visits => (visits.map Visit.car).Perm l.rates.keys
  | _ => True

omit [HubFloat F] in
instance (l : Locals F) (i : Input T F) : Decidable (i.Enabled l) := by
  cases i <;> unfold Input.Enabled <;> infer_instance

/-- The body of the `select!` loop in `run`, the recorder apart. -/
def body (trajectoryLen : Nat) (l : Locals F) : Input T F → HubProg T F (Locals F)
  | .event e now spawned => onEvent e now spawned l
  | .slam car output => do
      onSlam car output trajectoryLen
      return l
  | .tick visits => do
      let rates ← statsTick visits l.rates
      return { l with rates }

end OlivawHub
