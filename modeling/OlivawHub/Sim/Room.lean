import OlivawHub.Ingest.Events
import OlivawHub.Foundations.ExactFloats
import OlivawHub.Foundations.Machines
import OlivawHub.Sim.Cast

/-!
# The simulated car

`run` of `room.rs`, one turn of its loop at a time, for any numbers. A label of a turn carries the
clock and whether the channel is open, and a bound for the rounds of the loops that normalise the
heading error; a turn whose loops need more rounds is not possible with that label.

The checked subtraction and `tokio::time::interval` are the operations that can panic.
-/

namespace OlivawHub

open Foundations

/-- The operations on floats that have no class of their own. -/
class SimFloat (F : Type) where
  pi : F
  sin : F → F
  cos : F → F
  atan2 : F → F → F
  sqrt : F → F
  round : F → F
  /-- To the nearest `f64`, where the arithmetic of `F` does not round by itself. -/
  toF64 : F → F
  /-- `as` to an integer type of the values from `lo` to `hi`. -/
  asInt (lo hi : Int) : F → Int
  /-- `Duration::from_secs_f64`, in nanoseconds; `none` is its panic. -/
  fromSecsF64 : F → Option Nat

/-- Simulator knobs. -/
structure SimConfig (F : Type) where
  carId : String
  scanHz : F
  speedMps : F
  noiseM : F

/-- The readings in a telemetry event of the simulator. -/
structure SimReadings where
  batteryMv : UInt16
  batteryPct : UInt8
  left : Int16
  right : Int16
  uptimeS : UInt32
  rssiDbm : Int8
  deriving DecidableEq, Repr

/-- What the simulator uses of `olivaw_proto`. -/
structure SimCrate (T : Type) where
  /-- The capacity of the points of a frame. -/
  maxPoints : Nat
  /-- BLE connected, all links up, a `max_duty_permille` of 550, and these readings. -/
  telemetry : SimReadings → T

/-- Where the car is, and the waypoint it drives to. -/
structure CarPose (F : Type) where
  x : F
  y : F
  theta : F
  target : Fin 6

inductive SimPanic where
  /-- `from_secs_f64` cannot represent the period. -/
  | duration
  /-- `interval` asserts that the period is not zero. -/
  | zeroPeriod
  /-- The subtraction in `rssi_dbm`. -/
  | overflow
  deriving DecidableEq, Repr

inductive SimPhase where
  | starting
  | driving
  /-- The channel is closed. -/
  | returned
  | panicked (p : SimPanic)
  deriving DecidableEq, Repr

/-- The simulator at the head of its loop. `sent` is what it sent into the channel. -/
structure Sim (F T : Type) where
  phase : SimPhase
  pose : CarPose F
  seq : UInt32
  tMs : UInt32
  batteryMv : F
  rng : UInt64
  sent : List (CarEvent T)

/-- What one turn of the loop gets from outside. -/
structure SimTurn where
  rounds : Nat
  scanMs : UInt64
  scanOpen : Bool
  telemetryMs : UInt64
  telemetryOpen : Bool

inductive SimLabel where
  | start (atMs : UInt64) (isOpen : Bool)
  | tick (t : SimTurn)

/-- `a - b` in `i8`, checked. -/
def checkedSubI8 (a b : Int8) : Option Int8 :=
  if -128 ≤ a.toInt - b.toInt ∧ a.toInt - b.toInt ≤ 127 then some (a - b) else none

section Source

variable {F : Type} [Add F] [Sub F] [Mul F] [Div F] [Neg F] [Max F] [LT F] [LE F] [DecidableLT F]
  [DecidableLE F] [NatCast F] [OfScientific F] [SimFloat F]

/-- Waypoints of the loop the car drives. -/
def path : Fin 6 → F × F
  | 0 => (1.0, 0.8)
  | 1 => (5.5, 0.8)
  | 2 => (5.8, 2.4)
  | 3 => (3.5, 4.2)
  | 4 => (1.0, 4.0)
  | 5 => (0.8, 2.3)

def tau : F := 2.0 * SimFloat.pi

/-- Ray from `o` at bearing `theta` against every wall; nearest hit distance. -/
def cast (o : F × F) (theta : F) (walls : List (Wall F)) (max : F) : Option F :=
  castAlong o (SimFloat.cos theta, SimFloat.sin theta) walls max

/-! ## The random numbers -/

/-- `Lcg::next_f64`. -/
def nextF64 (rng : UInt64) : F × UInt64 :=
  let rng := rng * 6364136223846793005 + 1442695040888963407
  (((rng >>> 11).toNat : F) / ((2 ^ 53 : Nat) : F), rng)

/-- `Lcg::noise`. -/
def noise (rng : UInt64) (sigma : F) : F × UInt64 :=
  let (sum, rng) := (List.range 6).foldl (fun p _ =>
    let (next, rng) := nextF64 p.2
    (p.1 + next, rng)) ((0.0 : F), rng)
  ((sum - 3.0) * sigma / 0.707, rng)

/-! ## Steering -/

/-- `while err > PI { err -= TAU; }`, in at most `rounds` rounds. -/
def unwindDown : Nat → F → Option F
  | 0, err => if err > SimFloat.pi then none else some err
  | rounds + 1, err => if err > SimFloat.pi then unwindDown rounds (err - tau) else some err

/-- `while err < -PI { err += TAU; }`, in at most `rounds` rounds. -/
def unwindUp : Nat → F → Option F
  | 0, err => if err < -SimFloat.pi then none else some err
  | rounds + 1, err => if err < -SimFloat.pi then unwindUp rounds (err + tau) else some err

/-- The heading error after the two loops. -/
def headingError (rounds : Nat) (p : CarPose F) : Option F :=
  let want := SimFloat.atan2 ((path p.target).2 - p.y) ((path p.target).1 - p.x)
  (unwindDown rounds (want - p.theta)).bind (unwindUp rounds)

/-- The speed at a heading error. -/
def speedAt (speedMps err : F) : F := if max err (-err) > 0.6 then 0.05 else speedMps

def turnRate (err : F) : F := clamp err (-1.2) 1.2

/-- The pose after a turn of the loop with this heading error. -/
def drive (speedMps dt err : F) (p : CarPose F) : CarPose F :=
  let v := speedAt speedMps err
  let theta := p.theta + turnRate err * dt
  let x := p.x + v * SimFloat.cos theta * dt
  let y := p.y + v * SimFloat.sin theta * dt
  let dx := (path p.target).1 - x
  let dy := (path p.target).2 - y
  let target := if SimFloat.sqrt (dx * dx + dy * dy) < 0.15 then p.target + 1 else p.target
  ⟨x, y, theta, target⟩

/-! ## Lidar and telemetry -/

/-- One of the 500 beams. -/
def beam (noiseM : F) (p : CarPose F) (rng : UInt64) (i : Nat) : ScanPoint × UInt64 :=
  let lidarDeg := (i : F) * 360.0 / 500.0
  let bearing := p.theta - lidarDeg * (SimFloat.pi / 180.0)
  let (dist, rng) := match cast (p.x, p.y) bearing walls 12.0 with
    | some d =>
        let (eps, rng) := noise rng noiseM
        (max (d + eps) 0.05, rng)
    | none => (0.0, rng)
  (⟨.ofNat (SimFloat.asInt 0 65535 (SimFloat.round (lidarDeg * 64.0))).toNat,
    .ofNat (SimFloat.asInt 0 65535
      (clamp (SimFloat.round (dist * 1000.0 * 4.0)) 0.0 65535.0)).toNat,
    if dist > 0.0 then 47 else 0⟩, rng)

/-- The points of a frame, and the random numbers after it. -/
def beams (maxPoints : Nat) (noiseM : F) (p : CarPose F) (rng : UInt64) : List ScanPoint × UInt64 :=
  (List.range 500).foldl (fun q i =>
    let (point, rng) := beam noiseM p q.2 i
    (if q.1.length < maxPoints then q.1 ++ [point] else q.1, rng)) ([], rng)

/-- A coarse 3S curve for the simulated pack. -/
def olivawBatteryPercent (packMv : F) : UInt8 :=
  .ofNat (SimFloat.asInt 0 255
    (clamp ((packMv - 9900.0) / (12600.0 - 9900.0) * 100.0) 0.0 100.0)).toNat

/-- `-55 - ((x * 3.0) as i8)`. -/
def rssiDbm (x : F) : Option Int8 :=
  checkedSubI8 (-55) (.ofInt (SimFloat.asInt (-128) 127 (x * 3.0)))

/-- The duty of a wheel. -/
def wheel (speed : F) : Int16 :=
  .ofInt (SimFloat.asInt (-32768) 32767 (speed / 0.6 * 550.0))

/-- The readings of a turn; `none` if the subtraction overflows. -/
def telemetryReadings (batteryMv v omega x : F) (tMs : UInt32) : Option SimReadings :=
  (rssiDbm x).map fun rssiDbm =>
    { batteryMv := .ofNat (SimFloat.asInt 0 65535 batteryMv).toNat
      batteryPct := olivawBatteryPercent batteryMv
      left := wheel (v - omega * 0.08)
      right := wheel (v + omega * 0.08)
      uptimeS := tMs / 1000
      rssiDbm }

/-! ## The loop -/

namespace SimConfig

variable (cfg : SimConfig F)

def dt : F := SimFloat.toF64 (1.0 / max cfg.scanHz 1.0)

def dtMs : UInt32 := .ofNat (SimFloat.asInt 0 (2 ^ 32 - 1) (cfg.dt * 1000.0)).toNat

def scansPerSecond : UInt32 := .ofNat (SimFloat.asInt 0 (2 ^ 32 - 1) (max cfg.scanHz 1.0)).toNat

end SimConfig

variable {T : Type}

namespace Sim

/-- The simulator when `run` is called. -/
def new : Sim F T where
  phase := .starting
  pose := ⟨(path 0).1, (path 0).2, 0.0, 1⟩
  seq := 0
  tMs := 0
  batteryMv := 12400.0
  rng := 0x5EED
  sent := []

/-- What is done before the loop. -/
def start (cfg : SimConfig F) (s : Sim F T) (atMs : UInt64) (isOpen : Bool) : Sim F T :=
  match SimFloat.fromSecsF64 cfg.dt with
  | none => { s with phase := .panicked .duration }
  | some 0 => { s with phase := .panicked .zeroPeriod }
  | some _ =>
      { s with
        phase := .driving
        sent := s.sent ++ if isOpen then [⟨cfg.carId, atMs, .status "online"⟩] else [] }

/-- The frame of a turn goes out, and what follows of the turn. -/
def report (crate : SimCrate T) (cfg : SimConfig F) (s : Sim F T) (err : F) (t : SimTurn) :
    Sim F T :=
  let (points, rng) := beams crate.maxPoints cfg.noiseM s.pose s.rng
  let frame : ScanFrame := ⟨s.seq, s.tMs, points, 0⟩
  let s := { s with rng, seq := s.seq + 1, tMs := s.tMs + cfg.dtMs }
  if t.scanOpen then
    let s := { s with sent := s.sent ++ [⟨cfg.carId, t.scanMs, .scan frame⟩] }
    if s.seq % cfg.scansPerSecond = 0 then
      let s := { s with batteryMv := s.batteryMv - 0.6 }
      match telemetryReadings s.batteryMv (speedAt cfg.speedMps err) (turnRate err) s.pose.x
        s.tMs with
      | none => { s with phase := .panicked .overflow }
      | some r =>
          if t.telemetryOpen then
            { s with
              sent := s.sent ++ [⟨cfg.carId, t.telemetryMs, .telemetry (crate.telemetry r)⟩] }
          else { s with phase := .returned }
    else s
  else { s with phase := .returned }

/-- One turn of the loop. -/
def tick (crate : SimCrate T) (cfg : SimConfig F) (s : Sim F T) (t : SimTurn) :
    Option (Sim F T) :=
  (headingError t.rounds s.pose).map fun err =>
    { s with pose := drive cfg.speedMps cfg.dt err s.pose }.report crate cfg err t

end Sim

/-- `run`, one turn at a time. -/
def sim (crate : SimCrate T) (cfg : SimConfig F) : Machine (Sim F T) SimLabel where
  step s
    | .start atMs isOpen => if s.phase = .starting then some (s.start cfg atMs isOpen) else none
    | .tick t => if s.phase = .driving then s.tick crate cfg t else none

end Source

end OlivawHub
