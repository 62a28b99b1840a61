import OlivawHub.State.Hub

/-!
# What a SLAM worker computes

The sequential part of `worker.rs`: the conversion of a rotation to a scan cloud
(`units.rs`), the tracking of one scan and the rendering of a map. `olivaw_slam` and
`olivaw_proto` are outside the repository, so they are the parameter `SlamLib`; the state
of a `Slam` is the type parameter `S`. How these functions are scheduled on a thread is
`OlivawHub.Slam.Thread`.
-/

namespace OlivawHub

/-- A scan in metres, ready for the matcher. -/
structure ScanCloud (F : Type) where
  points : List (Point2 F)
  timestampNs : UInt64

/-- The external crates and float functions a worker calls. -/
structure SlamLib (S F : Type) where
  isValid : ScanPoint → Bool
  distanceMm : ScanPoint → F
  angleDeg : ScanPoint → F
  toRadians : F → F
  cos : F → F
  sin : F → F
  /-- `Slam::process_scan`: the pose, or a rejection, and the state afterwards. -/
  processScan : S → ScanCloud F → Option (Pose2 F) × S
  transformPoint : Pose2 F → Point2 F → Point2 F
  keyframes : S → Nat
  loopsClosed : S → Nat
  grid : S → OccupancyGrid F
  paint : Painter F

/-- Tunables handed to the worker. -/
structure WorkerTuning where
  mapEveryScans : UInt32
  wsScanPoints : Nat
  deriving DecidableEq, Repr

/-- What the worker reports back to the pipeline. -/
inductive SlamOutput (F : Type) where
  | tracked (pose : PoseInfo F) (scanWorld : List (F × F))
  | map (snapshot : MapSnapshot F)
  deriving DecidableEq, Repr

/-- The pose and the scan of a `Tracked` output. -/
def SlamOutput.tracked? {F : Type} : SlamOutput F → Option (PoseInfo F × List (F × F))
  | .tracked pose scanWorld => some (pose, scanWorld)
  | .map _ => none

/-- The snapshot of a `Map` output. -/
def SlamOutput.map? {F : Type} : SlamOutput F → Option (MapSnapshot F)
  | .map snapshot => some snapshot
  | .tracked _ _ => none

/-- The local variables of a worker thread that outlive one scan. -/
structure WorkerState (S : Type) where
  slam : S
  processed : UInt32
  mapVersion : Nat

/-- The variables of a worker whose `Slam::new` returned `slam`. -/
def WorkerState.new {S : Type} (slam : S) : WorkerState S := ⟨slam, 0, 0⟩

variable {S F : Type} [HubFloat F]

/-- Convert a rotation to a scan cloud, dropping no-return points. -/
def scanFrameToCloud (lib : SlamLib S F) (frame : ScanFrame) (timestampNs : UInt64) :
    ScanCloud F where
  points := (frame.points.filter lib.isValid).map fun p =>
    let r := lib.distanceMm p / 1000.0
    let a := lib.toRadians (lib.angleDeg p)
    ⟨r * lib.cos a, -r * lib.sin a⟩
  timestampNs := timestampNs

/-- `iter().step_by(step)`: the elements at indices `0, step, 2·step, …`. -/
def stepBy {α : Type} (step : Nat) (l : List α) : List α :=
  (l.zipIdx.filter fun e => e.2 % step == 0).map Prod.fst

/-- Transform to the map frame and keep evenly spaced points. -/
def decimate (lib : SlamLib S F) (points : List (Point2 F)) (pose : Pose2 F) (cap : Nat) :
    List (F × F) :=
  let step := max (points.length / max cap 1) 1
  (stepBy step points).map fun p =>
    let w := lib.transformPoint pose p
    (HubFloat.asF32 w.x, HubFloat.asF32 w.y)

/-- The cloud of a taken frame. -/
def frameCloud (lib : SlamLib S F) (frame : ScanFrame) : ScanCloud F :=
  scanFrameToCloud lib frame (frame.tMs.toUInt64 * 1000000)

/-- From a taken frame to the `Tracked` output, if there is one: an empty cloud and a
rejected scan are skipped. `matchMs` is the measured time of the match. -/
def trackFrame (lib : SlamLib S F) (tuning : WorkerTuning) (st : WorkerState S)
    (frame : ScanFrame) (matchMs : F) : WorkerState S × Option (PoseInfo F × List (F × F)) :=
  let cloud := frameCloud lib frame
  if cloud.points.isEmpty then (st, none)
  else match lib.processScan st.slam cloud with
    | (none, slam) => ({ st with slam }, none)
    | (some pose, slam) =>
        ({ st with slam, processed := st.processed + 1 },
          some ({ x := pose.x, y := pose.y, theta := pose.theta, seq := frame.seq, matchMs,
                  keyframes := lib.keyframes slam, loops := lib.loopsClosed slam },
                decimate lib cloud.points pose tuning.wsScanPoints))

/-- `processed.is_multiple_of(map_every_scans.max(1))`. -/
def mapDue (tuning : WorkerTuning) (st : WorkerState S) : Bool :=
  st.processed % max tuning.mapEveryScans 1 == 0

/-- Render the next map; the version counts every attempt. -/
def renderMap (lib : SlamLib S F) (st : WorkerState S) :
    WorkerState S × Except RenderError (MapSnapshot F) :=
  let st := { st with mapVersion := st.mapVersion + 1 }
  (st, MapSnapshot.fromGrid lib.paint (lib.grid st.slam) st.mapVersion)

/-- `pose` and `scanWorld` are what some worker computed from this very frame. -/
def TrackedFrom (lib : SlamLib S F) (tuning : WorkerTuning) (frame : ScanFrame)
    (out : PoseInfo F × List (F × F)) : Prop :=
  ∃ st st' matchMs, trackFrame lib tuning st frame matchMs = (st', some out)

/-- A tracked pose carries the sequence number of its frame and the position the matcher
gave for the cloud of that frame. -/
theorem TrackedFrom.spec {lib : SlamLib S F} {tuning : WorkerTuning} {frame : ScanFrame}
    {out : PoseInfo F × List (F × F)} (h : TrackedFrom lib tuning frame out) :
    out.1.seq = frame.seq ∧ (frameCloud lib frame).points ≠ [] ∧
      ∃ slam pose, (lib.processScan slam (frameCloud lib frame)).1 = some pose ∧
        out.1.x = pose.x ∧ out.1.y = pose.y ∧ out.1.theta = pose.theta ∧
        out.2 = decimate lib (frameCloud lib frame).points pose tuning.wsScanPoints := by
  obtain ⟨st, st', matchMs, h⟩ := h
  unfold trackFrame at h
  dsimp only at h
  split at h
  · cases h
  · rename_i hEmpty
    split at h
    · cases h
    · rename_i pose slam hScan
      cases h
      refine ⟨rfl, by simpa using hEmpty, st.slam, pose, by rw [hScan], rfl, rfl, rfl, rfl⟩

theorem trackFrame_mapVersion (lib : SlamLib S F) (tuning : WorkerTuning)
    (st : WorkerState S) (frame : ScanFrame) (matchMs : F) :
    (trackFrame lib tuning st frame matchMs).1.mapVersion = st.mapVersion := by
  unfold trackFrame
  dsimp only
  split
  · rfl
  · split <;> rfl

theorem renderMap_mapVersion (lib : SlamLib S F) (st : WorkerState S) :
    (renderMap lib st).1.mapVersion = st.mapVersion + 1 := rfl

theorem renderMap_version {lib : SlamLib S F} {st : WorkerState S} {m : MapSnapshot F}
    (h : (renderMap lib st).2 = .ok m) : m.version = st.mapVersion + 1 :=
  MapSnapshot.fromGrid_version h

/-- A library to run workers with: it accepts every scan and counts them. -/
def countingLib : SlamLib Nat ℚ where
  isValid _ := true
  distanceMm p := p.distQ2.toNat
  angleDeg p := p.angleQ6.toNat
  toRadians := id
  cos := id
  sin := id
  processScan k _ := (some ⟨k, 0, 0⟩, k + 1)
  transformPoint _ p := p
  keyframes k := k
  loopsClosed _ := 0
  grid _ := ⟨1, 1, [0], ⟨0, 0⟩, 1⟩
  paint := ⟨id, fun _ => 0, fun _ _ gray => some gray⟩

end OlivawHub
