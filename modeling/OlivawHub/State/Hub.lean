import OlivawHub.Ingest.Events
import OlivawHub.Slam.MapPng
import OlivawHub.Foundations.Tables
import Mathlib.Data.String.Basic

/-!
# What the API serves

Per-car snapshots, the latest map, and the live event stream (`state.rs`). The broadcast
channel is the list of all values sent so far; what one receiver gets of it is
`Foundations.Broadcast`.
-/

namespace OlivawHub

open Foundations

/-- Pose of a car in the map frame. -/
structure PoseInfo (F : Type) where
  x : F
  y : F
  theta : F
  seq : UInt32
  matchMs : F
  keyframes : Nat
  loops : Nat
  deriving DecidableEq, Repr

/-- Map metadata sent to the dashboard. -/
structure MapInfo (F : Type) where
  /-- A `u64` in the source. -/
  version : Nat
  url : String
  origin : F × F
  resolution : F
  width : UInt32
  height : UInt32
  deriving DecidableEq, Repr

/-- Everything known about one car. -/
structure CarSnapshot (T F : Type) where
  id : String
  status : String
  telemetry : Option T
  pose : Option (PoseInfo F)
  trajectory : List (F × F)
  scan : List (F × F)
  map : Option (MapInfo F)
  lastSeenMs : UInt64
  /-- A `u64` in the source. -/
  scansTotal : Nat
  scanHz : F
  deriving DecidableEq, Repr

/-- A car we have just heard of. -/
def CarSnapshot.new {T F : Type} [HubFloat F] (id : String) : CarSnapshot T F where
  id := id
  status := "unknown"
  telemetry := none
  pose := none
  trajectory := []
  scan := []
  map := none
  lastSeenMs := 0
  scansTotal := 0
  scanHz := 0.0

/-- Live events pushed over `/ws`. -/
inductive WsEvent (T F : Type) where
  | hello (cars : List (CarSnapshot T F))
  | status (car : String) (status : String)
  | telemetry (car : String) (telemetry : T) (atMs : UInt64)
  | pose (car : String) (pose : PoseInfo F)
  | scan (car : String) (seq : UInt32) (points : List (F × F))
  | map (car : String) (map : MapInfo F)
  | stats (car : String) (scanHz : F) (scansTotal : Nat)
  deriving DecidableEq, Repr

/-- Shared hub state. -/
structure Hub (T F : Type) where
  cars : Table String (CarSnapshot T F)
  maps : Table String (MapSnapshot F)
  events : List (WsEvent T F)

namespace Hub

variable {T F : Type} [HubFloat F]

omit [HubFloat F] in
/-- Empty hub. -/
def new : Hub T F := ⟨∅, ∅, []⟩

/-- The snapshot of a car, or that of a car nobody has heard of. -/
def car (hub : Hub T F) (id : String) : CarSnapshot T F :=
  (hub.cars.lookup id).getD (CarSnapshot.new id)

/-- Mutate (creating) a car's snapshot. -/
def updateCar {R : Type} (hub : Hub T F) (id : String)
    (f : CarSnapshot T F → R × CarSnapshot T F) : R × Hub T F :=
  ((f (hub.car id)).1,
    { hub with cars := hub.cars.upsert id (CarSnapshot.new id) fun c => (f c).2 })

omit [HubFloat F] in
/-- All snapshots, sorted by id. -/
def snapshots (hub : Hub T F) : List (CarSnapshot T F) :=
  hub.cars.sortedValues CarSnapshot.id

omit [HubFloat F] in
/-- `hub.maps.write().insert(car, snapshot)`. -/
def insertMap (hub : Hub T F) (id : String) (m : MapSnapshot F) : Hub T F :=
  { hub with maps := hub.maps.insert id m }

omit [HubFloat F] in
/-- Broadcast to every WebSocket client. -/
def emit (hub : Hub T F) (e : WsEvent T F) : Hub T F :=
  { hub with events := hub.events ++ [e] }

section Lookup

variable {R : Type} (hub : Hub T F) (id : String) (f : CarSnapshot T F → R × CarSnapshot T F)

@[simp] theorem updateCar_maps : (hub.updateCar id f).2.maps = hub.maps := rfl

@[simp] theorem updateCar_events : (hub.updateCar id f).2.events = hub.events := rfl

@[simp] theorem lookup_updateCar_self :
    (hub.updateCar id f).2.cars.lookup id = some (f (hub.car id)).2 :=
  Table.lookup_upsert_self ..

theorem lookup_updateCar_ne {id' : String} (h : id' ≠ id) :
    (hub.updateCar id f).2.cars.lookup id' = hub.cars.lookup id' :=
  Table.lookup_upsert_ne _ _ _ h

@[simp] theorem car_updateCar_self : (hub.updateCar id f).2.car id = (f (hub.car id)).2 := by
  rw [car, lookup_updateCar_self, Option.getD_some]

theorem car_updateCar_ne {id' : String} (h : id' ≠ id) :
    (hub.updateCar id f).2.car id' = hub.car id' := by
  rw [car, lookup_updateCar_ne hub id f h, car]

theorem mem_updateCar (id' : String) :
    id' ∈ (hub.updateCar id f).2.cars ↔ id' = id ∨ id' ∈ hub.cars :=
  Table.mem_upsert ..

theorem car_new (id : String) : (Hub.new : Hub T F).car id = CarSnapshot.new id := by
  simp [car, Hub.new]

omit [HubFloat F] in
@[simp] theorem insertMap_cars (m : MapSnapshot F) : (hub.insertMap id m).cars = hub.cars := rfl

omit [HubFloat F] in
@[simp] theorem insertMap_events (m : MapSnapshot F) :
    (hub.insertMap id m).events = hub.events := rfl

omit [HubFloat F] in
@[simp] theorem emit_cars (e : WsEvent T F) : (hub.emit e).cars = hub.cars := rfl

omit [HubFloat F] in
@[simp] theorem emit_maps (e : WsEvent T F) : (hub.emit e).maps = hub.maps := rfl

omit [HubFloat F] in
@[simp] theorem emit_events (e : WsEvent T F) : (hub.emit e).events = hub.events ++ [e] := rfl

@[simp] theorem car_insertMap (m : MapSnapshot F) (id' : String) :
    (hub.insertMap id m).car id' = hub.car id' := rfl

@[simp] theorem car_emit (e : WsEvent T F) (id' : String) : (hub.emit e).car id' = hub.car id' :=
  rfl

end Lookup

end Hub

end OlivawHub
