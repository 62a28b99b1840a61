/-!
# Events entering the hub

`CarEvent` and its payloads. The telemetry record of `olivaw_proto` is copied around and
never looked into, so it is a type parameter `T`.
-/

namespace OlivawHub

/-- One lidar return, in the units of the wire format. -/
structure ScanPoint where
  angleQ6 : UInt16
  distQ2 : UInt16
  quality : UInt8
  deriving DecidableEq, Repr

/-- One lidar rotation. -/
structure ScanFrame where
  seq : UInt32
  tMs : UInt32
  points : List ScanPoint
  dropped : UInt16
  deriving DecidableEq, Repr

/-- Decoded payloads. -/
inductive EventKind (T : Type) where
  | status (s : String)
  | telemetry (t : T)
  | scan (frame : ScanFrame)
  deriving DecidableEq, Repr

/-- One thing a car said. -/
structure CarEvent (T : Type) where
  car : String
  atMs : UInt64
  kind : EventKind T
  deriving DecidableEq, Repr

variable {T : Type}

def CarEvent.status? (e : CarEvent T) : Option String :=
  match e.kind with
  | .status s => some s
  | _ => none

def CarEvent.telemetry? (e : CarEvent T) : Option T :=
  match e.kind with
  | .telemetry t => some t
  | _ => none

def CarEvent.scan? (e : CarEvent T) : Option ScanFrame :=
  match e.kind with
  | .scan frame => some frame
  | _ => none

end OlivawHub
