import OlivawHub.Pipeline.Run
import OlivawHub.Foundations.Announcements

/-!
# The fields a client follows

Six fields of a snapshot are broadcast when they change. Each field of each car is a register
in the sense of `Foundations.Announcements`: the closures of `update_car` write it, the events
announce it, and every pass announces what it wrote before it writes again
(`announced_actionsOf`). `clientView` is what a client makes of the messages it received: `hello`
first, then the events.
-/

namespace OlivawHub

open Foundations

/-- The broadcast fields. -/
inductive Field where
  | status
  | telemetry
  | pose
  | scan
  | map
  | scanHz
  deriving DecidableEq, Repr

/-- The type of a field. -/
def Field.Value (T F : Type) : Field → Type
  | .status => String
  | .telemetry => Option T
  | .pose => Option (PoseInfo F)
  | .scan => List (F × F)
  | .map => Option (MapInfo F)
  | .scanHz => F

variable {T F : Type}

/-- A field of a snapshot. -/
def CarSnapshot.get (s : CarSnapshot T F) : (k : Field) → k.Value T F
  | .status => s.status
  | .telemetry => s.telemetry
  | .pose => s.pose
  | .scan => s.scan
  | .map => s.map
  | .scanHz => s.scanHz

/-- What a closure stores in a field. -/
def CarUpdate.sets : CarUpdate T F → (k : Field) → Option (k.Value T F)
  | .status s, .status => some s
  | .telemetry t, .telemetry => some (some t)
  | .scanHz hz, .scanHz => some hz
  | .tracked pose _ _, .pose => some (some pose)
  | .tracked _ scanWorld _, .scan => some scanWorld
  | .map info, .map => some (some info)
  | _, _ => none

variable [HubFloat F]

/-- What a message tells about a field of `c`. -/
def WsEvent.sets (c : String) : WsEvent T F → (k : Field) → Option (k.Value T F)
  | .hello cars, k => some (((cars.find? fun s => s.id = c).getD (CarSnapshot.new c)).get k)
  | .status car s, .status => if car = c then some s else none
  | .telemetry car t _, .telemetry => if car = c then some (some t) else none
  | .pose car p, .pose => if car = c then some (some p) else none
  | .scan car _ points, .scan => if car = c then some points else none
  | .map car info, .map => if car = c then some (some info) else none
  | .stats car hz _, .scanHz => if car = c then some hz else none
  | _, _ => none

/-- What a client does with a message, as far as the car `c` is concerned. -/
def WsEvent.overwrite (c : String) (s : CarSnapshot T F) : WsEvent T F → CarSnapshot T F
  | .hello cars => (cars.find? fun s => s.id = c).getD (CarSnapshot.new c)
  | .status car st => if car = c then { s with status := st } else s
  | .telemetry car t _ => if car = c then { s with telemetry := some t } else s
  | .pose car p => if car = c then { s with pose := some p } else s
  | .scan car _ points => if car = c then { s with scan := points } else s
  | .map car info => if car = c then { s with map := some info } else s
  | .stats car hz _ => if car = c then { s with scanHz := hz } else s

/-- The snapshot of `c` a client has after the messages it received. -/
def clientView (messages : List (WsEvent T F)) (c : String) : CarSnapshot T F :=
  messages.foldl (WsEvent.overwrite c) (CarSnapshot.new c)

theorem get_overwrite (c : String) (s : CarSnapshot T F) (e : WsEvent T F) (k : Field) :
    (e.overwrite c s).get k = (e.sets c k).getD (s.get k) := by
  cases e <;> cases k <;> simp only [WsEvent.overwrite, WsEvent.sets, CarSnapshot.get] <;>
    first
    | rfl
    | split <;> rfl

theorem get_foldl_overwrite (c : String) (s : CarSnapshot T F) (es : List (WsEvent T F))
    (k : Field) :
    (es.foldl (WsEvent.overwrite c) s).get k = latest (WsEvent.sets c · k) (s.get k) es := by
  induction es generalizing s with
  | nil => rfl
  | cons e es ih => rw [List.foldl_cons, ih, get_overwrite, latest_cons]

theorem get_clientView_append (messages es : List (WsEvent T F)) (c : String) (k : Field) :
    (clientView (messages ++ es) c).get k =
      latest (WsEvent.sets c · k) ((clientView messages c).get k) es := by
  rw [clientView, List.foldl_append, get_foldl_overwrite, clientView]

theorem get_apply (u : CarUpdate T F) (s : CarSnapshot T F) (k : Field) :
    (u.apply s).2.get k = (u.sets k).getD (s.get k) := by
  cases u <;> cases k <;> rfl

theorem get_applyAll (us : List (CarUpdate T F)) (s : CarSnapshot T F) (k : Field) :
    (s.applyAll us).get k = latest (CarUpdate.sets · k) (s.get k) us := by
  induction us generalizing s with
  | nil => rfl
  | cons u us ih => rw [CarSnapshot.applyAll_cons, ih, get_apply, latest_cons]

theorem id_applyAll (us : List (CarUpdate T F)) (s : CarSnapshot T F) :
    (s.applyAll us).id = s.id := by
  induction us generalizing s with
  | nil => rfl
  | cons u us ih =>
      rw [CarSnapshot.applyAll_cons, ih]
      cases u <;> rfl

/-- Snapshots carry the id of their car. -/
theorem Hub.id_of_lookup_after {os : List (HubOp T F)} {k : String} {snap : CarSnapshot T F}
    (h : (Hub.new.after os).cars.lookup k = some snap) : snap.id = k := by
  have hCar : (Hub.new.after os).car k = snap := by rw [Hub.car, h, Option.getD_some]
  rw [← hCar, Hub.after_car, id_applyAll, Hub.car_new]
  rfl

/-- At any moment a client that connects gets each car's own snapshot. -/
theorem find?_snapshots (os : List (HubOp T F)) (c : String) :
    ((Hub.new.after os).snapshots.find? fun s => s.id = c).getD (CarSnapshot.new c) =
      (Hub.new.after os).car c := by
  rw [Hub.snapshots, Table.find?_sortedValues fun k snap hk => Hub.id_of_lookup_after hk, Hub.car]

/-! ## Fields as registers -/

/-- What an action does to a field of `c`. -/
def HubOp.touch? (c : String) (k : Field) : HubOp T F → Option (Touch (k.Value T F))
  | .updateCar id f => if id = c then (f.sets k).map .write else none
  | .emit e => (e.sets c k).map .announce
  | _ => none

/-- What a list of actions does to a field of `c`. -/
def touches (c : String) (k : Field) (os : List (HubOp T F)) : List (Touch (k.Value T F)) :=
  os.filterMap (HubOp.touch? c k)

@[simp] theorem touches_nil (c : String) (k : Field) :
    touches c k ([] : List (HubOp T F)) = [] := rfl

@[simp] theorem touches_cons (c : String) (k : Field) (o : HubOp T F) (os : List (HubOp T F)) :
    touches c k (o :: os) = (o.touch? c k).toList ++ touches c k os :=
  filterMap_cons_toList ..

@[simp] theorem touches_append (c : String) (k : Field) (xs ys : List (HubOp T F)) :
    touches c k (xs ++ ys) = touches c k xs ++ touches c k ys := List.filterMap_append

theorem get_after (os : List (HubOp T F)) (hub : Hub T F) (c : String) (k : Field) :
    ((hub.after os).car c).get k =
      latest Touch.written? ((hub.car c).get k) (touches c k os) := by
  rw [Hub.after_car, get_applyAll, touches, carUpdates, latest_filterMap, latest_filterMap]
  congr 1
  funext o
  cases o with
  | updateCar id f => by_cases h : id = c <;> cases hf : f.sets k <;> simp [HubOp.touch?, h, hf]
  | emit e => cases he : e.sets c k <;> simp [HubOp.touch?, he]
  | insertMap id m => rfl
  | spawn car w => rfl
  | submit w frame => rfl

/-- What an action broadcasts is what it announces. -/
theorem told_by (c : String) (k : Field) (o : HubOp T F) :
    o.emitted?.bind (WsEvent.sets c · k) = (o.touch? c k).bind Touch.announced? := by
  cases o with
  | updateCar id f => by_cases h : id = c <;> cases hf : f.sets k <;> simp [HubOp.touch?, h, hf]
  | emit e => cases he : e.sets c k <;> simp [HubOp.touch?, he]
  | insertMap id m => rfl
  | spawn car w => rfl
  | submit w frame => rfl

theorem latest_emitted (os : List (HubOp T F)) (c : String) (k : Field) (v : k.Value T F) :
    latest (WsEvent.sets c · k) v (emitted os) =
      latest Touch.announced? v (touches c k os) := by
  rw [touches, emitted, latest_filterMap, latest_filterMap]
  exact congrArg (latest · v os) (funext fun o => told_by c k o)

/-- The values told of a field are those announced. -/
theorem told_eq_announced (os : List (HubOp T F)) (c : String) (k : Field) :
    (emitted os).filterMap (WsEvent.sets c · k) =
      (touches c k os).filterMap Touch.announced? := by
  rw [touches, emitted, List.filterMap_filterMap, List.filterMap_filterMap]
  exact congrArg (List.filterMap · os) (funext fun o => told_by c k o)

/-! ## Every pass announces what it writes -/

theorem touches_workerOps (c car : String) (k : Field) (spawned : Option Nat)
    (workers : Table String Nat) (frame : ScanFrame) :
    touches c k (workerOps car spawned workers frame : List (HubOp T F)) = [] := by
  unfold workerOps
  split <;> simp [HubOp.touch?]

/-- `on_event`: a status that did not change is the one case without an announcement. -/
theorem announced_eventOps (hub : Hub T F) (l : Locals F) (e : CarEvent T)
    (spawned : Option Nat) (c : String) (k : Field) :
    Announced ((hub.car c).get k) (touches c k (eventOps hub l e spawned)) := by
  obtain ⟨car, atMs, kind⟩ := e
  by_cases hCar : car = c
  · subst hCar
    cases kind with
    | status s =>
        by_cases hSame : (hub.car car).status = s
        · cases k <;> simp [eventOps, HubOp.touch?, CarUpdate.sets, hSame, Announced.nil]
          exact hSame ▸ Announced.nil.unchanged
        · cases k <;> simp [eventOps, HubOp.touch?, CarUpdate.sets, WsEvent.sets, hSame,
            Announced.nil]
          exact Announced.nil.told
    | telemetry t =>
        cases k <;> simp [eventOps, HubOp.touch?, CarUpdate.sets, WsEvent.sets, Announced.nil]
        exact Announced.nil.told
    | scan frame =>
        cases k <;> simp [eventOps, HubOp.touch?, CarUpdate.sets, touches_workerOps, Announced.nil]
  · cases kind with
    | status s =>
        by_cases hSame : (hub.car car).status = s <;> cases k <;>
          simp [eventOps, HubOp.touch?, WsEvent.sets, hCar, hSame, Announced.nil]
    | telemetry t => cases k <;> simp [eventOps, HubOp.touch?, WsEvent.sets, hCar, Announced.nil]
    | scan frame =>
        cases k <;> simp [eventOps, HubOp.touch?, hCar, touches_workerOps, Announced.nil]

theorem announced_slamOps (n : Nat) (car : String) (output : SlamOutput F) (c : String)
    (k : Field) (v : k.Value T F) :
    Announced v (touches c k (slamOps car output n : List (HubOp T F))) := by
  by_cases hCar : car = c
  · subst hCar
    cases output <;> cases k <;>
      simp [slamOps, HubOp.touch?, CarUpdate.sets, WsEvent.sets, Announced.nil]
    all_goals exact Announced.nil.told
  · cases output <;> cases k <;> simp [slamOps, HubOp.touch?, WsEvent.sets, hCar, Announced.nil]

omit [HubFloat F] in
/-- A sequence of announced writes, whatever the value was before. -/
theorem announced_flatMap {α : Type} {k : Field} {f : α → List (Touch (k.Value T F))}
    (h : ∀ a v, Announced v (f a)) (as : List α) (v : k.Value T F) :
    Announced v (as.flatMap f) := by
  induction as generalizing v with
  | nil => exact Announced.nil
  | cons a as ih => exact (h a v).append (ih _)

theorem announced_visits (hub : Hub T F) (rates : Table String (CarRate F))
    (visits : List (Visit F)) (c : String) (k : Field) (v : k.Value T F) :
    Announced v (touches c k (visits.flatMap (visitOps hub rates))) := by
  have hFlat : touches c k (visits.flatMap (visitOps hub rates)) =
      visits.flatMap fun u => touches c k (visitOps hub rates u) := List.filterMap_flatMap ..
  rw [hFlat]
  refine announced_flatMap (fun u v => ?_) visits v
  unfold visitOps
  split
  · exact Announced.nil
  · by_cases hCar : u.car = c
    · cases k <;> simp [HubOp.touch?, CarUpdate.sets, WsEvent.sets, hCar, Announced.nil]
      exact Announced.nil.told
    · cases k <;> simp [HubOp.touch?, WsEvent.sets, hCar, Announced.nil]

theorem announced_bodyOps (n : Nat) (hub : Hub T F) (l : Locals F) (i : Input T F) (c : String)
    (k : Field) : Announced ((hub.car c).get k) (touches c k (bodyOps n hub l i)) := by
  cases i with
  | event e now spawned => exact announced_eventOps hub l e spawned c k
  | slam car output => exact announced_slamOps n car output c k _
  | tick visits => exact announced_visits hub l.rates visits c k _

/-- In every run, every change of a field is announced within its pass. -/
theorem announced_actionsOf {n : Nat} {inputs : List (Input T F)} {s : Pipeline T F}
    (hRun : (pipeline T F n).exec Pipeline.new inputs = some s) (c : String) (k : Field) :
    Announced ((CarSnapshot.new c : CarSnapshot T F).get k) (touches c k (actionsOf n inputs)) := by
  refine actionsOf_induction
    (P := fun os => Announced ((CarSnapshot.new c).get k) (touches c k os)) Announced.nil ?_ hRun
  intro os l i _ ih
  rw [touches_append]
  refine ih.append ?_
  have hValue := get_after os Hub.new c k
  rw [Hub.car_new] at hValue
  rw [← hValue]
  exact announced_bodyOps n _ l i c k

end OlivawHub
