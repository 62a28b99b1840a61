import OlivawHub.Pipeline.Program

/-!
# The actions of each pass

For every branch of the pipeline, the list of actions it performs on a hub and the local
tables it ends with (`onEvent_ops`, `onSlam_ops`, `statsTick_ops` and their `_fst`
companions). Later files argue about these lists and never unfold the programs again.
-/

namespace OlivawHub

open Foundations

section Perform

variable {T F : Type} [HubFloat F] {α : Type} (hub : Hub T F)

@[simp] theorem ops_ret (a : α) : (Prog.ret a : HubProg T F α).ops (hubHandler T F) hub = [] :=
  rfl

@[simp] theorem run_ret (a : α) :
    (Prog.ret a : HubProg T F α).run (hubHandler T F) hub = (a, hub) := rfl

@[simp] theorem ops_updateCar (id : String) (f : CarUpdate T F) (k : Unit → HubProg T F α) :
    (updateCar id f >>= k).ops (hubHandler T F) hub =
      .updateCar id f :: (k ()).ops (hubHandler T F) (hub.updateCar id f.apply).2 := rfl

@[simp] theorem run_updateCar (id : String) (f : CarUpdate T F) (k : Unit → HubProg T F α) :
    (updateCar id f >>= k).run (hubHandler T F) hub =
      (k ()).run (hubHandler T F) (hub.updateCar id f.apply).2 := rfl

@[simp] theorem ops_updateStatus (id s : String) (k : Bool → HubProg T F α) :
    (updateStatus id s >>= k).ops (hubHandler T F) hub =
      .updateCar id (.status s) :: (k (decide ((hub.car id).status ≠ s))).ops (hubHandler T F)
        (hub.updateCar id (CarUpdate.status s).apply).2 := rfl

@[simp] theorem run_updateStatus (id s : String) (k : Bool → HubProg T F α) :
    (updateStatus id s >>= k).run (hubHandler T F) hub =
      (k (decide ((hub.car id).status ≠ s))).run (hubHandler T F)
        (hub.updateCar id (CarUpdate.status s).apply).2 := rfl

@[simp] theorem ops_updateScanHz (id : String) (hz : F) (k : Nat → HubProg T F α) :
    (updateScanHz id hz >>= k).ops (hubHandler T F) hub =
      .updateCar id (.scanHz hz) :: (k (hub.car id).scansTotal).ops (hubHandler T F)
        (hub.updateCar id (CarUpdate.scanHz hz).apply).2 := rfl

@[simp] theorem run_updateScanHz (id : String) (hz : F) (k : Nat → HubProg T F α) :
    (updateScanHz id hz >>= k).run (hubHandler T F) hub =
      (k (hub.car id).scansTotal).run (hubHandler T F)
        (hub.updateCar id (CarUpdate.scanHz hz).apply).2 := rfl

@[simp] theorem ops_insertMap (id : String) (m : MapSnapshot F) (k : Unit → HubProg T F α) :
    (insertMap id m >>= k).ops (hubHandler T F) hub =
      .insertMap id m :: (k ()).ops (hubHandler T F) (hub.insertMap id m) := rfl

@[simp] theorem run_insertMap (id : String) (m : MapSnapshot F) (k : Unit → HubProg T F α) :
    (insertMap id m >>= k).run (hubHandler T F) hub =
      (k ()).run (hubHandler T F) (hub.insertMap id m) := rfl

@[simp] theorem ops_emit (e : WsEvent T F) (k : Unit → HubProg T F α) :
    (emit e >>= k).ops (hubHandler T F) hub =
      .emit e :: (k ()).ops (hubHandler T F) (hub.emit e) := rfl

@[simp] theorem run_emit (e : WsEvent T F) (k : Unit → HubProg T F α) :
    (emit e >>= k).run (hubHandler T F) hub = (k ()).run (hubHandler T F) (hub.emit e) := rfl

@[simp] theorem ops_spawnWorker (car : String) (w : Nat) (k : Unit → HubProg T F α) :
    (spawnWorker car w >>= k).ops (hubHandler T F) hub =
      .spawn car w :: (k ()).ops (hubHandler T F) hub := rfl

@[simp] theorem run_spawnWorker (car : String) (w : Nat) (k : Unit → HubProg T F α) :
    (spawnWorker car w >>= k).run (hubHandler T F) hub = (k ()).run (hubHandler T F) hub := rfl

@[simp] theorem ops_submit (w : Nat) (frame : ScanFrame) (k : Unit → HubProg T F α) :
    (submit w frame >>= k).ops (hubHandler T F) hub =
      .submit w frame :: (k ()).ops (hubHandler T F) hub := rfl

@[simp] theorem run_submit (w : Nat) (frame : ScanFrame) (k : Unit → HubProg T F α) :
    (submit w frame >>= k).run (hubHandler T F) hub = (k ()).run (hubHandler T F) hub := rfl

end Perform

variable {T F : Type} [HubFloat F]

/-! ## Car events -/

/-- The worker table after a scan of `car`. -/
def workersAfter (car : String) (spawned : Option Nat) (workers : Table String Nat) :
    Table String Nat :=
  if car ∈ workers then workers
  else match spawned with
    | some w => workers.insert car w
    | none => workers

/-- The actions that start a worker if needed and hand it the frame. -/
def workerOps (car : String) (spawned : Option Nat) (workers : Table String Nat)
    (frame : ScanFrame) : List (HubOp T F) :=
  match workers.lookup car, spawned with
  | some w, _ => [.submit w frame]
  | none, some w => [.spawn car w, .submit w frame]
  | none, none => []

/-- The actions of `onEvent` on a hub. -/
def eventOps (hub : Hub T F) (l : Locals F) (e : CarEvent T) (spawned : Option Nat) :
    List (HubOp T F) :=
  .updateCar e.car (.lastSeenMs e.atMs) ::
    match e.kind with
    | .status s =>
        .updateCar e.car (.status s) ::
          if (hub.car e.car).status ≠ s then [.emit (.status e.car s)] else []
    | .telemetry t => [.updateCar e.car (.telemetry t), .emit (.telemetry e.car t e.atMs)]
    | .scan frame => .updateCar e.car .scansTotal :: workerOps e.car spawned l.workers frame

/-- The local tables after `onEvent`. -/
def eventLocals (l : Locals F) (e : CarEvent T) (now : F) (spawned : Option Nat) : Locals F :=
  match e.kind with
  | .scan _ => ⟨workersAfter e.car spawned l.workers, countScan e.car now l.rates⟩
  | _ => l

theorem onEvent_spec (hub : Hub T F) (l : Locals F) (e : CarEvent T) (now : F)
    (spawned : Option Nat) :
    (onEvent e now spawned l).ops (hubHandler T F) hub = eventOps hub l e spawned ∧
      ((onEvent e now spawned l).run (hubHandler T F) hub).1 = eventLocals l e now spawned := by
  obtain ⟨car, atMs, kind⟩ := e
  cases kind with
  | status s =>
      by_cases h : (hub.car car).status = s
      · simp [onEvent, eventOps, eventLocals, CarUpdate.apply, h]
      · simp [onEvent, eventOps, eventLocals, CarUpdate.apply, h]
  | telemetry t => simp [onEvent, eventOps, eventLocals]
  | scan frame =>
      cases hw : l.workers.lookup car with
      | some w =>
          have hm : car ∈ l.workers := AList.lookup_isSome.mp (by simp [hw])
          simp [onEvent, eventOps, eventLocals, ensureWorker, workerOps, workersAfter, hm, hw]
      | none =>
          have hm : car ∉ l.workers := AList.lookup_eq_none.mp hw
          cases spawned with
          | some w =>
              simp [onEvent, eventOps, eventLocals, ensureWorker, workerOps, workersAfter, hm, hw]
          | none =>
              simp [onEvent, eventOps, eventLocals, ensureWorker, workerOps, workersAfter, hm, hw]

/-! ## SLAM outputs -/

/-- The actions of `onSlam`. -/
def slamOps (car : String) (output : SlamOutput F) (trajectoryLen : Nat) : List (HubOp T F) :=
  match output with
  | .tracked pose scanWorld =>
      [.updateCar car (.tracked pose scanWorld trajectoryLen), .emit (.pose car pose),
        .emit (.scan car pose.seq scanWorld)]
  | .map snapshot =>
      [.insertMap car snapshot, .updateCar car (.map (mapInfo car snapshot)),
        .emit (.map car (mapInfo car snapshot))]

theorem onSlam_ops {α : Type} (hub : Hub T F) (car : String) (output : SlamOutput F)
    (trajectoryLen : Nat) (a : α) :
    (onSlam car output trajectoryLen >>= fun _ => Prog.ret a).ops (hubHandler T F) hub =
      slamOps car output trajectoryLen := by
  cases output <;> rfl

theorem onSlam_fst {α : Type} (hub : Hub T F) (car : String) (output : SlamOutput F)
    (trajectoryLen : Nat) (a : α) :
    ((onSlam car output trajectoryLen >>= fun _ => Prog.ret a).run (hubHandler T F) hub).1 = a := by
  cases output <;> rfl

/-! ## The stats tick -/

/-- The actions of one iteration of the stats loop. -/
def visitOps (hub : Hub T F) (rates : Table String (CarRate F)) (v : Visit F) :
    List (HubOp T F) :=
  match rates.lookup v.car with
  | none => []
  | some rate =>
      [.updateCar v.car (.scanHz (rate.hz v.elapsedAt)),
        .emit (.stats v.car (rate.hz v.elapsedAt) (hub.car v.car).scansTotal)]

/-- The rate windows after one iteration. -/
def visitRates (rates : Table String (CarRate F)) (v : Visit F) : Table String (CarRate F) :=
  if v.car ∈ rates then rates.insert v.car ⟨v.resetAt, 0⟩ else rates

omit [HubFloat F] in
theorem lookup_visitRates_ne (rates : Table String (CarRate F)) (v : Visit F) {c : String}
    (h : c ≠ v.car) : (visitRates rates v).lookup c = rates.lookup c := by
  unfold visitRates
  split
  · exact AList.lookup_insert_ne h
  · rfl

omit [HubFloat F] in
theorem mem_visitRates (visits : List (Visit F)) (rates : Table String (CarRate F))
    (c : String) : c ∈ visits.foldl visitRates rates ↔ c ∈ rates := by
  induction visits generalizing rates with
  | nil => rfl
  | cons v vs ih =>
      refine (ih _).trans ?_
      unfold visitRates
      split
      · rename_i hv
        rw [AList.mem_insert]
        exact ⟨fun h => h.elim (fun h => h ▸ hv) id, Or.inr⟩
      · rfl

theorem visitOps_congr {hub hub' : Hub T F} {rates rates' : Table String (CarRate F)}
    {v : Visit F} (hRates : rates'.lookup v.car = rates.lookup v.car)
    (hHub : (hub'.car v.car).scansTotal = (hub.car v.car).scansTotal) :
    visitOps hub' rates' v = visitOps hub rates v := by
  unfold visitOps
  rw [hRates, hHub]

/-- The loop visits distinct cars, so each iteration sees the window and the total its car
had when the tick began. -/
theorem statsTick_spec {visits : List (Visit F)} (hNodup : (visits.map Visit.car).Nodup)
    (hub : Hub T F) (rates : Table String (CarRate F)) :
    (statsTick visits rates).ops (hubHandler T F) hub = visits.flatMap (visitOps hub rates) ∧
      ((statsTick visits rates).run (hubHandler T F) hub).1 = visits.foldl visitRates rates := by
  induction visits generalizing hub rates with
  | nil => exact ⟨rfl, rfl⟩
  | cons v vs ih =>
      simp only [List.map_cons, List.nodup_cons, List.mem_map, not_exists, not_and] at hNodup
      obtain ⟨hv, hRest⟩ := hNodup
      cases hr : rates.lookup v.car with
      | none =>
          have hm : v.car ∉ rates := AList.lookup_eq_none.mp hr
          obtain ⟨hOps, hRun⟩ := ih hRest hub rates
          simp [statsTick, visitOps, visitRates, hr, hm, hOps, hRun]
      | some rate =>
          have hm : v.car ∈ rates := AList.lookup_isSome.mp (by simp [hr])
          obtain ⟨hOps, hRun⟩ := ih hRest
            ((hub.updateCar v.car (CarUpdate.scanHz (rate.hz v.elapsedAt)).apply).2.emit
              (.stats v.car (rate.hz v.elapsedAt) (hub.car v.car).scansTotal))
            (rates.insert v.car ⟨v.resetAt, 0⟩)
          -- the later iterations concern other cars
          have hCongr : vs.flatMap (visitOps
              ((hub.updateCar v.car (CarUpdate.scanHz (rate.hz v.elapsedAt)).apply).2.emit
                (.stats v.car (rate.hz v.elapsedAt) (hub.car v.car).scansTotal))
              (rates.insert v.car ⟨v.resetAt, 0⟩)) = vs.flatMap (visitOps hub rates) := by
            refine List.flatMap_congr fun u hu => visitOps_congr ?_ ?_
            · exact AList.lookup_insert_ne (hv u hu)
            · rw [Hub.car_emit, Hub.car_updateCar_ne _ _ _ (hv u hu)]
          rw [hCongr] at hOps
          simp only [statsTick, hr, ops_updateScanHz, ops_emit, hOps, run_updateScanHz, run_emit,
            hRun, List.flatMap_cons, List.foldl_cons, visitOps, visitRates, hm, if_true,
            List.cons_append, List.nil_append, and_self]

/-! ## One pass -/

/-- The actions of a pass. -/
def bodyOps (trajectoryLen : Nat) (hub : Hub T F) (l : Locals F) : Input T F → List (HubOp T F)
  | .event e _ spawned => eventOps hub l e spawned
  | .slam car output => slamOps car output trajectoryLen
  | .tick visits => visits.flatMap (visitOps hub l.rates)

/-- The local tables after a pass. -/
def bodyLocals (l : Locals F) : Input T F → Locals F
  | .event e now spawned => eventLocals l e now spawned
  | .slam _ _ => l
  | .tick visits => { l with rates := visits.foldl visitRates l.rates }

omit [HubFloat F] in
theorem Input.Enabled.visits_nodup {l : Locals F} {visits : List (Visit F)}
    (h : (Input.tick visits : Input T F).Enabled l) : (visits.map Visit.car).Nodup :=
  h.nodup_iff.mpr l.rates.keys_nodup

theorem body_spec (trajectoryLen : Nat) {l : Locals F} {i : Input T F} (h : i.Enabled l)
    (hub : Hub T F) :
    (body trajectoryLen l i).ops (hubHandler T F) hub = bodyOps trajectoryLen hub l i ∧
      ((body trajectoryLen l i).run (hubHandler T F) hub).1 = bodyLocals l i := by
  cases i with
  | event e now spawned => exact onEvent_spec hub l e now spawned
  | slam car output =>
      exact ⟨onSlam_ops hub car output trajectoryLen l, onSlam_fst hub car output trajectoryLen l⟩
  | tick visits =>
      obtain ⟨hOps, hRun⟩ := statsTick_spec h.visits_nodup hub l.rates
      refine ⟨?_, ?_⟩
      · simp only [body, Prog.ops_bind, hOps, bodyOps]
        exact List.append_nil _
      · simp only [body, Prog.run_bind, hRun, bodyLocals]
        rfl

end OlivawHub
