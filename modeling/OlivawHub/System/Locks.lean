import OlivawHub.System.Maps
import OlivawHub.Foundations.RwLocks

/-!
# The locks of the hub

`cars` and `maps` are each behind an `RwLock`. Here `update_car` first gets the write lock and then
does what its closure does one statement at a time, and a handler clones a table one entry at a
time, while everybody else goes on. No party ever waits for one lock while it holds the other.

Nothing of this can be told from outside: with both tables settled, every run is one of `observed`,
where actions and requests take one step each (`locked_refines_observed`). And whoever is inside a
lock leaves it, so that the next action of the pipeline is never blocked for good (`locks_drain`).
-/

namespace OlivawHub

open Foundations

variable {S T F : Type}

/-- The handlers that lock `cars`. -/
inductive CarsRequest where
  | cars
  | car (id : String)
  | hello
  deriving DecidableEq, Repr

/-- The handlers that lock `maps`. -/
inductive MapsRequest where
  | mapPng (id : String)
  | mapPgm (id : String)
  deriving DecidableEq, Repr

def CarsRequest.request : CarsRequest → Request
  | .cars => .cars
  | .car id => .car id
  | .hello => .hello

def MapsRequest.request : MapsRequest → Request
  | .mapPng id => .mapPng id
  | .mapPgm id => .mapPgm id

/-- `snapshots` under its lock: it clones the next entry, or sorts what it has cloned. -/
def cloneNext (cars : Table String (CarSnapshot T F)) (cloned : List (CarSnapshot T F))
    (answer : List (CarSnapshot T F) → Answer T F) : List (CarSnapshot T F) ⊕ Answer T F :=
  match cars.values[cloned.length]? with
  | some c => .inl (cloned ++ [c])
  | none => .inr (answer (cloned.insertionSort fun a b => a.id ≤ b.id))

/-- One look at `cars`. -/
def lookCars (cars : Table String (CarSnapshot T F)) (request : CarsRequest)
    (cloned : List (CarSnapshot T F)) : List (CarSnapshot T F) ⊕ Answer T F :=
  match request with
  | .cars => cloneNext cars cloned .cars
  | .car id =>
      .inr (.car (match cars.lookup id with
        | some c => .ok [("content-type", "application/json")] c
        | none => .notFound s!"no car {id}"))
  | .hello => cloneNext cars cloned fun v => .message (.hello v)

def carsReader : Reader (Table String (CarSnapshot T F)) CarsRequest (List (CarSnapshot T F))
    (Answer T F) := ⟨fun _ => [], lookCars⟩

/-- The one look at `maps`, which finds the map and copies its pixels. -/
def lookMaps (maps : Table String (MapSnapshot F)) (request : MapsRequest) (_ : Unit) :
    Unit ⊕ Answer T F :=
  match request with
  | .mapPng id =>
      .inr (.image (match maps.lookup id with
        | some m => m.pngResponse
        | none => .notFound s!"no map yet for {id}"))
  | .mapPgm id =>
      .inr (.image (match maps.lookup id with
        | some m => m.pgmResponse
        | none => .notFound s!"no map yet for {id}"))

def mapsReader : Reader (Table String (MapSnapshot F)) MapsRequest Unit (Answer T F) :=
  ⟨fun _ => (), lookMaps⟩

/-- The hub's concurrent core with its locks. `core.task.hub` is what memory holds. -/
structure Locked (S T F : Type) where
  core : System S T F
  cars : RwLock (Table String (CarSnapshot T F)) CarsRequest (List (CarSnapshot T F))
  maps : RwLock (Table String (MapSnapshot F)) MapsRequest Unit
  /-- The answers given, in the order in which the handlers left their locks. -/
  answers : List (Request × Answer T F)

/-- When `run` starts. -/
def Locked.new : Locked S T F := ⟨System.new, RwLock.free, RwLock.free, []⟩

/-- The steps. `act` performs the next action of the pipeline, or begins it by getting a lock. -/
inductive LockedStep (S T F : Type) where
  | system (l : SystemStep S T F)
  | cars (st : RwStep CarsRequest)
  | maps (st : RwStep MapsRequest)
  /-- A WebSocket session receives the event at position `k` of the stream. -/
  | receive (k : Nat)

def LockedStep.system? : LockedStep S T F → Option (SystemStep S T F)
  | .system l => some l
  | _ => none

/-- A step of a party that is inside a lock. -/
def LockedStep.Inside : LockedStep S T F → Prop
  | .cars (.enter _) => False
  | .cars _ => True
  | .maps (.enter _) => False
  | .maps _ => True
  | _ => False

variable [HubFloat F]

/-- The statements of a closure. -/
def CarUpdate.pieces : CarUpdate T F → List (CarSnapshot T F → CarSnapshot T F)
  | .lastSeenMs atMs => [fun c => { c with lastSeenMs := atMs }]
  | .status s => [fun c => { c with status := s }]
  | .telemetry t => [fun c => { c with telemetry := some t }]
  | .scansTotal => [fun c => { c with scansTotal := c.scansTotal + 1 }]
  | .scanHz hz => [fun c => { c with scanHz := hz }]
  | .tracked pose scanWorld len =>
      [fun c => { c with pose := some pose },
        fun c => { c with
          trajectory := c.trajectory ++ [(HubFloat.asF32 pose.x, HubFloat.asF32 pose.y)] },
        fun c => { c with
          trajectory :=
            if c.trajectory.length > len then c.trajectory.drop (c.trajectory.length - len)
            else c.trajectory },
        fun c => { c with scan := scanWorld }]
  | .map info => [fun c => { c with map := some info }]

/-- `update_car` under its lock: the entry is made if there is none, then the closure runs. -/
def updatePieces (id : String) (f : CarUpdate T F) :
    List (Table String (CarSnapshot T F) → Table String (CarSnapshot T F)) :=
  (fun cars => cars.upsert id (CarSnapshot.new id) fun c => c) ::
    f.pieces.map fun piece cars => cars.upsert id (CarSnapshot.new id) piece

namespace Locked

omit [HubFloat F] in
/-- The pipeline is in neither lock. -/
def Outside (s : Locked S T F) : Prop := s.cars.writer.isNone ∧ s.maps.writer.isNone

omit [HubFloat F] in
instance (s : Locked S T F) : Decidable s.Outside := by
  unfold Outside
  infer_instance

omit [HubFloat F] in
/-- The memory with these tables. -/
def withTables (core : System S T F) (cars : Table String (CarSnapshot T F))
    (maps : Table String (MapSnapshot F)) : System S T F :=
  { core with task := { core.task with hub := ⟨cars, maps, core.task.hub.events⟩ } }

omit [HubFloat F] in
/-- The pipeline goes on to `prog` after `o`, which left the hub like this. -/
def performed (core : System S T F) (o : HubOp T F) (prog : HubProg T F (Locals F))
    (hub : Hub T F) : System S T F :=
  { core with
    task := ⟨hub, prog, core.task.log ++ [o]⟩
    workers := spawnOrSubmit core.workers o }

/-- The next action of the pipeline. A closure replies what it finds before it writes. -/
def act (s : Locked S T F) : Option (Locked S T F) :=
  match s.core.task.prog.next (hubHandler T F) s.core.task.hub with
  | some (.updateCar id f, prog, _) =>
      (s.cars.acquire (updatePieces id f)).map fun cars =>
        { s with core := performed s.core (.updateCar id f) prog s.core.task.hub, cars }
  | some (.insertMap id m, prog, _) =>
      (s.maps.acquire [fun maps => maps.insert id m]).map fun maps =>
        { s with core := performed s.core (.insertMap id m) prog s.core.task.hub, maps }
  | some (o, prog, hub) => some { s with core := performed s.core o prog hub }
  | none => none

end Locked

/-- One step. -/
def locked (lib : SlamLib S F) (tuning : WorkerTuning) (n : Nat) :
    Machine (Locked S T F) (LockedStep S T F) where
  step s
    | .system .act => if s.Outside then s.act else none
    | .system (.worker i k) =>
        ((system lib tuning n).step s.core (.worker i k)).map fun core => { s with core }
    | .system l =>
        if s.Outside then ((system lib tuning n).step s.core l).map fun core => { s with core }
        else none
    | .cars st =>
        (s.cars.step carsReader s.core.task.hub.cars st).map fun (cars, value, out) =>
          { s with
            core := Locked.withTables s.core value s.core.task.hub.maps
            cars
            answers := s.answers ++ out.toList.map fun (r, answer) => (r.request, answer) }
    | .maps st =>
        (s.maps.step mapsReader s.core.task.hub.maps st).map fun (maps, value, out) =>
          { s with
            core := Locked.withTables s.core s.core.task.hub.cars value
            maps
            answers := s.answers ++ out.toList.map fun (r, answer) => (r.request, answer) }
    | .receive k =>
        (s.core.task.hub.serve (.event k)).map fun answer =>
          { s with answers := s.answers ++ [(.event k, answer)] }

omit [HubFloat F] in
/-- What happens at one moment when all the rest of a write or of a request is disregarded: a
request is served when its handler leaves the lock. -/
def Locked.moments (s : Locked S T F) : LockedStep S T F → List (SystemStep S T F ⊕ Request)
  | .system l => [.inl l]
  | .cars st =>
      match s.cars.step (carsReader : Reader _ _ _ (Answer T F)) s.core.task.hub.cars st with
      | some (_, _, some (r, _)) => [.inr r.request]
      | _ => []
  | .maps st =>
      match s.maps.step (mapsReader : Reader _ _ _ (Answer T F)) s.core.task.hub.maps st with
      | some (_, _, some (r, _)) => [.inr r.request]
      | _ => []
  | .receive k => [.inr (.event k)]

/-- The moments of a run. -/
def momentsOf (lib : SlamLib S F) (tuning : WorkerTuning) (n : Nat)
    (steps : List (LockedStep S T F)) : List (SystemStep S T F ⊕ Request) :=
  (locked lib tuning n).outputs Locked.moments Locked.new steps

/-! ## One write -/

theorem CarUpdate.foldl_pieces (f : CarUpdate T F) (c : CarSnapshot T F) :
    f.pieces.foldl (fun c piece => piece c) c = (f.apply c).2 := by
  cases f <;> rfl

theorem foldl_upsert (pieces : List (CarSnapshot T F → CarSnapshot T F)) (id : String)
    (cars : Table String (CarSnapshot T F)) (g : CarSnapshot T F → CarSnapshot T F) :
    (pieces.map fun piece (cars : Table String (CarSnapshot T F)) =>
        cars.upsert id (CarSnapshot.new id) piece).foldl (fun cars piece => piece cars)
          (cars.upsert id (CarSnapshot.new id) g) =
      cars.upsert id (CarSnapshot.new id) fun c => pieces.foldl (fun c piece => piece c) (g c) := by
  induction pieces generalizing g with
  | nil => rfl
  | cons piece pieces ih =>
      have hTwice : (cars.upsert id (CarSnapshot.new id) g).upsert id (CarSnapshot.new id) piece =
          cars.upsert id (CarSnapshot.new id) fun c => piece (g c) := by
        simp [Table.upsert, AList.insert_insert]
      simp only [List.map_cons, List.foldl_cons, hTwice, ih]

theorem foldl_updatePieces (hub : Hub T F) (id : String) (f : CarUpdate T F) :
    (updatePieces id f).foldl (fun cars piece => piece cars) hub.cars =
      (hub.updateCar id f.apply).2.cars := by
  rw [updatePieces, List.foldl_cons, foldl_upsert]
  simp only [CarUpdate.foldl_pieces]
  rfl

/-! ## One request -/

omit [HubFloat F] in
theorem carsReader_goesOn {cars : Table String (CarSnapshot T F)} {request : CarsRequest}
    {cloned cloned' : List (CarSnapshot T F)}
    (h : carsReader.GoesOn cars request cloned cloned') :
    ∃ c, cars.values[cloned.length]? = some c ∧ cloned' = cloned ++ [c] := by
  have hNext : ∀ answer, cloneNext cars cloned answer = .inl cloned' →
      ∃ c, cars.values[cloned.length]? = some c ∧ cloned' = cloned ++ [c] := by
    intro answer hClone
    unfold cloneNext at hClone
    split at hClone
    · rename_i c hc
      exact ⟨c, hc, (Sum.inl.inj hClone).symm⟩
    · cases hClone
  cases request with
  | cars => exact hNext .cars h
  | car id => cases h
  | hello => exact hNext (fun v => .message (.hello v)) h

omit [HubFloat F] in
theorem carsReader_terminates :
    (carsReader : Reader (Table String (CarSnapshot T F)) _ _ _).Terminates := by
  intro cars request cloned
  generalize hLeft : cars.values.length - cloned.length = left
  induction left using Nat.strongRecOn generalizing cloned with
  | ind left ih =>
      refine Acc.intro _ fun cloned' hLook => ?_
      obtain ⟨c, hc, rfl⟩ := carsReader_goesOn hLook
      obtain ⟨hLt, -⟩ := List.getElem?_eq_some_iff.mp hc
      refine ih _ ?_ _ rfl
      rw [List.length_append, List.length_singleton]
      omega

omit [HubFloat F] in
theorem mapsReader_terminates :
    (mapsReader : Reader (Table String (MapSnapshot F)) _ _ (Answer T F)).Terminates := by
  intro maps request k
  refine Acc.intro _ fun k' hLook => ?_
  cases request <;> cases hLook

omit [HubFloat F] in
/-- A reader that always looks at the same table has cloned its first entries. -/
theorem cloned_of_goesOn {cars : Table String (CarSnapshot T F)} {request : CarsRequest}
    {cloned : List (CarSnapshot T F)}
    (h : Relation.ReflTransGen (carsReader.GoesOn cars request) [] cloned) :
    cloned = cars.values.take cloned.length := by
  induction h with
  | refl => rfl
  | tail _ hLook ih =>
      obtain ⟨c, hc, rfl⟩ := carsReader_goesOn hLook
      rw [List.length_append, List.length_singleton, List.take_add_one, ← ih, hc]
      rfl

omit [HubFloat F] in
/-- The answer to a request that locks `cars` is the one for the hub at one moment. -/
theorem serve_of_carsReader {hub : Hub T F} {request : CarsRequest} {answer : Answer T F}
    (h : carsReader.Answers hub.cars request answer) :
    hub.serve request.request = some answer := by
  obtain ⟨cloned, hLooks, hLast⟩ := h
  have hCloned : cloned = hub.cars.values.take cloned.length := cloned_of_goesOn hLooks
  have hAll : ∀ f, cloneNext hub.cars cloned f = .inr answer → f hub.snapshots = answer := by
    intro f hClone
    unfold cloneNext at hClone
    split at hClone
    · cases hClone
    · rename_i hEnd
      rw [List.take_of_length_le (List.getElem?_eq_none_iff.mp hEnd)] at hCloned
      rw [hCloned] at hClone
      exact Sum.inr.inj hClone
  cases request with
  | cars => exact congrArg some (hAll .cars hLast)
  | car id => exact congrArg some (Sum.inr.inj hLast)
  | hello => exact congrArg some (hAll (fun v => .message (.hello v)) hLast)

omit [HubFloat F] in
theorem serve_of_mapsReader {hub : Hub T F} {request : MapsRequest} {answer : Answer T F}
    (h : mapsReader.Answers hub.maps request answer) :
    hub.serve request.request = some answer := by
  obtain ⟨_, -, hLast⟩ := h
  cases request with
  | mapPng id => exact congrArg some (Sum.inr.inj hLast)
  | mapPgm id => exact congrArg some (Sum.inr.inj hLast)

/-! ## The hub with settled tables -/

namespace Locked

variable {lib : SlamLib S F} {tuning : WorkerTuning} {n : Nat} {s s' : Locked S T F}

omit [HubFloat F] in
/-- The system as it is for everybody outside. -/
def settled (s : Locked S T F) : System S T F :=
  withTables s.core (s.cars.settled s.core.task.hub.cars) (s.maps.settled s.core.task.hub.maps)

/-- What every run keeps. -/
structure Consistent (s : Locked S T F) : Prop where
  cars : s.cars.Consistent carsReader s.core.task.hub.cars
  maps : s.maps.Consistent (mapsReader : Reader _ _ _ (Answer T F)) s.core.task.hub.maps

omit [HubFloat F] in
theorem Consistent.new : (Locked.new : Locked S T F).Consistent :=
  ⟨RwLock.Consistent.free _ _, RwLock.Consistent.free _ _⟩

omit [HubFloat F] in
theorem settled_of_outside (h : s.Outside) : s.settled = s.core := by
  obtain ⟨hCars, hMaps⟩ := h
  rw [settled, RwLock.settled_of_none (Option.isNone_iff_eq_none.mp hCars),
    RwLock.settled_of_none (Option.isNone_iff_eq_none.mp hMaps)]
  rfl

/-- A pass begins, or the pipeline stops: nothing happens to the hub. -/
theorem begin_hub {core core' : System S T F} {l : SystemStep S T F} (hAct : l ≠ .act)
    (hStep : (system lib tuning n).step core l = some core') :
    core'.task.hub = core.task.hub := by
  rcases system_cases hStep with ⟨i, task, -, -, hTask, rfl, -⟩ | ⟨_, _, _, rfl, -⟩ |
    ⟨_, _, _, _, _, -, -, -, -, hTask, -⟩ | ⟨-, -, hTask, -⟩
  · obtain ⟨_, -, -, hEq⟩ := task_begin.mp hTask
    rw [hEq]
  · exact absurd rfl hAct
  · rw [hTask]
  · rw [hTask]

/-- A step of a worker is the same whatever the tables hold. -/
theorem worker_step {i : Nat} {k : WorkerStep S F} {core' : System S T F}
    (hStep : (system lib tuning n).step s.core (.worker i k) = some core') :
    (system lib tuning n).step s.settled (.worker i k) =
      some ({ s with core := core' } : Locked S T F).settled := by
  simp only [system] at hStep ⊢
  split at hStep
  · rename_i w hw
    obtain ⟨⟨w', output⟩, hWorker, rfl⟩ := Option.map_eq_some_iff.mp hStep
    have hSame : s.settled.workers[i]? = some w := hw
    have hOpen : s.settled.isOpen = s.core.isOpen := rfl
    rw [hSame]
    simp only [hOpen, hWorker, Option.map_some]
    rfl
  · cases hStep

/-- The next action is performed at once, or a write begins that will come to it. -/
theorem act_step (h : s.Consistent) (hOutside : s.Outside) (hAct : s.act = some s') :
    s'.Consistent ∧ (system lib tuning n).step s.settled .act = some s'.settled ∧
      s'.answers = s.answers := by
  rw [settled_of_outside hOutside]
  obtain ⟨hCars, hMaps⟩ := hOutside
  rw [Option.isNone_iff_eq_none] at hCars hMaps
  unfold act at hAct
  split at hAct
  · rename_i id f prog hub hNext
    obtain ⟨cars, hAcquire, rfl⟩ := Option.map_eq_some_iff.mp hAct
    obtain ⟨hConsistent, -, hSettled⟩ :=
      RwLock.Consistent.acquire (R := carsReader (T := T) (F := F)) hAcquire s.core.task.hub.cars
    obtain ⟨-, -, rfl⟩ := Prog.ops_next hNext
    refine ⟨⟨hConsistent, h.maps⟩, ?_, rfl⟩
    simp only [system, hNext, Option.map_some, settled, withTables, performed, hSettled,
      foldl_updatePieces, RwLock.settled_of_none hMaps]
    rfl
  · rename_i id m prog hub hNext
    obtain ⟨maps, hAcquire, rfl⟩ := Option.map_eq_some_iff.mp hAct
    obtain ⟨hConsistent, -, hSettled⟩ :=
      RwLock.Consistent.acquire (R := mapsReader (T := T) (F := F)) hAcquire s.core.task.hub.maps
    obtain ⟨-, -, rfl⟩ := Prog.ops_next hNext
    refine ⟨⟨h.cars, hConsistent⟩, ?_, rfl⟩
    simp only [system, hNext, Option.map_some, settled, withTables, performed, hSettled,
      RwLock.settled_of_none hCars]
    rfl
  · rename_i o prog hub hUpdate hInsert hNext
    cases hAct
    obtain ⟨-, -, rfl⟩ := Prog.ops_next hNext
    have hTables : (hubHandler T F o s.core.task.hub).2.cars = s.core.task.hub.cars ∧
        (hubHandler T F o s.core.task.hub).2.maps = s.core.task.hub.maps := by
      cases o with
      | updateCar id f => exact absurd rfl (hUpdate id f)
      | insertMap id m => exact absurd rfl (hInsert id m)
      | emit e => exact ⟨rfl, rfl⟩
      | spawn car w => exact ⟨rfl, rfl⟩
      | submit w frame => exact ⟨rfl, rfl⟩
    refine ⟨⟨?_, ?_⟩, ?_, rfl⟩
    · rw [performed, hTables.1]
      exact h.cars
    · rw [performed, hTables.2]
      exact h.maps
    · simp only [system, hNext, Option.map_some, settled, withTables, performed,
        RwLock.settled_of_none hCars, RwLock.settled_of_none hMaps]
  · cases hAct

/-- A step that is not one of the system gives at most the answer to a request that has seen the
settled hub. -/
theorem inside_step (h : s.Consistent) {st : LockedStep S T F} (hSystem : st.system? = none)
    (hStep : (locked lib tuning n).step s st = some s') :
    s'.Consistent ∧ s'.settled = s.settled ∧ ∃ out, s'.answers = s.answers ++ out ∧
      s.moments st = out.map (fun a => .inr a.1) ∧
        ∀ a ∈ out, s.settled.task.hub.serve a.1 = some a.2 := by
  cases st with
  | system l => cases hSystem
  | cars st =>
      obtain ⟨⟨cars, value, out⟩, hCars, rfl⟩ := Option.map_eq_some_iff.mp hStep
      obtain ⟨hConsistent, hSettled, hOut⟩ := h.cars.step hCars
      refine ⟨⟨hConsistent, h.maps⟩, ?_, _, rfl, ?_, fun a ha => ?_⟩
      · simp only [settled, withTables, hSettled]
      · simp only [moments, hCars]
        cases out <;> rfl
      · obtain ⟨⟨request, answer⟩, hMem, rfl⟩ := List.mem_map.mp ha
        obtain ⟨hWriter, hAnswers⟩ := hOut request answer (Option.mem_toList.mp hMem)
        refine serve_of_carsReader ?_
        simp only [settled, withTables, RwLock.settled_of_none hWriter]
        exact hAnswers
  | maps st =>
      obtain ⟨⟨maps, value, out⟩, hMaps, rfl⟩ := Option.map_eq_some_iff.mp hStep
      obtain ⟨hConsistent, hSettled, hOut⟩ := h.maps.step hMaps
      refine ⟨⟨h.cars, hConsistent⟩, ?_, _, rfl, ?_, fun a ha => ?_⟩
      · simp only [settled, withTables, hSettled]
      · simp only [moments, hMaps]
        cases out <;> rfl
      · obtain ⟨⟨request, answer⟩, hMem, rfl⟩ := List.mem_map.mp ha
        obtain ⟨hWriter, hAnswers⟩ := hOut request answer (Option.mem_toList.mp hMem)
        refine serve_of_mapsReader ?_
        simp only [settled, withTables, RwLock.settled_of_none hWriter]
        exact hAnswers
  | receive k =>
      obtain ⟨answer, hServe, rfl⟩ := Option.map_eq_some_iff.mp hStep
      refine ⟨⟨h.cars, h.maps⟩, rfl, [(.event k, answer)], rfl, rfl, fun a ha => ?_⟩
      rw [List.mem_singleton.mp ha]
      exact hServe

/-- A step of the system is one of the system with settled tables. -/
theorem system_step (h : s.Consistent) {l : SystemStep S T F}
    (hStep : (locked lib tuning n).step s (.system l) = some s') :
    s'.Consistent ∧ (system lib tuning n).step s.settled l = some s'.settled ∧
      s'.answers = s.answers := by
  have hPass : ∀ core', l ≠ .act → s.Outside → (system lib tuning n).step s.core l = some core' →
      s' = { s with core := core' } → s'.Consistent ∧
        (system lib tuning n).step s.settled l = some s'.settled ∧ s'.answers = s.answers := by
    rintro core' hAct hOutside hCore rfl
    have hHub := begin_hub hAct hCore
    have hOutside' : ({ s with core := core' } : Locked S T F).Outside := hOutside
    rw [settled_of_outside hOutside, settled_of_outside hOutside']
    exact ⟨⟨hHub ▸ h.cars, hHub ▸ h.maps⟩, hCore, rfl⟩
  simp only [locked] at hStep
  cases l with
  | act =>
      obtain ⟨hOutside, hAct⟩ := Option.ite_none_right_eq_some.mp hStep
      exact act_step h hOutside hAct
  | worker i k =>
      obtain ⟨core', hCore, rfl⟩ := Option.map_eq_some_iff.mp hStep
      have hHub := begin_hub (by simp) hCore
      exact ⟨⟨hHub ▸ h.cars, hHub ▸ h.maps⟩, worker_step hCore, rfl⟩
  | event e now spawned =>
      obtain ⟨hOutside, hMap⟩ := Option.ite_none_right_eq_some.mp hStep
      obtain ⟨core', hCore, hEq⟩ := Option.map_eq_some_iff.mp hMap
      exact hPass core' (by simp) hOutside hCore hEq.symm
  | slam =>
      obtain ⟨hOutside, hMap⟩ := Option.ite_none_right_eq_some.mp hStep
      obtain ⟨core', hCore, hEq⟩ := Option.map_eq_some_iff.mp hMap
      exact hPass core' (by simp) hOutside hCore hEq.symm
  | tick visits =>
      obtain ⟨hOutside, hMap⟩ := Option.ite_none_right_eq_some.mp hStep
      obtain ⟨core', hCore, hEq⟩ := Option.map_eq_some_iff.mp hMap
      exact hPass core' (by simp) hOutside hCore hEq.symm
  | stop =>
      obtain ⟨hOutside, hMap⟩ := Option.ite_none_right_eq_some.mp hStep
      obtain ⟨core', hCore, hEq⟩ := Option.map_eq_some_iff.mp hMap
      exact hPass core' (by simp) hOutside hCore hEq.symm

end Locked

/-! ## Runs -/

/-- Requests served at one moment, one after the other. -/
theorem observed_reads {lib : SlamLib S F} {tuning : WorkerTuning} {n : Nat} {s : System S T F}
    {out : List (Request × Answer T F)}
    (hOut : ∀ a ∈ out, s.task.hub.serve a.1 = some a.2) (readings : List (Reading T F)) :
    (observed lib tuning n).exec (s, readings) (out.map fun a => .inr a.1) =
      some (s, readings ++ out.map fun a => ⟨a.1, s.task.hub, a.2⟩) := by
  induction out generalizing readings with
  | nil => simp
  | cons a out ih =>
      have hRead : (observed lib tuning n).step (s, readings) (.inr a.1) =
          some (s, readings ++ [⟨a.1, s.task.hub, a.2⟩]) := by
        simp [Machine.watch, readHub, hOut a List.mem_cons_self]
      rw [List.map_cons, Machine.exec_cons, hRead, Option.bind_some,
        ih fun b hb => hOut b (List.mem_cons_of_mem a hb), List.map_cons, List.append_assoc,
        List.singleton_append]

/-- The request and the answer of a reading. -/
def Reading.exchange (r : Reading T F) : Request × Answer T F := (r.request, r.answer)

/-- What every run keeps. -/
structure Locked.Atomic (lib : SlamLib S F) (tuning : WorkerTuning) (n : Nat)
    (steps : List (LockedStep S T F)) (s : Locked S T F) : Prop where
  consistent : s.Consistent
  run : ∃ readings, (observed lib tuning n).exec (System.new, []) (momentsOf lib tuning n steps) =
    some (s.settled, readings) ∧ readings.map Reading.exchange = s.answers

theorem Locked.Atomic.step {lib : SlamLib S F} {tuning : WorkerTuning} {n : Nat}
    {past : List (LockedStep S T F)} {s s' : Locked S T F} {st : LockedStep S T F}
    (hPast : (locked lib tuning n).exec Locked.new past = some s) (h : Atomic lib tuning n past s)
    (hStep : (locked lib tuning n).step s st = some s') :
    Atomic lib tuning n (past ++ [st]) s' := by
  obtain ⟨hConsistent, readings, hExec, hAnswers⟩ := h
  have hMoments : momentsOf lib tuning n (past ++ [st]) =
      momentsOf lib tuning n past ++ s.moments st := Machine.outputs_concat _ hPast st
  cases hKind : st.system? with
  | some l =>
      have hLabel : st = .system l := by
        cases st with
        | system l' => exact congrArg _ (Option.some.inj hKind)
        | cars st => cases hKind
        | maps st => cases hKind
        | receive k => cases hKind
      subst hLabel
      obtain ⟨hNext, hSystem, hSame⟩ := Locked.system_step hConsistent hStep
      refine ⟨hNext, readings, ?_, by rw [hAnswers, hSame]⟩
      rw [hMoments, Locked.moments, Machine.exec_snoc, hExec, Option.bind_some]
      exact Machine.watch_step_inl.mpr ⟨_, hSystem, rfl⟩
  | none =>
      obtain ⟨hNext, hSettled, out, hGiven, hOut, hServed⟩ :=
        Locked.inside_step hConsistent hKind hStep
      refine ⟨hNext, readings ++ out.map fun a => ⟨a.1, s.settled.task.hub, a.2⟩, ?_, ?_⟩
      · rw [hMoments, hOut, hSettled]
        exact Machine.exec_trans hExec (observed_reads hServed readings)
      · rw [List.map_append, hAnswers, hGiven, List.map_map]
        exact congrArg _ (List.map_id' out)

theorem Locked.Atomic.of_run {lib : SlamLib S F} {tuning : WorkerTuning} {n : Nat}
    {steps : List (LockedStep S T F)} {s : Locked S T F}
    (hRun : (locked lib tuning n).exec Locked.new steps = some s) :
    Atomic lib tuning n steps s :=
  Machine.exec_history (P := Atomic lib tuning n) ⟨.new, [], rfl, rfl⟩
    (fun _ _ _ _ hPast h hStep => h.step hPast hStep) hRun

/-- **Locks.** Every run with locks gives the same answers, in the same order, as the run in which
each action of the pipeline happens when it gets its lock and each request when its handler leaves
the lock. Its hub is what memory holds whenever no write is going on. -/
theorem locked_refines_observed (lib : SlamLib S F) (tuning : WorkerTuning) (n : Nat)
    (steps : List (LockedStep S T F)) (s : Locked S T F)
    (hRun : (locked lib tuning n).exec Locked.new steps = some s) :
    (∃ readings, (observed lib tuning n).exec (System.new, []) (momentsOf lib tuning n steps) =
      some (s.settled, readings) ∧ readings.map Reading.exchange = s.answers) ∧
      (s.Outside → s.settled = s.core) :=
  ⟨(Locked.Atomic.of_run hRun).run, Locked.settled_of_outside⟩

/-! ## Whoever is inside leaves -/

/-- The parties inside take some steps, which lead to these answers. -/
structure Locked.Drains (lib : SlamLib S F) (tuning : WorkerTuning) (n : Nat)
    (s s' : Locked S T F) (given : List (Request × Answer T F)) : Prop where
  run : ∃ steps, (∀ st ∈ steps, st.Inside) ∧ (locked lib tuning n).exec s steps = some s'
  consistent : s'.Consistent
  settled : s'.settled = s.settled
  answers : s'.answers = s.answers ++ given
  served : ∀ a ∈ given, s.settled.task.hub.serve a.1 = some a.2

namespace Locked.Drains

variable {lib : SlamLib S F} {tuning : WorkerTuning} {n : Nat} {s s' s'' : Locked S T F}
  {given given' : List (Request × Answer T F)}

theorem refl (h : s.Consistent) : Drains lib tuning n s s [] :=
  ⟨⟨[], by simp, rfl⟩, h, rfl, (List.append_nil _).symm, by simp⟩

theorem trans (h : Drains lib tuning n s s' given) (h' : Drains lib tuning n s' s'' given') :
    Drains lib tuning n s s'' (given ++ given') := by
  obtain ⟨steps, hInside, hRun⟩ := h.run
  obtain ⟨steps', hInside', hRun'⟩ := h'.run
  refine ⟨⟨steps ++ steps', ?_, Machine.exec_trans hRun hRun'⟩, h'.consistent,
    h'.settled.trans h.settled, ?_, ?_⟩
  · intro st hst
    exact (List.mem_append.mp hst).elim (hInside st) (hInside' st)
  · rw [h'.answers, h.answers, List.append_assoc]
  · intro a ha
    rcases List.mem_append.mp ha with hFirst | hSecond
    · exact h.served a hFirst
    · rw [← h.settled]
      exact h'.served a hSecond

theorem of_step (h : s.Consistent) {st : LockedStep S T F} (hInside : st.Inside)
    (hStep : (locked lib tuning n).step s st = some s') :
    ∃ given, Drains lib tuning n s s' given ∧
      given.map Prod.fst = (s.moments st).filterMap Sum.getRight? := by
  have hSystem : st.system? = none := by
    cases st with
    | system l => exact hInside.elim
    | cars st => rfl
    | maps st => rfl
    | receive k => rfl
  obtain ⟨hConsistent, hSettled, given, hAnswers, hMoments, hServed⟩ :=
    inside_step h hSystem hStep
  refine ⟨given, ⟨⟨[st], by simpa using hInside, ?_⟩, hConsistent, hSettled, hAnswers, hServed⟩,
    ?_⟩
  · rw [Machine.exec_cons, hStep]
    rfl
  · rw [hMoments, List.filterMap_map]
    exact (congrFun (List.filterMap_eq_map (f := Prod.fst)) given).symm

/-- The parties inside `cars` leave. -/
theorem cars (lib : SlamLib S F) (tuning : WorkerTuning) (n : Nat) (h : s.Consistent) :
    ∃ s' given, Drains lib tuning n s s' given ∧ s'.cars = RwLock.free ∧ s'.maps = s.maps ∧
      (given.map Prod.fst).Perm ((s.cars.readers.map Prod.fst).map CarsRequest.request) := by
  refine RwLock.drain (R := carsReader (T := T) (F := F)) (P := fun l v => ∀ s : Locked S T F,
    s.Consistent → s.cars = l → s.core.task.hub.cars = v →
      ∃ s' given, Drains lib tuning n s s' given ∧ s'.cars = RwLock.free ∧ s'.maps = s.maps ∧
        (given.map Prod.fst).Perm ((l.readers.map Prod.fst).map CarsRequest.request))
    carsReader_terminates ?_ ?_ h.cars s h rfl rfl
  · rintro v s h hFree -
    exact ⟨s, [], refl h, hFree, rfl, List.Perm.refl _⟩
  · rintro l v st l' v' out hEnter hLock ih s h rfl rfl
    have hInside : (LockedStep.cars st : LockedStep S T F).Inside := by
      cases st with
      | enter request => exact absurd rfl (hEnter request)
      | write => trivial
      | release => trivial
      | look i => trivial
    obtain ⟨next, hStep, hCars, hSame, hValue⟩ : ∃ next,
        (locked lib tuning n).step s (.cars st) = some next ∧ next.cars = l' ∧
          next.maps = s.maps ∧ next.core.task.hub.cars = v' :=
      ⟨_, congrArg (Option.map _) hLock, rfl, rfl, rfl⟩
    obtain ⟨given, hFirst, hGiven⟩ := of_step h hInside hStep
    obtain ⟨s', later, hLater, hFree, hMaps, hPerm⟩ := ih next hFirst.consistent hCars hValue
    refine ⟨s', given ++ later, hFirst.trans hLater, hFree, hMaps.trans hSame, ?_⟩
    have hOut : given.map Prod.fst = (out.toList.map Prod.fst).map CarsRequest.request := by
      rw [hGiven]
      simp only [moments, hLock]
      cases out <;> rfl
    have hAll := (RwLock.readers_perm hEnter hLock).map CarsRequest.request
    rw [List.map_append] at hAll
    rw [List.map_append, hOut]
    exact (hPerm.append_left _).trans hAll.symm

/-- The parties inside `maps` leave. -/
theorem maps (lib : SlamLib S F) (tuning : WorkerTuning) (n : Nat) (h : s.Consistent) :
    ∃ s' given, Drains lib tuning n s s' given ∧ s'.maps = RwLock.free ∧ s'.cars = s.cars ∧
      (given.map Prod.fst).Perm ((s.maps.readers.map Prod.fst).map MapsRequest.request) := by
  refine RwLock.drain (R := mapsReader (T := T) (F := F)) (P := fun l v => ∀ s : Locked S T F,
    s.Consistent → s.maps = l → s.core.task.hub.maps = v →
      ∃ s' given, Drains lib tuning n s s' given ∧ s'.maps = RwLock.free ∧ s'.cars = s.cars ∧
        (given.map Prod.fst).Perm ((l.readers.map Prod.fst).map MapsRequest.request))
    mapsReader_terminates ?_ ?_ h.maps s h rfl rfl
  · rintro v s h hFree -
    exact ⟨s, [], refl h, hFree, rfl, List.Perm.refl _⟩
  · rintro l v st l' v' out hEnter hLock ih s h rfl rfl
    have hInside : (LockedStep.maps st : LockedStep S T F).Inside := by
      cases st with
      | enter request => exact absurd rfl (hEnter request)
      | write => trivial
      | release => trivial
      | look i => trivial
    obtain ⟨next, hStep, hMaps, hSame, hValue⟩ : ∃ next,
        (locked lib tuning n).step s (.maps st) = some next ∧ next.maps = l' ∧
          next.cars = s.cars ∧ next.core.task.hub.maps = v' :=
      ⟨_, congrArg (Option.map _) hLock, rfl, rfl, rfl⟩
    obtain ⟨given, hFirst, hGiven⟩ := of_step h hInside hStep
    obtain ⟨s', later, hLater, hFree, hCars, hPerm⟩ := ih next hFirst.consistent hMaps hValue
    refine ⟨s', given ++ later, hFirst.trans hLater, hFree, hCars.trans hSame, ?_⟩
    have hOut : given.map Prod.fst = (out.toList.map Prod.fst).map MapsRequest.request := by
      rw [hGiven]
      simp only [moments, hLock]
      cases out <;> rfl
    have hAll := (RwLock.readers_perm hEnter hLock).map MapsRequest.request
    rw [List.map_append] at hAll
    rw [List.map_append, hOut]
    exact (hPerm.append_left _).trans hAll.symm

end Locked.Drains

/-- The requests whose handlers are inside a lock. -/
def Locked.requests (s : Locked S T F) : List Request :=
  (s.cars.readers.map Prod.fst).map CarsRequest.request ++
    (s.maps.readers.map Prod.fst).map MapsRequest.request

/-- Nothing stops the pipeline from its next action once both locks are free. -/
theorem Locked.act_of_free {lib : SlamLib S F} {tuning : WorkerTuning} {n : Nat}
    {s : Locked S T F} (hCars : s.cars = RwLock.free) (hMaps : s.maps = RwLock.free)
    (hBusy : ¬s.core.task.Idle) : ∃ s', (locked lib tuning n).step s (.system .act) = some s' := by
  have hOutside : s.Outside := by
    rw [Outside, hCars, hMaps]
    exact ⟨rfl, rfl⟩
  cases hProg : s.core.task.prog with
  | ret l => exact absurd ⟨l, hProg⟩ hBusy
  | op o k =>
      simp only [locked, if_pos hOutside, act, hProg, Prog.next, hCars, hMaps]
      cases o <;> exact ⟨_, rfl⟩

/-- **No deadlock.** From every state that can be reached, those who are inside the locks, on their
own, leave them: the write that is going on comes to its end, every handler inside gets the answer
for the settled hub, no request is forgotten, and the pipeline, if it is in a pass, can go on. -/
theorem locks_drain (lib : SlamLib S F) (tuning : WorkerTuning) (n : Nat)
    (steps : List (LockedStep S T F)) (s : Locked S T F)
    (hRun : (locked lib tuning n).exec Locked.new steps = some s) :
    ∃ leaving s' given, (∀ st ∈ leaving, st.Inside) ∧
      (locked lib tuning n).exec s leaving = some s' ∧
      s'.cars = RwLock.free ∧ s'.maps = RwLock.free ∧ s'.core = s.settled ∧
      s'.answers = s.answers ++ given ∧ (given.map Prod.fst).Perm s.requests ∧
      (∀ a ∈ given, s.settled.task.hub.serve a.1 = some a.2) ∧
      (¬s'.core.task.Idle → ∃ s'', (locked lib tuning n).step s' (.system .act) = some s'') := by
  have h := (Locked.Atomic.of_run hRun).consistent
  obtain ⟨t, first, hFirst, hCars, hSame, hFirstPerm⟩ := Locked.Drains.cars lib tuning n h
  obtain ⟨s', second, hSecond, hMaps, hKept, hSecondPerm⟩ :=
    Locked.Drains.maps lib tuning n hFirst.consistent
  have hAll := hFirst.trans hSecond
  obtain ⟨leaving, hInside, hLeave⟩ := hAll.run
  have hFree : s'.cars = RwLock.free := hKept.trans hCars
  have hOutside : s'.Outside := by
    rw [Locked.Outside, hFree, hMaps]
    exact ⟨rfl, rfl⟩
  refine ⟨leaving, s', first ++ second, hInside, hLeave, hFree, hMaps, ?_, hAll.answers, ?_,
    hAll.served, Locked.act_of_free hFree hMaps⟩
  · rw [← hAll.settled, Locked.settled_of_outside hOutside]
  · rw [hSame] at hSecondPerm
    rw [List.map_append]
    exact hFirstPerm.append hSecondPerm

/-- A handler that lists the cars is overtaken by one that asks for `a`. Then the pipeline is
halfway through a write, and a `hello` has to wait. -/
def overtaken : List (LockedStep Nat Unit ℚ) :=
  [.system (.event ⟨"b", 5, .status "online"⟩ 0 false), .system .act, .cars .write, .cars .write,
    .cars .release, .cars (.enter .cars), .cars (.look 0), .cars (.enter (.car "a")),
    .cars (.look 1), .cars (.look 0), .system .act, .cars .write]

theorem locked_refines_observed_overtaken : ∃ s,
    (locked countingLib ⟨1, 1⟩ 5).exec Locked.new overtaken = some s ∧
      s.answers.map Prod.fst = [.car "a", .cars] ∧
      (locked countingLib ⟨1, 1⟩ 5).step s (.cars (.enter .hello)) = none ∧
      ∃ readings, (observed countingLib ⟨1, 1⟩ 5).exec (System.new, [])
          (momentsOf countingLib ⟨1, 1⟩ 5 overtaken) = some (s.settled, readings) ∧
        readings.map Reading.exchange = s.answers :=
  ⟨_, rfl, rfl, rfl, (locked_refines_observed countingLib ⟨1, 1⟩ 5 overtaken _ rfl).1⟩

theorem locks_drain_overtaken : ∃ s,
    (locked countingLib ⟨1, 1⟩ 5).exec Locked.new overtaken = some s ∧
      ∃ leaving s' given, (∀ st ∈ leaving, st.Inside) ∧
        (locked countingLib ⟨1, 1⟩ 5).exec s leaving = some s' ∧
        s'.cars = RwLock.free ∧ s'.maps = RwLock.free ∧ s'.core = s.settled ∧
        s'.answers = s.answers ++ given ∧ (given.map Prod.fst).Perm s.requests ∧
        (∀ a ∈ given, s.settled.task.hub.serve a.1 = some a.2) ∧
        (¬s'.core.task.Idle →
          ∃ s'', (locked countingLib ⟨1, 1⟩ 5).step s' (.system .act) = some s'') :=
  ⟨_, rfl, locks_drain countingLib ⟨1, 1⟩ 5 overtaken _ rfl⟩

end OlivawHub
