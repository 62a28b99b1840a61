import OlivawHub.System.Views

/-!
# Readers never see the hub go back

Nothing is ever taken out of the hub, counters only count up and the versions of maps ascend,
between any two actions of the pipeline and not just between its passes (`Hub.Grows`). So a
reader that comes later finds every car an earlier one was shown, with at least as many scans and
no older a map, and no event of the stream changes (`reads_never_go_back`).
-/

namespace OlivawHub

open Foundations

variable {S T F : Type}

/-- `s'` may come after `s`. -/
structure CarSnapshot.Grows (s s' : CarSnapshot T F) : Prop where
  id : s'.id = s.id
  scansTotal : s.scansTotal ≤ s'.scansTotal
  telemetry : s.telemetry.isSome → s'.telemetry.isSome
  pose : s.pose.isSome → s'.pose.isSome
  trajectory : s.trajectory.length ≤ s'.trajectory.length
  map : ∀ info ∈ s.map, ∃ info' ∈ s'.map, info.version ≤ info'.version

/-- `hub'` may come after `hub`. -/
structure Hub.Grows (hub hub' : Hub T F) : Prop where
  cars : ∀ id snap, hub.cars.lookup id = some snap →
    ∃ snap', hub'.cars.lookup id = some snap' ∧ snap.Grows snap'
  maps : ∀ id m, hub.maps.lookup id = some m →
    ∃ m', hub'.maps.lookup id = some m' ∧ m.version ≤ m'.version
  events : hub.events <+: hub'.events

namespace CarSnapshot.Grows

variable {s s' s'' : CarSnapshot T F}

theorem refl (s : CarSnapshot T F) : s.Grows s :=
  ⟨rfl, le_rfl, fun h => h, fun h => h, le_rfl, fun info hInfo => ⟨info, hInfo, le_rfl⟩⟩

theorem trans (h : s.Grows s') (h' : s'.Grows s'') : s.Grows s'' where
  id := h'.id.trans h.id
  scansTotal := h.scansTotal.trans h'.scansTotal
  telemetry hTold := h'.telemetry (h.telemetry hTold)
  pose hTold := h'.pose (h.pose hTold)
  trajectory := h.trajectory.trans h'.trajectory
  map := by
    intro info hInfo
    obtain ⟨info', hInfo', hLe⟩ := h.map info hInfo
    obtain ⟨info'', hInfo'', hLe'⟩ := h'.map info' hInfo'
    exact ⟨info'', hInfo'', hLe.trans hLe'⟩

end CarSnapshot.Grows

namespace Hub.Grows

variable {hub hub' hub'' : Hub T F}

theorem refl (hub : Hub T F) : hub.Grows hub :=
  ⟨fun _ snap hSnap => ⟨snap, hSnap, .refl snap⟩, fun _ m hm => ⟨m, hm, le_rfl⟩, List.prefix_rfl⟩

theorem trans (h : hub.Grows hub') (h' : hub'.Grows hub'') : hub.Grows hub'' := by
  refine ⟨fun id snap hSnap => ?_, fun id m hm => ?_, h.events.trans h'.events⟩
  · obtain ⟨snap', hSnap', hGrows⟩ := h.cars id snap hSnap
    obtain ⟨snap'', hSnap'', hGrows'⟩ := h'.cars id snap' hSnap'
    exact ⟨snap'', hSnap'', hGrows.trans hGrows'⟩
  · obtain ⟨m', hm', hLe⟩ := h.maps id m hm
    obtain ⟨m'', hm'', hLe'⟩ := h'.maps id m' hm'
    exact ⟨m'', hm'', hLe.trans hLe'⟩

end Hub.Grows

/-! ## One closure -/

theorem length_pushTrajectory {α : Type} (l : List α) (p : α) (n : Nat) :
    (pushTrajectory l p n).length = min (l.length + 1) n := by
  simp only [pushTrajectory]
  split
  · rename_i hLong
    rw [List.length_append, List.length_singleton] at hLong
    rw [List.length_drop, List.length_append, List.length_singleton]
    omega
  · rename_i hShort
    rw [List.length_append, List.length_singleton] at hShort ⊢
    omega

/-- A trajectory is cut to `n` positions, and to nothing else. -/
def CarUpdate.CutsTo (n : Nat) : CarUpdate T F → Prop
  | .tracked _ _ len => len = n
  | _ => True

variable [HubFloat F]

theorem CarUpdate.grows {n : Nat} {u : CarUpdate T F} {s : CarSnapshot T F} (hCut : u.CutsTo n)
    (hShort : s.trajectory.length ≤ n)
    (hMap : ∀ info, u = .map info → ∀ old ∈ s.map, old.version ≤ info.version) :
    s.Grows (u.apply s).2 := by
  have hSame := CarSnapshot.Grows.refl s
  cases u with
  | lastSeenMs atMs => exact { hSame with }
  | status status => exact { hSame with }
  | telemetry t => exact { hSame with telemetry := fun _ => rfl }
  | scansTotal => exact { hSame with scansTotal := Nat.le_succ _ }
  | scanHz hz => exact { hSame with }
  | tracked pose scanWorld len =>
      obtain rfl : len = n := hCut
      refine { hSame with pose := fun _ => rfl, trajectory := ?_ }
      show _ ≤ (pushTrajectory s.trajectory _ len).length
      rw [length_pushTrajectory]
      omega
  | map info => exact { hSame with map := fun old hOld => ⟨info, rfl, hMap info rfl old hOld⟩ }

theorem length_trajectory_le {n : Nat} {us : List (CarUpdate T F)} (hCut : ∀ u ∈ us, u.CutsTo n)
    {s : CarSnapshot T F} (hShort : s.trajectory.length ≤ n) :
    (s.applyAll us).trajectory.length ≤ n := by
  induction us generalizing s with
  | nil => exact hShort
  | cons u us ih =>
      refine ih (fun v hv => hCut v (List.mem_cons_of_mem _ hv)) ?_
      have hHead := hCut u List.mem_cons_self
      cases u with
      | tracked pose scanWorld len =>
          obtain rfl : len = n := hHead
          show (pushTrajectory s.trajectory _ len).length ≤ len
          rw [length_pushTrajectory]
          exact min_le_right _ _
      | lastSeenMs atMs => exact hShort
      | status status => exact hShort
      | telemetry t => exact hShort
      | scansTotal => exact hShort
      | scanHz hz => exact hShort
      | map info => exact hShort

/-! ## One action -/

omit [HubFloat F] in
/-- Trajectories are cut to `n` positions, and `hello` is for the client that connects. -/
def HubOp.Regular (n : Nat) : HubOp T F → Prop
  | .updateCar _ u => u.CutsTo n
  | .emit (.hello _) => False
  | _ => True

theorem regular_bodyOps {n : Nat} {hub : Hub T F} {l : Locals F} {i : Input T F} {o : HubOp T F}
    (h : o ∈ bodyOps n hub l i) : o.Regular n := by
  cases i with
  | event e now spawned =>
      rcases mem_eventOps h with rfl | rfl | ⟨_, rfl⟩ | ⟨_, rfl⟩ | ⟨_, rfl⟩ | ⟨_, _, rfl⟩
      · trivial
      · cases e.kind <;> trivial
      all_goals trivial
  | slam car output =>
      cases output with
      | tracked pose scanWorld =>
          simp only [bodyOps, slamOps, List.mem_cons, List.not_mem_nil, or_false] at h
          rcases h with rfl | rfl | rfl
          · exact rfl
          · trivial
          · trivial
      | map snapshot =>
          simp only [bodyOps, slamOps, List.mem_cons, List.not_mem_nil, or_false] at h
          rcases h with rfl | rfl | rfl <;> trivial
  | tick visits =>
      obtain ⟨_, _, _, rfl | ⟨_, rfl⟩⟩ := mem_visits h <;> trivial

theorem regular_actionsOf {n : Nat} {inputs : List (Input T F)} {s : Pipeline T F}
    (hRun : (pipeline T F n).exec Pipeline.new inputs = some s) :
    ∀ o ∈ actionsOf n inputs, o.Regular n := by
  refine actionsOf_induction (P := fun os => ∀ o ∈ os, o.Regular n) nofun ?_ hRun
  intro os l i _ ih o ho
  rcases List.mem_append.mp ho with hOld | hNew
  · exact ih o hOld
  · exact regular_bodyOps hNew

omit [HubFloat F] in
theorem eq_updateCar {o : HubOp T F} {id : String} {u : CarUpdate T F}
    (h : o.carUpdate? id = some u) : o = .updateCar id u := by
  cases o with
  | updateCar id' f =>
      obtain ⟨rfl, hSame⟩ := Option.ite_none_right_eq_some.mp h
      rw [Option.some.inj hSame]
  | insertMap id m => cases h
  | emit e => cases h
  | spawn car w => cases h
  | submit w frame => cases h

theorem car_after_concat (os : List (HubOp T F)) (o : HubOp T F) (id : String) :
    (Hub.new.after (os ++ [o])).car id =
      ((Hub.new.after os).car id).applyAll (o.carUpdate? id).toList := by
  rw [Hub.after_append, Hub.after_car, carUpdates_cons, carUpdates_nil, List.append_nil]

namespace System.Invariant

variable {lib : SlamLib S F} {tuning : WorkerTuning} {n : Nat} {s : System S T F}
  {steps : List (TaskStep T F)} {os ps : List (HubOp T F)} {o : HubOp T F}

/-- The next map a car's snapshot is given is a later one. -/
theorem map_le (h : Invariant lib tuning n steps s) {id : String} {info old : MapInfo F}
    (hPrefix : os ++ [.updateCar id (.map info)] <+: s.task.log ++ s.task.pending)
    (hOld : ((Hub.new.after os).car id).map = some old) : old.version ≤ info.version := by
  have hWrites : (writesTo id .map (os ++ [.updateCar id (.map info)])).Pairwise Older :=
    (h.map_writes id).sublist (hPrefix.filterMap _ |>.filterMap _).sublist
  rw [writesTo_append] at hWrites
  obtain ⟨-, -, hOrder⟩ := List.pairwise_append.mp hWrites
  have hFirst : some old ∈ writesTo id .map os := by
    rcases get_after_or_mem os id .map with hNone | hMem
    · cases hNone.symm.trans hOld
    · rwa [CarSnapshot.get, hOld] at hMem
  have hSecond : some info ∈ writesTo id .map [(.updateCar id (.map info) : HubOp T F)] :=
    by
    refine mem_writesTo.mpr ⟨_, List.mem_singleton_self _, ?_⟩
    rw [HubOp.touch?, if_pos rfl]
    rfl
  exact (hOrder _ hFirst _ hSecond old rfl info rfl).le

theorem regular (h : Invariant lib tuning n steps s)
    (hPrefix : os <+: s.task.log ++ s.task.pending) (ho : o ∈ os) : o.Regular n := by
  refine regular_actionsOf h.task.run o ?_
  rw [← h.task.trace]
  exact hPrefix.subset ho

theorem car_grows (h : Invariant lib tuning n steps s)
    (hPrefix : os ++ [o] <+: s.task.log ++ s.task.pending) (id : String) :
    ((Hub.new.after os).car id).Grows ((Hub.new.after (os ++ [o])).car id) := by
  rw [car_after_concat]
  cases hUpdate : o.carUpdate? id with
  | none => exact .refl _
  | some u =>
      obtain rfl := eq_updateCar hUpdate
      have hShort : ((Hub.new.after os).car id).trajectory.length ≤ n := by
        rw [Hub.after_car, Hub.car_new]
        refine length_trajectory_le (fun v hv => ?_) (Nat.zero_le n)
        obtain ⟨o, ho, hOf⟩ := List.mem_filterMap.mp hv
        obtain rfl := eq_updateCar hOf
        exact h.regular hPrefix (List.mem_append_left _ ho)
      refine CarUpdate.grows (h.regular hPrefix List.mem_concat_self) hShort ?_
      rintro info rfl old hOld
      exact h.map_le hPrefix hOld

theorem maps_grow (h : Invariant lib tuning n steps s)
    (hPrefix : os ++ [o] <+: s.task.log ++ s.task.pending) {id : String} {m : MapSnapshot F}
    (hm : (Hub.new.after os).maps.lookup id = some m) :
    ∃ m', (Hub.new.after (os ++ [o])).maps.lookup id = some m' ∧ m.version ≤ m'.version := by
  have hNumbered : Numbered (storedMaps id (os ++ [o])) := by
    refine (h.numbered_outputs id).of_isPrefix ?_
    rw [← storedMaps_actionsOf id h.task.run, ← h.task.trace]
    exact hPrefix.filterMap _
  have hStored : m ∈ storedMaps id (os ++ [o]) := by
    rw [Hub.after_maps] at hm
    rw [storedMaps_append]
    refine List.mem_append_left _ (List.mem_of_getLast? ?_)
    simpa [Hub.new] using hm
  obtain ⟨last, hLast, hLe⟩ := hNumbered.version_le hStored
  exact ⟨last, by rw [Hub.after_maps, hLast, Option.some_or], hLe⟩

/-- One action. -/
theorem hub_grows (h : Invariant lib tuning n steps s)
    (hPrefix : os ++ [o] <+: s.task.log ++ s.task.pending) :
    (Hub.new.after os).Grows (Hub.new.after (os ++ [o])) where
  cars := by
    intro id snap hSnap
    have hKnown : id ∈ (Hub.new.after (os ++ [o])).cars := by
      rw [Hub.after_append, Hub.mem_after]
      exact Or.inl (AList.lookup_isSome.mp (by rw [hSnap]; rfl))
    obtain ⟨snap', hSnap'⟩ := Option.isSome_iff_exists.mp (AList.lookup_isSome.mpr hKnown)
    have hGrows := h.car_grows hPrefix id
    rw [Hub.car, Hub.car, hSnap, hSnap', Option.getD_some, Option.getD_some] at hGrows
    exact ⟨snap', hSnap', hGrows⟩
  maps _ _ hm := h.maps_grow hPrefix hm
  events := by
    rw [Hub.new_after_events, Hub.new_after_events, emitted_append]
    exact List.prefix_append _ _

/-- Any number of actions. -/
theorem hub_grows_of_isPrefix (h : Invariant lib tuning n steps s) (hFirst : os <+: ps)
    (hThen : ps <+: s.task.log ++ s.task.pending) :
    (Hub.new.after os).Grows (Hub.new.after ps) := by
  obtain ⟨rest, rfl⟩ := hFirst
  induction rest using List.reverseRecOn with
  | nil =>
      rw [List.append_nil]
      exact .refl _
  | append_singleton rest o ih =>
      rw [← List.append_assoc] at hThen ⊢
      exact (ih ((List.prefix_append _ _).trans hThen)).trans (h.hub_grows hThen)

end System.Invariant

/-! ## Readers -/

omit [HubFloat F] in
/-- The snapshots in an answer. -/
def Answer.snapshots : Answer T F → List (CarSnapshot T F)
  | .cars list => list
  | .car (.ok _ snap) => [snap]
  | .message (.hello list) => list
  | _ => []

omit [HubFloat F] in
/-- The second reading finds all that the first one was shown, or something later. -/
structure Reading.Keeps (earlier later : Reading T F) : Prop where
  cars : ∀ snap ∈ earlier.answer.snapshots,
    later.request = .cars ∨ later.request = .hello ∨ later.request = .car snap.id →
      ∃ snap' ∈ later.answer.snapshots, snap.Grows snap'
  maps : ∀ c m, earlier.hub.maps.lookup c = some m →
    later.request = .mapPng c ∨ later.request = .mapPgm c → later.FindsMap c m.version
  events : ∀ k, earlier.request = .event k → later.request = .event k →
    later.answer = earlier.answer

omit [HubFloat F] in
/-- The hub answers by itself, each snapshot carries the id of its car, and no `hello` is among
the events. -/
structure Reading.Genuine (r : Reading T F) : Prop where
  served : r.hub.serve r.request = some r.answer
  ids : ∀ id snap, r.hub.cars.lookup id = some snap → snap.id = id
  noHello : ∀ cars, .hello cars ∉ r.hub.events

namespace Reading.Genuine

omit [HubFloat F]

variable {r r' : Reading T F} {snap : CarSnapshot T F}

theorem lookup_of_listed (h : r.Genuine) (hSnap : snap ∈ r.hub.snapshots) :
    r.hub.cars.lookup snap.id = some snap := by
  obtain ⟨id, hId⟩ := Table.mem_sortedValues.mp hSnap
  rw [h.ids id snap hId, hId]

theorem lookup_of_mem (h : r.Genuine) (hSnap : snap ∈ r.answer.snapshots) :
    r.hub.cars.lookup snap.id = some snap := by
  have hServed := h.served
  cases hRequest : r.request with
  | cars =>
      rw [hRequest] at hServed
      rw [← Option.some.inj hServed] at hSnap
      exact h.lookup_of_listed hSnap
  | car id =>
      rw [hRequest] at hServed
      rw [← Option.some.inj hServed] at hSnap
      cases hLookup : r.hub.cars.lookup id with
      | none => simp [Http.car, hLookup, Answer.snapshots] at hSnap
      | some found =>
          obtain rfl : snap = found := by simpa [Http.car, hLookup, Answer.snapshots] using hSnap
          rw [h.ids id snap hLookup, hLookup]
  | mapPng id =>
      rw [hRequest] at hServed
      rw [← Option.some.inj hServed] at hSnap
      cases hSnap
  | mapPgm id =>
      rw [hRequest] at hServed
      rw [← Option.some.inj hServed] at hSnap
      cases hSnap
  | hello =>
      rw [hRequest] at hServed
      rw [← Option.some.inj hServed] at hSnap
      exact h.lookup_of_listed hSnap
  | event k =>
      rw [hRequest] at hServed
      obtain ⟨e, hEvent, hAnswer⟩ := Option.map_eq_some_iff.mp hServed
      rw [← hAnswer] at hSnap
      cases e with
      | hello cars => exact absurd (List.mem_of_getElem? hEvent) (h.noHello cars)
      | _ => cases hSnap

/-- Every way to ask for the cars shows what the table holds. -/
theorem mem_snapshots (h : r.Genuine) (hLookup : r.hub.cars.lookup snap.id = some snap)
    (hRequest : r.request = .cars ∨ r.request = .hello ∨ r.request = .car snap.id) :
    snap ∈ r.answer.snapshots := by
  have hServed := h.served
  have hListed : snap ∈ r.hub.snapshots := Table.mem_sortedValues.mpr ⟨_, hLookup⟩
  rcases hRequest with hCars | hHello | hCar
  · rw [hCars] at hServed
    rw [← Option.some.inj hServed]
    exact hListed
  · rw [hHello] at hServed
    rw [← Option.some.inj hServed]
    exact hListed
  · rw [hCar] at hServed
    rw [← Option.some.inj hServed, Http.car, hLookup]
    exact List.mem_singleton_self snap

theorem findsMap (h : r.Genuine) {c : String} {m : MapSnapshot F} {version : Nat}
    (hLookup : r.hub.maps.lookup c = some m) (hLe : version ≤ m.version) :
    r.FindsMap c version := by
  refine ⟨m, hLookup, hLe, fun hRequest => ?_, fun hRequest => ?_⟩
  · have hServed := h.served
    rw [hRequest] at hServed
    rw [← Option.some.inj hServed, Http.mapPng, Http.latestMap, hLookup]
  · have hServed := h.served
    rw [hRequest] at hServed
    rw [← Option.some.inj hServed, Http.mapPgm, Http.latestMap, hLookup]

theorem keeps (h : r.Genuine) (h' : r'.Genuine) (hGrows : r.hub.Grows r'.hub) : r.Keeps r' where
  cars := by
    intro snap hSnap hRequest
    obtain ⟨snap', hSnap', hLater⟩ := hGrows.cars _ snap (h.lookup_of_mem hSnap)
    rw [← hLater.id] at hSnap' hRequest
    exact ⟨snap', h'.mem_snapshots hSnap' hRequest, hLater⟩
  maps := by
    intro c m hm _
    obtain ⟨m', hm', hLe⟩ := hGrows.maps c m hm
    exact h'.findsMap hm' hLe
  events := by
    intro k hFirst hSecond
    have hServed := h.served
    have hServed' := h'.served
    rw [hFirst] at hServed
    rw [hSecond] at hServed'
    obtain ⟨e, hEvent, hAnswer⟩ := Option.map_eq_some_iff.mp hServed
    obtain ⟨e', hEvent', hAnswer'⟩ := Option.map_eq_some_iff.mp hServed'
    have hSame : r'.hub.events[k]? = some e := by
      obtain ⟨rest, hRest⟩ := hGrows.events
      obtain ⟨hLt, -⟩ := List.getElem?_eq_some_iff.mp hEvent
      rw [← hRest, List.getElem?_append_left hLt, hEvent]
    rw [← hAnswer, ← hAnswer', Option.some.inj (hEvent'.symm.trans hSame)]

end Reading.Genuine

variable {lib : SlamLib S F} {tuning : WorkerTuning} {n : Nat} {s s' : System S T F}

/-- What every run with readers keeps. -/
structure Ascending (s : System S T F) (readings : List (Reading T F)) : Prop where
  past : ∀ r ∈ readings, ∃ os, os <+: s.task.log ∧ r.hub = Hub.new.after os
  genuine : ∀ r ∈ readings, r.Genuine
  ascending : readings.Pairwise fun r r' => r.hub.Grows r'.hub

namespace Ascending

variable {readings readings' : List (Reading T F)}

theorem new : Ascending (System.new : System S T F) [] := ⟨nofun, nofun, List.Pairwise.nil⟩

theorem grow (h : Ascending s readings) (hLog : s.task.log <+: s'.task.log) :
    Ascending s' readings := by
  refine ⟨fun r hr => ?_, h.genuine, h.ascending⟩
  obtain ⟨os, hos, hHub⟩ := h.past r hr
  exact ⟨os, hos.trans hLog, hHub⟩

theorem hub_grows {steps : List (TaskStep T F)} (h : Ascending s readings)
    (hInv : System.Invariant lib tuning n steps s) {r : Reading T F} (hr : r ∈ readings) :
    r.hub.Grows s.task.hub := by
  obtain ⟨os, hos, hHub⟩ := h.past r hr
  rw [hHub, hInv.task.hub]
  exact hInv.hub_grows_of_isPrefix hos (List.prefix_append _ _)

theorem read {steps : List (TaskStep T F)} (h : Ascending s readings)
    (hInv : System.Invariant lib tuning n steps s) {request : Request}
    (hRead : readHub s readings request = some readings') : Ascending s readings' := by
  obtain ⟨answer, hServe, rfl⟩ := Option.map_eq_some_iff.mp hRead
  have hGenuine : (⟨request, s.task.hub, answer⟩ : Reading T F).Genuine := by
    refine ⟨hServe, fun id snap hSnap => ?_, fun cars hHello => ?_⟩
    · rw [hInv.task.hub] at hSnap
      exact Hub.id_of_lookup_after hSnap
    · rw [hInv.task.hub, Hub.new_after_events, mem_emitted] at hHello
      exact hInv.regular (List.prefix_append _ _) hHello
  refine ⟨fun r hr => ?_, fun r hr => ?_, ?_⟩
  · rcases List.mem_append.mp hr with hOld | hNew
    · exact h.past r hOld
    · obtain rfl := List.mem_singleton.mp hNew
      exact ⟨s.task.log, List.prefix_rfl, hInv.task.hub⟩
  · rcases List.mem_append.mp hr with hOld | hNew
    · exact h.genuine r hOld
    · obtain rfl := List.mem_singleton.mp hNew
      exact hGenuine
  · refine List.pairwise_append.mpr ⟨h.ascending, List.pairwise_singleton _ _, ?_⟩
    intro r hr r' hr'
    obtain rfl := List.mem_singleton.mp hr'
    exact h.hub_grows hInv hr

theorem of_run {steps : List (SystemStep S T F ⊕ Request)}
    (hRun : (observed lib tuning n).exec (System.new, []) steps = some (s, readings)) :
    Ascending s readings := by
  refine Machine.watch_history (P := fun _ s readings => Ascending s readings) new ?_ ?_ hRun
  · intro _ s readings l s' _ h hSystem
    exact h.grow (system_log_grows hSystem)
  · intro past s readings request readings' hPast h hRead
    exact h.read (System.Invariant.of_run (Machine.watch_exec hPast)) hRead

end Ascending

/-- **Reads.** Readers come between any two actions of the pipeline. Every car an earlier one was
shown is shown to a later one that asks for it, in a snapshot that may come after the earlier one;
every map an earlier one could fetch, or a later map, is there for the later one; the event at a
position of the stream is the same for all; and all of them read hubs that the present one may
come after. -/
theorem reads_never_go_back (lib : SlamLib S F) (tuning : WorkerTuning) (n : Nat)
    (steps : List (SystemStep S T F ⊕ Request)) (s : System S T F)
    (readings : List (Reading T F))
    (hRun : (observed lib tuning n).exec (System.new, []) steps = some (s, readings)) :
    readings.Pairwise Reading.Keeps ∧ ∀ r ∈ readings, r.hub.Grows s.task.hub := by
  have h := Ascending.of_run hRun
  have hInv := System.Invariant.of_run (Machine.watch_exec hRun)
  refine ⟨?_, fun r hr => h.hub_grows hInv hr⟩
  refine h.ascending.imp_of_mem fun hr hr' hGrows => ?_
  exact (h.genuine _ hr).keeps (h.genuine _ hr') hGrows

/-- Readers of `twoScans`: at first there is no car, then it has one scan, then two and a position,
and finally its map. -/
def twoScansShown : List (SystemStep Nat Unit ℚ ⊕ Request) :=
  [.inr (.car "a")] ++ (twoScans.take 5).map .inl ++ [.inr .cars] ++
    ((twoScans.drop 5).take 14).map .inl ++ [.inr (.car "a"), .inr (.event 0)] ++
    (twoScans.drop 19).map .inl ++ [.inr .hello, .inr (.event 0), .inr (.mapPng "a")]

theorem reads_never_go_back_two :
    ∃ s readings, (observed countingLib ⟨1, 1⟩ 5).exec (System.new, []) twoScansShown =
        some (s, readings) ∧
      (readings.map fun r => r.answer.snapshots.map fun snap =>
        (snap.scansTotal, snap.trajectory.length, snap.map.map MapInfo.version)) =
          [[], [(1, 0, none)], [(2, 1, none)], [], [(2, 1, some 1)], [], []] ∧
      readings.Pairwise Reading.Keeps ∧ ∀ r ∈ readings, r.hub.Grows s.task.hub :=
  ⟨_, _, rfl, rfl, reads_never_go_back countingLib ⟨1, 1⟩ 5 twoScansShown _ _ rfl⟩

end OlivawHub
