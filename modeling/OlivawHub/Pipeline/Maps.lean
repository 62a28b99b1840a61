import OlivawHub.Pipeline.Tables

/-!
# Maps before their announcement

A `Map` output is stored first; then its metadata go into the snapshot of the car, and then
they are broadcast. So at any moment every `MapInfo` that can be seen anywhere describes a map
that is already stored (`MapsFirst`, `exists_stored_of_map`).
-/

namespace OlivawHub

open Foundations

variable {T F : Type}

/-- The metadata of `c`'s map in a list of snapshots. -/
def mapInfosIn (c : String) (cars : List (CarSnapshot T F)) : List (MapInfo F) :=
  cars.filterMap fun s => if s.id = c then s.map else none

/-- The maps of `c` that an event tells of. -/
def WsEvent.mapInfos (c : String) : WsEvent T F → List (MapInfo F)
  | .hello cars => mapInfosIn c cars
  | .map car info => if car = c then [info] else []
  | _ => []

/-- The maps of `c` that an action tells of. -/
def HubOp.mapInfos (c : String) : HubOp T F → List (MapInfo F)
  | .updateCar id (.map info) => if id = c then [info] else []
  | .emit e => e.mapInfos c
  | _ => []

/-- Every action tells only of maps that were stored before it. -/
def MapsFirst (c : String) (os : List (HubOp T F)) : Prop :=
  ∀ xs o ys, os = xs ++ o :: ys → ∀ info ∈ o.mapInfos c, ∃ m ∈ storedMaps c xs, info = mapInfo c m

namespace MapsFirst

variable {c : String} {os ps : List (HubOp T F)}

theorem of_silent (h : ∀ o ∈ os, o.mapInfos c = []) : MapsFirst c os := by
  intro xs o ys hSplit info hInfo
  rw [h o (by simp [hSplit])] at hInfo
  cases hInfo

theorem of_isPrefix (h : MapsFirst c os) (hPrefix : ps <+: os) : MapsFirst c ps := by
  obtain ⟨rest, rfl⟩ := hPrefix
  intro xs o ys hSplit
  exact h xs o (ys ++ rest) (by simp [hSplit])

theorem append (hLeft : MapsFirst c os) (hRight : MapsFirst c ps) : MapsFirst c (os ++ ps) := by
  intro xs o ys hSplit info hInfo
  rcases List.append_eq_append_iff.mp hSplit with ⟨zs, rfl, hPs⟩ | ⟨zs, rfl, hRest⟩
  · obtain ⟨m, hm, hEq⟩ := hRight zs o ys hPs info hInfo
    exact ⟨m, by rw [storedMaps_append]; exact List.mem_append_right _ hm, hEq⟩
  · cases zs with
    | nil =>
        obtain ⟨m, hm, -⟩ := hRight [] o ys hRest.symm info hInfo
        cases hm
    | cons z zs =>
        obtain ⟨rfl, -⟩ := List.cons.inj hRest
        exact hLeft xs o zs rfl info hInfo

theorem mem_stored (h : MapsFirst c os) {o : HubOp T F} (ho : o ∈ os) {info : MapInfo F}
    (hInfo : info ∈ o.mapInfos c) : ∃ m ∈ storedMaps c os, info = mapInfo c m := by
  obtain ⟨xs, ys, rfl⟩ := List.append_of_mem ho
  obtain ⟨m, hm, hEq⟩ := h xs o ys rfl info hInfo
  exact ⟨m, by rw [storedMaps_append]; exact List.mem_append_left _ hm, hEq⟩

end MapsFirst

variable [HubFloat F]

theorem mapsFirst_bodyOps (c : String) (n : Nat) (hub : Hub T F) (l : Locals F)
    (i : Input T F) : MapsFirst c (bodyOps n hub l i) := by
  cases i with
  | event e now spawned =>
      refine MapsFirst.of_silent fun o ho => ?_
      rcases mem_eventOps ho with rfl | rfl | ⟨_, rfl⟩ | ⟨_, rfl⟩ | ⟨_, rfl⟩ | ⟨_, _, rfl⟩
      · rfl
      · cases e.kind <;> rfl
      all_goals rfl
  | slam car output =>
      cases output with
      | tracked pose scanWorld =>
          refine MapsFirst.of_silent fun o ho => ?_
          simp only [bodyOps, slamOps, List.mem_cons, List.not_mem_nil, or_false] at ho
          rcases ho with rfl | rfl | rfl <;> rfl
      | map snapshot =>
          intro xs o ys hSplit info hInfo
          -- the map is stored by the first of the three actions
          rcases xs with _ | ⟨x, xs⟩
          · obtain ⟨rfl, -⟩ := List.cons.inj hSplit
            cases hInfo
          · obtain ⟨rfl, hRest⟩ := List.cons.inj hSplit
            have hMem : o ∈ [HubOp.updateCar car (.map (mapInfo car snapshot)),
                .emit (.map car (mapInfo car snapshot))] := by simp [hRest]
            have hTold : car = c ∧ info = mapInfo car snapshot := by
              simp only [List.mem_cons, List.not_mem_nil, or_false] at hMem
              rcases hMem with rfl | rfl
              all_goals
                simpa [HubOp.mapInfos, WsEvent.mapInfos] using hInfo
            obtain ⟨rfl, rfl⟩ := hTold
            exact ⟨snapshot, by simp, rfl⟩
  | tick visits =>
      refine MapsFirst.of_silent fun o ho => ?_
      obtain ⟨_, _, _, rfl | ⟨_, rfl⟩⟩ := mem_visits ho <;> rfl

/-- In every run maps are stored before they are told of. -/
theorem mapsFirst_actionsOf (c : String) {n : Nat} {inputs : List (Input T F)}
    {s : Pipeline T F} (hRun : (pipeline T F n).exec Pipeline.new inputs = some s) :
    MapsFirst c (actionsOf n inputs) := by
  refine actionsOf_induction (P := MapsFirst c) (MapsFirst.of_silent (by simp)) ?_ hRun
  exact fun os l i _ ih => ih.append (mapsFirst_bodyOps c n _ l i)

theorem storedMaps_actionsOf (c : String) {n : Nat} {inputs : List (Input T F)}
    {s : Pipeline T F} (hRun : (pipeline T F n).exec Pipeline.new inputs = some s) :
    storedMaps c (actionsOf n inputs) = (carLog c inputs).outputs.filterMap SlamOutput.map? := by
  refine Machine.exec_history (P := fun past _ =>
    storedMaps c (actionsOf n past) = (carLog c past).outputs.filterMap SlamOutput.map?) rfl ?_ hRun
  intro past s i s' hPast ih _
  rw [actionsOf_concat hPast, storedMaps_append, ih, storedMaps_bodyOps, carLog_concat,
    List.filterMap_append]
  cases i.outputOf? c <;> simp [filterMap_cons_toList]

theorem exists_told_of_map {os : List (HubOp T F)} {c : String} {info : MapInfo F}
    (h : ((Hub.new.after os).car c).map = some info) : ∃ o ∈ os, info ∈ o.mapInfos c := by
  induction os using List.reverseRecOn with
  | nil =>
      rw [Hub.after_nil, Hub.car_new] at h
      cases h
  | append_singleton os o ih =>
      rw [Hub.after_append, Hub.after_car] at h
      have hOld : ((Hub.new.after os).car c).map = some info →
          ∃ o' ∈ os ++ [o], info ∈ o'.mapInfos c := by
        intro hMap
        obtain ⟨o', ho', hInfo⟩ := ih hMap
        exact ⟨o', List.mem_append_left _ ho', hInfo⟩
      cases o with
      | updateCar id f =>
          by_cases hId : id = c
          · cases f with
            | map info' =>
                have hEq : info' = info := by simpa [hId, CarUpdate.apply] using h
                exact ⟨_, List.mem_concat_self, by simp [HubOp.mapInfos, hId, hEq]⟩
            | lastSeenMs _ => exact hOld (by simpa [hId, CarUpdate.apply] using h)
            | status _ => exact hOld (by simpa [hId, CarUpdate.apply] using h)
            | telemetry _ => exact hOld (by simpa [hId, CarUpdate.apply] using h)
            | scansTotal => exact hOld (by simpa [hId, CarUpdate.apply] using h)
            | scanHz _ => exact hOld (by simpa [hId, CarUpdate.apply] using h)
            | tracked _ _ _ => exact hOld (by simpa [hId, CarUpdate.apply] using h)
          · exact hOld (by simpa [hId] using h)
      | insertMap id m => exact hOld h
      | emit e => exact hOld h
      | spawn car w => exact hOld h
      | submit w frame => exact hOld h

end OlivawHub
