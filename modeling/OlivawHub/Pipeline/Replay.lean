import OlivawHub.Pipeline.Actions
import OlivawHub.Foundations.Lists

/-!
# The hub as a replay of actions

Nothing but the pipeline writes the hub, so its state is the replay of the actions
performed so far. A list of actions splits by what it touches: the closures run on one
car's snapshot (`carUpdates`), the maps stored for one car (`storedMaps`) and the events
broadcast (`emitted`); each part of the hub is a function of its own sublist.
-/

namespace OlivawHub

open Foundations

variable {T F : Type}

/-- The closure an action runs on the snapshot of `c`. -/
@[simp] def HubOp.carUpdate? (c : String) : HubOp T F → Option (CarUpdate T F)
  | .updateCar id f => if id = c then some f else none
  | _ => none

/-- The map an action stores for `c`. -/
@[simp] def HubOp.storedMap? (c : String) : HubOp T F → Option (MapSnapshot F)
  | .insertMap id m => if id = c then some m else none
  | _ => none

/-- The event an action broadcasts. -/
@[simp] def HubOp.emitted? : HubOp T F → Option (WsEvent T F)
  | .emit e => some e
  | _ => none

/-- The closures run on the snapshot of `c`, in order. -/
def carUpdates (c : String) (os : List (HubOp T F)) : List (CarUpdate T F) :=
  os.filterMap (HubOp.carUpdate? c)

/-- The maps stored for `c`, in order. -/
def storedMaps (c : String) (os : List (HubOp T F)) : List (MapSnapshot F) :=
  os.filterMap (HubOp.storedMap? c)

/-- The events broadcast, in order. -/
def emitted (os : List (HubOp T F)) : List (WsEvent T F) := os.filterMap HubOp.emitted?

@[simp] theorem carUpdates_nil (c : String) : carUpdates c ([] : List (HubOp T F)) = [] := rfl

@[simp] theorem storedMaps_nil (c : String) : storedMaps c ([] : List (HubOp T F)) = [] := rfl

@[simp] theorem emitted_nil : emitted ([] : List (HubOp T F)) = [] := rfl

@[simp] theorem carUpdates_cons (c : String) (o : HubOp T F) (os : List (HubOp T F)) :
    carUpdates c (o :: os) = (o.carUpdate? c).toList ++ carUpdates c os :=
  filterMap_cons_toList ..

@[simp] theorem storedMaps_cons (c : String) (o : HubOp T F) (os : List (HubOp T F)) :
    storedMaps c (o :: os) = (o.storedMap? c).toList ++ storedMaps c os :=
  filterMap_cons_toList ..

@[simp] theorem emitted_cons (o : HubOp T F) (os : List (HubOp T F)) :
    emitted (o :: os) = o.emitted?.toList ++ emitted os :=
  filterMap_cons_toList ..

@[simp] theorem carUpdates_append (c : String) (xs ys : List (HubOp T F)) :
    carUpdates c (xs ++ ys) = carUpdates c xs ++ carUpdates c ys := List.filterMap_append

@[simp] theorem storedMaps_append (c : String) (xs ys : List (HubOp T F)) :
    storedMaps c (xs ++ ys) = storedMaps c xs ++ storedMaps c ys := List.filterMap_append

@[simp] theorem emitted_append (xs ys : List (HubOp T F)) :
    emitted (xs ++ ys) = emitted xs ++ emitted ys := List.filterMap_append

theorem mem_emitted {e : WsEvent T F} {os : List (HubOp T F)} :
    e ∈ emitted os ↔ .emit e ∈ os := by
  refine ⟨fun h => ?_, fun h => List.mem_filterMap.mpr ⟨_, h, rfl⟩⟩
  obtain ⟨o, ho, hEmit⟩ := List.mem_filterMap.mp h
  cases o with
  | emit e' =>
      cases hEmit
      exact ho
  | updateCar id f => cases hEmit
  | insertMap id m => cases hEmit
  | spawn car w => cases hEmit
  | submit w frame => cases hEmit

variable [HubFloat F]

/-- The hub after a list of actions. -/
abbrev Hub.after (hub : Hub T F) (os : List (HubOp T F)) : Hub T F :=
  Prog.replay (hubHandler T F) hub os

/-- A snapshot after a list of closures. -/
def CarSnapshot.applyAll (c : CarSnapshot T F) (us : List (CarUpdate T F)) : CarSnapshot T F :=
  us.foldl (fun c u => (u.apply c).2) c

@[simp] theorem CarSnapshot.applyAll_nil (c : CarSnapshot T F) : c.applyAll [] = c := rfl

@[simp] theorem CarSnapshot.applyAll_cons (c : CarSnapshot T F) (u : CarUpdate T F)
    (us : List (CarUpdate T F)) : c.applyAll (u :: us) = (u.apply c).2.applyAll us := rfl

namespace Hub

@[simp] theorem after_nil (hub : Hub T F) : hub.after [] = hub := rfl

theorem after_append (hub : Hub T F) (xs ys : List (HubOp T F)) :
    hub.after (xs ++ ys) = (hub.after xs).after ys := Prog.replay_append ..

theorem after_car (hub : Hub T F) (os : List (HubOp T F)) (c : String) :
    (hub.after os).car c = (hub.car c).applyAll (carUpdates c os) := by
  induction os generalizing hub with
  | nil => rfl
  | cons o os ih =>
      refine (ih _).trans ?_
      cases o with
      | updateCar id f =>
          by_cases h : id = c
          · subst h
            simp [hubHandler]
          · simp [hubHandler, h, car_updateCar_ne, Ne.symm h]
      | insertMap id m => simp [hubHandler]
      | emit e => simp [hubHandler]
      | spawn car w => simp [hubHandler]
      | submit w frame => simp [hubHandler]

theorem mem_after (hub : Hub T F) (os : List (HubOp T F)) (c : String) :
    c ∈ (hub.after os).cars ↔ c ∈ hub.cars ∨ carUpdates c os ≠ [] := by
  induction os generalizing hub with
  | nil => simp
  | cons o os ih =>
      refine (ih _).trans ?_
      cases o with
      | updateCar id f =>
          by_cases h : id = c
          · simp [hubHandler, mem_updateCar, h]
          · simp [hubHandler, mem_updateCar, h, Ne.symm h]
      | insertMap id m => simp [hubHandler]
      | emit e => simp [hubHandler]
      | spawn car w => simp [hubHandler]
      | submit w frame => simp [hubHandler]

theorem after_events (hub : Hub T F) (os : List (HubOp T F)) :
    (hub.after os).events = hub.events ++ emitted os := by
  induction os generalizing hub with
  | nil => simp
  | cons o os ih =>
      refine (ih _).trans ?_
      cases o <;> simp [hubHandler]

theorem new_after_events (os : List (HubOp T F)) : (Hub.new.after os).events = emitted os :=
  after_events Hub.new os

theorem after_maps (hub : Hub T F) (os : List (HubOp T F)) (c : String) :
    (hub.after os).maps.lookup c = (storedMaps c os).getLast?.or (hub.maps.lookup c) := by
  induction os generalizing hub with
  | nil => simp
  | cons o os ih =>
      refine (ih _).trans ?_
      cases o with
      | insertMap id m =>
          by_cases h : id = c
          · subst h
            cases hLast : (storedMaps id os).getLast? <;>
              simp [hubHandler, insertMap, List.getLast?_cons, hLast]
          · simp [hubHandler, insertMap, h, AList.lookup_insert_ne (Ne.symm h)]
      | updateCar id f => simp [hubHandler]
      | emit e => simp [hubHandler]
      | spawn car w => simp [hubHandler]
      | submit w frame => simp [hubHandler]

end Hub

end OlivawHub
