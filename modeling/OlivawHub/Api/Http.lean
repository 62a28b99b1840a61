import OlivawHub.Pipeline.Maps
import OlivawHub.Api.Fields

/-!
# What API readers see

The `GET` handlers of `http.rs` that read cars and maps, together with the two ways in which a
WebSocket client learns of a map: `hello` and the event stream. A handler reads the hub under
one lock, so a request sees the hub of one moment. `mapInfos` collects the map metadata in an
answer.
-/

namespace OlivawHub

open Foundations

/-- A response: its headers and body, or `StatusCode::NOT_FOUND` with a text. -/
inductive Response (β : Type) where
  | ok (headers : List (String × String)) (body : β)
  | notFound (text : String)
  deriving DecidableEq, Repr

variable {T F : Type}

/-- `m` as a PNG image. -/
def MapSnapshot.pngResponse (m : MapSnapshot F) : Response (List UInt8) :=
  .ok [("content-type", "image/png"), ("cache-control", "no-cache")] m.png

/-- `m` as a PGM image. -/
def MapSnapshot.pgmResponse (m : MapSnapshot F) : Response (List UInt8) :=
  .ok [("content-type", "image/x-portable-graymap")] m.toPgm

namespace Http

/-- `GET /api/cars`. -/
def cars (hub : Hub T F) : List (CarSnapshot T F) := hub.snapshots

/-- `GET /api/cars/{id}`. -/
def car (hub : Hub T F) (id : String) : Response (CarSnapshot T F) :=
  match hub.cars.lookup id with
  | some c => .ok [("content-type", "application/json")] c
  | none => .notFound s!"no car {id}"

/-- The latest map of a car, in the format asked for. -/
def latestMap (format : MapSnapshot F → Response (List UInt8)) (hub : Hub T F) (id : String) :
    Response (List UInt8) :=
  match hub.maps.lookup id with
  | some m => format m
  | none => .notFound s!"no map yet for {id}"

/-- `GET /api/cars/{id}/map.png`. -/
def mapPng (hub : Hub T F) (id : String) : Response (List UInt8) :=
  latestMap MapSnapshot.pngResponse hub id

/-- `GET /api/cars/{id}/map.pgm`. -/
def mapPgm (hub : Hub T F) (id : String) : Response (List UInt8) :=
  latestMap MapSnapshot.pgmResponse hub id

end Http

/-- What a reader can ask for. -/
inductive Request where
  | cars
  | car (id : String)
  | mapPng (id : String)
  | mapPgm (id : String)
  /-- A WebSocket session takes its `hello`. -/
  | hello
  /-- A WebSocket session receives the event at position `k` of the stream. -/
  | event (k : Nat)
  deriving DecidableEq, Repr

/-- What it gets. -/
inductive Answer (T F : Type) where
  | cars (list : List (CarSnapshot T F))
  | car (response : Response (CarSnapshot T F))
  | image (response : Response (List UInt8))
  | message (e : WsEvent T F)

/-- Serve a request. An event that was not sent yet has to be waited for. -/
def Hub.serve (hub : Hub T F) : Request → Option (Answer T F)
  | .cars => some (.cars (Http.cars hub))
  | .car id => some (.car (Http.car hub id))
  | .mapPng id => some (.image (Http.mapPng hub id))
  | .mapPgm id => some (.image (Http.mapPgm hub id))
  | .hello => some (.message (.hello hub.snapshots))
  | .event k => hub.events[k]?.map .message

/-- The metadata of `c`'s map in an answer. -/
def Answer.mapInfos (c : String) : Answer T F → List (MapInfo F)
  | .cars list => mapInfosIn c list
  | .car (.ok _ s) => mapInfosIn c [s]
  | .car (.notFound _) => []
  | .image _ => []
  | .message e => e.mapInfos c

variable [HubFloat F]

/-- The metadata in a snapshot of the hub were told by an action. -/
theorem exists_told_of_lookup {os : List (HubOp T F)} {c k : String} {snap : CarSnapshot T F}
    (hSnap : (Hub.new.after os).cars.lookup k = some snap) (hId : snap.id = c)
    {info : MapInfo F} (hMap : snap.map = some info) : ∃ o ∈ os, info ∈ o.mapInfos c := by
  have hKey := Hub.id_of_lookup_after hSnap
  have hCar : (Hub.new.after os).car c = snap := by
    rw [Hub.car, ← hId, hKey, hSnap, Option.getD_some]
  exact exists_told_of_map (by rw [hCar, hMap])

theorem exists_told_of_snapshots {os : List (HubOp T F)} {c : String} {info : MapInfo F}
    (h : info ∈ mapInfosIn c (Hub.new.after os).snapshots) : ∃ o ∈ os, info ∈ o.mapInfos c := by
  obtain ⟨snap, hSnap, hInfo⟩ := List.mem_filterMap.mp h
  obtain ⟨k, hk⟩ := Table.mem_sortedValues.mp hSnap
  by_cases hId : snap.id = c
  · exact exists_told_of_lookup hk hId (by simpa [hId] using hInfo)
  · simp [hId] at hInfo

/-- Whatever metadata an answer shows, an action of the pipeline told of them. -/
theorem exists_told_of_serve {os : List (HubOp T F)} {request : Request} {answer : Answer T F}
    (hServe : (Hub.new.after os).serve request = some answer) {c : String} {info : MapInfo F}
    (hInfo : info ∈ answer.mapInfos c) : ∃ o ∈ os, info ∈ o.mapInfos c := by
  cases request with
  | cars =>
      cases hServe
      exact exists_told_of_snapshots hInfo
  | car id =>
      simp only [Hub.serve, Http.car, Option.some.injEq] at hServe
      split at hServe
      · rename_i snap hSnap
        subst hServe
        by_cases hId : snap.id = c
        · refine exists_told_of_lookup hSnap hId ?_
          simpa [Answer.mapInfos, mapInfosIn, hId] using hInfo
        · simp [Answer.mapInfos, mapInfosIn, hId] at hInfo
      · subst hServe
        cases hInfo
  | mapPng id =>
      cases hServe
      cases hInfo
  | mapPgm id =>
      cases hServe
      cases hInfo
  | hello =>
      cases hServe
      exact exists_told_of_snapshots hInfo
  | event k =>
      obtain ⟨e, hEvent, rfl⟩ := Option.map_eq_some_iff.mp hServe
      rw [Hub.new_after_events] at hEvent
      exact ⟨.emit e, mem_emitted.mp (List.mem_of_getElem? hEvent), hInfo⟩

end OlivawHub
