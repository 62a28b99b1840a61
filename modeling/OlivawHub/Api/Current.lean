import OlivawHub.Api.Fields
import OlivawHub.Pipeline.Maps

/-!
# What broadcast events are worth

A pass writes a field and then broadcasts what it wrote. So at any earlier moment the value an
event tells was not yet overwritten: either the field held it then, or it was written later
(`current_of_emit`). And as announcements repeat writes in their order, two events tell their
values in the order in which these were written (`pairwise_told`).
-/

namespace OlivawHub

open Foundations

variable {T F : Type} [HubFloat F]

/-- After the first `h` of the actions the value was not overwritten: the field held it, or it was
written by one of the others. -/
def Current (c : String) (k : Field) (v : k.Value T F) (h : Nat) (os : List (HubOp T F)) : Prop :=
  ((Hub.new.after (os.take h)).car c).get k = v ∨ ∃ o ∈ os.drop h, o.touch? c k = some (.write v)

/-- What was written to a field, in order. -/
def writesTo (c : String) (k : Field) (os : List (HubOp T F)) : List (k.Value T F) :=
  (touches c k os).filterMap Touch.written?

theorem writesTo_append (c : String) (k : Field) (xs ys : List (HubOp T F)) :
    writesTo c k (xs ++ ys) = writesTo c k xs ++ writesTo c k ys := by
  rw [writesTo, touches_append, List.filterMap_append, writesTo, writesTo]

theorem mem_writesTo {c : String} {k : Field} {v : k.Value T F} {os : List (HubOp T F)} :
    v ∈ writesTo c k os ↔ ∃ o ∈ os, o.touch? c k = some (.write v) := by
  rw [writesTo, List.mem_filterMap]
  constructor
  · rintro ⟨t, ht, hWritten⟩
    obtain ⟨o, ho, hTouch⟩ := List.mem_filterMap.mp ht
    cases t with
    | write b =>
        cases hWritten
        exact ⟨o, ho, hTouch⟩
    | announce b => cases hWritten
  · rintro ⟨o, ho, hTouch⟩
    exact ⟨.write v, List.mem_filterMap.mpr ⟨o, ho, hTouch⟩, rfl⟩

/-- A field holds its first value, or one that was written. -/
theorem get_after_or_mem (os : List (HubOp T F)) (c : String) (k : Field) :
    ((Hub.new.after os).car c).get k = (CarSnapshot.new c : CarSnapshot T F).get k ∨
      ((Hub.new.after os).car c).get k ∈ writesTo c k os := by
  rw [get_after, Hub.car_new]
  rcases latest_eq_or_mem Touch.written? ((CarSnapshot.new c : CarSnapshot T F).get k)
    (touches c k os) with hFirst | ⟨t, ht, hLast⟩
  · exact Or.inl hFirst
  · exact Or.inr (List.mem_filterMap.mpr ⟨t, ht, hLast⟩)

section Announced

variable {c : String} {k : Field} {os before after : List (HubOp T F)} {e : WsEvent T F}
  {v : k.Value T F}

/-- The last thing that happened to a field before it is told is that it was written. -/
theorem touches_before (hAnnounced : Announced ((CarSnapshot.new c).get k) (touches c k os))
    (hSplit : os = before ++ .emit e :: after) (hSets : e.sets c k = some v) :
    ∃ ts, touches c k before = ts ++ [.write v] := by
  have hTouches : touches c k os = touches c k before ++ .announce v :: touches c k after := by
    rw [hSplit, touches_append, touches_cons, HubOp.touch?, hSets]
    rfl
  exact hAnnounced.written_last hTouches

/-- At no moment before its broadcast had the value of an event been overwritten. -/
theorem current_of_emit (hAnnounced : Announced ((CarSnapshot.new c).get k) (touches c k os))
    (hSplit : os = before ++ .emit e :: after) (hSets : e.sets c k = some v) (h : Nat) :
    Current c k v h before := by
  obtain ⟨ts, hLast⟩ := touches_before hAnnounced hSplit hSets
  rw [← List.take_append_drop h before, touches_append] at hLast
  rcases List.eq_nil_or_concat (touches c k (before.drop h)) with hNone | ⟨us, u, hSome⟩
  · left
    rw [hNone, List.append_nil] at hLast
    rw [get_after, hLast, latest_append]
    rfl
  · right
    rw [hSome, List.concat_eq_append, ← List.append_assoc] at hLast
    obtain ⟨-, hu⟩ := List.append_inj' hLast rfl
    obtain rfl := List.singleton_inj.mp hu
    have hMem : Touch.write v ∈ touches c k (before.drop h) := by simp [hSome]
    exact List.mem_filterMap.mp hMem

/-- What holds of any two values written one after the other holds of any two values told one
after the other. -/
theorem pairwise_told (hAnnounced : Announced ((CarSnapshot.new c).get k) (touches c k os))
    {R : k.Value T F → k.Value T F → Prop} (hWrites : (writesTo c k os).Pairwise R) :
    (emitted os).Pairwise fun e e' =>
      ∀ v ∈ e.sets c k, ∀ v' ∈ e'.sets c k, R v v' := by
  have hTold := hWrites.sublist hAnnounced.announced_sublist
  rw [← told_eq_announced, List.pairwise_filterMap] at hTold
  exact hTold.imp fun h v hv v' hv' => h v hv v' hv'

end Announced

/-! ## Maps -/

theorem eq_of_write_map {c : String} {o : HubOp T F} {v : Option (MapInfo F)}
    (h : o.touch? c .map = some (.write v)) : ∃ info, o = .updateCar c (.map info) := by
  cases o with
  | updateCar id f =>
      obtain ⟨rfl, hSets⟩ := Option.ite_none_right_eq_some.mp h
      cases f with
      | map info => exact ⟨info, rfl⟩
      | lastSeenMs _ => cases hSets
      | status _ => cases hSets
      | telemetry _ => cases hSets
      | scansTotal => cases hSets
      | scanHz _ => cases hSets
      | tracked _ _ _ => cases hSets
  | emit e =>
      obtain ⟨_, -, hAnnounce⟩ := Option.map_eq_some_iff.mp h
      cases hAnnounce
  | insertMap id m => cases h
  | spawn car w => cases h
  | submit w frame => cases h

theorem writesTo_map_of_silent {c : String} {os : List (HubOp T F)}
    (h : ∀ info, HubOp.updateCar c (.map info) ∉ os) : writesTo c .map os = [] := by
  refine List.eq_nil_iff_forall_not_mem.mpr fun v hv => ?_
  obtain ⟨o, ho, hTouch⟩ := mem_writesTo.mp hv
  obtain ⟨info, rfl⟩ := eq_of_write_map hTouch
  exact h info ho

theorem writesTo_map_bodyOps (c : String) (n : Nat) (hub : Hub T F) (l : Locals F)
    (i : Input T F) : writesTo c .map (bodyOps n hub l i) =
      (storedMaps c (bodyOps n hub l i)).map fun m => some (mapInfo c m) := by
  cases i with
  | event e now spawned =>
      have hNone : writesTo c .map (eventOps hub l e spawned) = [] := by
        refine writesTo_map_of_silent fun info hMem => ?_
        obtain ⟨car, atMs, kind⟩ := e
        rcases mem_eventOps hMem with h | h | ⟨_, h⟩ | ⟨_, h⟩ | ⟨_, h⟩ | ⟨_, _, h⟩
        · cases h
        · cases kind <;> cases h
        · cases h
        · cases h
        · cases h
        · cases h
      rw [bodyOps, hNone, storedMaps_eventOps]
      rfl
  | slam car output =>
      rw [bodyOps, storedMaps_slamOps]
      by_cases h : car = c
      · subst h
        cases output <;> simp [slamOps, writesTo, HubOp.touch?, CarUpdate.sets, WsEvent.sets,
          SlamOutput.map?] <;> rfl
      · cases output <;> simp [slamOps, writesTo, HubOp.touch?, WsEvent.sets, h] <;> rfl
  | tick visits =>
      have hNone : writesTo c .map (visits.flatMap (visitOps hub l.rates)) = [] := by
        refine writesTo_map_of_silent fun info hMem => ?_
        obtain ⟨_, _, _, h | ⟨_, h⟩⟩ := mem_visits hMem <;> cases h
      rw [bodyOps, hNone, storedMaps_visits]
      rfl

/-- The metadata of each stored map are written to the snapshot, in the same order. -/
theorem writesTo_map_actionsOf (c : String) {n : Nat} {inputs : List (Input T F)}
    {s : Pipeline T F} (hRun : (pipeline T F n).exec Pipeline.new inputs = some s) :
    writesTo c .map (actionsOf n inputs) =
      (storedMaps c (actionsOf n inputs)).map fun m => some (mapInfo c m) := by
  refine actionsOf_induction (P := fun os => writesTo c .map os =
    (storedMaps c os).map fun m => some (mapInfo c m)) rfl ?_ hRun
  intro os l i _ ih
  rw [writesTo_append, ih, writesTo_map_bodyOps, storedMaps_append, List.map_append]
  rfl

end OlivawHub
