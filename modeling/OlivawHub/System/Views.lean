import OlivawHub.System.Maps
import OlivawHub.Api.Current
import OlivawHub.Api.Viewer

/-!
# What a client is shown after its snapshot

A session subscribes before it takes its snapshot, so that nothing is lost; the events broadcast
in between are forwarded after `hello`, although `hello` may already show newer values
(`older_map_after_hello`). Everything broadcast later is as new as `hello` or newer, and the maps
of a car arrive in the order of their versions (`forwarded_events_are_current`).
-/

namespace OlivawHub

open Foundations

variable {S T F : Type}

theorem Numbered.pairwise {maps : List (MapSnapshot F)} (h : Numbered maps) :
    maps.Pairwise fun m m' => m.version < m'.version := by
  rw [List.pairwise_iff_getElem]
  intro i j hi hj hLt
  have hFirst := h i _ (List.getElem?_eq_getElem hi)
  have hSecond := h j _ (List.getElem?_eq_getElem hj)
  omega

variable [HubFloat F] {lib : SlamLib S F} {tuning : WorkerTuning} {n : Nat} {s : System S T F}

/-- The system with one client. -/
abbrev viewed (lib : SlamLib S F) (tuning : WorkerTuning) (n : Nat) :
    Machine (System S T F × Viewer T F) (SystemStep S T F ⊕ SessionStep) :=
  (system lib tuning n).watch fun s => viewer s.task

omit [HubFloat F] in
/-- Every map of the one is older than every map of the other. -/
def Older (first second : Option (MapInfo F)) : Prop :=
  ∀ info ∈ first, ∀ info' ∈ second, info.version < info'.version

namespace System.Invariant

variable {steps : List (TaskStep T F)}

theorem announced (h : Invariant lib tuning n steps s) (c : String) (k : Field) :
    Announced ((CarSnapshot.new c : CarSnapshot T F).get k)
      (touches c k (s.task.log ++ s.task.pending)) := by
  rw [h.task.trace]
  exact announced_actionsOf h.task.run c k

theorem map_writes (h : Invariant lib tuning n steps s) (c : String) :
    (writesTo c .map (s.task.log ++ s.task.pending)).Pairwise Older := by
  have hNumbered := (h.numbered_outputs c).pairwise
  rw [← storedMaps_actionsOf c h.task.run] at hNumbered
  rw [h.task.trace, writesTo_map_actionsOf c h.task.run]
  refine List.pairwise_map.mpr (hNumbered.imp fun hLt info hInfo info' hInfo' => ?_)
  cases hInfo
  cases hInfo'
  exact hLt

end System.Invariant

theorem Viewer.Knows.of_run {steps : List (SystemStep S T F ⊕ SessionStep)} {v : Viewer T F}
    (hRun : (viewed lib tuning n).exec (System.new, Viewer.new) steps = some (s, v)) :
    v.Knows s.task.log := by
  refine Machine.watch_history (P := fun _ s v => v.Knows s.task.log) Viewer.Knows.new ?_ ?_ hRun
  · intro _ s v l s' _ h hSystem
    obtain ⟨os, hLog⟩ := system_log_grows hSystem
    rw [← hLog]
    exact h.grow os
  · intro past s v k v' hPast h hViewer
    exact h.step (System.Invariant.of_run (Machine.watch_exec hPast)).task.hub hViewer

/-! ## Events after `hello` -/

/-- How the events a client is forwarded relate to the `hello` it got before. -/
structure Viewer.Forward (log : List (HubOp T F)) (v : Viewer T F) : Prop where
  /-- `hello` shows the hub as it was when the snapshot was taken, and what follows are the
  broadcasts received, in their order. -/
  messages : ∃ events, v.session.sent <+:
      .hello (Hub.new.after (log.take v.session.helloAt)).snapshots :: events ∧
    v.received.map ((emitted log)[·]?) = events.map some
  ascending : v.received.Pairwise (· < ·)
  /-- Each was broadcast after the client subscribed. -/
  subscribed : ∀ before e after, log = before ++ .emit e :: after →
    (emitted before).length ∈ v.received → v.subscribedAt ≤ before.length
  /-- No value in them had been overwritten when the client subscribed, and none in those
  broadcast after the snapshot had been when this was taken. -/
  current : ∀ before e after, log = before ++ .emit e :: after →
    (emitted before).length ∈ v.received → ∀ c k value, e.sets c k = some value →
      Current c k value v.subscribedAt before ∧
        (v.session.helloAt ≤ before.length → Current c k value v.session.helloAt before)
  /-- The maps of a car come with ascending versions. -/
  maps : ∀ c, v.received.Pairwise fun i j => ∀ info info',
    (emitted log)[i]? = some (.map c info) → (emitted log)[j]? = some (.map c info') →
      info.version < info'.version
  /-- Those broadcast after the snapshot are not older than the one in `hello`. -/
  mapsAfterHello : ∀ before c info after, log = before ++ .emit (.map c info) :: after →
    (emitted before).length ∈ v.received → v.session.helloAt ≤ before.length → ∀ shown,
      ((Hub.new.after (log.take v.session.helloAt)).car c).map = some shown →
        shown.version ≤ info.version

section Log

variable {steps : List (TaskStep T F)} {before after : List (HubOp T F)} {c : String}

theorem sets_map (c : String) (info : MapInfo F) :
    (WsEvent.map c info : WsEvent T F).sets c .map = some (some info) := if_pos rfl

omit [HubFloat F] in
/-- What has a number from `k` on was broadcast after the first `k` actions. -/
theorem le_length_of_emitted_le {log : List (HubOp T F)} {e : WsEvent T F} {k : Nat}
    (hSplit : log = before ++ .emit e :: after)
    (hLe : (emitted (log.take k)).length ≤ (emitted before).length) : k ≤ before.length := by
  by_contra hLt
  have hTake : log.take k = before ++ .emit e :: after.take (k - before.length - 1) := by
    rw [hSplit, List.take_append, List.take_of_length_le (by omega),
      show k - before.length = (k - before.length - 1) + 1 by omega, List.take_succ_cons]
    rfl
  rw [hTake, emitted_append, emitted_cons, List.length_append] at hLe
  simp at hLe

/-- Two maps of a car are told in the order of their versions. -/
theorem System.Invariant.maps_told (h : System.Invariant lib tuning n steps s) (c : String)
    {i j : Nat} (hLt : i < j) {info info' : MapInfo F}
    (hi : (emitted s.task.log)[i]? = some (.map c info))
    (hj : (emitted s.task.log)[j]? = some (.map c info')) : info.version < info'.version := by
  have hTold := pairwise_told (h.announced c .map) (h.map_writes c)
  rw [emitted_append, List.pairwise_append, List.pairwise_iff_getElem] at hTold
  obtain ⟨hi', hGetI⟩ := List.getElem?_eq_some_iff.mp hi
  obtain ⟨hj', hGetJ⟩ := List.getElem?_eq_some_iff.mp hj
  have hOlder := hTold.1 i j hi' hj' hLt
  rw [hGetI, hGetJ] at hOlder
  exact hOlder _ (sets_map c info) _ (sets_map c info') info rfl info' rfl

theorem System.Invariant.map_after_hello (h : System.Invariant lib tuning n steps s)
    {info shown : MapInfo F} (hSplit : s.task.log = before ++ .emit (.map c info) :: after)
    {k : Nat} (hLe : k ≤ before.length)
    (hShown : ((Hub.new.after (s.task.log.take k)).car c).map = some shown) :
    shown.version ≤ info.version := by
  have hTake : s.task.log.take k = before.take k := by
    rw [hSplit, List.take_append_of_le_length hLe]
  have hWhole : s.task.log ++ s.task.pending =
      before ++ .emit (.map c info) :: (after ++ s.task.pending) := by
    rw [hSplit, List.append_assoc, List.cons_append]
  rw [hTake] at hShown
  rcases current_of_emit (h.announced c .map) hWhole (sets_map c info) k with hSame | hLater
  · have hEq : some shown = some info := hShown.symm.trans hSame
    exact (congrArg MapInfo.version (Option.some.inj hEq)).le
  · have hWrites := h.map_writes c
    rw [hWhole, ← List.take_append_drop k before, List.append_assoc, writesTo_append,
      writesTo_append] at hWrites
    obtain ⟨-, -, hOrder⟩ := List.pairwise_append.mp hWrites
    have hFirst : some shown ∈ writesTo c .map (before.take k) := by
      rcases get_after_or_mem (before.take k) c .map with hNone | hMem
      · cases hNone.symm.trans hShown
      · rwa [CarSnapshot.get, hShown] at hMem
    have hSecond : some info ∈ writesTo c .map (before.drop k) := mem_writesTo.mpr hLater
    exact (hOrder _ hFirst _ (List.mem_append_left _ hSecond) shown rfl info rfl).le

end Log

theorem Viewer.Informed.messages {log : List (HubOp T F)} {v : Viewer T F} (h : v.Informed log) :
    (∃ events, v.session.sent <+:
        .hello (Hub.new.after (log.take v.session.helloAt)).snapshots :: events ∧
      v.received.map ((emitted log)[·]?) = events.map some) ∧
    v.received.Pairwise (· < ·) ∧
    ∀ j ∈ v.received, (emitted (log.take v.subscribedAt)).length ≤ j := by
  rcases h with ⟨hSent, hReceived⟩ | ⟨next, messages, hTold, hSent⟩
  · rw [hSent, hReceived]
    exact ⟨⟨[], List.nil_prefix, rfl⟩, List.Pairwise.nil, nofun⟩
  · obtain ⟨events, rfl, hEvents⟩ := hTold.messages
    exact ⟨⟨events, hSent, hEvents⟩, hTold.ascending, fun j hj => (hTold.range j hj).1⟩

/-- **Views.** However the steps of a client fall between those of the pipeline and its workers:
no event it is forwarded carries a value that had been overwritten when the client subscribed;
none that was broadcast after the snapshot carries one that had been overwritten when this was
taken. The maps of a car come with ascending versions, and those broadcast after the snapshot are
not older than the one in `hello`. -/
theorem forwarded_events_are_current (lib : SlamLib S F) (tuning : WorkerTuning) (n : Nat)
    (steps : List (SystemStep S T F ⊕ SessionStep)) (s : System S T F) (v : Viewer T F)
    (hRun : (viewed lib tuning n).exec (System.new, Viewer.new) steps = some (s, v)) :
    v.Forward s.task.log := by
  have hInv := System.Invariant.of_run (Machine.watch_exec hRun)
  obtain ⟨hMessages, hAscending, hRange⟩ := (Viewer.Knows.of_run hRun).informed.messages
  refine ⟨hMessages, hAscending, ?_, ?_, ?_, ?_⟩
  · intro before e after hSplit hReceived
    exact le_length_of_emitted_le hSplit (hRange _ hReceived)
  · intro before e after hSplit _ c k value hSets
    have hWhole : s.task.log ++ s.task.pending =
        before ++ .emit e :: (after ++ s.task.pending) := by
      rw [hSplit, List.append_assoc, List.cons_append]
    have hCurrent := current_of_emit (hInv.announced c k) hWhole hSets
    exact ⟨hCurrent _, fun _ => hCurrent _⟩
  · intro c
    exact hAscending.imp fun hLt info info' hi hj => hInv.maps_told c hLt hi hj
  · intro before c info after hSplit _ hLe shown hShown
    exact hInv.map_after_hello hSplit hLe hShown

/-- A third scan of `a` after `twoScans`, with its pose and its map, which is stored and not yet
broadcast. -/
def thirdScan : List (SystemStep Nat Unit ℚ) :=
  [.event ⟨"a", 2, .scan ⟨3, 0, [⟨0, 0, 0⟩], 0⟩⟩ 0 true, .act, .act, .act,
    .worker 0 .take, .worker 0 (.track 0), .worker 0 .send, .worker 0 .render, .worker 0 .send,
    .slam, .act, .act, .act, .slam, .act, .act]

/-- The client subscribes before the first map of `a` is broadcast, takes its snapshot when the
second is stored, and then receives what was broadcast first. -/
def twoMapsViewed : List (SystemStep Nat Unit ℚ ⊕ SessionStep) :=
  (twoScans.take 22).map .inl ++ .inr .subscribe :: .inl .act :: thirdScan.map .inl ++
    [.inr .snapshot, .inr .sendOk, .inr .receive, .inr .sendOk]

/-- `hello` shows version 2 of the map, and the event after it version 1. -/
theorem older_map_after_hello :
    ∃ s v, (viewed countingLib ⟨1, 1⟩ 5).exec (System.new, Viewer.new) twoMapsViewed =
        some (s, v) ∧
      ((Hub.new.after (s.task.log.take v.session.helloAt)).car "a").map.map MapInfo.version =
        some 2 ∧
      (v.session.sent.map fun e => (e.mapInfos "a").map MapInfo.version) = [[2], [1]] :=
  ⟨_, _, rfl, rfl, rfl⟩

theorem forwarded_events_are_current_two :
    ∃ s v, (viewed countingLib ⟨1, 1⟩ 5).exec (System.new, Viewer.new) twoMapsViewed =
        some (s, v) ∧ v.received = [2] ∧ v.Forward s.task.log :=
  ⟨_, _, rfl, rfl, forwarded_events_are_current countingLib ⟨1, 1⟩ 5 twoMapsViewed _ _ rfl⟩

end OlivawHub
