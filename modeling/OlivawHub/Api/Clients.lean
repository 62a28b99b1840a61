import OlivawHub.Api.HandOff
import OlivawHub.Api.Http
import OlivawHub.Foundations.Crowds

/-!
# Any number of clients

WebSocket clients connect and hang up at any moment, each with a session of its own, and `health` of
`http.rs` counts them together with the cars. Every session is as it would be alone with the
pipeline, and all of them are told of the same events in the same order (`clients_share_one_order`).
The number of receivers that `health` reports is that of the sessions that hold one
(`health_counts`).
-/

namespace OlivawHub

open Foundations

variable {T F : Type}

/-- The body of `GET /api/health`. -/
structure Health where
  ok : Bool
  version : String
  cars : Nat
  wsClients : Nat
  deriving DecidableEq, Repr

/-- What `health` answers when it has read these numbers. -/
def Http.health (cars wsClients : Nat) : Health := ⟨true, "0.1.0", cars, wsClients⟩

/-- A session has its receiver from `subscribe` until it returns. -/
def Session.holdsReceiver (w : Session T F) : Bool :=
  match w.phase with
  | .connecting => false
  | .closed => false
  | _ => true

/-- The number of receivers after a step of a session. -/
def countReceivers (receivers : Nat) (w w' : Session T F) : Nat :=
  match w.holdsReceiver, w'.holdsReceiver with
  | false, true => receivers + 1
  | true, false => receivers - 1
  | _, _ => receivers

/-- The pipeline task, the sessions, and the `health` handlers. -/
structure Clients (T F : Type) where
  task : Task T F
  sessions : List (Session T F)
  /-- `hub.events.receiver_count()`. -/
  receivers : Nat
  /-- The numbers of cars read by the handlers that have not yet read the number of clients. -/
  counting : List Nat
  answers : List Health

def Clients.new : Clients T F := ⟨Task.new, [], 0, [], []⟩

inductive ClientsStep (T F : Type) where
  | task (t : TaskStep T F)
  /-- One more connection is upgraded. -/
  | connect
  | session (i : Nat) (k : SessionStep)
  /-- A `health` handler reads the number of cars. -/
  | countCars
  /-- Handler `i` reads the number of clients, and answers. -/
  | countClients (i : Nat)

/-- What a step is without the `health` handlers. -/
def ClientsStep.crowd? : ClientsStep T F → Option (TaskStep T F ⊕ CrowdStep SessionStep)
  | .task t => some (.inl t)
  | .connect => some (.inr .join)
  | .session i k => some (.inr (.act i k))
  | .countCars => none
  | .countClients _ => none

/-- What a step is for the session `i`. -/
def ClientsStep.alone? (i : Nat) (l : ClientsStep T F) : Option (TaskStep T F ⊕ SessionStep) :=
  l.crowd?.bind (Machine.viewOf i)

variable [HubFloat F]

/-- One step. -/
def clients (T F : Type) [HubFloat F] (n : Nat) : Machine (Clients T F) (ClientsStep T F) where
  step s
    | .task t => ((task T F n).step s.task t).map fun task => { s with task }
    | .connect => some { s with sessions := s.sessions ++ [Session.new] }
    | .session i k =>
        s.sessions[i]?.bind fun w => (session s.task w k).map fun w' =>
          { s with
            sessions := s.sessions.set i w'
            receivers := countReceivers s.receivers w w' }
    | .countCars => some { s with counting := s.counting ++ [s.task.hub.cars.keys.length] }
    | .countClients i =>
        s.counting[i]?.map fun cars =>
          { s with
            counting := s.counting.eraseIdx i
            answers := s.answers ++ [Http.health cars s.receivers] }

variable {n : Nat} {s s' : Clients T F} {l : ClientsStep T F} {steps : List (ClientsStep T F)}

/-! ## Each client on its own -/

/-- The sessions are a crowd around the pipeline task, which `health` does not disturb. -/
theorem crowd_of_clients_step (hStep : (clients T F n).step s l = some s') :
    ((task T F n).crowd session Session.new).exec (s.task, s.sessions) l.crowd?.toList =
      some (s'.task, s'.sessions) := by
  cases l with
  | task t =>
      obtain ⟨task', hTask, rfl⟩ := Option.map_eq_some_iff.mp hStep
      simp [ClientsStep.crowd?, Machine.exec_cons, Machine.crowd, hTask]
  | connect =>
      cases hStep
      rfl
  | session i k =>
      obtain ⟨w, hw, hSession⟩ := Option.bind_eq_some_iff.mp hStep
      obtain ⟨w', hw', rfl⟩ := Option.map_eq_some_iff.mp hSession
      simp [ClientsStep.crowd?, Machine.exec_cons, Machine.crowd, hw, hw']
  | countCars =>
      cases hStep
      rfl
  | countClients i =>
      obtain ⟨cars, -, rfl⟩ := Option.map_eq_some_iff.mp hStep
      rfl

theorem crowd_of_clients (hRun : (clients T F n).exec Clients.new steps = some s) :
    ((task T F n).crowd session Session.new).exec (Task.new, [])
      (steps.filterMap ClientsStep.crowd?) = some (s.task, s.sessions) := by
  refine Machine.exec_history (P := fun past s =>
    ((task T F n).crowd session Session.new).exec (Task.new, [])
      (past.filterMap ClientsStep.crowd?) = some (s.task, s.sessions)) rfl ?_ hRun
  intro past s l s' _ ih hStep
  rw [filterMap_concat_toList]
  exact Machine.exec_trans ih (crowd_of_clients_step hStep)

/-- A session runs as it would alone with the pipeline. -/
theorem served_of_clients (hRun : (clients T F n).exec Clients.new steps = some s) {i : Nat}
    {w : Session T F} (hw : s.sessions[i]? = some w) :
    (served T F n).exec (Task.new, Session.new) (steps.filterMap (ClientsStep.alone? i)) =
      some (s.task, w) := by
  have hAlone := Machine.crowd_exec_viewOf i (crowd_of_clients hRun)
  rw [hw, List.filterMap_filterMap] at hAlone
  exact hAlone

/-- A session in its loop has sent `hello`. -/
theorem sent_of_receiving {steps : List (TaskStep T F ⊕ SessionStep)} {s : Task T F}
    {w : Session T F} (hRun : (served T F n).exec (Task.new, Session.new) steps = some (s, w))
    {next : Nat} (hPhase : w.phase = .receiving next) : w.sent ≠ [] := by
  refine Machine.watch_history (P := fun _ _ (w : Session T F) =>
    ∀ next, w.phase = .receiving next → w.sent ≠ []) (fun _ h => by cases h)
    (fun _ _ _ _ _ _ ih _ => ih) ?_ hRun next hPhase
  intro past s w k w' _ ih hSession next hNext
  rcases session_cases hSession with ⟨-, rfl⟩ | ⟨_, -, rfl⟩ | ⟨_, e, -, rfl⟩ |
    ⟨_, e, _, -, -, -, rfl⟩ | ⟨first, _, _, hPhase, -, -, rfl⟩ | ⟨-, rfl⟩
  · cases hNext
  · cases hNext
  · exact List.append_ne_nil_of_right_ne_nil _ (List.cons_ne_nil e [])
  · cases hNext
  · exact ih first hPhase
  · cases hNext

/-- What a client that never lagged was sent after `hello`, and what it has still to read, are all
the events since some moment. -/
theorem stretch_of_noLag {steps : List (TaskStep T F ⊕ SessionStep)} {s : Task T F}
    {w : Session T F} (hRun : (served T F n).exec (Task.new, Session.new) steps = some (s, w))
    (hNoLag : w.lagged = []) {next : Nat} (hPhase : w.phase = .receiving next) :
    ∃ os first events, os <+: s.log ∧
      w.sent = .hello (Hub.new.after os).snapshots :: events ∧
        events ++ s.hub.events.drop next = s.hub.events.drop first := by
  have hFollows := follows_eq_of_noLag hRun hNoLag
  have hKnows := hFollows.knows
  unfold Session.Knows at hKnows
  rw [hPhase] at hKnows
  obtain ⟨xs, ys, zs, hSplit, -, -, hMessages⟩ := hKnows
  obtain ⟨hello, events, hSent⟩ := List.exists_cons_of_ne_nil (sent_of_receiving hRun hPhase)
  rw [hSent, List.cons_append] at hMessages
  obtain ⟨rfl, hEvents⟩ := List.cons.inj hMessages
  refine ⟨xs ++ ys, (emitted xs).length, events, ⟨zs, hSplit.symm⟩, hSent, ?_⟩
  rw [hFollows.events_eq, hEvents, hSplit, List.append_assoc, emitted_append xs,
    List.drop_left]

/-- **One order.** However many clients there are, the pipeline runs as if there were none, and each
session as if it were alone. Every client that never lagged gets, after its `hello`, a stretch of
the one sequence of events; and any two of them that have read everything show the same six fields
of every car when the pipeline is between two passes. -/
theorem clients_share_one_order (n : Nat) (steps : List (ClientsStep T F)) (s : Clients T F)
    (hRun : (clients T F n).exec Clients.new steps = some s) :
    (task T F n).exec Task.new ((steps.filterMap ClientsStep.crowd?).filterMap Sum.getLeft?) =
      some s.task ∧
    (∀ (i : Nat) (w : Session T F), s.sessions[i]? = some w →
      (served T F n).exec (Task.new, Session.new) (steps.filterMap (ClientsStep.alone? i)) =
          some (s.task, w) ∧
        (w.lagged = [] → ∀ next, w.phase = .receiving next → ∃ os first events,
          os <+: s.task.log ∧ w.sent = .hello (Hub.new.after os).snapshots :: events ∧
            events ++ s.task.hub.events.drop next = s.task.hub.events.drop first)) ∧
    (s.task.Idle → ∀ w ∈ s.sessions, ∀ v ∈ s.sessions, w.lagged = [] → v.lagged = [] →
      w.phase = .receiving s.task.hub.events.length →
      v.phase = .receiving s.task.hub.events.length →
        ∀ c k, (clientView w.sent c).get k = (clientView v.sent c).get k) := by
  refine ⟨Machine.crowd_exec (crowd_of_clients hRun), fun i w hw => ?_, ?_⟩
  · have hAlone := served_of_clients hRun hw
    exact ⟨hAlone, fun hNoLag next hPhase => stretch_of_noLag hAlone hNoLag hPhase⟩
  · -- both show what the hub has
    have hHub : s.task.Idle → ∀ w ∈ s.sessions, w.lagged = [] →
        w.phase = .receiving s.task.hub.events.length →
          ∀ c k, (clientView w.sent c).get k = (s.task.hub.car c).get k := by
      intro hIdle w hMem hNoLag hDrained c k
      obtain ⟨i, hw⟩ := List.mem_iff_getElem?.mp hMem
      have hAlone := served_of_clients hRun hw
      exact (follows_eq_of_noLag hAlone hNoLag).view_eq_of_drained (taskInvariant_of_served hAlone)
        hIdle hDrained fun _ _ h => by rw [h]
    intro hIdle w hw v hv hNoLagW hNoLagV hDrainedW hDrainedV c k
    rw [hHub hIdle w hw hNoLagW hDrainedW, hHub hIdle v hv hNoLagV hDrainedV]

/-! ## Health -/

omit [HubFloat F] in
theorem length_snapshots (hub : Hub T F) : hub.snapshots.length = hub.cars.keys.length := by
  rw [Hub.snapshots, Table.sortedValues, List.length_insertionSort, Table.values, AList.keys,
    List.keys, List.length_map, List.length_map]

omit [HubFloat F] in
/-- One receiver more for a session that takes one, one less for a session that drops it. -/
theorem countReceivers_set {sessions : List (Session T F)} {i : Nat} {w w' : Session T F}
    (hw : sessions[i]? = some w) :
    countReceivers (sessions.countP Session.holdsReceiver) w w' =
      (sessions.set i w').countP Session.holdsReceiver := by
  obtain ⟨hLt, hEq⟩ := List.getElem?_eq_some_iff.mp hw
  have hPos : w.holdsReceiver = true → 0 < sessions.countP Session.holdsReceiver := fun hHolds =>
    List.countP_pos_iff.mpr ⟨w, List.mem_of_getElem? hw, hHolds⟩
  rw [List.countP_set hLt, hEq]
  unfold countReceivers
  cases hBefore : w.holdsReceiver with
  | false => cases hAfter : w'.holdsReceiver <;> simp
  | true =>
      have hOne := hPos hBefore
      cases hAfter : w'.holdsReceiver
      · simp
      · simp
        omega

/-- What every run keeps. -/
structure Clients.Counted (s : Clients T F) : Prop where
  hub : s.task.hub = Hub.new.after s.task.log
  receivers : s.receivers = s.sessions.countP Session.holdsReceiver
  counting : ∀ cars ∈ s.counting, ∃ os, os <+: s.task.log ∧
    cars = (Hub.new.after os).snapshots.length
  answers : ∀ h ∈ s.answers, h.wsClients ≤ s.sessions.length ∧ ∃ os, os <+: s.task.log ∧
    h.cars = (Hub.new.after os).snapshots.length

theorem Clients.Counted.step (h : s.Counted) (hStep : (clients T F n).step s l = some s') :
    s'.Counted := by
  cases l with
  | task t =>
      obtain ⟨task', hTask, rfl⟩ := Option.map_eq_some_iff.mp hStep
      obtain ⟨hHub, os, hLog⟩ := task_step_grows h.hub hTask
      have hPrefix : s.task.log <+: task'.log := ⟨os, hLog.symm⟩
      refine ⟨hHub, h.receivers, fun cars hCars => ?_, fun a ha => ?_⟩
      · obtain ⟨os, hos, hEq⟩ := h.counting cars hCars
        exact ⟨os, hos.trans hPrefix, hEq⟩
      · obtain ⟨hLe, os, hos, hEq⟩ := h.answers a ha
        exact ⟨hLe, os, hos.trans hPrefix, hEq⟩
  | connect =>
      cases hStep
      refine ⟨h.hub, ?_, h.counting, fun a ha => ?_⟩
      · rw [List.countP_append, ← h.receivers]
        rfl
      · obtain ⟨hLe, hCars⟩ := h.answers a ha
        exact ⟨hLe.trans (by simp), hCars⟩
  | session i k =>
      obtain ⟨w, hw, hSession⟩ := Option.bind_eq_some_iff.mp hStep
      obtain ⟨w', -, rfl⟩ := Option.map_eq_some_iff.mp hSession
      refine ⟨h.hub, ?_, h.counting, fun a ha => ?_⟩
      · rw [h.receivers]
        exact countReceivers_set hw
      · rw [List.length_set]
        exact h.answers a ha
  | countCars =>
      cases hStep
      refine ⟨h.hub, h.receivers, fun cars hCars => ?_, h.answers⟩
      rcases List.mem_append.mp hCars with hOld | hNew
      · exact h.counting cars hOld
      · refine ⟨s.task.log, List.prefix_rfl, ?_⟩
        rw [← h.hub, length_snapshots, List.mem_singleton.mp hNew]
  | countClients i =>
      obtain ⟨cars, hCars, rfl⟩ := Option.map_eq_some_iff.mp hStep
      refine ⟨h.hub, h.receivers, fun k hk => h.counting k (List.mem_of_mem_eraseIdx hk),
        fun a ha => ?_⟩
      rcases List.mem_append.mp ha with hOld | hNew
      · exact h.answers a hOld
      · rw [List.mem_singleton.mp hNew]
        refine ⟨?_, h.counting cars (List.mem_of_getElem? hCars)⟩
        rw [Http.health, h.receivers]
        exact List.countP_le_length

theorem Clients.Counted.of_run (hRun : (clients T F n).exec Clients.new steps = some s) :
    s.Counted :=
  Machine.exec_invariant (fun _ _ _ h hStep => Clients.Counted.step h hStep)
    ⟨rfl, rfl, by simp [Clients.new], by simp [Clients.new]⟩ hRun

/-- Cars are never forgotten, so their number only grows. -/
theorem length_snapshots_after (hub : Hub T F) (os : List (HubOp T F)) :
    hub.snapshots.length ≤ (hub.after os).snapshots.length := by
  rw [length_snapshots, length_snapshots]
  refine (List.subperm_of_subset hub.cars.keys_nodup fun c hc => ?_).length_le
  exact (Hub.mem_after hub os c).mpr (Or.inl hc)

/-- **Health.** An answer counts as clients just the sessions that have subscribed and not returned,
whatever made the others return, and as cars those of an earlier moment: never more than
`GET /api/cars` lists then or later. -/
theorem health_counts (n : Nat) (steps : List (ClientsStep T F)) (s : Clients T F)
    (hRun : (clients T F n).exec Clients.new steps = some s) :
    (∀ i s', (clients T F n).step s (.countClients i) = some s' → ∃ cars,
      s.counting[i]? = some cars ∧ s'.answers = s.answers ++
        [⟨true, "0.1.0", cars, s.sessions.countP Session.holdsReceiver⟩]) ∧
    ∀ a ∈ s.answers, a.wsClients ≤ s.sessions.length ∧
      a.cars ≤ (Http.cars s.task.hub).length ∧
        ∃ os, os <+: s.task.log ∧ a.cars = (Hub.new.after os).snapshots.length := by
  have h := Clients.Counted.of_run hRun
  refine ⟨fun i s' hStep => ?_, fun a ha => ?_⟩
  · obtain ⟨cars, hCars, rfl⟩ := Option.map_eq_some_iff.mp hStep
    exact ⟨cars, hCars, by rw [← h.receivers]; rfl⟩
  · obtain ⟨hLe, os, ⟨rest, hLog⟩, hCars⟩ := h.answers a ha
    refine ⟨hLe, ?_, os, ⟨rest, hLog⟩, hCars⟩
    rw [hCars, Http.cars, h.hub, ← hLog, Hub.after_append]
    exact length_snapshots_after _ rest

/-- Two clients, of which the second comes between an update and its broadcast. A third one hangs
up between the two counts of a `health` handler. -/
def threeClients : List (ClientsStep Unit ℚ) :=
  [.connect, .session 0 .subscribe, .session 0 .snapshot, .connect, .session 1 .subscribe,
    .session 1 .snapshot, .session 1 .sendOk, .countCars,
    .task (.begin (.event ⟨"a", 5, .status "online"⟩ 0 none)), .task .act, .task .act, .connect,
    .session 2 .subscribe, .session 2 .snapshot, .session 1 .hangUp, .task .act, .countClients 0,
    .session 0 .sendOk, .session 0 .receive, .session 0 .sendOk, .session 2 .sendOk,
    .session 2 .receive, .session 2 .sendOk]

theorem clients_share_one_order_three : ∃ s,
    (clients Unit ℚ 5).exec Clients.new threeClients = some s ∧
      s.sessions.map (fun w => w.sent.length) = [2, 1, 2] ∧
      ∀ w ∈ s.sessions, ∀ v ∈ s.sessions, w.lagged = [] → v.lagged = [] →
        w.phase = .receiving s.task.hub.events.length →
        v.phase = .receiving s.task.hub.events.length →
          ∀ c k, (clientView w.sent c).get k = (clientView v.sent c).get k :=
  ⟨_, rfl, rfl, (clients_share_one_order 5 threeClients _ rfl).2.2 ⟨_, rfl⟩⟩

theorem health_counts_three : ∃ s,
    (clients Unit ℚ 5).exec Clients.new threeClients = some s ∧
      s.answers = [⟨true, "0.1.0", 0, 2⟩] ∧
      ∀ a ∈ s.answers, a.wsClients ≤ s.sessions.length ∧
        a.cars ≤ (Http.cars s.task.hub).length ∧
          ∃ os, os <+: s.task.log ∧ a.cars = (Hub.new.after os).snapshots.length :=
  ⟨_, rfl, rfl, (health_counts 5 threeClients _ rfl).2⟩

end OlivawHub
