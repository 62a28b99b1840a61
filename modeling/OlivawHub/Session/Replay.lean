import OlivawHub.Session.Recording

/-!
# Replaying a recording

`replay.rs` reads a recording and sends its events, in order, into the channel the pipeline
receives from. When it sends them is left open: the pauses between the events are part of the
schedule. SLAM outputs and ticks fall between the events as they please, in the recorded run as
in the replay.

After all events are received the two runs agree on everything that car events determine
(`replay_reproduces_session`).
-/

namespace OlivawHub

open Foundations

/-- A replay: the task, the channel, and the pipeline at its other end. -/
structure Replay (T F : Type) where
  /-- The events the task has still to send. -/
  rest : List (CarEvent T)
  channel : List (CarEvent T)
  recording : Recording T F

/-- The capacity of the channel. -/
def channelCapacity : Nat := 256

/-- The steps of a replay. -/
inductive ReplayStep (F : Type) where
  | send
  | receive (now : F) (spawned : Option Nat)
  | slam (car : String) (output : SlamOutput F)
  | tick (visits : List (Visit F))
  deriving DecidableEq, Repr

variable {T F : Type}

/-- `spawn`: nothing is replayed unless the whole file parses. -/
def Replay.spawn (pc : Postcard T) (file : List UInt8) (recording : Recording T F) :
    Option (Replay T F) :=
  (readAll pc file).map fun events => ⟨events, [], recording⟩

/-- The pass of the pipeline in a step. -/
def Replay.pass? (s : Replay T F) : ReplayStep F → Option (Input T F)
  | .send => none
  | .receive now spawned => s.channel.head?.map fun e => .event e now spawned
  | .slam car output => some (.slam car output)
  | .tick visits => some (.tick visits)

/-- All events are sent and received. -/
def Replay.Drained (s : Replay T F) : Prop := s.rest = [] ∧ s.channel = []

variable [HubFloat F]

/-- The task and the pipeline, one step of either at a time. -/
def replay (pc : Postcard T) (trajectoryLen : Nat) : Machine (Replay T F) (ReplayStep F) where
  step s
    | .send =>
        match s.rest with
        | [] => none
        | e :: rest =>
            if s.channel.length < channelCapacity then
              some { s with rest, channel := s.channel ++ [e] }
            else none
    | .receive now spawned =>
        match s.channel with
        | [] => none
        | e :: channel =>
            ((recording pc trajectoryLen).step s.recording (.event e now spawned)).map
              fun recording => { s with channel, recording }
    | .slam car output =>
        ((recording pc trajectoryLen).step s.recording (.slam car output)).map
          fun recording => { s with recording }
    | .tick visits =>
        ((recording pc trajectoryLen).step s.recording (.tick visits)).map
          fun recording => { s with recording }

/-- The passes of the pipeline in a replay. -/
def passesOf (pc : Postcard T) (trajectoryLen : Nat) (start : Replay T F)
    (steps : List (ReplayStep F)) : List (Input T F) :=
  (replay pc trajectoryLen).outputs (fun s l => (s.pass? l).toList) start steps

variable {pc : Postcard T} {n : Nat} {s s' start : Replay T F}

/-- A step is at most one pass, and what it receives was next in line. -/
theorem replay_step {l : ReplayStep F} (h : (replay pc n).step s l = some s') :
    (recording pc n).exec s.recording (s.pass? l).toList = some s'.recording ∧
      eventsOf (s.pass? l).toList ++ (s'.channel ++ s'.rest) = s.channel ++ s.rest := by
  cases l with
  | send =>
      simp only [replay] at h
      split at h
      · cases h
      · rename_i e rest hRest
        split at h
        · cases h
          exact ⟨rfl, by simp [Replay.pass?, eventsOf, hRest]⟩
        · cases h
  | receive now spawned =>
      simp only [replay] at h
      split at h
      · cases h
      · rename_i e channel hChannel
        obtain ⟨r, hStep, h⟩ := Option.map_eq_some_iff.mp h
        cases h
        refine ⟨?_, by simp [Replay.pass?, eventsOf, Input.event?, hChannel]⟩
        simp [Replay.pass?, hChannel, Machine.exec_cons, hStep]
  | slam car output =>
      simp only [replay] at h
      obtain ⟨r, hStep, h⟩ := Option.map_eq_some_iff.mp h
      cases h
      exact ⟨by simp [Replay.pass?, Machine.exec_cons, hStep],
        by simp [Replay.pass?, eventsOf, Input.event?]⟩
  | tick visits =>
      simp only [replay] at h
      obtain ⟨r, hStep, h⟩ := Option.map_eq_some_iff.mp h
      cases h
      exact ⟨by simp [Replay.pass?, Machine.exec_cons, hStep],
        by simp [Replay.pass?, eventsOf, Input.event?]⟩

/-- The pipeline of a replay runs as it does with any other source. -/
theorem recording_of_replay {steps : List (ReplayStep F)}
    (hRun : (replay pc n).exec start steps = some s) :
    (recording pc n).exec start.recording (passesOf pc n start steps) = some s.recording :=
  Machine.exec_outputs (fun _ _ _ hStep => (replay_step hStep).1) hRun

/-- No event is lost on the way, and none overtakes another. -/
theorem events_of_replay {steps : List (ReplayStep F)}
    (hRun : (replay pc n).exec start steps = some s) :
    eventsOf (passesOf pc n start steps) ++ (s.channel ++ s.rest) =
      start.channel ++ start.rest := by
  refine Machine.exec_history (P := fun past s =>
    eventsOf (passesOf pc n start past) ++ (s.channel ++ s.rest) = start.channel ++ start.rest)
    rfl ?_ hRun
  intro past s l s' hPast ih hStep
  rw [passesOf, Machine.outputs_concat _ hPast, eventsOf, List.filterMap_append, ← eventsOf,
    ← eventsOf, List.append_assoc, (replay_step hStep).2]
  exact ih

/-- **Replay.** A run records all its events without an error, and its recorder is dropped. Every
replay of the file, once drained, has received the same events; it leaves the same fields in the
snapshot of every car that sent one, has broadcast the same `Status` and `Telemetry` events, and
recorded without an error it gives the same file. -/
theorem replay_reproduces_session (pc : Postcard T) (hpc : pc.RoundTrips) (n m : Nat)
    (answers : List FileAnswer) (inputs : List (Input T F)) (s : Recording T F)
    (r r' : Recorder)
    (hRun : (recording pc n).exec (.new (some (.create answers))) inputs = some s)
    (hWrites : (recording pc n).Meets (WriteSucceeds pc) (.new (some (.create answers))) inputs)
    (hRecorder : s.recorder = some r) (hDrop : r.drop = (.ok, r')) (again : Option Recorder) :
    let start : Replay T F := ⟨eventsOf inputs, [], .new again⟩
    Replay.spawn pc r'.out.file (.new again) = some start ∧
      ∀ (steps : List (ReplayStep F)) (t : Replay T F),
        (replay pc m).exec start steps = some t → t.Drained →
        let passes := passesOf pc m start steps
        eventsOf passes = eventsOf inputs ∧
        (∀ e ∈ eventsOf inputs, ∃ snap snap', s.pipeline.hub.cars.lookup e.car = some snap ∧
          t.recording.pipeline.hub.cars.lookup e.car = some snap' ∧
          snap'.eventFields = snap.eventFields) ∧
        t.recording.pipeline.hub.events.filter WsEvent.isReport =
          s.pipeline.hub.events.filter WsEvent.isReport ∧
        ∀ answers', again = some (.create answers') →
          (recording pc m).Meets (WriteSucceeds pc) (.new again) passes →
          ∀ q q', t.recording.recorder = some q → q.drop = (.ok, q') →
            q'.out.file = r'.out.file := by
  obtain ⟨ps, hEncoded, hFile⟩ := file_of_run hRun hWrites hRecorder hDrop
  intro start
  refine ⟨?_, ?_⟩
  · rw [Replay.spawn, hFile, hEncoded.read_frames hpc, Option.map_some]
  rintro steps t hReplay ⟨hRest, hChannel⟩ passes
  have hSame : eventsOf passes = eventsOf inputs := by
    have hAll := events_of_replay hReplay
    rwa [hRest, hChannel, List.append_nil, List.append_nil, List.nil_append] at hAll
  have hAgain := recording_of_replay hReplay
  have hFirst := pipeline_of_recording hRun
  have hSecond := pipeline_of_recording hAgain
  refine ⟨hSame, fun e he => ?_, ?_, ?_⟩
  · obtain ⟨snap, hSnap, hFields⟩ := event_fields hFirst he
    obtain ⟨snap', hSnap', hFields'⟩ := event_fields hSecond (hSame ▸ he)
    exact ⟨snap, snap', hSnap, hSnap', by rw [hFields', hFields, hSame]⟩
  · rw [reports_of_run hSecond, reports_of_run hFirst, hSame]
  · rintro answers' rfl hMeets q q' hq hqDrop
    obtain ⟨qs, hEncoded', hFile'⟩ := file_of_run hAgain hMeets hq hqDrop
    have hEncoded'' : Encoded pc (eventsOf inputs) qs := by
      rw [← hSame]
      exact hEncoded'
    rw [hFile, hFile', hEncoded.unique hEncoded'']

/-- Two statuses of a car and a pose between them; in the replay the pose comes last, and there is
a tick. -/
theorem replay_reproduces_session_two :
    let pc := Postcard.ofTable twoEvents
    let pose : SlamOutput ℚ := .tracked ⟨1, 2, 0, 3, 0, 0, 0⟩ [(0, 0)]
    let inputs : List (Input Unit ℚ) :=
      [.event ⟨"c", 1, .status "online"⟩ 0 none, .slam "c" pose,
        .event ⟨"c", 2, .status "offline"⟩ 0 none]
    let steps : List (ReplayStep ℚ) :=
      [.send, .receive 0 none, .tick [], .send, .receive 0 none, .slam "c" pose]
    let start : Replay Unit ℚ := ⟨eventsOf inputs, [],
      .new (some (.create [.took 7, .interrupted, .took 99, .took 0]))⟩
    ∃ s r r' t q q',
      (recording pc 1).exec (.new (some (.create [.took 100, .took 0]))) inputs = some s ∧
      s.recorder = some r ∧ r.drop = (.ok, r') ∧
      Replay.spawn pc r'.out.file start.recording = some start ∧
      (replay pc 1).exec start steps = some t ∧ t.Drained ∧
      t.recording.recorder = some q ∧ q.drop = (.ok, q') ∧
      t.recording.pipeline.hub.events.filter WsEvent.isReport =
        s.pipeline.hub.events.filter WsEvent.isReport ∧
      q'.out.file = r'.out.file := by
  intro pc pose inputs steps start
  have hRun : (recording pc 1).exec (.new (some (.create [.took 100, .took 0]))) inputs = some _ :=
    rfl
  obtain ⟨hSpawn, hAll⟩ := replay_reproduces_session pc
    (Postcard.roundTrips_ofTable (by decide)) 1 1 _ inputs _ _ _ hRun (by decide) rfl rfl _
  have hReplay : (replay pc 1).exec start steps = some _ := rfl
  obtain ⟨-, -, hReports, hFile⟩ := hAll steps _ hReplay ⟨rfl, rfl⟩
  exact ⟨_, _, _, _, _, _, hRun, rfl, rfl, hSpawn, hReplay, ⟨rfl, rfl⟩, rfl, rfl, hReports,
    hFile _ rfl (by decide) _ _ rfl rfl⟩

end OlivawHub
