import OlivawHub.Session.Replay

/-!
# A hub that was killed comes back

`run` writes an event before it acts on it, so when the process is killed the recording may be
ahead of the hub by one event, and behind it by what the `BufWriter` still held. A replay of what
the disk kept leads to a state the killed hub was in at the end of one of its passes, or would have
been in after the pass it was killed in (`killed_session_relived`).
-/

namespace OlivawHub

open Foundations

variable {T F : Type} {pc : Postcard T}

/-- What is read after the process was killed in the pass of `events`. -/
theorem Recorder.KillPoint.read_image (hpc : pc.RoundTrips) {events done : List (CarEvent T)}
    {ps : List (List UInt8)} {k : Nat} {r r' : Recorder}
    (hKill : Recorder.KillPoint pc events k r r') (hDone : Encoded pc done ps)
    (hRecorded : r.Recorded ps) {image : List UInt8} (hImage : image <+: r'.out.handed)
    (hLong : r'.out.flushed ≤ image.length) :
    ∃ kept, readAll pc image = some kept ∧ kept <+: done ++ events ∧
      100 * ((done.length + k) / 100) ≤ kept.length := by
  obtain ⟨es, qs, hEs, hQs, hCount, -, hHanded, hFlushed⟩ := hKill.handed hDone hRecorded
  have hWhole := hImage.trans hHanded
  obtain ⟨kept, hRead, hKept, hLength⟩ := hQs.read_isPrefix hpc hWhole
  refine ⟨kept, hRead, hKept.trans hEs, ?_⟩
  have hIn : frames (qs.take (100 * ((done.length + k) / 100))) <+: image :=
    List.prefix_of_prefix_length_le (frames_take_isPrefix _ _) hWhole
      (Nat.le_trans hFlushed hLong)
  have hRecords := le_length_unframe (fun q hq => hQs.fits q (List.mem_of_mem_take hq)) hIn
  have hEnough := hQs.length_eq
  rw [List.length_take] at hRecords
  omega

variable [HubFloat F] {n m : Nat}

/-- A run can be stopped at the end of any of its passes. -/
theorem exec_of_isPrefix {inputs before : List (Input T F)} {s : Pipeline T F}
    (hRun : (pipeline T F n).exec Pipeline.new inputs = some s) (hBefore : before <+: inputs) :
    ∃ s₀, (pipeline T F n).exec Pipeline.new before = some s₀ := by
  obtain ⟨rest, rfl⟩ := hBefore
  rw [Machine.exec_append] at hRun
  obtain ⟨s₀, hFirst, -⟩ := Option.bind_eq_some_iff.mp hRun
  exact ⟨s₀, hFirst⟩

/-- An event is received whatever the state. -/
theorem exec_concat_event {inputs : List (Input T F)} {s : Pipeline T F}
    (hRun : (pipeline T F n).exec Pipeline.new inputs = some s) (e : CarEvent T) (now : F)
    (spawned : Option Nat) :
    ∃ s', (pipeline T F n).exec Pipeline.new (inputs ++ [.event e now spawned]) = some s' := by
  have hEnabled : (Input.event e now spawned : Input T F).Enabled s.locals := trivial
  have hStep := pipeline_step (n := n).mpr ⟨hEnabled, rfl⟩
  exact ⟨_, by rw [Machine.exec_snoc, hRun, Option.bind_some, hStep]⟩

/-- Two runs on the same events agree on what events determine. -/
structure SameReports (s t : Pipeline T F) (events : List (CarEvent T)) : Prop where
  fields : ∀ e ∈ events, ∃ snap snap', s.hub.cars.lookup e.car = some snap ∧
    t.hub.cars.lookup e.car = some snap' ∧ snap'.eventFields = snap.eventFields
  reports : t.hub.events.filter WsEvent.isReport = s.hub.events.filter WsEvent.isReport

theorem SameReports.of_runs {inputs inputs' : List (Input T F)} {s t : Pipeline T F}
    (hFirst : (pipeline T F n).exec Pipeline.new inputs = some s)
    (hSecond : (pipeline T F m).exec Pipeline.new inputs' = some t)
    (hSame : eventsOf inputs' = eventsOf inputs) : SameReports s t (eventsOf inputs) where
  fields e he := by
    obtain ⟨snap, hSnap, hFields⟩ := event_fields hFirst he
    obtain ⟨snap', hSnap', hFields'⟩ := event_fields hSecond (hSame ▸ he)
    exact ⟨snap, snap', hSnap, hSnap', by rw [hFields', hFields, hSame]⟩
  reports := by rw [reports_of_run hSecond, reports_of_run hFirst, hSame]

/-- A drained replay has handed on the events it was spawned with. -/
theorem eventsOf_drained {kept : List (CarEvent T)} {recording : Recording T F}
    {steps : List (ReplayStep F)} {t : Replay T F}
    (hReplay : (replay pc m).exec ⟨kept, [], recording⟩ steps = some t) (hDrained : t.Drained) :
    eventsOf (passesOf pc m ⟨kept, [], recording⟩ steps) = kept := by
  obtain ⟨hRest, hChannel⟩ := hDrained
  have hSent := events_of_replay hReplay
  rwa [hRest, hChannel, List.append_nil, List.append_nil, List.nil_append] at hSent

/-- **Relived.** The hub records the passes `inputs` without an error and is killed between two
passes or in that of `e`. Let the disk keep any beginning of what was handed to the `BufWriter` that
reaches up to the last flush. A replay of it starts, lacks fewer than a hundred of the events
written, and once drained shows every car in it, and has reported, as the killed hub did at the end
of one of its passes, that of `e` included. -/
theorem killed_session_relived (pc : Postcard T) (hpc : pc.RoundTrips) (n m : Nat)
    (answers : List FileAnswer) (inputs : List (Input T F)) (s : Recording T F)
    (r r' : Recorder) (e : CarEvent T) (k : Nat) (now : F) (spawned : Option Nat)
    (image : List UInt8)
    (hRun : (recording pc n).exec (.new (some (.create answers))) inputs = some s)
    (hWrites : (recording pc n).Meets (WriteSucceeds pc) (.new (some (.create answers))) inputs)
    (hRecorder : s.recorder = some r) (hKill : Recorder.KillPoint pc [e] k r r')
    (hImage : image <+: r'.out.handed) (hLong : r'.out.flushed ≤ image.length)
    (again : Option Recorder) :
    ∃ kept, Replay.spawn pc image (.new again : Recording T F) = some ⟨kept, [], .new again⟩ ∧
      kept <+: eventsOf inputs ++ [e] ∧ (eventsOf inputs).length + k < kept.length + 100 ∧
      ∃ before s₀, before <+: inputs ++ [.event e now spawned] ∧ eventsOf before = kept ∧
        (pipeline T F n).exec Pipeline.new before = some s₀ ∧
        ∀ (steps : List (ReplayStep F)) (t : Replay T F),
          (replay pc m).exec ⟨kept, [], .new again⟩ steps = some t → t.Drained →
            SameReports s₀ t.recording.pipeline kept := by
  obtain ⟨r₁, ps, hSome, hEncoded, hRecorded⟩ := recorded_of_run hRun hWrites
  cases hRecorder.symm.trans hSome
  obtain ⟨kept, hRead, hKept, hEnough⟩ :=
    hKill.read_image hpc hEncoded hRecorded hImage hLong
  refine ⟨kept, by rw [Replay.spawn, hRead, Option.map_some], hKept, by omega, ?_⟩
  obtain ⟨s', hAll⟩ := exec_concat_event (pipeline_of_recording hRun) e now spawned
  have hEvents : eventsOf (inputs ++ [.event e now spawned]) = eventsOf inputs ++ [e] := by
    exact eventsOf_concat _ _
  rw [← hEvents] at hKept
  obtain ⟨before, hBefore, rfl⟩ := List.prefix_filterMap_iff.mp hKept
  obtain ⟨s₀, hFirst⟩ := exec_of_isPrefix hAll hBefore
  refine ⟨before, s₀, hBefore, rfl, hFirst, ?_⟩
  intro steps t hReplay hDrained
  exact SameReports.of_runs hFirst (pipeline_of_recording (recording_of_replay hReplay))
    (eventsOf_drained hReplay hDrained)

/-- The hub is killed after the header of the second record, and all it wrote reaches the disk. -/
theorem killed_session_relived_two :
    let pc := Postcard.ofTable twoEvents
    let pose : SlamOutput ℚ := .tracked ⟨1, 2, 0, 3, 0, 0, 0⟩ [(0, 0)]
    let inputs : List (Input Unit ℚ) := [.event ⟨"c", 1, .status "online"⟩ 0 none, .slam "c" pose]
    let steps : List (ReplayStep ℚ) := [.tick [], .send, .receive 0 none]
    ∃ r r' t, Recorder.KillPoint pc [⟨"c", 2, .status "offline"⟩] 0 r r' ∧
      Replay.spawn pc r'.out.handed (.new none : Recording Unit ℚ) =
        some ⟨[⟨"c", 1, .status "online"⟩], [], .new none⟩ ∧
      (replay pc 1).exec ⟨[⟨"c", 1, .status "online"⟩], [], .new none⟩ steps = some t ∧
      ∃ before s₀, before <+: inputs ++ [.event ⟨"c", 2, .status "offline"⟩ 0 none] ∧
        (pipeline Unit ℚ 1).exec Pipeline.new before = some s₀ ∧
        SameReports s₀ t.recording.pipeline [⟨"c", 1, .status "online"⟩] := by
  intro pc pose inputs steps
  have hRun : (recording pc 1).exec (.new (some (.create []))) inputs = some _ := rfl
  have hKill : Recorder.KillPoint pc [⟨"c", 2, .status "offline"⟩] 0
      ((Recorder.create []).write pc ⟨"c", 1, .status "online"⟩).2 _ :=
    .inside rfl (by decide)
      (⟨_, rfl⟩ : [Recorder.writeAll (toLeBytes 12)] <+: Recorder.writeSteps _) rfl nofun
  obtain ⟨kept, hSpawn, -, -, before, s₀, hBefore, hEvents, hFirst, hAll⟩ :=
    killed_session_relived pc (Postcard.roundTrips_ofTable (by decide)) 1 1 [] inputs _ _ _ _ 0 0
      none _ hRun (by decide) rfl hKill List.prefix_rfl (by decide) none
  have hRead : Replay.spawn pc
      (frames [[1, 99, 1, 0, 6, 111, 110, 108, 105, 110, 101]] ++ (toLeBytes 12 ++ []))
        (.new none : Recording Unit ℚ) = some ⟨[⟨"c", 1, .status "online"⟩], [], .new none⟩ := by
    rw [Replay.spawn, readAll_eq, unframe_frames_append (by decide),
      unframe_header_append (by decide), if_neg (by decide)]
    rfl
  obtain rfl := congrArg Replay.rest (Option.some.inj (hSpawn.symm.trans hRead))
  have hReplay : (replay pc 1).exec ⟨[⟨"c", 1, .status "online"⟩], [], .new none⟩ steps = some _ :=
    rfl
  exact ⟨_, _, _, hKill, hSpawn, hReplay, before, s₀, hBefore, hFirst, hAll steps _ hReplay
    ⟨rfl, rfl⟩⟩

end OlivawHub
