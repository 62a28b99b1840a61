import OlivawHub.Session.Crash
import OlivawHub.Session.Failures
import OlivawHub.Pipeline.Reports

/-!
# The pipeline with a recorder

`run` writes each event to the recorder, if there is one, before it acts on it; an error is
logged and nothing else. So the recorder sees the events of the run in order (`writeEach_of_run`),
and while all writes succeed it holds one record for each of them (`recorded_of_run`).
-/

namespace OlivawHub

open Foundations

/-- The pipeline between two passes, and its recorder. -/
structure Recording (T F : Type) where
  pipeline : Pipeline T F
  recorder : Option Recorder

variable {T F : Type}

/-- The pipeline when `run` starts. -/
def Recording.new (recorder : Option Recorder) : Recording T F := ⟨Pipeline.new, recorder⟩

/-- What a pass does to the recorder; `none` if the process is killed meanwhile. -/
def Input.record (pc : Postcard T) (recorder : Option Recorder) :
    Input T F → Option (Option Recorder)
  | .event e _ _ =>
      match recorder with
      | none => some none
      | some r =>
          match r.write pc e with
          | (.killed, _) => none
          | (_, r) => some (some r)
  | .slam _ _ => some recorder
  | .tick _ => some recorder

/-- If the pass writes, the write succeeds. -/
def WriteSucceeds (pc : Postcard T) (s : Recording T F) : Input T F → Prop
  | .event e _ _ => ∀ r, s.recorder = some r → (r.write pc e).1 = .ok
  | .slam _ _ => True
  | .tick _ => True

instance (pc : Postcard T) (s : Recording T F) (i : Input T F) :
    Decidable (WriteSucceeds pc s i) :=
  match i with
  | .event e _ _ =>
      match hRecorder : s.recorder with
      | none => isTrue (by simp [WriteSucceeds, hRecorder])
      | some r => decidable_of_iff ((r.write pc e).1 = .ok) (by simp [WriteSucceeds, hRecorder])
  | .slam _ _ => isTrue trivial
  | .tick _ => isTrue trivial

variable [HubFloat F]

/-- `run`, one pass of the loop at a time. -/
def recording (pc : Postcard T) (trajectoryLen : Nat) : Machine (Recording T F) (Input T F) where
  step s i := do
    let recorder ← i.record pc s.recorder
    let pipeline ← (pipeline T F trajectoryLen).step s.pipeline i
    some ⟨pipeline, recorder⟩

variable {pc : Postcard T} {n : Nat} {s s' : Recording T F}

theorem recording_step {i : Input T F} (h : (recording pc n).step s i = some s') :
    i.record pc s.recorder = some s'.recorder ∧
      (pipeline T F n).step s.pipeline i = some s'.pipeline := by
  obtain ⟨recorder, hRecord, h⟩ := Option.bind_eq_some_iff.mp h
  obtain ⟨p, hPass, h⟩ := Option.bind_eq_some_iff.mp h
  cases h
  exact ⟨hRecord, hPass⟩

/-- The recorder has no influence on the rest. -/
theorem pipeline_of_recording {inputs : List (Input T F)}
    (hRun : (recording pc n).exec s inputs = some s') :
    (pipeline T F n).exec s.pipeline inputs = some s'.pipeline :=
  Machine.exec_map (fun _ _ _ hStep => (recording_step hStep).2) hRun

/-- The recorder is handed the events of the run one after the other, whatever its writes return. -/
theorem writeEach_of_run {inputs : List (Input T F)} {r : Recorder}
    (hRun : (recording pc n).exec s inputs = some s') (hRecorder : s.recorder = some r) :
    ∃ results r', Recorder.writeEach pc (eventsOf inputs) r = (results, r') ∧
      .killed ∉ results ∧ s'.recorder = some r' := by
  induction inputs generalizing s r with
  | nil =>
      cases Option.some.inj hRun
      exact ⟨[], r, rfl, by simp, hRecorder⟩
  | cons i inputs ih =>
      obtain ⟨s₁, hStep, hRest⟩ := Machine.exec_cons_some hRun
      obtain ⟨hRecord, -⟩ := recording_step hStep
      rw [hRecorder] at hRecord
      cases i with
      | event e now spawned =>
          simp only [Input.record] at hRecord
          split at hRecord
          · cases hRecord
          · rename_i result r₁ hLive hWrite
            obtain ⟨results, r', hEach, hAlive, hLast⟩ := ih hRest (Option.some.inj hRecord).symm
            cases result with
            | ok =>
                exact ⟨_, r', Recorder.writeEach_of_ok hWrite hEach, by simpa using hAlive, hLast⟩
            | err =>
                exact ⟨_, r', Recorder.writeEach_of_err hWrite hEach, by simpa using hAlive, hLast⟩
            | killed => exact (hLive rfl).elim
      | slam car output => exact ih hRest (Option.some.inj hRecord).symm
      | tick visits => exact ih hRest (Option.some.inj hRecord).symm

theorem recorded_step {events : List (CarEvent T)} {ps : List (List UInt8)} {r : Recorder}
    {i : Input T F} (hRecorder : s.recorder = some r) (hEncoded : Encoded pc events ps)
    (h : r.Recorded ps) (hOk : WriteSucceeds pc s i) (hStep : (recording pc n).step s i = some s') :
    ∃ r' qs, s'.recorder = some r' ∧ Encoded pc (events ++ i.event?.toList) qs ∧
      r'.Recorded qs := by
  obtain ⟨hRecord, -⟩ := recording_step hStep
  rw [hRecorder] at hRecord
  cases i with
  | event e now spawned =>
      have hWrite := hOk r hRecorder
      cases hResult : r.write pc e with
      | mk result r' =>
          rw [hResult] at hWrite
          cases hWrite
          rw [Input.record, hResult] at hRecord
          obtain ⟨p, hBytes, hFits, hRecorded⟩ := h.write hResult
          exact ⟨r', _, (Option.some.inj hRecord).symm, hEncoded.concat hBytes hFits, hRecorded⟩
  | slam car output =>
      refine ⟨r, ps, (Option.some.inj hRecord).symm, ?_, h⟩
      rwa [Input.event?, Option.toList_none, List.append_nil]
  | tick visits =>
      refine ⟨r, ps, (Option.some.inj hRecord).symm, ?_, h⟩
      rwa [Input.event?, Option.toList_none, List.append_nil]

theorem recorded_of_run {inputs : List (Input T F)} {answers : List FileAnswer}
    (hRun : (recording pc n).exec (Recording.new (some (Recorder.create answers))) inputs = some s)
    (hWrites : (recording pc n).Meets (WriteSucceeds pc)
      (Recording.new (some (Recorder.create answers))) inputs) :
    ∃ r ps, s.recorder = some r ∧ Encoded pc (eventsOf inputs) ps ∧ r.Recorded ps := by
  refine Machine.exec_history_of_meets (P := fun past s =>
    ∃ r ps, s.recorder = some r ∧ Encoded pc (eventsOf past) ps ∧ r.Recorded ps)
    ⟨_, [], rfl, List.Forall₂.nil, Recorder.recorded_create answers⟩ ?_ hWrites hRun
  rintro past s i s' - hOk ⟨r, ps, hRecorder, hEncoded, hRecorded⟩ hStep
  rw [eventsOf_concat]
  exact recorded_step hRecorder hEncoded hRecorded hOk hStep

/-- The file when the recorder is dropped and flushes what it holds. -/
theorem file_of_run {inputs : List (Input T F)} {answers : List FileAnswer}
    (hRun : (recording pc n).exec (Recording.new (some (Recorder.create answers))) inputs = some s)
    (hWrites : (recording pc n).Meets (WriteSucceeds pc)
      (Recording.new (some (Recorder.create answers))) inputs)
    {r r' : Recorder} (hRecorder : s.recorder = some r) (hDrop : r.drop = (.ok, r')) :
    ∃ ps, Encoded pc (eventsOf inputs) ps ∧ r'.out.file = frames ps := by
  obtain ⟨r₁, ps, hSome, hEncoded, hRecorded⟩ := recorded_of_run hRun hWrites
  cases hRecorder.symm.trans hSome
  exact ⟨ps, hEncoded, hRecorded.drop_ok hDrop⟩

end OlivawHub
