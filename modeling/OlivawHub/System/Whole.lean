import OlivawHub.System.Core
import OlivawHub.System.Sources
import OlivawHub.Pipeline.Reports
import OlivawHub.Foundations.Products

/-!
# From the sources to the snapshots

The whole hub without `--log-only`: `main` with its sources, the event channel, the pipeline and
its workers. What the pipeline receives is what leaves the channel. Whatever the schedule, the
events put into the channel by all sources are those the pipeline has received followed by those
that wait, so the snapshots show exactly what the sources said (`events_reach_hub`).
-/

namespace OlivawHub

open Foundations

variable {S T F : Type}

/-- The steps of the whole hub. -/
inductive WholeStep (S T F : Type) where
  /-- Source `i` sends `e`. -/
  | send (i : Nat) (e : CarEvent T)
  | fail (i : Nat)
  | finish (i : Nat)
  /-- `main` returns. -/
  | return
  /-- The pipeline receives the next event. -/
  | receive (now : F) (spawned : Bool)
  /-- The channel is closed, and the pipeline ends. -/
  | close
  | slam
  | tick (visits : List (Visit F))
  | act
  | worker (i : Nat) (k : WorkerStep S F)

/-- What happens to the sources and to the channel. -/
def WholeStep.main : WholeStep S T F → List (MainStep T)
  | .send i e => [.send i e]
  | .fail i => [.fail i]
  | .finish i => [.finish i]
  | .return => [.return]
  | .receive _ _ => [.receive]
  | .close => [.close]
  | _ => []

/-- What happens to the pipeline and its workers. -/
def WholeStep.system (s : MainState T) : WholeStep S T F → List (SystemStep S T F)
  | .receive now spawned => s.channel.head?.toList.map fun e => .event e now spawned
  | .close => [.stop]
  | .slam => [.slam]
  | .tick visits => [.tick visits]
  | .act => [.act]
  | .worker i k => [.worker i k]
  | _ => []

/-- The whole hub. -/
def whole [HubFloat F] (setup : Setup T) (lib : SlamLib S F) (tuning : WorkerTuning) (n : Nat) :
    Machine (MainState T × System S T F) (WholeStep S T F) :=
  (mainMachine setup).together (OlivawHub.system lib tuning n) WholeStep.main WholeStep.system

/-! ## The channel -/

/-- What a step puts into the channel, with the number of the source. -/
def MainState.put (s : MainState T) : MainStep T → List (Nat × CarEvent T)
  | .send i e =>
      (((s.live? i).bind fun src => src.kind.offer e).map fun offer => (i, offer.1)).toList
  | _ => []

/-- What a step takes out of the channel. -/
def MainState.take (s : MainState T) : MainStep T → List (CarEvent T)
  | .receive => s.channel.head?.toList
  | _ => []

/-- All that was put into the channel, in order. -/
def putIn (setup : Setup T) (steps : List (MainStep T)) : List (Nat × CarEvent T) :=
  (mainMachine setup).outputs MainState.put setup.start steps

/-- All that was taken out of it. -/
def takenIn (setup : Setup T) (steps : List (MainStep T)) : List (CarEvent T) :=
  (mainMachine setup).outputs MainState.take setup.start steps

/-- What source `i` put into the channel. -/
def putBy (i : Nat) (setup : Setup T) (steps : List (MainStep T)) : List (CarEvent T) :=
  ((putIn setup steps).filter fun p => p.1 = i).map Prod.snd

variable {setup : Setup T} {s s' : MainState T} {l : MainStep T} {steps : List (MainStep T)}

/-- A source that ends is still of its kind. -/
theorem map_kind_end {i : Nat} {src : Source T} (hSrc : s.live? i = some src) :
    (s.sources.set i { src with live := false }).map Source.kind = s.sources.map Source.kind := by
  obtain ⟨hAt, -⟩ := MainState.live?_eq_some hSrc
  obtain ⟨hLt, -⟩ := List.getElem?_eq_some_iff.mp hAt
  refine List.ext_getElem? fun j => ?_
  rw [List.getElem?_map, List.getElem?_map, List.getElem?_set]
  by_cases hj : i = j
  · subst hj
    rw [if_pos rfl, if_pos hLt, hAt]
    rfl
  · rw [if_neg hj]

/-- All that a step does to the channel. -/
theorem main_channel (h : (mainMachine setup).step s l = some s') :
    (∃ i src e kind, s.live? i = some src ∧ (∃ e', src.kind.offer e' = some (e, kind)) ∧
      s.looping = true ∧ s.channel.length < eventCapacity ∧ s.put l = [(i, e)] ∧ s.take l = [] ∧
      s' = { s with sources := s.sources.set i { src with kind }, channel := s.channel ++ [e] }) ∨
    (∃ e, s.channel = e :: s'.channel ∧ s.put l = [] ∧ s.take l = [e] ∧ s.looping = true ∧
      s'.sources = s.sources ∧ s'.looping = true) ∨
    (s'.channel = s.channel ∧ s.put l = [] ∧ s.take l = [] ∧
      (s'.looping = s.looping ∨ s.channel = []) ∧
      s'.sources.map Source.kind = s.sources.map Source.kind) := by
  cases l with
  | send i e =>
      simp only [mainMachine] at h
      split at h
      · rename_i src hSrc
        split at h
        · rename_i hRoom
          obtain ⟨⟨e', kind⟩, hOffer, rfl⟩ := Option.map_eq_some_iff.mp h
          refine Or.inl ⟨i, src, e', kind, hSrc, ⟨e, hOffer⟩, hRoom.1, hRoom.2, ?_, rfl, rfl⟩
          simp [MainState.put, hSrc, hOffer]
        · cases h
      · cases h
  | fail i =>
      simp only [mainMachine] at h
      split at h
      · rename_i src hSrc
        split at h
        · cases h
        · cases h
          exact Or.inr (Or.inr ⟨rfl, rfl, rfl, Or.inl rfl, map_kind_end hSrc⟩)
      · cases h
  | finish i =>
      simp only [mainMachine] at h
      split at h
      · rename_i src hSrc
        split at h
        · cases h
          exact Or.inr (Or.inr ⟨rfl, rfl, rfl, Or.inl rfl, map_kind_end hSrc⟩)
        · cases h
      · cases h
  | receive =>
      simp only [mainMachine] at h
      split at h
      · rename_i e channel hLoop hChannel
        cases h
        exact Or.inr (Or.inl ⟨e, hChannel, rfl, by simp [MainState.take, hChannel], hLoop, rfl,
          hLoop⟩)
      · cases h
  | close =>
      simp only [mainMachine] at h
      split at h
      · rename_i hClosed
        cases h
        exact Or.inr (Or.inr ⟨rfl, rfl, rfl, Or.inr hClosed.2.1, rfl⟩)
      · cases h
  | «return» =>
      simp only [mainMachine] at h
      split at h
      · cases h
        exact Or.inr (Or.inr ⟨rfl, rfl, rfl, Or.inl rfl, rfl⟩)
      · cases h

/-- What every run of the sources keeps. -/
structure Delivered (setup : Setup T) (steps : List (MainStep T)) (s : MainState T) : Prop where
  /-- First in, first out, and nothing is lost or doubled. -/
  fifo : (putIn setup steps).map Prod.snd = takenIn setup steps ++ s.channel
  room : s.channel.length ≤ eventCapacity
  replay : ∀ events, setup.replay = some events → ∃ rest live,
    s.sources[0]? = some ⟨.replay rest, live⟩ ∧ putBy 0 setup steps ++ rest = events
  /-- The loop is left only when nothing waits. -/
  left : s.looping = false → s.channel = []

theorem Delivered.start (setup : Setup T) : Delivered setup [] setup.start where
  fifo := rfl
  room := Nat.zero_le _
  replay events hReplay := ⟨events, true, by simp [Setup.start, Setup.sources, hReplay], rfl⟩
  left h := by cases h

theorem Delivered.step (hPast : (mainMachine setup).exec setup.start steps = some s)
    (h : Delivered setup steps s) (hStep : (mainMachine setup).step s l = some s') :
    Delivered setup (steps ++ [l]) s' := by
  have hPut : putIn setup (steps ++ [l]) = putIn setup steps ++ s.put l :=
    Machine.outputs_concat _ hPast l
  have hTake : takenIn setup (steps ++ [l]) = takenIn setup steps ++ s.take l :=
    Machine.outputs_concat _ hPast l
  have hBy : putBy 0 setup (steps ++ [l]) =
      putBy 0 setup steps ++ ((s.put l).filter fun p => p.1 = 0).map Prod.snd := by
    rw [putBy, hPut, List.filter_append, List.map_append, putBy]
  rcases main_channel hStep with ⟨i, src, e, kind, hSrc, ⟨e', hOffer⟩, hLoop, hRoom, hPutE, hTakeE,
    rfl⟩ | ⟨e, hChannel, hPutE, hTakeE, -, hSources, hLoop⟩ |
    ⟨hChannel, hPutE, hTakeE, hLoop, hKinds⟩
  · refine ⟨?_, ?_, fun events hReplay => ?_, fun hLeft => ?_⟩
    · rw [hPut, hTake, hPutE, hTakeE, List.map_append, h.fifo, List.append_nil, List.append_assoc]
      rfl
    · rw [List.length_append, List.length_singleton]
      exact hRoom
    · obtain ⟨rest, live, hAt, hAll⟩ := h.replay events hReplay
      obtain ⟨hSrcAt, -⟩ := MainState.live?_eq_some hSrc
      by_cases hi : i = 0
      · -- the replay itself sends its next event
        subst hi
        rw [hAt] at hSrcAt
        cases hSrcAt
        obtain ⟨hLt, -⟩ := List.getElem?_eq_some_iff.mp hAt
        cases rest with
        | nil => cases hOffer
        | cons next rest =>
            cases hOffer
            refine ⟨rest, live, ?_, ?_⟩
            · rw [List.getElem?_set, if_pos rfl, if_pos hLt]
            · rw [hBy, hPutE, ← hAll]
              simp
      · refine ⟨rest, live, ?_, ?_⟩
        · rw [List.getElem?_set, if_neg hi, hAt]
        · rw [hBy, hPutE, ← hAll]
          simp [hi]
    · rw [hLoop] at hLeft
      cases hLeft
  · refine ⟨?_, ?_, fun events hReplay => ?_, fun hLeft => ?_⟩
    · rw [hPut, hTake, hPutE, hTakeE, List.append_nil, h.fifo, hChannel, List.append_assoc]
      rfl
    · have hBefore := h.room
      rw [hChannel, List.length_cons] at hBefore
      omega
    · obtain ⟨rest, live, hAt, hAll⟩ := h.replay events hReplay
      refine ⟨rest, live, hSources ▸ hAt, ?_⟩
      rw [hBy, hPutE, ← hAll]
      simp
    · rw [hLoop] at hLeft
      cases hLeft
  · refine ⟨?_, hChannel ▸ h.room, fun events hReplay => ?_, fun hLeft => ?_⟩
    · rw [hPut, hTake, hPutE, hTakeE, List.append_nil, List.append_nil, h.fifo, hChannel]
    · obtain ⟨rest, live, hAt, hAll⟩ := h.replay events hReplay
      have hKind := congrArg (·[0]?) hKinds
      simp only [List.getElem?_map, hAt, Option.map_some, Option.map_eq_some_iff] at hKind
      obtain ⟨⟨kind, live'⟩, hAt', hEq⟩ := hKind
      cases hEq
      refine ⟨rest, live', hAt', ?_⟩
      rw [hBy, hPutE, ← hAll]
      simp
    · rw [hChannel]
      rcases hLoop with hSame | hEmpty
      · exact h.left (hSame ▸ hLeft)
      · exact hEmpty

theorem Delivered.of_run (hRun : (mainMachine setup).exec setup.start steps = some s) :
    Delivered setup steps s :=
  Machine.exec_history (P := Delivered setup) (.start setup)
    (fun _ _ _ _ hPast h hStep => h.step hPast hStep) hRun

/-! ## The whole hub -/

section Projections

variable [HubFloat F] (setup : Setup T) (lib : SlamLib S F) (tuning : WorkerTuning) (n : Nat)

/-- The steps of the sources in a run of the whole hub. -/
def sourceSteps (steps : List (WholeStep S T F)) : List (MainStep T) :=
  steps.flatMap WholeStep.main

/-- The steps of the system. -/
def coreSteps (steps : List (WholeStep S T F)) : List (SystemStep S T F) :=
  Machine.rightSteps (mainMachine setup) (system lib tuning n) WholeStep.main WholeStep.system
    (setup.start, System.new) steps

/-- The events the pipeline has received. -/
def received (steps : List (WholeStep S T F)) : List (CarEvent T) :=
  eventsOf (inputsOf (taskStepsOf lib tuning n (coreSteps setup lib tuning n steps)))

end Projections

variable [HubFloat F] {lib : SlamLib S F} {tuning : WorkerTuning} {n : Nat}
  {p p' : MainState T × System S T F} {past : List (WholeStep S T F)} {w : WholeStep S T F}

/-- The events of the passes that a step of the system begins. -/
def System.events (t : System S T F) (l : SystemStep S T F) : List (CarEvent T) :=
  eventsOf (inputsOf (t.taskSteps l))

/-- Only a received event begins a pass with an event. -/
theorem received_concat
    (hPast : (whole setup lib tuning n).exec (setup.start, System.new) past = some p)
    (hStep : (whole setup lib tuning n).step p w = some p') :
    received setup lib tuning n (past ++ [w]) =
      received setup lib tuning n past ++ w.main.flatMap p.1.take := by
  have hCore : (system lib tuning n).exec System.new (coreSteps setup lib tuning n past) =
      some p.2 := Machine.exec_snd hPast
  have hConcat : coreSteps setup lib tuning n (past ++ [w]) =
      coreSteps setup lib tuning n past ++ w.system p.1 := Machine.rightSteps_concat hPast w
  have hNone : ∀ l, w.system p.1 = [l] → p.2.events l = w.main.flatMap p.1.take →
      received setup lib tuning n (past ++ [w]) =
        received setup lib tuning n past ++ w.main.flatMap p.1.take := by
    intro l hOne hEvents
    rw [received, hConcat, hOne, taskStepsOf, Machine.outputs_concat _ hCore, inputsOf,
      List.filterMap_append, eventsOf, List.filterMap_append, ← hEvents]
    rfl
  have hSilent : w.system p.1 = [] → w.main.flatMap p.1.take = [] →
      received setup lib tuning n (past ++ [w]) =
        received setup lib tuning n past ++ w.main.flatMap p.1.take := by
    intro hNoStep hNoEvent
    rw [received, hConcat, hNoStep, hNoEvent, List.append_nil, List.append_nil, received]
  cases w with
  | send i e => exact hSilent rfl rfl
  | fail i => exact hSilent rfl rfl
  | finish i => exact hSilent rfl rfl
  | «return» => exact hSilent rfl rfl
  | receive now spawned =>
      cases hHead : p.1.channel with
      | nil =>
          exact hSilent (by simp [WholeStep.system, hHead])
            (by simp [WholeStep.main, MainState.take, hHead])
      | cons e channel =>
          refine hNone (.event e now spawned) (by simp [WholeStep.system, hHead]) ?_
          simp only [WholeStep.main, List.flatMap_singleton, MainState.take, hHead]
          rfl
  | close => exact hNone .stop rfl rfl
  | slam =>
      refine hNone .slam rfl ?_
      simp only [System.events, System.taskSteps]
      cases p.2.queue <;> rfl
  | tick visits => exact hNone (.tick visits) rfl rfl
  | act => exact hNone .act rfl rfl
  | worker i k => exact hNone (.worker i k) rfl rfl

/-- The pipeline has received what was taken out of the channel. -/
theorem received_eq_takenIn {steps : List (WholeStep S T F)}
    (hRun : (whole setup lib tuning n).exec (setup.start, System.new) steps = some p) :
    received setup lib tuning n steps = takenIn setup (sourceSteps steps) := by
  refine Machine.exec_history (P := fun past _ =>
    received setup lib tuning n past = takenIn setup (sourceSteps past)) rfl ?_ hRun
  intro past p w p' hPast ih hStep
  have hMain : (mainMachine setup).exec setup.start (sourceSteps past) = some p.1 :=
    Machine.exec_fst hPast
  have hSteps : sourceSteps (past ++ [w]) = sourceSteps past ++ w.main := by
    simp [sourceSteps]
  have hOne : w.main = [] ∨ ∃ l, w.main = [l] := by
    cases w
    case slam => exact Or.inl rfl
    case tick => exact Or.inl rfl
    case act => exact Or.inl rfl
    case worker => exact Or.inl rfl
    all_goals exact Or.inr ⟨_, rfl⟩
  rw [received_concat hPast hStep, ih, hSteps]
  rcases hOne with hNone | ⟨l, hOne⟩
  · rw [hNone, List.append_nil]
    exact List.append_nil _
  · rw [hOne, List.flatMap_singleton]
    exact (Machine.outputs_concat _ hMain l).symm

/-- **From the sources to the snapshots.** In every run of the whole hub the events that all sources
put into the channel are those the pipeline has received, followed by those that wait: nothing is
lost, doubled or overtaken, at most 256 events wait, a replay sends a prefix of its recording, and
when the loop is left nothing is left behind. Between two passes every snapshot shows what the
received events of its car say. -/
theorem events_reach_hub (setup : Setup T) (lib : SlamLib S F) (tuning : WorkerTuning) (n : Nat)
    (steps : List (WholeStep S T F)) (p : MainState T × System S T F)
    (hRun : (whole setup lib tuning n).exec (setup.start, System.new) steps = some p) :
    (putIn setup (sourceSteps steps)).map Prod.snd =
        received setup lib tuning n steps ++ p.1.channel ∧
      p.1.channel.length ≤ eventCapacity ∧
      (∀ events, setup.replay = some events → putBy 0 setup (sourceSteps steps) <+: events) ∧
      (p.1.looping = false → p.1.channel = []) ∧
      (p.2.task.Idle → ∀ e ∈ received setup lib tuning n steps,
        ∃ snap, p.2.task.hub.cars.lookup e.car = some snap ∧
          snap.eventFields =
            fieldsAfter ((received setup lib tuning n steps).filter fun d => d.car = e.car)) := by
  have h := Delivered.of_run (Machine.exec_fst hRun)
  refine ⟨?_, h.room, fun events hReplay => ?_, h.left, fun hIdle e he => ?_⟩
  · rw [received_eq_takenIn hRun]
    exact h.fifo
  · obtain ⟨rest, -, -, hAll⟩ := h.replay events hReplay
    exact ⟨rest, hAll⟩
  · have hTask := (System.Invariant.of_run (Machine.exec_snd hRun)).task
    obtain ⟨locals, hLocals⟩ := hIdle
    have hPipeline := hTask.run
    rw [Task.completed_of_ret hLocals] at hPipeline
    exact event_fields hPipeline he

/-- A replay of two events, and a simulator whose event comes between them. -/
def replayAndSimulate : Setup Unit :=
  ⟨some [⟨"a", 1, .status "online"⟩, ⟨"a", 2, .status "offline"⟩], true, false, false, false⟩

def replayAndSimulateSteps : List (WholeStep Nat Unit ℚ) :=
  [.send 0 ⟨"a", 1, .status "online"⟩, .send 1 ⟨"sim", 5, .scan ⟨0, 0, [], 0⟩⟩, .receive 0 false,
    .act, .act, .send 0 ⟨"a", 2, .status "offline"⟩, .act, .receive 0 true, .act, .act, .act, .act,
    .worker 0 (.start (some 0)), .finish 0, .receive 0 false, .act, .act, .act]

theorem events_reach_hub_replay :
    ∃ p, (whole replayAndSimulate countingLib ⟨1, 1⟩ 5).exec
        (replayAndSimulate.start, System.new) replayAndSimulateSteps = some p ∧
      (putIn replayAndSimulate (sourceSteps replayAndSimulateSteps)).map Prod.fst = [0, 1, 0] ∧
      (putIn replayAndSimulate (sourceSteps replayAndSimulateSteps)).map Prod.snd =
        received replayAndSimulate countingLib ⟨1, 1⟩ 5 replayAndSimulateSteps ++ p.1.channel ∧
      p.1.channel.length ≤ eventCapacity :=
  have h := events_reach_hub replayAndSimulate countingLib ⟨1, 1⟩ 5 replayAndSimulateSteps _ rfl
  ⟨_, rfl, rfl, h.1, h.2.1⟩

end OlivawHub
