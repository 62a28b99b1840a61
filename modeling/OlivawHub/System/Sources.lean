import OlivawHub.Ingest.Events
import OlivawHub.Foundations.Machines

/-!
# Who holds a sender of the event channel

`main` makes the channel, gives a clone of the sender to every source it starts and keeps the
original. `recv` of `run` and of `log_only` returns `None` when the channel is empty and no sender
is left. Since `main` is itself waiting (in `api::serve`, or in `log_only`), its sender is always
left: the loop outlives all sources (`loop_outlives_sources_iff`).
-/

namespace OlivawHub

open Foundations

variable {T : Type}

/-- What `main` starts. -/
structure Setup (T : Type) where
  /-- The events of `--replay`; without it the hub listens to MQTT. -/
  replay : Option (List (CarEvent T))
  simulate : Bool
  /-- The simulator's task can panic, as with the configurations of `OlivawHub.Sim.Safety` for which
  some run does. When it does is left open here. -/
  simulatorPanics : Bool
  lidar : Bool
  logOnly : Bool

/-- The tasks and threads that hold a sender. -/
inductive SourceKind (T : Type) where
  /-- With the events that are still to be sent. -/
  | replay (rest : List (CarEvent T))
  | mqtt
  | simulator
  | lidar

structure Source (T : Type) where
  kind : SourceKind T
  /-- The task runs and holds its sender. -/
  live : Bool

/-- The sources that `main` starts, in the order of the code. -/
def Setup.sources (setup : Setup T) : List (Source T) :=
  (match setup.replay with
    | some events => [⟨.replay events, true⟩]
    | none => [⟨.mqtt, true⟩]) ++
  (if setup.simulate then [⟨.simulator, true⟩] else []) ++
  if setup.lidar then [⟨.lidar, true⟩] else []

/-- `main`, its sources, the channel, and the loop that receives. -/
structure MainState (T : Type) where
  /-- `events_tx` of `main` is not dropped. -/
  holdsSender : Bool
  sources : List (Source T)
  channel : List (CarEvent T)
  /-- The loop in `run` or `log_only` is waiting in `recv` or about to. -/
  looping : Bool

/-- All sources are started, and the loop begins. -/
def Setup.start (setup : Setup T) : MainState T := ⟨true, setup.sources, [], true⟩

/-- The senders that are left. -/
def MainState.senders (s : MainState T) : Nat :=
  (if s.holdsSender then 1 else 0) + s.sources.countP Source.live

/-- What a source sends next: the replay its next event, any other whatever it wants to. -/
def SourceKind.offer (e : CarEvent T) : SourceKind T → Option (CarEvent T × SourceKind T)
  | .replay [] => none
  | .replay (next :: rest) => some (next, .replay rest)
  | kind => some (e, kind)

/-- The task may end although its events are received: the replay is finished, the lidar's thread
met an error or the end of its scans, the simulator panicked. A replay whose pause panics
(`replay_delivers_iff`) counts as one that takes no further step. -/
def SourceKind.mayFinish (setup : Setup T) : SourceKind T → Bool
  | .replay rest => rest.isEmpty
  | .mqtt => false
  | .simulator => setup.simulatorPanics
  | .lidar => true

inductive MainStep (T : Type) where
  /-- Source `i` sends `e`. -/
  | send (i : Nat) (e : CarEvent T)
  /-- Source `i` finds the channel closed, and returns. -/
  | fail (i : Nat)
  /-- Source `i` ends by itself. -/
  | finish (i : Nat)
  | receive
  /-- `recv` returns `None`, and the loop is left. -/
  | close
  /-- `main` returns, and drops its sender. -/
  | return

/-- The capacity `main` gives the channel. -/
def eventCapacity : Nat := 256

/-- The source `i`, if it runs. -/
def MainState.live? (s : MainState T) (i : Nat) : Option (Source T) :=
  s.sources[i]?.filter Source.live

/-- One step of the hub's tasks. -/
def mainMachine (setup : Setup T) : Machine (MainState T) (MainStep T) where
  step s
    | .send i e =>
        match s.live? i with
        | some src =>
            if s.looping ∧ s.channel.length < eventCapacity then
              (src.kind.offer e).map fun (e, kind) =>
                { s with
                  sources := s.sources.set i { src with kind }
                  channel := s.channel ++ [e] }
            else none
        | none => none
    | .fail i =>
        match s.live? i with
        | some src =>
            if s.looping then none
            else some { s with sources := s.sources.set i { src with live := false } }
        | none => none
    | .finish i =>
        match s.live? i with
        | some src =>
            if src.kind.mayFinish setup then
              some { s with sources := s.sources.set i { src with live := false } }
            else none
        | none => none
    | .receive =>
        match s.looping, s.channel with
        | true, _ :: channel => some { s with channel }
        | _, _ => none
    | .close =>
        if s.looping ∧ s.channel = [] ∧ s.senders = 0 then some { s with looping := false }
        else none
    | .return =>
        -- `main` waits in `log_only` until the loop is left, or in `api::serve`
        if s.holdsSender ∧ (setup.logOnly → s.looping = false) then
          some { s with holdsSender := false }
        else none

/-- Every source has ended and nothing is left to receive, but a sender is, and the loop waits. -/
def MainState.Stuck (s : MainState T) : Prop :=
  (∀ src ∈ s.sources, src.live = false) ∧ s.channel = [] ∧ s.senders ≠ 0 ∧ s.looping = true

/-- One of the sources ends only when its events are no longer received. -/
def Setup.EndlessSource (setup : Setup T) : Prop :=
  setup.replay = none ∨ (setup.simulate = true ∧ setup.simulatorPanics = false)

variable {setup : Setup T} {s s' : MainState T} {l : MainStep T}

theorem MainState.live?_eq_some {i : Nat} {src : Source T} (h : s.live? i = some src) :
    s.sources[i]? = some src ∧ src.live = true :=
  Option.filter_eq_some_iff.mp h

/-- All that a step does to the sources and to the loop. -/
theorem main_cases (h : (mainMachine setup).step s l = some s') :
    (∃ i src e e' kind, s.live? i = some src ∧ src.kind.offer e = some (e', kind) ∧
      s'.sources = s.sources.set i { src with kind } ∧ s'.looping = s.looping ∧
      s'.holdsSender = s.holdsSender) ∨
    (∃ i src, s.live? i = some src ∧ (s.looping = false ∨ src.kind.mayFinish setup = true) ∧
      s'.sources = s.sources.set i { src with live := false } ∧ s'.looping = s.looping ∧
      s'.holdsSender = s.holdsSender) ∨
    (s'.sources = s.sources ∧ s'.looping = s.looping ∧ s'.holdsSender = s.holdsSender) ∨
    (s.senders = 0 ∧ s'.sources = s.sources ∧ s'.looping = false ∧
      s'.holdsSender = s.holdsSender) ∨
    ((setup.logOnly = true → s.looping = false) ∧ s'.sources = s.sources ∧
      s'.looping = s.looping ∧ s'.holdsSender = false) := by
  cases l with
  | send i e =>
      simp only [mainMachine] at h
      split at h
      · rename_i src hSrc
        split at h
        · obtain ⟨⟨e', kind⟩, hOffer, rfl⟩ := Option.map_eq_some_iff.mp h
          exact Or.inl ⟨i, src, e, e', kind, hSrc, hOffer, rfl, rfl, rfl⟩
        · cases h
      · cases h
  | fail i =>
      simp only [mainMachine] at h
      split at h
      · rename_i src hSrc
        split at h
        · cases h
        · rename_i hLeft
          cases h
          exact Or.inr (Or.inl ⟨i, src, hSrc, Or.inl (by simpa using hLeft), rfl, rfl, rfl⟩)
      · cases h
  | finish i =>
      simp only [mainMachine] at h
      split at h
      · rename_i src hSrc
        split at h
        · rename_i hFinish
          cases h
          exact Or.inr (Or.inl ⟨i, src, hSrc, Or.inr hFinish, rfl, rfl, rfl⟩)
        · cases h
      · cases h
  | receive =>
      simp only [mainMachine] at h
      split at h
      · cases h
        exact Or.inr (Or.inr (Or.inl ⟨rfl, rfl, rfl⟩))
      · cases h
  | close =>
      simp only [mainMachine] at h
      split at h
      · rename_i hClosed
        cases h
        exact Or.inr (Or.inr (Or.inr (Or.inl ⟨hClosed.2.2, rfl, rfl, rfl⟩)))
      · cases h
  | «return» =>
      simp only [mainMachine] at h
      split at h
      · rename_i hReturn
        cases h
        exact Or.inr (Or.inr (Or.inr (Or.inr ⟨hReturn.2, rfl, rfl, rfl⟩)))
      · cases h

/-! ## A sender is left -/

/-- While `main` waits, the loop goes on; in `log_only` it waits for ever. -/
structure MainWaits (setup : Setup T) (s : MainState T) : Prop where
  looping : s.holdsSender = true → s.looping = true
  logOnly : setup.logOnly = true → s.holdsSender = true ∧ s.looping = true

theorem MainWaits.step (h : MainWaits setup s) (hStep : (mainMachine setup).step s l = some s') :
    MainWaits setup s' := by
  have hKeep : s'.looping = s.looping → s'.holdsSender = s.holdsSender → MainWaits setup s' := by
    intro hLoop hSender
    refine ⟨fun hHolds => ?_, fun hLog => ?_⟩
    · rw [hLoop]
      exact h.looping (hSender ▸ hHolds)
    · rw [hLoop, hSender]
      exact h.logOnly hLog
  rcases main_cases hStep with ⟨_, _, _, _, _, -, -, -, hLoop, hSender⟩ |
    ⟨_, _, -, -, -, hLoop, hSender⟩ | ⟨-, hLoop, hSender⟩ | ⟨hNone, -, -, hSender⟩ |
    ⟨hMay, -, hLoop, hSender⟩
  · exact hKeep hLoop hSender
  · exact hKeep hLoop hSender
  · exact hKeep hLoop hSender
  · -- the loop is left only when `main` has dropped its sender
    have hDropped : s.holdsSender = false := by
      cases hHolds : s.holdsSender with
      | false => rfl
      | true =>
          rw [MainState.senders, hHolds, if_pos rfl] at hNone
          omega
    refine ⟨fun hHolds => ?_, fun hLog => ?_⟩
    · rw [hSender, hDropped] at hHolds
      cases hHolds
    · rw [(h.logOnly hLog).1] at hDropped
      cases hDropped
  · refine ⟨fun hHolds => ?_, fun hLog => ?_⟩
    · rw [hSender] at hHolds
      cases hHolds
    · have hLeft := hMay hLog
      rw [(h.logOnly hLog).2] at hLeft
      cases hLeft

theorem looping_of_run {steps : List (MainStep T)}
    (hRun : (mainMachine setup).exec setup.start steps = some s)
    (h : s.holdsSender = true ∨ setup.logOnly = true) : s.looping = true := by
  have hWaits := Machine.exec_invariant (P := MainWaits setup)
    (fun _ _ _ h hStep => h.step hStep) ⟨fun _ => rfl, fun _ => ⟨rfl, rfl⟩⟩ hRun
  exact h.elim hWaits.looping fun hLog => (hWaits.logOnly hLog).2

/-! ## Sources that never end -/

/-- A source of this kind ends only at a closed channel. -/
def SourceKind.Endless (setup : Setup T) : SourceKind T → Prop
  | .replay _ => False
  | kind => kind.mayFinish setup = false

/-- There is an endless source, and it runs while the loop does. -/
structure HasEndless (setup : Setup T) (s : MainState T) : Prop where
  exists_endless : ∃ src ∈ s.sources, src.kind.Endless setup
  live : s.looping = true → ∀ src ∈ s.sources, src.kind.Endless setup → src.live = true

theorem SourceKind.endless_offer {kind kind' : SourceKind T} {e e' : CarEvent T}
    (h : kind.offer e = some (e', kind')) :
    kind'.Endless setup ↔ kind.Endless setup := by
  cases kind with
  | replay rest =>
      cases rest with
      | nil => cases h
      | cons next rest =>
          cases h
          exact Iff.rfl
  | mqtt => cases h; exact Iff.rfl
  | simulator => cases h; exact Iff.rfl
  | lidar => cases h; exact Iff.rfl

theorem SourceKind.Endless.mayFinish {kind : SourceKind T} (h : kind.Endless setup) :
    kind.mayFinish setup = false := by
  cases kind with
  | replay rest => exact h.elim
  | mqtt => exact h
  | simulator => exact h
  | lidar => exact h

theorem HasEndless.set (h : HasEndless setup s) {i : Nat} {src src' : Source T}
    (hSources : s'.sources = s.sources.set i src') (hLoop : s'.looping = s.looping)
    (hSrc : s.live? i = some src)
    (hKind : src'.kind.Endless setup ↔ src.kind.Endless setup)
    (hLive : s.looping = true → src.kind.Endless setup → src'.live = true) :
    HasEndless setup s' := by
  obtain ⟨hAt, -⟩ := MainState.live?_eq_some hSrc
  obtain ⟨hLt, hEq⟩ := List.getElem?_eq_some_iff.mp hAt
  refine ⟨?_, fun hLooping src'' hMem hEndless => ?_⟩
  · obtain ⟨endless, hMem, hEndless⟩ := h.exists_endless
    obtain ⟨j, hj⟩ := List.mem_iff_getElem?.mp hMem
    rw [hSources]
    by_cases hij : i = j
    · subst hij
      rw [hAt, Option.some.injEq] at hj
      subst hj
      exact ⟨src', List.mem_set hLt _, hKind.mpr hEndless⟩
    · refine ⟨endless, List.mem_iff_getElem?.mpr ⟨j, ?_⟩, hEndless⟩
      rw [List.getElem?_set_ne hij, hj]
  · rw [hLoop] at hLooping
    rw [hSources] at hMem
    rcases List.mem_or_eq_of_mem_set hMem with hOld | rfl
    · exact h.live hLooping src'' hOld hEndless
    · exact hLive hLooping (hKind.mp hEndless)

theorem HasEndless.step (h : HasEndless setup s)
    (hStep : (mainMachine setup).step s l = some s') : HasEndless setup s' := by
  rcases main_cases hStep with ⟨i, src, e, e', kind, hSrc, hOffer, hSources, hLoop, -⟩ |
    ⟨i, src, hSrc, hEnd, hSources, hLoop, -⟩ | ⟨hSources, hLoop, -⟩ | ⟨-, hSources, hLoop, -⟩ |
    ⟨-, hSources, hLoop, -⟩
  · exact h.set hSources hLoop hSrc (SourceKind.endless_offer hOffer)
      fun _ _ => (MainState.live?_eq_some hSrc).2
  · refine h.set hSources hLoop hSrc Iff.rfl fun hLooping hEndless => ?_
    rcases hEnd with hLeft | hFinish
    · rw [hLooping] at hLeft
      cases hLeft
    · rw [hEndless.mayFinish] at hFinish
      cases hFinish
  · exact ⟨hSources ▸ h.exists_endless, by rw [hSources, hLoop]; exact h.live⟩
  · refine ⟨hSources ▸ h.exists_endless, fun hLooping => ?_⟩
    rw [hLoop] at hLooping
    cases hLooping
  · exact ⟨hSources ▸ h.exists_endless, by rw [hSources, hLoop]; exact h.live⟩

/-! ## Runs to the end of all sources -/

theorem replay_run (setup : Setup T) (others : List (Source T)) (events : List (CarEvent T)) :
    (mainMachine setup).exec ⟨true, ⟨.replay events, true⟩ :: others, [], true⟩
        (events.flatMap fun e => [.send 0 e, .receive]) =
      some ⟨true, ⟨.replay [], true⟩ :: others, [], true⟩ := by
  induction events with
  | nil => rfl
  | cons e events ih => exact ih

/-- A source that has ended. -/
def Source.ended (src : Source T) : Source T := { src with live := false }

theorem finish_run {rest : List (Source T)}
    (hRest : ∀ src ∈ rest, src.live = true ∧ src.kind.mayFinish setup = true)
    (first : List (Source T)) :
    (mainMachine setup).exec ⟨true, first ++ rest, [], true⟩
        ((List.range' first.length rest.length).map .finish) =
      some ⟨true, first ++ rest.map Source.ended, [], true⟩ := by
  induction rest generalizing first with
  | nil => rfl
  | cons src rest ih =>
      obtain ⟨hLive, hFinish⟩ := hRest src List.mem_cons_self
      have hAt : (⟨true, first ++ src :: rest, [], true⟩ : MainState T).live? first.length =
          some src := by
        simp [MainState.live?, hLive]
      have hNext := ih (fun other hOther => hRest other (List.mem_cons_of_mem _ hOther))
        (first ++ [src.ended])
      rw [List.length_append, List.length_singleton, List.append_assoc, List.append_assoc] at hNext
      rw [List.length_cons, List.range'_succ, List.map_cons, Machine.exec_cons]
      simp only [mainMachine, hAt, hFinish, if_true, Option.bind_some] at hNext ⊢
      rw [List.set_append_right _ _ (Nat.le_refl _), Nat.sub_self]
      exact hNext

/-- The sources besides the replay or MQTT. -/
def Setup.others (setup : Setup T) : List (Source T) :=
  (if setup.simulate then [⟨.simulator, true⟩] else []) ++
    if setup.lidar then [⟨.lidar, true⟩] else []

theorem others_mayFinish (h : setup.simulate = true → setup.simulatorPanics = true)
    {src : Source T} (hMem : src ∈ setup.others) :
    src.live = true ∧ src.kind.mayFinish setup = true := by
  unfold Setup.others at hMem
  rcases List.mem_append.mp hMem with hSim | hLidar
  · split at hSim
    · rename_i hSimulate
      rw [List.mem_singleton.mp hSim]
      exact ⟨rfl, h hSimulate⟩
    · cases hSim
  · split at hLidar
    · rw [List.mem_singleton.mp hLidar]
      exact ⟨rfl, rfl⟩
    · cases hLidar

theorem exists_stuck (h : ¬setup.EndlessSource) :
    ∃ steps s, (mainMachine setup).exec setup.start steps = some s ∧ s.Stuck := by
  rw [Setup.EndlessSource, not_or] at h
  obtain ⟨events, hReplay⟩ := Option.ne_none_iff_exists'.mp h.1
  have hPanics : setup.simulate = true → setup.simulatorPanics = true := by
    intro hSimulate
    cases hPanics : setup.simulatorPanics with
    | true => rfl
    | false => exact absurd ⟨hSimulate, hPanics⟩ h.2
  have hStart : setup.start = ⟨true, ⟨.replay events, true⟩ :: setup.others, [], true⟩ := by
    simp [Setup.start, Setup.sources, Setup.others, hReplay]
  have hAll : ∀ src ∈ (⟨.replay [], true⟩ :: setup.others : List (Source T)),
      src.live = true ∧ src.kind.mayFinish setup = true := by
    intro src hMem
    rcases List.mem_cons.mp hMem with rfl | hOther
    · exact ⟨rfl, rfl⟩
    · exact others_mayFinish hPanics hOther
  have hRun := replay_run setup setup.others events
  have hEnd := finish_run hAll []
  refine ⟨_, _, hStart ▸ Machine.exec_trans hRun hEnd, ?_, rfl, ?_, rfl⟩
  · intro src hMem
    obtain ⟨other, -, rfl⟩ := List.mem_map.mp hMem
    rfl
  · simp [MainState.senders]

theorem hasEndless_start (h : setup.EndlessSource) : HasEndless setup setup.start := by
  refine ⟨?_, fun _ src hMem _ => ?_⟩
  · rcases h with hMqtt | ⟨hSimulate, hPanics⟩
    · exact ⟨⟨.mqtt, true⟩, by simp [Setup.start, Setup.sources, hMqtt], rfl⟩
    · exact ⟨⟨.simulator, true⟩, by simp [Setup.start, Setup.sources, hSimulate], hPanics⟩
  · simp only [Setup.start, Setup.sources, List.mem_append] at hMem
    rcases hMem with (hFirst | hSim) | hLidar
    · split at hFirst <;> rw [List.mem_singleton.mp hFirst]
    · split at hSim
      · rw [List.mem_singleton.mp hSim]
      · cases hSim
    · split at hLidar
      · rw [List.mem_singleton.mp hLidar]
      · cases hLidar

/-- **The loop outlives its sources.** A state in which all sources have ended, nothing is left to
receive and yet the loop waits for a sender can be reached just when no source is endless. While
`main` has not returned the loop is never left, and with `--log-only` it is never left at all. -/
theorem loop_outlives_sources_iff (setup : Setup T) :
    ((∀ steps s, (mainMachine setup).exec setup.start steps = some s → ¬s.Stuck) ↔
      setup.EndlessSource) ∧
    ∀ steps s, (mainMachine setup).exec setup.start steps = some s →
      s.holdsSender = true ∨ setup.logOnly = true → s.looping = true := by
  refine ⟨⟨fun hNever => ?_, fun hEndless steps s hRun hStuck => ?_⟩, fun steps s hRun hWaits =>
    looping_of_run hRun hWaits⟩
  · by_contra hNone
    obtain ⟨steps, s, hRun, hStuck⟩ := exists_stuck hNone
    exact hNever steps s hRun hStuck
  · have h := Machine.exec_invariant (P := HasEndless setup) (fun _ _ _ h hStep => h.step hStep)
      (hasEndless_start hEndless) hRun
    obtain ⟨hEnded, -, -, hLooping⟩ := hStuck
    obtain ⟨src, hMem, hSrc⟩ := h.exists_endless
    have hLive := h.live hLooping src hMem hSrc
    rw [hEnded src hMem] at hLive
    cases hLive

/-- `--replay` with a recording of one event, and `--log-only`. -/
def replayOne : Setup Unit := ⟨some [⟨"a", 0, .status "online"⟩], false, false, false, true⟩

/-- The replay is finished and the loop waits for ever. -/
theorem replay_never_returns :
    ∃ s, (mainMachine replayOne).exec replayOne.start
        [.send 0 ⟨"a", 0, .status "online"⟩, .receive, .finish 0] = some s ∧
      s.Stuck ∧ ∀ steps t, (mainMachine replayOne).exec replayOne.start steps = some t →
        t.looping = true :=
  ⟨_, rfl, ⟨by decide, rfl, by decide, rfl⟩, fun _ _ hRun => looping_of_run hRun (Or.inr rfl)⟩

end OlivawHub
