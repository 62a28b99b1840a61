import OlivawHub.Slam.Thread
import OlivawHub.Foundations.Machines

/-!
# A worker without threads

The loop of `run` in `worker.rs` over a list of frames: no mailbox, no channel, and nobody else.
`Worker.InStep` says how far a thread has come in such a run: what it has sent, and what it still
has to send for the frames it has matched, is what the loop alone gives (`Worker.InStep.step`).
-/

namespace OlivawHub

open Foundations

variable {S F : Type} [HubFloat F]

/-- After a `Tracked` output: the map, if one is due. An error ends the loop. -/
def mapTurn (lib : SlamLib S F) (tuning : WorkerTuning) (st : WorkerState S) :
    Option (WorkerState S) × List (SlamOutput F) :=
  if mapDue tuning st then
    match renderMap lib st with
    | (st, .ok m) => (some st, [.map m])
    | (_, .error _) => (none, [])
  else (some st, [])

/-- One frame, with the measured time of its match. -/
def frameTurn (lib : SlamLib S F) (tuning : WorkerTuning) (st : WorkerState S)
    (turn : ScanFrame × F) : Option (WorkerState S) × List (SlamOutput F) :=
  match trackFrame lib tuning st turn.1 turn.2 with
  | (st, none) => (some st, [])
  | (st, some (pose, scanWorld)) =>
      ((mapTurn lib tuning st).1, .tracked pose scanWorld :: (mapTurn lib tuning st).2)

/-- The loop of a worker on its own. -/
def slamLoop (lib : SlamLib S F) (tuning : WorkerTuning) :
    Machine (WorkerState S) (ScanFrame × F) where
  step st turn := (frameTurn lib tuning st turn).1

/-- What a worker on its own makes of the frames; nothing, where `Slam::new` fails. -/
def slamOutputs (lib : SlamLib S F) (tuning : WorkerTuning) (slam : Option S)
    (turns : List (ScanFrame × F)) : List (SlamOutput F) :=
  match slam with
  | some slam => (slamLoop lib tuning).outputs (fun st turn => (frameTurn lib tuning st turn).2)
      (WorkerState.new slam) turns
  | none => []

/-- What is left of the turn of a frame that was matched: the state of the loop afterwards, and
what is sent until then. -/
def WorkerPhase.rest (lib : SlamLib S F) (tuning : WorkerTuning) :
    WorkerPhase S F → Option (WorkerState S) × List (SlamOutput F)
  | .starting => (none, [])
  | .idle st => (some st, [])
  | .matching st _ => (some st, [])
  | .tracked st pose scanWorld =>
      ((mapTurn lib tuning st).1, .tracked pose scanWorld :: (mapTurn lib tuning st).2)
  | .sent st => mapTurn lib tuning st
  | .publishing st m => (some st, [.map m])
  | .stopped => (none, [])

/-- What `Slam::new` gave, if the step is its call. -/
def WorkerStep.slam? : WorkerStep S F → Option S
  | .start slam => slam
  | _ => none

/-- What `Slam::new` gave a thread that has taken these steps. Nothing before its call. -/
def slamOf (ks : List (WorkerStep S F)) : Option S := ks.findSome? WorkerStep.slam?

variable {lib : SlamLib S F} {tuning : WorkerTuning}

theorem frameTurn_none {st st' : WorkerState S} {frame : ScanFrame} {matchMs : F}
    (h : trackFrame lib tuning st frame matchMs = (st', none)) :
    frameTurn lib tuning st (frame, matchMs) = (some st', []) := by
  rw [frameTurn, h]

theorem frameTurn_some {st st' : WorkerState S} {frame : ScanFrame} {matchMs : F}
    {pose : PoseInfo F} {scanWorld : List (F × F)}
    (h : trackFrame lib tuning st frame matchMs = (st', some (pose, scanWorld))) :
    frameTurn lib tuning st (frame, matchMs) =
      (WorkerPhase.tracked st' pose scanWorld).rest lib tuning := by
  rw [frameTurn, h]
  rfl

/-- What the thread does after a `Tracked` output is the rest of the turn. -/
theorem rest_of_render {w w' : Worker S F} {st : WorkerState S} {isOpen : Bool}
    {out : Option (SlamOutput F)} (hPhase : w.phase = .sent st)
    (hStep : w.step lib tuning isOpen .render = some (w', out)) :
    out = none ∧ w'.slot = w.slot ∧ w'.phase.frame? = none ∧ w'.phase ≠ .starting ∧
      w'.phase.rest lib tuning = mapTurn lib tuning st := by
  obtain ⟨car, slot, phase⟩ := w
  obtain rfl : phase = .sent st := hPhase
  simp only [Worker.step] at hStep
  split at hStep
  · rename_i hDue
    split at hStep
    · rename_i st' m hRender
      cases hStep
      exact ⟨rfl, rfl, rfl, by simp, by rw [mapTurn, if_pos hDue, hRender]; rfl⟩
    · rename_i hRender
      cases hStep
      exact ⟨rfl, rfl, rfl, by simp, by rw [mapTurn, if_pos hDue, hRender]; rfl⟩
  · rename_i hDue
    cases hStep
    exact ⟨rfl, rfl, rfl, by simp, by rw [mapTurn, if_neg hDue]; rfl⟩

theorem Worker.step_started {w w' : Worker S F} {isOpen : Bool} {k : WorkerStep S F}
    {out : Option (SlamOutput F)} (h : w.step lib tuning isOpen k = some (w', out)) :
    w'.phase ≠ .starting := by
  rcases Worker.step_cases h with ⟨_, -, rfl, -⟩ | ⟨_, _, -, -, rfl, -⟩ |
    ⟨_, _, _, _, _, _, -, -, rfl, -⟩ | ⟨_, _, _, _, -, -, rfl, -⟩ | ⟨_, _, _, -, -, rfl, -⟩ |
    ⟨_, -, rfl, -⟩ | ⟨_, _, _, -, rfl, -⟩ | ⟨_, _, -, rfl, -⟩ | ⟨rfl, -⟩ <;> simp

/-- `Slam::new` is called once, at the beginning. -/
theorem Worker.start_phase {w w' : Worker S F} {isOpen : Bool} {slam : Option S}
    {out : Option (SlamOutput F)} (h : w.step lib tuning isOpen (.start slam) = some (w', out)) :
    w.phase = .starting := by
  cases hPhase : w.phase <;> simp [Worker.step, hPhase] at h ⊢

omit [HubFloat F] in
theorem slamOf_concat (ks : List (WorkerStep S F)) (k : WorkerStep S F) :
    slamOf (ks ++ [k]) = (slamOf ks).or k.slam? := by
  rw [slamOf, List.findSome?_append, ← slamOf]
  cases hSlam : k.slam? <;> simp [hSlam]

/-! ## The thread and the loop -/

/-- The thread has matched the frames of `turns` and sent `outs`: up to what is left of its turn,
this is what the loop has sent. -/
inductive WorkerPhase.Reached (lib : SlamLib S F) (tuning : WorkerTuning) (slam : Option S)
    (turns : List (ScanFrame × F)) (outs : List (SlamOutput F)) (phase : WorkerPhase S F) :
    Prop where
  | starting (isStarting : phase = .starting) (turns : turns = []) (outs : outs = [])
  | turning (slam₀ : S) (started : phase ≠ .starting) (begun : slam = some slam₀)
      (state : (slamLoop lib tuning).exec (WorkerState.new slam₀) turns =
        (phase.rest lib tuning).1)
      (outs : slamOutputs lib tuning slam turns = outs ++ (phase.rest lib tuning).2)
  | stopped (isStopped : phase = .stopped) (outs : outs <+: slamOutputs lib tuning slam turns)

/-- `frames` were submitted to the thread and it sent `outs`: what the loop gives for some of the
frames, in order, or a first part of it. The last frame is never one that is left out. -/
structure Worker.InStep (lib : SlamLib S F) (tuning : WorkerTuning) (slam : Option S)
    (turns : List (ScanFrame × F)) (frames : List ScanFrame) (outs : List (SlamOutput F))
    (w : Worker S F) : Prop where
  reached : w.phase.Reached lib tuning slam turns outs
  kept : (turns.map Prod.fst ++ (w.phase.frame?.toList ++ w.slot.toList)).Sublist frames
  last : (turns.map Prod.fst ++ (w.phase.frame?.toList ++ w.slot.toList)).getLast? =
    frames.getLast?

namespace WorkerPhase.Reached

variable {slam : Option S} {turns : List (ScanFrame × F)} {outs : List (SlamOutput F)}
  {phase phase' : WorkerPhase S F}

theorem isPrefix (h : phase.Reached lib tuning slam turns outs) :
    outs <+: slamOutputs lib tuning slam turns := by
  cases h with
  | starting _ _ hOuts => exact hOuts ▸ List.nil_prefix
  | turning _ _ _ _ hOuts => exact ⟨_, hOuts.symm⟩
  | stopped _ hOuts => exact hOuts

/-- A thread that gives up sends nothing more. -/
theorem stop (h : phase.Reached lib tuning slam turns outs) :
    (.stopped : WorkerPhase S F).Reached lib tuning slam turns outs := .stopped rfl h.isPrefix

/-- What is sent is no longer left. -/
theorem of_rest (h : phase.Reached lib tuning slam turns outs) (phase' : WorkerPhase S F)
    (hRunning : phase.state?.isSome) (hStarted : phase' ≠ .starting) {sent : List (SlamOutput F)}
    (hRest : phase.rest lib tuning =
      ((phase'.rest lib tuning).1, sent ++ (phase'.rest lib tuning).2)) :
    phase'.Reached lib tuning slam turns (outs ++ sent) := by
  cases h with
  | starting hPhase =>
      rw [hPhase] at hRunning
      cases hRunning
  | stopped hPhase =>
      rw [hPhase] at hRunning
      cases hRunning
  | turning slam₀ _ hSlam hState hOuts =>
      rw [hRest] at hState hOuts
      exact .turning slam₀ hStarted hSlam hState (by rw [hOuts, List.append_assoc])

/-- A match is the beginning of a turn. -/
theorem track {st : WorkerState S} {frame : ScanFrame} {matchMs : F}
    (h : (.matching st frame : WorkerPhase S F).Reached lib tuning slam turns outs)
    (hStarted : phase' ≠ .starting)
    (hTurn : frameTurn lib tuning st (frame, matchMs) = phase'.rest lib tuning) :
    phase'.Reached lib tuning slam (turns ++ [(frame, matchMs)]) outs := by
  cases h with
  | starting hPhase => cases hPhase
  | stopped hPhase => cases hPhase
  | turning slam₀ _ hSlam hState hOuts =>
      subst hSlam
      refine .turning slam₀ hStarted rfl ?_ ?_
      · rw [Machine.exec_snoc, hState, ← hTurn]
        rfl
      · have hBefore : slamOutputs lib tuning (some slam₀) turns = outs :=
          hOuts.trans (List.append_nil outs)
        have hSnoc := Machine.outputs_concat
          (fun st turn => (frameTurn lib tuning st turn).2) hState (frame, matchMs)
        rw [← hTurn, ← hBefore]
        exact hSnoc

end WorkerPhase.Reached

namespace Worker.InStep

variable {slam : Option S} {turns : List (ScanFrame × F)} {frames : List ScanFrame}
  {outs : List (SlamOutput F)} {w w' : Worker S F}

theorem new (lib : SlamLib S F) (tuning : WorkerTuning) (car : String) :
    InStep lib tuning none [] [] [] (Worker.new car) :=
  ⟨.starting rfl rfl rfl, List.Sublist.refl _, rfl⟩

theorem submit (h : InStep lib tuning slam turns frames outs w) (frame : ScanFrame) :
    InStep lib tuning slam turns (frames ++ [frame]) outs (w.submit frame) := by
  refine ⟨h.reached, ?_, ?_⟩
  · have hTaken : (turns.map Prod.fst ++ w.phase.frame?.toList).Sublist frames := by
      refine List.Sublist.trans ?_ h.kept
      rw [← List.append_assoc]
      exact List.sublist_append_left _ _
    rw [← List.append_assoc]
    exact hTaken.append (List.Sublist.refl _)
  · rw [← List.append_assoc]
    show (_ ++ [frame]).getLast? = _
    rw [List.getLast?_concat, List.getLast?_concat]

/-- The frames are where they were. -/
theorem of_reached (h : InStep lib tuning slam turns frames outs w) {slam' : Option S}
    {turns' : List (ScanFrame × F)} {outs' : List (SlamOutput F)}
    (hReached : w'.phase.Reached lib tuning slam' turns' outs')
    (hSame : turns'.map Prod.fst ++ (w'.phase.frame?.toList ++ w'.slot.toList) =
      turns.map Prod.fst ++ (w.phase.frame?.toList ++ w.slot.toList)) :
    InStep lib tuning slam' turns' frames outs' w' :=
  ⟨hReached, hSame ▸ h.kept, hSame ▸ h.last⟩

/-- The call of `Slam::new`. -/
theorem start {isOpen : Bool} {result : Option S} {out : Option (SlamOutput F)}
    (h : InStep lib tuning slam turns frames outs w)
    (hStep : w.step lib tuning isOpen (.start result) = some (w', out)) :
    InStep lib tuning result [] frames (outs ++ out.toList) w' := by
  obtain ⟨car, slot, phase⟩ := w
  cases phase <;> cases result <;>
    simp only [Worker.step, reduceCtorEq, Option.some.injEq, Prod.mk.injEq] at hStep
  · obtain ⟨rfl, rfl⟩ := hStep
    cases h.reached with
    | starting _ hTurns hOuts =>
        subst hTurns hOuts
        exact h.of_reached (.stopped rfl List.nil_prefix) rfl
    | turning _ hStarted => exact absurd rfl hStarted
    | stopped hPhase => cases hPhase
  · rename_i slam₀
    obtain ⟨rfl, rfl⟩ := hStep
    cases h.reached with
    | starting _ hTurns hOuts =>
        subst hTurns hOuts
        exact h.of_reached (.turning slam₀ (by simp) rfl rfl rfl) rfl
    | turning _ hStarted => exact absurd rfl hStarted
    | stopped hPhase => cases hPhase

/-- Every other step. -/
theorem step {isOpen : Bool} {k : WorkerStep S F} {out : Option (SlamOutput F)}
    (h : InStep lib tuning slam turns frames outs w)
    (hStep : w.step lib tuning isOpen k = some (w', out)) (hOther : ∀ result, k ≠ .start result) :
    ∃ turns', InStep lib tuning slam turns' frames (outs ++ out.toList) w' := by
  obtain ⟨car, slot, phase⟩ := w
  have hReached := h.reached
  cases k with
  | start result => exact absurd rfl (hOther result)
  | take =>
      cases phase <;> cases slot <;>
        simp only [Worker.step, reduceCtorEq, Option.some.injEq, Prod.mk.injEq] at hStep
      obtain ⟨rfl, rfl⟩ := hStep
      exact ⟨turns, h.of_reached (hReached.of_rest (.matching _ _) rfl (by simp) rfl) rfl⟩
  | track matchMs =>
      cases phase <;> simp only [Worker.step, reduceCtorEq] at hStep
      rename_i st frame
      have hSame : ∀ phase : WorkerPhase S F, phase.frame? = none →
          (turns ++ [(frame, matchMs)]).map Prod.fst ++ (phase.frame?.toList ++ slot.toList) =
            turns.map Prod.fst ++ ([frame] ++ slot.toList) := by
        intro phase hNone
        rw [hNone, List.map_append, List.append_assoc]
        rfl
      split at hStep
      · rename_i st' pose scanWorld hTrack
        cases hStep
        refine ⟨turns ++ [(frame, matchMs)], h.of_reached ?_ (hSame _ rfl)⟩
        rw [Option.toList_none, List.append_nil]
        exact hReached.track (by simp) (frameTurn_some hTrack)
      · rename_i st' hTrack
        cases hStep
        refine ⟨turns ++ [(frame, matchMs)], h.of_reached ?_ (hSame _ rfl)⟩
        rw [Option.toList_none, List.append_nil]
        exact hReached.track (by simp) (frameTurn_none hTrack)
  | render =>
      cases phase with
      | sent st =>
          obtain ⟨rfl, hSlot, hFrame, hStarted, hRest⟩ := rest_of_render rfl hStep
          refine ⟨turns, h.of_reached ?_ (by rw [hSlot, hFrame]; rfl)⟩
          exact hReached.of_rest _ rfl hStarted (by rw [hRest]; rfl)
      | _ => cases hStep
  | send =>
      cases phase <;> simp only [Worker.step, reduceCtorEq] at hStep
      · split at hStep <;> cases hStep
        · exact ⟨turns, h.of_reached (hReached.of_rest (.sent _) rfl (by simp) rfl) rfl⟩
        · rw [Option.toList_none, List.append_nil]
          exact ⟨turns, h.of_reached hReached.stop rfl⟩
      · split at hStep <;> cases hStep
        · exact ⟨turns, h.of_reached (hReached.of_rest (.idle _) rfl (by simp) rfl) rfl⟩
        · rw [Option.toList_none, List.append_nil]
          exact ⟨turns, h.of_reached hReached.stop rfl⟩

end Worker.InStep

end OlivawHub
