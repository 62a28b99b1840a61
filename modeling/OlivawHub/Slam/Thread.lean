import OlivawHub.Slam.Worker
import OlivawHub.Slam.Mailbox
import Mathlib.Data.List.Forall2

/-!
# A SLAM worker thread

`run` of `worker.rs`, cut where other threads can see it: it starts a `Slam`, and then takes the
frame in its mailbox, matches it, sends the `Tracked` output, and now and then renders and sends
a map. The mailbox is the slot alone; that locking and waiting amount to this is the subject of
`OlivawHub.Slam.Mailbox`. A send fails once the pipeline has dropped the receiver, and ends the
thread, as a failing `Slam::new` or rendering does.

`Worker.Explains` ties a thread to what went in and what came out: the outputs stem from the
submitted frames, in their order, each from a frame of its own, and the maps carry the versions
1, 2, 3, ….
-/

namespace OlivawHub

open Foundations

/-- Where a worker thread stands. -/
inductive WorkerPhase (S F : Type) where
  | starting
  | idle (st : WorkerState S)
  | matching (st : WorkerState S) (frame : ScanFrame)
  | tracked (st : WorkerState S) (pose : PoseInfo F) (scanWorld : List (F × F))
  /-- The `Tracked` output is sent; a map may be due. -/
  | sent (st : WorkerState S)
  | publishing (st : WorkerState S) (m : MapSnapshot F)
  | stopped

/-- A worker thread with its mailbox. -/
structure Worker (S F : Type) where
  car : String
  slot : Option ScanFrame
  phase : WorkerPhase S F

/-- A thread that was just spawned. -/
def Worker.new {S F : Type} (car : String) : Worker S F := ⟨car, none, .starting⟩

/-- The steps of a thread, with what it gets from outside: the result of `Slam::new`, and the
measured time of a match. -/
inductive WorkerStep (S F : Type) where
  | start (slam : Option S)
  | take
  | track (matchMs : F)
  | render
  | send

variable {S F : Type}

/-- Hand the worker a rotation, replacing any unprocessed one. -/
def Worker.submit (w : Worker S F) (frame : ScanFrame) : Worker S F := { w with slot := some frame }

/-- The output found but not yet sent. -/
def WorkerPhase.output? : WorkerPhase S F → Option (SlamOutput F)
  | .tracked _ pose scanWorld => some (.tracked pose scanWorld)
  | .publishing _ m => some (.map m)
  | _ => none

/-- The frame taken but not yet matched. -/
def WorkerPhase.frame? : WorkerPhase S F → Option ScanFrame
  | .matching _ frame => some frame
  | _ => none

/-- The variables of a running worker. -/
def WorkerPhase.state? : WorkerPhase S F → Option (WorkerState S)
  | .idle st => some st
  | .matching st _ => some st
  | .tracked st _ _ => some st
  | .sent st => some st
  | .publishing st _ => some st
  | _ => none

variable [HubFloat F]

/-- One step of a thread, with what it puts into the output channel. `open` tells whether the
pipeline still receives. -/
def Worker.step (lib : SlamLib S F) (tuning : WorkerTuning) (isOpen : Bool) (w : Worker S F) :
    WorkerStep S F → Option (Worker S F × Option (SlamOutput F))
  | .start slam =>
      match w.phase, slam with
      | .starting, some slam => some ({ w with phase := .idle (WorkerState.new slam) }, none)
      | .starting, none => some ({ w with phase := .stopped }, none)
      | _, _ => none
  | .take =>
      match w.phase, w.slot with
      | .idle st, some frame => some ({ w with slot := none, phase := .matching st frame }, none)
      | _, _ => none
  | .track matchMs =>
      match w.phase with
      | .matching st frame =>
          match trackFrame lib tuning st frame matchMs with
          | (st, some (pose, scanWorld)) =>
              some ({ w with phase := .tracked st pose scanWorld }, none)
          | (st, none) => some ({ w with phase := .idle st }, none)
      | _ => none
  | .render =>
      match w.phase with
      | .sent st =>
          if mapDue tuning st then
            match renderMap lib st with
            | (st, .ok m) => some ({ w with phase := .publishing st m }, none)
            | (_, .error _) => some ({ w with phase := .stopped }, none)
          else some ({ w with phase := .idle st }, none)
      | _ => none
  | .send =>
      match w.phase with
      | .tracked st pose scanWorld =>
          if isOpen then some ({ w with phase := .sent st }, some (.tracked pose scanWorld))
          else some ({ w with phase := .stopped }, none)
      | .publishing st m =>
          if isOpen then some ({ w with phase := .idle st }, some (.map m))
          else some ({ w with phase := .stopped }, none)
      | _ => none

theorem Worker.step_cases {lib : SlamLib S F} {tuning : WorkerTuning} {isOpen : Bool}
    {w w' : Worker S F} {k : WorkerStep S F} {out : Option (SlamOutput F)}
    (h : w.step lib tuning isOpen k = some (w', out)) :
    (∃ slam, w.phase = .starting ∧ w' = { w with phase := .idle (WorkerState.new slam) } ∧
      out = none) ∨
    (∃ st frame, w.phase = .idle st ∧ w.slot = some frame ∧
      w' = { w with slot := none, phase := .matching st frame } ∧ out = none) ∨
    (∃ st frame matchMs st' pose scanWorld, w.phase = .matching st frame ∧
      trackFrame lib tuning st frame matchMs = (st', some (pose, scanWorld)) ∧
      w' = { w with phase := .tracked st' pose scanWorld } ∧ out = none) ∨
    (∃ st frame matchMs st', w.phase = .matching st frame ∧
      trackFrame lib tuning st frame matchMs = (st', none) ∧
      w' = { w with phase := .idle st' } ∧ out = none) ∨
    (∃ st st' m, w.phase = .sent st ∧ renderMap lib st = (st', .ok m) ∧
      w' = { w with phase := .publishing st' m } ∧ out = none) ∨
    (∃ st, w.phase = .sent st ∧ w' = { w with phase := .idle st } ∧ out = none) ∨
    (∃ st pose scanWorld, w.phase = .tracked st pose scanWorld ∧
      w' = { w with phase := .sent st } ∧ out = some (.tracked pose scanWorld)) ∨
    (∃ st m, w.phase = .publishing st m ∧ w' = { w with phase := .idle st } ∧
      out = some (.map m)) ∨
    (w' = { w with phase := .stopped } ∧ out = none) := by
  obtain ⟨car, slot, phase⟩ := w
  cases k with
  | start slam =>
      cases phase <;> cases slam <;>
        simp only [Worker.step, reduceCtorEq, Option.some.injEq, Prod.mk.injEq] at h
      · obtain ⟨rfl, rfl⟩ := h
        simp
      · obtain ⟨rfl, rfl⟩ := h
        exact Or.inl ⟨_, rfl, rfl, rfl⟩
  | take =>
      cases phase <;> cases slot <;>
        simp only [Worker.step, reduceCtorEq, Option.some.injEq, Prod.mk.injEq] at h
      obtain ⟨rfl, rfl⟩ := h
      exact Or.inr (Or.inl ⟨_, _, rfl, rfl, rfl, rfl⟩)
  | track matchMs =>
      cases phase <;> simp only [Worker.step, reduceCtorEq] at h
      split at h
      · rename_i st frame st' pose scanWorld hTrack
        simp only [Option.some.injEq, Prod.mk.injEq] at h
        obtain ⟨rfl, rfl⟩ := h
        exact Or.inr (Or.inr (Or.inl ⟨_, _, _, _, _, _, rfl, hTrack, rfl, rfl⟩))
      · rename_i st frame st' hTrack
        simp only [Option.some.injEq, Prod.mk.injEq] at h
        obtain ⟨rfl, rfl⟩ := h
        exact Or.inr (Or.inr (Or.inr (Or.inl ⟨_, _, _, _, rfl, hTrack, rfl, rfl⟩)))
  | render =>
      cases phase <;> simp only [Worker.step, reduceCtorEq] at h
      split at h
      · split at h
        · rename_i st' m hRender
          simp only [Option.some.injEq, Prod.mk.injEq] at h
          obtain ⟨rfl, rfl⟩ := h
          exact Or.inr (Or.inr (Or.inr (Or.inr (Or.inl ⟨_, _, _, rfl, hRender, rfl, rfl⟩))))
        · simp only [Option.some.injEq, Prod.mk.injEq] at h
          obtain ⟨rfl, rfl⟩ := h
          simp
      · simp only [Option.some.injEq, Prod.mk.injEq] at h
        obtain ⟨rfl, rfl⟩ := h
        simp
  | send =>
      cases phase <;> simp only [Worker.step, reduceCtorEq] at h
      all_goals
        split at h <;> simp only [Option.some.injEq, Prod.mk.injEq] at h <;>
          obtain ⟨rfl, rfl⟩ := h <;> simp

theorem Worker.step_car {lib : SlamLib S F} {tuning : WorkerTuning} {isOpen : Bool}
    {w w' : Worker S F} {k : WorkerStep S F} {out : Option (SlamOutput F)}
    (h : w.step lib tuning isOpen k = some (w', out)) : w'.car = w.car := by
  rcases Worker.step_cases h with ⟨_, -, rfl, -⟩ | ⟨_, _, -, -, rfl, -⟩ |
    ⟨_, _, _, _, _, _, -, -, rfl, -⟩ | ⟨_, _, _, _, -, -, rfl, -⟩ | ⟨_, _, _, -, -, rfl, -⟩ |
    ⟨_, -, rfl, -⟩ | ⟨_, _, _, -, rfl, -⟩ | ⟨_, _, -, rfl, -⟩ | ⟨rfl, -⟩ <;> rfl

/-! ## The slot

The thread uses its mailbox as a slot for the latest frame, which is what the mailbox is
(`Mailbox.refines_latestSlot`). -/

omit [HubFloat F] in
theorem Worker.submit_latest (w : Worker S F) (frame : ScanFrame) (put : List ScanFrame)
    (taken : List (ScanFrame × Nat)) :
    (latestSlot ScanFrame).step ⟨w.slot, put, taken⟩ (.put frame) =
      some ⟨(w.submit frame).slot, put ++ [frame], taken⟩ := rfl

theorem Worker.step_latest {lib : SlamLib S F} {tuning : WorkerTuning} {isOpen : Bool}
    {w w' : Worker S F} {k : WorkerStep S F} {out : Option (SlamOutput F)}
    (h : w.step lib tuning isOpen k = some (w', out)) :
    w'.slot = w.slot ∨ ∃ frame, w'.phase.frame? = some frame ∧
      ∀ put taken, (latestSlot ScanFrame).step ⟨w.slot, put, taken⟩ .take =
        some ⟨w'.slot, put, taken ++ [(frame, put.length)]⟩ := by
  rcases Worker.step_cases h with ⟨_, -, rfl, -⟩ | ⟨_, frame, -, hSlot, rfl, -⟩ |
    ⟨_, _, _, _, _, _, -, -, rfl, -⟩ | ⟨_, _, _, _, -, -, rfl, -⟩ | ⟨_, _, _, -, -, rfl, -⟩ |
    ⟨_, -, rfl, -⟩ | ⟨_, _, _, -, rfl, -⟩ | ⟨_, _, -, rfl, -⟩ | ⟨rfl, -⟩
  · exact Or.inl rfl
  · exact Or.inr ⟨frame, rfl, fun put taken => by rw [hSlot]; rfl⟩
  all_goals exact Or.inl rfl

/-! ## Map versions -/

omit [HubFloat F] in
/-- The versions are 1, 2, 3, …. -/
def Numbered (maps : List (MapSnapshot F)) : Prop := ∀ i m, maps[i]? = some m → m.version = i + 1

omit [HubFloat F] in
theorem Numbered.nil : Numbered ([] : List (MapSnapshot F)) := fun _ _ h => by simp at h

omit [HubFloat F] in
theorem Numbered.of_isPrefix {maps first : List (MapSnapshot F)} (h : Numbered maps)
    (hPrefix : first <+: maps) : Numbered first := by
  obtain ⟨rest, rfl⟩ := hPrefix
  intro i m hm
  obtain ⟨hLt, -⟩ := List.getElem?_eq_some_iff.mp hm
  exact h i m (by rw [List.getElem?_append_left hLt, hm])

omit [HubFloat F] in
theorem Numbered.concat {maps : List (MapSnapshot F)} (h : Numbered maps) {m : MapSnapshot F}
    (hm : m.version = maps.length + 1) : Numbered (maps ++ [m]) := by
  intro i m' hm'
  rcases getElem?_concat_eq_some.mp hm' with hOld | ⟨rfl, rfl⟩
  · exact h i m' hOld
  · exact hm

/-! ## What went in explains what came out -/

omit [HubFloat F] in
/-- The outputs of a thread, those it has still to send included. -/
def Worker.produced (outs : List (SlamOutput F)) (w : Worker S F) : List (SlamOutput F) :=
  outs ++ w.phase.output?.toList

/-- `frames` were submitted to the thread and it sent `outs`. -/
structure Worker.Explains (lib : SlamLib S F) (tuning : WorkerTuning) (frames : List ScanFrame)
    (outs : List (SlamOutput F)) (w : Worker S F) : Prop where
  /-- Every pose stems from a frame of its own, in order; the frame being matched comes after
  those, and the frame in the mailbox last. -/
  tracked : ∃ used, List.Forall₂ (fun out frame => TrackedFrom lib tuning frame out)
      ((w.produced outs).filterMap SlamOutput.tracked?) used ∧
    (used ++ w.phase.frame?.toList ++ w.slot.toList).Sublist frames
  fresh : w.phase = .starting → outs = []
  maps : Numbered ((w.produced outs).filterMap SlamOutput.map?)
  version : ∀ st, w.phase.state? = some st →
    st.mapVersion = ((w.produced outs).filterMap SlamOutput.map?).length

namespace Worker.Explains

variable {lib : SlamLib S F} {tuning : WorkerTuning} {frames : List ScanFrame}
  {outs : List (SlamOutput F)} {w w' : Worker S F}

theorem new (lib : SlamLib S F) (tuning : WorkerTuning) (car : String) :
    Explains lib tuning [] [] (Worker.new car) :=
  ⟨⟨[], List.Forall₂.nil, List.Sublist.refl _⟩, fun _ => rfl, Numbered.nil, nofun⟩

theorem submit (h : Explains lib tuning frames outs w) (frame : ScanFrame) :
    Explains lib tuning (frames ++ [frame]) outs (w.submit frame) := by
  obtain ⟨used, hUsed, hSub⟩ := h.tracked
  refine ⟨⟨used, hUsed, ?_⟩, h.fresh, h.maps, h.version⟩
  exact ((List.sublist_append_left _ _).trans hSub).append (List.Sublist.refl _)

/-- A thread that gives up sends nothing more. -/
theorem stop (h : Explains lib tuning frames outs w) :
    Explains lib tuning frames outs { w with phase := .stopped } := by
  obtain ⟨used, hUsed, hSub⟩ := h.tracked
  have hPrefix : outs <+: w.produced outs := List.prefix_append _ _
  have hStopped : ({ w with phase := .stopped } : Worker S F).produced outs = outs :=
    List.append_nil _
  refine ⟨⟨used.take (outs.filterMap SlamOutput.tracked?).length, ?_, ?_⟩, nofun, ?_,
    nofun⟩
  · have hTake := List.forall₂_take (outs.filterMap SlamOutput.tracked?).length hUsed
    rw [produced, List.filterMap_append, List.take_left] at hTake
    rwa [hStopped]
  · have hSlot : (used ++ w.slot.toList).Sublist frames :=
      ((List.sublist_append_left used _).append (List.Sublist.refl _)).trans hSub
    have hTake : (used.take (outs.filterMap SlamOutput.tracked?).length ++ [] ++
        w.slot.toList).Sublist frames := by
      rw [List.append_nil]
      exact ((List.take_sublist _ _).append (List.Sublist.refl _)).trans hSlot
    exact hTake
  · rw [hStopped]
    exact h.maps.of_isPrefix (hPrefix.filterMap _)

theorem of_produced (h : Explains lib tuning frames outs w) {outs' : List (SlamOutput F)}
    (hProduced : w'.produced outs' = w.produced outs)
    (hFrames : (w'.phase.frame?.toList ++ w'.slot.toList).Sublist
      (w.phase.frame?.toList ++ w.slot.toList))
    (hState : ∀ st, w'.phase.state? = some st →
      ∃ st', w.phase.state? = some st' ∧ st'.mapVersion = st.mapVersion)
    (hStarted : w'.phase ≠ .starting) : Explains lib tuning frames outs' w' := by
  obtain ⟨used, hUsed, hSub⟩ := h.tracked
  refine ⟨⟨used, by rwa [hProduced], ?_⟩, fun h => absurd h hStarted,
    by rw [hProduced]; exact h.maps, fun st hSt => ?_⟩
  · rw [List.append_assoc] at hSub ⊢
    exact ((List.Sublist.refl used).append hFrames).trans hSub
  · obtain ⟨st', hSt', hEq⟩ := hState st hSt
    rw [hProduced, ← hEq]
    exact h.version st' hSt'

theorem step {isOpen : Bool} {k : WorkerStep S F} {out : Option (SlamOutput F)}
    (h : Explains lib tuning frames outs w)
    (hStep : w.step lib tuning isOpen k = some (w', out)) :
    Explains lib tuning frames (outs ++ out.toList) w' := by
  obtain ⟨car, slot, phase⟩ := w
  rcases Worker.step_cases hStep with ⟨slam, rfl, rfl, rfl⟩ | ⟨st, frame, rfl, rfl, rfl, rfl⟩ |
    ⟨st, frame, matchMs, st', pose, scanWorld, rfl, hTrack, rfl, rfl⟩ |
    ⟨st, frame, matchMs, st', rfl, hTrack, rfl, rfl⟩ | ⟨st, st', m, rfl, hRender, rfl, rfl⟩ |
    ⟨st, rfl, rfl, rfl⟩ | ⟨st, pose, scanWorld, rfl, rfl, rfl⟩ | ⟨st, m, rfl, rfl, rfl⟩ | ⟨rfl, rfl⟩
  · -- the worker is ready: no map yet
    have hOuts : outs = [] := h.fresh rfl
    subst hOuts
    obtain ⟨used, hUsed, hSub⟩ := h.tracked
    refine ⟨⟨used, hUsed, hSub⟩, fun _ => rfl, h.maps, fun st hSt => ?_⟩
    cases hSt
    rfl
  · -- the frame moves from the mailbox to the thread
    refine h.of_produced (by simp [produced, WorkerPhase.output?]) (List.Sublist.refl _)
      (fun st' hSt => ⟨st', hSt, rfl⟩) (by simp)
  · -- a new pose, from the frame that was matched
    have hVersion := trackFrame_mapVersion lib tuning st frame matchMs
    rw [hTrack] at hVersion
    obtain ⟨used, hUsed, hSub⟩ := h.tracked
    have hOuts : (Worker.produced (outs ++ (none : Option (SlamOutput F)).toList)
        (⟨car, slot, .tracked st' pose scanWorld⟩ : Worker S F)).filterMap SlamOutput.tracked? =
        (Worker.produced outs (⟨car, slot, .matching st frame⟩ : Worker S F)).filterMap
          SlamOutput.tracked? ++ [(pose, scanWorld)] := by
      simp [produced, WorkerPhase.output?, SlamOutput.tracked?]
    have hMaps : (Worker.produced (outs ++ (none : Option (SlamOutput F)).toList)
        (⟨car, slot, .tracked st' pose scanWorld⟩ : Worker S F)).filterMap SlamOutput.map? =
        (Worker.produced outs (⟨car, slot, .matching st frame⟩ : Worker S F)).filterMap
          SlamOutput.map? := by
      simp [produced, WorkerPhase.output?, SlamOutput.map?, filterMap_cons_toList]
    refine ⟨⟨used ++ [frame], ?_, ?_⟩, nofun, ?_, fun st'' hSt => ?_⟩
    · rw [hOuts]
      exact List.rel_append hUsed (List.Forall₂.cons ⟨st, st', matchMs, hTrack⟩ List.Forall₂.nil)
    · simpa [WorkerPhase.frame?] using hSub
    · rw [hMaps]
      exact h.maps
    · cases hSt
      rw [hMaps, hVersion]
      exact h.version st rfl
  · -- the scan was skipped
    have hVersion := trackFrame_mapVersion lib tuning st frame matchMs
    rw [hTrack] at hVersion
    refine h.of_produced (by simp [produced, WorkerPhase.output?])
      (List.sublist_append_right _ _) (fun st'' hSt => ?_) (by simp)
    cases hSt
    exact ⟨st, rfl, hVersion.symm⟩
  · -- a new map, with the next version
    have hVersion := h.version st rfl
    have hNew : m.version = st.mapVersion + 1 := renderMap_version (by rw [hRender])
    have hCount : st'.mapVersion = st.mapVersion + 1 := by
      have hEq := renderMap_mapVersion lib st
      rwa [hRender] at hEq
    obtain ⟨used, hUsed, hSub⟩ := h.tracked
    have hMaps : (Worker.produced (outs ++ (none : Option (SlamOutput F)).toList)
        (⟨car, slot, .publishing st' m⟩ : Worker S F)).filterMap SlamOutput.map? =
        (Worker.produced outs (⟨car, slot, .sent st⟩ : Worker S F)).filterMap
          SlamOutput.map? ++ [m] := by
      simp [produced, WorkerPhase.output?, SlamOutput.map?]
    refine ⟨⟨used, ?_, hSub⟩, nofun, ?_, fun st'' hSt => ?_⟩
    · simpa [produced, WorkerPhase.output?, SlamOutput.tracked?, filterMap_cons_toList] using hUsed
    · rw [hMaps]
      exact h.maps.concat (by rw [hNew, hVersion])
    · cases hSt
      rw [hMaps, List.length_append, List.length_singleton, hCount, hVersion]
  · -- no map is due
    exact h.of_produced (by simp [produced, WorkerPhase.output?]) (List.Sublist.refl _)
      (fun st' hSt => ⟨st', hSt, rfl⟩) (by simp)
  · -- the pose is sent
    exact h.of_produced (by simp [produced, WorkerPhase.output?]) (List.Sublist.refl _)
      (fun st' hSt => ⟨st', hSt, rfl⟩) (by simp)
  · -- the map is sent
    exact h.of_produced (by simp [produced, WorkerPhase.output?]) (List.Sublist.refl _)
      (fun st' hSt => ⟨st', hSt, rfl⟩) (by simp)
  · simpa using h.stop

end Worker.Explains

end OlivawHub
