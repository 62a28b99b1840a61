import OlivawHub.Slam.Thread
import OlivawHub.Foundations.Marks

/-!
# The trace of a SLAM worker

What a worker sends while the pipeline receives: one `Tracked` for every frame its matcher
accepts, and a map after every `map_every_scans`-th. `Worker.Traced` says so of a thread between
any two of its steps; at the head of the loop nothing is pending, and the trace is exact.
-/

namespace OlivawHub

open Foundations

variable {S F : Type} [HubFloat F]

/-- A worker thread whose output channel is open; the pipeline hands it rotations. -/
def thread (lib : SlamLib S F) (tuning : WorkerTuning) :
    Machine (Worker S F) (ScanFrame ⊕ WorkerStep S F) where
  step
    | w, .inl frame => some (w.submit frame)
    | w, .inr k => (w.step lib tuning true k).map Prod.fst

/-- What one step sends. -/
def sentBy (lib : SlamLib S F) (tuning : WorkerTuning) (w : Worker S F) :
    ScanFrame ⊕ WorkerStep S F → List (SlamOutput F)
  | .inl _ => []
  | .inr k => ((w.step lib tuning true k).bind Prod.snd).toList

/-- The cloud of the frame is not empty, and `process_scan` accepts it. -/
def accepts (lib : SlamLib S F) (slam : S) (frame : ScanFrame) : Bool :=
  !(frameCloud lib frame).points.isEmpty && (lib.processScan slam (frameCloud lib frame)).1.isSome

/-- The frame accepted in one step. -/
def acceptedBy (lib : SlamLib S F) (w : Worker S F) : ScanFrame ⊕ WorkerStep S F → List ScanFrame
  | .inr (.track _) =>
      match w.phase with
      | .matching st frame => if accepts lib st.slam frame then [frame] else []
      | _ => []
  | _ => []

/-- The number of `Tracked` outputs from map to map. -/
def WorkerTuning.period (tuning : WorkerTuning) : Nat := max tuning.mapEveryScans.toNat 1

/-- An output as its sequence number or its map version. -/
def SlamOutput.tag : SlamOutput F → UInt32 ⊕ Nat
  | .tracked pose _ => .inl pose.seq
  | .map m => .inr m.version

/-- The frames accepted in a run. -/
def acceptedIn (lib : SlamLib S F) (tuning : WorkerTuning) (w : Worker S F)
    (steps : List (ScanFrame ⊕ WorkerStep S F)) : List ScanFrame :=
  (thread lib tuning).outputs (acceptedBy lib) w steps

/-- The outputs of a run, in the order they are sent. -/
def traceOf (lib : SlamLib S F) (tuning : WorkerTuning) (w : Worker S F)
    (steps : List (ScanFrame ⊕ WorkerStep S F)) : List (UInt32 ⊕ Nat) :=
  ((thread lib tuning).outputs (sentBy lib tuning) w steps).map SlamOutput.tag

variable {lib : SlamLib S F} {tuning : WorkerTuning}

theorem WorkerTuning.period_pos (tuning : WorkerTuning) : 0 < tuning.period := by
  unfold WorkerTuning.period
  omega

theorem trackFrame_cases {st st' : WorkerState S} {frame : ScanFrame} {matchMs : F}
    {out : Option (PoseInfo F × List (F × F))}
    (h : trackFrame lib tuning st frame matchMs = (st', out)) :
    st'.mapVersion = st.mapVersion ∧
      ((accepts lib st.slam frame = true ∧ st'.processed = st.processed + 1 ∧
          ∃ pose scanWorld, out = some (pose, scanWorld) ∧ pose.seq = frame.seq) ∨
        (accepts lib st.slam frame = false ∧ st'.processed = st.processed ∧ out = none)) := by
  unfold trackFrame at h
  unfold accepts
  dsimp only at h
  split at h
  · rename_i hEmpty
    cases h
    exact ⟨rfl, Or.inr ⟨by simp [hEmpty], rfl, rfl⟩⟩
  · rename_i hPoints
    split at h
    · rename_i slam hScan
      cases h
      exact ⟨rfl, Or.inr ⟨by simp [hScan], rfl, rfl⟩⟩
    · rename_i pose slam hScan
      cases h
      exact ⟨rfl, Or.inl ⟨by simp [hScan, hPoints], rfl, _, _, rfl, rfl⟩⟩

/-- As long as `processed` has not wrapped around, a map is due after every `period`-th frame. -/
theorem mapDue_iff {st : WorkerState S} {k : Nat} (hProcessed : st.processed = UInt32.ofNat k)
    (hFew : k < 2 ^ 32) : mapDue tuning st = true ↔ k % tuning.period = 0 := by
  have hMax : (max tuning.mapEveryScans 1).toNat = tuning.period := by
    unfold WorkerTuning.period
    rw [show max tuning.mapEveryScans 1 =
      if tuning.mapEveryScans ≤ 1 then 1 else tuning.mapEveryScans from rfl]
    split
    · rename_i hSmall
      rw [UInt32.le_iff_toNat_le] at hSmall
      exact (Nat.max_eq_right hSmall).symm
    · rename_i hLarge
      rw [UInt32.le_iff_toNat_le, Nat.not_le] at hLarge
      exact (Nat.max_eq_left (Nat.le_of_lt hLarge)).symm
  rw [mapDue, hProcessed, beq_iff_eq, ← UInt32.toNat_inj, UInt32.toNat_mod, hMax,
    UInt32.toNat_ofNat_of_lt' hFew]
  rfl

/-! ## The thread between two steps -/

/-- After `k` accepted frames, with `version` maps rendered. -/
def WorkerState.Counted (st : WorkerState S) (k version : Nat) : Prop :=
  st.processed = UInt32.ofNat k ∧ st.mapVersion = version

/-- `rest` is still to be sent for the `k` frames accepted so far. -/
def WorkerPhase.Owes (n k : Nat) (rest : List (UInt32 ⊕ Nat)) : WorkerPhase S F → Prop
  | .starting => k = 0 ∧ rest = []
  | .idle st => rest = [] ∧ st.Counted k (k / n)
  | .matching st _ => rest = [] ∧ st.Counted k (k / n)
  | .tracked st pose _ => rest = markedOne n pose.seq k ∧ 0 < k ∧ st.Counted k ((k - 1) / n)
  | .sent st => rest = (if k % n = 0 then [.inr (k / n)] else []) ∧ 0 < k ∧
      st.Counted k ((k - 1) / n)
  | .publishing st m => rest = [.inr m.version] ∧ st.Counted k (k / n)
  | .stopped => True

/-- The thread has sent `outs` for the frames `accepted`, up to what its phase owes. -/
def Worker.Traced (tuning : WorkerTuning) (accepted : List ScanFrame) (outs : List (SlamOutput F))
    (w : Worker S F) : Prop :=
  ∃ rest, w.phase.Owes tuning.period accepted.length rest ∧
    outs.map SlamOutput.tag ++ rest = marked tuning.period (accepted.map ScanFrame.seq)

namespace Worker.Traced

variable {accepted : List ScanFrame} {outs sent : List (SlamOutput F)} {w w' : Worker S F}
  {rest rest' : List (UInt32 ⊕ Nat)}

omit [HubFloat F] in
theorem new (tuning : WorkerTuning) (car : String) :
    Traced tuning [] [] (Worker.new car : Worker S F) := ⟨[], ⟨rfl, rfl⟩, rfl⟩

omit [HubFloat F] in
theorem isPrefix (h : Traced tuning accepted outs w) :
    outs.map SlamOutput.tag <+: marked tuning.period (accepted.map ScanFrame.seq) := by
  obtain ⟨rest, -, hTrace⟩ := h
  exact ⟨rest, hTrace⟩

omit [HubFloat F] in
/-- What is sent is no longer owed. -/
theorem of_owes (hTrace : outs.map SlamOutput.tag ++ rest =
      marked tuning.period (accepted.map ScanFrame.seq))
    (hRest : rest = sent.map SlamOutput.tag ++ rest')
    (hOwes : w'.phase.Owes tuning.period accepted.length rest') :
    Traced tuning (accepted ++ []) (outs ++ sent) w' := by
  refine ⟨rest', by rwa [List.append_nil], ?_⟩
  rw [List.append_nil, List.map_append, List.append_assoc, ← hRest, hTrace]

theorem track {st : WorkerState S} {frame : ScanFrame} {matchMs : F} {car : String}
    {slot : Option ScanFrame}
    (h : Traced tuning accepted outs (⟨car, slot, .matching st frame⟩ : Worker S F))
    (hStep : (⟨car, slot, .matching st frame⟩ : Worker S F).step lib tuning true (.track matchMs) =
      some (w', none)) :
    Traced tuning (accepted ++ if accepts lib st.slam frame then [frame] else []) outs w' := by
  obtain ⟨rest, ⟨rfl, hProcessed, hVersion⟩, hTrace⟩ := h
  rw [List.append_nil] at hTrace
  simp only [Worker.step] at hStep
  cases hResult : trackFrame lib tuning st frame matchMs with
  | mk st' out =>
      obtain ⟨hSame, ⟨hAccepts, hCount, pose, scanWorld, rfl, hSeq⟩ | ⟨hRejects, hCount, rfl⟩⟩ :=
        trackFrame_cases hResult
      · simp only [hResult, Option.some.injEq, Prod.mk.injEq, and_true] at hStep
        subst hStep
        rw [if_pos hAccepts]
        refine ⟨markedOne tuning.period frame.seq (accepted.length + 1), ⟨?_, ?_, ?_, ?_⟩, ?_⟩
        · rw [hSeq, List.length_append, List.length_singleton]
        · simp
        · rw [hCount, hProcessed, List.length_append, List.length_singleton, UInt32.ofNat_add]
          rfl
        · rw [hSame, hVersion]
          simp
        · rw [hTrace, List.map_append, List.map_singleton, marked_concat, List.length_map]
      · simp only [hResult, Option.some.injEq, Prod.mk.injEq, and_true] at hStep
        subst hStep
        rw [if_neg (by simp [hRejects]), List.append_nil]
        exact ⟨[], ⟨rfl, hCount.trans hProcessed, hSame.trans hVersion⟩, by
          rw [List.append_nil, hTrace]⟩

theorem render {st : WorkerState S} {car : String} {slot : Option ScanFrame}
    {out : Option (SlamOutput F)}
    (hCounted : st.Counted accepted.length ((accepted.length - 1) / tuning.period))
    (hPos : 0 < accepted.length) (hFew : accepted.length < 2 ^ 32)
    (hTrace : outs.map SlamOutput.tag ++ (if accepted.length % tuning.period = 0 then
      [.inr (accepted.length / tuning.period)] else []) =
        marked tuning.period (accepted.map ScanFrame.seq))
    (hStep : (⟨car, slot, .sent st⟩ : Worker S F).step lib tuning true .render = some (w', out)) :
    Traced tuning (accepted ++ []) (outs ++ out.toList) w' := by
  have hDue : mapDue tuning st = true ↔ accepted.length % tuning.period = 0 :=
    mapDue_iff hCounted.1 hFew
  have hNext := div_succ_of_mod tuning.period (accepted.length - 1)
  rw [Nat.sub_add_cancel hPos] at hNext
  simp only [Worker.step] at hStep
  split at hStep
  · rename_i hMap
    rw [if_pos (hDue.mp hMap)] at hTrace
    rw [if_pos (hDue.mp hMap), ← hCounted.2] at hNext
    have hVersion := renderMap_mapVersion lib st
    have hProcessed : (renderMap lib st).1.processed = st.processed := rfl
    split at hStep
    · rename_i st' m hRender
      cases hStep
      rw [hRender] at hVersion hProcessed
      have hNumber : m.version = accepted.length / tuning.period := by
        rw [renderMap_version (by rw [hRender]), hNext]
      exact of_owes hTrace rfl
        ⟨by rw [hNumber], hProcessed.trans hCounted.1, hVersion.trans hNext.symm⟩
    · cases hStep
      exact of_owes hTrace rfl trivial
  · rename_i hMap
    have hMod : ¬accepted.length % tuning.period = 0 := fun h => hMap (hDue.mpr h)
    cases hStep
    rw [if_neg hMod] at hTrace hNext
    exact of_owes hTrace rfl ⟨rfl, hCounted.1, hCounted.2.trans hNext.symm⟩

theorem step {l : ScanFrame ⊕ WorkerStep S F} (h : Traced tuning accepted outs w)
    (hStep : (thread lib tuning).step w l = some w')
    (hFew : (accepted ++ acceptedBy lib w l).length < 2 ^ 32) :
    Traced tuning (accepted ++ acceptedBy lib w l) (outs ++ sentBy lib tuning w l) w' := by
  obtain ⟨car, slot, phase⟩ := w
  cases l with
  | inl frame =>
      cases Option.some.inj hStep
      obtain ⟨rest, hOwes, hTrace⟩ := h
      exact of_owes hTrace rfl hOwes
  | inr k =>
      obtain ⟨⟨w'', out⟩, hWorker, rfl⟩ := Option.map_eq_some_iff.mp hStep
      have hSent : sentBy lib tuning ⟨car, slot, phase⟩ (.inr k) = out.toList := by
        rw [sentBy, hWorker]
        rfl
      rw [hSent]
      cases k with
      | start slam =>
          cases phase <;> cases slam <;>
            simp only [Worker.step, reduceCtorEq, Option.some.injEq, Prod.mk.injEq] at hWorker
          · obtain ⟨rfl, rfl⟩ := hWorker
            obtain ⟨rest, -, hTrace⟩ := h
            exact of_owes hTrace rfl trivial
          · obtain ⟨rfl, rfl⟩ := hWorker
            obtain ⟨rest, ⟨hNone, rfl⟩, hTrace⟩ := h
            exact of_owes hTrace rfl ⟨rfl, by rw [hNone]; rfl, by rw [hNone, Nat.zero_div]; rfl⟩
      | take =>
          cases phase <;> cases slot <;>
            simp only [Worker.step, reduceCtorEq, Option.some.injEq, Prod.mk.injEq] at hWorker
          obtain ⟨rfl, rfl⟩ := hWorker
          obtain ⟨rest, hOwes, hTrace⟩ := h
          exact of_owes hTrace rfl hOwes
      | track matchMs =>
          cases phase with
          | matching st frame =>
              have hOut : out = none := by
                simp only [Worker.step] at hWorker
                split at hWorker <;> cases hWorker <;> rfl
              subst hOut
              rw [Option.toList_none, List.append_nil]
              exact h.track hWorker
          | _ => cases hWorker
      | render =>
          cases phase with
          | sent st =>
              obtain ⟨rest, ⟨rfl, hPos, hCounted⟩, hTrace⟩ := h
              exact render hCounted hPos (by simpa [acceptedBy] using hFew) hTrace hWorker
          | _ => cases hWorker
      | send =>
          cases phase with
          | tracked st pose scanWorld =>
              cases hWorker
              obtain ⟨rest, ⟨rfl, hPos, hCounted⟩, hTrace⟩ := h
              exact of_owes hTrace rfl ⟨rfl, hPos, hCounted⟩
          | publishing st m =>
              cases hWorker
              obtain ⟨rest, ⟨rfl, hCounted⟩, hTrace⟩ := h
              exact of_owes hTrace rfl ⟨rfl, hCounted⟩
          | _ => cases hWorker

theorem of_run {car : String} {steps : List (ScanFrame ⊕ WorkerStep S F)}
    (hRun : (thread lib tuning).exec (Worker.new car) steps = some w)
    (hFew : (acceptedIn lib tuning (Worker.new car) steps).length < 2 ^ 32) :
    Traced tuning (acceptedIn lib tuning (Worker.new car) steps)
      ((thread lib tuning).outputs (sentBy lib tuning) (Worker.new car) steps) w := by
  refine Machine.exec_history
    (P := fun past w => (acceptedIn lib tuning (Worker.new car) past).length < 2 ^ 32 →
      Traced tuning (acceptedIn lib tuning (Worker.new car) past)
        ((thread lib tuning).outputs (sentBy lib tuning) (Worker.new car) past) w)
    (fun _ => new tuning car) ?_ hRun hFew
  intro past w l w' hPast ih hStep hShort
  rw [acceptedIn, Machine.outputs_concat _ hPast] at hShort ⊢
  rw [Machine.outputs_concat _ hPast]
  have hBefore : (acceptedIn lib tuning (Worker.new car) past).length < 2 ^ 32 := by
    rw [List.length_append] at hShort
    exact Nat.lt_of_le_of_lt (Nat.le_add_right _ _) hShort
  exact (ih hBefore).step hStep hShort

end Worker.Traced

/-- At the head of its loop a worker has sent one `Tracked` for each accepted frame, with the
sequence number of the frame, and directly after the `i`-th of them map `j` just when
`i = j * period`; in between it has sent a first part of this. -/
theorem worker_output_trace (lib : SlamLib S F) (tuning : WorkerTuning) (car : String)
    (steps : List (ScanFrame ⊕ WorkerStep S F)) (w : Worker S F)
    (hRun : (thread lib tuning).exec (Worker.new car) steps = some w)
    (hFew : (acceptedIn lib tuning (Worker.new car) steps).length < 2 ^ 32) :
    traceOf lib tuning (Worker.new car) steps <+:
      marked tuning.period ((acceptedIn lib tuning (Worker.new car) steps).map ScanFrame.seq) ∧
    ∀ st, w.phase = .idle st →
      let trace := traceOf lib tuning (Worker.new car) steps
      trace = marked tuning.period
        ((acceptedIn lib tuning (Worker.new car) steps).map ScanFrame.seq) ∧
      unmarked trace = (acceptedIn lib tuning (Worker.new car) steps).map ScanFrame.seq ∧
      marks trace = List.range' 1
        ((acceptedIn lib tuning (Worker.new car) steps).length / tuning.period) ∧
      (∀ before seq after, trace = before ++ .inl seq :: after →
        ∀ j, after.head? = some (.inr j) ↔ (unmarked before).length + 1 = j * tuning.period) ∧
      (∀ before i, ∀ poses : List UInt32, ∀ j after,
        trace = before ++ .inr i :: (poses.map .inl ++ .inr j :: after) →
          poses.length = tuning.period ∧ j = i + 1) := by
  have hTraced := Worker.Traced.of_run hRun hFew
  refine ⟨hTraced.isPrefix, ?_⟩
  intro st hIdle
  obtain ⟨rest, hOwes, hTrace⟩ := hTraced
  rw [hIdle] at hOwes
  obtain ⟨rfl, -⟩ := hOwes
  rw [List.append_nil] at hTrace
  rw [traceOf, hTrace]
  refine ⟨rfl, unmarked_marked _ _, ?_, ?_, ?_⟩
  · rw [marks_marked, List.length_map]
  · intro before seq after hSplit
    exact mark_after_iff tuning.period_pos hSplit
  · intro before i poses j after hSplit
    exact between_marks hSplit

/-- A frame with no points and two frames with one point each, a map after every second frame. -/
def threeFrames : List (ScanFrame ⊕ WorkerStep Nat ℚ) :=
  [.inr (.start (some 0)), .inl ⟨7, 0, [], 0⟩, .inr .take, .inr (.track 0),
    .inl ⟨8, 0, [⟨0, 0, 0⟩], 0⟩, .inr .take, .inr (.track 0), .inr .send, .inr .render,
    .inl ⟨9, 0, [⟨0, 0, 0⟩], 0⟩, .inr .take, .inr (.track 0), .inr .send, .inr .render, .inr .send]

theorem worker_output_trace_three :
    traceOf countingLib ⟨2, 1⟩ (Worker.new "a") threeFrames = [.inl 8, .inl 9, .inr 1] ∧
      ∃ w st, (thread countingLib ⟨2, 1⟩).exec (Worker.new "a") threeFrames = some w ∧
        w.phase = .idle st ∧
        traceOf countingLib ⟨2, 1⟩ (Worker.new "a") threeFrames = marked 2 [8, 9] :=
  ⟨by rfl, _, _, rfl, rfl,
    ((worker_output_trace countingLib ⟨2, 1⟩ "a" threeFrames _ rfl (by decide)).2 _ rfl).1⟩

end OlivawHub
