import OlivawHub.Pipeline.CarLog

/-!
# Worker handles

The `workers` table maps a car to the number of its thread, and the `spawn` actions number the
threads. `Handles` says that the two agree: a car has at most one thread, the handle in the
table is the number of this very thread, and the frames submitted to it are scans of its car, in
the order in which they were received.
-/

namespace OlivawHub

open Foundations

variable {T F : Type}

/-- The car for which an action starts a thread. -/
@[simp] def HubOp.spawned? : HubOp T F → Option String
  | .spawn car _ => some car
  | _ => none

/-- The frame an action submits to the thread `w`. -/
@[simp] def HubOp.frameTo? (w : Nat) : HubOp T F → Option ScanFrame
  | .submit w' frame => if w' = w then some frame else none
  | _ => none

/-- The cars of the threads, in the order of their numbers. -/
def spawnedCars (os : List (HubOp T F)) : List String := os.filterMap HubOp.spawned?

/-- The frames submitted to the thread `w`, in order. -/
def framesTo (w : Nat) (os : List (HubOp T F)) : List ScanFrame :=
  os.filterMap (HubOp.frameTo? w)

@[simp] theorem spawnedCars_nil : spawnedCars ([] : List (HubOp T F)) = [] := rfl

@[simp] theorem framesTo_nil (w : Nat) : framesTo w ([] : List (HubOp T F)) = [] := rfl

@[simp] theorem spawnedCars_cons (o : HubOp T F) (os : List (HubOp T F)) :
    spawnedCars (o :: os) = o.spawned?.toList ++ spawnedCars os := filterMap_cons_toList ..

@[simp] theorem framesTo_cons (w : Nat) (o : HubOp T F) (os : List (HubOp T F)) :
    framesTo w (o :: os) = (o.frameTo? w).toList ++ framesTo w os := filterMap_cons_toList ..

@[simp] theorem spawnedCars_append (xs ys : List (HubOp T F)) :
    spawnedCars (xs ++ ys) = spawnedCars xs ++ spawnedCars ys := List.filterMap_append

@[simp] theorem framesTo_append (w : Nat) (xs ys : List (HubOp T F)) :
    framesTo w (xs ++ ys) = framesTo w xs ++ framesTo w ys := List.filterMap_append

/-- With `k` threads to begin with, every frame goes to a thread that exists by then. -/
def SubmitsOk : Nat → List (HubOp T F) → Prop
  | _, [] => True
  | k, .spawn _ _ :: os => SubmitsOk (k + 1) os
  | k, .submit w _ :: os => w < k ∧ SubmitsOk k os
  | k, .updateCar _ _ :: os => SubmitsOk k os
  | k, .insertMap _ _ :: os => SubmitsOk k os
  | k, .emit _ :: os => SubmitsOk k os

theorem submitsOk_append {k : Nat} {xs ys : List (HubOp T F)} :
    SubmitsOk k (xs ++ ys) ↔ SubmitsOk k xs ∧ SubmitsOk (k + (spawnedCars xs).length) ys := by
  induction xs generalizing k with
  | nil => simp [SubmitsOk]
  | cons o xs ih =>
      cases o with
      | spawn car w =>
          simp only [List.cons_append, SubmitsOk, ih, spawnedCars_cons, HubOp.spawned?,
            Option.toList_some, List.nil_append, List.length_cons]
          rw [Nat.add_assoc k 1, Nat.add_comm 1]
      | submit w frame => simp [SubmitsOk, ih, and_assoc]
      | updateCar id f => simp [SubmitsOk, ih]
      | insertMap id m => simp [SubmitsOk, ih]
      | emit e => simp [SubmitsOk, ih]

theorem framesTo_of_ge {k w : Nat} {os : List (HubOp T F)} (h : SubmitsOk k os)
    (hw : k + (spawnedCars os).length ≤ w) : framesTo w os = [] := by
  induction os generalizing k with
  | nil => rfl
  | cons o os ih =>
      cases o with
      | spawn car w' =>
          have hRest : k + 1 + (spawnedCars os).length ≤ w := by
            simp only [spawnedCars_cons, HubOp.spawned?, Option.toList_some,
              List.cons_append, List.nil_append, List.length_cons] at hw
            omega
          exact ih h hRest
      | submit w' frame =>
          have hBound : k + (spawnedCars os).length ≤ w := hw
          have hne : w' ≠ w := by
            have := h.1
            omega
          simpa [hne] using ih h.2 hBound
      | updateCar id f => exact ih h hw
      | insertMap id m => exact ih h hw
      | emit e => exact ih h hw

theorem submitsOk_of_none {os : List (HubOp T F)} (h : ∀ o ∈ os, ∀ w, o.frameTo? w = none)
    (k : Nat) : SubmitsOk k os := by
  induction os generalizing k with
  | nil => trivial
  | cons o os ih =>
      have hRest : ∀ k, SubmitsOk k os := ih fun o' ho' => h o' (List.mem_cons_of_mem _ ho')
      cases o with
      | spawn car w => exact hRest _
      | submit w frame => simpa using h _ List.mem_cons_self w
      | updateCar id f => exact hRest k
      | insertMap id m => exact hRest k
      | emit e => exact hRest k

/-- A worker that is started gets the next number. -/
def Input.Fresh (threads : Nat) : Input T F → Prop
  | .event _ _ (some w) => w = threads
  | _ => True

/-- The table of handles, the threads and the scans agree. -/
structure Handles (os : List (HubOp T F)) (l : Locals F) (inputs : List (Input T F)) : Prop where
  handles : ∀ c w, l.workers.lookup c = some w ↔ (spawnedCars os)[w]? = some c
  frames : ∀ c w, (spawnedCars os)[w]? = some c → (framesTo w os).Sublist (scansOf c inputs)
  submits : SubmitsOk 0 os

namespace Handles

variable {os ps : List (HubOp T F)} {l l' : Locals F} {inputs : List (Input T F)} {i : Input T F}

theorem new : Handles ([] : List (HubOp T F)) Locals.new [] := by
  refine ⟨fun c w => ?_, fun c w h => by simp at h, trivial⟩
  simp [Locals.new]

theorem unique (h : Handles os l inputs) {c : String} {w w' : Nat}
    (hw : (spawnedCars os)[w]? = some c) (hw' : (spawnedCars os)[w']? = some c) : w = w' := by
  rw [← h.handles] at hw hw'
  exact Option.some.inj (hw.symm.trans hw')

theorem sublist_scansOf_concat {frames : List ScanFrame} {c : String}
    (h : frames.Sublist (scansOf c inputs)) (i : Input T F) :
    frames.Sublist (scansOf c (inputs ++ [i])) := by
  rw [scansOf_concat]
  exact h.trans (List.sublist_append_left _ _)

/-- Passes that start no thread and submit nothing. -/
theorem quiet (h : Handles os l inputs)
    (hOps : ∀ o ∈ ps, o.spawned? = none ∧ ∀ w, o.frameTo? w = none)
    (hLocals : l'.workers = l.workers) : Handles (os ++ ps) l' (inputs ++ [i]) := by
  have hSpawned : spawnedCars ps = [] := List.filterMap_eq_nil_iff.mpr fun o ho => (hOps o ho).1
  have hFrames : ∀ w, framesTo w ps = [] := fun w =>
    List.filterMap_eq_nil_iff.mpr fun o ho => (hOps o ho).2 w
  refine ⟨fun c w => ?_, fun c w hw => ?_,
    submitsOk_append.mpr ⟨h.submits, submitsOk_of_none (fun o ho => (hOps o ho).2) _⟩⟩
  · rw [hLocals, spawnedCars_append, hSpawned, List.append_nil]
    exact h.handles c w
  · rw [spawnedCars_append, hSpawned, List.append_nil] at hw
    rw [framesTo_append, hFrames, List.append_nil]
    exact sublist_scansOf_concat (h.frames c w hw) i

/-- A scan of a car that has a thread. -/
theorem submit (h : Handles os l inputs) {c : String} {w : Nat} {frame : ScanFrame}
    {f g : CarUpdate T F} (hHandle : l.workers.lookup c = some w)
    (hScan : i.scanOf? c = some frame) (hLocals : l'.workers = l.workers) :
    Handles (os ++ [.updateCar c f, .updateCar c g, .submit w frame]) l' (inputs ++ [i]) := by
  have hThread := (h.handles c w).mp hHandle
  obtain ⟨hLt, -⟩ := List.getElem?_eq_some_iff.mp hThread
  refine ⟨fun c' w' => ?_, fun c' w' hw' => ?_, submitsOk_append.mpr ⟨h.submits, ?_⟩⟩
  · simpa [hLocals] using h.handles c' w'
  · have hw' : (spawnedCars os)[w']? = some c' := by simpa using hw'
    by_cases hSame : w = w'
    · subst hSame
      obtain rfl : c = c' := Option.some.inj (hThread.symm.trans hw')
      simpa [scansOf_concat, hScan] using h.frames c w hThread
    · simpa [hSame] using sublist_scansOf_concat (h.frames c' w' hw') i
  · simpa [SubmitsOk] using hLt

/-- A scan of a car for which a thread is started. -/
theorem spawn (h : Handles os l inputs) {c : String} {w : Nat} {frame : ScanFrame}
    {f g : CarUpdate T F} (hHandle : l.workers.lookup c = none)
    (hFresh : w = (spawnedCars os).length) (hScan : i.scanOf? c = some frame)
    (hLocals : l'.workers = l.workers.insert c w) :
    Handles (os ++ [.updateCar c f, .updateCar c g, .spawn c w, .submit w frame]) l'
      (inputs ++ [i]) := by
  have hNew : ∀ w' : Nat, (spawnedCars os)[w']? ≠ some c := by
    intro w' hw'
    rw [(h.handles c w').mpr hw'] at hHandle
    cases hHandle
  have hCars : spawnedCars (os ++ [.updateCar c f, .updateCar c g, .spawn c w, .submit w frame]) =
      spawnedCars os ++ [c] := by simp
  refine ⟨fun c' w' => ?_, fun c' w' hw' => ?_, submitsOk_append.mpr ⟨h.submits, ?_⟩⟩
  · rw [hCars, hLocals, getElem?_concat_eq_some, ← hFresh]
    by_cases hCar : c' = c
    · subst hCar
      rw [AList.lookup_insert, Option.some.injEq, eq_comm]
      exact ⟨fun hw => Or.inr ⟨hw, rfl⟩, fun hw => (hw.resolve_left (hNew w')).1⟩
    · rw [AList.lookup_insert_ne hCar, h.handles]
      exact ⟨Or.inl, fun hw => hw.resolve_right fun hEq => hCar hEq.2.symm⟩
  · rw [hCars, getElem?_concat_eq_some] at hw'
    rcases hw' with hOld | ⟨rfl, rfl⟩
    · obtain ⟨hLt, -⟩ := List.getElem?_eq_some_iff.mp hOld
      have hne : w ≠ w' := by omega
      simpa [hne] using sublist_scansOf_concat (h.frames c' w' hOld) i
    · have hNone : framesTo (spawnedCars os).length os = [] :=
        framesTo_of_ge h.submits (by omega)
      simp [hNone, hFresh, scansOf_concat, hScan]
  · simp [SubmitsOk, hFresh]

variable [HubFloat F]

theorem pass (h : Handles os l inputs) (n : Nat) (hub : Hub T F)
    (hFresh : i.Fresh (spawnedCars os).length) :
    Handles (os ++ bodyOps n hub l i) (bodyLocals l i) (inputs ++ [i]) := by
  cases i with
  | event e now spawned =>
      obtain ⟨car, atMs, kind⟩ := e
      cases kind with
      | status s =>
          refine h.quiet ?_ rfl
          by_cases hSame : (hub.car car).status = s <;> simp [bodyOps, eventOps, hSame]
      | telemetry t =>
          refine h.quiet ?_ rfl
          simp [bodyOps, eventOps]
      | scan frame =>
          have hScan : ∀ now, (Input.event ⟨car, atMs, .scan frame⟩ now spawned : Input T F).scanOf?
              car = some frame := fun now => by simp [Input.scanOf?, Input.eventOf?, CarEvent.scan?]
          cases hw : l.workers.lookup car with
          | some w =>
              have hMem : car ∈ l.workers := AList.lookup_isSome.mp (by rw [hw]; rfl)
              have hOps : bodyOps n hub l (.event ⟨car, atMs, .scan frame⟩ now spawned) =
                  [.updateCar car (.lastSeenMs atMs), .updateCar car .scansTotal,
                    .submit w frame] := by simp [bodyOps, eventOps, workerOps, hw]
              rw [hOps]
              exact h.submit hw (hScan now) (by simp [bodyLocals, eventLocals, workersAfter, hMem])
          | none =>
              have hMem : car ∉ l.workers := AList.lookup_eq_none.mp hw
              cases spawned with
              | none =>
                  refine h.quiet ?_ ?_
                  · simp [bodyOps, eventOps, workerOps, hw]
                  · simp [bodyLocals, eventLocals, workersAfter, hMem]
              | some w =>
                  have hOps : bodyOps n hub l (.event ⟨car, atMs, .scan frame⟩ now (some w)) =
                      [.updateCar car (.lastSeenMs atMs), .updateCar car .scansTotal,
                        .spawn car w, .submit w frame] := by
                    simp [bodyOps, eventOps, workerOps, hw]
                  rw [hOps]
                  exact h.spawn hw hFresh (hScan now)
                    (by simp [bodyLocals, eventLocals, workersAfter, hMem])
  | slam car output =>
      refine h.quiet ?_ rfl
      cases output <;> simp [bodyOps, slamOps]
  | tick visits =>
      refine h.quiet (fun o ho => ?_) rfl
      obtain ⟨_, _, _, rfl | ⟨_, rfl⟩⟩ := mem_visits ho <;> exact ⟨rfl, fun _ => rfl⟩

end Handles

end OlivawHub
