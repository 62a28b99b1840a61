import OlivawHub.Ingest.Events
import OlivawHub.Foundations.Monitors
import OlivawHub.Foundations.LatestSlot
import OlivawHub.Foundations.Lists

/-!
# The latest-frame mailbox

`SlamWorker::submit` and the head of the worker's loop, one operation on the mutex, the condition
variable or the slot at a time, with any number of calls of `submit` under way at once.

`Mailbox.Invariant` says who holds the mutex and why a blocked worker need not worry: if the slot
is full, some call is about to notify. Seen from outside, all of it is a slot for the latest
frame (`Mailbox.Invariant.refines`).
-/

namespace OlivawHub

open Foundations

/-- Who uses the mailbox: the calls of `submit`, by number, and the worker. -/
inductive Party where
  | submit (i : Nat)
  | worker
  deriving DecidableEq

/-- Where a call of `submit` stands. -/
inductive SubmitPhase where
  | called
  /-- It has the lock. -/
  | locked
  /-- The frame is in the slot. -/
  | replaced
  /-- `notify_one` is done. -/
  | notified
  | returned
  deriving DecidableEq

/-- It has the lock. -/
def SubmitPhase.holds : SubmitPhase → Bool
  | .called => false
  | .locked => true
  | .replaced => true
  | .notified => true
  | .returned => false

/-- Its frame was put into the slot. -/
def SubmitPhase.submits : SubmitPhase → Bool
  | .called => false
  | .locked => false
  | .replaced => true
  | .notified => true
  | .returned => true

/-- A call of `submit`. -/
structure SubmitCall where
  frame : ScanFrame
  phase : SubmitPhase

/-- Where the worker stands in the block that gets it a frame. -/
inductive TakePhase where
  /-- Before the block, or done with it. -/
  | outside
  /-- It has the lock and evaluates `slot.is_none()`. -/
  | checking
  | sawNone
  | waiting
  | sawSome
  /-- It has `slot.take()` and still the lock. -/
  | took (frame : Option ScanFrame)

/-- It has the lock. -/
def TakePhase.holds : TakePhase → Bool
  | .outside => false
  | .checking => true
  | .sawNone => true
  | .waiting => false
  | .sawSome => true
  | .took _ => true

/-- It is in `wait`. -/
def TakePhase.waits : TakePhase → Bool
  | .waiting => true
  | _ => false

/-- The mailbox with those who use it. `submitted` and `taken` are history variables: the frames
that were put into the slot, with the numbers of their calls, and those taken out, with the number
of frames submitted by then. -/
structure Mailbox where
  slot : Option ScanFrame
  /-- The lock of `slot`, and `ready`. -/
  monitor : Monitor Party
  calls : List SubmitCall
  worker : TakePhase
  submitted : List (Nat × ScanFrame)
  taken : List (ScanFrame × Nat)

/-- The operations. -/
inductive MailboxStep where
  /-- Somebody calls `submit`. -/
  | call (frame : ScanFrame)
  | lock (i : Nat)
  | replace (i : Nat)
  | notifyOne (i : Nat) (pick : Option Party)
  | unlock (i : Nat)
  | workerLock
  | check
  | wait
  | relock
  | take
  | workerUnlock
  /-- A spurious wake-up. -/
  | wake
  deriving DecidableEq

/-- The worker's own operations. -/
def MailboxStep.ofWorker : MailboxStep → Bool
  | .workerLock => true
  | .check => true
  | .wait => true
  | .relock => true
  | .take => true
  | .workerUnlock => true
  | _ => false

namespace Mailbox

/-- `Mailbox::default()`. -/
def new : Mailbox := ⟨none, Monitor.new, [], .outside, [], []⟩

/-- The frame of call `i`, if it stands there. -/
def frameAt (s : Mailbox) (i : Nat) (phase : SubmitPhase) : Option ScanFrame :=
  match s.calls[i]? with
  | some call => if call.phase = phase then some call.frame else none
  | none => none

/-- Call `i` goes on. -/
def advance (s : Mailbox) (i : Nat) (frame : ScanFrame) (phase : SubmitPhase) : List SubmitCall :=
  s.calls.set i ⟨frame, phase⟩

end Mailbox

/-- One operation. -/
def mailbox : Machine Mailbox MailboxStep where
  step s
    | .call frame => some { s with calls := s.calls ++ [⟨frame, .called⟩] }
    | .lock i => do
        let frame ← s.frameAt i .called
        let monitor ← s.monitor.step (.lock (.submit i))
        return { s with monitor, calls := s.advance i frame .locked }
    | .replace i => do
        let frame ← s.frameAt i .locked
        return { s with
          slot := some frame
          calls := s.advance i frame .replaced
          submitted := s.submitted ++ [(i, frame)] }
    | .notifyOne i pick => do
        let frame ← s.frameAt i .replaced
        let monitor ← s.monitor.step (.notifyOne pick)
        return { s with monitor, calls := s.advance i frame .notified }
    | .unlock i => do
        let frame ← s.frameAt i .notified
        let monitor ← s.monitor.step (.unlock (.submit i))
        return { s with monitor, calls := s.advance i frame .returned }
    | .workerLock =>
        match s.worker with
        | .outside => do
            let monitor ← s.monitor.step (.lock .worker)
            return { s with monitor, worker := .checking }
        | _ => none
    | .check =>
        match s.worker with
        | .checking => some { s with worker := if s.slot.isNone then .sawNone else .sawSome }
        | _ => none
    | .wait =>
        match s.worker with
        | .sawNone => do
            let monitor ← s.monitor.step (.wait .worker)
            return { s with monitor, worker := .waiting }
        | _ => none
    | .relock =>
        match s.worker with
        | .waiting => do
            let monitor ← s.monitor.step (.relock .worker)
            return { s with monitor, worker := .checking }
        | _ => none
    | .take =>
        match s.worker with
        | .sawSome =>
            some { s with
              slot := none
              worker := .took s.slot
              taken := s.taken ++ s.slot.toList.map fun frame => (frame, s.submitted.length) }
        | _ => none
    | .workerUnlock =>
        match s.worker with
        | .took _ => do
            let monitor ← s.monitor.step (.unlock .worker)
            return { s with monitor, worker := .outside }
        | _ => none
    | .wake => do
        let monitor ← s.monitor.step (.wake .worker)
        return { s with monitor }

namespace Mailbox

theorem frameAt_eq_some {s : Mailbox} {i : Nat} {phase : SubmitPhase} {frame : ScanFrame} :
    s.frameAt i phase = some frame ↔ s.calls[i]? = some ⟨frame, phase⟩ := by
  unfold frameAt
  split
  · rename_i call hCall
    obtain ⟨frame', phase'⟩ := call
    simp [hCall, and_comm]
  · rename_i hCall
    simp [hCall]

/-- What one operation does, and when. -/
inductive Move (s : Mailbox) : Mailbox → Prop where
  | call (frame : ScanFrame) : Move s { s with calls := s.calls ++ [⟨frame, .called⟩] }
  | lock {i : Nat} {frame : ScanFrame} (hCall : s.calls[i]? = some ⟨frame, .called⟩)
      (hFree : s.monitor.holder = none) :
      Move s { s with
        monitor := { s.monitor with holder := some (.submit i) }
        calls := s.advance i frame .locked }
  | replace {i : Nat} {frame : ScanFrame} (hCall : s.calls[i]? = some ⟨frame, .locked⟩) :
      Move s { s with
        slot := some frame
        calls := s.advance i frame .replaced
        submitted := s.submitted ++ [(i, frame)] }
  | notifyNobody {i : Nat} {frame : ScanFrame} (hCall : s.calls[i]? = some ⟨frame, .replaced⟩)
      (hNobody : s.monitor.blocked = []) :
      Move s { s with calls := s.advance i frame .notified }
  | notify {i : Nat} {frame : ScanFrame} {t : Party}
      (hCall : s.calls[i]? = some ⟨frame, .replaced⟩) (ht : t ∈ s.monitor.blocked) :
      Move s { s with
        monitor := s.monitor.wakeUp t
        calls := s.advance i frame .notified }
  | unlock {i : Nat} {frame : ScanFrame} (hCall : s.calls[i]? = some ⟨frame, .notified⟩)
      (hHeld : s.monitor.holder = some (.submit i)) :
      Move s { s with
        monitor := { s.monitor with holder := none }
        calls := s.advance i frame .returned }
  | workerLock (hWorker : s.worker = .outside) (hFree : s.monitor.holder = none) :
      Move s { s with monitor := { s.monitor with holder := some .worker }, worker := .checking }
  | sawNone (hWorker : s.worker = .checking) (hSlot : s.slot = none) :
      Move s { s with worker := .sawNone }
  | sawSome {frame : ScanFrame} (hWorker : s.worker = .checking) (hSlot : s.slot = some frame) :
      Move s { s with worker := .sawSome }
  | wait (hWorker : s.worker = .sawNone) (hHeld : s.monitor.holder = some .worker) :
      Move s { s with
        monitor := { s.monitor with holder := none, blocked := .worker :: s.monitor.blocked }
        worker := .waiting }
  | relock (hWorker : s.worker = .waiting) (hFree : s.monitor.holder = none)
      (hWoken : .worker ∈ s.monitor.woken) :
      Move s { s with
        monitor := { s.monitor with
          holder := some .worker
          woken := s.monitor.woken.erase .worker }
        worker := .checking }
  | take (hWorker : s.worker = .sawSome) :
      Move s { s with
        slot := none
        worker := .took s.slot
        taken := s.taken ++ s.slot.toList.map fun frame => (frame, s.submitted.length) }
  | workerUnlock {frame : Option ScanFrame} (hWorker : s.worker = .took frame)
      (hHeld : s.monitor.holder = some .worker) :
      Move s { s with monitor := { s.monitor with holder := none }, worker := .outside }
  | wake (hBlocked : .worker ∈ s.monitor.blocked) :
      Move s { s with monitor := s.monitor.wakeUp .worker }

theorem step_move {s s' : Mailbox} {l : MailboxStep} (h : mailbox.step s l = some s') :
    s.Move s' := by
  cases l with
  | call frame =>
      cases h
      exact .call frame
  | lock i =>
      obtain ⟨frame, hFrame, h⟩ := exists_of_bind h
      obtain ⟨monitor, hMonitor, h⟩ := exists_of_bind h
      obtain ⟨hFree, rfl⟩ := Monitor.step_lock.mp hMonitor
      cases h
      exact .lock (frameAt_eq_some.mp hFrame) hFree
  | replace i =>
      obtain ⟨frame, hFrame, h⟩ := exists_of_bind h
      cases h
      exact .replace (frameAt_eq_some.mp hFrame)
  | notifyOne i pick =>
      obtain ⟨frame, hFrame, h⟩ := exists_of_bind h
      obtain ⟨monitor, hMonitor, h⟩ := exists_of_bind h
      cases h
      rcases Monitor.step_notifyOne hMonitor with ⟨hNobody, rfl⟩ | ⟨t, ht, rfl⟩
      · exact .notifyNobody (frameAt_eq_some.mp hFrame) hNobody
      · exact .notify (frameAt_eq_some.mp hFrame) ht
  | unlock i =>
      obtain ⟨frame, hFrame, h⟩ := exists_of_bind h
      obtain ⟨monitor, hMonitor, h⟩ := exists_of_bind h
      obtain ⟨hHeld, rfl⟩ := Monitor.step_unlock.mp hMonitor
      cases h
      exact .unlock (frameAt_eq_some.mp hFrame) hHeld
  | workerLock =>
      simp only [mailbox] at h
      split at h
      · rename_i hWorker
        obtain ⟨monitor, hMonitor, h⟩ := exists_of_bind h
        obtain ⟨hFree, rfl⟩ := Monitor.step_lock.mp hMonitor
        cases h
        exact .workerLock hWorker hFree
      · cases h
  | check =>
      simp only [mailbox] at h
      split at h
      · rename_i hWorker
        obtain rfl := Option.some.inj h
        by_cases hNone : s.slot.isNone
        · rw [if_pos hNone]
          exact .sawNone hWorker (Option.isNone_iff_eq_none.mp hNone)
        · rw [if_neg hNone]
          have hSome : ∃ frame, s.slot = some frame := by
            rwa [Option.isNone_iff_eq_none, ← ne_eq, Option.ne_none_iff_exists'] at hNone
          obtain ⟨frame, hSlot⟩ := hSome
          exact .sawSome hWorker hSlot
      · cases h
  | wait =>
      simp only [mailbox] at h
      split at h
      · rename_i hWorker
        obtain ⟨monitor, hMonitor, h⟩ := exists_of_bind h
        obtain ⟨hHeld, rfl⟩ := Monitor.step_wait.mp hMonitor
        cases h
        exact .wait hWorker hHeld
      · cases h
  | relock =>
      simp only [mailbox] at h
      split at h
      · rename_i hWorker
        obtain ⟨monitor, hMonitor, h⟩ := exists_of_bind h
        obtain ⟨hFree, hWoken, rfl⟩ := Monitor.step_relock.mp hMonitor
        cases h
        exact .relock hWorker hFree hWoken
      · cases h
  | take =>
      simp only [mailbox] at h
      split at h
      · rename_i hWorker
        cases h
        exact .take hWorker
      · cases h
  | workerUnlock =>
      simp only [mailbox] at h
      split at h
      · rename_i frame hWorker
        obtain ⟨monitor, hMonitor, h⟩ := exists_of_bind h
        obtain ⟨hHeld, rfl⟩ := Monitor.step_unlock.mp hMonitor
        cases h
        exact .workerUnlock hWorker hHeld
      · cases h
  | wake =>
      obtain ⟨monitor, hMonitor, h⟩ := exists_of_bind h
      obtain ⟨hBlocked, rfl⟩ := Monitor.step_wake.mp hMonitor
      cases h
      exact .wake hBlocked

/-! ## The invariant -/

variable {s s' : Mailbox}

/-- Who is in its critical section. -/
def Holds (s : Mailbox) : Party → Prop
  | .submit i => ∃ frame phase, s.calls[i]? = some ⟨frame, phase⟩ ∧ phase.holds
  | .worker => s.worker.holds

/-- Call `i` has put its frame into the slot. -/
def Submits (s : Mailbox) (i : Nat) (frame : ScanFrame) : Prop :=
  ∃ phase, s.calls[i]? = some ⟨frame, phase⟩ ∧ phase.submits

/-- The slot and its history. -/
def latest (s : Mailbox) : LatestSlot ScanFrame := ⟨s.slot, s.submitted.map Prod.snd, s.taken⟩

/-- What every run of the mailbox keeps. -/
structure Invariant (s : Mailbox) : Prop where
  /-- Whoever is in its critical section has the lock, and nobody else. -/
  holder : ∀ p, s.monitor.holder = some p ↔ s.Holds p
  waits : s.monitor.waiting.Perm (if s.worker.waits then [.worker] else [])
  sawNone : s.worker = .sawNone → s.slot = none
  sawSome : s.worker = .sawSome → ∃ frame, s.slot = some frame
  took : ∀ frame, s.worker = .took frame → ∃ p, s.taken.getLast? = some p ∧ frame = some p.1
  /-- If the worker is blocked and there is a frame, it will be notified. -/
  notifyDue : .worker ∈ s.monitor.blocked → s.slot ≠ none →
    ∃ (i : Nat) (frame : ScanFrame), s.calls[i]? = some ⟨frame, .replaced⟩
  submitted : ∀ i frame, (i, frame) ∈ s.submitted ↔ s.Submits i frame
  once : (s.submitted.map Prod.fst).Nodup

section Advance

variable {i : Nat} {frame : ScanFrame} {phase phase' : SubmitPhase}

theorem getElem?_advance_self (hCall : s.calls[i]? = some ⟨frame, phase⟩) :
    (s.advance i frame phase')[i]? = some ⟨frame, phase'⟩ := by
  obtain ⟨hLt, -⟩ := List.getElem?_eq_some_iff.mp hCall
  exact List.getElem?_set_self hLt

theorem getElem?_advance_ne {j : Nat} (h : j ≠ i) :
    (s.advance i frame phase')[j]? = s.calls[j]? := List.getElem?_set_ne h.symm

theorem holds_advance_self (hCall : s.calls[i]? = some ⟨frame, phase⟩)
    (hCalls : s'.calls = s.advance i frame phase') : s'.Holds (.submit i) ↔ phase'.holds := by
  simp [Holds, hCalls, getElem?_advance_self hCall]

theorem holds_advance_ne {p : Party} (h : p ≠ .submit i)
    (hCalls : s'.calls = s.advance i frame phase') (hWorker : s'.worker = s.worker) :
    s'.Holds p ↔ s.Holds p := by
  cases p with
  | submit j =>
      have hj : j ≠ i := fun hEq => h (by rw [hEq])
      simp only [Holds, hCalls, getElem?_advance_ne hj]
  | worker => simp only [Holds, hWorker]

/-- A step of a call that leaves the slot alone. -/
theorem submits_advance (phase' : SubmitPhase) (hCall : s.calls[i]? = some ⟨frame, phase⟩)
    (hCalls : s'.calls = s.advance i frame phase') (hPhase : phase'.submits = phase.submits)
    (j : Nat) (f : ScanFrame) : s'.Submits j f ↔ s.Submits j f := by
  by_cases hj : j = i
  · subst hj
    simp [Submits, hCalls, getElem?_advance_self hCall, hCall, hPhase]
  · simp only [Submits, hCalls, getElem?_advance_ne hj]

end Advance

namespace Invariant

theorem new : Invariant Mailbox.new where
  holder p := by cases p <;> simp [Mailbox.new, Monitor.new, Holds, TakePhase.holds]
  waits := List.Perm.refl _
  sawNone _ := rfl
  sawSome h := by cases h
  took frame h := by cases h
  notifyDue h := by cases h
  submitted i frame := by simp [Mailbox.new, Submits]
  once := List.nodup_nil

/-- The lock after a step in which only `p` may have taken or released it. -/
theorem holder_of (h : Invariant s) {p : Party}
    (hFree : s.monitor.holder = none ∨ s.monitor.holder = some p)
    (hOthers : ∀ q, q ≠ p → (s'.Holds q ↔ s.Holds q))
    (hSelf : (s'.monitor.holder = none ∧ ¬s'.Holds p) ∨
      (s'.monitor.holder = some p ∧ s'.Holds p)) (q : Party) :
    s'.monitor.holder = some q ↔ s'.Holds q := by
  by_cases hq : q = p
  · subst hq
    rcases hSelf with ⟨hHolder, hNot⟩ | ⟨hHolder, hHolds⟩
    · simp [hHolder, hNot]
    · simp [hHolder, hHolds]
  · have hOld : ¬s.Holds q := by
      rw [← h.holder]
      rcases hFree with hFree | hFree <;> simp [hFree, Ne.symm hq]
    have hNew : s'.monitor.holder ≠ some q := by
      rcases hSelf with ⟨hHolder, -⟩ | ⟨hHolder, -⟩ <;> simp [hHolder, Ne.symm hq]
    simp [hOthers q hq, hOld, hNew]

theorem holder_of_call (h : Invariant s) {i : Nat} {frame : ScanFrame} {phase : SubmitPhase}
    (hCall : s.calls[i]? = some ⟨frame, phase⟩) (hHolds : phase.holds) :
    s.monitor.holder = some (.submit i) :=
  (h.holder _).mpr ⟨frame, phase, hCall, hHolds⟩

theorem holder_of_worker (h : Invariant s) (hHolds : s.worker.holds) :
    s.monitor.holder = some .worker :=
  (h.holder _).mpr hHolds

theorem notifyDue_advance (h : Invariant s) {i : Nat} {frame : ScanFrame}
    {phase phase' : SubmitPhase} (hCall : s.calls[i]? = some ⟨frame, phase⟩)
    (hPhase : phase ≠ .replaced) (hBlocked : .worker ∈ s.monitor.blocked) (hSlot : s.slot ≠ none) :
    ∃ (j : Nat) (f : ScanFrame), (s.advance i frame phase')[j]? = some ⟨f, .replaced⟩ := by
  obtain ⟨j, f, hj⟩ := h.notifyDue hBlocked hSlot
  have hNe : j ≠ i := by
    intro hEq
    rw [hEq, hCall] at hj
    cases hj
    exact hPhase rfl
  exact ⟨j, f, by rw [getElem?_advance_ne hNe, hj]⟩

theorem not_blocked_of_wakeUp (h : Invariant s) {t : Party} (ht : t ∈ s.monitor.blocked) :
    .worker ∉ (s.monitor.wakeUp t).blocked := by
  intro hMem
  have hLong : 2 ≤ (s.monitor.wakeUp t).waiting.length := by
    have hPos := List.length_pos_of_mem hMem
    simp only [Monitor.waiting, Monitor.wakeUp, List.length_append, List.length_cons] at hPos ⊢
    omega
  have hShort := ((s.monitor.waiting_wake ht).trans h.waits).length_eq
  split at hShort
  · rw [List.length_singleton] at hShort
    omega
  · rw [List.length_nil] at hShort
    omega

theorem call (h : Invariant s) (frame : ScanFrame) :
    Invariant { s with calls := s.calls ++ [⟨frame, .called⟩] } := by
  have hCalls : ∀ (i : Nat) (call : SubmitCall), call.phase ≠ .called →
      ((s.calls ++ [⟨frame, .called⟩])[i]? = some call ↔ s.calls[i]? = some call) := by
    intro i call hPhase
    rw [getElem?_concat_eq_some]
    refine ⟨fun hOr => hOr.resolve_right ?_, Or.inl⟩
    rintro ⟨-, rfl⟩
    exact hPhase rfl
  exact { h with
    holder := by
      intro p
      refine (h.holder p).trans ?_
      cases p with
      | submit i =>
          refine exists_congr fun f => exists_congr fun phase => and_congr_left fun hHolds => ?_
          exact (hCalls i ⟨f, phase⟩ (fun hEq => by simp [show phase = .called from hEq,
            SubmitPhase.holds] at hHolds)).symm
      | worker => rfl
    notifyDue := by
      intro hBlocked hSlot
      obtain ⟨i, f, hi⟩ := h.notifyDue hBlocked hSlot
      exact ⟨i, f, (hCalls i ⟨f, .replaced⟩ nofun).mpr hi⟩
    submitted := by
      intro i f
      refine (h.submitted i f).trans (exists_congr fun phase => and_congr_left fun hSubmits => ?_)
      exact (hCalls i ⟨f, phase⟩ (fun hEq => by simp [show phase = .called from hEq,
        SubmitPhase.submits] at hSubmits)).symm }

/-- The frame of call `i` replaces what the slot holds. -/
theorem replace (h : Invariant s) {i : Nat} {frame : ScanFrame}
    (hCall : s.calls[i]? = some ⟨frame, .locked⟩) :
    Invariant { s with
      slot := some frame
      calls := s.advance i frame .replaced
      submitted := s.submitted ++ [(i, frame)] } := by
  have hHolder := h.holder_of_call hCall rfl
  have hNew : i ∉ s.submitted.map Prod.fst := by
    intro hMem
    obtain ⟨⟨j, f⟩, hSubmitted, rfl⟩ := List.mem_map.mp hMem
    obtain ⟨phase, hPhase, hSubmits⟩ := (h.submitted _ _).mp hSubmitted
    cases hCall.symm.trans hPhase
    cases hSubmits
  exact {
    holder := h.holder_of (Or.inr hHolder) (fun q hq => holds_advance_ne hq rfl rfl)
      (Or.inr ⟨hHolder, (holds_advance_self hCall rfl).mpr rfl⟩)
    waits := h.waits
    sawNone := by
      intro hWorker
      -- the worker cannot be between its look at the slot and `wait`: that needs the lock
      have hWorker : s.worker = .sawNone := hWorker
      have hOther := h.holder_of_worker (by rw [hWorker, TakePhase.holds])
      rw [hHolder] at hOther
      cases hOther
    sawSome := fun _ => ⟨frame, rfl⟩
    took := h.took
    notifyDue := fun _ _ => ⟨i, frame, getElem?_advance_self hCall⟩
    submitted := by
      intro j f
      rw [List.mem_append, h.submitted]
      by_cases hj : j = i
      · subst hj
        have hOld : ¬s.Submits j f := fun ⟨phase, hPhase, hSubmits⟩ => by
          cases hCall.symm.trans hPhase
          cases hSubmits
        have hNow : Submits { s with
            slot := some frame
            calls := s.advance j frame .replaced
            submitted := s.submitted ++ [(j, frame)] } j f ↔ f = frame := by
          simp only [Submits, getElem?_advance_self hCall, Option.some.injEq, SubmitCall.mk.injEq]
          exact ⟨fun ⟨_, hEq, _⟩ => hEq.1.symm, fun hEq => ⟨.replaced, ⟨hEq.symm, rfl⟩, rfl⟩⟩
        rw [hNow]
        simp [hOld]
      · simp [Submits, getElem?_advance_ne hj, hj]
    once := by
      rw [List.map_append]
      exact List.nodup_append.mpr ⟨h.once, by simp, fun a ha b hb hEq => by
        obtain rfl := List.mem_singleton.mp hb
        exact hNew (hEq ▸ ha)⟩ }

/-- A step of a call that leaves the slot alone. -/
theorem call_step (h : Invariant s) {i : Nat} {frame : ScanFrame} {phase phase' : SubmitPhase}
    {monitor : Monitor Party} (hCall : s.calls[i]? = some ⟨frame, phase⟩)
    (hPhase : phase'.submits = phase.submits)
    (hFree : s.monitor.holder = none ∨ s.monitor.holder = some (.submit i))
    (hSelf : (monitor.holder = none ∧ phase'.holds = false) ∨
      (monitor.holder = some (.submit i) ∧ phase'.holds = true))
    (hWaits : monitor.waiting.Perm s.monitor.waiting)
    (hDue : .worker ∈ monitor.blocked → s.slot ≠ none →
      ∃ (j : Nat) (f : ScanFrame), (s.advance i frame phase')[j]? = some ⟨f, .replaced⟩) :
    Invariant { s with monitor, calls := s.advance i frame phase' } := by
  refine ⟨?_, hWaits.trans h.waits, h.sawNone, h.sawSome, h.took, hDue, fun j f => ?_, h.once⟩
  · refine h.holder_of hFree (fun q hq => holds_advance_ne hq rfl rfl) ?_
    rw [holds_advance_self hCall rfl]
    rcases hSelf with ⟨hHolder, hNot⟩ | hHolds
    · exact Or.inl ⟨hHolder, by simp [hNot]⟩
    · exact Or.inr hHolds
  · exact (h.submitted j f).trans (submits_advance phase' hCall rfl hPhase j f).symm

/-- A step of the worker that leaves the slot alone. -/
theorem worker_step (h : Invariant s) {monitor : Monitor Party} {worker : TakePhase}
    (hFree : s.monitor.holder = none ∨ s.monitor.holder = some .worker)
    (hSelf : (monitor.holder = none ∧ ¬worker.holds) ∨
      (monitor.holder = some .worker ∧ worker.holds))
    (hWaits : monitor.waiting.Perm (if worker.waits then [.worker] else []))
    (hNone : worker = .sawNone → s.slot = none)
    (hSome : worker = .sawSome → ∃ frame, s.slot = some frame)
    (hTook : ∀ frame, worker ≠ .took frame)
    (hDue : .worker ∈ monitor.blocked → s.slot ≠ none → .worker ∈ s.monitor.blocked) :
    Invariant { s with monitor, worker } := by
  refine ⟨?_, hWaits, hNone, hSome, fun f hf => absurd hf (hTook f), ?_, h.submitted, h.once⟩
  · refine h.holder_of hFree (fun q hq => ?_) hSelf
    cases q with
    | submit j => rfl
    | worker => exact absurd rfl hq
  · exact fun hBlocked hSlot => h.notifyDue (hDue hBlocked hSlot) hSlot

theorem move (h : Invariant s) (hMove : s.Move s') : Invariant s' := by
  have hWaits := h.waits
  cases hMove with
  | call frame => exact h.call frame
  | lock hCall hFree =>
      exact h.call_step hCall rfl (Or.inl hFree) (Or.inr ⟨rfl, rfl⟩) (List.Perm.refl _)
        (h.notifyDue_advance hCall nofun)
  | replace hCall => exact h.replace hCall
  | notifyNobody hCall hNobody =>
      have hHolder := h.holder_of_call hCall rfl
      refine h.call_step hCall rfl (Or.inr hHolder) (Or.inr ⟨hHolder, rfl⟩) (List.Perm.refl _)
        fun hBlocked => ?_
      rw [hNobody] at hBlocked
      cases hBlocked
  | notify hCall ht =>
      have hHolder := h.holder_of_call hCall rfl
      exact h.call_step hCall rfl (Or.inr hHolder) (Or.inr ⟨hHolder, rfl⟩)
        (s.monitor.waiting_wake ht) fun hBlocked => absurd hBlocked (h.not_blocked_of_wakeUp ht)
  | unlock hCall hHeld =>
      exact h.call_step hCall rfl (Or.inr hHeld) (Or.inl ⟨rfl, rfl⟩) (List.Perm.refl _)
        (h.notifyDue_advance hCall nofun)
  | workerLock hWorker hFree =>
      rw [hWorker] at hWaits
      exact h.worker_step (Or.inl hFree) (Or.inr ⟨rfl, rfl⟩) hWaits nofun nofun nofun fun hB _ => hB
  | sawNone hWorker hSlot =>
      rw [hWorker] at hWaits
      have hHolder := h.holder_of_worker (by rw [hWorker, TakePhase.holds])
      exact h.worker_step (Or.inr hHolder) (Or.inr ⟨hHolder, rfl⟩) hWaits (fun _ => hSlot) nofun
        nofun fun hB _ => hB
  | sawSome hWorker hSlot =>
      rw [hWorker] at hWaits
      have hHolder := h.holder_of_worker (by rw [hWorker, TakePhase.holds])
      exact h.worker_step (Or.inr hHolder) (Or.inr ⟨hHolder, rfl⟩) hWaits nofun
        (fun _ => ⟨_, hSlot⟩) nofun fun hB _ => hB
  | wait hWorker hHeld =>
      -- the slot is still empty, for the worker has had the lock since it looked
      have hSlot := h.sawNone hWorker
      rw [hWorker] at hWaits
      exact h.worker_step (Or.inr hHeld) (Or.inl ⟨rfl, Bool.false_ne_true⟩) (hWaits.cons _) nofun
        nofun nofun fun _ hNe => absurd hSlot hNe
  | relock hWorker hFree hWoken =>
      rw [hWorker] at hWaits
      have hPerm := (s.monitor.waiting_relock hWoken).trans (hWaits.erase .worker)
      exact h.worker_step (Or.inl hFree) (Or.inr ⟨rfl, rfl⟩) hPerm nofun nofun nofun
        fun hB _ => hB
  | take hWorker =>
      have hHolder := h.holder_of_worker (by rw [hWorker, TakePhase.holds])
      rw [hWorker] at hWaits
      obtain ⟨frame, hSlot⟩ := h.sawSome hWorker
      refine ⟨?_, hWaits, nofun, nofun, fun f hf => ?_, fun _ hNe => absurd rfl hNe, h.submitted,
        h.once⟩
      swap
      · cases hf
        exact ⟨(frame, s.submitted.length), by simp [hSlot], hSlot⟩
      refine h.holder_of (Or.inr hHolder) (fun q hq => ?_) (Or.inr ⟨hHolder, rfl⟩)
      cases q with
      | submit j => rfl
      | worker => exact absurd rfl hq
  | workerUnlock hWorker hHeld =>
      rw [hWorker] at hWaits
      exact h.worker_step (Or.inr hHeld) (Or.inl ⟨rfl, Bool.false_ne_true⟩) hWaits nofun nofun
        nofun fun hB _ => hB
  | wake hBlocked =>
      exact { h with
        waits := (s.monitor.waiting_wake hBlocked).trans hWaits
        notifyDue := fun hMem => absurd hMem (h.not_blocked_of_wakeUp hBlocked) }

theorem of_run {steps : List MailboxStep} (hRun : mailbox.exec Mailbox.new steps = some s) :
    Invariant s :=
  Machine.exec_invariant (fun _ _ _ h hStep => h.move (step_move hStep)) new hRun

/-- Every operation is one on the slot, or does nothing to it. -/
theorem refines (h : Invariant s) (hMove : s.Move s') :
    s'.latest = s.latest ∨
      ∃ step, (latestSlot ScanFrame).step s.latest step = some s'.latest := by
  cases hMove with
  | @replace i frame hCall => exact Or.inr ⟨.put frame, by simp [latestSlot, latest]⟩
  | take hWorker =>
      obtain ⟨frame, hSlot⟩ := h.sawSome hWorker
      exact Or.inr ⟨.take, by simp [latestSlot, latest, hSlot]⟩
  | _ => exact Or.inl rfl

end Invariant

/-- **Refinement.** Seen from outside, the mailbox is a slot for the latest frame. -/
theorem refines_latestSlot {steps : List MailboxStep}
    (hRun : mailbox.exec Mailbox.new steps = some s) :
    ∃ steps', (latestSlot ScanFrame).exec LatestSlot.new steps' = some s.latest := by
  refine Machine.exec_history
    (P := fun _ s => ∃ steps', (latestSlot ScanFrame).exec LatestSlot.new steps' = some s.latest)
    ⟨[], rfl⟩ ?_ hRun
  rintro past s l s' hPast ⟨steps', hSteps⟩ hStep
  rcases (Invariant.of_run hPast).refines (step_move hStep) with hSame | ⟨step, hSlot⟩
  · exact ⟨steps', by rw [hSteps, hSame]⟩
  · exact ⟨steps' ++ [step], by rw [Machine.exec_snoc, hSteps, Option.bind_some, hSlot]⟩

/-- No call of `submit` is under way: each has still to take the lock, or has given it back. -/
def Quiet (s : Mailbox) : Prop := ∀ call ∈ s.calls, call.phase = .called ∨ call.phase = .returned

theorem Invariant.free_of_quiet (h : Invariant s) (hQuiet : s.Quiet)
    (hWorker : s.worker.holds = false) : s.monitor.holder = none := by
  cases hHolder : s.monitor.holder with
  | none => rfl
  | some p =>
      have hHolds := (h.holder p).mp hHolder
      cases p with
      | submit i =>
          obtain ⟨frame, phase, hCall, hPhase⟩ := hHolds
          rcases hQuiet _ (List.mem_of_getElem? hCall) with rfl | rfl <;> cases hPhase
      | worker =>
          rw [Holds, hWorker] at hHolds
          cases hHolds

/-- While no call is under way, a blocked worker has nothing to take. -/
theorem Invariant.slot_of_blocked (h : Invariant s) (hQuiet : s.Quiet)
    (hBlocked : .worker ∈ s.monitor.blocked) : s.slot = none := by
  by_contra hSome
  obtain ⟨i, frame, hCall⟩ := h.notifyDue hBlocked hSome
  rcases hQuiet _ (List.mem_of_getElem? hCall) with hPhase | hPhase <;> cases hPhase

/-- While no call is under way, the worker gets to the frame in the slot by its own steps, with
no wake-up from outside. -/
theorem Invariant.worker_takes (h : Invariant s) (hQuiet : s.Quiet) {frame : ScanFrame}
    (hSlot : s.slot = some frame) :
    ∃ steps, (∀ l ∈ steps, l.ofWorker) ∧
      (mailbox.exec s steps).map Mailbox.worker = some (.took (some frame)) := by
  have hFree := h.free_of_quiet hQuiet
  cases hWorker : s.worker with
  | outside =>
      rw [hWorker] at hFree
      refine ⟨[.workerLock, .check, .take], by simp [MailboxStep.ofWorker], ?_⟩
      simp [Machine.exec_cons, mailbox, hWorker, Monitor.step, hFree rfl, hSlot]
  | checking =>
      refine ⟨[.check, .take], by simp [MailboxStep.ofWorker], ?_⟩
      simp [Machine.exec_cons, mailbox, hWorker, hSlot]
  | sawNone =>
      rw [h.sawNone hWorker] at hSlot
      cases hSlot
  | waiting =>
      rw [hWorker] at hFree
      have hWoken : .worker ∈ s.monitor.woken := by
        have hWaits := h.waits
        rw [hWorker] at hWaits
        have hMem : .worker ∈ s.monitor.waiting := hWaits.mem_iff.mpr List.mem_cons_self
        rw [Monitor.waiting, List.mem_append] at hMem
        refine hMem.resolve_left fun hBlocked => ?_
        rw [h.slot_of_blocked hQuiet hBlocked] at hSlot
        cases hSlot
      refine ⟨[.relock, .check, .take], by simp [MailboxStep.ofWorker], ?_⟩
      simp [Machine.exec_cons, mailbox, hWorker, Monitor.step, hFree rfl, hSlot, hWoken]
  | sawSome =>
      refine ⟨[.take], by simp [MailboxStep.ofWorker], ?_⟩
      simp [Machine.exec_cons, mailbox, hWorker, hSlot]
  | took frame =>
      have hHolder := h.holder_of_worker (by rw [hWorker, TakePhase.holds])
      refine ⟨[.workerUnlock, .workerLock, .check, .take], by simp [MailboxStep.ofWorker], ?_⟩
      simp [Machine.exec_cons, mailbox, hWorker, Monitor.step, hHolder, hSlot]

end Mailbox

/-- **Mailbox.** Every frame taken is the one submitted last by then, and frames are taken in the
order of submission, none twice; what counts as submitted are the frames of the calls that got to
the slot, each call once. What the worker goes on with is the frame taken last. A frame is dropped
only for a newer one: the last one submitted is in the slot or was taken. And no wake-up is lost:
while no call is under way, a blocked worker has nothing to take, for the last frame submitted was
taken. -/
theorem mailbox_keeps_latest (steps : List MailboxStep) (s : Mailbox)
    (hRun : mailbox.exec Mailbox.new steps = some s) :
    (∀ p ∈ s.taken, (s.submitted.take p.2).getLast?.map Prod.snd = some p.1) ∧
      (s.taken.map Prod.snd).Pairwise (· < ·) ∧
      ((s.submitted.map Prod.fst).Nodup ∧
        ∀ i frame, (i, frame) ∈ s.submitted ↔ s.Submits i frame) ∧
      (∀ frame, s.worker = .took frame → ∃ p, s.taken.getLast? = some p ∧ frame = some p.1) ∧
      (s.submitted = [] ∨ s.slot = s.submitted.getLast?.map Prod.snd ∨
        ∃ p ∈ s.taken, p.2 = s.submitted.length) ∧
      (s.Quiet → .worker ∈ s.monitor.blocked →
        s.slot = none ∧ (s.submitted = [] ∨ ∃ p ∈ s.taken, p.2 = s.submitted.length)) := by
  have h := Mailbox.Invariant.of_run hRun
  obtain ⟨steps', hSlot⟩ := Mailbox.refines_latestSlot hRun
  have hSound := LatestSlot.Sound.of_run hSlot
  have hEmpty : s.slot = none →
      s.submitted = [] ∨ ∃ p ∈ s.taken, p.2 = s.submitted.length := by
    intro hNone
    simpa [Mailbox.latest] using hSound.empty hNone
  refine ⟨fun p hp => ?_, hSound.ordered, ⟨h.once, h.submitted⟩, h.took, ?_,
    fun hQuiet hBlocked => ?_⟩
  · obtain ⟨-, hLast⟩ := hSound.latest p hp
    rw [← List.getLast?_map, List.map_take]
    exact hLast
  · cases hSlot : s.slot with
    | none => exact (hEmpty hSlot).imp_right Or.inr
    | some frame =>
        obtain ⟨hLast, -⟩ := hSound.full frame hSlot
        exact Or.inr (Or.inl (by rw [← List.getLast?_map]; exact hLast.symm))
  · have hNone := h.slot_of_blocked hQuiet hBlocked
    exact ⟨hNone, hEmpty hNone⟩

/-- The worker waits, wakes for no reason and waits again; two calls come before it has the lock,
and it takes the frame of the second. -/
def twoSubmits : List MailboxStep :=
  [.workerLock, .check, .wait, .wake, .relock, .check, .wait, .call ⟨1, 0, [], 0⟩,
    .call ⟨2, 0, [], 0⟩, .lock 0, .replace 0, .notifyOne 0 (some .worker), .unlock 0, .lock 1,
    .replace 1, .notifyOne 1 none, .unlock 1, .relock, .check, .take, .workerUnlock, .workerLock,
    .check, .wait]

theorem mailbox_keeps_latest_two :
    ∃ s, mailbox.exec Mailbox.new twoSubmits = some s ∧ s.taken = [(⟨2, 0, [], 0⟩, 2)] ∧
      (∀ p ∈ s.taken, (s.submitted.take p.2).getLast?.map Prod.snd = some p.1) ∧
      (s.taken.map Prod.snd).Pairwise (· < ·) ∧
      ((s.submitted.map Prod.fst).Nodup ∧
        ∀ i frame, (i, frame) ∈ s.submitted ↔ s.Submits i frame) ∧
      (∀ frame, s.worker = .took frame → ∃ p, s.taken.getLast? = some p ∧ frame = some p.1) ∧
      (s.submitted = [] ∨ s.slot = s.submitted.getLast?.map Prod.snd ∨
        ∃ p ∈ s.taken, p.2 = s.submitted.length) ∧
      (s.Quiet → .worker ∈ s.monitor.blocked →
        s.slot = none ∧ (s.submitted = [] ∨ ∃ p ∈ s.taken, p.2 = s.submitted.length)) :=
  ⟨_, rfl, rfl, mailbox_keeps_latest twoSubmits _ rfl⟩

end OlivawHub
