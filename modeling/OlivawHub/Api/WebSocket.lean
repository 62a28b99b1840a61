import OlivawHub.Api.Fields
import OlivawHub.Pipeline.Poses
import OlivawHub.System.Task
import OlivawHub.Foundations.Broadcast

/-!
# One WebSocket session

`session` of `ws.rs` next to the pipeline task: it subscribes, takes its snapshot, sends
`hello`, and then forwards every event it receives, one at a time. Sending waits for the
socket, and between any two steps of the session the pipeline may perform any number of
actions.

`Follows R s w` says how far the client is: what it was sent, followed by what it has still to
read, stands in the relation `R` to `hello` and everything broadcast since it subscribed. With
`R` equality the client misses nothing; a receiver that lags keeps only weaker relations.
-/

namespace OlivawHub

open Foundations

/-- `broadcast::channel(512)`. -/
def eventsCapacity : Nat := 512

/-- Where a session stands. -/
inductive SessionPhase (T F : Type) where
  | connecting
  /-- Subscribed, the snapshot not yet taken. -/
  | subscribed (next : Nat)
  /-- Waiting for the socket to take a message. -/
  | sending (next : Nat) (e : WsEvent T F)
  /-- In the receive loop. -/
  | receiving (next : Nat)
  | closed

/-- A session. `helloAt` is a history variable: the number of actions the pipeline had
performed when the snapshot was taken. -/
structure Session (T F : Type) where
  phase : SessionPhase T F
  /-- The messages the client got. -/
  sent : List (WsEvent T F)
  /-- The numbers reported by `RecvError::Lagged`. -/
  lagged : List Nat
  helloAt : Nat

/-- An upgraded connection. -/
def Session.new {T F : Type} : Session T F := ⟨.connecting, [], [], 0⟩

/-- The steps of a session, with the outcomes of the socket's operations. -/
inductive SessionStep where
  | subscribe
  | snapshot
  | sendOk
  | sendErr
  | receive
  | hangUp
  deriving DecidableEq, Repr

variable {T F : Type}

/-- One step of `session`. -/
def session (s : Task T F) (w : Session T F) (step : SessionStep) : Option (Session T F) :=
  match w.phase, step with
  | .connecting, .subscribe => some { w with phase := .subscribed s.hub.events.length }
  | .subscribed next, .snapshot =>
      some { w with phase := .sending next (.hello s.hub.snapshots), helloAt := s.log.length }
  | .sending next e, .sendOk => some { w with phase := .receiving next, sent := w.sent ++ [e] }
  | .sending _ _, .sendErr => some { w with phase := .closed }
  | .receiving next, .receive =>
      match recv eventsCapacity s.hub.events next with
      | some (.value e, next') => some { w with phase := .sending next' e }
      | some (.lagged n, next') =>
          some { w with phase := .receiving next', lagged := w.lagged ++ [n] }
      | none => none
  | .receiving _, .hangUp => some { w with phase := .closed }
  | _, _ => none

/-- What a session can do in one step. -/
theorem session_cases {s : Task T F} {w w' : Session T F} {step : SessionStep}
    (h : session s w step = some w') :
    (w.phase = .connecting ∧ w' = { w with phase := .subscribed s.hub.events.length }) ∨
    (∃ next, w.phase = .subscribed next ∧
      w' = { w with phase := .sending next (.hello s.hub.snapshots), helloAt := s.log.length }) ∨
    (∃ next e, w.phase = .sending next e ∧
      w' = { w with phase := .receiving next, sent := w.sent ++ [e] }) ∨
    (∃ next e next', w.phase = .receiving next ∧ step = .receive ∧
      recv eventsCapacity s.hub.events next = some (.value e, next') ∧
      w' = { w with phase := .sending next' e }) ∨
    (∃ next n next', w.phase = .receiving next ∧ step = .receive ∧
      recv eventsCapacity s.hub.events next = some (.lagged n, next') ∧
      w' = { w with phase := .receiving next', lagged := w.lagged ++ [n] }) ∨
    (step ≠ .receive ∧ w' = { w with phase := .closed }) := by
  obtain ⟨phase, sent, lagged, helloAt⟩ := w
  cases phase <;> cases step <;> simp only [session, Option.some.injEq, reduceCtorEq] at h
  · exact Or.inl ⟨rfl, h.symm⟩
  · exact Or.inr (Or.inl ⟨_, rfl, h.symm⟩)
  · exact Or.inr (Or.inr (Or.inl ⟨_, _, rfl, h.symm⟩))
  · exact Or.inr (Or.inr (Or.inr (Or.inr (Or.inr ⟨by simp, h.symm⟩))))
  · split at h
    · rename_i e next' hRecv
      exact Or.inr (Or.inr (Or.inr (Or.inl
        ⟨_, e, next', rfl, rfl, hRecv, (Option.some.inj h).symm⟩)))
    · rename_i n next' hRecv
      exact Or.inr (Or.inr (Or.inr (Or.inr (Or.inl
        ⟨_, n, next', rfl, rfl, hRecv, (Option.some.inj h).symm⟩))))
    · cases h
  · exact Or.inr (Or.inr (Or.inr (Or.inr (Or.inr ⟨by simp, h.symm⟩))))

/-! ## How far a client is -/

section Follows

variable [HubFloat F] (R : List (WsEvent T F) → List (WsEvent T F) → Prop)

/-- The client subscribed after the actions `xs` and was shown the hub as it was after
`xs ++ ys`; what it got and what it has still to read stand in relation to this `hello` and
everything broadcast since it subscribed. -/
def HandedOff (log : List (HubOp T F)) (helloAt next : Nat) (messages : List (WsEvent T F)) :
    Prop :=
  ∃ xs ys zs, log = xs ++ ys ++ zs ∧ helloAt = (xs ++ ys).length ∧
    next ≤ (emitted log).length ∧ R (messages ++ (emitted log).drop next)
      (.hello (Hub.new.after (xs ++ ys)).snapshots :: emitted (ys ++ zs))

/-- What a session knows in each phase. -/
def Session.Knows (log : List (HubOp T F)) (w : Session T F) : Prop :=
  match w.phase with
  | .connecting => w.sent = []
  | .subscribed next => w.sent = [] ∧ ∃ xs ys, log = xs ++ ys ∧ next = (emitted xs).length
  | .sending next e => HandedOff R log w.helloAt next (w.sent ++ [e])
  | .receiving next => HandedOff R log w.helloAt next w.sent
  | .closed => True

/-- The session is in step with the task. -/
structure Follows (s : Task T F) (w : Session T F) : Prop where
  hub : s.hub = Hub.new.after s.log
  knows : w.Knows R s.log

/-- A receive that lags keeps the relation. -/
def SkipsSafely (s : Task T F) (w : Session T F) : Prop :=
  ∀ next n next', w.phase = .receiving next →
    recv eventsCapacity s.hub.events next = some (.lagged n, next') → ∀ told,
      R (w.sent ++ s.hub.events.drop next) told → R (w.sent ++ s.hub.events.drop next') told

variable {R} {s s' : Task T F} {w w' : Session T F}

theorem HandedOff.grow (hAppend : ∀ xs ys zs, R xs ys → R (xs ++ zs) (ys ++ zs))
    {log : List (HubOp T F)} {helloAt next : Nat} {messages : List (WsEvent T F)}
    (h : HandedOff R log helloAt next messages) (os : List (HubOp T F)) :
    HandedOff R (log ++ os) helloAt next messages := by
  obtain ⟨xs, ys, zs, rfl, hHello, hLe, hR⟩ := h
  refine ⟨xs, ys, zs ++ os, by simp only [List.append_assoc], hHello, ?_, ?_⟩
  · rw [emitted_append, List.length_append]
    omega
  · rw [emitted_append _ os, List.drop_append_of_le_length hLe, ← List.append_assoc messages,
      ← List.append_assoc ys, emitted_append (ys ++ zs) os]
    exact hAppend _ _ _ hR

namespace Follows

theorem new : Follows R (Task.new : Task T F) Session.new := ⟨rfl, rfl⟩

theorem events_eq (h : Follows R s w) : s.hub.events = emitted s.log := by
  rw [h.hub, Hub.new_after_events]

/-- Actions of the pipeline: what they broadcast is still to be read. -/
theorem grow (hAppend : ∀ xs ys zs, R xs ys → R (xs ++ zs) (ys ++ zs)) (h : Follows R s w)
    {os : List (HubOp T F)} (hHub : s'.hub = Hub.new.after s'.log) (hLog : s'.log = s.log ++ os) :
    Follows R s' w := by
  have hKnows := h.knows
  refine ⟨hHub, ?_⟩
  rw [hLog]
  unfold Session.Knows at hKnows ⊢
  cases hPhase : w.phase with
  | connecting => simpa [hPhase] using hKnows
  | subscribed next =>
      rw [hPhase] at hKnows
      obtain ⟨hSent, xs, ys, hSplit, hNext⟩ := hKnows
      exact ⟨hSent, xs, ys ++ os, by rw [hSplit, List.append_assoc], hNext⟩
  | sending next e =>
      rw [hPhase] at hKnows
      exact HandedOff.grow hAppend hKnows os
  | receiving next =>
      rw [hPhase] at hKnows
      exact HandedOff.grow hAppend hKnows os
  | closed => trivial

theorem session_step (hRefl : ∀ xs, R xs xs) (h : Follows R s w) {step : SessionStep}
    (hSkip : step = .receive → SkipsSafely R s w) (hStep : session s w step = some w') :
    Follows R s w' := by
  have hEvents := h.events_eq
  have hKnows := h.knows
  unfold Session.Knows at hKnows
  refine ⟨h.hub, ?_⟩
  rcases session_cases hStep with ⟨hPhase, rfl⟩ | ⟨next, hPhase, rfl⟩ | ⟨next, e, hPhase, rfl⟩ |
    ⟨next, e, next', hPhase, rfl, hRecv, rfl⟩ | ⟨next, n, next', hPhase, rfl, hRecv, rfl⟩ | ⟨-, rfl⟩
  · -- subscribe
    rw [hPhase] at hKnows
    exact ⟨hKnows, s.log, [], (List.append_nil _).symm, by rw [hEvents]⟩
  · -- take the snapshot
    rw [hPhase] at hKnows
    obtain ⟨hSent, xs, ys, hSplit, rfl⟩ := hKnows
    refine ⟨xs, ys, [], by simp [hSplit], by rw [hSplit], ?_, ?_⟩
    · rw [hSplit, emitted_append, List.length_append]
      omega
    · rw [hSent, h.hub, hSplit, emitted_append, List.drop_left, List.append_nil]
      exact hRefl _
  · -- a message is delivered
    rw [hPhase] at hKnows
    exact hKnows
  · -- an event is received
    rw [hPhase] at hKnows
    rw [hEvents] at hRecv
    obtain ⟨xs, ys, zs, hSplit, hHello, -, hR⟩ := hKnows
    obtain ⟨hDrop, rfl, hLt⟩ := recv_value hRecv
    refine ⟨xs, ys, zs, hSplit, hHello, hLt, ?_⟩
    rw [List.append_assoc, List.singleton_append, ← hDrop]
    exact hR
  · -- the receiver lagged
    rw [hPhase] at hKnows
    obtain ⟨xs, ys, zs, hSplit, hHello, -, hR⟩ := hKnows
    have hSafe := hSkip rfl next n next' hPhase hRecv
    rw [hEvents] at hRecv hSafe
    obtain ⟨-, -, hLe, -⟩ := recv_lagged hRecv
    exact ⟨xs, ys, zs, hSplit, hHello, hLe, hSafe _ hR⟩
  · -- the connection is gone
    trivial

/-- Between two passes, once it has read what is left for it, a client shows a field as the hub
has it, if the relation is fine enough for that field. -/
theorem view_eq {n : Nat} {steps : List (TaskStep T F)} (h : Follows R s w)
    (hTask : Task.Invariant n steps s) (hIdle : s.Idle) {next : Nat}
    (hPhase : w.phase = .receiving next) {c : String} {k : Field}
    (hField : ∀ messages told, R messages told →
      (clientView messages c).get k = (clientView told c).get k) :
    (clientView (w.sent ++ s.hub.events.drop next) c).get k = (s.hub.car c).get k := by
  have hKnows := h.knows
  unfold Session.Knows at hKnows
  rw [hPhase] at hKnows
  obtain ⟨xs, ys, zs, hSplit, -, -, hR⟩ := hKnows
  have hAnnounced := announced_actionsOf hTask.run c k
  rw [← hTask.log_of_idle hIdle] at hAnnounced
  calc (clientView (w.sent ++ s.hub.events.drop next) c).get k
      = latest (WsEvent.sets c · k) (((Hub.new.after (xs ++ ys)).car c).get k)
          (emitted (ys ++ zs)) := by
        rw [h.events_eq, hField _ _ hR, ← find?_snapshots]
        exact get_foldl_overwrite c _ _ k
    _ = latest Touch.announced? (((Hub.new.after (xs ++ ys)).car c).get k)
          (touches c k ys ++ touches c k zs) := by
        rw [latest_emitted, touches_append]
    _ = latest Touch.written? ((CarSnapshot.new c).get k) (touches c k s.log) := by
        rw [get_after, Hub.car_new, touches_append]
        refine hAnnounced.handOff ?_
        rw [hSplit, touches_append, touches_append]
    _ = (s.hub.car c).get k := by
        rw [h.hub, get_after, Hub.car_new]

theorem view_eq_of_drained {n : Nat} {steps : List (TaskStep T F)} (h : Follows R s w)
    (hTask : Task.Invariant n steps s) (hIdle : s.Idle)
    (hPhase : w.phase = .receiving s.hub.events.length) {c : String} {k : Field}
    (hField : ∀ messages told, R messages told →
      (clientView messages c).get k = (clientView told c).get k) :
    (clientView w.sent c).get k = (s.hub.car c).get k := by
  have hView := h.view_eq hTask hIdle hPhase hField
  rwa [List.drop_length, List.append_nil] at hView

end Follows

/-! ## Runs -/

/-- The pipeline task and one session beside it. -/
abbrev served (T F : Type) [HubFloat F] (n : Nat) :
    Machine (Task T F × Session T F) (TaskStep T F ⊕ SessionStep) :=
  (task T F n).watch session

theorem task_step_grows {n : Nat} {t : TaskStep T F} (hHub : s.hub = Hub.new.after s.log)
    (hStep : (task T F n).step s t = some s') :
    s'.hub = Hub.new.after s'.log ∧ ∃ os, s'.log = s.log ++ os := by
  cases t with
  | begin i =>
      obtain ⟨l, -, -, rfl⟩ := task_begin.mp hStep
      exact ⟨hHub, [], (List.append_nil _).symm⟩
  | act =>
      obtain ⟨o, prog, hub, hNext, rfl⟩ := task_act.mp hStep
      obtain ⟨-, -, hAfter⟩ := Prog.ops_next hNext
      refine ⟨?_, [o], rfl⟩
      rw [Hub.after_append, ← hHub]
      exact hAfter

theorem Follows.of_run {n : Nat} {C : Task T F × Session T F → TaskStep T F ⊕ SessionStep → Prop}
    (hRefl : ∀ xs, R xs xs) (hAppend : ∀ xs ys zs, R xs ys → R (xs ++ zs) (ys ++ zs))
    (hSkip : ∀ s w, Follows R s w → C (s, w) (.inr .receive) → SkipsSafely R s w)
    {steps : List (TaskStep T F ⊕ SessionStep)}
    (hMeets : (served T F n).Meets C (Task.new, Session.new) steps)
    (hRun : (served T F n).exec (Task.new, Session.new) steps = some (s, w)) :
    Follows R s w := by
  refine Machine.watch_history (P := fun past s w =>
    (served T F n).Meets C (Task.new, Session.new) past → Follows R s w) (fun _ => Follows.new)
    ?_ ?_ hRun hMeets
  · intro past s w t s' hPast ih hTask hMeets
    have h := ih ((Machine.meets_concat hPast).mp hMeets).1
    obtain ⟨hHub, os, hLog⟩ := task_step_grows h.hub hTask
    exact h.grow hAppend hHub hLog
  · intro past s w k w' hPast ih hSession hMeets
    obtain ⟨hBefore, hC⟩ := (Machine.meets_concat hPast).mp hMeets
    refine (ih hBefore).session_step hRefl (fun hReceive => hSkip s w (ih hBefore) ?_) hSession
    rw [← hReceive]
    exact hC

theorem taskInvariant_of_served {n : Nat} {steps : List (TaskStep T F ⊕ SessionStep)}
    (hRun : (served T F n).exec (Task.new, Session.new) steps = some (s, w)) :
    Task.Invariant n (steps.filterMap Sum.getLeft?) s :=
  Task.Invariant.of_run (Machine.watch_exec hRun)

end Follows

end OlivawHub
