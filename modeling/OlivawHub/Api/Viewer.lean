import OlivawHub.Api.WebSocket

/-!
# Which events a client is sent

A session together with what it does not record itself: the moment it subscribed, and the numbers
of the broadcasts it received. `Viewer.Knows` says in each phase what these numbers tell of the
messages sent.
-/

namespace OlivawHub

open Foundations

variable {T F : Type}

/-- A session with two history variables. -/
structure Viewer (T F : Type) where
  session : Session T F
  /-- The number of actions the pipeline had performed when the session subscribed. -/
  subscribedAt : Nat
  /-- The numbers of the broadcasts it received, from 0 on. -/
  received : List Nat

def Viewer.new {T F : Type} : Viewer T F := ⟨Session.new, 0, []⟩

/-- One step of `session`, with its history. -/
def viewer (s : Task T F) (v : Viewer T F) (step : SessionStep) : Option (Viewer T F) :=
  (session s v.session step).map fun w =>
    { session := w
      subscribedAt :=
        match v.session.phase with
        | .connecting => s.log.length
        | _ => v.subscribedAt
      received :=
        match v.session.phase, w.phase with
        | .receiving next, .sending _ _ => v.received ++ [next]
        | _, _ => v.received }

/-- The viewer after its session went on to `w`, subscribed and received as before. -/
def Viewer.goOn (v : Viewer T F) (w : Session T F) : Viewer T F := { v with session := w }

/-- What a viewer can do in one step. -/
theorem viewer_cases {s : Task T F} {v v' : Viewer T F} {step : SessionStep}
    (h : viewer s v step = some v') :
    (v.session.phase = .connecting ∧
      v' = ⟨{ v.session with phase := .subscribed s.hub.events.length }, s.log.length,
        v.received⟩) ∨
    (∃ next, v.session.phase = .subscribed next ∧
      v' = v.goOn { v.session with
        phase := .sending next (.hello s.hub.snapshots), helloAt := s.log.length }) ∨
    (∃ next e, v.session.phase = .sending next e ∧
      v' = v.goOn { v.session with phase := .receiving next, sent := v.session.sent ++ [e] }) ∨
    (∃ next e next', v.session.phase = .receiving next ∧
      recv eventsCapacity s.hub.events next = some (.value e, next') ∧
      v' = ⟨{ v.session with phase := .sending next' e }, v.subscribedAt,
        v.received ++ [next]⟩) ∨
    (∃ next n next', v.session.phase = .receiving next ∧
      recv eventsCapacity s.hub.events next = some (.lagged n, next') ∧
      v' = v.goOn { v.session with
        phase := .receiving next', lagged := v.session.lagged ++ [n] }) ∨
    v' = v.goOn { v.session with phase := .closed } := by
  obtain ⟨w', hSession, rfl⟩ := Option.map_eq_some_iff.mp h
  obtain ⟨⟨phase, sent, lagged, helloAt⟩, subscribedAt, received⟩ := v
  rcases session_cases hSession with ⟨rfl, rfl⟩ | ⟨next, rfl, rfl⟩ | ⟨next, e, rfl, rfl⟩ |
    ⟨next, e, next', rfl, -, hRecv, rfl⟩ | ⟨next, n, next', rfl, -, hRecv, rfl⟩ | ⟨-, rfl⟩
  · exact Or.inl ⟨rfl, rfl⟩
  · exact Or.inr (Or.inl ⟨next, rfl, rfl⟩)
  · exact Or.inr (Or.inr (Or.inl ⟨next, e, rfl, rfl⟩))
  · exact Or.inr (Or.inr (Or.inr (Or.inl ⟨next, e, next', rfl, hRecv, rfl⟩)))
  · exact Or.inr (Or.inr (Or.inr (Or.inr (Or.inl ⟨next, n, next', rfl, hRecv, rfl⟩))))
  · refine Or.inr (Or.inr (Or.inr (Or.inr (Or.inr ?_))))
    cases phase with
    | connecting => cases step <;> cases hSession
    | subscribed next => rfl
    | sending next e => rfl
    | receiving next => rfl
    | closed => rfl

variable [HubFloat F]

/-- The messages are `hello`, which shows the hub as it was after the first `helloAt` actions, and
the events with the numbers `received`, all broadcast since `subscribedAt` and before `next`. -/
structure Told (log : List (HubOp T F)) (subscribedAt helloAt next : Nat) (received : List Nat)
    (messages : List (WsEvent T F)) : Prop where
  subscribed : subscribedAt ≤ helloAt
  shown : helloAt ≤ log.length
  messages : ∃ events,
    messages = .hello (Hub.new.after (log.take helloAt)).snapshots :: events ∧
      received.map ((emitted log)[·]?) = events.map some
  ascending : received.Pairwise (· < ·)
  range : ∀ j ∈ received, (emitted (log.take subscribedAt)).length ≤ j ∧ j < next
  first : (emitted (log.take subscribedAt)).length ≤ next
  last : next ≤ (emitted log).length

/-- Nothing was sent or received, or all that was sent is of this kind. -/
def Viewer.Informed (log : List (HubOp T F)) (v : Viewer T F) : Prop :=
  (v.session.sent = [] ∧ v.received = []) ∨ ∃ next messages,
    Told log v.subscribedAt v.session.helloAt next v.received messages ∧
      v.session.sent <+: messages

/-- What is known of a viewer in each phase. -/
def Viewer.Knows (log : List (HubOp T F)) (v : Viewer T F) : Prop :=
  match v.session.phase with
  | .connecting => v.session.sent = [] ∧ v.received = []
  | .subscribed next => v.session.sent = [] ∧ v.received = [] ∧ v.subscribedAt ≤ log.length ∧
      next = (emitted (log.take v.subscribedAt)).length
  | .sending next e =>
      Told log v.subscribedAt v.session.helloAt next v.received (v.session.sent ++ [e])
  | .receiving next => Told log v.subscribedAt v.session.helloAt next v.received v.session.sent
  | .closed => v.Informed log

section Told

variable {log : List (HubOp T F)} {subscribedAt helloAt next next' : Nat} {received : List Nat}
  {messages : List (WsEvent T F)}

omit [HubFloat F] in
theorem emitted_take_append {k : Nat} (h : k ≤ log.length) (os : List (HubOp T F)) :
    emitted ((log ++ os).take k) = emitted (log.take k) := by
  rw [List.take_append_of_le_length h]

theorem Told.grow (h : Told log subscribedAt helloAt next received messages)
    (os : List (HubOp T F)) : Told (log ++ os) subscribedAt helloAt next received messages := by
  obtain ⟨events, hMessages, hEvents⟩ := h.messages
  have hFirst := emitted_take_append (h.subscribed.trans h.shown) os
  refine ⟨h.subscribed, ?_, ⟨events, ?_, ?_⟩, h.ascending, ?_, ?_, ?_⟩
  · rw [List.length_append]
    exact Nat.le_add_right_of_le h.shown
  · rw [List.take_append_of_le_length h.shown]
    exact hMessages
  · rw [← hEvents]
    refine List.map_congr_left fun j hj => ?_
    rw [emitted_append, List.getElem?_append_left (Nat.lt_of_lt_of_le (h.range j hj).2 h.last)]
  · rw [hFirst]
    exact h.range
  · rw [hFirst]
    exact h.first
  · rw [emitted_append, List.length_append]
    exact Nat.le_add_right_of_le h.last

/-- `hello` alone. -/
theorem Told.hello (h : subscribedAt ≤ log.length) :
    Told log subscribedAt log.length (emitted (log.take subscribedAt)).length []
      [.hello (Hub.new.after log).snapshots] := by
  have hSplit : emitted log =
      emitted (log.take subscribedAt) ++ emitted (log.drop subscribedAt) := by
    rw [← emitted_append, List.take_append_drop]
  refine ⟨h, le_refl _, ⟨[], by rw [List.take_length], rfl⟩, List.Pairwise.nil, nofun,
    le_refl _, ?_⟩
  rw [hSplit, List.length_append]
  exact Nat.le_add_right _ _

/-- One more event. -/
theorem Told.receive (h : Told log subscribedAt helloAt next received messages) {e : WsEvent T F}
    (hEvent : (emitted log)[next]? = some e) :
    Told log subscribedAt helloAt (next + 1) (received ++ [next]) (messages ++ [e]) := by
  obtain ⟨events, hMessages, hEvents⟩ := h.messages
  obtain ⟨hLt, -⟩ := List.getElem?_eq_some_iff.mp hEvent
  refine ⟨h.subscribed, h.shown, ⟨events ++ [e], ?_, ?_⟩, ?_, ?_, ?_, hLt⟩
  · rw [hMessages]
    rfl
  · rw [List.map_append, List.map_append, hEvents, List.map_singleton, List.map_singleton, hEvent]
  · refine List.pairwise_append.mpr ⟨h.ascending, List.pairwise_singleton _ _, ?_⟩
    intro i hi j hj
    rw [List.mem_singleton.mp hj]
    exact (h.range i hi).2
  · intro j hj
    rcases List.mem_append.mp hj with hOld | hNew
    · obtain ⟨hFirst, hBefore⟩ := h.range j hOld
      exact ⟨hFirst, Nat.lt_succ_of_lt hBefore⟩
    · rw [List.mem_singleton.mp hNew]
      exact ⟨h.first, Nat.lt_succ_self _⟩
  · exact Nat.le_succ_of_le h.first

/-- The receiver goes on further ahead. -/
theorem Told.skip (h : Told log subscribedAt helloAt next received messages) (hNext : next ≤ next')
    (hLast : next' ≤ (emitted log).length) :
    Told log subscribedAt helloAt next' received messages :=
  ⟨h.subscribed, h.shown, h.messages, h.ascending,
    fun j hj => ⟨(h.range j hj).1, Nat.lt_of_lt_of_le (h.range j hj).2 hNext⟩,
    h.first.trans hNext, hLast⟩

end Told

namespace Viewer

variable {log : List (HubOp T F)} {v v' : Viewer T F}

theorem Informed.grow (h : v.Informed log) (os : List (HubOp T F)) : v.Informed (log ++ os) := by
  rcases h with hNone | ⟨next, messages, hTold, hSent⟩
  · exact Or.inl hNone
  · exact Or.inr ⟨next, messages, hTold.grow os, hSent⟩

theorem Knows.new : (Viewer.new : Viewer T F).Knows [] := ⟨rfl, rfl⟩

theorem Knows.informed (h : v.Knows log) : v.Informed log := by
  unfold Knows at h
  cases hPhase : v.session.phase with
  | connecting =>
      rw [hPhase] at h
      exact Or.inl h
  | subscribed next =>
      rw [hPhase] at h
      exact Or.inl ⟨h.1, h.2.1⟩
  | sending next e =>
      rw [hPhase] at h
      exact Or.inr ⟨next, _, h, List.prefix_append _ _⟩
  | receiving next =>
      rw [hPhase] at h
      exact Or.inr ⟨next, _, h, List.prefix_rfl⟩
  | closed =>
      rw [hPhase] at h
      exact h

/-- What the pipeline does meanwhile changes nothing. -/
theorem Knows.grow (h : v.Knows log) (os : List (HubOp T F)) : v.Knows (log ++ os) := by
  unfold Knows at h ⊢
  cases hPhase : v.session.phase with
  | connecting =>
      rw [hPhase] at h
      exact h
  | subscribed next =>
      rw [hPhase] at h
      obtain ⟨hSent, hReceived, hLe, hNext⟩ := h
      refine ⟨hSent, hReceived, ?_, ?_⟩
      · rw [List.length_append]
        exact Nat.le_add_right_of_le hLe
      · rw [emitted_take_append hLe]
        exact hNext
  | sending next e =>
      rw [hPhase] at h
      exact Told.grow h os
  | receiving next =>
      rw [hPhase] at h
      exact Told.grow h os
  | closed =>
      rw [hPhase] at h
      exact Informed.grow h os

theorem Knows.step {s : Task T F} (hHub : s.hub = Hub.new.after s.log) (h : v.Knows s.log)
    {step : SessionStep} (hStep : viewer s v step = some v') : v'.Knows s.log := by
  have hEvents : s.hub.events = emitted s.log := by
    rw [hHub, Hub.new_after_events]
  have hInformed := h.informed
  unfold Knows at h
  rcases viewer_cases hStep with ⟨hPhase, rfl⟩ | ⟨next, hPhase, rfl⟩ | ⟨next, e, hPhase, rfl⟩ |
    ⟨next, e, next', hPhase, hRecv, rfl⟩ | ⟨next, n, next', hPhase, hRecv, rfl⟩ | rfl
  · -- subscribe
    rw [hPhase] at h
    exact ⟨h.1, h.2, le_refl _, by rw [hEvents, List.take_length]⟩
  · -- take the snapshot
    rw [hPhase] at h
    obtain ⟨hSent, hReceived, hLe, rfl⟩ := h
    have hHello : Told s.log v.subscribedAt s.log.length
        (emitted (s.log.take v.subscribedAt)).length v.received
        (v.session.sent ++ [.hello s.hub.snapshots]) := by
      rw [hSent, hReceived, hHub]
      exact Told.hello hLe
    exact hHello
  · -- a message is delivered
    rw [hPhase] at h
    exact h
  · -- an event is received
    rw [hPhase] at h
    rw [hEvents] at hRecv
    obtain ⟨hDrop, rfl, -⟩ := recv_value hRecv
    refine Told.receive h ?_
    rw [← List.head?_drop, hDrop, List.head?_cons]
  · -- the receiver lagged
    rw [hPhase] at h
    rw [hEvents] at hRecv
    obtain ⟨-, hLt, hLe, -⟩ := recv_lagged hRecv
    exact Told.skip h (Nat.le_of_lt hLt) hLe
  · -- the connection is gone
    exact hInformed

end Viewer

end OlivawHub
