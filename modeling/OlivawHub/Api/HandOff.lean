import OlivawHub.Api.WebSocket

/-!
# The hand-off from snapshot to stream

A session subscribes first and takes its snapshot afterwards, while the pipeline updates first
and broadcasts afterwards. Whatever lies between these moments, a client whose receiver never
lags ends with the server's values (`handOff_loses_nothing`). The poses it was sent are those
stored after its snapshot, preceded by some that were stored before and broadcast after it
subscribed.
-/

namespace OlivawHub

open Foundations

variable {T F : Type}

/-- The step is not a receive that lags. -/
def NoLag (p : Task T F × Session T F) (step : TaskStep T F ⊕ SessionStep) : Prop :=
  step = .inr .receive → ∀ next n next', p.2.phase = .receiving next →
    recv eventsCapacity p.1.hub.events next ≠ some (.lagged n, next')

theorem noLag_of_session {s : Task T F} {w w' : Session T F} {step : SessionStep}
    (hStep : session s w step = some w') (hNone : w'.lagged = []) :
    w.lagged = [] ∧ NoLag (s, w) (.inr step) := by
  rcases session_cases hStep with ⟨hPhase, rfl⟩ | ⟨next, hPhase, rfl⟩ | ⟨next, e, hPhase, rfl⟩ |
    ⟨next, e, next', hPhase, rfl, hRecv, rfl⟩ | ⟨next, n, next', hPhase, rfl, hRecv, rfl⟩ |
    ⟨hOther, rfl⟩
  · refine ⟨hNone, fun _ next _ _ h => ?_⟩
    rw [hPhase] at h
    cases h
  · refine ⟨hNone, fun _ next _ _ h => ?_⟩
    rw [hPhase] at h
    cases h
  · refine ⟨hNone, fun _ next _ _ h => ?_⟩
    rw [hPhase] at h
    cases h
  · refine ⟨hNone, fun _ next _ _ h hLag => ?_⟩
    rw [hPhase] at h
    cases h
    rw [hRecv] at hLag
    cases hLag
  · simp at hNone
  · exact ⟨hNone, fun hReceive => absurd (Sum.inr.inj hReceive) hOther⟩

variable [HubFloat F]

theorem meets_noLag {n : Nat} {steps : List (TaskStep T F ⊕ SessionStep)} {s : Task T F}
    {w : Session T F} (hRun : (served T F n).exec (Task.new, Session.new) steps = some (s, w))
    (hNone : w.lagged = []) : (served T F n).Meets NoLag (Task.new, Session.new) steps := by
  refine Machine.watch_history (P := fun past _ w => w.lagged = [] →
    (served T F n).Meets NoLag (Task.new, Session.new) past) (fun _ => trivial) ?_ ?_ hRun hNone
  · intro past s w t s' hPast ih _ hNone
    exact (Machine.meets_concat hPast).mpr ⟨ih hNone, fun h => by cases h⟩
  · intro past s w k w' hPast ih hSession hNone
    obtain ⟨hBefore, hLast⟩ := noLag_of_session hSession hNone
    exact (Machine.meets_concat hPast).mpr ⟨ih hBefore, hLast⟩

theorem follows_eq_of_noLag {n : Nat} {steps : List (TaskStep T F ⊕ SessionStep)} {s : Task T F}
    {w : Session T F} (hRun : (served T F n).exec (Task.new, Session.new) steps = some (s, w))
    (hNone : w.lagged = []) : Follows Eq s w := by
  refine Follows.of_run (C := NoLag) (fun _ => rfl) ?_ ?_ (meets_noLag hRun hNone) hRun
  · rintro xs ys zs rfl
    rfl
  · intro s w _ hC next n next' hPhase hLag
    exact absurd hLag (hC rfl next n next' hPhase)

omit [HubFloat F] in
/-- The poses broadcast since a client subscribed, when those stored come to `xs ++ ys ++ zs`
and it subscribed after `xs`. -/
theorem posesEmitted_since {xs ys zs : List (HubOp T F)} (h : PosesInOrder (xs ++ ys ++ zs)) :
    ∃ early, early <:+ posesApplied (xs ++ ys) ∧
      posesEmitted (ys ++ zs) = early ++ posesApplied zs := by
  obtain ⟨hAll, hPrefix⟩ := h
  obtain ⟨late, hLate⟩ := hPrefix xs ⟨ys ++ zs, by simp⟩
  refine ⟨late ++ posesApplied ys, ⟨posesEmitted xs, ?_⟩, ?_⟩
  · rw [posesApplied_append, ← hLate, List.append_assoc]
  · rw [List.append_assoc, posesEmitted_append, posesApplied_append, posesApplied_append,
      ← hLate, List.append_assoc] at hAll
    rw [List.append_cancel_left hAll, List.append_assoc]

/-- **Hand-off.** Whenever the pipeline is between two passes and a client that never lagged has
been sent everything, the client shows all six fields of every car as the server has them, and
was sent every pose stored after its snapshot, once and in order. -/
theorem handOff_loses_nothing (n : Nat) (steps : List (TaskStep T F ⊕ SessionStep))
    (s : Task T F) (w : Session T F)
    (hRun : (served T F n).exec (Task.new, Session.new) steps = some (s, w))
    (hNoLag : w.lagged = []) (hIdle : s.Idle)
    (hDrained : w.phase = .receiving s.hub.events.length) :
    (∀ c k, (clientView w.sent c).get k = (s.hub.car c).get k) ∧
      ∃ early, early <:+ posesApplied (s.log.take w.helloAt) ∧
        posesTold w.sent = early ++ posesApplied (s.log.drop w.helloAt) := by
  have hFollows := follows_eq_of_noLag hRun hNoLag
  have hTask := taskInvariant_of_served hRun
  refine ⟨fun c k => hFollows.view_eq_of_drained hTask hIdle hDrained fun _ _ h => by rw [h], ?_⟩
  have hKnows := hFollows.knows
  unfold Session.Knows at hKnows
  rw [hDrained] at hKnows
  obtain ⟨xs, ys, zs, hSplit, hHello, -, hMessages⟩ := hKnows
  rw [hFollows.events_eq, List.drop_length, List.append_nil] at hMessages
  have hOrder := posesInOrder_actionsOf hTask.run
  rw [← hTask.log_of_idle hIdle, hSplit] at hOrder
  obtain ⟨early, hEarly, hPoses⟩ := posesEmitted_since hOrder
  refine ⟨early, ?_, ?_⟩
  · rw [hSplit, hHello, List.take_left]
    exact hEarly
  · rw [hSplit, hHello, List.drop_left, hMessages]
    exact hPoses

/-- The client subscribes between an update and its broadcast, and takes its snapshot between
those of another car. -/
def handOffSteps : List (TaskStep Unit ℚ ⊕ SessionStep) :=
  [.inl (.begin (.slam "a" (.tracked ⟨1, 2, 0, 3, 0, 0, 0⟩ []))), .inl .act, .inr .subscribe,
    .inl .act, .inl .act, .inl (.begin (.event ⟨"b", 6, .status "online"⟩ 0 none)), .inl .act,
    .inl .act, .inr .snapshot, .inl .act, .inr .sendOk, .inr .receive, .inr .sendOk,
    .inr .receive, .inr .sendOk, .inr .receive, .inr .sendOk]

theorem handOff_between_update_and_emit :
    ∃ s w, (served Unit ℚ 5).exec (Task.new, Session.new) handOffSteps = some (s, w) ∧
      (∀ c k, (clientView w.sent c).get k = (s.hub.car c).get k) ∧
      ∃ early, early <:+ posesApplied (s.log.take w.helloAt) ∧
        posesTold w.sent = early ++ posesApplied (s.log.drop w.helloAt) :=
  ⟨_, _, rfl, handOff_loses_nothing 5 handOffSteps _ _ rfl rfl ⟨_, rfl⟩ rfl⟩

end OlivawHub
