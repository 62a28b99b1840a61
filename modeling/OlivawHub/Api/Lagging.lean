import OlivawHub.Api.HandOff

/-!
# Clients that lag

A receiver that falls more than 512 events behind loses the oldest ones, and the session goes on
with what is left in the channel. Scans and poses are repeated for ever, but a status, a
telemetry record or a map is told once: if the last event of that kind of some car is among
those lost, the client keeps the old value (`lagged_client_shows_old_status`). It recovers from
a lag exactly when every such loss is made up for by what is left in the channel
(`recovers_iff_harmless`), and a run whose lags are all of this kind leaves every client right
(`lagged_client_recovers`).
-/

namespace OlivawHub

open Foundations

variable {T F : Type} [HubFloat F]

/-- The fields a client must have right in the end. -/
def keptFields : List Field := [.status, .telemetry, .map]

/-- Messages that leave a client with the same status, telemetry and map of every car. -/
def SameView (messages told : List (WsEvent T F)) : Prop :=
  ∀ c, ∀ k ∈ keptFields, (clientView messages c).get k = (clientView told c).get k

theorem SameView.append {messages told : List (WsEvent T F)} (h : SameView messages told)
    (es : List (WsEvent T F)) : SameView (messages ++ es) (told ++ es) := by
  intro c k hk
  rw [get_clientView_append, get_clientView_append, h c k hk]

/-- At a receive, for each of these fields of each car: the channel still holds an event about
it, or the events the receiver has lost would have left it as the client shows it. -/
def LagsHarmlessly (p : Task T F × Session T F) (step : TaskStep T F ⊕ SessionStep) : Prop :=
  step = .inr .receive → ∀ next, p.2.phase = .receiving next → ∀ c, ∀ k ∈ keptFields,
    Harmless (WsEvent.sets c · k) ((clientView p.2.sent c).get k)
      (skipped eventsCapacity p.1.hub.events next) (retained eventsCapacity p.1.hub.events)

theorem skipsSafely_of_lagsHarmlessly {s : Task T F} {w : Session T F}
    (h : LagsHarmlessly (s, w) (.inr .receive)) : SkipsSafely SameView s w := by
  intro next n next' hPhase hRecv told hSame c k hk
  obtain ⟨hNext, hLt, -, -⟩ := recv_lagged hRecv
  rw [hNext] at hLt ⊢
  have hHarmless := harmless_iff.mp (h rfl next hPhase c k hk)
  rw [← hSame c k hk, drop_eq_skipped_append eventsCapacity (Nat.le_of_lt hLt), ← retained,
    get_clientView_append, get_clientView_append]
  exact hHarmless.symm

/-- **Recovery.** In every run whose lags are all harmless, whenever the pipeline is between two
passes and the client has drained the channel, it shows the status, the telemetry and the map
of every car as the server has them. -/
theorem lagged_client_recovers (n : Nat) (steps : List (TaskStep T F ⊕ SessionStep))
    (s : Task T F) (w : Session T F)
    (hRun : (served T F n).exec (Task.new, Session.new) steps = some (s, w))
    (hLags : (served T F n).Meets LagsHarmlessly (Task.new, Session.new) steps)
    (hIdle : s.Idle) (hDrained : w.phase = .receiving s.hub.events.length) (c : String) :
    (clientView w.sent c).status = (s.hub.car c).status ∧
      (clientView w.sent c).telemetry = (s.hub.car c).telemetry ∧
      (clientView w.sent c).map = (s.hub.car c).map := by
  have hFollows : Follows SameView s w :=
    Follows.of_run (C := LagsHarmlessly) (fun _ _ _ _ => rfl) (fun _ _ es h => h.append es)
      (fun _ _ _ h => skipsSafely_of_lagsHarmlessly h) hLags hRun
  have hView : ∀ k ∈ keptFields, (clientView w.sent c).get k = (s.hub.car c).get k := by
    intro k hk
    exact hFollows.view_eq_of_drained (taskInvariant_of_served hRun) hIdle hDrained
      fun messages told hSame => hSame c k hk
  exact ⟨hView .status (by decide), hView .telemetry (by decide), hView .map (by decide)⟩

/-- For one lag the condition is exact: a client that lags here for the first time, with the
pipeline between two passes, shows the server's value of a field after draining the channel
exactly when losing the skipped events is harmless for that field. -/
theorem recovers_iff_harmless {n : Nat} {steps : List (TaskStep T F ⊕ SessionStep)}
    {s : Task T F} {w : Session T F}
    (hRun : (served T F n).exec (Task.new, Session.new) steps = some (s, w))
    (hFirst : w.lagged = []) (hIdle : s.Idle) {next : Nat} (hPhase : w.phase = .receiving next)
    (hBehind : next + eventsCapacity < s.hub.events.length) (c : String) (k : Field) :
    (clientView (w.sent ++ retained eventsCapacity s.hub.events) c).get k = (s.hub.car c).get k ↔
      Harmless (WsEvent.sets c · k) ((clientView w.sent c).get k)
        (skipped eventsCapacity s.hub.events next) (retained eventsCapacity s.hub.events) := by
  have hFollows := follows_eq_of_noLag hRun hFirst
  have hView := hFollows.view_eq (taskInvariant_of_served hRun) hIdle hPhase
    (c := c) (k := k) fun _ _ h => by rw [h]
  rw [← hView, drop_eq_skipped_append eventsCapacity (by omega), get_clientView_append,
    get_clientView_append, harmless_iff]
  exact eq_comm

/-! ## Two runs with a lag -/

/-- A whole pass over an event that is broadcast. -/
def passSteps (e : CarEvent Unit) : List (TaskStep Unit ℚ ⊕ SessionStep) :=
  [.inl (.begin (.event e 0 none)), .inl .act, .inl .act, .inl .act]

/-- A session that connects and receives nothing yet. -/
def connectSteps : List (TaskStep Unit ℚ ⊕ SessionStep) :=
  [.inr .subscribe, .inr .snapshot, .inr .sendOk]

/-- The events of another car. -/
def chatter (k : Nat) : List (TaskStep Unit ℚ ⊕ SessionStep) :=
  (List.replicate k (passSteps ⟨"b", 0, .telemetry ()⟩)).flatten

/-- A client that receives `k` events. -/
def drainSteps (k : Nat) : List (TaskStep Unit ℚ ⊕ SessionStep) :=
  (List.replicate k [.inr .receive, .inr .sendOk]).flatten

theorem exec_chatter (k : Nat) {s : Task Unit ℚ} {l : Locals ℚ} (hIdle : s.prog = .ret l)
    (w : Session Unit ℚ) : ∃ s', (served Unit ℚ 0).exec (s, w) (chatter k) = some (s', w) ∧
      s'.prog = .ret l ∧
      s'.hub.events = s.hub.events ++ List.replicate k (.telemetry "b" () 0) ∧
      s'.hub.car "a" = s.hub.car "a" := by
  induction k generalizing s with
  | zero => exact ⟨s, rfl, hIdle, by simp, rfl⟩
  | succ k ih =>
      obtain ⟨hub, prog, log⟩ := s
      obtain rfl : prog = .ret l := hIdle
      obtain ⟨s₁, hPass, hProg, hEvents, hCar⟩ : ∃ s₁, (served Unit ℚ 0).exec
          (⟨hub, .ret l, log⟩, w) (passSteps ⟨"b", 0, .telemetry ()⟩) = some (s₁, w) ∧
          s₁.prog = .ret l ∧ s₁.hub.events = hub.events ++ [.telemetry "b" () 0] ∧
          s₁.hub.car "a" = hub.car "a" := by
        refine ⟨_, rfl, rfl, rfl, ?_⟩
        exact (Hub.car_updateCar_ne _ "b" _ (by decide)).trans
          (Hub.car_updateCar_ne _ "b" _ (by decide))
      obtain ⟨s', hRest, hProg', hEvents', hCar'⟩ := ih hProg
      refine ⟨s', ?_, hProg', ?_, hCar'.trans hCar⟩
      · rw [chatter, List.replicate_succ, List.flatten_cons, Machine.exec_append, hPass]
        exact hRest
      · rw [hEvents', hEvents, List.replicate_succ, List.append_assoc]
        rfl

theorem exec_drainSteps (k : Nat) (s : Task Unit ℚ) (next : Nat) (sent : List (WsEvent Unit ℚ))
    (lagged : List Nat) (helloAt : Nat) (hLen : s.hub.events.length = next + k)
    (hk : k ≤ eventsCapacity) :
    (served Unit ℚ 0).exec (s, ⟨.receiving next, sent, lagged, helloAt⟩) (drainSteps k) =
        some (s, ⟨.receiving (next + k), sent ++ s.hub.events.drop next, lagged, helloAt⟩) ∧
      (served Unit ℚ 0).Meets LagsHarmlessly (s, ⟨.receiving next, sent, lagged, helloAt⟩)
        (drainSteps k) := by
  induction k generalizing next sent with
  | zero =>
      refine ⟨?_, trivial⟩
      rw [List.drop_eq_nil_of_le (by omega), List.append_nil]
      rfl
  | succ k ih =>
      have hLt : next < s.hub.events.length := by omega
      have hRecv : recv eventsCapacity s.hub.events next =
          some (.value s.hub.events[next], next + 1) := by
        rw [recv, if_neg (by omega), List.getElem?_eq_getElem hLt]
        rfl
      have hPair : (served Unit ℚ 0).exec (s, ⟨.receiving next, sent, lagged, helloAt⟩)
          [.inr .receive, .inr .sendOk] =
          some (s, ⟨.receiving (next + 1), sent ++ [s.hub.events[next]], lagged, helloAt⟩) := by
        simp [Machine.exec_cons, Machine.watch, session, hRecv]
      obtain ⟨hRest, hMeets⟩ := ih (next + 1) (sent ++ [s.hub.events[next]]) (by omega) (by omega)
      rw [drainSteps, List.replicate_succ, List.flatten_cons]
      refine ⟨?_, Machine.meets_append hPair ⟨?_, ?_⟩ hMeets⟩
      · rw [Machine.exec_append, hPair]
        refine hRest.trans ?_
        rw [List.append_assoc, List.singleton_append, List.drop_eq_getElem_cons hLt,
          Nat.add_right_comm next 1 k, Nat.add_assoc next k 1]
      · -- nothing is skipped
        intro _ next' hPhase c k' _
        cases hPhase
        refine Or.inr ?_
        rw [skipped, List.drop_eq_nil_of_le]
        · rfl
        · rw [List.length_take]
          dsimp only
          omega
      · exact fun s' _ => ⟨fun h => (by cases h), fun _ _ => trivial⟩

/-- The client is shown car `a` online, then an event is lost to the chatter of `b`. -/
def lagSteps (lost : CarEvent Unit) : List (TaskStep Unit ℚ ⊕ SessionStep) :=
  passSteps ⟨"a", 0, .status "online"⟩ ++ connectSteps ++ passSteps lost ++
    (chatter eventsCapacity ++ (.inr .receive :: drainSteps eventsCapacity))

/-- In such a run the first receive reports one lost event, and the client ends with the chatter
of `b` alone. -/
theorem exec_lagSteps (lost : CarEvent Unit) {s₁ : Task Unit ℚ} {l : Locals ℚ}
    {hello e : WsEvent Unit ℚ}
    (hStart : (served Unit ℚ 0).exec (Task.new, Session.new)
      (passSteps ⟨"a", 0, .status "online"⟩ ++ connectSteps ++ passSteps lost) =
        some (s₁, ⟨.receiving 1, [hello], [], 3⟩))
    (hIdle : s₁.prog = .ret l) (hEvents : s₁.hub.events = [.status "a" "online", e]) :
    ∃ s, (served Unit ℚ 0).exec (Task.new, Session.new) (lagSteps lost) =
        some (s, ⟨.receiving s.hub.events.length,
          [hello] ++ List.replicate eventsCapacity (.telemetry "b" () 0), [1], 3⟩) ∧
      s.Idle ∧ s.hub.car "a" = s₁.hub.car "a" ∧
      ((∀ c, ∀ k ∈ keptFields, Harmless (WsEvent.sets c · k) ((clientView [hello] c).get k) [e]
          (List.replicate eventsCapacity (.telemetry "b" () 0))) →
        (served Unit ℚ 0).Meets LagsHarmlessly (Task.new, Session.new) (lagSteps lost)) := by
  obtain ⟨s, hChatter, hProg, hAll, hCar⟩ :=
    exec_chatter eventsCapacity hIdle ⟨.receiving 1, [hello], [], 3⟩
  rw [hEvents] at hAll
  have hLen : s.hub.events.length = 2 + eventsCapacity := by
    rw [hAll, List.length_append, List.length_replicate]
    rfl
  have hRecv : recv eventsCapacity s.hub.events 1 = some (.lagged 1, 2) := by
    rw [recv, if_pos (by omega), hLen, Nat.add_sub_cancel]
  have hLag : (served Unit ℚ 0).step (s, ⟨.receiving 1, [hello], [], 3⟩) (.inr .receive) =
      some (s, ⟨.receiving 2, [hello], [1], 3⟩) := by
    simp [Machine.watch, session, hRecv]
  have hLeft : s.hub.events.drop 2 = List.replicate eventsCapacity (.telemetry "b" () 0) := by
    rw [hAll]
    rfl
  obtain ⟨hDrain, hDrainMeets⟩ := exec_drainSteps eventsCapacity s 2 [hello] [1] 3 hLen le_rfl
  refine ⟨s, ?_, ⟨l, hProg⟩, hCar, fun hHarmless => ?_⟩
  · rw [lagSteps, Machine.exec_append, hStart, Option.bind_some, Machine.exec_append, hChatter,
      Option.bind_some, Machine.exec_cons, hLag, Option.bind_some, hDrain, hLeft, hLen]
  · refine Machine.meets_append hStart (Machine.meets_of_forall ?_ _)
      (Machine.meets_append hChatter (Machine.meets_of_forall ?_ _) ⟨?_, ?_⟩)
    · intro step hStep p hReceive
      subst hReceive
      simp [passSteps, connectSteps] at hStep
    · intro step hStep p hReceive
      subst hReceive
      simp [chatter, passSteps] at hStep
    · intro _ next hPhase c k hk
      cases hPhase
      rw [skipped, retained, hLen, Nat.add_sub_cancel, hLeft, hAll]
      exact hHarmless c k hk
    · intro p hp
      cases hLag.symm.trans hp
      exact hDrainMeets

/-- Here the lost event is a telemetry record of `b`, which the channel still holds others of. -/
theorem lagged_client_recovers_telemetry :
    ∃ s w, (served Unit ℚ 0).exec (Task.new, Session.new) (lagSteps ⟨"b", 0, .telemetry ()⟩) =
        some (s, w) ∧ w.lagged = [1] ∧ ∀ c,
      (clientView w.sent c).status = (s.hub.car c).status ∧
        (clientView w.sent c).telemetry = (s.hub.car c).telemetry ∧
        (clientView w.sent c).map = (s.hub.car c).map := by
  obtain ⟨s, hRun, hIdle, -, hMeets⟩ := exec_lagSteps ⟨"b", 0, .telemetry ()⟩ rfl rfl rfl
  refine ⟨s, _, hRun, rfl, fun c =>
    lagged_client_recovers 0 _ s _ hRun (hMeets fun c k _ => ?_) hIdle rfl c⟩
  by_cases hTold : c = "b" ∧ k = .telemetry
  · obtain ⟨rfl, rfl⟩ := hTold
    exact Or.inl ⟨_, List.mem_replicate.mpr ⟨by decide, rfl⟩, by decide⟩
  · refine Or.inr (latest_of_none (fun e he => ?_) _)
    rw [List.mem_singleton.mp he]
    cases k with
    | telemetry => exact if_neg fun hCar => hTold ⟨hCar.symm, rfl⟩
    | status => rfl
    | pose => rfl
    | scan => rfl
    | map => rfl
    | scanHz => rfl

/-- A car goes offline, and the one event that says so is lost: the client, connected all the
time and up to date with the channel, still shows the car online. -/
theorem lagged_client_shows_old_status :
    ∃ s w, (served Unit ℚ 0).exec (Task.new, Session.new) (lagSteps ⟨"a", 1, .status "offline"⟩) =
        some (s, w) ∧ w.lagged = [1] ∧ s.Idle ∧ w.phase = .receiving s.hub.events.length ∧
      (s.hub.car "a").status = "offline" ∧ (clientView w.sent "a").status = "online" := by
  obtain ⟨s, hRun, hIdle, hCar, -⟩ := exec_lagSteps ⟨"a", 1, .status "offline"⟩ rfl rfl rfl
  refine ⟨s, _, hRun, rfl, hIdle, rfl, by rw [hCar]; rfl, ?_⟩
  have hSilent : ∀ e ∈ List.replicate eventsCapacity (WsEvent.telemetry "b" () 0 : WsEvent Unit ℚ),
      e.sets "a" .status = none := by
    intro e he
    rw [List.eq_of_mem_replicate he]
    rfl
  refine (get_clientView_append _ _ "a" .status).trans ?_
  rw [latest_of_none hSilent]
  rfl

end OlivawHub
