import OlivawHub.System.Broker

/-!
# The link to the broker

The client of the ingest connects again whenever its connection breaks; the broker then knows
nothing of its subscription, and hands it what it retains once it has subscribed again. Whatever
breaks and whatever is lost, the ingest that takes itself for subscribed is so, and once nothing is
on its way any more the hub shows the status that the broker retains (`quiet_link_is_current`).
-/

namespace OlivawHub

open Foundations

variable {T F : Type}

/-- What the broker sends to the client. -/
inductive Packet where
  | connAck
  | publish (m : Message)
  deriving DecidableEq

def Packet.message? : Packet → Option Message
  | .connAck => none
  | .publish m => some m

/-- The messages among the packets. -/
def inFlight (packets : List Packet) : List Message := packets.filterMap Packet.message?

/-- The broker, the connection, and the ingest. -/
structure Link (T : Type) where
  /-- What all clients published on the topics the ingest subscribes to. -/
  published : List Message
  /-- The client has a connection; the broker knows a subscription for it. -/
  session : Option Bool
  /-- On the way to the client. -/
  packets : List Packet
  /-- Subscriptions on the way to the broker. -/
  requests : Nat
  ingest : MqttIngest T
  /-- The messages that `poll` returned. A history variable, as is `missed`. -/
  polled : List Message
  /-- The messages that were not passed on since the broker last answered a subscription. -/
  missed : List Message

def Link.new : Link T := ⟨[], none, [], 0, MqttIngest.new, [], []⟩

/-- What the broker retains. An empty payload clears the topic. -/
def retainedBy (published : List Message) : List Message :=
  retainedOf Message.topic Message.retain (fun m => m.payload.isEmpty) published

inductive LinkStep where
  /-- Some client publishes. With `QoS::AtMostOnce` the message need not reach the ingest. -/
  | publish (m : Message) (reaches : Bool)
  | connect
  /-- The connection breaks; some subscriptions are still to be sent. -/
  | disconnect (requests : Nat)
  /-- The broker takes a subscription, and sends what it retains in some order. -/
  | subscribe (batch : List Message)
  /-- One turn of the ingest. -/
  | turn (t : MqttTurn)

/-- What `poll` takes from the packets. -/
def pollFrom (crates : MqttCrates T) (packets : List Packet) (t : MqttTurn) :
    Option (List Packet × Option Message) :=
  match t.poll, packets with
  | .connAck, .connAck :: rest => some (rest, none)
  | .publish topic payload, .publish m :: rest =>
      if (crates.fromUtf8Lossy topic, payload) = m.wire then some (rest, some m) else none
  | .other, packets => some (packets, none)
  | .err, packets => some (packets, none)
  | _, _ => none

/-- The link, one step at a time. -/
def link (crates : MqttCrates T) : Machine (Link T) LinkStep where
  step s
    | .publish m reaches =>
        if s.session = some true ∧ reaches = true then
          some { s with published := s.published ++ [m], packets := s.packets ++ [.publish m] }
        else some { s with published := s.published ++ [m], missed := s.missed ++ [m] }
    | .connect =>
        if s.session = none then some { s with session := some false, packets := [.connAck] }
        else none
    | .disconnect requests =>
        if requests ≤ s.requests then some { s with session := none, packets := [], requests }
        else none
    | .subscribe batch =>
        if s.session.isSome ∧ 0 < s.requests ∧ batch.Perm (retainedBy s.published) then
          some { s with
            session := some true
            packets := s.packets ++ batch.map .publish
            requests := s.requests - 1
            missed := [] }
        else none
    | .turn t =>
        (pollFrom crates s.packets t).bind fun (packets, message) =>
          ((mqttIngest crates).step s.ingest t).map fun ingest =>
            { s with
              packets
              requests := s.requests + if s.ingest.attempt crates t = some true then 1 else 0
              ingest
              polled := s.polled ++ message.toList }

/-- The turns of the ingest. -/
def turnsOf (steps : List LinkStep) : List MqttTurn :=
  steps.filterMap fun
    | .turn t => some t
    | _ => none

/-- The client is connected and subscribed as far as it knows, and nothing is on its way. -/
structure Link.Quiet (s : Link T) : Prop where
  connected : s.session.isSome
  packets : s.packets = []
  requests : s.requests = 0
  running : s.ingest.running = true
  subscribed : s.ingest.subscribed = true

variable {crates : MqttCrates T} {s s' : Link T} {l : LinkStep} {steps : List LinkStep}

theorem pollFrom_cases {packets rest : List Packet} {t : MqttTurn} {message : Option Message}
    (h : pollFrom crates packets t = some (rest, message)) :
    inFlight packets = message.toList ++ inFlight rest ∧
      t.publish? crates = message.map Message.wire ∧
      (.connAck ∈ packets → .connAck ∈ rest ∨ t.connAck = true) := by
  unfold pollFrom at h
  split at h
  · rename_i hPoll
    cases h
    exact ⟨rfl, by rw [MqttTurn.publish?, hPoll]; rfl, fun _ => Or.inr (by
      rw [MqttTurn.connAck, hPoll])⟩
  · rename_i topic payload m rest' hPoll
    split at h
    · rename_i hWire
      cases h
      refine ⟨rfl, ?_, fun hMem => Or.inl ?_⟩
      · rw [MqttTurn.publish?, hPoll, Option.map_some, ← hWire]
      · exact (List.mem_cons.mp hMem).resolve_left (by simp)
    · cases h
  · rename_i hPoll
    cases h
    exact ⟨rfl, by rw [MqttTurn.publish?, hPoll]; rfl, Or.inl⟩
  · rename_i hPoll
    cases h
    exact ⟨rfl, by rw [MqttTurn.publish?, hPoll]; rfl, Or.inl⟩
  · cases h

theorem inFlight_append (packets more : List Packet) :
    inFlight (packets ++ more) = inFlight packets ++ inFlight more := List.filterMap_append

theorem inFlight_publish (batch : List Message) : inFlight (batch.map .publish) = batch := by
  rw [inFlight, List.filterMap_map]
  exact List.filterMap_some

theorem turnsOf_concat (steps : List LinkStep) (l : LinkStep) :
    turnsOf (steps ++ [l]) = turnsOf steps ++ turnsOf [l] := List.filterMap_append

theorem turnsOf_concat_none (h : turnsOf [l] = []) : turnsOf (steps ++ [l]) = turnsOf steps := by
  rw [turnsOf_concat, h, List.append_nil]

theorem publishesIn_concat (crates : MqttCrates T) (turns : List MqttTurn) (t : MqttTurn) :
    publishesIn crates (turns ++ [t]) =
      publishesIn crates turns ++ (t.publish? crates).toList := filterMap_concat_toList ..

/-! ## What every run keeps -/

/-- The ingest takes itself for subscribed only where it is, or soon will be. -/
def Link.Heard (s : Link T) : Prop :=
  s.session = some false →
    0 < s.requests ∨ .connAck ∈ s.packets ∨ s.ingest.subscribed = false

structure Link.Invariant (crates : MqttCrates T) (steps : List LinkStep) (s : Link T) : Prop where
  turns : (mqttIngest crates).exec MqttIngest.new (turnsOf steps) = some s.ingest
  polled : publishesIn crates (turnsOf steps) = s.polled.map Message.wire
  delivered : BrokerDelivers (fun _ => True) s.published (s.polled ++ inFlight s.packets)
  heard : s.Heard

namespace Link.Invariant

theorem new (crates : MqttCrates T) : Invariant crates [] (Link.new : Link T) :=
  ⟨rfl, rfl, .nil, nofun⟩

/-- All that is retained is handed over again. -/
theorem again {published arrived batch : List Message}
    (h : BrokerDelivers (fun _ => True) published arrived)
    (hBatch : ∀ m ∈ batch, m ∈ retainedBy published) :
    BrokerDelivers (fun _ => True) published (arrived ++ batch) := by
  induction batch using List.reverseRecOn with
  | nil => rwa [List.append_nil]
  | append_singleton batch m ih =>
      have hBefore := ih fun x hx => hBatch x (List.mem_append_left _ hx)
      obtain ⟨hKept, before, after, rfl, hLatest⟩ :=
        exists_of_mem_retainedOf (hBatch m List.mem_concat_self)
      rw [← List.append_assoc]
      exact .again hBefore hKept hLatest

/-- A turn of the ingest. -/
theorem turn (h : Invariant crates steps s) {t : MqttTurn}
    (hStep : (link crates).step s (.turn t) = some s') :
    Invariant crates (steps ++ [.turn t]) s' := by
  obtain ⟨⟨packets, message⟩, hPoll, hTurn⟩ := Option.bind_eq_some_iff.mp hStep
  obtain ⟨ingest, hIngest, rfl⟩ := Option.map_eq_some_iff.mp hTurn
  obtain ⟨hFlight, hPublish, hAck⟩ := pollFrom_cases hPoll
  have hTurns : turnsOf (steps ++ [.turn t]) = turnsOf steps ++ [t] := turnsOf_concat ..
  refine ⟨?_, ?_, ?_, ?_⟩
  · rw [hTurns, Machine.exec_snoc, h.turns, Option.bind_some]
    exact hIngest
  · rw [hTurns, publishesIn_concat, h.polled, hPublish, List.map_append]
    cases message <;> rfl
  · have hDelivered := h.delivered
    rw [hFlight, ← List.append_assoc] at hDelivered
    exact hDelivered
  · intro hSession
    show 0 < s.requests + _ ∨ .connAck ∈ packets ∨ ingest.subscribed = false
    rcases mqtt_cases hIngest with ⟨_, -, -, hNoAck, rfl, -⟩ | ⟨-, hNoAck, -, rfl, -⟩ |
      ⟨kept, -, hKept, rfl, hAttempt⟩
    · rw [hNoAck] at hAck
      refine (h.heard hSession).imp (fun hPos => by omega) fun hRest => ?_
      exact hRest.imp (fun hMem => (hAck hMem).resolve_right Bool.false_ne_true) id
    · rw [hNoAck] at hAck
      refine (h.heard hSession).imp (fun hPos => by omega) fun hRest => ?_
      exact hRest.imp (fun hMem => (hAck hMem).resolve_right Bool.false_ne_true) id
    · rw [hAttempt]
      cases kept with
      | false =>
          cases hTry : t.subscribes with
          | true =>
              refine Or.inl ?_
              rw [if_neg Bool.false_ne_true, if_pos rfl]
              exact Nat.succ_pos _
          | false => exact Or.inr (Or.inr rfl)
      | true =>
          obtain ⟨hSubscribed, hNoAck⟩ := Bool.and_eq_true_iff.mp hKept.symm
          rcases h.heard hSession with hPos | hMem | hNot
          · exact Or.inl (Nat.lt_of_lt_of_le hPos (Nat.le_add_right _ _))
          · refine Or.inr (Or.inl ((hAck hMem).resolve_right fun hAck => ?_))
            rw [hAck] at hNoAck
            cases hNoAck
          · rw [hSubscribed] at hNot
            cases hNot

theorem step (h : Invariant crates steps s) (hStep : (link crates).step s l = some s') :
    Invariant crates (steps ++ [l]) s' := by
  cases l with
  | turn t => exact h.turn hStep
  | publish m reaches =>
      have hTurns : turnsOf (steps ++ [.publish m reaches]) = turnsOf steps :=
        turnsOf_concat_none rfl
      simp only [link] at hStep
      split at hStep
      · cases hStep
        refine ⟨hTurns ▸ h.turns, hTurns ▸ h.polled, ?_, fun hSession => ?_⟩
        · rw [inFlight_append, ← List.append_assoc]
          exact .passed m h.delivered
        · exact (h.heard hSession).imp id fun hRest => hRest.imp (List.mem_append_left _) id
      · cases hStep
        exact ⟨hTurns ▸ h.turns, hTurns ▸ h.polled, .lost m h.delivered trivial, h.heard⟩
  | connect =>
      have hTurns : turnsOf (steps ++ [.connect]) = turnsOf steps := turnsOf_concat_none rfl
      obtain ⟨-, hEq⟩ := Option.ite_none_right_eq_some.mp hStep
      cases hEq
      refine ⟨hTurns ▸ h.turns, hTurns ▸ h.polled, ?_, fun _ => Or.inr (Or.inl List.mem_cons_self)⟩
      exact Relayed.of_isPrefix h.delivered (fun _ => trivial)
        ((List.prefix_append_right_inj _).mpr List.nil_prefix)
  | disconnect requests =>
      have hTurns : turnsOf (steps ++ [.disconnect requests]) = turnsOf steps :=
        turnsOf_concat_none rfl
      obtain ⟨-, hEq⟩ := Option.ite_none_right_eq_some.mp hStep
      cases hEq
      refine ⟨hTurns ▸ h.turns, hTurns ▸ h.polled, ?_, nofun⟩
      exact Relayed.of_isPrefix h.delivered (fun _ => trivial)
        ((List.prefix_append_right_inj _).mpr List.nil_prefix)
  | subscribe batch =>
      have hTurns : turnsOf (steps ++ [.subscribe batch]) = turnsOf steps := turnsOf_concat_none rfl
      obtain ⟨⟨-, -, hBatch⟩, hEq⟩ := Option.ite_none_right_eq_some.mp hStep
      cases hEq
      refine ⟨hTurns ▸ h.turns, hTurns ▸ h.polled, ?_, nofun⟩
      rw [inFlight_append, inFlight_publish, ← List.append_assoc]
      exact again h.delivered fun m hm => hBatch.subset hm

theorem of_run (hRun : (link crates).exec Link.new steps = some s) : Invariant crates steps s :=
  Machine.exec_history (new crates) (fun _ _ _ _ _ h hStep => h.step hStep) hRun

end Link.Invariant

/-! ## What comes last -/

/-- Since the last subscription nothing of the kind was missed, and what came last is what the
broker keeps. -/
def Link.Caught {β : Type} (g : Message → Option β) (s : Link T) : Prop :=
  s.session = some true → (∀ m ∈ s.missed, g m = none) →
    CaughtUp Message.topic Message.retain (fun m => m.payload.isEmpty) g s.published
      (s.polled ++ inFlight s.packets)

theorem Link.Caught.step {β : Type} {g : Message → Option β} {k : String}
    (hKept : ∀ m ∈ s.published, g m ≠ none → m.topic = k ∧ m.retain = true) (h : s.Caught g)
    (hStep : (link crates).step s l = some s') : s'.Caught g := by
  cases l with
  | turn t =>
      obtain ⟨⟨packets, message⟩, hPoll, hTurn⟩ := Option.bind_eq_some_iff.mp hStep
      obtain ⟨ingest, -, rfl⟩ := Option.map_eq_some_iff.mp hTurn
      obtain ⟨hFlight, -, -⟩ := pollFrom_cases hPoll
      intro hSession hMissed
      have hBefore := h hSession hMissed
      rw [hFlight, ← List.append_assoc] at hBefore
      exact hBefore
  | publish m reaches =>
      simp only [link] at hStep
      split at hStep
      · cases hStep
        intro hSession hMissed
        rw [inFlight_append, ← List.append_assoc]
        exact (h hSession hMissed).passed m
      · cases hStep
        intro hSession hMissed
        have hBefore := h hSession fun x hx => hMissed x (List.mem_append_left _ hx)
        exact hBefore.concat_none (hMissed m List.mem_concat_self)
  | connect =>
      obtain ⟨-, hEq⟩ := Option.ite_none_right_eq_some.mp hStep
      cases hEq
      nofun
  | disconnect requests =>
      obtain ⟨-, hEq⟩ := Option.ite_none_right_eq_some.mp hStep
      cases hEq
      nofun
  | subscribe batch =>
      obtain ⟨⟨-, -, hBatch⟩, hEq⟩ := Option.ite_none_right_eq_some.mp hStep
      cases hEq
      intro _ _
      rw [inFlight_append, inFlight_publish, ← List.append_assoc]
      exact CaughtUp.subscribed hBatch hKept _

theorem published_isPrefix (hStep : (link crates).step s l = some s') :
    s.published <+: s'.published := by
  cases l with
  | turn t =>
      obtain ⟨_, -, hTurn⟩ := Option.bind_eq_some_iff.mp hStep
      obtain ⟨_, -, rfl⟩ := Option.map_eq_some_iff.mp hTurn
      exact List.prefix_rfl
  | publish m reaches =>
      simp only [link] at hStep
      split at hStep <;> cases hStep <;> exact List.prefix_append _ _
  | connect =>
      obtain ⟨-, hEq⟩ := Option.ite_none_right_eq_some.mp hStep
      cases hEq
      exact List.prefix_rfl
  | disconnect requests =>
      obtain ⟨-, hEq⟩ := Option.ite_none_right_eq_some.mp hStep
      cases hEq
      exact List.prefix_rfl
  | subscribe batch =>
      obtain ⟨-, hEq⟩ := Option.ite_none_right_eq_some.mp hStep
      cases hEq
      exact List.prefix_rfl

theorem Link.Caught.of_run {β : Type} {g : Message → Option β} {k : String}
    (hRun : (link crates).exec Link.new steps = some s)
    (hKept : ∀ m ∈ s.published, g m ≠ none → m.topic = k ∧ m.retain = true) : s.Caught g := by
  refine Machine.exec_history (P := fun _ s =>
    (∀ m ∈ s.published, g m ≠ none → m.topic = k ∧ m.retain = true) → s.Caught g) ?_ ?_ hRun hKept
  · intro _ hSession
    cases hSession
  intro _ s l s' _ ih hStep hKept
  have hBefore := fun m hm => hKept m ((published_isPrefix hStep).subset hm)
  exact (ih hBefore).step hBefore hStep

theorem Link.Quiet.session {T : Type} {crates : MqttCrates T} {s : Link T} {steps : List LinkStep}
    (h : s.Quiet) (hInv : Link.Invariant crates steps s) : s.session = some true := by
  have hConnected := h.connected
  cases hSession : s.session with
  | none =>
      rw [hSession] at hConnected
      cases hConnected
  | some known =>
      cases known with
      | true => rfl
      | false =>
          rcases hInv.heard hSession with hPos | hMem | hNot
          · rw [h.requests] at hPos
            cases hPos
          · rw [h.packets] at hMem
            cases hMem
          · rw [h.subscribed] at hNot
            cases hNot

variable [HubFloat F]

/-- The status of a car is the last one received. -/
theorem status_of_run {n : Nat} {inputs : List (Input T F)} {p : Pipeline T F}
    (hRun : (pipeline T F n).exec Pipeline.new inputs = some p) (c : String) :
    (p.hub.car c).status =
      ((kindsOf c (eventsOf inputs)).filterMap EventKind.status?).getLast?.getD "unknown" := by
  rw [((CarLog.Invariant.of_run hRun).describes c).status, carLog_events, statuses_kindsOf]
  rfl

/-- **The link.** Messages and connections may be lost at any time. What the ingest polls is what a
broker delivers whose subscriber subscribed again and again; and whenever the client is connected,
takes itself for subscribed and nothing is on its way, then, provided no status of the car was lost
since the broker last answered a subscription, the hub shows the status that the broker retains,
once it has taken in what the ingest sent. -/
theorem quiet_link_is_current (crates : MqttCrates T) (c statusTopic : String)
    (steps : List LinkStep) (s : Link T) (hRun : (link crates).exec Link.new steps = some s)
    (hPublished : PublishedAs crates c statusTopic s.published) (n : Nat)
    (inputs : List (Input T F)) (p : Pipeline T F)
    (hPipeline : (pipeline T F n).exec Pipeline.new inputs = some p)
    (hInputs : kindsOf c (eventsOf inputs) = kindsOf c s.ingest.sent) :
    BrokerDelivers (fun _ => True) s.published s.polled ∧
      publishesIn crates (turnsOf steps) = s.polled.map Message.wire ∧
      (mqttIngest crates).exec MqttIngest.new (turnsOf steps) = some s.ingest ∧
      (s.Quiet → (∀ m ∈ s.missed, ∀ text, m.tells crates c ≠ some (.status text)) →
        ∀ m ∈ retainedBy s.published, ∀ text, m.tells crates c = some (.status text) →
          (p.hub.car c).status = text) := by
  have hInv := Link.Invariant.of_run hRun
  refine ⟨Relayed.of_isPrefix hInv.delivered (fun _ => trivial) (List.prefix_append _ _),
    hInv.polled, hInv.turns, fun hQuiet hMissed m hm text hTells => ?_⟩
  have hCaught := Link.Caught.of_run hRun hPublished.retained (hQuiet.session hInv) fun x hx => by
    cases hKind : x.tells crates c with
    | none => rfl
    | some kind =>
        cases kind with
        | status text => exact absurd hKind (hMissed x hx text)
        | telemetry t => rfl
        | scan frame => rfl
  have hLast := hCaught.getLast?_eq hPublished.retained hm (b := text) (by rw [hTells]; rfl)
  rw [hQuiet.packets, show s.polled ++ inFlight [] = s.polled from List.append_nil _] at hLast
  have hSent : s.ingest.sent = decodedIn crates (turnsOf steps) := by
    rcases (MqttInvariant.of_run hInv.turns).forwarded with ⟨-, hSent⟩ | ⟨_, _, _, hStopped, -⟩
    · exact hSent
    · rw [hQuiet.running] at hStopped
      cases hStopped
  rw [status_of_run hPipeline, hInputs, hSent, kindsOf_decodedIn hInv.polled, filterMap_said, hLast]
  rfl

/-- The car is there before the hub; its `offline` is lost, and the connection breaks. -/
def healedLink : List LinkStep :=
  [.publish onlineMessage true, .connect, .turn ⟨.connAck, 0, true, true⟩,
    .subscribe [onlineMessage],
    .turn ⟨.publish (intoBytes "olivaw/a/status") (intoBytes "online"), 1, true, true⟩,
    .publish offlineMessage false, .disconnect 0, .turn ⟨.err, 2, true, true⟩, .connect,
    .turn ⟨.connAck, 3, true, true⟩, .subscribe [offlineMessage],
    .turn ⟨.publish (intoBytes "olivaw/a/status") (intoBytes "offline"), 4, true, true⟩]

def healedInputs : List (Input UInt8 ℚ) :=
  [.event ⟨"a", 1, .status "online"⟩ 0 none, .event ⟨"a", 4, .status "offline"⟩ 0 none]

theorem quiet_link_is_current_healed :
    ∃ s p, (link carCrates).exec Link.new healedLink = some s ∧
      (pipeline UInt8 ℚ 5).exec Pipeline.new healedInputs = some p ∧ s.Quiet ∧
      retainedBy s.published = [offlineMessage] ∧ (p.hub.car "a").status = "offline" := by
  obtain ⟨s, hRun, hPublished, hKinds, hQuiet, hMissed, hRetained⟩ :
      ∃ s, (link carCrates).exec Link.new healedLink = some s ∧
        s.published = [onlineMessage, offlineMessage] ∧
        kindsOf "a" (eventsOf healedInputs) = kindsOf "a" s.ingest.sent ∧ s.Quiet ∧
        s.missed = [] ∧ retainedBy s.published = [offlineMessage] :=
    ⟨_, rfl, rfl, rfl, ⟨rfl, rfl, rfl, rfl, rfl⟩, rfl, rfl⟩
  have hSent : PublishedAs carCrates "a" "olivaw/a/status" s.published := by
    rw [hPublished]
    exact ⟨by decide, by decide⟩
  obtain ⟨-, -, -, hStatus⟩ := quiet_link_is_current (F := ℚ) carCrates "a" "olivaw/a/status"
    healedLink s hRun hSent 5 healedInputs _ rfl hKinds
  refine ⟨s, _, hRun, rfl, hQuiet, hRetained, ?_⟩
  exact hStatus hQuiet (by rw [hMissed]; nofun) offlineMessage
    (hRetained ▸ List.mem_cons_self) "offline" rfl

end OlivawHub
