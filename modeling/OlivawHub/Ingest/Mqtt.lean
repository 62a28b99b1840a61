import OlivawHub.Ingest.Events
import OlivawHub.Foundations.Machines
import OlivawHub.Foundations.Lists
import OlivawHub.Foundations.Renewals

/-!
# The MQTT ingest

The loop in `spawn` of `mqtt.rs`, one turn at a time, and `CarEvent::decode`. The broker decides
what a turn gets: the result of `poll`, whether a `subscribe` goes through, and whether the
pipeline still receives. After a `ConnAck` the loop subscribes again, and it goes on trying while
that fails (`mqtt_resubscribes`).
-/

namespace OlivawHub

open Foundations

/-- The last part of a topic. -/
inductive Channel where
  | status
  | telemetry
  | scan
  | cmd
  deriving DecidableEq, Repr

/-- The decoders of other crates. -/
structure MqttCrates (T : Type) where
  fromUtf8Lossy : List UInt8 → String
  /-- `topics::parse`: the car and the channel. -/
  parse : String → Option (String × Channel)
  telemetry : List UInt8 → Option T
  scanFrame : List UInt8 → Option ScanFrame

variable {T : Type}

/-- Decode an MQTT message; `none` for foreign topics or undecodable payloads. -/
def CarEvent.decode (crates : MqttCrates T) (now : UInt64) (topic : String)
    (payload : List UInt8) : Option (CarEvent T) :=
  (crates.parse topic).bind fun p =>
    let kind : Option (EventKind T) := match p.2 with
      | .status => some (.status (crates.fromUtf8Lossy payload))
      | .telemetry => (crates.telemetry payload).map .telemetry
      | .scan => (crates.scanFrame payload).map .scan
      | .cmd => none
    kind.map fun kind => ⟨p.1, now, kind⟩

/-- What `poll` returns. -/
inductive PollResult where
  | connAck
  | publish (topic payload : List UInt8)
  /-- Any other packet, sent or received. -/
  | other
  | err

/-- What one turn of the loop gets from outside. -/
structure MqttTurn where
  poll : PollResult
  now : UInt64
  /-- The pipeline still receives. -/
  isOpen : Bool
  /-- A `subscribe` goes through. -/
  subscribes : Bool

/-- The turn brings a `ConnAck`. -/
def MqttTurn.connAck (t : MqttTurn) : Bool :=
  match t.poll with
  | .connAck => true
  | _ => false

/-- The ingest task at the head of its loop. -/
structure MqttIngest (T : Type) where
  subscribed : Bool
  running : Bool
  /-- What was sent into the channel. -/
  sent : List (CarEvent T)

def MqttIngest.new : MqttIngest T := ⟨false, true, []⟩

/-- How an arm of the `match` on `poll` is left. -/
inductive MqttFlow (T : Type) where
  | next (s : MqttIngest T)
  | continue (s : MqttIngest T)
  | return (s : MqttIngest T)

namespace MqttIngest

/-- The event of a turn, if it brings one. -/
def accepted (crates : MqttCrates T) (t : MqttTurn) : Option (CarEvent T) :=
  match t.poll with
  | .publish topic payload =>
      CarEvent.decode crates t.now (crates.fromUtf8Lossy topic) payload
  | _ => none

/-- The `match` on `poll`. -/
def arm (crates : MqttCrates T) (s : MqttIngest T) (t : MqttTurn) : MqttFlow T :=
  match t.poll with
  | .connAck => .next { s with subscribed := false }
  | .publish _ _ =>
      if let some event := accepted crates t then
        if t.isOpen then .next { s with sent := s.sent ++ [event] }
        else .return { s with running := false }
      else .next s
  | .other => .next s
  | .err => .continue s

/-- What follows the `match`. -/
def subscribe (s : MqttIngest T) (t : MqttTurn) : MqttIngest T :=
  if s.subscribed then s else { s with subscribed := t.subscribes }

/-- The result of the `subscribe` call of a turn, if it makes one. -/
def attempt (crates : MqttCrates T) (s : MqttIngest T) (t : MqttTurn) : Option Bool :=
  match arm crates s t with
  | .next s => if s.subscribed then none else some t.subscribes
  | .continue _ => none
  | .return _ => none

end MqttIngest

/-- The loop, one turn at a time. -/
def mqttIngest (crates : MqttCrates T) : Machine (MqttIngest T) MqttTurn where
  step s t :=
    if s.running then
      match MqttIngest.arm crates s t with
      | .next s => some (s.subscribe t)
      | .continue s => some s
      | .return s => some s
    else none

/-- What a turn did about the subscription. -/
structure MqttEntry where
  connAck : Bool
  /-- A `subscribe` call of the turn returned `Ok`. -/
  succeeded : Bool
  deriving DecidableEq, Repr

/-- The entry of a turn. -/
def entryOf (crates : MqttCrates T) (s : MqttIngest T) (t : MqttTurn) : MqttEntry :=
  ⟨t.connAck, s.attempt crates t == some true⟩

/-- The entries of a run. -/
def mqttTrace (crates : MqttCrates T) (turns : List MqttTurn) : List MqttEntry :=
  (mqttIngest crates).outputs (fun s t => [entryOf crates s t]) MqttIngest.new turns

/-- The events of the turns that bring one. -/
def decodedIn (crates : MqttCrates T) (turns : List MqttTurn) : List (CarEvent T) :=
  turns.filterMap (MqttIngest.accepted crates)

variable {crates : MqttCrates T} {s s' : MqttIngest T} {t : MqttTurn}

theorem arm_cases (crates : MqttCrates T) (s : MqttIngest T) (t : MqttTurn) :
    (∃ e, MqttIngest.accepted crates t = some e ∧ t.isOpen = false ∧ t.connAck = false ∧
      s.arm crates t = .return { s with running := false }) ∨
    (t.poll = .err ∧ t.connAck = false ∧ MqttIngest.accepted crates t = none ∧
      s.arm crates t = .continue s) ∨
    (t.poll ≠ .err ∧ s.arm crates t = .next ⟨s.subscribed && !t.connAck, s.running,
      s.sent ++ (MqttIngest.accepted crates t).toList⟩) := by
  obtain ⟨poll, now, isOpen, subscribes⟩ := t
  cases poll with
  | connAck =>
      refine Or.inr (Or.inr ⟨nofun, ?_⟩)
      simp [MqttIngest.arm, MqttIngest.accepted, MqttTurn.connAck]
  | publish topic payload =>
      unfold MqttIngest.arm
      dsimp only
      split
      · rename_i e hEvent
        cases isOpen with
        | true =>
            refine Or.inr (Or.inr ⟨nofun, ?_⟩)
            simp [hEvent, MqttTurn.connAck]
        | false => exact Or.inl ⟨e, hEvent, rfl, rfl, rfl⟩
      · rename_i hNone
        refine Or.inr (Or.inr ⟨nofun, ?_⟩)
        simp [Option.eq_none_iff_forall_ne_some.mpr hNone, MqttTurn.connAck]
  | other =>
      refine Or.inr (Or.inr ⟨nofun, ?_⟩)
      simp [MqttIngest.arm, MqttIngest.accepted, MqttTurn.connAck]
  | err => exact Or.inr (Or.inl ⟨rfl, rfl, rfl, rfl⟩)

/-- All that a turn can do: it ends at a closed channel; or an error skips the rest; or what it
brings is sent, and the subscription is kept, or tried. -/
theorem mqtt_cases (h : (mqttIngest crates).step s t = some s') :
    (∃ e, MqttIngest.accepted crates t = some e ∧ t.isOpen = false ∧ t.connAck = false ∧
      s' = { s with running := false } ∧ s.attempt crates t = none) ∨
    (t.poll = .err ∧ t.connAck = false ∧ MqttIngest.accepted crates t = none ∧ s' = s ∧
      s.attempt crates t = none) ∨
    (∃ kept, t.poll ≠ .err ∧ kept = (s.subscribed && !t.connAck) ∧
      s' = ⟨kept || t.subscribes, true, s.sent ++ (MqttIngest.accepted crates t).toList⟩ ∧
      s.attempt crates t = if kept then none else some t.subscribes) := by
  simp only [mqttIngest] at h
  split at h
  · rename_i hRunning
    rcases arm_cases crates s t with ⟨e, hEvent, hClosed, hAck, hArm⟩ | ⟨hErr, hAck, hNone, hArm⟩ |
      ⟨hPoll, hArm⟩
    · rw [hArm] at h
      cases h
      exact Or.inl ⟨e, hEvent, hClosed, hAck, rfl, by simp [MqttIngest.attempt, hArm]⟩
    · rw [hArm] at h
      cases h
      exact Or.inr (Or.inl ⟨hErr, hAck, hNone, rfl, by simp [MqttIngest.attempt, hArm]⟩)
    · rw [hArm] at h
      cases h
      refine Or.inr (Or.inr ⟨_, hPoll, rfl, ?_, by simp [MqttIngest.attempt, hArm]⟩)
      simp only [MqttIngest.subscribe, hRunning]
      cases s.subscribed && !t.connAck <;> rfl
  · cases h

/-! ## Runs -/

/-- The subscription is there just when some `subscribe` went through since the last `ConnAck`. -/
def Renewed (trace : List MqttEntry) (s : MqttIngest T) : Prop :=
  winsSince MqttEntry.connAck MqttEntry.succeeded trace = if s.subscribed then 1 else 0

theorem Renewed.step {trace : List MqttEntry} (h : Renewed trace s)
    (hStep : (mqttIngest crates).step s t = some s') :
    Renewed (trace ++ [entryOf crates s t]) s' := by
  unfold Renewed at h ⊢
  rw [winsSince_concat, h]
  rcases mqtt_cases hStep with ⟨_, -, -, hAck, rfl, hAttempt⟩ | ⟨-, hAck, -, rfl, hAttempt⟩ |
    ⟨kept, -, hKept, rfl, hAttempt⟩
  · simp [entryOf, hAck, hAttempt]
  · simp [entryOf, hAck, hAttempt]
  · simp only [entryOf, hAttempt, hKept]
    cases s.subscribed <;> cases t.connAck <;> cases t.subscribes <;> rfl

/-- What was accepted is sent, except for what met a closed channel and ended the loop. -/
def Forwarded (crates : MqttCrates T) (turns : List MqttTurn) (s : MqttIngest T) : Prop :=
  (s.running = true ∧ s.sent = decodedIn crates turns) ∨
    ∃ past t e, s.running = false ∧ turns = past ++ [t] ∧ t.isOpen = false ∧
      MqttIngest.accepted crates t = some e ∧ s.sent = decodedIn crates past

theorem Forwarded.step {turns : List MqttTurn} (h : Forwarded crates turns s)
    (hStep : (mqttIngest crates).step s t = some s') : Forwarded crates (turns ++ [t]) s' := by
  rcases h with ⟨hRunning, hSent⟩ | ⟨_, _, _, hStopped, -⟩
  · rcases mqtt_cases hStep with ⟨e, hEvent, hClosed, -, rfl, -⟩ | ⟨-, -, hNone, rfl, -⟩ |
      ⟨kept, -, -, rfl, -⟩
    · exact Or.inr ⟨turns, t, e, rfl, rfl, hClosed, hEvent, hSent⟩
    · refine Or.inl ⟨hRunning, ?_⟩
      rw [decodedIn, filterMap_concat_toList, hNone, ← decodedIn, hSent, Option.toList_none,
        List.append_nil]
    · refine Or.inl ⟨rfl, ?_⟩
      rw [decodedIn, filterMap_concat_toList, ← decodedIn, hSent]
  · simp [mqttIngest, hStopped] at hStep

/-- What every run keeps. -/
structure MqttInvariant (crates : MqttCrates T) (turns : List MqttTurn) (s : MqttIngest T) :
    Prop where
  renewed : Renewed (mqttTrace crates turns) s
  once : ∀ first, first <+: mqttTrace crates turns →
    winsSince MqttEntry.connAck MqttEntry.succeeded first ≤ 1
  forwarded : Forwarded crates turns s

theorem MqttInvariant.new (crates : MqttCrates T) : MqttInvariant crates [] MqttIngest.new where
  renewed := rfl
  once first hFirst := by
    have hNil : first = [] := List.prefix_nil.mp hFirst
    rw [hNil]
    exact Nat.zero_le 1
  forwarded := Or.inl ⟨rfl, rfl⟩

theorem MqttInvariant.of_run {turns : List MqttTurn}
    (hRun : (mqttIngest crates).exec MqttIngest.new turns = some s) :
    MqttInvariant crates turns s := by
  refine Machine.exec_history (P := fun past s => MqttInvariant crates past s) (.new crates) ?_ hRun
  intro past s t s' hPast h hStep
  have hTrace : mqttTrace crates (past ++ [t]) = mqttTrace crates past ++ [entryOf crates s t] :=
    Machine.outputs_concat _ hPast t
  have hRenewed := h.renewed.step hStep
  rw [← hTrace] at hRenewed
  refine ⟨hRenewed, ?_, h.forwarded.step hStep⟩
  intro first hFirst
  rw [hTrace, List.prefix_concat_iff] at hFirst
  rcases hFirst with rfl | hOld
  · rw [← hTrace, hRenewed]
    split <;> omega
  · exact h.once first hOld

/-- **Resubscription.** A loop that takes itself for subscribed has had a `subscribe` go through
since the last `ConnAck`; a turn without an error that does not end the loop leaves it subscribed
or has just failed to subscribe; in no part of the run that has no `ConnAck` after its first turn
do two `subscribe` calls go through; and the events of all accepted publishes are sent, each once
and in order, but for one that meets a closed channel and ends the loop. -/
theorem mqtt_resubscribes (crates : MqttCrates T) (turns : List MqttTurn) (s : MqttIngest T)
    (hRun : (mqttIngest crates).exec MqttIngest.new turns = some s) :
    (s.subscribed = true → ∃ before x after, mqttTrace crates turns = before ++ x :: after ∧
      x.succeeded = true ∧ ∀ y ∈ after, y.connAck = false) ∧
    (∀ t s', (mqttIngest crates).step s t = some s' → s'.running = true → t.poll ≠ .err →
      s'.subscribed = true ∨ s.attempt crates t = some false) ∧
    (∀ before part after, mqttTrace crates turns = before ++ part ++ after →
      (∀ x ∈ part.tail, x.connAck = false) → part.countP MqttEntry.succeeded ≤ 1) ∧
    ((s.running = true ∧ s.sent = decodedIn crates turns) ∨
      ∃ past t e, s.running = false ∧ turns = past ++ [t] ∧ t.isOpen = false ∧
        MqttIngest.accepted crates t = some e ∧ s.sent = decodedIn crates past) := by
  have h := MqttInvariant.of_run hRun
  refine ⟨?_, ?_, ?_, h.forwarded⟩
  · intro hSubscribed
    refine exists_win_of_winsSince _ _ ?_
    rw [h.renewed, hSubscribed]
    exact Nat.one_pos
  · intro t s' hStep hRunning hPoll
    rcases mqtt_cases hStep with ⟨_, -, -, -, rfl, -⟩ | ⟨hErr, -⟩ | ⟨kept, -, -, rfl, hAttempt⟩
    · cases hRunning
    · exact absurd hErr hPoll
    · rw [hAttempt]
      cases kept <;> cases t.subscribes <;> simp
  · intro before part after hSplit hNoAck
    refine Nat.le_trans (countP_le_winsSince _ _ before hNoAck) (h.once _ ?_)
    exact ⟨after, hSplit.symm⟩

/-- Crates that know the topic `[1]`, a status of car `a`. -/
def statusCrates : MqttCrates Unit where
  fromUtf8Lossy bytes := if bytes = [1] then "olivaw/a/status" else "online"
  parse topic := if topic = "olivaw/a/status" then some ("a", .status) else none
  telemetry _ := none
  scanFrame _ := none

/-- The second connection comes while the first subscription stands; the loop has to try twice. -/
def twoConnections : List MqttTurn :=
  [⟨.connAck, 0, true, true⟩, ⟨.publish [1] [2], 1, true, false⟩, ⟨.err, 2, true, true⟩,
    ⟨.connAck, 3, true, false⟩, ⟨.other, 4, true, true⟩]

theorem mqtt_resubscribes_two :
    ∃ s, (mqttIngest statusCrates).exec MqttIngest.new twoConnections = some s ∧
      s.sent = [⟨"a", 1, .status "online"⟩] ∧
      (mqttTrace statusCrates twoConnections).map MqttEntry.succeeded =
        [true, false, false, false, true] ∧
      (s.subscribed = true → ∃ before x after,
        mqttTrace statusCrates twoConnections = before ++ x :: after ∧
          x.succeeded = true ∧ ∀ y ∈ after, y.connAck = false) :=
  ⟨_, rfl, rfl, rfl, (mqtt_resubscribes statusCrates twoConnections _ rfl).1⟩

end OlivawHub
