import OlivawHub.Ingest.Mqtt
import OlivawHub.Pipeline.Reports
import OlivawHub.Foundations.Retained

/-!
# Between the broker and the stream

Everything goes over MQTT with `QoS::AtMostOnce`, and a status is retained, so every time the
ingest subscribes again the broker hands it the last status once more. A message may therefore be
lost, and a status may come many times. What the hub broadcasts about a car is still a part of
what was published about it, each item at most once and in order
(`reconnects_duplicate_nothing`).
-/

namespace OlivawHub

open Foundations

variable {T F : Type}

/-! ## The events of one car -/

def EventKind.status? : EventKind T → Option String
  | .status s => some s
  | _ => none

def EventKind.telemetry? : EventKind T → Option T
  | .telemetry t => some t
  | _ => none

def EventKind.scan? : EventKind T → Option ScanFrame
  | .scan frame => some frame
  | _ => none

/-- What the events say about `c`. -/
def kindsOf (c : String) (events : List (CarEvent T)) : List (EventKind T) :=
  events.filterMap fun e => if e.car = c then some e.kind else none

theorem kindsOf_concat (c : String) (events : List (CarEvent T)) (e : CarEvent T) :
    kindsOf c (events ++ [e]) = kindsOf c events ++ if e.car = c then [e.kind] else [] := by
  rw [kindsOf, filterMap_concat_toList, ← kindsOf]
  split <;> rfl

theorem filterMap_kindsOf {β : Type} (c : String) (f : EventKind T → Option β)
    (events : List (CarEvent T)) :
    (kindsOf c events).filterMap f =
      (events.filter fun e => e.car = c).filterMap fun e => f e.kind := by
  rw [kindsOf, List.filterMap_filterMap, List.filterMap_filter]
  refine congrArg (fun g => List.filterMap g events) (funext fun e => ?_)
  by_cases hCar : e.car = c <;> simp [hCar]

theorem statuses_kindsOf (c : String) (events : List (CarEvent T)) :
    (kindsOf c events).filterMap EventKind.status? =
      (events.filter fun e => e.car = c).filterMap CarEvent.status? := by
  rw [filterMap_kindsOf]
  refine congrArg (fun g => List.filterMap g _) (funext fun e => ?_)
  obtain ⟨car, atMs, kind⟩ := e
  cases kind <;> rfl

theorem scans_kindsOf (c : String) (inputs : List (Input T F)) :
    scansOf c inputs = (kindsOf c (eventsOf inputs)).filterMap EventKind.scan? := by
  rw [filterMap_kindsOf, scansOf, carLog_events]
  refine congrArg (fun g => List.filterMap g _) (funext fun e => ?_)
  obtain ⟨car, atMs, kind⟩ := e
  cases kind <;> rfl

/-! ## The reports on one car -/

/-- The status of `c` that is broadcast. -/
def WsEvent.statusOf? (c : String) : WsEvent T F → Option String
  | .status car s => if car = c then some s else none
  | _ => none

/-- The telemetry of `c` that is broadcast. -/
def WsEvent.telemetryOf? (c : String) : WsEvent T F → Option T
  | .telemetry car t _ => if car = c then some t else none
  | _ => none

theorem filterMap_reports {β : Type} {f : WsEvent T F → Option β} {events : List (WsEvent T F)}
    (h : ∀ e ∈ events, f e ≠ none → e.isReport = true) :
    (events.filter WsEvent.isReport).filterMap f = events.filterMap f := by
  rw [List.filterMap_filter]
  refine List.filterMap_congr fun e he => ?_
  split
  · rfl
  · rename_i hNot
    by_contra hSome
    exact hNot (h e he (Ne.symm hSome))

theorem statuses_reports (c : String) (events : List (CarEvent T)) :
    (reports [] events : List (WsEvent T F)).filterMap (WsEvent.statusOf? c) =
      changes "unknown" ((kindsOf c events).filterMap EventKind.status?) := by
  induction events using List.reverseRecOn with
  | nil => rfl
  | append_singleton events e ih =>
      rw [reports_concat, List.nil_append, List.filterMap_append, ih, kindsOf_concat,
        List.filterMap_append, changes_append]
      congr 1
      obtain ⟨car, atMs, kind⟩ := e
      by_cases hCar : car = c
      · subst hCar
        rw [if_pos rfl]
        cases kind with
        | status s =>
            have hBefore : (fieldsAfter (events.filter fun d => d.car = car)).status =
                ((kindsOf car events).filterMap EventKind.status?).getLast?.getD "unknown" := by
              rw [statuses_kindsOf]
              rfl
            simp only [CarEvent.report?, hBefore]
            generalize ((kindsOf car events).filterMap EventKind.status?).getLast?.getD
              "unknown" = v
            by_cases hSame : v = s
            · simp [hSame, EventKind.status?, changes]
            · simp [hSame, EventKind.status?, changes, WsEvent.statusOf?]
        | telemetry t => rfl
        | scan frame => rfl
      · rw [if_neg hCar]
        cases kind with
        | status s =>
            simp only [CarEvent.report?]
            split <;> simp [WsEvent.statusOf?, hCar, changes]
        | telemetry t => rfl
        | scan frame => rfl

theorem telemetries_reports (c : String) (events : List (CarEvent T)) :
    (reports [] events : List (WsEvent T F)).filterMap (WsEvent.telemetryOf? c) =
      (kindsOf c events).filterMap EventKind.telemetry? := by
  induction events using List.reverseRecOn with
  | nil => rfl
  | append_singleton events e ih =>
      rw [reports_concat, List.nil_append, List.filterMap_append, ih, kindsOf_concat,
        List.filterMap_append]
      congr 1
      obtain ⟨car, atMs, kind⟩ := e
      cases kind with
      | status s =>
          simp only [CarEvent.report?]
          split <;> split <;> rfl
      | telemetry t =>
          by_cases hCar : car = c <;>
            simp [CarEvent.report?, WsEvent.telemetryOf?, EventKind.telemetry?, hCar]
      | scan frame =>
          by_cases hCar : car = c <;> simp [CarEvent.report?, EventKind.telemetry?, hCar]

section Runs

variable [HubFloat F] {n : Nat} {inputs : List (Input T F)} {p : Pipeline T F}

/-- The statuses broadcast for `c` are the changes of those received. -/
theorem statuses_of_run (hRun : (pipeline T F n).exec Pipeline.new inputs = some p) (c : String) :
    p.hub.events.filterMap (WsEvent.statusOf? c) =
      changes "unknown" ((kindsOf c (eventsOf inputs)).filterMap EventKind.status?) := by
  rw [← statuses_reports (F := F), ← reports_of_run hRun]
  refine (filterMap_reports fun e _ hSome => ?_).symm
  cases e with
  | status car s => rfl
  | _ => exact absurd rfl hSome

/-- The telemetry broadcast for `c` is what was received. -/
theorem telemetries_of_run (hRun : (pipeline T F n).exec Pipeline.new inputs = some p)
    (c : String) :
    p.hub.events.filterMap (WsEvent.telemetryOf? c) =
      (kindsOf c (eventsOf inputs)).filterMap EventKind.telemetry? := by
  rw [← telemetries_reports (F := F), ← reports_of_run hRun]
  refine (filterMap_reports fun e _ hSome => ?_).symm
  cases e with
  | telemetry car t atMs => rfl
  | _ => exact absurd rfl hSome

end Runs

/-! ## Messages -/

/-- A message as it is published. -/
structure Message where
  topic : String
  retain : Bool
  payload : List UInt8
  deriving DecidableEq, Repr

/-- What of a message comes out of `poll`, with the topic as a string. -/
def Message.wire (m : Message) : String × List UInt8 := (m.topic, m.payload)

/-- What a message says about `c` to the pipeline. -/
def Message.tells (crates : MqttCrates T) (c : String) (m : Message) : Option (EventKind T) :=
  (CarEvent.decode crates 0 m.topic m.payload).bind fun e => if e.car = c then some e.kind else none

/-- What the messages say about `c`. -/
def said (crates : MqttCrates T) (c : String) (messages : List Message) : List (EventKind T) :=
  messages.filterMap (Message.tells crates c)

/-- The publish of a turn. -/
def MqttTurn.publish? (crates : MqttCrates T) (t : MqttTurn) : Option (String × List UInt8) :=
  match t.poll with
  | .publish topic payload => some (crates.fromUtf8Lossy topic, payload)
  | _ => none

/-- The publishes that `poll` returned, in order. -/
def publishesIn (crates : MqttCrates T) (turns : List MqttTurn) : List (String × List UInt8) :=
  turns.filterMap (MqttTurn.publish? crates)

/-- How a car and those who speak for it publish: a status is retained, on one topic, and nothing
else that the hub decodes is. -/
structure PublishedAs (crates : MqttCrates T) (c statusTopic : String) (sent : List Message) :
    Prop where
  status : ∀ m ∈ sent, crates.parse m.topic = some (c, .status) →
    m.topic = statusTopic ∧ m.retain = true
  others : ∀ m ∈ sent, crates.parse m.topic = some (c, .telemetry) ∨
    crates.parse m.topic = some (c, .scan) → m.retain = false

/-- What the hub's subscription gets, in the order of the broker. -/
def BrokerDelivers (mayLose : Message → Prop) (sent arrived : List Message) : Prop :=
  Relayed Message.topic (fun m => m.retain = true) mayLose sent arrived

variable {crates : MqttCrates T} {c statusTopic : String} {sent arrived : List Message}

theorem decode_now (crates : MqttCrates T) (now : UInt64) (topic : String)
    (payload : List UInt8) :
    CarEvent.decode crates now topic payload =
      (CarEvent.decode crates 0 topic payload).map fun e => { e with atMs := now } := by
  simp only [CarEvent.decode, Option.map_bind, Function.comp_def, Option.map_map]

/-- What reaches the channel about `c` is what the publishes say. -/
theorem kindsOf_decodedIn {turns : List MqttTurn}
    (hArrived : publishesIn crates turns = arrived.map Message.wire) (c : String) :
    kindsOf c (decodedIn crates turns) = said crates c arrived := by
  have hSaid : said crates c arrived = (publishesIn crates turns).filterMap fun p =>
      (CarEvent.decode crates 0 p.1 p.2).bind fun e => if e.car = c then some e.kind else none := by
    rw [hArrived, List.filterMap_map]
    rfl
  rw [hSaid, publishesIn, List.filterMap_filterMap, kindsOf, decodedIn, List.filterMap_filterMap]
  refine congrArg (fun g => List.filterMap g turns) (funext fun t => ?_)
  obtain ⟨poll, now, isOpen, subscribes⟩ := t
  cases poll with
  | publish topic payload =>
      simp only [MqttIngest.accepted, MqttTurn.publish?, decode_now crates now, Option.bind_map]
      rfl
  | _ => rfl

/-- What a message says is said on the channel of its kind. -/
theorem Message.tells_cases {m : Message} {kind : EventKind T}
    (h : m.tells crates c = some kind) :
    (crates.parse m.topic = some (c, .status) ∧ kind = .status (crates.fromUtf8Lossy m.payload)) ∨
    (crates.parse m.topic = some (c, .telemetry) ∧
      ∃ t, crates.telemetry m.payload = some t ∧ kind = .telemetry t) ∨
    (crates.parse m.topic = some (c, .scan) ∧
      ∃ frame, crates.scanFrame m.payload = some frame ∧ kind = .scan frame) := by
  obtain ⟨e, hDecode, hCar⟩ := Option.bind_eq_some_iff.mp h
  obtain ⟨⟨car, channel⟩, hParse, hKind⟩ := Option.bind_eq_some_iff.mp hDecode
  obtain ⟨k, hPayload, rfl⟩ := Option.map_eq_some_iff.mp hKind
  split at hCar
  · rename_i hSame
    cases hCar
    have hSame : car = c := hSame
    subst hSame
    cases channel with
    | status =>
        cases hPayload
        exact Or.inl ⟨hParse, rfl⟩
    | telemetry =>
        obtain ⟨t, hJson, rfl⟩ := Option.map_eq_some_iff.mp hPayload
        exact Or.inr (Or.inl ⟨hParse, t, hJson, rfl⟩)
    | scan =>
        obtain ⟨frame, hFrame, rfl⟩ := Option.map_eq_some_iff.mp hPayload
        exact Or.inr (Or.inr ⟨hParse, frame, hFrame, rfl⟩)
    | cmd => cases hPayload
  · cases hCar

theorem filterMap_said {β : Type} (crates : MqttCrates T) (c : String)
    (f : EventKind T → Option β) (messages : List Message) :
    (said crates c messages).filterMap f = messages.filterMap fun m => (m.tells crates c).bind f :=
  List.filterMap_filterMap ..

namespace PublishedAs

variable {β : Type}

/-- Whatever says a status is retained, on the topic of the statuses. -/
theorem retained (h : PublishedAs crates c statusTopic sent) :
    ∀ m ∈ sent, ((m.tells crates c).bind EventKind.status?) ≠ none →
      m.topic = statusTopic ∧ m.retain = true := by
  intro m hm hSome
  obtain ⟨text, hText⟩ := Option.ne_none_iff_exists'.mp hSome
  obtain ⟨kind, hTells, hStatus⟩ := Option.bind_eq_some_iff.mp hText
  rcases Message.tells_cases hTells with ⟨hParse, -⟩ | ⟨-, t, -, rfl⟩ | ⟨-, frame, -, rfl⟩
  · exact h.status m hm hParse
  · cases hStatus
  · cases hStatus

/-- Whatever says something else is not. -/
theorem not_retained (h : PublishedAs crates c statusTopic sent) {f : EventKind T → Option β}
    (hf : ∀ s, f (.status s) = none) :
    ∀ m ∈ sent, ((m.tells crates c).bind f) ≠ none → ¬ m.retain = true := by
  intro m hm hSome hRetain
  obtain ⟨b, hValue⟩ := Option.ne_none_iff_exists'.mp hSome
  obtain ⟨kind, hTells, hKind⟩ := Option.bind_eq_some_iff.mp hValue
  have hNot : m.retain = false := by
    rcases Message.tells_cases hTells with ⟨-, rfl⟩ | ⟨hParse, -⟩ | ⟨hParse, -⟩
    · rw [hf] at hKind
      cases hKind
    · exact h.others m hm (Or.inl hParse)
    · exact h.others m hm (Or.inr hParse)
  rw [hNot] at hRetain
  cases hRetain

end PublishedAs

/-- What was sent into the channel is what was decoded, or the beginning of it. -/
theorem sent_isPrefix {turns : List MqttTurn} {s : MqttIngest T}
    (hRun : (mqttIngest crates).exec MqttIngest.new turns = some s) :
    s.sent <+: decodedIn crates turns := by
  rcases (MqttInvariant.of_run hRun).forwarded with ⟨-, hSent⟩ | ⟨past, t, e, -, rfl, -, -, hSent⟩
  · exact ⟨[], by rw [hSent, List.append_nil]⟩
  · rw [hSent, decodedIn, decodedIn, List.filterMap_append]
    exact List.prefix_append _ _

variable [HubFloat F]

/-- **Nothing twice.** Let the publishers of a car retain its statuses and nothing else. Messages
may be lost and the ingest may reconnect any number of times, being handed the retained status
again each time. Of the statuses published about the car the stream then shows a part, in order,
none of them twice in a row, and the same of its telemetry and of the scans the pipeline takes. -/
theorem reconnects_duplicate_nothing (crates : MqttCrates T) (c statusTopic : String)
    (mayLose : Message → Prop) (sent arrived : List Message) (turns : List MqttTurn)
    (s : MqttIngest T) (n : Nat) (inputs : List (Input T F)) (p : Pipeline T F)
    (hSent : PublishedAs crates c statusTopic sent)
    (hDelivered : BrokerDelivers mayLose sent arrived)
    (hArrived : publishesIn crates turns = arrived.map Message.wire)
    (hIngest : (mqttIngest crates).exec MqttIngest.new turns = some s)
    (hInputs : kindsOf c (eventsOf inputs) <+: kindsOf c s.sent)
    (hRun : (pipeline T F n).exec Pipeline.new inputs = some p) :
    List.Sublist (p.hub.events.filterMap (WsEvent.statusOf? c))
        ((said crates c sent).filterMap EventKind.status?) ∧
      ("unknown" :: p.hub.events.filterMap (WsEvent.statusOf? c)).IsChain (· ≠ ·) ∧
      List.Sublist (p.hub.events.filterMap (WsEvent.telemetryOf? c))
        ((said crates c sent).filterMap EventKind.telemetry?) ∧
      List.Sublist (scansOf c inputs) ((said crates c sent).filterMap EventKind.scan?) := by
  have hKinds : kindsOf c (eventsOf inputs) <+: said crates c arrived := by
    refine hInputs.trans ?_
    rw [← kindsOf_decodedIn hArrived c]
    exact (sent_isPrefix hIngest).filterMap _
  have hOther : ∀ {β : Type} {f : EventKind T → Option β}, (∀ s, f (.status s) = none) →
      List.Sublist ((kindsOf c (eventsOf inputs)).filterMap f) ((said crates c sent).filterMap f) :=
    fun hf => by
      refine (hKinds.filterMap _).sublist.trans ?_
      rw [filterMap_said, filterMap_said]
      exact Relayed.sublist hDelivered (hSent.not_retained hf)
  refine ⟨?_, ?_, ?_, ?_⟩
  · rw [statuses_of_run hRun]
    refine (changes_isPrefix "unknown" (hKinds.filterMap _)).sublist.trans ?_
    rw [filterMap_said, filterMap_said]
    exact Relayed.changes_sublist "unknown" hDelivered hSent.retained
  · rw [statuses_of_run hRun]
    exact isChain_changes _ _
  · rw [telemetries_of_run hRun]
    exact hOther fun _ => rfl
  · rw [scans_kindsOf]
    exact hOther fun _ => rfl

/-- Text in ASCII. -/
def asciiText (bytes : List UInt8) : String :=
  String.ofList (bytes.map fun b => Char.ofNat b.toNat)

/-- `String::into_bytes`. -/
def intoBytes (s : String) : List UInt8 := s.toUTF8.data.toList

/-- Crates that know the topics of car `a`; telemetry is one byte, and a scan an empty one. -/
def carCrates : MqttCrates UInt8 where
  fromUtf8Lossy := asciiText
  parse topic :=
    if topic = "olivaw/a/status" then some ("a", .status)
    else if topic = "olivaw/a/telemetry" then some ("a", .telemetry)
    else if topic = "olivaw/a/scan" then some ("a", .scan)
    else if topic = "olivaw/a/cmd" then some ("a", .cmd)
    else none
  telemetry bytes := bytes.head?
  scanFrame bytes := bytes.head?.map fun b => ⟨b.toUInt32, 0, [], 0⟩

def onlineMessage : Message := ⟨"olivaw/a/status", true, intoBytes "online"⟩

def scanMessage : Message := ⟨"olivaw/a/scan", false, [4]⟩

def telemetryMessage : Message := ⟨"olivaw/a/telemetry", false, [9]⟩

def offlineMessage : Message := ⟨"olivaw/a/status", true, intoBytes "offline"⟩

/-- The car is there before the hub, the connection breaks once and telemetry is lost. -/
def brokenLink : List MqttTurn :=
  [⟨.connAck, 0, true, true⟩, ⟨.publish (intoBytes "olivaw/a/status") (intoBytes "online"), 1,
      true, true⟩,
    ⟨.publish (intoBytes "olivaw/a/scan") [4], 2, true, true⟩, ⟨.err, 3, true, true⟩,
    ⟨.connAck, 4, true, true⟩,
    ⟨.publish (intoBytes "olivaw/a/status") (intoBytes "online"), 5, true, true⟩,
    ⟨.publish (intoBytes "olivaw/a/status") (intoBytes "offline"), 6, true, true⟩]

/-- What the pipeline makes of it. -/
def brokenLinkInputs : List (Input UInt8 ℚ) :=
  [.event ⟨"a", 1, .status "online"⟩ 0 none, .event ⟨"a", 2, .scan ⟨4, 0, [], 0⟩⟩ 0 none,
    .event ⟨"a", 5, .status "online"⟩ 0 none, .event ⟨"a", 6, .status "offline"⟩ 0 none]

/-- What the broker does meanwhile. -/
theorem brokenLink_delivered :
    BrokerDelivers (fun _ => True)
      [onlineMessage, scanMessage, telemetryMessage, offlineMessage]
      [onlineMessage, scanMessage, onlineMessage, offlineMessage] := by
  have hStart : BrokerDelivers (fun _ => True) ([] ++ [onlineMessage]) [] :=
    .lost onlineMessage .nil trivial
  have hFirst : BrokerDelivers (fun _ => True) ([] ++ onlineMessage :: []) [onlineMessage] :=
    .again hStart rfl (by simp)
  have hScan := Relayed.lost telemetryMessage (Relayed.passed scanMessage hFirst) trivial
  have hSecond : BrokerDelivers (fun _ => True)
      ([] ++ onlineMessage :: [scanMessage, telemetryMessage])
      ([onlineMessage, scanMessage] ++ [onlineMessage]) := .again hScan rfl (by decide)
  exact .passed offlineMessage hSecond

theorem reconnects_duplicate_nothing_broken_link :
    ∃ s p, (mqttIngest carCrates).exec MqttIngest.new brokenLink = some s ∧
      (pipeline UInt8 ℚ 5).exec Pipeline.new brokenLinkInputs = some p ∧
      s.sent.length = 4 ∧
      p.hub.events.filterMap (WsEvent.statusOf? "a") = ["online", "offline"] ∧
      List.Sublist (p.hub.events.filterMap (WsEvent.telemetryOf? "a")) [9] ∧
      List.Sublist (scansOf "a" brokenLinkInputs) [⟨4, 0, [], 0⟩] :=
  have hSent : PublishedAs carCrates "a" "olivaw/a/status"
      [onlineMessage, scanMessage, telemetryMessage, offlineMessage] :=
    ⟨by decide, by decide⟩
  have h := reconnects_duplicate_nothing (F := ℚ) carCrates "a" "olivaw/a/status" (fun _ => True)
    [onlineMessage, scanMessage, telemetryMessage, offlineMessage]
    [onlineMessage, scanMessage, onlineMessage, offlineMessage] brokenLink _ 5 brokenLinkInputs _
    hSent brokenLink_delivered rfl rfl List.prefix_rfl rfl
  ⟨_, _, rfl, rfl, rfl, rfl, h.2.2.1, h.2.2.2⟩

end OlivawHub
