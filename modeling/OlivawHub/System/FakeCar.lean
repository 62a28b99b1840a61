import OlivawHub.System.Broker
import OlivawHub.Session.Recorder

/-!
# A recording that drives past

`fake_car.rs` publishes a recorded session as if it were the car: every event of the recording,
whatever car it came from, under one car id, paced by the time stamps, and `offline` at the end. A
hub that listens, however often it reconnects, shows under that id what was recorded
(`fake_car_relives_recording`).
-/

namespace OlivawHub

open Foundations

variable {T F : Type}

/-- What the fake car uses of other crates. -/
structure FakeCarCrates (T : Type) where
  /-- `topics::topic`. -/
  topic : String → Channel → Option String
  /-- `serde_json::to_vec` on telemetry. -/
  toVec : T → Option (List UInt8)
  /-- `ScanFrame::encode` into a buffer of `MAX_ENCODED_LEN`. -/
  encode : ScanFrame → Option (List UInt8)

inductive FakeCarError where
  /-- `read_all` fails. -/
  | recording
  | carIdTooLong
  | json
  | scanFrame
  /-- `publish` fails. -/
  | client
  deriving DecidableEq, Repr

/-- What the fake car does, in order. -/
inductive FakeCarAct where
  | sleep (ms : UInt64)
  | publish (m : Message)
  deriving DecidableEq, Repr

/-- The topics of one car. -/
structure FakeCarTopics where
  status : String
  telemetry : String
  scan : String

def FakeCarTopics.of (crates : FakeCarCrates T) (car : String) : Option FakeCarTopics :=
  (crates.topic car .status).bind fun status =>
    (crates.topic car .telemetry).bind fun telemetry =>
      (crates.topic car .scan).map fun scan => ⟨status, telemetry, scan⟩

/-- The message for an event. -/
def fakeCarMessage (crates : FakeCarCrates T) (topics : FakeCarTopics) :
    EventKind T → Except FakeCarError Message
  | .status s => .ok ⟨topics.status, true, intoBytes s⟩
  | .telemetry t =>
      match crates.toVec t with
      | some bytes => .ok ⟨topics.telemetry, false, bytes⟩
      | none => .error .json
  | .scan frame =>
      match crates.encode frame with
      | some bytes => .ok ⟨topics.scan, false, bytes⟩
      | none => .error .scanFrame

/-- The sleep before an event. -/
def fakeCarPause (lastMs : Option UInt64) (atMs : UInt64) : List FakeCarAct :=
  match lastMs with
  | some prev => if prev < atMs then [.sleep (min (atMs - prev) 2000)] else []
  | none => []

/-- The last message. -/
def offlineOn (topics : FakeCarTopics) : Message := ⟨topics.status, true, intoBytes "offline"⟩

/-- The loop; `accepts k` tells whether the `k`-th `publish` goes through. -/
def publishAll (crates : FakeCarCrates T) (topics : FakeCarTopics) (accepts : Nat → Bool) :
    Nat → Option UInt64 → List (CarEvent T) → List FakeCarAct × Except FakeCarError Nat
  | k, _, [] => ([], .ok k)
  | k, lastMs, event :: events =>
      match fakeCarMessage crates topics event.kind with
      | .error e => (fakeCarPause lastMs event.atMs, .error e)
      | .ok m =>
          if accepts k then
            let (acts, result) := publishAll crates topics accepts (k + 1) (some event.atMs) events
            (fakeCarPause lastMs event.atMs ++ .publish m :: acts, result)
          else (fakeCarPause lastMs event.atMs, .error .client)

/-- `main` of the fake car, from the contents of the file on. -/
def fakeCar (crates : FakeCarCrates T) (pc : Postcard T) (accepts : Nat → Bool) (car : String)
    (file : List UInt8) : List FakeCarAct × Except FakeCarError Unit :=
  match readAll pc file with
  | none => ([], .error .recording)
  | some events =>
      match FakeCarTopics.of crates car with
      | none => ([], .error .carIdTooLong)
      | some topics =>
          match publishAll crates topics accepts 0 none events with
          | (acts, .error e) => (acts, .error e)
          | (acts, .ok k) =>
              if accepts k then
                (acts ++ [.publish (offlineOn topics), .sleep 300], .ok ())
              else (acts, .error .client)

def FakeCarAct.published? : FakeCarAct → Option Message
  | .publish m => some m
  | .sleep _ => none

/-- What was published, in order. -/
def published (acts : List FakeCarAct) : List Message := acts.filterMap FakeCarAct.published?

/-! ## What is published -/

section Publications

variable {crates : FakeCarCrates T} {accepts : Nat → Bool}

/-- The messages are those for the events. -/
def Publishes (crates : FakeCarCrates T) (topics : FakeCarTopics) (events : List (CarEvent T))
    (messages : List Message) : Prop :=
  List.Forall₂ (fun e m => fakeCarMessage crates topics e.kind = .ok m) events messages

theorem published_pause (lastMs : Option UInt64) (atMs : UInt64) :
    published (fakeCarPause lastMs atMs) = [] := by
  unfold fakeCarPause
  cases lastMs with
  | none => rfl
  | some prev => dsimp only; split <;> rfl

/-- The loop publishes the events up to the first that fails. -/
theorem publishAll_publishes (crates : FakeCarCrates T) (topics : FakeCarTopics)
    (accepts : Nat → Bool) (events : List (CarEvent T)) (k : Nat) (lastMs : Option UInt64) :
    ∃ first rest, events = first ++ rest ∧
      Publishes crates topics first
        (published (publishAll crates topics accepts k lastMs events).1) ∧
      (∀ j, (publishAll crates topics accepts k lastMs events).2 = .ok j → rest = []) := by
  induction events generalizing k lastMs with
  | nil => exact ⟨[], [], rfl, .nil, fun _ _ => rfl⟩
  | cons event events ih =>
      have hStop : ∀ e, publishAll crates topics accepts k lastMs (event :: events) =
          (fakeCarPause lastMs event.atMs, .error e) →
          ∃ first rest, event :: events = first ++ rest ∧
            Publishes crates topics first
              (published (publishAll crates topics accepts k lastMs (event :: events)).1) ∧
            (∀ j, (publishAll crates topics accepts k lastMs (event :: events)).2 = .ok j →
              rest = []) := by
        intro e hEq
        rw [hEq, published_pause]
        exact ⟨[], event :: events, rfl, .nil, fun _ h => by cases h⟩
      cases hMessage : fakeCarMessage crates topics event.kind with
      | error e => exact hStop e (by simp only [publishAll, hMessage])
      | ok m =>
          by_cases hAccepts : accepts k = true
          · obtain ⟨first, rest, hSplit, hFirst, hRest⟩ := ih (k + 1) (some event.atMs)
            have hEq : publishAll crates topics accepts k lastMs (event :: events) =
                (fakeCarPause lastMs event.atMs ++ .publish m ::
                  (publishAll crates topics accepts (k + 1) (some event.atMs) events).1,
                  (publishAll crates topics accepts (k + 1) (some event.atMs) events).2) := by
              simp only [publishAll, hMessage, hAccepts, if_true]
            refine ⟨event :: first, rest, by rw [hSplit, List.cons_append], ?_, ?_⟩
            · rw [hEq, published, List.filterMap_append, ← published, published_pause]
              exact .cons hMessage hFirst
            · rw [hEq]
              exact hRest
          · exact hStop .client (by simp only [publishAll, hMessage, hAccepts, Bool.false_eq_true,
              if_false])

/-- A fake car that could read its recording publishes a part of it from the beginning, and when it
succeeds all of it, and then `offline`. -/
theorem fakeCar_publishes {pc : Postcard T} {car : String} {file : List UInt8}
    {events : List (CarEvent T)} {acts : List FakeCarAct} {result : Except FakeCarError Unit}
    (hRead : readAll pc file = some events)
    (hRun : fakeCar crates pc accepts car file = (acts, result)) :
    (result = .error .carIdTooLong ∧ published acts = []) ∨
    ∃ topics first messages, FakeCarTopics.of crates car = some topics ∧ first <+: events ∧
      Publishes crates topics first messages ∧
      ((result = .ok () ∧ first = events ∧
          published acts = messages ++ [offlineOn topics]) ∨
        (result ≠ .ok () ∧ published acts = messages)) := by
  simp only [fakeCar, hRead] at hRun
  cases hTopics : FakeCarTopics.of crates car with
  | none =>
      simp only [hTopics, Prod.mk.injEq] at hRun
      obtain ⟨rfl, rfl⟩ := hRun
      exact Or.inl ⟨rfl, rfl⟩
  | some topics =>
      obtain ⟨first, rest, hSplit, hFirst, hRest⟩ :=
        publishAll_publishes crates topics accepts events 0 none
      refine Or.inr ⟨topics, first, _, rfl, ⟨rest, hSplit.symm⟩, hFirst, ?_⟩
      rw [hTopics] at hRun
      dsimp only at hRun
      split at hRun
      · rename_i acts' e hLoop
        cases hRun
        exact Or.inr ⟨nofun, by rw [hLoop]⟩
      · rename_i acts' k hLoop
        split at hRun
        · cases hRun
          refine Or.inl ⟨rfl, ?_, ?_⟩
          · rw [hSplit, hRest k (by rw [hLoop]), List.append_nil]
          · rw [hLoop, published, List.filterMap_append]
            rfl
        · cases hRun
          exact Or.inr ⟨nofun, by rw [hLoop]⟩

end Publications

/-! ## What it says -/

/-- What the crates on both sides make of each other's output, of the statuses `texts`. The
telemetry is not in it: JSON has no spelling for every float. -/
structure WireRoundTrips (crates : FakeCarCrates T) (hub : MqttCrates T) (car : String)
    (texts : List String) : Prop where
  topic : ∀ channel t, crates.topic car channel = some t → hub.parse t = some (car, channel)
  utf8 : ∀ s ∈ texts, hub.fromUtf8Lossy (intoBytes s) = s
  scan : ∀ frame bytes, crates.encode frame = some bytes → hub.scanFrame bytes = some frame

/-- Telemetry after it was written as JSON and read again. -/
def throughJson (crates : FakeCarCrates T) (hub : MqttCrates T) (t : T) : Option T :=
  (crates.toVec t).bind hub.telemetry

/-- What of an event comes through. -/
def overTheWire (crates : FakeCarCrates T) (hub : MqttCrates T) :
    EventKind T → Option (EventKind T)
  | .status s => some (.status s)
  | .telemetry t => (throughJson crates hub t).map .telemetry
  | .scan frame => some (.scan frame)

/-- The status published at the end. -/
def lastWords : Except FakeCarError Unit → List String
  | .ok () => ["offline"]
  | .error _ => []

/-- What the fake car has said when it published the events `first` and ended with `result`. -/
def saidBy (crates : FakeCarCrates T) (hub : MqttCrates T) (first : List (CarEvent T))
    (result : Except FakeCarError Unit) : List (EventKind T) :=
  first.filterMap (fun e => overTheWire crates hub e.kind) ++ (lastWords result).map .status

section Wire

variable {crates : FakeCarCrates T} {hub : MqttCrates T} {car : String} {topics : FakeCarTopics}
  {texts : List String}

theorem FakeCarTopics.of_eq_some (h : FakeCarTopics.of crates car = some topics) :
    crates.topic car .status = some topics.status ∧
      crates.topic car .telemetry = some topics.telemetry ∧
      crates.topic car .scan = some topics.scan := by
  obtain ⟨status, hStatus, hRest⟩ := Option.bind_eq_some_iff.mp h
  obtain ⟨telemetry, hTelemetry, hLast⟩ := Option.bind_eq_some_iff.mp hRest
  obtain ⟨scan, hScan, rfl⟩ := Option.map_eq_some_iff.mp hLast
  exact ⟨hStatus, hTelemetry, hScan⟩

/-- What a payload says on a channel. -/
def MqttCrates.kind? (crates : MqttCrates T) (payload : List UInt8) :
    Channel → Option (EventKind T)
  | .status => some (.status (crates.fromUtf8Lossy payload))
  | .telemetry => (crates.telemetry payload).map .telemetry
  | .scan => (crates.scanFrame payload).map .scan
  | .cmd => none

/-- A message on a topic of the car tells what its payload says there. -/
theorem tells_of_parse {m : Message} {channel : Channel}
    (hParse : hub.parse m.topic = some (car, channel)) :
    m.tells hub car = hub.kind? m.payload channel := by
  unfold Message.tells CarEvent.decode
  rw [hParse]
  cases channel with
  | status => simp [MqttCrates.kind?]
  | telemetry => cases hJson : hub.telemetry m.payload <;> simp [MqttCrates.kind?, hJson]
  | scan => cases hFrame : hub.scanFrame m.payload <;> simp [MqttCrates.kind?, hFrame]
  | cmd => rfl

/-- The message for an event tells what comes through of it. -/
theorem tells_fakeCarMessage (hWire : WireRoundTrips crates hub car texts)
    (hTopics : FakeCarTopics.of crates car = some topics) {kind : EventKind T} {m : Message}
    (hText : ∀ s, kind = .status s → s ∈ texts)
    (hMessage : fakeCarMessage crates topics kind = .ok m) :
    m.tells hub car = overTheWire crates hub kind := by
  obtain ⟨hStatus, hTelemetry, hScan⟩ := FakeCarTopics.of_eq_some hTopics
  cases kind with
  | status s =>
      cases hMessage
      rw [tells_of_parse (hWire.topic _ _ hStatus), overTheWire, MqttCrates.kind?,
        hWire.utf8 s (hText s rfl)]
  | telemetry t =>
      simp only [fakeCarMessage] at hMessage
      split at hMessage
      · rename_i bytes hBytes
        cases hMessage
        rw [tells_of_parse (hWire.topic _ _ hTelemetry), overTheWire, throughJson, hBytes]
        rfl
      · cases hMessage
  | scan frame =>
      simp only [fakeCarMessage] at hMessage
      split at hMessage
      · rename_i bytes hBytes
        cases hMessage
        rw [tells_of_parse (hWire.topic _ _ hScan), overTheWire, MqttCrates.kind?,
          hWire.scan _ _ hBytes]
        rfl
      · cases hMessage

theorem said_publishes (hWire : WireRoundTrips crates hub car texts)
    (hTopics : FakeCarTopics.of crates car = some topics) {events : List (CarEvent T)}
    {messages : List Message} (hTexts : events.filterMap CarEvent.status? ⊆ texts)
    (h : Publishes crates topics events messages) :
    said hub car messages = events.filterMap fun e => overTheWire crates hub e.kind := by
  induction h with
  | nil => rfl
  | @cons e m events messages hMessage _ ih =>
      rw [filterMap_cons_toList] at hTexts
      have hText : ∀ s, e.kind = .status s → s ∈ texts := by
        intro s hKind
        refine hTexts (List.mem_append_left _ ?_)
        rw [CarEvent.status?, hKind]
        exact List.mem_singleton_self s
      have hRest := ih fun s hs => hTexts (List.mem_append_right _ hs)
      rw [said, filterMap_cons_toList, filterMap_cons_toList, ← said, hRest,
        tells_fakeCarMessage hWire hTopics hText hMessage]

/-- What the fake car published says what came through of the events. -/
theorem said_published {pc : Postcard T} {accepts : Nat → Bool} {file : List UInt8}
    {events : List (CarEvent T)} {acts : List FakeCarAct} {result : Except FakeCarError Unit}
    (hWire : WireRoundTrips crates hub car ("offline" :: events.filterMap CarEvent.status?))
    (hRead : readAll pc file = some events)
    (hRun : fakeCar crates pc accepts car file = (acts, result)) :
    ∃ first, first <+: events ∧ (result = .ok () → first = events) ∧
      said hub car (published acts) = saidBy crates hub first result := by
  rcases fakeCar_publishes hRead hRun with ⟨rfl, hNone⟩ | ⟨topics, first, messages, hTopics, hFirst,
    hPublishes, hEnd⟩
  · refine ⟨[], List.nil_prefix, nofun, ?_⟩
    rw [hNone]
    rfl
  · have hTexts : first.filterMap CarEvent.status? ⊆
        "offline" :: events.filterMap CarEvent.status? := fun s hs =>
      List.mem_cons_of_mem _ ((hFirst.filterMap _).subset hs)
    have hSaid := said_publishes hWire hTopics hTexts hPublishes
    refine ⟨first, hFirst, ?_, ?_⟩
    · intro hOk
      rcases hEnd with ⟨-, hAll, -⟩ | ⟨hNot, -⟩
      · exact hAll
      · exact absurd hOk hNot
    · rcases hEnd with ⟨rfl, -, hActs⟩ | ⟨hNot, hActs⟩
      · have hOffline : (offlineOn topics).tells hub car = some (.status "offline") := by
          have hStatus := (FakeCarTopics.of_eq_some hTopics).1
          have hText : hub.fromUtf8Lossy (offlineOn topics).payload = "offline" :=
            hWire.utf8 _ List.mem_cons_self
          rw [tells_of_parse (hWire.topic _ _ hStatus), MqttCrates.kind?, hText]
        rw [hActs, said, filterMap_concat_toList, ← said, hSaid, saidBy, hOffline]
        rfl
      · cases result with
        | ok value => exact absurd rfl hNot
        | error e =>
            rw [hActs, hSaid]
            exact (List.append_nil _).symm

theorem Publishes.exists_of_mem {events : List (CarEvent T)} {messages : List Message}
    (h : Publishes crates topics events messages) {m : Message} (hm : m ∈ messages) :
    ∃ kind, fakeCarMessage crates topics kind = .ok m := by
  induction h with
  | nil => cases hm
  | cons hMessage _ ih =>
      rcases List.mem_cons.mp hm with rfl | hRest
      · exact ⟨_, hMessage⟩
      · exact ih hRest

/-- A message of the fake car is retained when it is a status, and only then. -/
theorem fakeCarMessage_retain {kind : EventKind T} {m : Message}
    (hMessage : fakeCarMessage crates topics kind = .ok m) :
    (m.topic = topics.status ∧ m.retain = true) ∨ (m.topic = topics.telemetry ∧ m.retain = false) ∨
      (m.topic = topics.scan ∧ m.retain = false) := by
  cases kind with
  | status s =>
      cases hMessage
      exact Or.inl ⟨rfl, rfl⟩
  | telemetry t =>
      simp only [fakeCarMessage] at hMessage
      split at hMessage
      · cases hMessage
        exact Or.inr (Or.inl ⟨rfl, rfl⟩)
      · cases hMessage
  | scan frame =>
      simp only [fakeCarMessage] at hMessage
      split at hMessage
      · cases hMessage
        exact Or.inr (Or.inr ⟨rfl, rfl⟩)
      · cases hMessage

theorem publishedAs_published {pc : Postcard T} {accepts : Nat → Bool} {file : List UInt8}
    {events : List (CarEvent T)} {acts : List FakeCarAct} {result : Except FakeCarError Unit}
    (hWire : WireRoundTrips crates hub car texts) (hRead : readAll pc file = some events)
    (hRun : fakeCar crates pc accepts car file = (acts, result)) :
    ∃ statusTopic, PublishedAs hub car statusTopic (published acts) := by
  rcases fakeCar_publishes hRead hRun with ⟨-, hNone⟩ | ⟨topics, first, messages, hTopics, -,
    hPublishes, hEnd⟩
  · rw [hNone]
    exact ⟨"", nofun, nofun⟩
  · obtain ⟨hStatus, hTelemetry, hScan⟩ := FakeCarTopics.of_eq_some hTopics
    have hRetain : ∀ m ∈ published acts, (m.topic = topics.status ∧ m.retain = true) ∨
        (m.topic = topics.telemetry ∧ m.retain = false) ∨
          (m.topic = topics.scan ∧ m.retain = false) := by
      intro m hm
      rcases hEnd with ⟨-, -, hActs⟩ | ⟨-, hActs⟩
      · rw [hActs] at hm
        rcases List.mem_append.mp hm with hMessage | hLast
        · obtain ⟨kind, hKind⟩ := hPublishes.exists_of_mem hMessage
          exact fakeCarMessage_retain hKind
        · rw [List.mem_singleton.mp hLast]
          exact Or.inl ⟨rfl, rfl⟩
      · rw [hActs] at hm
        obtain ⟨kind, hKind⟩ := hPublishes.exists_of_mem hm
        exact fakeCarMessage_retain hKind
    refine ⟨topics.status, ?_, ?_⟩
    · intro m hm hParse
      rcases hRetain m hm with hGood | ⟨hTopic, -⟩ | ⟨hTopic, -⟩
      · exact hGood
      · rw [hTopic, hWire.topic _ _ hTelemetry] at hParse
        cases hParse
      · rw [hTopic, hWire.topic _ _ hScan] at hParse
        cases hParse
    · intro m hm hParse
      rcases hRetain m hm with ⟨hTopic, -⟩ | ⟨-, hNot⟩ | ⟨-, hNot⟩
      · rw [hTopic, hWire.topic _ _ hStatus] at hParse
        rcases hParse with hParse | hParse <;> cases hParse
      · exact hNot
      · exact hNot

/-- What a reader of one kind finds in what was said. -/
theorem filterMap_saidBy {β : Type} (f : EventKind T → Option β) (first : List (CarEvent T))
    (result : Except FakeCarError Unit) :
    (saidBy crates hub first result).filterMap f =
      first.filterMap (fun e => (overTheWire crates hub e.kind).bind f) ++
        (lastWords result).filterMap fun s => f (.status s) := by
  rw [saidBy, List.filterMap_append, List.filterMap_filterMap, List.filterMap_map]
  rfl

theorem statuses_saidBy (first : List (CarEvent T)) (result : Except FakeCarError Unit) :
    (saidBy crates hub first result).filterMap EventKind.status? =
      first.filterMap CarEvent.status? ++ lastWords result := by
  have hEach : ∀ e : CarEvent T, (overTheWire crates hub e.kind).bind EventKind.status? =
      e.status? := by
    intro e
    obtain ⟨c, atMs, kind⟩ := e
    cases kind with
    | telemetry t => cases hJson : throughJson crates hub t <;> simp [overTheWire, hJson] <;> rfl
    | _ => rfl
  rw [filterMap_saidBy, List.filterMap_congr fun e _ => hEach e]
  exact congrArg _ List.filterMap_some

theorem telemetries_saidBy (first : List (CarEvent T)) (result : Except FakeCarError Unit) :
    (saidBy crates hub first result).filterMap EventKind.telemetry? =
      (first.filterMap CarEvent.telemetry?).filterMap (throughJson crates hub) := by
  have hEach : ∀ e : CarEvent T, (overTheWire crates hub e.kind).bind EventKind.telemetry? =
      e.telemetry?.bind (throughJson crates hub) := by
    intro e
    obtain ⟨c, atMs, kind⟩ := e
    cases kind with
    | telemetry t =>
        show ((throughJson crates hub t).map EventKind.telemetry).bind EventKind.telemetry? =
          throughJson crates hub t
        cases throughJson crates hub t <;> rfl
    | _ => rfl
  rw [filterMap_saidBy, List.filterMap_congr fun e _ => hEach e, List.filterMap_filterMap]
  cases result <;> exact List.append_nil _

theorem scans_saidBy (first : List (CarEvent T)) (result : Except FakeCarError Unit) :
    (saidBy crates hub first result).filterMap EventKind.scan? =
      first.filterMap CarEvent.scan? := by
  have hEach : ∀ e : CarEvent T, (overTheWire crates hub e.kind).bind EventKind.scan? =
      e.scan? := by
    intro e
    obtain ⟨c, atMs, kind⟩ := e
    cases kind with
    | telemetry t => cases hJson : throughJson crates hub t <;> simp [overTheWire, hJson] <;> rfl
    | _ => rfl
  rw [filterMap_saidBy, List.filterMap_congr fun e _ => hEach e]
  cases result <;> exact List.append_nil _

end Wire

/-! ## At the hub -/

/-- A message on a topic of the car that the hub decodes. -/
def Message.isAbout (hub : MqttCrates T) (car : String) (m : Message) : Bool :=
  decide (hub.parse m.topic = some (car, .status) ∨ hub.parse m.topic = some (car, .telemetry) ∨
    hub.parse m.topic = some (car, .scan))

theorem Message.isAbout_of_tells {hub : MqttCrates T} {car : String} {m : Message}
    (h : m.tells hub car ≠ none) : m.isAbout hub car = true := by
  obtain ⟨kind, hTells⟩ := Option.ne_none_iff_exists'.mp h
  refine decide_eq_true ?_
  rcases Message.tells_cases hTells with ⟨hParse, -⟩ | ⟨hParse, -⟩ | ⟨hParse, -⟩
  · exact Or.inl hParse
  · exact Or.inr (Or.inl hParse)
  · exact Or.inr (Or.inr hParse)

theorem said_filter (hub : MqttCrates T) (car : String) (sent : List Message) :
    said hub car (sent.filter (Message.isAbout hub car)) = said hub car sent := by
  rw [said, said, List.filterMap_filter]
  refine List.filterMap_congr fun m _ => ?_
  split
  · rfl
  · rename_i hNot
    by_contra hSome
    exact hNot (Message.isAbout_of_tells (Ne.symm hSome))

theorem PublishedAs.of_filter {hub : MqttCrates T} {car statusTopic : String}
    {sent : List Message}
    (h : PublishedAs hub car statusTopic (sent.filter (Message.isAbout hub car))) :
    PublishedAs hub car statusTopic sent where
  status m hm hParse :=
    h.status m (List.mem_filter.mpr ⟨hm, decide_eq_true (Or.inl hParse)⟩) hParse
  others m hm hParse :=
    h.others m (List.mem_filter.mpr ⟨hm, decide_eq_true (Or.inr hParse)⟩) hParse

variable [HubFloat F]

/-- **A recording that drives past.** Let nothing else be published about the car, and let nothing
about it be lost; the hub may reconnect as often as it likes. Then the hub shows under the car's id
what the fake car published of the recording, a part from the beginning, and all of it if the fake
car succeeds: the changes of its statuses, its telemetry as JSON renders it, its scans. A fake car
that succeeds leaves the car `offline`. -/
theorem fake_car_relives_recording (crates : FakeCarCrates T) (hub : MqttCrates T)
    (pc : Postcard T) (accepts : Nat → Bool) (car : String) (file : List UInt8)
    (events : List (CarEvent T)) (acts : List FakeCarAct) (result : Except FakeCarError Unit)
    (sent arrived : List Message) (turns : List MqttTurn) (s : MqttIngest T) (n : Nat)
    (inputs : List (Input T F)) (p : Pipeline T F)
    (hWire : WireRoundTrips crates hub car ("offline" :: events.filterMap CarEvent.status?))
    (hRead : readAll pc file = some events)
    (hFake : fakeCar crates pc accepts car file = (acts, result))
    (hSent : sent.filter (Message.isAbout hub car) = published acts)
    (hDelivered : BrokerDelivers (fun m => m.isAbout hub car = false) sent arrived)
    (hArrived : publishesIn hub turns = arrived.map Message.wire)
    (hIngest : (mqttIngest hub).exec MqttIngest.new turns = some s)
    (hRunning : s.running = true)
    (hInputs : kindsOf car (eventsOf inputs) = kindsOf car s.sent)
    (hRun : (pipeline T F n).exec Pipeline.new inputs = some p) :
    ∃ first, first <+: events ∧ (result = .ok () → first = events) ∧
      p.hub.events.filterMap (WsEvent.statusOf? car) =
        changes "unknown" (first.filterMap CarEvent.status? ++ lastWords result) ∧
      p.hub.events.filterMap (WsEvent.telemetryOf? car) =
        (first.filterMap CarEvent.telemetry?).filterMap (throughJson crates hub) ∧
      scansOf car inputs = first.filterMap CarEvent.scan? ∧
      (result = .ok () → ∃ snap, p.hub.cars.lookup car = some snap ∧ snap.status = "offline" ∧
        snap.scansTotal = (events.filterMap CarEvent.scan?).length) := by
  obtain ⟨first, hFirst, hAll, hSaid⟩ := said_published hWire hRead hFake
  obtain ⟨statusTopic, hPublished⟩ := publishedAs_published hWire hRead hFake
  have hAs : PublishedAs hub car statusTopic sent := .of_filter (hSent ▸ hPublished)
  have hSentSaid : said hub car sent = saidBy crates hub first result := by
    rw [← said_filter, hSent, hSaid]
  have hKinds : kindsOf car (eventsOf inputs) = said hub car arrived := by
    rw [hInputs, ← kindsOf_decodedIn hArrived car]
    rcases (MqttInvariant.of_run hIngest).forwarded with ⟨-, hForwarded⟩ | ⟨_, _, _, hStopped, -⟩
    · rw [hForwarded]
    · rw [hRunning] at hStopped
      cases hStopped
  have hSafe : ∀ {β : Type} (f : EventKind T → Option β), ∀ m ∈ sent,
      (m.tells hub car).bind f ≠ none → ¬ m.isAbout hub car = false := by
    intro β f m _ hSome hNot
    rw [Message.isAbout_of_tells fun hNone => hSome (by rw [hNone]; rfl)] at hNot
    cases hNot
  have hStatuses : changes "unknown" ((kindsOf car (eventsOf inputs)).filterMap
      EventKind.status?) = changes "unknown" (first.filterMap CarEvent.status? ++
        lastWords result) := by
    rw [hKinds, filterMap_said, Relayed.changes_eq "unknown" hDelivered hAs.retained
      (hSafe EventKind.status?), ← filterMap_said, hSentSaid, statuses_saidBy]
  have hScans : scansOf car inputs = first.filterMap CarEvent.scan? := by
    rw [scans_kindsOf, hKinds, filterMap_said, Relayed.filterMap_eq hDelivered
      (hAs.not_retained fun _ => rfl) (hSafe EventKind.scan?), ← filterMap_said, hSentSaid,
      scans_saidBy]
  refine ⟨first, hFirst, hAll, ?_, ?_, hScans, ?_⟩
  · rw [statuses_of_run hRun, hStatuses]
  · rw [telemetries_of_run hRun, hKinds, filterMap_said, Relayed.filterMap_eq hDelivered
      (hAs.not_retained fun _ => rfl) (hSafe EventKind.telemetry?), ← filterMap_said, hSentSaid,
      telemetries_saidBy]
  · intro hOk
    subst hOk
    have hLast : ((kindsOf car (eventsOf inputs)).filterMap EventKind.status?).getLast?.getD
        "unknown" = "offline" := by
      rw [← getLast?_changes, hStatuses, getLast?_changes, lastWords, List.getLast?_concat,
        Option.getD_some]
    -- a car whose last status is known has sent an event
    have hHeard : ∃ e ∈ eventsOf inputs, e.car = car := by
      by_contra hNone
      have hEmpty : kindsOf car (eventsOf inputs) = [] := by
        refine List.filterMap_eq_nil_iff.mpr fun e he => if_neg fun hCar => ?_
        exact hNone ⟨e, he, hCar⟩
      rw [hEmpty] at hLast
      have hAbsurd : "unknown" = "offline" := hLast
      exact absurd hAbsurd (by decide)
    obtain ⟨e, he, rfl⟩ := hHeard
    obtain ⟨snap, hLookup, hFields⟩ := event_fields hRun he
    refine ⟨snap, hLookup, ?_, ?_⟩
    · have hStatus := congrArg EventFields.status hFields
      rw [← hLast, statuses_kindsOf]
      exact hStatus
    · have hTotal := congrArg EventFields.scansTotal hFields
      rw [← hAll rfl, ← hScans, scansOf, carLog_events]
      exact hTotal

/-- Crates of a fake car `a` that fit `carCrates`; one scan can be encoded. -/
def fakeCrates : FakeCarCrates UInt8 where
  topic car channel :=
    if car = "a" then
      match channel with
      | .status => some "olivaw/a/status"
      | .telemetry => some "olivaw/a/telemetry"
      | .scan => some "olivaw/a/scan"
      | .cmd => some "olivaw/a/cmd"
    else none
  toVec t := some [t]
  encode frame := if frame = ⟨4, 0, [], 0⟩ then some [4] else none

/-- Two cars were recorded. -/
def twoCarsRecorded : List (CarEvent UInt8 × List UInt8) :=
  [(⟨"x", 10, .status "online"⟩, [1]), (⟨"y", 5010, .scan ⟨4, 0, [], 0⟩⟩, [2]),
    (⟨"x", 5011, .telemetry 9⟩, [3])]

def twoCarsFile : List UInt8 := frames [[1], [2], [3]]

def cmdMessage : Message := ⟨"olivaw/a/cmd", false, [0]⟩

/-- The hub reconnects before the last message, and a command comes by. -/
def fakeCarTurns : List MqttTurn :=
  [⟨.connAck, 0, true, true⟩,
    ⟨.publish (intoBytes "olivaw/a/status") (intoBytes "online"), 1, true, true⟩,
    ⟨.publish (intoBytes "olivaw/a/cmd") [0], 1, true, true⟩,
    ⟨.publish (intoBytes "olivaw/a/scan") [4], 2, true, true⟩,
    ⟨.publish (intoBytes "olivaw/a/telemetry") [9], 3, true, true⟩, ⟨.connAck, 4, true, true⟩,
    ⟨.publish (intoBytes "olivaw/a/status") (intoBytes "online"), 5, true, true⟩,
    ⟨.publish (intoBytes "olivaw/a/status") (intoBytes "offline"), 6, true, true⟩]

def fakeCarInputs : List (Input UInt8 ℚ) :=
  [.event ⟨"a", 1, .status "online"⟩ 0 none, .event ⟨"a", 2, .scan ⟨4, 0, [], 0⟩⟩ 0 none,
    .event ⟨"a", 3, .telemetry 9⟩ 0 none, .event ⟨"a", 5, .status "online"⟩ 0 none,
    .event ⟨"a", 6, .status "offline"⟩ 0 none]

theorem fakeCrates_roundTrip :
    WireRoundTrips fakeCrates carCrates "a" ["offline", "online"] where
  topic channel t h := by
    cases channel <;> cases h <;> rfl
  utf8 := by decide
  scan frame bytes h := by
    simp only [fakeCrates] at h
    split at h
    · rename_i hFrame
      cases h
      rw [hFrame]
      rfl
    · cases h

theorem fakeCarTurns_delivered :
    BrokerDelivers (fun m => m.isAbout carCrates "a" = false)
      [onlineMessage, cmdMessage, scanMessage, telemetryMessage, offlineMessage]
      [onlineMessage, cmdMessage, scanMessage, telemetryMessage, onlineMessage,
        offlineMessage] := by
  have hCommand : BrokerDelivers (fun m => m.isAbout carCrates "a" = false)
      (([] ++ [onlineMessage]) ++ [cmdMessage]) (([] ++ [onlineMessage]) ++ [cmdMessage]) :=
    .passed cmdMessage (.passed onlineMessage .nil)
  have hLink : BrokerDelivers (fun m => m.isAbout carCrates "a" = false)
      ([] ++ onlineMessage :: [cmdMessage, scanMessage, telemetryMessage])
      [onlineMessage, cmdMessage, scanMessage, telemetryMessage] :=
    Relayed.passed telemetryMessage (Relayed.passed scanMessage hCommand)
  exact Relayed.passed offlineMessage (Relayed.again hLink rfl (by decide))

theorem twoCarsFile_read : readAll (Postcard.ofTable twoCarsRecorded) twoCarsFile =
    some (twoCarsRecorded.map Prod.fst) :=
  Encoded.read_frames (Postcard.roundTrips_ofTable (by decide))
    (.cons ⟨rfl, by decide⟩ (.cons ⟨rfl, by decide⟩ (.cons ⟨rfl, by decide⟩ .nil)))

theorem fake_car_relives_recording_two_cars :
    ∃ s p, fakeCar fakeCrates (Postcard.ofTable twoCarsRecorded) (fun _ => true) "a" twoCarsFile =
        ([.publish onlineMessage, .sleep 2000, .publish scanMessage, .sleep 1,
          .publish telemetryMessage, .publish offlineMessage, .sleep 300], .ok ()) ∧
      (mqttIngest carCrates).exec MqttIngest.new fakeCarTurns = some s ∧
      (pipeline UInt8 ℚ 5).exec Pipeline.new fakeCarInputs = some p ∧
      p.hub.events.filterMap (WsEvent.statusOf? "a") = ["online", "offline"] ∧
      ∃ snap, p.hub.cars.lookup "a" = some snap ∧ snap.status = "offline" ∧
        snap.scansTotal = 1 := by
  have hFake : fakeCar fakeCrates (Postcard.ofTable twoCarsRecorded) (fun _ => true) "a"
      twoCarsFile = ([.publish onlineMessage, .sleep 2000, .publish scanMessage, .sleep 1,
        .publish telemetryMessage, .publish offlineMessage, .sleep 300], .ok ()) := by
    rw [fakeCar, twoCarsFile_read]
    rfl
  obtain ⟨first, -, hAll, hStatuses, -, -, hSnap⟩ := fake_car_relives_recording fakeCrates carCrates
    (Postcard.ofTable twoCarsRecorded) (fun _ => true) "a" twoCarsFile
    (twoCarsRecorded.map Prod.fst) _ _
    [onlineMessage, cmdMessage, scanMessage, telemetryMessage, offlineMessage]
    [onlineMessage, cmdMessage, scanMessage, telemetryMessage, onlineMessage, offlineMessage]
    fakeCarTurns _ 5 fakeCarInputs _ fakeCrates_roundTrip twoCarsFile_read hFake rfl
    fakeCarTurns_delivered rfl rfl rfl rfl rfl
  refine ⟨_, _, hFake, rfl, rfl, ?_, hSnap rfl⟩
  rw [hStatuses, hAll rfl]
  rfl

end OlivawHub
