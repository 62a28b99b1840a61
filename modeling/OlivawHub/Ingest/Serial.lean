import OlivawHub.Foundations.ExactFloats
import OlivawHub.Pipeline.CarLog

/-!
# A lidar on the serial port

`run` of `serial.rs`: the calls before the first event, then one turn of the loop at a time. The
lidar decides what a turn gets, and the labels carry the clocks and whether the channel is open. The
reader sends "online" once and no other status, so a lidar that stops is left online
(`serial_restores_iff`), unlike the cars of the broker, whose "offline" is published for them.

Scaling by 64 and by 4 is exact in `f32`, so a point is read without rounding.
-/

namespace OlivawHub

open Foundations

/-- A return of the lidar. -/
structure LidarPoint where
  angleDeg : ExactFloat ℚ
  distanceMm : ExactFloat ℚ
  quality : UInt8
  deriving DecidableEq, Repr

/-- What the reader uses of `olivaw_proto`. -/
structure ProtoCrate (T : Type) where
  /-- The capacity of the points of a frame. -/
  maxPoints : Nat
  /-- No flags, this uptime, the lidar up, and the default otherwise. -/
  telemetry : UInt32 → T

inductive SerialError (ε : Type) where
  | lidar (e : ε)
  /-- The channel is closed. -/
  | closed

inductive SerialPhase (ε : Type) where
  | opening
  | scanning
  /-- `run` has returned; `isOpen` tells whether the channel was open then. -/
  | returned (result : Except (SerialError ε) Unit) (isOpen : Bool)

/-- The reader thread. `sent` is what it sent into the channel. -/
structure SerialReader (ε T : Type) where
  phase : SerialPhase ε
  seq : UInt32
  lastTelemetry : Option Nat
  sent : List (CarEvent T)

/-- The clocks, in nanoseconds since the start, and the channel, as one turn finds them. -/
structure SerialTurn where
  elapsed : Nat
  checked : Nat
  marked : Nat
  uptime : Nat
  scanMs : UInt64
  scanOpen : Bool
  telemetryMs : UInt64
  telemetryOpen : Bool

inductive SerialLabel (ε : Type) where
  /-- The results of `open`, `health` and `start_scan`. -/
  | start (opened health started : Except ε Unit) (atMs : UInt64) (isOpen : Bool)
  | scan (points : List LidarPoint) (t : SerialTurn)
  | scanError (e : ε) (isOpen : Bool)
  | noMoreScans (isOpen : Bool)

/-- The lidar fails or comes to its end while the channel is open. -/
def SerialLabel.Quits {ε : Type} : SerialLabel ε → Prop
  | .scanError _ isOpen => isOpen = true
  | .noMoreScans isOpen => isOpen = true
  | _ => False

/-- `u32::try_from(n).unwrap_or(u32::MAX)`. -/
def toU32 (n : Nat) : UInt32 := .ofNat (min n (2 ^ 32 - 1))

def elapsedMs (elapsed : Nat) : UInt32 := toU32 (elapsed / 10 ^ 6)

/-- Fixed-point with saturation. -/
def toQ (v scale : ExactFloat ℚ) : UInt16 :=
  let q := clamp (v * scale).round (.num 0) (.num 65535)
  .ofNat (q.asInt 0 65535).toNat

def LidarPoint.toScanPoint (p : LidarPoint) : ScanPoint where
  angleQ6 := toQ p.angleDeg (.num 64)
  distQ2 := toQ p.distanceMm (.num 4)
  quality := p.quality

/-- One turn of the loop over the points. -/
def pushPoint (maxPoints : Nat) (frame : ScanFrame) (p : LidarPoint) : ScanFrame :=
  if frame.points.length < maxPoints then
    { frame with points := frame.points ++ [p.toScanPoint] }
  else { frame with dropped := .ofNat (min (frame.dropped.toNat + 1) (2 ^ 16 - 1)) }

variable {ε T : Type}

/-- The frame of a scan. -/
def SerialReader.frame (crate : ProtoCrate T) (s : SerialReader ε T) (points : List LidarPoint)
    (t : SerialTurn) : ScanFrame :=
  points.foldl (pushPoint crate.maxPoints) ⟨s.seq, elapsedMs t.elapsed, [], 0⟩

namespace SerialReader

def new : SerialReader ε T := ⟨.opening, 0, none, []⟩

/-- `blocking_send` with `?`. -/
def send (s : SerialReader ε T) (isOpen : Bool) (e : CarEvent T) : SerialReader ε T :=
  if isOpen then { s with sent := s.sent ++ [e] }
  else { s with phase := .returned (.error .closed) false }

/-- The calls before the loop. -/
def start (car : String) (s : SerialReader ε T) (opened health started : Except ε Unit)
    (atMs : UInt64) (isOpen : Bool) : SerialReader ε T :=
  match (do opened; health; started : Except ε Unit) with
  | .error e => { s with phase := .returned (.error (.lidar e)) isOpen }
  | .ok () => { s with phase := .scanning }.send isOpen ⟨car, atMs, .status "online"⟩

/-- `t.elapsed() >= Duration::from_secs(1)` for the last telemetry, or there is none. -/
def telemetryDue (s : SerialReader ε T) (t : SerialTurn) : Bool :=
  s.lastTelemetry.all fun last => 10 ^ 9 ≤ t.checked - last

/-- One turn of the loop, with a scan. -/
def scan (crate : ProtoCrate T) (car : String) (s : SerialReader ε T) (points : List LidarPoint)
    (t : SerialTurn) : SerialReader ε T :=
  let frame := s.frame crate points t
  let s := { s with seq := s.seq + 1 }
  let s' := s.send t.scanOpen ⟨car, t.scanMs, .scan frame⟩
  if t.scanOpen ∧ s.telemetryDue t then
    { s' with lastTelemetry := some t.marked }.send t.telemetryOpen
      ⟨car, t.telemetryMs, .telemetry (crate.telemetry (toU32 (t.uptime / 10 ^ 9)))⟩
  else s'

end SerialReader

/-- `run`, one turn at a time. -/
def serialReader (crate : ProtoCrate T) (car : String) :
    Machine (SerialReader ε T) (SerialLabel ε) where
  step s l :=
    match s.phase, l with
    | .opening, .start opened health started atMs isOpen =>
        some (s.start car opened health started atMs isOpen)
    | .scanning, .scan points t => some (s.scan crate car points t)
    | .scanning, .scanError e isOpen =>
        some { s with phase := .returned (.error (.lidar e)) isOpen }
    | .scanning, .noMoreScans isOpen => some { s with phase := .returned (.ok ()) isOpen }
    | _, _ => none

/-! ## Frames -/

/-- A frame takes points up to its capacity and counts the others, as far as the counter goes. -/
theorem foldl_pushPoint {maxPoints : Nat} (seq tMs : UInt32) (points : List LidarPoint)
    (held : List ScanPoint) {dropped : Nat} (hRoom : held.length ≤ maxPoints)
    (hDropped : dropped < 2 ^ 16) :
    points.foldl (pushPoint maxPoints) ⟨seq, tMs, held, .ofNat dropped⟩ =
      ⟨seq, tMs, (held ++ points.map LidarPoint.toScanPoint).take maxPoints,
        .ofNat (min (dropped + (held.length + points.length - maxPoints)) (2 ^ 16 - 1))⟩ := by
  induction points generalizing held dropped with
  | nil =>
      have hSum : min (dropped + (held.length + 0 - maxPoints)) (2 ^ 16 - 1) = dropped := by omega
      rw [List.foldl_nil, List.length_nil, hSum, List.map_nil, List.append_nil,
        List.take_of_length_le hRoom]
  | cons p points ih =>
      rw [List.foldl_cons, List.map_cons, List.length_cons, pushPoint]
      by_cases hLt : held.length < maxPoints
      · have hRoom' : (held ++ [p.toScanPoint]).length ≤ maxPoints := by
          rw [List.length_append, List.length_singleton]
          omega
        have hLength : (held ++ [p.toScanPoint]).length + points.length =
            held.length + (points.length + 1) := by
          rw [List.length_append, List.length_singleton]
          omega
        rw [if_pos hLt, ih _ hRoom' hDropped, hLength, List.append_assoc, List.singleton_append]
      · have hTake : (held ++ points.map LidarPoint.toScanPoint).take maxPoints =
            (held ++ p.toScanPoint :: points.map LidarPoint.toScanPoint).take maxPoints := by
          rw [List.take_append_of_le_length (by omega), List.take_append_of_le_length (by omega)]
        have hNat : (UInt16.ofNat dropped).toNat = dropped := UInt16.toNat_ofNat_of_lt' hDropped
        have hSum : min (min (dropped + 1) (2 ^ 16 - 1) +
              (held.length + points.length - maxPoints)) (2 ^ 16 - 1) =
            min (dropped + (held.length + (points.length + 1) - maxPoints)) (2 ^ 16 - 1) := by
          omega
        simp only [if_neg hLt, hNat]
        rw [ih held hRoom (by omega), hTake, hSum]

theorem SerialReader.frame_eq (crate : ProtoCrate T) (s : SerialReader ε T)
    (points : List LidarPoint) (t : SerialTurn) :
    s.frame crate points t = ⟨s.seq, elapsedMs t.elapsed,
      (points.map LidarPoint.toScanPoint).take crate.maxPoints,
      .ofNat (min (points.length - crate.maxPoints) (2 ^ 16 - 1))⟩ := by
  have hEmpty := foldl_pushPoint s.seq (elapsedMs t.elapsed) points []
    (Nat.zero_le crate.maxPoints) (Nat.two_pow_pos 16)
  rw [List.length_nil, Nat.zero_add, Nat.zero_add, List.nil_append] at hEmpty
  exact hEmpty

/-! ## Statuses -/

def SerialReader.statuses (s : SerialReader ε T) : List String :=
  s.sent.filterMap CarEvent.status?

/-- Stopped after "online" with the channel open, the reader has sent another status last. -/
def SerialReader.Restores (s : SerialReader ε T) : Prop :=
  ∀ result, s.phase = .returned result true → "online" ∈ s.statuses →
    s.statuses.getLast? ≠ some "online"

/-- What the reader has said about its status, and why it stopped. -/
inductive SerialReader.Announced (labels : List (SerialLabel ε)) (s : SerialReader ε T) : Prop where
  | opening (phase : s.phase = .opening) (sent : s.sent = []) (quiet : ∀ l ∈ labels, ¬l.Quits)
  | scanning (phase : s.phase = .scanning) (online : s.statuses = ["online"])
      (quiet : ∀ l ∈ labels, ¬l.Quits)
  | quit (result : Except (SerialError ε) Unit) (phase : s.phase = .returned result true)
      (online : s.statuses = ["online"]) (quit : ∃ l ∈ labels, l.Quits)
  | excused (result : Except (SerialError ε) Unit) (isOpen : Bool)
      (phase : s.phase = .returned result isOpen) (excuse : isOpen = false ∨ s.statuses = [])
      (quiet : ∀ l ∈ labels, ¬l.Quits)

variable {crate : ProtoCrate T} {car : String} {s s' : SerialReader ε T} {l : SerialLabel ε}
  {labels : List (SerialLabel ε)}

namespace SerialReader

theorem statuses_send {e : CarEvent T} (h : e.status? = none) (isOpen : Bool) :
    (s.send isOpen e).statuses = s.statuses := by
  cases isOpen
  · rfl
  · simp [send, statuses, h]

/-- A send goes on only through an open channel. -/
theorem phase_send (isOpen : Bool) (e : CarEvent T) :
    (s.send isOpen e).phase = s.phase ∨
      (s.send isOpen e).phase = .returned (.error .closed) false := by
  cases isOpen
  · exact Or.inr rfl
  · exact Or.inl rfl

theorem statuses_scan (points : List LidarPoint) (t : SerialTurn) :
    (s.scan crate car points t).statuses = s.statuses := by
  simp only [scan]
  split
  · rw [statuses_send rfl]
    exact statuses_send rfl t.scanOpen
  · exact statuses_send rfl t.scanOpen

/-- A turn with a scan leaves the loop only at a closed channel. -/
theorem phase_scan (points : List LidarPoint) (t : SerialTurn) :
    (s.scan crate car points t).phase = s.phase ∨
      (s.scan crate car points t).phase = .returned (.error .closed) false := by
  simp only [scan]
  split
  · rename_i hDue
    rw [hDue.1]
    exact phase_send ..
  · exact phase_send ..

/-- The calls before the loop end in an error that nobody is told about, or say "online". -/
theorem start_cases (hNew : s.sent = []) (opened health started : Except ε Unit) (atMs : UInt64)
    (isOpen : Bool) :
    ((s.start car opened health started atMs isOpen).phase = .scanning ∧
        (s.start car opened health started atMs isOpen).statuses = ["online"]) ∨
      ∃ result stillOpen, (s.start car opened health started atMs isOpen).phase =
          .returned result stillOpen ∧
        (s.start car opened health started atMs isOpen).statuses = [] := by
  unfold start
  split
  · exact Or.inr ⟨_, _, rfl, by simp [statuses, hNew]⟩
  · cases isOpen
    · exact Or.inr ⟨_, _, rfl, by simp [statuses, send, hNew]⟩
    · exact Or.inl ⟨rfl, by simp [statuses, send, hNew, CarEvent.status?]⟩

end SerialReader

/-- All that a turn can do: make the calls before the loop, send a scan, or return. -/
theorem serialReader_cases (h : (serialReader crate car).step s l = some s') :
    (s.phase = .opening ∧ ∃ opened health started atMs isOpen,
        l = .start opened health started atMs isOpen ∧
          s' = s.start car opened health started atMs isOpen) ∨
    (s.phase = .scanning ∧ ∃ points t, l = .scan points t ∧ s' = s.scan crate car points t) ∨
    (s.phase = .scanning ∧ ∃ result isOpen, (l.Quits ↔ isOpen = true) ∧
      s' = { s with phase := .returned result isOpen }) := by
  obtain ⟨phase, seq, lastTelemetry, sent⟩ := s
  cases phase with
  | opening =>
      cases l with
      | start opened health started atMs isOpen =>
          cases h
          exact Or.inl ⟨rfl, _, _, _, _, _, rfl, rfl⟩
      | scan points t => cases h
      | scanError e isOpen => cases h
      | noMoreScans isOpen => cases h
  | scanning =>
      cases l with
      | start opened health started atMs isOpen => cases h
      | scan points t =>
          cases h
          exact Or.inr (Or.inl ⟨rfl, _, _, rfl, rfl⟩)
      | scanError e isOpen =>
          cases h
          exact Or.inr (Or.inr ⟨rfl, _, isOpen, Iff.rfl, rfl⟩)
      | noMoreScans isOpen =>
          cases h
          exact Or.inr (Or.inr ⟨rfl, _, isOpen, Iff.rfl, rfl⟩)
  | returned result isOpen => cases l <;> cases h

/-! ## Runs -/

theorem quiet_concat (hQuiet : ∀ l ∈ labels, ¬l.Quits) (hLast : ¬l.Quits) :
    ∀ l' ∈ labels ++ [l], ¬l'.Quits := by
  intro l' hl'
  rcases List.mem_append.mp hl' with hOld | hNew
  · exact hQuiet l' hOld
  · exact List.mem_singleton.mp hNew ▸ hLast

namespace SerialReader

theorem Announced.of_opening (h : Announced labels s) (hPhase : s.phase = .opening) :
    s.sent = [] ∧ ∀ l ∈ labels, ¬l.Quits := by
  cases h with
  | opening _ hSent hQuiet => exact ⟨hSent, hQuiet⟩
  | scanning hOther => cases hPhase.symm.trans hOther
  | quit _ hOther => cases hPhase.symm.trans hOther
  | excused _ _ hOther => cases hPhase.symm.trans hOther

theorem Announced.of_scanning (h : Announced labels s) (hPhase : s.phase = .scanning) :
    s.statuses = ["online"] ∧ ∀ l ∈ labels, ¬l.Quits := by
  cases h with
  | scanning _ hOnline hQuiet => exact ⟨hOnline, hQuiet⟩
  | opening hOther => cases hPhase.symm.trans hOther
  | quit _ hOther => cases hPhase.symm.trans hOther
  | excused _ _ hOther => cases hPhase.symm.trans hOther

theorem Announced.step (h : Announced labels s)
    (hStep : (serialReader crate car).step s l = some s') : Announced (labels ++ [l]) s' := by
  rcases serialReader_cases hStep with ⟨hPhase, opened, health, started, atMs, isOpen, rfl, rfl⟩ |
    ⟨hPhase, points, t, rfl, rfl⟩ | ⟨hPhase, result, isOpen, hQuits, rfl⟩
  · obtain ⟨hSent, hBefore⟩ := h.of_opening hPhase
    have hQuiet := quiet_concat (l := .start opened health started atMs isOpen) hBefore id
    rcases start_cases hSent opened health started atMs isOpen with ⟨hNext, hOnline⟩ |
      ⟨result, stillOpen, hNext, hNone⟩
    · exact .scanning hNext hOnline hQuiet
    · exact .excused result stillOpen hNext (Or.inr hNone) hQuiet
  · obtain ⟨hOnline, hBefore⟩ := h.of_scanning hPhase
    have hQuiet := quiet_concat (l := .scan points t) hBefore id
    have hScan : (s.scan crate car points t).phase = s.phase ∨
        (s.scan crate car points t).phase = .returned (.error .closed) false :=
      phase_scan points t
    rcases hScan with hNext | hNext
    · exact .scanning (hNext.trans hPhase) ((statuses_scan points t).trans hOnline) hQuiet
    · exact .excused _ _ hNext (Or.inl rfl) hQuiet
  · obtain ⟨hOnline, hBefore⟩ := h.of_scanning hPhase
    cases isOpen with
    | false =>
        have hLast : ¬l.Quits := fun hl => Bool.false_ne_true (hQuits.mp hl)
        exact .excused result false rfl (Or.inl rfl) (quiet_concat hBefore hLast)
    | true => exact .quit result rfl hOnline ⟨l, by simp, hQuits.mpr rfl⟩

theorem Announced.of_run (hRun : (serialReader crate car).exec .new labels = some s) :
    Announced labels s :=
  Machine.exec_history (P := Announced) (.opening rfl rfl nofun)
    (fun _ _ _ _ _ h hStep => h.step hStep) hRun

theorem Announced.restores_iff (h : Announced labels s) :
    s.Restores ↔ ∀ l ∈ labels, ¬l.Quits := by
  cases h with
  | opening hPhase _ hQuiet =>
      exact ⟨fun _ => hQuiet, fun _ _ hOther => nomatch hPhase.symm.trans hOther⟩
  | scanning hPhase _ hQuiet =>
      exact ⟨fun _ => hQuiet, fun _ _ hOther => nomatch hPhase.symm.trans hOther⟩
  | quit result hPhase hOnline hQuit =>
      obtain ⟨l, hl, hQuits⟩ := hQuit
      refine ⟨fun hRestores => ?_, fun hQuiet => absurd hQuits (hQuiet l hl)⟩
      have hLast := hRestores result hPhase
      rw [hOnline] at hLast
      exact absurd rfl (hLast (List.mem_singleton_self _))
  | excused result isOpen hPhase hExcuse hQuiet =>
      refine ⟨fun _ => hQuiet, fun _ _ hOther hOnline => ?_⟩
      rcases hExcuse with rfl | hNone
      · cases hPhase.symm.trans hOther
      · rw [hNone] at hOnline
        cases hOnline

end SerialReader

variable {F : Type} [HubFloat F]

/-- **The serial lidar.** A run restores the status just when the lidar never stops while the
channel is open. If it does stop so, "online" is what every snapshot of the car says from then on,
as long as no one else speaks for the car. -/
theorem serial_restores_iff (crate : ProtoCrate T) (car : String) (labels : List (SerialLabel ε))
    (s : SerialReader ε T) (hRun : (serialReader crate car).exec .new labels = some s) :
    (s.Restores ↔ ∀ l ∈ labels, ¬l.Quits) ∧
    ((∃ l ∈ labels, l.Quits) → ∀ len (inputs : List (Input T F)) p,
      (pipeline T F len).exec .new inputs = some p → (carLog car inputs).events = s.sent →
        ∃ snap, p.hub.cars.lookup car = some snap ∧ snap.status = "online") := by
  have h := SerialReader.Announced.of_run hRun
  refine ⟨h.restores_iff, fun ⟨l, hl, hQuits⟩ len inputs p hPipeline hLog => ?_⟩
  have hOnline : s.statuses = ["online"] := by
    cases h with
    | quit _ _ hOnline => exact hOnline
    | opening _ _ hQuiet => exact absurd hQuits (hQuiet l hl)
    | scanning _ _ hQuiet => exact absurd hQuits (hQuiet l hl)
    | excused _ _ _ _ hQuiet => exact absurd hQuits (hQuiet l hl)
  have hLast : lastSome? CarEvent.status? (carLog car inputs).events = some "online" := by
    rw [hLog, lastSome?, ← SerialReader.statuses, hOnline]
    rfl
  have hOccurs : (carLog car inputs).Occurs := by
    refine Or.inl fun hNil => ?_
    rw [hNil] at hLast
    cases hLast
  have hLogged := CarLog.Invariant.of_run hPipeline
  refine ⟨_, hLogged.lookup hOccurs, ?_⟩
  rw [(hLogged.describes car).status, hLast]
  rfl

/-- One scan, and the lidar comes to its end. -/
def unplugged : List (SerialLabel String) :=
  [.start (.ok ()) (.ok ()) (.ok ()) 5 true, .scan [] ⟨0, 0, 0, 0, 6, true, 7, true⟩,
    .noMoreScans true]

def unitCrate : ProtoCrate Unit := ⟨500, fun _ => ()⟩

/-- A lidar that has come to its end is still online. -/
theorem unplugged_online : ∃ s, (serialReader unitCrate "lidar").exec .new unplugged = some s ∧
    s.sent = [⟨"lidar", 5, .status "online"⟩, ⟨"lidar", 6, .scan ⟨0, 0, [], 0⟩⟩,
      ⟨"lidar", 7, .telemetry ()⟩] ∧ ¬s.Restores :=
  ⟨_, rfl, rfl, fun hRestores => hRestores _ rfl (by decide) rfl⟩

theorem serial_restores_unplugged : ∃ s,
    (serialReader unitCrate "lidar").exec .new unplugged = some s ∧
      (s.Restores ↔ ∀ l ∈ unplugged, ¬l.Quits) :=
  ⟨_, rfl, (serial_restores_iff (F := ℚ) unitCrate "lidar" unplugged _ rfl).1⟩

end OlivawHub
