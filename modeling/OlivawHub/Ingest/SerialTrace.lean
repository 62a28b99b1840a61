import OlivawHub.Ingest.Serial
import OlivawHub.Foundations.Throttle

/-!
# What a serial lidar sends

The reader says "online" and then sends a frame for each rotation of the lidar, numbered from 0,
and after some of the frames telemetry: after the first, and after each that comes a second or more
after the last telemetry (`serial_sends_all`). What it has sent when it stops is a beginning of
this, and all of it unless the channel was closed.
-/

namespace OlivawHub

open Foundations

variable {ε T : Type}

/-- The rotations the lidar gave. -/
def SerialLabel.rotation? : SerialLabel ε → Option (List LidarPoint × SerialTurn)
  | .scan points t => some (points, t)
  | _ => none

def rotationsOf (labels : List (SerialLabel ε)) : List (List LidarPoint × SerialTurn) :=
  labels.filterMap SerialLabel.rotation?

/-- Telemetry at most once a second. -/
def telemetryThrottle : Throttle (List LidarPoint × SerialTurn) where
  gap := 10 ^ 9
  read r := r.2.checked
  mark r := r.2.marked

/-- The frame of rotation `k`. -/
def rotationFrame (crate : ProtoCrate T) (k : Nat) (points : List LidarPoint) (t : SerialTurn) :
    ScanFrame where
  seq := .ofNat k
  tMs := elapsedMs t.elapsed
  points := (points.map LidarPoint.toScanPoint).take crate.maxPoints
  dropped := .ofNat (min (points.length - crate.maxPoints) (2 ^ 16 - 1))

/-- What is sent for rotation `k`, with telemetry or without. -/
def rotationEvents (crate : ProtoCrate T) (car : String) (k : Nat)
    (told : (List LidarPoint × SerialTurn) × Bool) : List (CarEvent T) :=
  let (points, t) := told.1
  ⟨car, t.scanMs, .scan (rotationFrame crate k points t)⟩ ::
    if told.2 then
      [⟨car, t.telemetryMs, .telemetry (crate.telemetry (toU32 (t.uptime / 10 ^ 9)))⟩]
    else []

/-- All that is sent for the rotations. -/
def rotationStory (crate : ProtoCrate T) (car : String)
    (told : List ((List LidarPoint × SerialTurn) × Bool)) : List (CarEvent T) :=
  (told.mapIdx (rotationEvents crate car)).flatten

theorem rotationStory_concat (crate : ProtoCrate T) (car : String)
    (told : List ((List LidarPoint × SerialTurn) × Bool))
    (r : (List LidarPoint × SerialTurn) × Bool) :
    rotationStory crate car (told ++ [r]) =
      rotationStory crate car told ++ rotationEvents crate car told.length r := by
  rw [rotationStory, List.mapIdx_append, List.flatten_append, rotationStory]
  simp

namespace SerialReader

variable {crate : ProtoCrate T} {car : String} {s s' : SerialReader ε T}

/-- What was sent so far, while the reader goes on. -/
structure Telling (crate : ProtoCrate T) (car : String) (labels : List (SerialLabel ε))
    (s : SerialReader ε T) : Prop where
  seq : s.seq = .ofNat (rotationsOf labels).length
  last : s.lastTelemetry = telemetryThrottle.last (rotationsOf labels)
  sent : ∃ atMs, s.sent = ⟨car, atMs, .status "online"⟩ ::
    rotationStory crate car (telemetryThrottle.decisions none (rotationsOf labels))

/-- What every run keeps. -/
inductive Tells (crate : ProtoCrate T) (car : String) (labels : List (SerialLabel ε))
    (s : SerialReader ε T) : Prop where
  | opening (phase : s.phase = .opening) (seq : s.seq = 0) (last : s.lastTelemetry = none)
      (sent : s.sent = []) (quiet : rotationsOf labels = [])
  | scanning (phase : s.phase = .scanning) (telling : Telling crate car labels s)
  | stopped (result : Except (SerialError ε) Unit) (phase : s.phase = .returned result true)
      (all : s.sent = [] ∨ Telling crate car labels s)
  | closed (result : Except (SerialError ε) Unit) (phase : s.phase = .returned result false)
      (part : ∃ atMs, s.sent <+: ⟨car, atMs, .status "online"⟩ ::
        rotationStory crate car (telemetryThrottle.decisions none (rotationsOf labels)))

variable {labels : List (SerialLabel ε)} {points : List LidarPoint} {t : SerialTurn}

theorem rotationsOf_concat_scan (labels : List (SerialLabel ε)) (points : List LidarPoint)
    (t : SerialTurn) :
    rotationsOf (labels ++ [.scan points t]) = rotationsOf labels ++ [(points, t)] :=
  List.filterMap_append

theorem decisions_concat_scan :
    telemetryThrottle.decisions none (rotationsOf (labels ++ [.scan points t])) =
      telemetryThrottle.decisions none (rotationsOf labels) ++ [((points, t),
        telemetryThrottle.due (telemetryThrottle.last (rotationsOf labels)) (points, t))] := by
  rw [rotationsOf_concat_scan, Throttle.decisions_concat]

theorem story_concat_scan (crate : ProtoCrate T) (car : String) (labels : List (SerialLabel ε))
    (points : List LidarPoint) (t : SerialTurn) :
    rotationStory crate car
        (telemetryThrottle.decisions none (rotationsOf (labels ++ [.scan points t]))) =
      rotationStory crate car (telemetryThrottle.decisions none (rotationsOf labels)) ++
        rotationEvents crate car (rotationsOf labels).length ((points, t),
          telemetryThrottle.due (telemetryThrottle.last (rotationsOf labels)) (points, t)) := by
  rw [decisions_concat_scan, rotationStory_concat, ← List.length_map Prod.fst,
    Throttle.map_fst_decisions]

theorem ofNat_succ (n : Nat) : (UInt32.ofNat n + 1 : UInt32) = .ofNat (n + 1) := by
  rw [UInt32.ofNat_add]
  rfl

/-- What a turn with a scan does, depending on the channel and the clock. -/
theorem scan_cases (crate : ProtoCrate T) (car : String) (s : SerialReader ε T)
    (points : List LidarPoint) (t : SerialTurn) :
    (t.scanOpen = false ∧ s.scan crate car points t =
      { s with phase := .returned (.error .closed) false, seq := s.seq + 1 }) ∨
    (t.scanOpen = true ∧ s.telemetryDue t = false ∧ s.scan crate car points t =
      { s with
        seq := s.seq + 1
        sent := s.sent ++ [⟨car, t.scanMs, .scan (s.frame crate points t)⟩] }) ∨
    (t.scanOpen = true ∧ s.telemetryDue t = true ∧ s.scan crate car points t =
      SerialReader.send
        { s with
          seq := s.seq + 1
          lastTelemetry := some t.marked
          sent := s.sent ++ [⟨car, t.scanMs, .scan (s.frame crate points t)⟩] }
        t.telemetryOpen
        ⟨car, t.telemetryMs, .telemetry (crate.telemetry (toU32 (t.uptime / 10 ^ 9)))⟩) := by
  cases hOpen : t.scanOpen with
  | false => exact Or.inl ⟨rfl, by simp [SerialReader.scan, SerialReader.send, hOpen]⟩
  | true =>
      cases hDue : s.telemetryDue t with
      | false =>
          refine Or.inr (Or.inl ⟨rfl, rfl, ?_⟩)
          have hSame : telemetryDue { s with seq := s.seq + 1 } t = false := hDue
          simp [SerialReader.scan, SerialReader.send, hOpen, hSame]
      | true =>
          refine Or.inr (Or.inr ⟨rfl, rfl, ?_⟩)
          have hSame : telemetryDue { s with seq := s.seq + 1 } t = true := hDue
          simp [SerialReader.scan, SerialReader.send, hOpen, hSame]

/-- One turn of the loop, with a scan. -/
theorem Telling.scan (h : Telling crate car labels s) (hPhase : s.phase = .scanning)
    (points : List LidarPoint) (t : SerialTurn) :
    Tells crate car (labels ++ [.scan points t]) (s.scan crate car points t) := by
  obtain ⟨atMs, hSent⟩ := h.sent
  have hFrame : s.frame crate points t =
      rotationFrame crate (rotationsOf labels).length points t := by
    rw [frame_eq, h.seq]
    rfl
  have hDue : telemetryThrottle.due (telemetryThrottle.last (rotationsOf labels)) (points, t) =
      s.telemetryDue t := by
    rw [← h.last]
    rfl
  have hSeq : s.seq + 1 = .ofNat (rotationsOf (labels ++ [.scan points t])).length := by
    rw [rotationsOf_concat_scan, List.length_append, h.seq]
    exact ofNat_succ _
  have hStory := story_concat_scan crate car labels points t
  rw [hDue] at hStory
  have hNext : telemetryThrottle.last (rotationsOf (labels ++ [.scan points t])) =
      if s.telemetryDue t then some t.marked else s.lastTelemetry := by
    rw [rotationsOf_concat_scan, Throttle.last_concat, Throttle.next, hDue, ← h.last]
    rfl
  rcases scan_cases crate car s points t with ⟨-, hScan⟩ | ⟨-, hEarly, hScan⟩ | ⟨-, hLate, hScan⟩
  · refine .closed _ (by rw [hScan]) ⟨atMs, ?_⟩
    rw [hScan, hStory, hSent, ← List.cons_append]
    exact List.prefix_append _ _
  · refine .scanning (by rw [hScan, hPhase]) ⟨by rw [hScan, ← hSeq], ?_, atMs, ?_⟩
    · rw [hScan, hNext, hEarly]
      rfl
    · rw [hScan, hStory, hSent, hFrame, hEarly, ← List.cons_append]
      rfl
  · rw [hFrame] at hScan
    rw [hLate] at hStory hNext
    cases hOpen : t.telemetryOpen with
    | false =>
        rw [hOpen] at hScan
        refine .closed _ (by rw [hScan]; rfl) ⟨atMs, ?_⟩
        rw [hScan, hStory, ← List.cons_append, ← hSent]
        refine (List.prefix_append_right_inj _).mpr ?_
        exact ⟨[_], rfl⟩
    | true =>
        rw [hOpen] at hScan
        refine .scanning (by rw [hScan]; exact hPhase) ⟨by rw [hScan, ← hSeq]; rfl, ?_, atMs, ?_⟩
        · rw [hScan, hNext]
          rfl
        · rw [hScan, hStory, ← List.cons_append, ← hSent]
          exact List.append_assoc _ _ _

theorem rotationsOf_concat {l : SerialLabel ε} (h : l.rotation? = none) :
    rotationsOf (labels ++ [l]) = rotationsOf labels := by
  rw [rotationsOf, List.filterMap_append, rotationsOf]
  simp [h]

theorem Telling.concat (h : Telling crate car labels s) {l : SerialLabel ε}
    (hNone : l.rotation? = none) (phase : SerialPhase ε) :
    Telling crate car (labels ++ [l]) { s with phase } := by
  obtain ⟨hSeq, hLast, hSent⟩ := h
  refine ⟨?_, ?_, ?_⟩
  · rw [rotationsOf_concat hNone]
    exact hSeq
  · rw [rotationsOf_concat hNone]
    exact hLast
  · rw [rotationsOf_concat hNone]
    exact hSent

/-- The calls before the loop. -/
theorem Tells.start (hSeq : s.seq = 0) (hLast : s.lastTelemetry = none) (hSent : s.sent = [])
    (hQuiet : rotationsOf labels = []) (opened health started : Except ε Unit) (atMs : UInt64)
    (isOpen : Bool) :
    Tells crate car (labels ++ [.start opened health started atMs isOpen])
      (s.start car opened health started atMs isOpen) := by
  have hStill : rotationsOf (labels ++ [.start opened health started atMs isOpen]) = [] := by
    rw [rotationsOf_concat rfl, hQuiet]
  unfold SerialReader.start
  split
  · rename_i e _
    cases isOpen with
    | true => exact .stopped _ rfl (Or.inl hSent)
    | false => exact .closed _ rfl ⟨0, by simp [hSent]⟩
  · cases isOpen with
    | false => exact .closed _ rfl ⟨0, by simp [SerialReader.send, hSent]⟩
    | true =>
        refine .scanning rfl ⟨?_, ?_, atMs, ?_⟩
        · rw [hStill]
          exact hSeq
        · rw [hStill]
          exact hLast
        · rw [hStill]
          exact congrArg (· ++ _) hSent

theorem Tells.step (h : Tells crate car labels s) {l : SerialLabel ε}
    (hStep : (serialReader crate car).step s l = some s') : Tells crate car (labels ++ [l]) s' := by
  rcases serialReader_cases hStep with ⟨hPhase, opened, health, started, atMs, isOpen, rfl, rfl⟩ |
    ⟨hPhase, points, t, rfl, rfl⟩ | ⟨hPhase, result, isOpen, -, rfl⟩
  · cases h with
    | opening _ hSeq hLast hSent hQuiet => exact .start hSeq hLast hSent hQuiet ..
    | scanning hOther => cases hPhase.symm.trans hOther
    | stopped _ hOther => cases hPhase.symm.trans hOther
    | closed _ hOther => cases hPhase.symm.trans hOther
  · cases h with
    | scanning _ hTelling => exact hTelling.scan hPhase points t
    | opening hOther => cases hPhase.symm.trans hOther
    | stopped _ hOther => cases hPhase.symm.trans hOther
    | closed _ hOther => cases hPhase.symm.trans hOther
  · cases h with
    | scanning _ hTelling =>
        cases hRotation : l.rotation? with
        | some r =>
            cases l <;> cases hRotation
            rename_i points t
            have hScan : (serialReader crate car).step s (.scan points t) =
                some (s.scan crate car points t) := by simp only [serialReader, hPhase]
            rw [← Option.some.inj (hScan.symm.trans hStep)]
            exact hTelling.scan hPhase points t
        | none =>
            have hNow := hTelling.concat hRotation (.returned result isOpen)
            cases isOpen with
            | true => exact .stopped result rfl (Or.inr hNow)
            | false =>
                obtain ⟨atMs, hSent⟩ := hNow.sent
                exact .closed result rfl ⟨atMs, hSent ▸ List.prefix_rfl⟩
    | opening hOther => cases hPhase.symm.trans hOther
    | stopped _ hOther => cases hPhase.symm.trans hOther
    | closed _ hOther => cases hPhase.symm.trans hOther

theorem Tells.of_run (hRun : (serialReader crate car).exec .new labels = some s) :
    Tells crate car labels s :=
  Machine.exec_history (P := Tells crate car) (.opening rfl rfl rfl rfl rfl)
    (fun _ _ _ _ _ h hStep => h.step hStep) hRun

theorem Tells.sent_isPrefix (h : Tells crate car labels s) :
    ∃ atMs, s.sent <+: ⟨car, atMs, .status "online"⟩ ::
      rotationStory crate car (telemetryThrottle.decisions none (rotationsOf labels)) := by
  cases h with
  | opening _ _ _ hSent _ => exact ⟨0, hSent ▸ List.nil_prefix⟩
  | scanning _ hTelling =>
      obtain ⟨atMs, hSent⟩ := hTelling.sent
      exact ⟨atMs, hSent ▸ List.prefix_rfl⟩
  | stopped _ _ hAll =>
      rcases hAll with hNone | hTelling
      · exact ⟨0, hNone ▸ List.nil_prefix⟩
      · obtain ⟨atMs, hSent⟩ := hTelling.sent
        exact ⟨atMs, hSent ▸ List.prefix_rfl⟩
  | closed _ _ hPart => exact hPart

/-- Each frame sent is that of a rotation. -/
theorem Tells.frame (h : Tells crate car labels s) {e : CarEvent T} (he : e ∈ s.sent)
    {frame : ScanFrame} (hScan : e.kind = .scan frame) :
    ∃ k r, (rotationsOf labels)[k]? = some r ∧ frame = rotationFrame crate k r.1 r.2 := by
  obtain ⟨atMs, hSent⟩ := h.sent_isPrefix
  rcases List.mem_cons.mp (hSent.subset he) with rfl | hMem
  · cases hScan
  · obtain ⟨events, hEvents, he⟩ := List.mem_flatten.mp hMem
    obtain ⟨k, hk, rfl⟩ := List.mem_mapIdx.mp hEvents
    have hAt : (rotationsOf labels)[k]? =
        ((telemetryThrottle.decisions none (rotationsOf labels))[k]).1 := by
      have hMap := congrArg (·[k]?) (telemetryThrottle.map_fst_decisions none (rotationsOf labels))
      simpa [List.getElem?_map, List.getElem?_eq_getElem hk] using hMap.symm
    refine ⟨k, _, hAt, ?_⟩
    rcases List.mem_cons.mp he with rfl | hTelemetry
    · cases hScan
      rfl
    · split at hTelemetry
      · obtain rfl := List.mem_singleton.mp hTelemetry
        cases hScan
      · cases hTelemetry

end SerialReader

variable {crate : ProtoCrate T} {car : String} {s : SerialReader ε T}
  {labels : List (SerialLabel ε)}

/-- **The serial reader.** Let the lidar give any rotations, at any times, and stop for any reason.
With telemetry after the first and after those that come a second or more after the last, and only
after those, what the reader has sent is a beginning of "online" and what it sends for the rotations
in their order, numbered from 0; it is all of it while the reader goes on, and when it has stopped
with the channel open, unless it never came to say "online". -/
theorem serial_sends_all (crate : ProtoCrate T) (car : String) (labels : List (SerialLabel ε))
    (s : SerialReader ε T) (hRun : (serialReader crate car).exec .new labels = some s) :
    ∃ told atMs, told.map Prod.fst = rotationsOf labels ∧ telemetryThrottle.Respects told ∧
      s.sent <+: ⟨car, atMs, .status "online"⟩ :: rotationStory crate car told ∧
      (s.phase = .scanning →
        s.sent = ⟨car, atMs, .status "online"⟩ :: rotationStory crate car told) ∧
      (∀ result, s.phase = .returned result true → s.sent = [] ∨
        s.sent = ⟨car, atMs, .status "online"⟩ :: rotationStory crate car told) := by
  have hMap := telemetryThrottle.map_fst_decisions none (rotationsOf labels)
  have hRespects := telemetryThrottle.respects (Nat.pow_pos (Nat.succ_pos 9)) (rotationsOf labels)
  refine ⟨telemetryThrottle.decisions none (rotationsOf labels), ?_⟩
  cases SerialReader.Tells.of_run hRun with
  | opening hPhase _ _ hSent _ =>
      refine ⟨0, hMap, hRespects, hSent ▸ List.nil_prefix, fun hOther => ?_,
        fun _ _ => Or.inl hSent⟩
      cases hPhase.symm.trans hOther
  | scanning hPhase hTelling =>
      obtain ⟨atMs, hSent⟩ := hTelling.sent
      exact ⟨atMs, hMap, hRespects, hSent ▸ List.prefix_rfl, fun _ => hSent,
        fun _ _ => Or.inr hSent⟩
  | stopped result hPhase hAll =>
      rcases hAll with hNone | hTelling
      · refine ⟨0, hMap, hRespects, hNone ▸ List.nil_prefix, fun hOther => ?_,
          fun _ _ => Or.inl hNone⟩
        cases hPhase.symm.trans hOther
      · obtain ⟨atMs, hSent⟩ := hTelling.sent
        exact ⟨atMs, hMap, hRespects, hSent ▸ List.prefix_rfl, fun _ => hSent,
          fun _ _ => Or.inr hSent⟩
  | closed result hPhase hPart =>
      obtain ⟨atMs, hSent⟩ := hPart
      refine ⟨atMs, hMap, hRespects, hSent, fun hOther => ?_, fun result' hOther => ?_⟩
      · cases hPhase.symm.trans hOther
      · cases hPhase.symm.trans hOther

/-- Rotations at 0, 0.5 and 1.2 s. When the last one has been sent, the channel is closed. -/
def threeRotations : List (SerialLabel String) :=
  [.start (.ok ()) (.ok ()) (.ok ()) 5 true,
    .scan [⟨.num 90, .num 1000, 40⟩] ⟨10 ^ 6, 2 * 10 ^ 6, 3 * 10 ^ 6, 4 * 10 ^ 6, 6, true, 7, true⟩,
    .scan [] ⟨5 * 10 ^ 8, 5 * 10 ^ 8, 5 * 10 ^ 8, 5 * 10 ^ 8, 506, true, 507, true⟩,
    .scan [] ⟨12 * 10 ^ 8, 12 * 10 ^ 8, 12 * 10 ^ 8, 12 * 10 ^ 8, 1206, true, 1207, false⟩]

theorem serial_sends_all_three : ∃ s,
    (serialReader unitCrate "lidar").exec .new threeRotations = some s ∧
      s.sent.map CarEvent.atMs = [5, 6, 7, 506, 1206] ∧
      ∃ told atMs, told.map Prod.fst = rotationsOf threeRotations ∧
        telemetryThrottle.Respects told ∧
        s.sent <+: ⟨"lidar", atMs, .status "online"⟩ :: rotationStory unitCrate "lidar" told := by
  obtain ⟨told, atMs, hTold, hRespects, hSent, -⟩ :=
    serial_sends_all unitCrate "lidar" threeRotations _ rfl
  exact ⟨_, rfl, rfl, told, atMs, hTold, hRespects, hSent⟩

end OlivawHub
