import OlivawHub.Foundations.Decimal

/-!
# Commands to a car

The `cmd` endpoint of `http.rs` and `Commander::send`. A drive command is sent as decimal text,
every other command as an opcode of `olivaw_proto`, over the same topic. `Control::encode` and the
other external functions are parameters; what is assumed of `Control::encode` is
`ControlDocumented`.
-/

namespace OlivawHub

open Foundations

/-- The opcodes the hub sends. -/
inductive Control where
  | eStop
  | clear
  | lidarOn
  | lidarOff
  | setMaxDuty (permille : UInt16)
  deriving DecidableEq, Repr

/-- Body of `POST /api/cars/{id}/cmd`. -/
inductive Command where
  /-- Brake and latch. -/
  | eStop
  /-- Release the latch. -/
  | clear
  /-- Per-mille per side. -/
  | drive (left right : Int16)
  | lidar (on : Bool)
  /-- Duty cap. -/
  | maxDuty (permille : UInt16)
  deriving DecidableEq

def controlMaxLen : Nat := 3

/-- What `Control::encode` promises, and the bytes the tests of the hub rely on. -/
structure ControlDocumented (control : Control → List UInt8) : Prop where
  injective : ∀ c c', control c = control c' → c = c'
  length_pos : ∀ c, 1 ≤ (control c).length
  length_le : ∀ c, (control c).length ≤ controlMaxLen
  eStop : control .eStop = [0x01]
  lidarOn : control .lidarOn = [0x10]
  maxDuty : control (.setMaxDuty 550) = [0x30, 0x26, 0x02]

/-- `format!("{left},{right}\n")`. -/
def driveText (left right : Int16) : List UInt8 :=
  printInt left.toInt ++ 44 :: (printInt right.toInt ++ [10])

/-- The payload of a command; `control` are the bytes `Control::encode` writes. -/
def encode (control : Control → List UInt8) : Command → List UInt8
  | .eStop => control .eStop
  | .clear => control .clear
  | .drive left right => driveText left right
  | .lidar true => control .lidarOn
  | .lidar false => control .lidarOff
  | .maxDuty permille => control (.setMaxDuty permille)

/-- The command for which an opcode is sent. -/
def Control.command : Control → Command
  | .eStop => .eStop
  | .clear => .clear
  | .lidarOn => .lidar true
  | .lidarOff => .lidar false
  | .setMaxDuty permille => .maxDuty permille

theorem encode_command (control : Control → List UInt8) (c : Control) :
    encode control c.command = control c := by
  cases c <;> rfl

theorem Command.drive_or_control (c : Command) :
    (∃ left right, c = .drive left right) ∨ ∃ k : Control, c = k.command := by
  cases c with
  | eStop => exact Or.inr ⟨.eStop, rfl⟩
  | clear => exact Or.inr ⟨.clear, rfl⟩
  | drive left right => exact Or.inl ⟨left, right, rfl⟩
  | lidar on =>
      cases on
      · exact Or.inr ⟨.lidarOff, rfl⟩
      · exact Or.inr ⟨.lidarOn, rfl⟩
  | maxDuty permille => exact Or.inr ⟨.setMaxDuty permille, rfl⟩

/-- Two decimal numbers: `,` behind the first, a newline behind the second and nothing more. -/
def parseDrive (payload : List UInt8) : Option (Int × Int) :=
  (cut 44 payload).bind fun p => (cut 10 p.2).bind fun q =>
    if q.2 = [] then (parseInt p.1).bind fun left => (parseInt q.1).map fun right => (left, right)
    else none

theorem parseDrive_driveText (left right : Int16) :
    parseDrive (driveText left right) = some (left.toInt, right.toInt) := by
  have hComma : 44 ∉ printInt left.toInt := not_mem_printInt (by decide) (by decide) _
  have hNewline : 10 ∉ printInt right.toInt := not_mem_printInt (by decide) (by decide) _
  simp only [parseDrive, driveText, cut_append hComma, cut_append hNewline, Option.bind_some,
    if_true, parseInt_printInt, Option.map_some]

theorem parseDrive_length {payload : List UInt8} {p : Int × Int}
    (h : parseDrive payload = some p) : 4 ≤ payload.length := by
  obtain ⟨⟨xs, rest⟩, hComma, h⟩ := Option.bind_eq_some_iff.mp h
  obtain ⟨⟨ys, tail⟩, hNewline, h⟩ := Option.bind_eq_some_iff.mp h
  split at h
  · obtain ⟨left, hLeft, h⟩ := Option.bind_eq_some_iff.mp h
    obtain ⟨right, hRight, -⟩ := Option.map_eq_some_iff.mp h
    have hxs : xs ≠ [] := by
      rintro rfl
      cases hLeft
    have hys : ys ≠ [] := by
      rintro rfl
      cases hRight
    have hRest : rest = ys ++ 10 :: tail := eq_append_of_cut hNewline
    rw [eq_append_of_cut hComma, hRest]
    have hxsLen := List.length_pos_iff.mpr hxs
    have hysLen := List.length_pos_iff.mpr hys
    simp only [List.length_append, List.length_cons]
    omega
  · cases h

variable {control : Control → List UInt8}

theorem driveText_injective {left right left' right' : Int16}
    (h : driveText left right = driveText left' right') : left = left' ∧ right = right' := by
  have hParse := congrArg parseDrive h
  rw [parseDrive_driveText, parseDrive_driveText, Option.some.injEq, Prod.mk.injEq] at hParse
  exact ⟨Int16.toInt_inj.mp hParse.1, Int16.toInt_inj.mp hParse.2⟩

namespace ControlDocumented

/-- No opcode is long enough for a drive command. -/
theorem parseDrive_eq_none (h : ControlDocumented control) (c : Control) :
    parseDrive (control c) = none := by
  cases hParse : parseDrive (control c) with
  | none => rfl
  | some p =>
      have hLong := parseDrive_length hParse
      have hShort := h.length_le c
      rw [controlMaxLen] at hShort
      omega

theorem driveText_ne (h : ControlDocumented control) (left right : Int16) (c : Control) :
    driveText left right ≠ control c := by
  intro hEq
  have hParse := parseDrive_driveText left right
  rw [hEq, h.parseDrive_eq_none] at hParse
  cases hParse

theorem encode_injective (h : ControlDocumented control) {c c' : Command}
    (hEq : encode control c = encode control c') : c = c' := by
  rcases c.drive_or_control with ⟨left, right, rfl⟩ | ⟨k, rfl⟩ <;>
    rcases c'.drive_or_control with ⟨left', right', rfl⟩ | ⟨k', rfl⟩
  · obtain ⟨rfl, rfl⟩ := driveText_injective hEq
    rfl
  · rw [encode_command] at hEq
    exact absurd hEq (h.driveText_ne _ _ _)
  · rw [encode_command] at hEq
    exact absurd hEq.symm (h.driveText_ne _ _ _)
  · rw [encode_command, encode_command] at hEq
    rw [h.injective k k' hEq]

end ControlDocumented

/-- Payloads tell the commands apart: no two commands have the same payload, a drive payload
parses to the numbers it was made from, and it is never the payload of an opcode. -/
theorem payloads_unambiguous (control : Control → List UInt8) (h : ControlDocumented control) :
    (∀ c c' : Command, c ≠ c' → encode control c ≠ encode control c') ∧
      (∀ left right : Int16, parseDrive (encode control (.drive left right)) =
        some (left.toInt, right.toInt)) ∧
      ∀ (left right : Int16) (c : Control), encode control (.drive left right) ≠ control c :=
  ⟨fun _ _ hNe hEq => hNe (h.encode_injective hEq), parseDrive_driveText, h.driveText_ne⟩

/-- `SetMaxDuty` with its duty in little-endian order. -/
def dutyBytes (permille : UInt16) : List UInt8 :=
  [0x30, UInt8.ofNat permille.toNat, UInt8.ofNat (permille.toNat / 256)]

theorem dutyBytes_injective {p q : UInt16} (h : dutyBytes p = dutyBytes q) : p = q := by
  have hp := p.toNat_lt
  have hq := q.toNat_lt
  simp only [dutyBytes, List.cons.injEq, true_and, and_true, ← UInt8.toNat_inj,
    UInt8.toNat_ofNat'] at h
  exact UInt16.toNat_inj.mp (by omega)

/-- Opcodes as `olivaw_proto` lays them out. -/
def opcodes : Control → List UInt8
  | .eStop => [0x01]
  | .clear => [0x02]
  | .lidarOn => [0x10]
  | .lidarOff => [0x11]
  | .setMaxDuty permille => dutyBytes permille

theorem opcodes_documented : ControlDocumented opcodes where
  injective c c' h := by
    cases c <;> cases c' <;> first
      | rfl
      | exact congrArg Control.setMaxDuty (dutyBytes_injective h)
      | simp [opcodes, dutyBytes] at h
  length_pos c := by cases c <;> simp [opcodes, dutyBytes]
  length_le c := by cases c <;> simp [opcodes, dutyBytes, controlMaxLen]
  eStop := rfl
  lidarOn := rfl
  maxDuty := by decide

theorem payloads_unambiguous_opcodes :
    (∀ c c' : Command, c ≠ c' → encode opcodes c ≠ encode opcodes c') ∧
      (∀ left right : Int16, parseDrive (encode opcodes (.drive left right)) =
        some (left.toInt, right.toInt)) ∧
      ∀ (left right : Int16) (c : Control), encode opcodes (.drive left right) ≠ opcodes c :=
  payloads_unambiguous opcodes opcodes_documented

example : encode opcodes (.drive 500 (-250)) = [53, 48, 48, 44, 45, 50, 53, 48, 10] := by decide

end OlivawHub
