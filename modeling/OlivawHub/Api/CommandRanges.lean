import OlivawHub.Api.Commands

/-!
# What the `cmd` endpoint publishes

`Json<Command>` admits every `i16` and every `u16`, and `cmd` publishes what it admits. So a
payload says something out of range just when the command does and nothing is in the way of the
message (`inRange_published_iff`), and among the duties the out-of-range ones include those whose
opcode looks like the beginning of a drive command (`LooksLikeDrive.exists_isPrefix`).
-/

namespace OlivawHub

open Foundations

/-- The ranges in the documentation of `Command`. -/
def Command.InRange : Command → Prop
  | .drive left right => (-1000 ≤ left.toInt ∧ left.toInt ≤ 1000) ∧
      -1000 ≤ right.toInt ∧ right.toInt ≤ 1000
  | .maxDuty permille => permille.toNat ≤ 1000
  | _ => True

instance : (c : Command) → Decidable c.InRange
  | .drive left right => inferInstanceAs (Decidable ((-1000 ≤ left.toInt ∧ left.toInt ≤ 1000) ∧
      -1000 ≤ right.toInt ∧ right.toInt ≤ 1000))
  | .maxDuty permille => inferInstanceAs (Decidable (permille.toNat ≤ 1000))
  | .eStop => isTrue trivial
  | .clear => isTrue trivial
  | .lidar _ => isTrue trivial

/-- What the endpoint uses of other crates. -/
structure CmdCrates where
  /-- The body as `Json<Command>`. -/
  fromJson : List UInt8 → Option Command
  control : Control → List UInt8
  /-- `topics::topic(car, Channel::Cmd)`. -/
  topic : String → Option String
  /-- `client.publish`, or its error. -/
  publish : String → List UInt8 → Except String Unit

/-- A message handed to the MQTT client. -/
structure Publication where
  topic : String
  payload : List UInt8
  deriving DecidableEq

/-- Reply of the `cmd` endpoint. -/
inductive CmdResponse where
  | ok (bytes : Nat)
  | badGateway (text : String)
  /-- The body is no `Command`. -/
  | rejected
  deriving DecidableEq

/-- Publish raw command bytes (a drive frame or a `Control` opcode). -/
def Commander.send (crates : CmdCrates) (car : String) (payload : List UInt8) :
    Except String Publication :=
  match crates.topic car with
  | none => .error "car id too long"
  | some topic => (crates.publish topic payload).map fun _ => ⟨topic, payload⟩

/-- `POST /api/cars/{id}/cmd` — forward to the car over MQTT. -/
def cmd (crates : CmdCrates) (id : String) (body : List UInt8) : CmdResponse × List Publication :=
  match crates.fromJson body with
  | none => (.rejected, [])
  | some command =>
      let payload := encode crates.control command
      match Commander.send crates id payload with
      | .ok message => (.ok payload.length, [message])
      | .error e => (.badGateway s!"publish failed: {e}", [])

/-- A payload as the car reads it: drive text, or a duty opcode, with values in range. -/
def PayloadInRange (control : Control → List UInt8) (payload : List UInt8) : Prop :=
  (∀ left right, parseDrive payload = some (left, right) →
    (-1000 ≤ left ∧ left ≤ 1000) ∧ -1000 ≤ right ∧ right ≤ 1000) ∧
  ∀ permille : UInt16, payload = control (.setMaxDuty permille) → permille.toNat ≤ 1000

variable {crates : CmdCrates} {control : Control → List UInt8}

/-- There is no topic for the car, or the client does not take the message. -/
def CmdCrates.Refuses (crates : CmdCrates) (car : String) (payload : List UInt8) : Prop :=
  crates.topic car = none ∨
    ∃ topic e, crates.topic car = some topic ∧ crates.publish topic payload = .error e

theorem Commander.send_cases (crates : CmdCrates) (car : String) (payload : List UInt8) :
    (crates.Refuses car payload ∧ ∃ e, send crates car payload = .error e) ∨
      ¬crates.Refuses car payload ∧ ∃ topic, send crates car payload = .ok ⟨topic, payload⟩ := by
  unfold send CmdCrates.Refuses
  cases hTopic : crates.topic car with
  | none => exact Or.inl ⟨Or.inl rfl, _, rfl⟩
  | some topic =>
      cases hPublish : crates.publish topic payload with
      | error e =>
          refine Or.inl ⟨Or.inr ⟨topic, e, rfl, hPublish⟩, e, ?_⟩
          simp only [hPublish]
          rfl
      | ok _ =>
          refine Or.inr ⟨?_, topic, ?_⟩
          · rintro (hNone | ⟨_, e, hSome, hError⟩)
            · cases hNone
            · cases hSome
              cases hPublish.symm.trans hError
          · simp only [hPublish]
            rfl

theorem payloadInRange_encode_iff (h : ControlDocumented control) (command : Command) :
    PayloadInRange control (encode control command) ↔ command.InRange := by
  rcases command.drive_or_control with ⟨left, right, rfl⟩ | ⟨c, rfl⟩
  · constructor
    · intro hPayload
      exact hPayload.1 _ _ (parseDrive_driveText left right)
    · refine fun hRange => ⟨fun l r hParse => ?_, fun p hEq => absurd hEq (h.driveText_ne _ _ _)⟩
      have hSame := (parseDrive_driveText left right).symm.trans hParse
      rw [Option.some.injEq, Prod.mk.injEq] at hSame
      rw [← hSame.1, ← hSame.2]
      exact hRange
  · rw [encode_command]
    constructor
    · intro hPayload
      cases c with
      | setMaxDuty permille => exact hPayload.2 permille rfl
      | _ => trivial
    · refine fun hRange => ⟨fun l r hParse => ?_, fun p hEq => ?_⟩
      · rw [h.parseDrive_eq_none] at hParse
        cases hParse
      · rw [h.injective _ _ hEq] at hRange
        exact hRange

/-! ## Duties that look like drive commands -/

/-- The duty opcode is `0,` and the first character of a number. -/
def LooksLikeDrive (permille : UInt16) : Prop :=
  permille.toNat % 256 = 44 ∧
    (permille.toNat / 256 = 45 ∨ 48 ≤ permille.toNat / 256 ∧ permille.toNat / 256 ≤ 57)

theorem looksLikeDrive_of_isPrefix {permille : UInt16} {left right : Int16}
    (h : dutyBytes permille <+: driveText left right) : LooksLikeDrive permille := by
  obtain ⟨b, bs, hLeft⟩ := List.exists_cons_of_ne_nil (printInt_ne_nil left.toInt)
  obtain ⟨c, cs, hRight⟩ := List.exists_cons_of_ne_nil (printInt_ne_nil right.toInt)
  have hFirst : c = 45 ∨ IsDigit c := mem_printInt (hRight ▸ List.mem_cons_self)
  rw [driveText, hLeft, hRight, dutyBytes, List.cons_append, List.cons_prefix_cons] at h
  obtain ⟨rfl, h⟩ := h
  have hZero := eq_zero_of_printInt hLeft
  have hDigits : printInt 0 = [48] := by decide
  rw [hZero, hDigits, List.cons.injEq] at hLeft
  rw [← hLeft.2, List.nil_append, List.cons_append, List.cons_prefix_cons,
    List.cons_prefix_cons] at h
  obtain ⟨hLow, rfl, -⟩ := h
  have hLt := permille.toNat_lt
  rw [← UInt8.toNat_inj, UInt8.toNat_ofNat'] at hLow
  rw [IsDigit, ← UInt8.toNat_inj, UInt8.toNat_ofNat'] at hFirst
  have hComma : (44 : UInt8).toNat = 44 := rfl
  have hMinus : (45 : UInt8).toNat = 45 := rfl
  rw [LooksLikeDrive]
  omega

theorem LooksLikeDrive.exists_isPrefix {permille : UInt16} (h : LooksLikeDrive permille) :
    ∃ left right : Int16, dutyBytes permille <+: driveText left right := by
  obtain ⟨hLow, hHigh⟩ := h
  have hComma : UInt8.ofNat permille.toNat = 44 := by
    rw [← UInt8.toNat_inj, UInt8.toNat_ofNat', hLow]
    rfl
  rw [dutyBytes, hComma]
  rcases hHigh with hMinus | hDigit
  · rw [hMinus]
    exact ⟨0, -1, by decide⟩
  · have hRight : (Int16.ofNat (permille.toNat / 256 - 48)).toInt =
        ((permille.toNat / 256 - 48 : Nat) : Int) := Int16.toInt_ofNat_of_lt (by omega)
    have hText : printInt ((permille.toNat / 256 - 48 : Nat) : Int) =
        [UInt8.ofNat (permille.toNat / 256)] := by
      refine (printNat_of_lt (by omega)).trans ?_
      rw [Nat.add_sub_cancel' hDigit.1]
    refine ⟨0, Int16.ofNat (permille.toNat / 256 - 48), ?_⟩
    rw [driveText, hRight, hText]
    exact ⟨[10], rfl⟩

theorem not_looksLikeDrive_of_le {permille : UInt16} (h : permille.toNat ≤ 1000) :
    ¬LooksLikeDrive permille := by
  rw [LooksLikeDrive]
  omega

/-- `cmd` publishes payloads in range just for commands in range, unless there is no topic for the
car or the client refuses the message. A duty opcode is the beginning of some drive command just
when its second byte is a comma and its third a digit or `-`; no duty in range is like that. -/
theorem inRange_published_iff (crates : CmdCrates) (hControl : ControlDocumented crates.control)
    (hDuty : ∀ permille, crates.control (.setMaxDuty permille) = dutyBytes permille) :
    (∀ id body command, crates.fromJson body = some command →
      ((∀ m ∈ (cmd crates id body).2, PayloadInRange crates.control m.payload) ↔
        command.InRange ∨ crates.topic id = none ∨
          ∃ topic e, crates.topic id = some topic ∧
            crates.publish topic (encode crates.control command) = .error e)) ∧
    (∀ permille, (∃ left right, encode crates.control (.maxDuty permille) <+:
      encode crates.control (.drive left right)) ↔ LooksLikeDrive permille) ∧
    ∀ permille, (Command.maxDuty permille).InRange → ¬LooksLikeDrive permille := by
  refine ⟨fun id body command hBody => ?_, fun permille => ?_, fun permille hRange =>
    not_looksLikeDrive_of_le hRange⟩
  · have hPayload := payloadInRange_encode_iff hControl command
    show _ ↔ command.InRange ∨ crates.Refuses id (encode crates.control command)
    rcases Commander.send_cases crates id (encode crates.control command) with
      ⟨hRefuses, e, hError⟩ | ⟨hTakes, topic, hSent⟩
    · simp [cmd, hBody, hError, hRefuses]
    · simp [cmd, hBody, hSent, hPayload, hTakes]
  · rw [encode, hDuty]
    constructor
    · rintro ⟨left, right, hPrefix⟩
      exact looksLikeDrive_of_isPrefix hPrefix
    · exact LooksLikeDrive.exists_isPrefix

/-- `"op":"max_duty"` with `"permille":11564`. -/
def dutyBody : List UInt8 :=
  "\x7b\"op\":\"max_duty\",\"permille\":11564\x7d".toUTF8.data.toList

/-- Crates as they behave for `dutyBody`, with an MQTT client that accepts everything. -/
def dutyCrates : CmdCrates where
  fromJson body := if body = dutyBody then some (.maxDuty 11564) else none
  control := opcodes
  topic car := some s!"olivaw/{car}/cmd"
  publish _ _ := .ok ()

theorem fromJson_dutyBody : dutyCrates.fromJson dutyBody = some (.maxDuty 11564) := by
  simp [dutyCrates]

/-- A duty of 11564 is published, and its payload is how `0,-1` begins. -/
theorem out_of_range_published :
    dutyCrates.fromJson dutyBody = some (.maxDuty 11564) ∧
      ¬(Command.maxDuty 11564).InRange ∧
      (cmd dutyCrates "car-01" dutyBody).2 = [⟨"olivaw/car-01/cmd", [0x30, 0x2c, 0x2d]⟩] ∧
      encode opcodes (.maxDuty 11564) = [0x30, 0x2c, 0x2d] ∧
      [0x30, 0x2c, 0x2d] <+: encode opcodes (.drive 0 (-1)) :=
  ⟨fromJson_dutyBody, by decide, rfl, by decide, by decide⟩

theorem inRange_published_iff_duty :
    ((∀ m ∈ (cmd dutyCrates "car-01" dutyBody).2, PayloadInRange opcodes m.payload) ↔
        (Command.maxDuty 11564).InRange ∨ dutyCrates.topic "car-01" = none ∨
          ∃ topic e, dutyCrates.topic "car-01" = some topic ∧
            dutyCrates.publish topic (encode opcodes (.maxDuty 11564)) = .error e) ∧
      ∀ permille, (Command.maxDuty permille).InRange → ¬LooksLikeDrive permille :=
  have h := inRange_published_iff dutyCrates opcodes_documented fun _ => rfl
  ⟨h.1 "car-01" dutyBody (.maxDuty 11564) fromJson_dutyBody, h.2.2⟩

end OlivawHub
