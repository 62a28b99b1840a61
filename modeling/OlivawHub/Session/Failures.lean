import OlivawHub.Session.Recorder

/-!
# Recording while writes fail

`run` logs an error of `Recorder::write` and goes on with the next event. Header and payload of a
record are two writes, and the header stays when the payload is refused: the record is torn
(`Recorder.Tears`), and what is written next is read as its payload.

As long as nothing is written behind a torn record, `readAll` finds every event whose write
returned `Ok` (`failed_writes_keep_events`); otherwise it may lose later ones
(`torn_record_loses_events`).
-/

namespace OlivawHub

open Foundations

variable {T : Type}

namespace Recorder

/-- Write the events one after the other, whatever the calls return, until the process is
killed. -/
def writeEach (pc : Postcard T) : List (CarEvent T) → Recorder → List IoResult × Recorder
  | [], r => ([], r)
  | e :: es, r =>
      match r.write pc e with
      | (.killed, r) => ([.killed], r)
      | (.ok, r) => ((.ok : IoResult) :: (writeEach pc es r).1, (writeEach pc es r).2)
      | (.err, r) => ((.err : IoResult) :: (writeEach pc es r).1, (writeEach pc es r).2)

/-- The events whose write returned `Ok`. -/
def written (events : List (CarEvent T)) (results : List IoResult) : List (CarEvent T) :=
  (events.zip results).filterMap fun x => if x.2 = .ok then some x.1 else none

/-- The payload of an event and the recorder after its header, if the header was accepted. -/
def header? (pc : Postcard T) (r : Recorder) (e : CarEvent T) : Option (List UInt8 × Recorder) :=
  match pc.toStdvec e with
  | none => none
  | some bytes =>
      if bytes.length < 2 ^ 32 then
        match r.writeAll (toLeBytes bytes.length) with
        | (.ok, r) => some (bytes, r)
        | _ => none
      else none

/-- The payload is refused after its header was accepted. -/
def Tears (pc : Postcard T) (r : Recorder) (e : CarEvent T) : Prop :=
  ∃ bytes r', r.header? pc e = some (bytes, r') ∧ (r'.writeAll bytes).1 = .err

/-- No further header is accepted. -/
def Silent (pc : Postcard T) : List (CarEvent T) → Recorder → Prop
  | [], _ => True
  | e :: es, r => r.header? pc e = none ∧ Silent pc es (r.write pc e).2

/-- No record is torn unless it is the last of which anything is accepted. -/
def StaysFramed (pc : Postcard T) : List (CarEvent T) → Recorder → Prop
  | [], _ => True
  | e :: es, r =>
      (¬r.Tears pc e ∧ StaysFramed pc es (r.write pc e).2) ∨
        (r.Tears pc e ∧ Silent pc es (r.write pc e).2)

/-! ## One call -/

variable {pc : Postcard T} {r r' : Recorder} {e : CarEvent T} {result : IoResult}

theorem writeAll_contents {data : List UInt8} (h : r.writeAll data = (result, r')) :
    ∃ part, r'.out.contents = r.out.contents ++ part ∧ part <+: data ∧
      (result = .ok → part = data) ∧ (data.length < bufCapacity → result ≠ .ok → part = []) := by
  obtain ⟨out, hWrite, rfl⟩ := writeAll_cases h
  exact (BufWriter.writeAll_spec hWrite).1.part

theorem flushIfDue_contents (h : r.flushIfDue = (result, r')) :
    r'.out.contents = r.out.contents := by
  rcases flushIfDue_cases h with ⟨-, out, hFlush, rfl⟩ | ⟨-, rfl⟩
  · exact (BufWriter.flush_spec hFlush).1
  · rfl

theorem count_contents (h : inOrder [count, flushIfDue] r = (result, r')) :
    r'.out.contents = r.out.contents := by
  rcases andThen_cases h with ⟨r₁, hCount, h⟩ | ⟨hNot, hCount⟩
  · have hSame : r₁.out.contents = r.out.contents := by
      cases hCount
      rfl
    rw [← hSame]
    rcases andThen_cases h with ⟨r₂, hFlush, h⟩ | ⟨-, hFlush⟩
    · cases h
      exact flushIfDue_contents hFlush
    · exact flushIfDue_contents hFlush
  · cases hCount
    exact absurd rfl hNot

theorem header?_eq_some {p : List UInt8} {r₁ : Recorder} :
    r.header? pc e = some (p, r₁) ↔
      pc.toStdvec e = some p ∧ Fits p ∧ r.writeAll (toLeBytes p.length) = (.ok, r₁) := by
  unfold header? Fits
  constructor
  · intro h
    split at h
    · cases h
    · rename_i bytes hBytes
      split at h
      · rename_i hFits
        split at h
        · rename_i r₂ hWrite
          cases h
          exact ⟨hBytes, hFits, hWrite⟩
        · cases h
      · cases h
  · rintro ⟨hBytes, hFits, hWrite⟩
    simp only [hBytes, hFits, if_true, hWrite]

theorem write_of_header {p : List UInt8} {r₁ : Recorder}
    (hHeader : r.header? pc e = some (p, r₁)) :
    r.write pc e = inOrder [writeAll p, count, flushIfDue] r₁ := by
  obtain ⟨hBytes, hFits, hWrite⟩ := header?_eq_some.mp hHeader
  have hFits : p.length < 2 ^ 32 := hFits
  simp only [write, hBytes, hFits, if_true, writeSteps, inOrder, hWrite, andThen]

/-- A call whose header is not accepted leaves nothing behind. -/
theorem write_of_no_header (hHeader : r.header? pc e = none) (h : r.write pc e = (result, r')) :
    result ≠ .ok ∧ r'.out.contents = r.out.contents := by
  unfold write at h
  split at h
  · cases h
    exact ⟨nofun, rfl⟩
  · rename_i p hBytes
    split at h
    · rename_i hFits
      rcases andThen_cases h with ⟨r₁, hWrite, -⟩ | ⟨hNot, hWrite⟩
      · rw [header?_eq_some.mpr ⟨hBytes, hFits, hWrite⟩] at hHeader
        cases hHeader
      · -- a header fits into the empty buffer, so it is refused as a whole
        obtain ⟨part, hContents, -, -, hNothing⟩ := writeAll_contents hWrite
        have hShort : (toLeBytes p.length).length < bufCapacity := by
          rw [length_toLeBytes, bufCapacity]
          omega
        rw [hNothing hShort hNot, List.append_nil] at hContents
        exact ⟨hNot, hContents⟩
    · cases h
      exact ⟨nofun, rfl⟩

/-- All that a call can leave behind: nothing, the whole record, or a torn one. -/
theorem write_cases (h : r.write pc e = (result, r')) (hAlive : result ≠ .killed) :
    (r.header? pc e = none ∧ result ≠ .ok ∧ r'.out.contents = r.out.contents) ∨
      (∃ p, pc.toStdvec e = some p ∧ Fits p ∧ r.header? pc e ≠ none ∧ ¬r.Tears pc e ∧
        r'.out.contents = r.out.contents ++ frame p) ∨
      (∃ p tail, pc.toStdvec e = some p ∧ Fits p ∧ r.Tears pc e ∧ result ≠ .ok ∧
        tail <+: frame p ∧ r'.out.contents = r.out.contents ++ tail) := by
  cases hHeader : r.header? pc e with
  | none => exact Or.inl ⟨rfl, write_of_no_header hHeader h⟩
  | some accepted =>
      obtain ⟨p, r₁⟩ := accepted
      obtain ⟨hBytes, hFits, hWrite⟩ := header?_eq_some.mp hHeader
      obtain ⟨part₁, hContents₁, -, hOk₁, -⟩ := writeAll_contents hWrite
      rw [hOk₁ rfl] at hContents₁
      rw [write_of_header hHeader] at h
      rcases andThen_cases h with ⟨r₂, hPayload, h⟩ | ⟨hNot, hPayload⟩
      · obtain ⟨part₂, hContents₂, -, hOk₂, -⟩ := writeAll_contents hPayload
        rw [hOk₂ rfl] at hContents₂
        refine Or.inr (Or.inl ⟨p, hBytes, hFits, nofun, ?_, ?_⟩)
        · rintro ⟨p', r₁', hOther, hErr⟩
          cases hHeader.symm.trans hOther
          rw [hPayload] at hErr
          cases hErr
        · rw [count_contents h, hContents₂, hContents₁, List.append_assoc, frame]
      · obtain ⟨part₂, hContents₂, hPrefix, -, -⟩ := writeAll_contents hPayload
        have hErr : result = .err := by
          cases result with
          | ok => exact absurd rfl hNot
          | err => rfl
          | killed => exact absurd rfl hAlive
        refine Or.inr (Or.inr ⟨p, toLeBytes p.length ++ part₂, hBytes, hFits, ?_, hNot, ?_, ?_⟩)
        · exact ⟨p, r₁, hHeader, by rw [hPayload, hErr]⟩
        · exact (List.prefix_append_right_inj _).mpr hPrefix
        · rw [hContents₂, hContents₁, List.append_assoc]

/-! ## Runs -/

variable {events es : List (CarEvent T)} {results : List IoResult} {ps : List (List UInt8)}

theorem writeEach_cons (h : writeEach pc (e :: events) r = (results, r'))
    (hAlive : .killed ∉ results) :
    ∃ result r₁ rest, r.write pc e = (result, r₁) ∧ result ≠ .killed ∧
      writeEach pc events r₁ = (rest, r') ∧ .killed ∉ rest ∧ results = result :: rest := by
  unfold writeEach at h
  split at h
  · cases h
    simp at hAlive
  · rename_i r₁ hWrite
    cases h
    exact ⟨_, r₁, _, hWrite, nofun, rfl, fun hm => hAlive (List.mem_cons_of_mem _ hm), rfl⟩
  · rename_i r₁ hWrite
    cases h
    exact ⟨_, r₁, _, hWrite, nofun, rfl, fun hm => hAlive (List.mem_cons_of_mem _ hm), rfl⟩

theorem writeEach_of_ok {r'' : Recorder} (h : r.write pc e = (.ok, r'))
    (hRest : writeEach pc events r' = (results, r'')) :
    writeEach pc (e :: events) r = (.ok :: results, r'') := by
  rw [writeEach, h]
  dsimp only
  rw [hRest]

theorem writeEach_of_err {r'' : Recorder} (h : r.write pc e = (.err, r'))
    (hRest : writeEach pc events r' = (results, r'')) :
    writeEach pc (e :: events) r = (.err :: results, r'') := by
  rw [writeEach, h]
  dsimp only
  rw [hRest]

@[simp] theorem written_cons_ok (rest : List IoResult) :
    written (e :: events) (.ok :: rest) = e :: written events rest := rfl

theorem written_cons_of_ne (hNot : result ≠ .ok) (rest : List IoResult) :
    written (e :: events) (result :: rest) = written events rest := by
  simp [written, hNot]

theorem Silent.contents (h : Silent pc events r) (hRun : writeEach pc events r = (results, r'))
    (hAlive : .killed ∉ results) :
    r'.out.contents = r.out.contents ∧ written events results = [] := by
  induction events generalizing r results with
  | nil =>
      cases hRun
      exact ⟨rfl, rfl⟩
  | cons e events ih =>
      obtain ⟨result, r₁, rest, hWrite, hLive, hRest, hAlive', rfl⟩ := writeEach_cons hRun hAlive
      obtain ⟨hHeader, hSilent⟩ := h
      rw [hWrite] at hSilent
      obtain ⟨hContents, hWritten⟩ := ih hSilent hRest hAlive'
      rcases write_cases hWrite hLive with
        ⟨-, hNot, hSame⟩ | ⟨p, -, -, hSome, -⟩ | ⟨p, tail, -, -, ⟨bytes, r₂, hSome, -⟩, -⟩
      · exact ⟨hContents.trans hSame, by rw [written_cons_of_ne hNot, hWritten]⟩
      · exact absurd hHeader hSome
      · rw [hHeader] at hSome
        cases hSome

/-- What is in the file is complete records, among them all that were written, and at most a torn
one behind them. -/
theorem StaysFramed.contents (h : StaysFramed pc events r)
    (hRun : writeEach pc events r = (results, r')) (hAlive : .killed ∉ results)
    (hEncoded : Encoded pc es ps) (hContents : r.out.contents = frames ps) :
    ∃ more qs tail, Encoded pc (es ++ more) qs ∧ (written events results).Sublist more ∧
      r'.out.contents = frames qs ++ tail ∧ unframe tail = [] := by
  have hEnd : unframe [] = [] := unframe_of_short (by simp)
  induction events generalizing r results es ps with
  | nil =>
      cases hRun
      refine ⟨[], ps, [], by rwa [List.append_nil], List.Sublist.refl _, ?_, hEnd⟩
      rw [hContents, List.append_nil]
  | cons e events ih =>
      obtain ⟨result, r₁, rest, hWrite, hLive, hRest, hAlive', rfl⟩ := writeEach_cons hRun hAlive
      rw [StaysFramed, hWrite] at h
      rcases write_cases hWrite hLive with
        ⟨hHeader, hNot, hSame⟩ | ⟨p, hBytes, hFits, -, hWhole, hAdded⟩ |
        ⟨p, tail, hBytes, hFits, hTears, hNot, hPart, hAdded⟩
      · rcases h with ⟨-, hFramed⟩ | ⟨⟨bytes, r₂, hSome, -⟩, -⟩
        · rw [written_cons_of_ne hNot]
          exact ih hFramed hRest hAlive' hEncoded (hSame.trans hContents)
        · rw [hHeader] at hSome
          cases hSome
      · have hFramed := (h.resolve_right fun hTorn => hWhole hTorn.1).2
        rw [hContents, ← frames_concat] at hAdded
        obtain ⟨more, qs, tail, hQs, hSub, hRest⟩ :=
          ih hFramed hRest hAlive' (hEncoded.concat hBytes hFits) hAdded
        rw [List.append_assoc, List.singleton_append] at hQs
        refine ⟨e :: more, qs, tail, hQs, ?_, hRest⟩
        cases result with
        | ok => exact hSub.cons_cons e
        | err =>
            rw [written_cons_of_ne (by decide)]
            exact hSub.cons e
        | killed => exact absurd rfl hLive
      · have hSilent := (h.resolve_left fun hWhole => hWhole.1 hTears).2
        obtain ⟨hSame, hWritten⟩ := hSilent.contents hRest hAlive'
        rw [written_cons_of_ne hNot, hWritten, hSame, hAdded, hContents]
        by_cases hWhole : tail.length < (frame p).length
        · exact ⟨[], ps, tail, by rwa [List.append_nil], List.Sublist.refl _, rfl,
            unframe_of_torn hFits ⟨hPart, hWhole⟩⟩
        · have hAll : tail = frame p :=
            hPart.eq_of_length (Nat.le_antisymm hPart.length_le (Nat.le_of_not_lt hWhole))
          refine ⟨[e], ps ++ [p], [], hEncoded.concat hBytes hFits, List.nil_sublist _, ?_, hEnd⟩
          rw [hAll, frames_concat, List.append_nil]

/-! ## Records that fit the buffer, and one that does not -/

variable {p data : List UInt8} {answers : List FileAnswer}

/-- The recorder with data put into the buffer. -/
def buffer (data : List UInt8) (r : Recorder) : Recorder :=
  { r with out := { r.out with buf := r.out.buf ++ data, handed := r.out.handed ++ data } }

theorem writeAll_room (hRoom : data.length < bufCapacity - r.out.buf.length) :
    r.writeAll data = (.ok, r.buffer data) := by
  rw [writeAll, BufWriter.writeAll, if_pos hRoom, buffer]

theorem writeAll_refused (hAnswers : r.out.answers = .error :: answers) (hBuf : r.out.buf ≠ [])
    (hLong : bufCapacity - r.out.buf.length < data.length) :
    r.writeAll data =
      (.err, { r with out := { r.out with answers, handed := r.out.handed ++ data } }) := by
  rw [writeAll, BufWriter.writeAll, if_neg (Nat.not_lt_of_lt hLong), BufWriter.writeAllCold,
    if_pos hLong, BufWriter.flushBuf]
  simp only [hAnswers, offer, if_neg hBuf, andThen]

theorem header?_room (hBytes : pc.toStdvec e = some p) (hFits : Fits p)
    (hRoom : r.out.buf.length + 4 < bufCapacity) :
    r.header? pc e = some (p, r.buffer (toLeBytes p.length)) :=
  header?_eq_some.mpr ⟨hBytes, hFits, writeAll_room (by rw [length_toLeBytes]; omega)⟩

theorem write_room (hBytes : pc.toStdvec e = some p)
    (hRoom : r.out.buf.length + (frame p).length < bufCapacity)
    (hDue : (r.records + 1) % 100 ≠ 0) :
    r.write pc e = (.ok, { r.buffer (frame p) with records := r.records + 1 }) ∧ ¬r.Tears pc e := by
  rw [frame, List.length_append, length_toLeBytes] at hRoom
  have hFits : Fits p := by
    rw [bufCapacity] at hRoom
    rw [Fits]
    omega
  have hHeader := header?_room (r := r) hBytes hFits (by omega)
  have hPayload : (r.buffer (toLeBytes p.length)).writeAll p = (.ok, r.buffer (frame p)) := by
    rw [writeAll_room (by simp [buffer]; omega)]
    simp [buffer, frame]
  refine ⟨?_, ?_⟩
  · rw [write_of_header hHeader, inOrder, hPayload]
    simp [andThen, inOrder, count, flushIfDue, buffer, hDue]
  · rintro ⟨bytes, r₁, hSome, hErr⟩
    rw [hHeader] at hSome
    cases hSome
    rw [hPayload] at hErr
    cases hErr

/-- A payload that does not fit the buffer behind its header, while the file fails. -/
theorem write_refused (hBytes : pc.toStdvec e = some p) (hFits : Fits p)
    (hRoom : r.out.buf.length + 4 < bufCapacity)
    (hLong : bufCapacity < r.out.buf.length + (frame p).length)
    (hAnswers : r.out.answers = .error :: answers) :
    r.write pc e = (.err, { r with out := { r.out with
      buf := r.out.buf ++ toLeBytes p.length, answers, handed := r.out.handed ++ frame p } }) ∧
      r.Tears pc e := by
  rw [frame, List.length_append, length_toLeBytes] at hLong
  have hHeader := header?_room (r := r) hBytes hFits hRoom
  have hPayload : (r.buffer (toLeBytes p.length)).writeAll p = (.err, _) :=
    writeAll_refused hAnswers (by simp [buffer, toLeBytes]) (by simp [buffer]; omega)
  refine ⟨?_, p, _, hHeader, by rw [hPayload]⟩
  rw [write_of_header hHeader, inOrder, hPayload]
  simp [andThen, buffer, frame]

theorem drop_taken {n m : Nat} (hBuf : r.out.buf ≠ [])
    (hAnswers : r.out.answers = .took (n + 1) :: .took m :: answers)
    (hTaken : r.out.buf.length ≤ n + 1) :
    ∃ r', r.drop = (.ok, r') := by
  have hFlush : r.out.flushBuf =
      (.ok, { r.out with file := r.out.contents, buf := [], answers := .took m :: answers }) := by
    rw [BufWriter.flushBuf, hAnswers, offer_all hBuf hTaken, BufWriter.contents]
  rw [drop, BufWriter.flush, hFlush]
  cases answers with
  | nil => exact ⟨_, rfl⟩
  | cons answer answers => exact ⟨_, rfl⟩

/-- A record of which only the header was written swallows the short record behind it. -/
theorem torn_record_swallows (pc : Postcard T) (e d : CarEvent T) {p q : List UInt8}
    (hLong : pc.toStdvec e = some p) (hShort : pc.toStdvec d = some q) (hFits : Fits p)
    (hp : bufCapacity < p.length) (hq : q.length ≤ 92) :
    ∃ r r', writeEach pc [e, d] (create [.error, .took 100, .took 0]) = ([.err, .ok], r) ∧
      r.drop = (.ok, r') ∧ readAll pc r'.out.file = some [] := by
  have hFrame : (frame p).length = 4 + p.length := by simp [frame]
  have hFrame' : (frame q).length = 4 + q.length := by simp [frame]
  obtain ⟨hRefused, -⟩ := write_refused (r := create [.error, .took 100, .took 0]) hLong hFits
    (by decide) (by simp [create]; omega) rfl
  obtain ⟨hBuffered, -⟩ := write_room (r := ⟨⟨[], toLeBytes p.length, [.took 100, .took 0],
    frame p, 0⟩, 0⟩) hShort (by rw [bufCapacity]; simp; omega) (show (0 + 1) % 100 ≠ 0 by decide)
  obtain ⟨r', hDrop⟩ := drop_taken (n := 99)
    (r := ⟨⟨[], toLeBytes p.length ++ frame q, [.took 100, .took 0], frame p ++ frame q, 0⟩, 1⟩)
    (by simp [toLeBytes]) rfl (by simp; omega)
  refine ⟨_, r', writeEach_of_err hRefused (writeEach_of_ok hBuffered rfl), hDrop, ?_⟩
  have hSwallowed : ¬p.length ≤ (frame q).length := by
    rw [bufCapacity] at hp
    omega
  rw [drop_ok hDrop, readAll_eq, BufWriter.contents, List.nil_append,
    unframe_toLeBytes_append hFits, if_neg hSwallowed]
  rfl

end Recorder

/-- **Failed writes.** However the writes and flushes of the file fail, as long as nothing is
written behind a torn record and the last flush succeeds, the recording is read without an error,
and every event whose write returned `Ok` is among the events read, in order. -/
theorem failed_writes_keep_events (pc : Postcard T) (hpc : pc.RoundTrips)
    (events : List (CarEvent T)) (answers : List FileAnswer) (results : List IoResult)
    (r r' : Recorder) (hRun : Recorder.writeEach pc events (Recorder.create answers) = (results, r))
    (hAlive : .killed ∉ results) (hDrop : r.drop = (.ok, r'))
    (hFramed : Recorder.StaysFramed pc events (Recorder.create answers)) :
    ∃ es, readAll pc r'.out.file = some es ∧ (Recorder.written events results).Sublist es := by
  have hNone : Encoded pc [] [] := List.Forall₂.nil
  obtain ⟨more, qs, tail, hQs, hSub, hContents, hTail⟩ :=
    hFramed.contents hRun hAlive hNone rfl
  refine ⟨more, ?_, hSub⟩
  rw [Recorder.drop_ok hDrop, hContents, readAll_eq, unframe_frames_append hQs.fits, hTail,
    List.append_nil, hQs.decode hpc, List.nil_append]

/-- A status that is longer than the buffer, with its encoding. -/
def longStatus : CarEvent Unit × List UInt8 :=
  (⟨"c", 1, .status (String.ofList (List.replicate 8200 'x'))⟩,
    [1, 99, 1, 0, 136, 64] ++ List.replicate 8200 120)

/-- A short status of the same car, with its encoding. -/
def shortStatus : CarEvent Unit × List UInt8 :=
  (⟨"c", 2, .status "offline"⟩, [1, 99, 2, 0, 7, 111, 102, 102, 108, 105, 110, 101])

/-- The codec on these two. -/
def statusCodec : Postcard Unit := Postcard.ofTable [longStatus, shortStatus]

theorem length_longStatus : longStatus.2.length = 8206 := by
  rw [longStatus, List.length_append, List.length_replicate]
  rfl

theorem fits_longStatus : Fits longStatus.2 := by
  rw [Fits, length_longStatus]
  omega

theorem statusCodec_roundTrips : statusCodec.RoundTrips := by
  have hPayloads : longStatus.2 ≠ shortStatus.2 := by
    intro hEq
    have hLong := length_longStatus
    rw [hEq] at hLong
    cases hLong
  exact Postcard.roundTrips_ofTable (by simpa using hPayloads)

theorem toStdvec_longStatus : statusCodec.toStdvec longStatus.1 = some longStatus.2 := by
  simp [statusCodec, Postcard.ofTable]

theorem toStdvec_shortStatus : statusCodec.toStdvec shortStatus.1 = some shortStatus.2 := by
  have hEvents : longStatus.1 ≠ shortStatus.1 := fun hEq =>
    absurd (congrArg CarEvent.atMs hEq) (by decide : (1 : UInt64) ≠ 2)
  simp [statusCodec, Postcard.ofTable, hEvents]

/-- The file refuses the long status and takes everything afterwards: the short one is lost. -/
theorem torn_record_loses_events :
    ¬∀ (pc : Postcard Unit), pc.RoundTrips → ∀ (events : List (CarEvent Unit))
      (answers : List FileAnswer) (results : List IoResult) (r r' : Recorder),
      Recorder.writeEach pc events (Recorder.create answers) = (results, r) →
      .killed ∉ results → r.drop = (.ok, r') →
      ∃ es, readAll pc r'.out.file = some es ∧ (Recorder.written events results).Sublist es := by
  intro h
  obtain ⟨r, r', hRun, hDrop, hRead⟩ := Recorder.torn_record_swallows statusCodec _ _
    toStdvec_longStatus toStdvec_shortStatus fits_longStatus
    (by rw [length_longStatus, bufCapacity]; omega) (by decide)
  obtain ⟨es, hEs, hSub⟩ := h _ statusCodec_roundTrips _ _ _ _ _ hRun (by decide) hDrop
  rw [hRead] at hEs
  cases hEs
  cases hSub

/-- The other way around: the short status comes first, so the torn record is the last. -/
theorem failed_writes_keep_events_torn_last :
    ∃ r r', Recorder.writeEach statusCodec [shortStatus.1, longStatus.1]
        (Recorder.create [.error, .took 100, .took 0]) = ([.ok, .err], r) ∧
      r.drop = (.ok, r') ∧ ∃ es, readAll statusCodec r'.out.file = some es ∧
        (Recorder.written [shortStatus.1, longStatus.1] [.ok, .err]).Sublist es := by
  have hFrame : (frame longStatus.2).length = 8210 := by
    rw [frame, List.length_append, length_longStatus]
    rfl
  obtain ⟨hBuffered, hWhole⟩ := Recorder.write_room
    (r := Recorder.create [.error, .took 100, .took 0]) toStdvec_shortStatus (by decide) (by decide)
  obtain ⟨hRefused, hTears⟩ := Recorder.write_refused
    (r := ⟨⟨[], frame shortStatus.2, [.error, .took 100, .took 0], frame shortStatus.2, 0⟩, 1⟩)
    toStdvec_longStatus fits_longStatus (by decide) (by rw [hFrame, bufCapacity]; omega) rfl
  obtain ⟨r', hDrop⟩ := Recorder.drop_taken (n := 99)
    (r := ⟨⟨[], frame shortStatus.2 ++ toLeBytes longStatus.2.length, [.took 100, .took 0],
      frame shortStatus.2 ++ frame longStatus.2, 0⟩, 1⟩)
    (by simp [toLeBytes]) rfl (by simp; decide)
  have hRun := Recorder.writeEach_of_ok hBuffered
    (Recorder.writeEach_of_err hRefused (rfl : Recorder.writeEach statusCodec [] _ = ([], _)))
  refine ⟨_, r', hRun, hDrop, failed_writes_keep_events statusCodec statusCodec_roundTrips _ _ _ _ _
    hRun (by decide) hDrop (Or.inl ⟨hWhole, ?_⟩)⟩
  rw [hBuffered]
  exact Or.inr ⟨hTears, trivial⟩

end OlivawHub
