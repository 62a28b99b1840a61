import OlivawHub.Session.Recorder

/-!
# Recording until the hub is killed

The process may be killed at any moment, between two calls of `write` or inside one
(`Recorder.KillPoint`). The file then holds some prefix of what was handed to the `BufWriter`
that reaches at least up to the last flush, and every such prefix reads back as a prefix of the
events, of which at most the last hundred calls are missing (`recording_survives_kill`).
-/

namespace OlivawHub

open Foundations

variable {T : Type} {pc : Postcard T}

namespace Recorder

/-- The process is killed when `n` calls of `write` had returned `Ok`: between two calls, or
after some steps of the next one, the last of them perhaps not finished. -/
inductive KillPoint (pc : Postcard T) : List (CarEvent T) → Nat → Recorder → Recorder → Prop where
  | between (events : List (CarEvent T)) (r : Recorder) : KillPoint pc events 0 r r
  | inside {e : CarEvent T} {events : List (CarEvent T)} {bytes : List UInt8} {r r' : Recorder}
      {steps : List (Recorder → IoResult × Recorder)} {result : IoResult}
      (hBytes : pc.toStdvec e = some bytes) (hFits : Fits bytes)
      (hSteps : steps <+: writeSteps bytes) (hRun : inOrder steps r = (result, r'))
      (hNoError : result ≠ .err) : KillPoint pc (e :: events) 0 r r'
  | after {e : CarEvent T} {events : List (CarEvent T)} {n : Nat} {r r' r'' : Recorder}
      (hWrite : r.write pc e = (.ok, r')) (hRest : KillPoint pc events n r' r'') :
      KillPoint pc (e :: events) (n + 1) r r''

/-! ## One call -/

/-- The recorder was handed the records `ps` and then `extra`, without an error. -/
structure Holding (ps : List (List UInt8)) (extra : List UInt8) (records : Nat) (r : Recorder) :
    Prop where
  exact : r.out.contents = r.out.handed
  handed : r.out.handed = frames ps ++ extra
  sound : r.out.Sound
  records : r.records = records
  /-- All full hundreds of records are flushed. -/
  flushed : (frames (ps.take (100 * (ps.length / 100)))).length ≤ r.out.flushed

/-- The recorder wrote the records `ps`. -/
def Recorded (ps : List (List UInt8)) (r : Recorder) : Prop := Holding ps [] ps.length r

/-- The recorder wrote the records `ps` and was handed some of the next one, `p`. -/
structure Midway (ps : List (List UInt8)) (p : List UInt8) (r : Recorder) : Prop where
  sound : r.out.Sound
  handed : r.out.handed <+: frames ps ++ frame p
  flushed : (frames (ps.take (100 * (ps.length / 100)))).length ≤ r.out.flushed

variable {ps : List (List UInt8)} {p extra data : List UInt8} {n : Nat} {r r' : Recorder}
  {result : IoResult}

theorem recorded_create (answers : List FileAnswer) : Recorded [] (create answers) where
  exact := rfl
  handed := rfl
  sound := ⟨List.prefix_rfl, Nat.le_refl _⟩
  records := rfl
  flushed := Nat.le_refl _

theorem Holding.midway (h : Holding ps extra n r) (hExtra : extra <+: frame p) :
    Midway ps p r := by
  refine ⟨h.sound, ?_, h.flushed⟩
  rw [h.handed]
  exact (List.prefix_append_right_inj _).mpr hExtra

theorem Holding.writeAll (h : Holding ps extra n r) (hData : extra ++ data <+: frame p)
    (hRun : r.writeAll data = (result, r')) :
    Midway ps p r' ∧ (result = .ok → Holding ps (extra ++ data) n r') := by
  obtain ⟨out, hWrite, rfl⟩ := writeAll_cases hRun
  obtain ⟨hSound, hExact⟩ := BufWriter.writeAll_sound h.sound h.exact hWrite
  obtain ⟨hWrote, hHanded⟩ := BufWriter.writeAll_spec hWrite
  have hFlushed := h.flushed
  rw [← hWrote.flushed] at hFlushed
  rw [h.handed, List.append_assoc] at hHanded
  refine ⟨⟨hSound, ?_, hFlushed⟩, fun hOk => ⟨hExact hOk, hHanded, hSound, h.records, hFlushed⟩⟩
  simp only [hHanded]
  exact (List.prefix_append_right_inj _).mpr hData

theorem Holding.count (h : Holding ps (frame p) n r) (hRun : r.count = (result, r')) :
    Midway ps p r' ∧ (result = .ok → Holding ps (frame p) (n + 1) r') := by
  cases hRun
  have hCounted : Holding ps (frame p) (n + 1) { r with records := r.records + 1 } :=
    ⟨h.exact, h.handed, h.sound, by rw [h.records], h.flushed⟩
  exact ⟨hCounted.midway List.prefix_rfl, fun _ => hCounted⟩

/-- Where a hundred is full the whole buffer goes to the file. -/
theorem Holding.flushIfDue (h : Holding ps (frame p) (ps.length + 1) r)
    (hRun : r.flushIfDue = (result, r')) :
    Midway ps p r' ∧ (result = .ok → Recorded (ps ++ [p]) r') := by
  have hFrames := frames_concat ps p
  have hLength : (ps ++ [p]).length = ps.length + 1 := List.length_append
  rcases flushIfDue_cases hRun with ⟨-, out, hFlush, rfl⟩ | ⟨hDue, rfl⟩
  · obtain ⟨hSound, hExact, hHanded, hLe, hAll⟩ := BufWriter.flush_sound h.sound h.exact hFlush
    rw [h.handed] at hHanded
    refine ⟨⟨hSound, ?_, Nat.le_trans h.flushed hLe⟩, fun hOk => ⟨hExact, ?_, hSound, ?_, ?_⟩⟩
    · simp only [hHanded]
      exact List.prefix_rfl
    · rw [hFrames, List.append_nil, hHanded]
    · rw [h.records, hLength]
    · simp only [hAll hOk, hHanded, ← hFrames]
      exact (frames_take_isPrefix _ _).length_le
  · refine ⟨h.midway List.prefix_rfl, fun _ => ⟨h.exact, ?_, h.sound, ?_, ?_⟩⟩
    · rw [hFrames, List.append_nil, h.handed]
    · rw [h.records, hLength]
    · -- the new record opens or continues a hundred that is not full
      have hRecords := h.records
      have hSame : 100 * ((ps ++ [p]).length / 100) = 100 * (ps.length / 100) := by
        rw [hLength]
        omega
      rw [hSame, List.take_append_of_le_length (by omega)]
      exact h.flushed

theorem leads_writeSteps (ps : List (List UInt8)) (p : List UInt8) :
    Leads (Midway ps p) (Recorded (ps ++ [p])) (writeSteps p) (Recorded ps) := by
  have hHeader : [] ++ toLeBytes p.length <+: frame p := List.prefix_append _ _
  have hFrame : [] ++ toLeBytes p.length ++ p <+: frame p := List.prefix_rfl
  refine .step (fun r result r' h hRun => h.writeAll hHeader hRun) ?_
  refine .step (fun r result r' h hRun => h.writeAll hFrame hRun) ?_
  refine .step (fun r result r' h hRun => Holding.count h hRun) ?_
  refine .step (fun r result r' h hRun => h.flushIfDue hRun) ?_
  exact .done fun r h => h

theorem Recorded.write (h : Recorded ps r) {e : CarEvent T} (hRun : r.write pc e = (.ok, r')) :
    ∃ p, pc.toStdvec e = some p ∧ Fits p ∧ Recorded (ps ++ [p]) r' := by
  unfold Recorder.write at hRun
  split at hRun
  · cases hRun
  · rename_i p hBytes
    split at hRun
    · rename_i hFits
      exact ⟨p, hBytes, hFits, (leads_writeSteps ps p).ok h hRun⟩
    · cases hRun

/-! ## Runs -/

/-- What was handed over when the process is killed: records of a prefix of the events, the last
one perhaps in part, and all full hundreds of calls that returned are flushed. -/
theorem KillPoint.handed {events done : List (CarEvent T)} {n : Nat}
    (hKill : KillPoint pc events n r r') (hDone : Encoded pc done ps) (h : Recorded ps r) :
    ∃ es qs, es <+: done ++ events ∧ Encoded pc es qs ∧ done.length + n ≤ es.length ∧
      r'.out.Sound ∧ r'.out.handed <+: frames qs ∧
      (frames (qs.take (100 * ((done.length + n) / 100)))).length ≤ r'.out.flushed := by
  induction hKill generalizing done ps with
  | between events r =>
      refine ⟨done, ps, List.prefix_append _ _, hDone, Nat.le_refl _, h.sound, ?_, ?_⟩
      · rewrite [h.handed, List.append_nil]
        exact List.prefix_rfl
      · rw [Nat.add_zero, hDone.length_eq]
        exact h.flushed
  | @inside e events bytes r r' steps result hBytes hFits hSteps hRun hNoError =>
      have hMid := (leads_writeSteps ps bytes).keeps hSteps (h.midway List.nil_prefix) h hRun
      have hLength := hDone.length_eq
      refine ⟨done ++ [e], ps ++ [bytes], ⟨events, by simp⟩, hDone.concat hBytes hFits, by simp,
        hMid.sound, ?_, ?_⟩
      · rw [frames_concat]
        exact hMid.handed
      · rw [Nat.add_zero, hLength, List.take_append_of_le_length (by omega)]
        exact hMid.flushed
  | @after e events n r r₁ r' hWrite _ ih =>
      obtain ⟨p, hBytes, hFits, hRecorded⟩ := h.write hWrite
      obtain ⟨es, qs, hEs, hQs, hCount, hRest⟩ := ih (hDone.concat hBytes hFits) hRecorded
      rw [List.append_assoc, List.singleton_append] at hEs
      have hNumber : (done ++ [e]).length + n = done.length + (n + 1) := by
        rw [List.length_append, List.length_singleton]
        omega
      rw [hNumber] at hCount hRest
      exact ⟨es, qs, hEs, hQs, hCount, hRest⟩

theorem KillPoint.recorded {events done : List (CarEvent T)} {n : Nat}
    (hKill : KillPoint pc events n r r') (hAll : n = events.length) (hDone : Encoded pc done ps)
    (h : Recorded ps r) : ∃ qs, Encoded pc (done ++ events) qs ∧ Recorded qs r' := by
  induction hKill generalizing done ps with
  | between events r =>
      obtain rfl := List.length_eq_zero_iff.mp hAll.symm
      exact ⟨ps, by rwa [List.append_nil], h⟩
  | inside => cases hAll
  | @after e events n r r₁ r' hWrite _ ih =>
      obtain ⟨p, hBytes, hFits, hRecorded⟩ := h.write hWrite
      obtain ⟨qs, hQs, hLast⟩ := ih (Nat.succ.inj hAll) (hDone.concat hBytes hFits) hRecorded
      rw [List.append_assoc, List.singleton_append] at hQs
      exact ⟨qs, hQs, hLast⟩

theorem Recorded.drop_ok (h : Recorded ps r) (hDrop : r.drop = (.ok, r')) :
    r'.out.file = frames ps := by
  rw [Recorder.drop_ok hDrop, h.exact, h.handed, List.append_nil]

end Recorder

/-- **Durability.** When the process is killed, after `n` calls of `write` returned `Ok` and none
failed, the file holds a prefix of what was handed to the `BufWriter` that reaches up to the last
flush. Every such prefix is read without an error, as a prefix of the events with at least the
last full hundred of the `n`. If instead the recorder wrote all events and its last flush
succeeded, exactly the events are read. -/
theorem recording_survives_kill (pc : Postcard T) (hpc : pc.RoundTrips)
    (events : List (CarEvent T)) (answers : List FileAnswer) (n : Nat) (r : Recorder)
    (hKill : Recorder.KillPoint pc events n (Recorder.create answers) r) :
    (r.out.file <+: r.out.handed ∧ r.out.flushed ≤ r.out.file.length) ∧
      (∀ image, image <+: r.out.handed → r.out.flushed ≤ image.length →
        ∃ es, readAll pc image = some es ∧ es <+: events ∧ 100 * (n / 100) ≤ es.length) ∧
      (n = events.length → ∀ r', r.drop = (.ok, r') → readAll pc r'.out.file = some events) := by
  have hNone : Encoded pc [] [] := List.Forall₂.nil
  have hCreate := Recorder.recorded_create answers
  obtain ⟨es, qs, hEs, hQs, hCount, hSound, hHanded, hFlushed⟩ := hKill.handed hNone hCreate
  refine ⟨⟨hSound.file_isPrefix, hSound.flushed⟩, fun image hImage hLong => ?_,
    fun hAll r' hDrop => ?_⟩
  · rw [List.length_nil, Nat.zero_add] at hCount hFlushed
    have hWhole := hImage.trans hHanded
    obtain ⟨es', hRead, hPrefix, hLength⟩ := hQs.read_isPrefix hpc hWhole
    refine ⟨es', hRead, hPrefix.trans hEs, ?_⟩
    -- the flushed records are in the image, so they are read
    have hIn : frames (qs.take (100 * (n / 100))) <+: image :=
      List.prefix_of_prefix_length_le (frames_take_isPrefix _ _) hWhole
        (Nat.le_trans hFlushed hLong)
    have hRecords := le_length_unframe
      (fun q hq => hQs.fits q (List.mem_of_mem_take hq)) hIn
    have hEnough := hQs.length_eq
    rw [List.length_take] at hRecords
    omega
  · obtain ⟨qs, hQs, hRecorded⟩ := hKill.recorded hAll hNone hCreate
    rw [List.nil_append] at hQs
    rw [hRecorded.drop_ok hDrop]
    exact hQs.read_frames hpc

/-- Two events of one car, with their encodings. -/
def twoEvents : List (CarEvent Unit × List UInt8) :=
  [(⟨"c", 1, .status "online"⟩, [1, 99, 1, 0, 6, 111, 110, 108, 105, 110, 101]),
    (⟨"c", 2, .status "offline"⟩, [1, 99, 2, 0, 7, 111, 102, 102, 108, 105, 110, 101])]

/-- The hub is killed after the header of the second record. -/
theorem recording_survives_kill_two :
    let pc := Postcard.ofTable twoEvents
    let events := twoEvents.map Prod.fst
    ∃ r, Recorder.KillPoint pc events 1 (Recorder.create []) r ∧ r.out.handed.length = 19 ∧
      (r.out.file <+: r.out.handed ∧ r.out.flushed ≤ r.out.file.length) ∧
      (∀ image, image <+: r.out.handed → r.out.flushed ≤ image.length →
        ∃ es, readAll pc image = some es ∧ es <+: events ∧ 100 * (1 / 100) ≤ es.length) ∧
      (1 = events.length → ∀ r', r.drop = (.ok, r') → readAll pc r'.out.file = some events) := by
  intro pc events
  have hKill : Recorder.KillPoint pc events 1 (Recorder.create []) _ :=
    .after rfl (.inside rfl (by decide)
      (⟨_, rfl⟩ : [Recorder.writeAll (toLeBytes 12)] <+: Recorder.writeSteps _) rfl nofun)
  exact ⟨_, hKill, rfl, recording_survives_kill pc (Postcard.roundTrips_ofTable (by decide)) events
    [] 1 _ hKill⟩

end OlivawHub
