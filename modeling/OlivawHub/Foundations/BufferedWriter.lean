import Mathlib.Data.List.Basic

/-!
# Buffered writing to a file

`std::io::BufWriter` over a file that may take any part of what it is offered, be interrupted or
fail. What the file answers to the coming calls is a list, and the process is killed when it runs
out, so a kill can fall between any two calls. What the file has taken and what is still in the
buffer are together the `contents`; every operation only adds to their end.
-/

namespace OlivawHub.Foundations

/-- How an operation ends. -/
inductive IoResult where
  | ok
  | err
  /-- The process is killed before the operation ends. -/
  | killed
  deriving DecidableEq, Repr

/-- The answer of the file to one call of `write` or `flush`. -/
inductive FileAnswer where
  /-- `Ok(n)`: the file took the first `n` bytes, all if there are fewer. -/
  | took (n : Nat)
  /-- `ErrorKind::Interrupted`. -/
  | interrupted
  | error
  deriving DecidableEq, Repr

/-- A buffered writer, its file, and the answers the file will give. `handed` and `flushed` are
history variables: all bytes passed to `writeAll`, and how many of them had been passed when
`flush` last succeeded. -/
structure BufWriter where
  file : List UInt8
  buf : List UInt8
  answers : List FileAnswer
  handed : List UInt8
  flushed : Nat
  deriving DecidableEq, Repr

/-- Do `k` if the operation before it succeeded. -/
def andThen {σ : Type} (r : IoResult × σ) (k : σ → IoResult × σ) : IoResult × σ :=
  match r with
  | (.ok, s) => k s
  | (.err, s) => (.err, s)
  | (.killed, s) => (.killed, s)

/-- Operations one after the other, until one does not succeed. -/
def inOrder {σ : Type} : List (σ → IoResult × σ) → σ → IoResult × σ
  | [], s => (.ok, s)
  | f :: fs, s => andThen (f s) (inOrder fs)

theorem andThen_cases {σ : Type} {r : IoResult × σ} {k : σ → IoResult × σ} {result : IoResult}
    {s : σ} (h : andThen r k = (result, s)) :
    (∃ s₁, r = (.ok, s₁) ∧ k s₁ = (result, s)) ∨ (result ≠ .ok ∧ r = (result, s)) := by
  obtain ⟨first, s₁⟩ := r
  cases first with
  | ok => exact Or.inl ⟨s₁, rfl, h⟩
  | err =>
      cases h
      exact Or.inr ⟨nofun, rfl⟩
  | killed =>
      cases h
      exact Or.inr ⟨nofun, rfl⟩

theorem andThen_ok {σ : Type} {r : IoResult × σ} {k : σ → IoResult × σ} {s : σ}
    (h : andThen r k = (.ok, s)) : ∃ s₁, r = (.ok, s₁) ∧ k s₁ = (.ok, s) :=
  (andThen_cases h).resolve_right fun hNot => hNot.1 rfl

/-- Operations that lead from `P` to `R` if all of them succeed, and that keep `Q` wherever they
are broken off. -/
inductive Leads {σ : Type} (Q R : σ → Prop) : List (σ → IoResult × σ) → (σ → Prop) → Prop where
  | done {P : σ → Prop} (hDone : ∀ s, P s → R s) : Leads Q R [] P
  | step {P P' : σ → Prop} {f : σ → IoResult × σ} {fs : List (σ → IoResult × σ)}
      (hStep : ∀ s result s', P s → f s = (result, s') → Q s' ∧ (result = .ok → P' s'))
      (hRest : Leads Q R fs P') : Leads Q R (f :: fs) P

namespace Leads

variable {σ : Type} {P Q R : σ → Prop} {fs gs : List (σ → IoResult × σ)} {s s' : σ}
  {result : IoResult}

theorem keeps (h : Leads Q R fs P) (hPart : gs <+: fs) (hQ : Q s) (hP : P s)
    (hRun : inOrder gs s = (result, s')) : Q s' := by
  induction h generalizing gs s with
  | done =>
      rw [List.prefix_nil] at hPart
      subst hPart
      cases hRun
      exact hQ
  | step hStep _ ih =>
      rw [List.prefix_cons_iff] at hPart
      rcases hPart with rfl | ⟨gs, rfl, hPart⟩
      · cases hRun
        exact hQ
      rcases andThen_cases hRun with ⟨s₁, hFirst, hRun⟩ | ⟨-, hFirst⟩
      · obtain ⟨hKept, hNext⟩ := hStep _ _ _ hP hFirst
        exact ih hPart hKept (hNext rfl) hRun
      · exact (hStep _ _ _ hP hFirst).1

theorem ok (h : Leads Q R fs P) (hP : P s) (hRun : inOrder fs s = (.ok, s')) : R s' := by
  induction h generalizing s with
  | done hDone =>
      cases hRun
      exact hDone _ hP
  | step hStep _ ih =>
      obtain ⟨s₁, hFirst, hRun⟩ := andThen_ok hRun
      exact ih ((hStep _ _ _ hP hFirst).2 rfl) hRun

end Leads

/-- How it went to offer data to a file: what the file holds now, what it has not taken, and the
answers it will give. -/
structure Offered where
  result : IoResult
  file : List UInt8
  rest : List UInt8
  answers : List FileAnswer

/-- Offer `data` to the file until it has taken everything. -/
def offer (file data : List UInt8) : List FileAnswer → Offered
  | [] => if data = [] then ⟨.ok, file, [], []⟩ else ⟨.killed, file, data, []⟩
  | answer :: answers =>
      if data = [] then ⟨.ok, file, [], answer :: answers⟩
      else match answer with
        | .took 0 => ⟨.err, file, data, answers⟩
        | .took n => offer (file ++ data.take n) (data.drop n) answers
        | .interrupted => offer file data answers
        | .error => ⟨.err, file, data, answers⟩

namespace BufWriter

/-- What the file and the buffer hold. -/
def contents (w : BufWriter) : List UInt8 := w.file ++ w.buf

/-- `flush_buf`. -/
def flushBuf (w : BufWriter) : IoResult × BufWriter :=
  let o := offer w.file w.buf w.answers
  (o.result, { w with file := o.file, buf := o.rest, answers := o.answers })

/-- `flush`. -/
def flush (w : BufWriter) : IoResult × BufWriter :=
  andThen w.flushBuf fun w =>
    match w.answers with
    | [] => (.killed, w)
    | .took _ :: answers => (.ok, { w with answers, flushed := w.handed.length })
    | _ :: answers => (.err, { w with answers })

/-- `write_all_cold`: make room, and let what is larger than the buffer go to the file directly. -/
def writeAllCold (cap : Nat) (w : BufWriter) (data : List UInt8) : IoResult × BufWriter :=
  andThen (if cap - w.buf.length < data.length then w.flushBuf else (.ok, w)) fun w =>
    if cap ≤ data.length then
      let o := offer w.file data w.answers
      (o.result, { w with file := o.file, answers := o.answers })
    else (.ok, { w with buf := w.buf ++ data })

/-- `write_all`. -/
def writeAll (cap : Nat) (w : BufWriter) (data : List UInt8) : IoResult × BufWriter :=
  let w := { w with handed := w.handed ++ data }
  if data.length < cap - w.buf.length then (.ok, { w with buf := w.buf ++ data })
  else w.writeAllCold cap data

end BufWriter

theorem offer_all {file data : List UInt8} {n : Nat} (hData : data ≠ [])
    (hAll : data.length ≤ n + 1) (answers : List FileAnswer) :
    offer file data (.took (n + 1) :: answers) = ⟨.ok, file ++ data, [], answers⟩ := by
  unfold offer
  rw [if_neg hData]
  show offer (file ++ data.take (n + 1)) (data.drop (n + 1)) answers = _
  rw [List.take_of_length_le hAll, List.drop_of_length_le hAll]
  cases answers with
  | nil => rfl
  | cons answer answers => rfl

theorem offer_spec (file data : List UInt8) (answers : List FileAnswer) :
    ∃ taken, (offer file data answers).file = file ++ taken ∧
      data = taken ++ (offer file data answers).rest ∧
      ((offer file data answers).result = .ok → (offer file data answers).rest = []) := by
  induction answers generalizing file data with
  | nil =>
      unfold offer
      split
      · exact ⟨[], by simp [*]⟩
      · exact ⟨[], by simp⟩
  | cons answer answers ih =>
      unfold offer
      split
      · exact ⟨[], by simp [*]⟩
      · cases answer with
        | took n =>
            cases n with
            | zero => exact ⟨[], by simp⟩
            | succ n =>
                obtain ⟨taken, hFile, hData, hOk⟩ :=
                  ih (file ++ data.take (n + 1)) (data.drop (n + 1))
                refine ⟨data.take (n + 1) ++ taken, ?_, ?_, hOk⟩
                · rw [← List.append_assoc]
                  exact hFile
                · have hSplit := List.take_append_drop (n + 1) data
                  rw [hData, ← List.append_assoc] at hSplit
                  exact hSplit.symm
        | interrupted => exact ih file data
        | error => exact ⟨[], by simp⟩

namespace BufWriter

variable {cap : Nat} {w w' : BufWriter} {data : List UInt8} {result : IoResult}

theorem flushBuf_spec (h : w.flushBuf = (result, w')) :
    w'.contents = w.contents ∧ w.file <+: w'.file ∧ (result = .ok → w'.buf = []) ∧
      w'.handed = w.handed ∧ w'.flushed = w.flushed := by
  obtain ⟨taken, hFile, hData, hOk⟩ := offer_spec w.file w.buf w.answers
  cases h
  refine ⟨?_, ?_, hOk, rfl, rfl⟩
  · simp only [contents, hFile, List.append_assoc, ← hData]
  · simp only [hFile, List.prefix_append]

theorem flush_spec (h : w.flush = (result, w')) :
    w'.contents = w.contents ∧ w.file <+: w'.file ∧ w'.handed = w.handed ∧
      (result = .ok → w'.buf = [] ∧ w'.flushed = w.handed.length) ∧
      (result ≠ .ok → w'.flushed = w.flushed) := by
  rcases andThen_cases h with ⟨w₁, hFlush, h⟩ | ⟨hNot, hFlush⟩
  · obtain ⟨hContents, hFile, hBuf, hHanded, hFlushed⟩ := flushBuf_spec hFlush
    split at h <;> cases h
    · exact ⟨hContents, hFile, hHanded, nofun, fun _ => hFlushed⟩
    · exact ⟨hContents, hFile, hHanded, fun _ => ⟨hBuf rfl, by rw [hHanded]⟩, nofun⟩
    · exact ⟨hContents, hFile, hHanded, nofun, fun _ => hFlushed⟩
  · obtain ⟨hContents, hFile, -, hHanded, hFlushed⟩ := flushBuf_spec hFlush
    exact ⟨hContents, hFile, hHanded, fun hOk => absurd hOk hNot, fun _ => hFlushed⟩

/-- What an operation with `data` leaves of it: all if it succeeds, and otherwise nothing unless
`data` is too large for the buffer. -/
structure Wrote (cap : Nat) (w w' : BufWriter) (data : List UInt8) (result : IoResult) : Prop where
  part : ∃ part, w'.contents = w.contents ++ part ∧ part <+: data ∧
    (result = .ok → part = data) ∧ (data.length < cap → result ≠ .ok → part = [])
  file : w.file <+: w'.file
  flushed : w'.flushed = w.flushed

theorem wrote_of_buffered : Wrote cap w { w with buf := w.buf ++ data } data .ok :=
  ⟨⟨data, by simp [contents], List.prefix_rfl, fun _ => rfl, fun _ h => absurd rfl h⟩,
    List.prefix_rfl, rfl⟩

theorem wrote_of_offered (hLarge : cap ≤ data.length)
    (hEmpty : w.buf = [] ∨ data = []) :
    Wrote cap w { w with
      file := (offer w.file data w.answers).file
      answers := (offer w.file data w.answers).answers } data
      (offer w.file data w.answers).result := by
  obtain ⟨taken, hTaken, hData, hOk⟩ := offer_spec w.file data w.answers
  refine ⟨⟨taken, ?_, ⟨_, hData.symm⟩, fun hResult => ?_, fun hLt => by omega⟩, ?_, rfl⟩
  · simp only [contents, hTaken]
    rcases hEmpty with hBuf | hNil
    · simp [hBuf]
    · rw [hNil] at hData
      rw [(List.append_eq_nil_iff.mp hData.symm).1]
      simp
  · rw [hOk hResult, List.append_nil] at hData
    exact hData.symm
  · simp only [hTaken, List.prefix_append]

theorem writeAllCold_spec (h : w.writeAllCold cap data = (result, w')) :
    Wrote cap w w' data result ∧ w'.handed = w.handed := by
  -- once there is room, the data go to the buffer or, if they are too large, to the file
  have hRest : ∀ w₁ : BufWriter, (cap ≤ data.length → w₁.buf = [] ∨ data = []) →
      (if cap ≤ data.length then
        ((offer w₁.file data w₁.answers).result, { w₁ with
          file := (offer w₁.file data w₁.answers).file
          answers := (offer w₁.file data w₁.answers).answers })
      else (.ok, { w₁ with buf := w₁.buf ++ data })) = (result, w') →
      Wrote cap w₁ w' data result ∧ w'.handed = w₁.handed := by
    intro w₁ hEmpty h
    by_cases hLarge : cap ≤ data.length
    · rw [if_pos hLarge] at h
      cases h
      exact ⟨wrote_of_offered hLarge (hEmpty hLarge), rfl⟩
    · rw [if_neg hLarge] at h
      cases h
      exact ⟨wrote_of_buffered, rfl⟩
  unfold writeAllCold at h
  by_cases hRoom : cap - w.buf.length < data.length
  · rw [if_pos hRoom] at h
    rcases andThen_cases h with ⟨w₁, hFlush, h⟩ | ⟨hNot, hFlush⟩
    · obtain ⟨hContents, hFile, hBuf, hHanded, hFlushed⟩ := flushBuf_spec hFlush
      obtain ⟨⟨hPart, hFile', hFlushed'⟩, hHanded'⟩ := hRest w₁ (fun _ => Or.inl (hBuf rfl)) h
      rw [hContents] at hPart
      exact ⟨⟨hPart, hFile.trans hFile', hFlushed'.trans hFlushed⟩, hHanded'.trans hHanded⟩
    · obtain ⟨hContents, hFile, -, hHanded, hFlushed⟩ := flushBuf_spec hFlush
      refine ⟨⟨⟨[], ?_, List.nil_prefix, fun hOk => absurd hOk hNot, fun _ _ => rfl⟩, hFile,
        hFlushed⟩, hHanded⟩
      rw [hContents, List.append_nil]
  · rw [if_neg hRoom] at h
    refine hRest w (fun hLarge => ?_) h
    -- only an empty buffer has room for that much
    by_cases hBuf : w.buf.length = 0
    · exact Or.inl (List.length_eq_zero_iff.mp hBuf)
    · exact Or.inr (List.length_eq_zero_iff.mp (by omega))

theorem writeAll_spec (h : w.writeAll cap data = (result, w')) :
    Wrote cap w w' data result ∧ w'.handed = w.handed ++ data := by
  unfold writeAll at h
  dsimp only at h
  split at h
  · cases h
    have hBuffered : Wrote cap w { w with buf := w.buf ++ data } data .ok := wrote_of_buffered
    obtain ⟨hPart, hFile, hFlushed⟩ := hBuffered
    exact ⟨⟨hPart, hFile, hFlushed⟩, rfl⟩
  · obtain ⟨⟨hPart, hFile, hFlushed⟩, hHanded⟩ := writeAllCold_spec h
    exact ⟨⟨hPart, hFile, hFlushed⟩, hHanded⟩

/-! ## What is left of the data after a kill -/

/-- What the file and the buffer hold is the beginning of what was handed over, and what was
flushed is in the file. -/
structure Sound (w : BufWriter) : Prop where
  contents : w.contents <+: w.handed
  flushed : w.flushed ≤ w.file.length

/-- So the file is some prefix of what was handed over that reaches up to the last flush. -/
theorem Sound.file_isPrefix (h : Sound w) : w.file <+: w.handed :=
  (List.prefix_append _ _).trans h.contents

theorem writeAll_sound (h : Sound w) (hExact : w.contents = w.handed)
    (hWrite : w.writeAll cap data = (result, w')) :
    Sound w' ∧ (result = .ok → w'.contents = w'.handed) := by
  obtain ⟨⟨⟨part, hContents, hPart, hOk, -⟩, hFile, hFlushed⟩, hHanded⟩ := writeAll_spec hWrite
  refine ⟨⟨?_, ?_⟩, fun hResult => ?_⟩
  · rw [hContents, hHanded, hExact]
    exact (List.prefix_append_right_inj _).mpr hPart
  · rw [hFlushed]
    exact Nat.le_trans h.flushed hFile.length_le
  · rw [hContents, hHanded, hExact, hOk hResult]

theorem flush_sound (h : Sound w) (hExact : w.contents = w.handed)
    (hFlush : w.flush = (result, w')) :
    Sound w' ∧ w'.contents = w'.handed ∧ w'.handed = w.handed ∧ w.flushed ≤ w'.flushed ∧
      (result = .ok → w'.flushed = w'.handed.length) := by
  obtain ⟨hContents, hFile, hHanded, hOk, hNot⟩ := flush_spec hFlush
  have hExact' : w'.contents = w'.handed := by rw [hContents, hHanded, hExact]
  have hBound : w.flushed ≤ w.handed.length := by
    rw [← hExact]
    exact Nat.le_trans h.flushed (List.prefix_append _ _).length_le
  by_cases hResult : result = .ok
  · obtain ⟨hBuf, hFlushed⟩ := hOk hResult
    refine ⟨⟨hExact' ▸ List.prefix_rfl, ?_⟩, hExact', hHanded, by omega,
      fun _ => by rw [hFlushed, hHanded]⟩
    have hAll : w'.file = w'.handed := by
      rw [← hExact', BufWriter.contents, hBuf, List.append_nil]
    exact Nat.le_of_eq (by rw [hFlushed, hAll, hHanded])
  · refine ⟨⟨hExact' ▸ List.prefix_rfl, ?_⟩, hExact', hHanded, Nat.le_of_eq (hNot hResult).symm,
      fun hOk => absurd hOk hResult⟩
    rw [hNot hResult]
    exact Nat.le_trans h.flushed hFile.length_le

end BufWriter

end OlivawHub.Foundations
