import OlivawHub.Ingest.Events
import OlivawHub.Foundations.BufferedWriter
import OlivawHub.Foundations.Framing
import Mathlib.Data.List.Forall2
import Mathlib.Data.List.Nodup

/-!
# Recordings

`recorder.rs`: `Recorder` appends every event to a file, `readAll` parses a whole recording.
`postcard` is outside the repository, so its two functions are the structure `Postcard`; what is
assumed of them is `Postcard.RoundTrips`.

`readAll_eq` says what `readAll` makes of any bytes, in terms of `unframe`.
-/

namespace OlivawHub

open Foundations

/-- `postcard::to_stdvec` and `postcard::from_bytes` on `CarEvent`. -/
structure Postcard (T : Type) where
  toStdvec : CarEvent T → Option (List UInt8)
  fromBytes : List UInt8 → Option (CarEvent T)

/-- What was encoded is decoded to itself. -/
def Postcard.RoundTrips {T : Type} (pc : Postcard T) : Prop :=
  ∀ e bytes, pc.toStdvec e = some bytes → pc.fromBytes bytes = some e

/-- The codec on the events of a table. -/
def Postcard.ofTable {T : Type} [DecidableEq T] (table : List (CarEvent T × List UInt8)) :
    Postcard T where
  toStdvec e := (table.find? fun entry => entry.1 = e).map Prod.snd
  fromBytes bytes := (table.find? fun entry => entry.2 = bytes).map Prod.fst

theorem Postcard.roundTrips_ofTable {T : Type} [DecidableEq T]
    {table : List (CarEvent T × List UInt8)} (h : (table.map Prod.snd).Nodup) :
    (ofTable table).RoundTrips := by
  intro e bytes hBytes
  obtain ⟨entry, hFind, rfl⟩ := Option.map_eq_some_iff.mp hBytes
  have hEntry : entry.1 = e := by simpa using List.find?_some hFind
  have hMem := List.mem_of_find?_eq_some hFind
  cases hOther : table.find? fun other => other.2 = entry.2 with
  | none => simpa using List.find?_eq_none.mp hOther entry hMem
  | some other =>
      have hSame : other.2 = entry.2 := by simpa using List.find?_some hOther
      have hEq := List.inj_on_of_nodup_map h (List.mem_of_find?_eq_some hOther) hMem hSame
      refine (congrArg (Option.map Prod.fst) hOther).trans ?_
      rw [hEq, Option.map_some, hEntry]

/-- The capacity of `BufWriter::new`. -/
def bufCapacity : Nat := 8192

/-- Writes events as they arrive. -/
structure Recorder where
  out : BufWriter
  records : Nat
  deriving DecidableEq, Repr

namespace Recorder

/-- Create (truncate) the file. -/
def create (answers : List FileAnswer) : Recorder := ⟨⟨[], [], answers, [], 0⟩, 0⟩

/-- `self.out.write_all(data)`. -/
def writeAll (data : List UInt8) (r : Recorder) : IoResult × Recorder :=
  let (result, out) := r.out.writeAll bufCapacity data
  (result, { r with out })

/-- `self.records += 1`. -/
def count (r : Recorder) : IoResult × Recorder := (.ok, { r with records := r.records + 1 })

/-- Flush after every hundredth record. -/
def flushIfDue (r : Recorder) : IoResult × Recorder :=
  if r.records % 100 = 0 then
    let (result, out) := r.out.flush
    (result, { r with out })
  else (.ok, r)

/-- What `write` does with an encoded event. -/
def writeSteps (bytes : List UInt8) : List (Recorder → IoResult × Recorder) :=
  [writeAll (toLeBytes bytes.length), writeAll bytes, count, flushIfDue]

variable {T : Type}

/-- Append one event. -/
def write (pc : Postcard T) (r : Recorder) (event : CarEvent T) : IoResult × Recorder :=
  match pc.toStdvec event with
  | none => (.err, r)
  | some bytes => if bytes.length < 2 ^ 32 then inOrder (writeSteps bytes) r else (.err, r)

/-- `drop`: flush, and then the `BufWriter` flushes again what may be left. -/
def drop (r : Recorder) : IoResult × Recorder :=
  match r.out.flush with
  | (.killed, out) => (.killed, { r with out })
  | (_, out) =>
      let (result, out) := out.flushBuf
      (result, { r with out })

section Inversion

variable {r r' : Recorder} {result : IoResult}

theorem writeAll_cases {data : List UInt8} (h : r.writeAll data = (result, r')) :
    ∃ out, r.out.writeAll bufCapacity data = (result, out) ∧ r' = { r with out } := by
  cases h
  exact ⟨_, rfl, rfl⟩

theorem flushIfDue_cases (h : r.flushIfDue = (result, r')) :
    (r.records % 100 = 0 ∧ ∃ out, r.out.flush = (result, out) ∧ r' = { r with out }) ∨
      (r.records % 100 ≠ 0 ∧ r' = r) := by
  unfold flushIfDue at h
  split at h
  · rename_i hDue
    cases h
    exact Or.inl ⟨hDue, _, rfl, rfl⟩
  · rename_i hNot
    cases h
    exact Or.inr ⟨hNot, rfl⟩

end Inversion

theorem drop_ok {r r' : Recorder} (h : r.drop = (.ok, r')) : r'.out.file = r.out.contents := by
  unfold drop at h
  cases hFlush : r.out.flush with
  | mk result out =>
      obtain ⟨hContents, -⟩ := BufWriter.flush_spec hFlush
      have hLast : ∀ {out' : BufWriter}, out.flushBuf = (.ok, out') → out'.file = r.out.contents :=
        fun hFlushBuf => by
          obtain ⟨hSame, -, hEmpty, -⟩ := BufWriter.flushBuf_spec hFlushBuf
          rw [← hContents, ← hSame, BufWriter.contents, hEmpty rfl, List.append_nil]
      rw [hFlush] at h
      cases result with
      | ok | err =>
          cases hFlushBuf : out.flushBuf with
          | mk last out' =>
              simp only [hFlushBuf, Prod.mk.injEq] at h
              obtain ⟨rfl, rfl⟩ := h
              exact hLast hFlushBuf
      | killed => cases h

end Recorder

variable {T : Type}

/-- The loop of `readAll`, at `pos`. -/
def readFrom (pc : Postcard T) (bytes : List UInt8) (pos : Nat) (events : List (CarEvent T)) :
    Option (List (CarEvent T)) :=
  if h : pos + 4 ≤ bytes.length then
    let len := fromLeBytes bytes[pos] bytes[pos + 1] bytes[pos + 2] bytes[pos + 3]
    -- a recording cut mid-write ends with a partial record
    if pos + 4 + len ≤ bytes.length then
      match pc.fromBytes ((bytes.drop (pos + 4)).take len) with
      | some event => readFrom pc bytes (pos + 4 + len) (events ++ [event])
      | none => none
    else some events
  else some events
termination_by bytes.length - pos

/-- Parse a whole recording. -/
def readAll (pc : Postcard T) (bytes : List UInt8) : Option (List (CarEvent T)) :=
  readFrom pc bytes 0 []

theorem drop_eq_header {bytes : List UInt8} {pos : Nat} (h : pos + 4 ≤ bytes.length) :
    bytes.drop pos = bytes[pos] :: bytes[pos + 1] :: bytes[pos + 2] :: bytes[pos + 3] ::
      bytes.drop (pos + 4) := by
  rw [List.drop_eq_getElem_cons (by omega), List.drop_eq_getElem_cons (by omega),
    List.drop_eq_getElem_cons (by omega), List.drop_eq_getElem_cons (by omega)]

theorem readFrom_eq (pc : Postcard T) (bytes : List UInt8) (pos : Nat)
    (events : List (CarEvent T)) :
    readFrom pc bytes pos events =
      ((unframe (bytes.drop pos)).mapM pc.fromBytes).map fun rest => events ++ rest := by
  induction pos, events using readFrom.induct pc bytes with
  | case1 pos events h len hFits event hEvent ih =>
      have hLen : len ≤ (bytes.drop (pos + 4)).length := by
        rw [List.length_drop]
        omega
      simp only [len] at hFits hLen hEvent ih
      rw [readFrom, dif_pos h, if_pos hFits, hEvent, drop_eq_header h, unframe, if_pos hLen,
        List.mapM_cons, hEvent, List.drop_drop]
      dsimp only
      rw [ih]
      cases (unframe (bytes.drop _)).mapM pc.fromBytes <;> simp
  | case2 pos events h len hFits hNone =>
      have hLen : len ≤ (bytes.drop (pos + 4)).length := by
        rw [List.length_drop]
        omega
      simp only [len] at hFits hLen hNone
      rw [readFrom, dif_pos h, if_pos hFits, hNone, drop_eq_header h, unframe, if_pos hLen,
        List.mapM_cons, hNone]
      rfl
  | case3 pos events h len hShort =>
      have hLen : ¬len ≤ (bytes.drop (pos + 4)).length := by
        rw [List.length_drop]
        omega
      simp only [len] at hShort hLen
      rw [readFrom, dif_pos h, if_neg hShort, drop_eq_header h, unframe, if_neg hLen]
      simp
  | case4 pos events h =>
      rw [readFrom, dif_neg h, unframe_of_short (by rw [List.length_drop]; omega)]
      simp

/-- The payloads of the complete records, decoded; an error if one of them does not decode. -/
theorem readAll_eq (pc : Postcard T) (bytes : List UInt8) :
    readAll pc bytes = (unframe bytes).mapM pc.fromBytes := by
  rw [readAll, readFrom_eq, List.drop_zero]
  cases (unframe bytes).mapM pc.fromBytes <;> simp

/-! ## Encoded events -/

/-- The events and their encodings, which all fit the header. -/
def Encoded (pc : Postcard T) (events : List (CarEvent T)) (ps : List (List UInt8)) : Prop :=
  List.Forall₂ (fun e p => pc.toStdvec e = some p ∧ Fits p) events ps

namespace Encoded

variable {pc : Postcard T} {events : List (CarEvent T)} {ps : List (List UInt8)}

theorem fits (h : Encoded pc events ps) : ∀ p ∈ ps, Fits p := by
  induction h with
  | nil => simp
  | cons hHead _ ih => simpa using ⟨hHead.2, ih⟩

theorem concat (h : Encoded pc events ps) {e : CarEvent T} {p : List UInt8}
    (hEvent : pc.toStdvec e = some p) (hp : Fits p) :
    Encoded pc (events ++ [e]) (ps ++ [p]) :=
  List.rel_append h (List.Forall₂.cons ⟨hEvent, hp⟩ List.Forall₂.nil)

theorem take (h : Encoded pc events ps) (k : Nat) : Encoded pc (events.take k) (ps.take k) :=
  List.forall₂_take k h

theorem length_eq (h : Encoded pc events ps) : events.length = ps.length := List.Forall₂.length_eq h

theorem unique (h : Encoded pc events ps) {ps' : List (List UInt8)} (h' : Encoded pc events ps') :
    ps' = ps := by
  induction h generalizing ps' with
  | nil =>
      cases h'
      rfl
  | cons hHead _ ih =>
      cases h' with
      | cons hHead' hTail' =>
          rw [ih hTail', Option.some.inj (hHead'.1.symm.trans hHead.1)]

theorem decode (hpc : pc.RoundTrips) (h : Encoded pc events ps) :
    ps.mapM pc.fromBytes = some events := by
  induction h with
  | nil => rfl
  | cons hHead _ ih => simp [hpc _ _ hHead.1, ih]

theorem read_isPrefix (hpc : pc.RoundTrips) (h : Encoded pc events ps) {image : List UInt8}
    (hImage : image <+: frames ps) :
    ∃ es, readAll pc image = some es ∧ es <+: events ∧ es.length = (unframe image).length := by
  have hRead := List.prefix_iff_eq_take.mp (unframe_isPrefix h.fits hImage)
  have hTake := h.take (unframe image).length
  rw [← hRead] at hTake
  exact ⟨_, by rw [readAll_eq, hTake.decode hpc], List.take_prefix _ _, hTake.length_eq⟩

theorem read_frames (hpc : pc.RoundTrips) (h : Encoded pc events ps) :
    readAll pc (frames ps) = some events := by
  have hAll := unframe_frames_append h.fits []
  have hEnd : unframe [] = [] := unframe_of_short (by simp)
  rw [hEnd, List.append_nil, List.append_nil] at hAll
  rw [readAll_eq, hAll, h.decode hpc]

end Encoded

end OlivawHub
