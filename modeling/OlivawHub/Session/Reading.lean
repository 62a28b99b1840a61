import OlivawHub.Session.Recorder

/-!
# The grammar of a recording

`readRound` is one round of the loop of `read_all` with its machine arithmetic: `usize` has a
size, and a round has no result where the code would panic, because it indexes outside the bytes
or because `pos` overflows. No round of any file panics, the rounds come to an end, and the result
is what `readAll` says (`readWithin_cases`). What `readAll` accepts are complete records whose
payloads decode, with an incomplete tail.
-/

namespace OlivawHub

open Foundations

/-- A target with its size of `usize`; a `u32` fits. -/
structure Platform where
  usizeBits : Nat
  le_usizeBits : 32 ≤ usizeBits

/-- A byte slice. It is no larger than `isize::MAX`. -/
structure Slice (platform : Platform) where
  bytes : List UInt8
  length_lt : bytes.length < 2 ^ (platform.usizeBits - 1)

/-- `usize::checked_add`. -/
def Platform.checkedAdd (platform : Platform) (a b : Nat) : Option Nat :=
  if a + b < 2 ^ platform.usizeBits then some (a + b) else none

/-- `bytes[i]`. -/
def Slice.get {platform : Platform} (b : Slice platform) (i : Nat) : Option UInt8 := b.bytes[i]?

/-- `&bytes[start..stop]`. -/
def Slice.range {platform : Platform} (b : Slice platform) (start stop : Nat) :
    Option (List UInt8) :=
  if start ≤ stop ∧ stop ≤ b.bytes.length then some ((b.bytes.drop start).take (stop - start))
  else none

/-- What one round of the loop comes to. -/
inductive Round (T : Type) where
  | next (pos : Nat) (events : List (CarEvent T))
  | returned (result : Option (List (CarEvent T)))

variable {T : Type} {platform : Platform}

/-- One round of the loop at `pos`; `none` where the code would panic. -/
def readRound (pc : Postcard T) (b : Slice platform) (pos : Nat) (events : List (CarEvent T)) :
    Option (Round T) := do
  let header ← platform.checkedAdd pos 4
  if header ≤ b.bytes.length then
    let b₀ ← b.get pos
    let b₁ ← (platform.checkedAdd pos 1).bind b.get
    let b₂ ← (platform.checkedAdd pos 2).bind b.get
    let b₃ ← (platform.checkedAdd pos 3).bind b.get
    let len := fromLeBytes b₀ b₁ b₂ b₃ % 2 ^ platform.usizeBits
    let pos ← platform.checkedAdd pos 4
    match (platform.checkedAdd pos len).filter fun e => e ≤ b.bytes.length with
    | none => return .returned (some events)
    | some stop =>
        let payload ← b.range pos stop
        match pc.fromBytes payload with
        | some event => return .next stop (events ++ [event])
        | none => return .returned none
  else return .returned (some events)

/-- Where the loop is after some rounds. -/
inductive ReadLoop (T : Type) where
  | running
  | returned (result : Option (List (CarEvent T)))
  | panicked
  deriving DecidableEq

/-- At most so many rounds. -/
def readWithin (pc : Postcard T) (b : Slice platform) :
    Nat → Nat → List (CarEvent T) → ReadLoop T
  | 0, _, _ => .running
  | rounds + 1, pos, events =>
      match readRound pc b pos events with
      | some (.next pos events) => readWithin pc b rounds pos events
      | some (.returned result) => .returned result
      | none => .panicked

variable {pc : Postcard T} {b : Slice platform}

theorem Platform.checkedAdd_eq {a c : Nat} (h : a + c < 2 ^ platform.usizeBits) :
    platform.checkedAdd a c = some (a + c) := if_pos h

/-- Positions in the bytes leave room for a header. -/
theorem Slice.add_four_lt (b : Slice platform) {pos : Nat} (h : pos ≤ b.bytes.length) :
    pos + 4 < 2 ^ platform.usizeBits := by
  have hBits := platform.le_usizeBits
  have hHalf : 2 ^ platform.usizeBits = 2 * 2 ^ (platform.usizeBits - 1) := by
    rw [← Nat.pow_succ']
    congr 1
    omega
  have hRoom : 2 ^ 31 ≤ 2 ^ (platform.usizeBits - 1) :=
    Nat.pow_le_pow_right (by omega) (by omega)
  have hLength := b.length_lt
  omega

theorem Slice.get_eq {i : Nat} (h : i < b.bytes.length) : b.get i = some b.bytes[i] :=
  List.getElem?_eq_getElem h

theorem Slice.range_eq {start stop : Nat} (hOrder : start ≤ stop) (hStop : stop ≤ b.bytes.length) :
    b.range start stop = some ((b.bytes.drop start).take (stop - start)) := if_pos ⟨hOrder, hStop⟩

/-- Where the header is complete, a round goes on with the length in it. -/
theorem readRound_eq {pos : Nat} (h : pos + 4 ≤ b.bytes.length) (events : List (CarEvent T)) :
    readRound pc b pos events =
      let len := fromLeBytes b.bytes[pos] b.bytes[pos + 1] b.bytes[pos + 2] b.bytes[pos + 3]
      match (platform.checkedAdd (pos + 4) len).filter fun e => e ≤ b.bytes.length with
      | none => some (.returned (some events))
      | some stop => (b.range (pos + 4) stop).bind fun payload =>
          match pc.fromBytes payload with
          | some event => some (.next stop (events ++ [event]))
          | none => some (.returned none) := by
  have hRoom := b.add_four_lt (Nat.le_of_add_right_le h)
  have hGet : ∀ k, k < 4 → (platform.checkedAdd pos k).bind b.get = b.get (pos + k) := by
    intro k hk
    rw [Platform.checkedAdd_eq (by omega), Option.bind_some]
  have hWord : ∀ b₀ b₁ b₂ b₃, fromLeBytes b₀ b₁ b₂ b₃ % 2 ^ platform.usizeBits =
      fromLeBytes b₀ b₁ b₂ b₃ := by
    intro b₀ b₁ b₂ b₃
    refine Nat.mod_eq_of_lt (Nat.lt_of_lt_of_le (fromLeBytes_lt _ _ _ _) ?_)
    exact Nat.pow_le_pow_right (by omega) platform.le_usizeBits
  simp only [readRound, Platform.checkedAdd_eq hRoom, hGet 1 (by omega), hGet 2 (by omega),
    hGet 3 (by omega), Slice.get_eq (show pos < b.bytes.length by omega),
    Slice.get_eq (show pos + 1 < b.bytes.length by omega),
    Slice.get_eq (show pos + 2 < b.bytes.length by omega),
    Slice.get_eq (show pos + 3 < b.bytes.length by omega), hWord, h, if_true, Option.bind_eq_bind,
    Option.bind_some, Option.pure_def]

/-- One round neither panics nor leaves the bytes, and does what `readFrom` does. -/
theorem readRound_cases (pc : Postcard T) {pos : Nat} (hPos : pos ≤ b.bytes.length)
    (events : List (CarEvent T)) :
    (∃ result, readRound pc b pos events = some (.returned result) ∧
      readFrom pc b.bytes pos events = result) ∨
    (∃ pos' events', readRound pc b pos events = some (.next pos' events') ∧
      pos + 4 ≤ pos' ∧ pos' ≤ b.bytes.length ∧
      readFrom pc b.bytes pos events = readFrom pc b.bytes pos' events') := by
  have hRoom := b.add_four_lt hPos
  by_cases hHeader : pos + 4 ≤ b.bytes.length
  · have hFrom := readFrom.eq_1 pc b.bytes pos events
    rw [dif_pos hHeader] at hFrom
    rw [readRound_eq hHeader, hFrom]
    dsimp only
    generalize fromLeBytes b.bytes[pos] b.bytes[pos + 1] b.bytes[pos + 2] b.bytes[pos + 3] = len
    by_cases hFits : pos + 4 + len ≤ b.bytes.length
    · have hLt := b.add_four_lt hFits
      have hStop : (platform.checkedAdd (pos + 4) len).filter (fun e => e ≤ b.bytes.length) =
          some (pos + 4 + len) := by
        rw [Platform.checkedAdd_eq (by omega), Option.filter_some, if_pos (by simpa using hFits)]
      have hRange : b.range (pos + 4) (pos + 4 + len) =
          some ((b.bytes.drop (pos + 4)).take len) := by
        rw [Slice.range_eq (Nat.le_add_right _ _) hFits, Nat.add_sub_cancel_left]
      rw [if_pos hFits, hStop]
      dsimp only
      rw [hRange, Option.bind_some]
      cases pc.fromBytes ((b.bytes.drop (pos + 4)).take len) with
      | none => exact Or.inl ⟨none, rfl, rfl⟩
      | some event => exact Or.inr ⟨_, _, rfl, by omega, hFits, rfl⟩
    · -- the record is cut, whether or not its end can be computed
      have hStop : (platform.checkedAdd (pos + 4) len).filter (fun e => e ≤ b.bytes.length) =
          none := by
        rw [Platform.checkedAdd]
        split
        · rw [Option.filter_some, if_neg (by simpa using hFits)]
        · rfl
      rw [if_neg hFits, hStop]
      exact Or.inl ⟨_, rfl, rfl⟩
  · left
    refine ⟨some events, ?_, ?_⟩
    · simp [readRound, Platform.checkedAdd_eq hRoom, hHeader]
    · rw [readFrom, dif_neg hHeader]

/-- So many rounds run into no panic, and no more than one in four bytes is needed. -/
theorem readWithin_cases (pc : Postcard T) (rounds : Nat) {pos : Nat} (hPos : pos ≤ b.bytes.length)
    (events : List (CarEvent T)) :
    readWithin pc b rounds pos events = .returned (readFrom pc b.bytes pos events) ∨
      (readWithin pc b rounds pos events = .running ∧ pos + 4 * rounds ≤ b.bytes.length) := by
  induction rounds generalizing pos events with
  | zero => exact Or.inr ⟨rfl, hPos⟩
  | succ rounds ih =>
      rcases readRound_cases pc hPos events with ⟨result, hRound, hFrom⟩ |
        ⟨pos', events', hRound, hNext, hPos', hFrom⟩
      · exact Or.inl (by rw [readWithin, hRound, hFrom])
      · rw [readWithin, hRound, hFrom]
        rcases ih hPos' events' with hReturned | ⟨hRunning, hLong⟩
        · exact Or.inl hReturned
        · exact Or.inr ⟨hRunning, by omega⟩

/-! ## The grammar -/

/-- The payloads decode to the events, in this order. -/
def Decodes (pc : Postcard T) (ps : List (List UInt8)) (events : List (CarEvent T)) : Prop :=
  List.Forall₂ (fun p e => pc.fromBytes p = some e) ps events

namespace Decodes

variable {ps : List (List UInt8)} {events : List (CarEvent T)}

theorem mapM_eq (h : Decodes pc ps events) : ps.mapM pc.fromBytes = some events := by
  induction h with
  | nil => rfl
  | cons hHead _ ih => simp [hHead, ih]

theorem exists_of_isSome (h : ∀ p ∈ ps, (pc.fromBytes p).isSome) :
    ∃ events, Decodes pc ps events := by
  induction ps with
  | nil => exact ⟨[], List.Forall₂.nil⟩
  | cons p ps ih =>
      obtain ⟨events, hRest⟩ := ih fun q hq => h q (List.mem_cons_of_mem _ hq)
      obtain ⟨e, hHead⟩ := Option.isSome_iff_exists.mp (h p List.mem_cons_self)
      exact ⟨e :: events, List.Forall₂.cons hHead hRest⟩

end Decodes

theorem mapM_eq_none {ps : List (List UInt8)} (h : ∃ p ∈ ps, pc.fromBytes p = none) :
    ps.mapM pc.fromBytes = none := by
  induction ps with
  | nil => simp at h
  | cons p ps ih =>
      obtain ⟨q, hq, hNone⟩ := h
      rw [List.mapM_cons]
      rcases List.mem_cons.mp hq with rfl | hRest
      · rw [hNone]
        rfl
      · rw [ih ⟨q, hRest, hNone⟩]
        cases pc.fromBytes p <;> rfl

/-- `read_all` returns for every file without a panic; a file splits in one way into complete
records and an incomplete tail, and the result is the decoded events of the records if all of them
decode, and an error if one does not. Decodable records in front of a file put their events in
front of its result. -/
theorem read_all_accepts_its_grammar (pc : Postcard T) (b : Slice platform) :
    (∀ rounds, readWithin pc b rounds 0 [] ≠ .panicked) ∧
    (∀ rounds, b.bytes.length < 4 * rounds →
      readWithin pc b rounds 0 [] = .returned (readAll pc b.bytes)) ∧
    (∃! split : List (List UInt8) × List UInt8, Splits b.bytes split.1 split.2) ∧
    (∀ ps tail, Splits b.bytes ps tail →
      ((∀ p ∈ ps, (pc.fromBytes p).isSome) →
        ∃ events, Decodes pc ps events ∧ readAll pc b.bytes = some events) ∧
      ((∃ p ∈ ps, pc.fromBytes p = none) → readAll pc b.bytes = none)) ∧
    (∀ ps events, (∀ p ∈ ps, Fits p) → Decodes pc ps events →
      readAll pc (frames ps ++ b.bytes) =
        (readAll pc b.bytes).map fun rest => events ++ rest) := by
  refine ⟨?_, ?_, ?_, ?_, ?_⟩
  · intro rounds
    rcases readWithin_cases pc rounds (Nat.zero_le b.bytes.length) [] with h | ⟨h, -⟩
    · simp [h]
    · simp [h]
  · intro rounds hRounds
    rcases readWithin_cases pc rounds (Nat.zero_le b.bytes.length) [] with h | ⟨-, hLong⟩
    · exact h
    · omega
  · obtain ⟨ps, tail, hSplits⟩ := exists_splits b.bytes
    refine ⟨(ps, tail), hSplits, ?_⟩
    rintro ⟨ps', tail'⟩ hSplits'
    obtain ⟨rfl, rfl⟩ := hSplits.unique hSplits'
    rfl
  · intro ps tail hSplits
    have hRead := readAll_eq pc b.bytes
    rw [hSplits.unframe_eq] at hRead
    refine ⟨fun hAll => ?_, fun hBad => by rw [hRead, mapM_eq_none hBad]⟩
    obtain ⟨events, hEvents⟩ := Decodes.exists_of_isSome hAll
    exact ⟨events, hEvents, by rw [hRead, hEvents.mapM_eq]⟩
  · intro ps events hFits hEvents
    rw [readAll_eq, readAll_eq, unframe_frames_append hFits, List.mapM_append, hEvents.mapM_eq]
    cases (unframe b.bytes).mapM pc.fromBytes <;> rfl

end OlivawHub
