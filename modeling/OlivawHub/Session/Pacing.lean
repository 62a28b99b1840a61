import OlivawHub.Ingest.Events
import OlivawHub.Foundations.ExactFloats
import OlivawHub.Foundations.Machines
import Mathlib.Algebra.Order.Field.Rat
import Mathlib.Data.List.Chain

/-!
# The pauses of a replay

The task in `spawn` of `replay.rs`, one turn of its loop at a time, with the pause before each
event. The speed is any value the command line accepts, NaN and the infinities included; the
quotient of a gap and the speed is not rounded. A pause is cut to five seconds after the division,
and the division panics if the quotient is too large for a `Duration`: the whole recording is
delivered just when no gap comes to `2 ^ 64` seconds (`replay_delivers_iff`).
-/

namespace OlivawHub

open Foundations

variable {T : Type}

inductive ReplayPanic where
  /-- `event.at_ms - prev` is negative. -/
  | underflow
  /-- `div_f64` cannot represent the quotient. -/
  | duration
  deriving DecidableEq, Repr

/-- How the task ends. -/
inductive ReplayEnd where
  | finished
  /-- The receiver is gone. -/
  | closed
  | panicked (p : ReplayPanic)
  deriving DecidableEq, Repr

/-- `a - b`, checked. -/
def checkedSub (a b : UInt64) : Except ReplayPanic UInt64 :=
  if b ≤ a then .ok (a - b) else .error .underflow

/-- `Duration::from_millis(ms).div_f64(speed)`, in nanoseconds. -/
def divF64 (ms : UInt64) (speed : ExactFloat ℚ) : Except ReplayPanic Nat :=
  match ExactFloat.fromSecsF64 (.num (ms.toNat / 1000) / speed) with
  | some gap => .ok gap
  | none => .error .duration

/-- `Duration::from_secs(5)`, in nanoseconds. -/
def maxPause : Nat := 5 * 10 ^ 9

/-- The pause before an event, if there is one. -/
def pause (speed : ExactFloat ℚ) (lastMs : Option UInt64) (atMs : UInt64) :
    Except ReplayPanic (Option Nat) :=
  match lastMs with
  | some prev =>
      if speed > .num 0 ∧ atMs > prev then do
        let ms ← checkedSub atMs prev
        let gap ← divF64 ms speed
        return some (min gap maxPause)
      else return none
  | none => return none

/-- The task at the head of its loop. `sent` and `pauses` are history variables. -/
structure ReplayTask (T : Type) where
  rest : List (CarEvent T)
  lastMs : Option UInt64
  sent : List (CarEvent T)
  pauses : List Nat
  ended : Option ReplayEnd

def ReplayTask.start (events : List (CarEvent T)) : ReplayTask T := ⟨events, none, [], [], none⟩

/-- One turn of the loop; the label tells whether the receiver exists. -/
def replayTask (speed : ExactFloat ℚ) : Machine (ReplayTask T) Bool where
  step s isOpen :=
    match s.ended, s.rest with
    | some _, _ => none
    | none, [] => some { s with ended := some .finished }
    | none, event :: rest =>
        match pause speed s.lastMs event.atMs with
        | .error p => some { s with rest, ended := some (.panicked p) }
        | .ok p =>
            let s := { s with
              rest, lastMs := some event.atMs, pauses := s.pauses ++ p.toList }
            if isOpen then some { s with sent := s.sent ++ [event] }
            else some { s with ended := some .closed }

/-- The pause between two events is a duration. -/
def Affordable (speed : ExactFloat ℚ) (prev next : UInt64) : Prop :=
  ∀ q : ℚ, speed = .num q → 0 < q → prev < next →
    ((next.toNat : ℚ) - prev.toNat) / 1000 / q < 2 ^ 64

/-- While the receiver exists, the task sends the recording, with no pause above five seconds. -/
def Delivers (speed : ExactFloat ℚ) (events : List (CarEvent T)) : Prop :=
  ∃ s, (replayTask speed).exec (.start events) (List.replicate (events.length + 1) true) =
      some s ∧
    s.ended = some .finished ∧ s.sent = events ∧ ∀ d ∈ s.pauses, d ≤ maxPause

theorem checkedSub_of_lt {a b : UInt64} (h : b < a) : checkedSub a b = .ok (a - b) :=
  if_pos (UInt64.le_of_lt h)

/-- The quotient is a duration, or not; a positive infinity makes it zero. -/
theorem divF64_cases {prev next : UInt64} (h : prev < next) {speed : ExactFloat ℚ}
    (hSpeed : speed > .num 0) :
    (divF64 (next - prev) speed = .error .duration ∧ ¬Affordable speed prev next) ∨
      ∃ gap, divF64 (next - prev) speed = .ok gap ∧ Affordable speed prev next := by
  have hGap : ((next - prev).toNat : ℚ) = next.toNat - prev.toNat := by
    rw [UInt64.toNat_sub_of_le _ _ (UInt64.le_of_lt h),
      Nat.cast_sub (UInt64.le_iff_toNat_le.mp (UInt64.le_of_lt h))]
  cases speed with
  | nan => cases hSpeed
  | negInf => cases hSpeed
  | posInf => exact Or.inr ⟨_, rfl, nofun⟩
  | num q =>
      have hPos : 0 < q := ExactFloat.num_lt 0 q |>.mp hSpeed
      have hSecs : (0 : ℚ) ≤ (next.toNat - prev.toNat) / 1000 / q := by
        rw [← hGap]
        positivity
      rw [divF64, hGap, ExactFloat.num_div _ hPos.ne', ExactFloat.fromSecsF64_num]
      by_cases hFits : ((next.toNat : ℚ) - prev.toNat) / 1000 / q < 2 ^ 64
      · rw [if_pos ⟨hSecs, hFits⟩]
        refine Or.inr ⟨_, rfl, fun q' hq _ _ => ?_⟩
        cases hq
        exact hFits
      · rw [if_neg fun hBoth => hFits hBoth.2]
        exact Or.inl ⟨rfl, fun hAffordable => hFits (hAffordable q rfl hPos h)⟩

theorem pause_of_paced {speed : ExactFloat ℚ} {prev atMs : UInt64}
    (h : speed > .num 0 ∧ atMs > prev) :
    pause speed (some prev) atMs =
      (divF64 (atMs - prev) speed).map fun gap => some (min gap maxPause) := by
  rw [pause, if_pos h, checkedSub_of_lt h.2]
  rfl

/-- All that `pause` can do: the subtraction never fails, the division if the gap is too long. -/
theorem pause_cases (speed : ExactFloat ℚ) (lastMs : Option UInt64) (atMs : UInt64) :
    (pause speed lastMs atMs = .error .duration ∧
      ∃ prev, lastMs = some prev ∧ ¬Affordable speed prev atMs) ∨
    ∃ p, pause speed lastMs atMs = .ok p ∧ (∀ d ∈ p, d ≤ maxPause) ∧
      ∀ prev, lastMs = some prev → Affordable speed prev atMs := by
  cases lastMs with
  | none => exact Or.inr ⟨none, rfl, nofun, nofun⟩
  | some prev =>
      by_cases hPaced : speed > .num 0 ∧ atMs > prev
      · rw [pause_of_paced hPaced]
        rcases divF64_cases hPaced.2 hPaced.1 with ⟨hPanic, hNot⟩ | ⟨gap, hGap, hAffordable⟩
        · rw [hPanic]
          exact Or.inl ⟨rfl, prev, rfl, hNot⟩
        · rw [hGap]
          refine Or.inr ⟨some (min gap maxPause), rfl, ?_, ?_⟩
          · rintro d ⟨⟩
            exact Nat.min_le_right gap maxPause
          · rintro _ ⟨⟩
            exact hAffordable
      · rw [pause, if_neg hPaced]
        refine Or.inr ⟨none, rfl, nofun, ?_⟩
        rintro _ ⟨⟩ q rfl hPos hLater
        exact absurd ⟨(ExactFloat.num_lt 0 q).mpr hPos, hLater⟩ hPaced

variable {speed : ExactFloat ℚ} {s s' : ReplayTask T} {isOpen : Bool}

/-- All that a turn can do. -/
theorem replayTask_cases (h : (replayTask speed).step s isOpen = some s') :
    s.ended = none ∧
    ((s.rest = [] ∧ s' = { s with ended := some .finished }) ∨
      ∃ event rest, s.rest = event :: rest ∧
        ((pause speed s.lastMs event.atMs = .error .duration ∧
            s' = { s with rest, ended := some (.panicked .duration) }) ∨
          ∃ p, pause speed s.lastMs event.atMs = .ok p ∧ (∀ d ∈ p, d ≤ maxPause) ∧
            s'.pauses = s.pauses ++ p.toList ∧
            ((isOpen = true ∧ s'.rest = rest ∧ s'.sent = s.sent ++ [event] ∧ s'.ended = none) ∨
              (isOpen = false ∧ s'.sent = s.sent ∧ s'.ended = some .closed)))) := by
  obtain ⟨rest, lastMs, sent, pauses, ended⟩ := s
  cases ended with
  | some e => cases h
  | none =>
      refine ⟨rfl, ?_⟩
      cases rest with
      | nil =>
          cases h
          exact Or.inl ⟨rfl, rfl⟩
      | cons event rest =>
          refine Or.inr ⟨event, rest, rfl, ?_⟩
          rcases pause_cases speed lastMs event.atMs with ⟨hPanic, -⟩ | ⟨p, hPause, hShort, -⟩
          · simp only [replayTask, hPanic, Option.some.injEq] at h
            exact Or.inl ⟨hPanic, h.symm⟩
          · simp only [replayTask, hPause] at h
            refine Or.inr ⟨p, hPause, hShort, ?_⟩
            cases isOpen <;> cases h
            · exact ⟨rfl, Or.inr ⟨rfl, rfl, rfl⟩⟩
            · exact ⟨rfl, Or.inl ⟨rfl, rfl, rfl, rfl⟩⟩

/-- What every run of the task keeps, whether the receiver exists or not. -/
structure ReplayTask.Sound (events : List (CarEvent T)) (s : ReplayTask T) : Prop where
  sent : s.sent <+: events
  rest : s.ended = none → s.sent ++ s.rest = events
  finished : s.ended = some .finished → s.sent = events
  pauses : ∀ d ∈ s.pauses, d ≤ maxPause
  noUnderflow : s.ended ≠ some (.panicked .underflow)

theorem ReplayTask.Sound.step {events : List (CarEvent T)} (h : Sound events s)
    (hStep : (replayTask speed).step s isOpen = some s') : Sound events s' := by
  obtain ⟨hRunning, hCases⟩ := replayTask_cases hStep
  have hRest := h.rest hRunning
  rcases hCases with ⟨hNil, rfl⟩ | ⟨event, rest, hCons, hCases⟩
  · rw [hNil, List.append_nil] at hRest
    exact ⟨h.sent, nofun, fun _ => hRest, h.pauses, nofun⟩
  · rcases hCases with ⟨-, rfl⟩ | ⟨p, -, hShort, hPauses, hCases⟩
    · exact ⟨h.sent, nofun, nofun, h.pauses, nofun⟩
    · have hAll : ∀ d ∈ s'.pauses, d ≤ maxPause := by
        intro d hd
        rw [hPauses, List.mem_append, Option.mem_toList] at hd
        exact hd.elim (h.pauses d) (hShort d)
      rcases hCases with ⟨-, hLeft, hSent, hGoes⟩ | ⟨-, hSent, hEnd⟩
      · have hNext : s'.sent ++ s'.rest = events := by
          rw [hSent, hLeft, List.append_assoc, List.singleton_append, ← hCons, hRest]
        exact ⟨⟨_, hNext⟩, fun _ => hNext, by simp [hGoes], hAll, by simp [hGoes]⟩
      · exact ⟨hSent ▸ h.sent, by simp [hEnd], by simp [hEnd], hAll, by simp [hEnd]⟩

theorem ReplayTask.Sound.of_run {events : List (CarEvent T)} {turns : List Bool}
    (hRun : (replayTask speed).exec (.start events) turns = some s) : Sound events s :=
  Machine.exec_invariant (P := ReplayTask.Sound events) (fun _ _ _ h hStep => h.step hStep)
    ⟨List.nil_prefix, fun _ => rfl, by simp [ReplayTask.start], by simp [ReplayTask.start],
      by simp [ReplayTask.start]⟩ hRun

/-- With a receiver, the task gets to the end of its events just when every pause is affordable. -/
theorem finishes_iff (rest : List (CarEvent T)) (lastMs : Option UInt64) (sent : List (CarEvent T))
    (pauses : List Nat) :
    (∃ s, (replayTask speed).exec ⟨rest, lastMs, sent, pauses, none⟩
        (List.replicate (rest.length + 1) true) = some s ∧ s.ended = some .finished) ↔
      (∀ prev next, lastMs = some prev → rest.head? = some next →
        Affordable speed prev next.atMs) ∧
      rest.IsChain fun a b => Affordable speed a.atMs b.atMs := by
  induction rest generalizing lastMs sent pauses with
  | nil => exact ⟨fun _ => ⟨nofun, List.isChain_nil⟩, fun _ => ⟨_, rfl, rfl⟩⟩
  | cons event rest ih =>
      have hTurns : List.replicate ((event :: rest).length + 1) true =
          true :: List.replicate (rest.length + 1) true := rfl
      rw [hTurns]
      rcases pause_cases speed lastMs event.atMs with ⟨hPanic, prev, hPrev, hNot⟩ |
        ⟨p, hPause, -, hAffordable⟩
      · refine ⟨?_, fun h => absurd (h.1 prev event hPrev rfl) hNot⟩
        rintro ⟨s, hRun, -⟩
        simp only [Machine.exec_cons, replayTask, hPanic, List.replicate_succ,
          Option.bind_some] at hRun
        cases hRun
      · have hStep : (replayTask speed).step ⟨event :: rest, lastMs, sent, pauses, none⟩ true =
            some ⟨rest, some event.atMs, sent ++ [event], pauses ++ p.toList, none⟩ := by
          simp only [replayTask, hPause, if_true]
        rw [Machine.exec_cons, hStep, Option.bind_some, ih, List.isChain_cons]
        refine ⟨fun h => ⟨?_, fun next hNext => h.1 _ _ rfl hNext, h.2⟩, fun h => ⟨?_, h.2.2⟩⟩
        · rintro prev _ hPrev ⟨⟩
          exact hAffordable prev hPrev
        · rintro _ next ⟨⟩ hNext
          exact h.2.1 next hNext

/-- **Replay.** The task delivers the recording just when every pause is a duration. Whatever the
speed and the receiver, it sends a first part of the recording in order, never pauses for more than
five seconds, and never subtracts below zero. -/
theorem replay_delivers_iff (speed : ExactFloat ℚ) (events : List (CarEvent T)) :
    (Delivers speed events ↔ events.IsChain fun a b => Affordable speed a.atMs b.atMs) ∧
    ∀ turns s, (replayTask speed).exec (.start events) turns = some s →
      s.sent <+: events ∧ (∀ d ∈ s.pauses, d ≤ maxPause) ∧
        s.ended ≠ some (.panicked .underflow) := by
  refine ⟨⟨?_, fun hChain => ?_⟩, fun turns s hRun => ?_⟩
  · rintro ⟨s, hRun, hEnd, -⟩
    exact ((finishes_iff events none [] []).mp ⟨s, hRun, hEnd⟩).2
  · obtain ⟨s, hRun, hEnd⟩ := (finishes_iff events none [] []).mpr ⟨nofun, hChain⟩
    have hSound := ReplayTask.Sound.of_run hRun
    exact ⟨s, hRun, hEnd, hSound.finished hEnd, hSound.pauses⟩
  · have hSound := ReplayTask.Sound.of_run hRun
    exact ⟨hSound.sent, hSound.pauses, hSound.noUnderflow⟩

/-- Two events that are a second apart. -/
def secondApart : List (CarEvent Unit) :=
  [⟨"a", 0, .status "online"⟩, ⟨"a", 1000, .status "offline"⟩]

theorem pause_too_long : pause (.num (1 / 2 ^ 64)) (some 0) 1000 = .error .duration := by
  decide +kernel

/-- At a speed of `2 ^ -64` the second event is never sent. -/
theorem slow_replay_panics :
    ((replayTask (.num (1 / 2 ^ 64))).exec (.start secondApart) [true, true]).map
        (fun s => (s.sent, s.ended)) =
      some ([⟨"a", 0, .status "online"⟩], some (.panicked .duration)) ∧
    ¬Delivers (.num (1 / 2 ^ 64)) secondApart := by
  have hFirst (speed : ExactFloat ℚ) : (replayTask speed).step (.start secondApart) true =
      some ⟨[⟨"a", 1000, .status "offline"⟩], some 0, [⟨"a", 0, .status "online"⟩], [], none⟩ := rfl
  have hSecond : (replayTask (.num (1 / 2 ^ 64))).step
      ⟨[(⟨"a", 1000, .status "offline"⟩ : CarEvent Unit)], some 0,
        [⟨"a", 0, .status "online"⟩], [], none⟩ true =
      some ⟨[], some 0, [⟨"a", 0, .status "online"⟩], [], some (.panicked .duration)⟩ := by
    simp only [replayTask, pause_too_long]
  constructor
  · simp only [Machine.exec_cons, hFirst, hSecond, Option.bind_some, Machine.exec_nil,
      Option.map_some]
  · rintro ⟨s, hRun, -⟩
    have hTurns : List.replicate (secondApart.length + 1) true = [true, true, true] := rfl
    rw [hTurns] at hRun
    simp only [Machine.exec_cons, hFirst, hSecond, Option.bind_some] at hRun
    cases hRun

end OlivawHub
