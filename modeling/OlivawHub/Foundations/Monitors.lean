import Mathlib.Data.List.Basic

/-!
# A mutex with a condition variable

`Monitor τ` is a mutex and one condition variable used with it, for threads of type `τ`. A
thread in `wait` has given the mutex up; once it is notified, or wakes for no reason, it has to
get the mutex back before `wait` returns. Notifying when nobody is blocked has no effect: a
notification is not kept for later.
-/

namespace OlivawHub.Foundations

/-- A `do` block that comes to its end has passed its first line. -/
theorem exists_of_bind {α β : Type} {x : Option α} {f : α → Option β} {b : β}
    (h : x >>= f = some b) : ∃ a, x = some a ∧ f a = some b :=
  Option.bind_eq_some_iff.mp h

/-- A mutex and a condition variable. -/
structure Monitor (τ : Type) where
  holder : Option τ
  /-- Threads in `wait` that nothing has woken yet. -/
  blocked : List τ
  /-- Threads in `wait` that were woken and need the mutex to return. -/
  woken : List τ

/-- What threads do with a monitor. -/
inductive MonitorStep (τ : Type) where
  | lock (t : τ)
  | unlock (t : τ)
  | wait (t : τ)
  /-- Wake one blocked thread, the one the system picks. -/
  | notifyOne (pick : Option τ)
  /-- A spurious wake-up. -/
  | wake (t : τ)
  /-- `wait` returns. -/
  | relock (t : τ)

namespace Monitor

variable {τ : Type} [DecidableEq τ]

omit [DecidableEq τ] in
/-- Free, and nobody waits. -/
def new : Monitor τ := ⟨none, [], []⟩

omit [DecidableEq τ] in
/-- The threads in `wait`. -/
def waiting (m : Monitor τ) : List τ := m.blocked ++ m.woken

/-- A blocked thread wakes up. -/
def wakeUp (m : Monitor τ) (t : τ) : Monitor τ :=
  { m with blocked := m.blocked.erase t, woken := t :: m.woken }

/-- One step, if it is possible now. -/
def step (m : Monitor τ) : MonitorStep τ → Option (Monitor τ)
  | .lock t => if m.holder = none then some { m with holder := some t } else none
  | .unlock t => if m.holder = some t then some { m with holder := none } else none
  | .wait t =>
      if m.holder = some t then some { m with holder := none, blocked := t :: m.blocked } else none
  | .notifyOne (some t) =>
      if t ∈ m.blocked then some (m.wakeUp t) else none
  | .notifyOne none => if m.blocked = [] then some m else none
  | .wake t =>
      if t ∈ m.blocked then some (m.wakeUp t) else none
  | .relock t =>
      if m.holder = none ∧ t ∈ m.woken then
        some { m with holder := some t, woken := m.woken.erase t }
      else none

variable {m m' : Monitor τ} {t : τ}

theorem step_lock :
    m.step (.lock t) = some m' ↔ m.holder = none ∧ m' = { m with holder := some t } := by
  simp [step, eq_comm]

theorem step_unlock :
    m.step (.unlock t) = some m' ↔ m.holder = some t ∧ m' = { m with holder := none } := by
  simp [step, eq_comm]

theorem step_wait : m.step (.wait t) = some m' ↔
    m.holder = some t ∧ m' = { m with holder := none, blocked := t :: m.blocked } := by
  simp [step, eq_comm]

theorem step_wake : m.step (.wake t) = some m' ↔ t ∈ m.blocked ∧ m' = m.wakeUp t := by
  simp [step, eq_comm]

theorem step_relock : m.step (.relock t) = some m' ↔ m.holder = none ∧ t ∈ m.woken ∧
    m' = { m with holder := some t, woken := m.woken.erase t } := by
  simp [step, eq_comm, and_assoc]

theorem step_notifyOne {pick : Option τ} (h : m.step (.notifyOne pick) = some m') :
    (m.blocked = [] ∧ m' = m) ∨ ∃ t ∈ m.blocked, m' = m.wakeUp t := by
  cases pick with
  | none =>
      simp only [step, Option.ite_none_right_eq_some, Option.some.injEq] at h
      exact Or.inl ⟨h.1, h.2.symm⟩
  | some t =>
      simp only [step, Option.ite_none_right_eq_some, Option.some.injEq] at h
      exact Or.inr ⟨t, h.1, h.2.symm⟩

theorem waiting_wake (m : Monitor τ) {t : τ} (h : t ∈ m.blocked) :
    (m.wakeUp t).waiting.Perm m.waiting := by
  have hFront : (t :: (m.blocked.erase t ++ m.woken)).Perm m.waiting :=
    (List.perm_cons_erase h).symm.append_right m.woken
  exact List.perm_middle.trans hFront

theorem waiting_relock (m : Monitor τ) {t : τ} (h : t ∈ m.woken) :
    (m.blocked ++ m.woken.erase t).Perm (m.waiting.erase t) := by
  have hFront : m.waiting.Perm (t :: (m.blocked ++ m.woken.erase t)) :=
    ((List.perm_cons_erase h).append_left m.blocked).trans List.perm_middle
  have hErase := hFront.erase t
  rw [List.erase_cons_head] at hErase
  exact hErase.symm

end Monitor

end OlivawHub.Foundations
