import Mathlib.Algebra.Order.Field.Basic
import Mathlib.Data.List.Chain
import Mathlib.Tactic.Linarith
import Mathlib.Tactic.Ring

/-!
# Spaced times

Times of which each comes at least `gap` after the one before it. A stretch of length `d` holds
at most `d / gap + 1` of them (`Spaced.length_le`), the one too many because both ends count; so
their rate over `d` exceeds `1 / gap` by at most `1 / d`, which is one a second as soon as the
stretch is a second long (`Spaced.rate_le`).
-/

namespace OlivawHub.Foundations

variable {K : Type*} [Field K] [LinearOrder K] [IsStrictOrderedRing K]

/-- Each time is at least `gap` after the one before it. -/
def Spaced (gap : K) (ts : List K) : Prop :=
  ts.IsChain fun a b => a + gap ≤ b

instance (gap : K) (ts : List K) : Decidable (Spaced gap ts) :=
  inferInstanceAs (Decidable (ts.IsChain fun a b => a + gap ≤ b))

namespace Spaced

variable {gap : K} {ts : List K}

omit [IsStrictOrderedRing K] in
theorem suffix {before : List K} (h : Spaced gap (before ++ ts)) : Spaced gap ts :=
  (List.isChain_append.mp h).2.1

/-- From the first of them to a bound on all there is room for the gaps between them. -/
theorem length_mul_le {t b : K} (h : Spaced gap (t :: ts)) (hLe : ∀ x ∈ t :: ts, x ≤ b) :
    ts.length * gap ≤ b - t := by
  induction ts generalizing t with
  | nil =>
      rw [List.length_nil, Nat.cast_zero, zero_mul, sub_nonneg]
      exact hLe t (by simp)
  | cons u us ih =>
      obtain ⟨hFirst, hRest⟩ := List.isChain_cons_cons.mp h
      have hTail := ih hRest fun x hx => hLe x (List.mem_cons_of_mem t hx)
      rw [List.length_cons, Nat.cast_succ, add_mul, one_mul]
      linarith

theorem length_le {a b : K} (hGap : 0 < gap) (h : Spaced gap ts) (hAB : a ≤ b)
    (hIn : ∀ t ∈ ts, a ≤ t ∧ t ≤ b) : (ts.length : K) ≤ (b - a) / gap + 1 := by
  cases ts with
  | nil =>
      have hNonneg := div_nonneg (sub_nonneg.mpr hAB) hGap.le
      rw [List.length_nil, Nat.cast_zero]
      linarith
  | cons t ts =>
      have hRoom := h.length_mul_le fun x hx => (hIn x hx).2
      have hStart := (hIn t (by simp)).1
      have hTail : (ts.length : K) ≤ (b - a) / gap := by
        rw [le_div_iff₀ hGap]
        linarith
      rw [List.length_cons, Nat.cast_succ]
      linarith

/-- Over a second or more, spaced times come at most once a second more often than `1 / gap`. -/
theorem rate_le {a b secs : K} (hGap : 0 < gap) (h : Spaced gap ts) (hAB : a ≤ b)
    (hIn : ∀ t ∈ ts, a ≤ t ∧ t ≤ b) (hAge : b - a ≤ secs) (hSecond : 1 ≤ secs) :
    ts.length / secs ≤ 1 / gap + 1 := by
  have hPos : 0 < secs := lt_of_lt_of_le one_pos hSecond
  rw [div_le_iff₀ hPos]
  calc (ts.length : K) ≤ (b - a) / gap + 1 := h.length_le hGap hAB hIn
    _ ≤ secs / gap + secs := add_le_add (div_le_div_of_nonneg_right hAge hGap.le) hSecond
    _ = (1 / gap + 1) * secs := by ring

end Spaced

end OlivawHub.Foundations
