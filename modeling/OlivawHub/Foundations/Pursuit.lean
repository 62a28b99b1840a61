import Mathlib.Analysis.Complex.Angle
import Mathlib.Analysis.SpecialFunctions.Trigonometric.Bounds
import Mathlib.Geometry.Euclidean.Angle.Unoriented.TriangleInequality
import Mathlib.Geometry.Euclidean.Triangle

/-!
# Steps towards a point

`v` is the way to a point, and a step of length `m` is made in the direction of the unit vector `u`,
so that the way is `v - m • u` afterwards. How its length and its angle with `u` change depends on
the angle before the step.
-/

namespace OlivawHub.Foundations

open InnerProductGeometry Real

variable {V : Type*} [NormedAddCommGroup V] [InnerProductSpace ℝ V] {v u d : V} {m k : ℝ}

/-- The law of cosines for a step. -/
theorem norm_step_sq (hu : ‖u‖ = 1) (hm : 0 ≤ m) :
    ‖v - m • u‖ ^ 2 = ‖v‖ ^ 2 + m ^ 2 - 2 * (‖v‖ * m * cos (angle v u)) := by
  have hInner : inner ℝ v u = ‖v‖ * cos (angle v u) := by
    have := cos_angle_mul_norm_mul_norm v u
    rw [hu, mul_one] at this
    linarith
  rw [norm_sub_sq_real, inner_smul_right, hInner, norm_smul, hu, Real.norm_of_nonneg hm]
  ring

theorem norm_step_le (hu : ‖u‖ = 1) (hm : 0 ≤ m) : ‖v - m • u‖ ≤ ‖v‖ + m := by
  refine (norm_sub_le v (m • u)).trans_eq ?_
  rw [norm_smul, hu, Real.norm_of_nonneg hm, mul_one]

/-- A step within 60 degrees of the way ends no further than the way or the step is long. -/
theorem norm_step_le_max (hu : ‖u‖ = 1) (hm : 0 ≤ m) (hAngle : 1 / 2 ≤ cos (angle v u)) :
    ‖v - m • u‖ ≤ max ‖v‖ m := by
  have hProduct : 0 ≤ ‖v‖ * m := mul_nonneg (norm_nonneg v) hm
  have hCos : ‖v‖ * m * (1 / 2) ≤ ‖v‖ * m * cos (angle v u) :=
    mul_le_mul_of_nonneg_left hAngle hProduct
  apply (pow_le_pow_iff_left₀ (norm_nonneg _) (le_max_of_le_right hm) two_ne_zero).mp
  rw [norm_step_sq hu hm]
  rcases le_total m ‖v‖ with hShort | hLong
  · have hSquare : m * m ≤ ‖v‖ * m := mul_le_mul_of_nonneg_right hShort hm
    rw [max_eq_left hShort]
    linarith
  · have hSquare : ‖v‖ * ‖v‖ ≤ ‖v‖ * m := mul_le_mul_of_nonneg_left hLong (norm_nonneg v)
    rw [max_eq_right hLong]
    linarith

/-- A step that is not longer than the way takes off a fixed part of its length. -/
theorem norm_step_le_sub (hu : ‖u‖ = 1) (hm : 0 ≤ m) (hShort : m ≤ ‖v‖) (hk : k ∈ Set.Icc 0 1)
    (hAngle : (1 + 2 * k - k ^ 2) / 2 ≤ cos (angle v u)) : ‖v - m • u‖ ≤ ‖v‖ - k * m := by
  have hPart : k * m ≤ m := mul_le_of_le_one_left hm hk.2
  have hCos : ‖v‖ * m * ((1 + 2 * k - k ^ 2) / 2) ≤ ‖v‖ * m * cos (angle v u) :=
    mul_le_mul_of_nonneg_left hAngle (mul_nonneg (norm_nonneg v) hm)
  have hGain : 0 ≤ (1 - k ^ 2) * (m * (‖v‖ - m)) :=
    mul_nonneg (sub_nonneg.mpr (pow_le_one₀ hk.1 hk.2)) (mul_nonneg hm (sub_nonneg.mpr hShort))
  apply (pow_le_pow_iff_left₀ (norm_nonneg _) (by linarith) two_ne_zero).mp
  rw [norm_step_sq hu hm]
  linarith

/-- A step turns the way by an angle that is small if the step is short. -/
theorem angle_step_le (hu : ‖u‖ = 1) (hm : 0 ≤ m) (hShort : m ≤ ‖v‖) (hv : v ≠ 0) :
    angle v (v - m • u) ≤ π / 2 * (m / ‖v‖) := by
  have hPos : 0 < ‖v‖ := norm_pos_iff.mpr hv
  have hLength : ‖v - (v - m • u)‖ = m := by
    rw [sub_sub_cancel, norm_smul, hu, Real.norm_of_nonneg hm, mul_one]
  have hSin : sin (angle v (v - m • u)) ≤ m / ‖v‖ := by
    rw [le_div_iff₀ hPos, sin_angle_mul_norm_eq_sin_angle_mul_norm, hLength]
    exact mul_le_of_le_one_left hm (sin_le_one _)
  have hAcute : angle v (v - m • u) ≤ π / 2 := by
    have hInner : inner ℝ v u ≤ ‖v‖ := by
      simpa [hu] using real_inner_le_norm v u
    have hForward : 0 ≤ inner ℝ v (v - m • u) := by
      rw [inner_sub_right, inner_smul_right, real_inner_self_eq_norm_sq]
      nlinarith
    exact arccos_le_pi_div_two.mpr (div_nonneg hForward (by positivity))
  have hChord := mul_le_sin (angle_nonneg v (v - m • u)) hAcute
  calc angle v (v - m • u) = π / 2 * (2 / π * angle v (v - m • u)) := by
        field_simp
    _ ≤ π / 2 * (m / ‖v‖) :=
        mul_le_mul_of_nonneg_left (hChord.trans hSin) (by positivity)

/-- The angle with the direction of a step, after the step. -/
theorem angle_after_step_le (hu : ‖u‖ = 1) (hm : 0 ≤ m) (hShort : m ≤ ‖v‖) (hv : v ≠ 0) :
    angle (v - m • u) u ≤ angle v u + π / 2 * (m / ‖v‖) := by
  have hTriangle := angle_le_angle_add_angle (v - m • u) v u
  have hTurn := angle_step_le hu hm hShort hv
  rw [angle_comm v] at hTurn
  linarith

/-! ## Angles modulo a turn -/

/-- `e` is `r` up to full turns, and within half a turn. -/
structure WrapsTo (r e : ℝ) : Prop where
  small : |e| ≤ π
  turns : ∃ k : ℤ, e = r - k * (2 * π)

/-- The angle between a complex number and a unit heading. -/
theorem angle_heading {w : ℂ} (hw : w ≠ 0) {heading e : ℝ} (h : WrapsTo (w.arg - heading) e) :
    angle w (Complex.exp (heading * Complex.I)) = |e| := by
  obtain ⟨hSmall, k, hTurns⟩ := h
  have hPos : ‖w‖ ≠ 0 := norm_ne_zero_iff.mpr hw
  have hUnit : ‖Complex.exp (heading * Complex.I)‖ = 1 := Complex.norm_exp_ofReal_mul_I heading
  have hInner : inner ℝ w (Complex.exp (heading * Complex.I)) =
      ‖w‖ * cos (w.arg - heading) := by
    rw [cos_sub, Complex.cos_arg hw, Complex.sin_arg, Complex.inner, Complex.exp_mul_I]
    simp [Complex.cos_ofReal_re, Complex.sin_ofReal_re]
    field_simp
  have hCos : cos (angle w (Complex.exp (heading * Complex.I))) = cos |e| := by
    rw [cos_angle, hInner, hUnit, mul_one, mul_div_cancel_left₀ _ hPos, cos_abs, hTurns,
      cos_sub_int_mul_two_pi]
  exact injOn_cos ⟨angle_nonneg _ _, angle_le_pi _ _⟩ ⟨abs_nonneg e, hSmall⟩ hCos

/-- Turning by a part of the error leaves the rest of it. -/
theorem WrapsTo.turn {a heading e turn : ℝ} (h : WrapsTo (a - heading) e)
    (hPart : |e - turn| ≤ π) : WrapsTo (a - (heading + turn)) (e - turn) := by
  obtain ⟨-, k, rfl⟩ := h
  exact ⟨hPart, k, by ring⟩

end OlivawHub.Foundations
