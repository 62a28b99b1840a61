import Mathlib.Analysis.SpecialFunctions.Trigonometric.Bounds

/-!
# Points in polar coordinates

A point of the plane is given by a distance and a bearing. An error of the distance moves it by as
much, an error of the bearing by at most the distance times the error (`norm_polar_sub_le`).
-/

namespace OlivawHub.Foundations

open Complex

/-- The point at distance `r` in the direction `a`. -/
noncomputable def polar (r a : ℝ) : ℂ := r * exp (a * I)

theorem polar_re (r a : ℝ) : (polar r a).re = r * Real.cos a := by
  rw [polar, re_ofReal_mul, exp_ofReal_mul_I_re]

theorem polar_im (r a : ℝ) : (polar r a).im = r * Real.sin a := by
  rw [polar, im_ofReal_mul, exp_ofReal_mul_I_im]

theorem norm_exp_sub_exp_le (a b : ℝ) : ‖exp (a * I) - exp (b * I)‖ ≤ |a - b| := by
  have hFactor : exp (a * I) - exp (b * I) = exp (b * I) * (exp (I * (a - b : ℝ)) - 1) := by
    rw [mul_sub, mul_one, ← exp_add]
    congr 2
    push_cast
    ring
  rw [hFactor, norm_mul, norm_exp_ofReal_mul_I, one_mul]
  exact Real.norm_exp_I_mul_ofReal_sub_one_le

/-- What errors of both coordinates do together. -/
theorem norm_polar_sub_le {r s a b : ℝ} (hs : 0 ≤ s) :
    ‖polar r a - polar s b‖ ≤ |r - s| + s * |a - b| := by
  have hSplit : polar r a - polar s b =
      ((r - s : ℝ) : ℂ) * exp (a * I) + s * (exp (a * I) - exp (b * I)) := by
    rw [polar, polar]
    push_cast
    ring
  rw [hSplit]
  refine (norm_add_le _ _).trans (add_le_add ?_ ?_)
  · rw [norm_mul, norm_exp_ofReal_mul_I, mul_one, norm_real, Real.norm_eq_abs]
  · rw [norm_mul, norm_real, Real.norm_of_nonneg hs]
    exact mul_le_mul_of_nonneg_left (norm_exp_sub_exp_le a b) hs

end OlivawHub.Foundations
