import OlivawHub.Foundations.Pursuit
import OlivawHub.Sim.Room
import Mathlib

/-!
# How far the car gets

The simulated car with real numbers. A car that moves at most 16.01 m in a turn of the loop, which
is 16 m and a little for a rounded period, stays within 18.1 m of its waypoint (`OnCourse`): the
distance and 0.66 times the heading error do not grow together. Beyond 16.01 m a turn at full speed
brings the car closer by more than its heading error grows, and a turn at walking pace takes more
off the heading error than off the way. Within 16.01 m it may pass the waypoint, but then it ends
within 16.01 m again.
-/

namespace OlivawHub

open Foundations InnerProductGeometry Real

noncomputable instance : SimFloat ℝ where
  pi := π
  sin := Real.sin
  cos := Real.cos
  atan2 y x := Complex.arg ⟨x, y⟩
  sqrt := Real.sqrt
  round r := if 0 ≤ r then ⌊r + 0.5⌋ else ⌈r - 0.5⌉
  toF64 r := r
  asInt lo hi r := ExactFloat.asInt lo hi (.num r)
  fromSecsF64 r := ExactFloat.fromSecsF64 (.num r)

/-! ## The heading error -/

theorem tau_real : (tau : ℝ) = 2 * π := by
  show (2.0 : ℝ) * π = 2 * π
  norm_num

theorem unwindDown_real (rounds : Nat) (r : ℝ) : unwindDown (rounds + 1) r =
    if π < r then unwindDown rounds (r - 2 * π) else some r := by
  rw [← tau_real]
  rfl

theorem unwindUp_real (rounds : Nat) (r : ℝ) : unwindUp (rounds + 1) r =
    if r < -π then unwindUp rounds (r + 2 * π) else some r := by
  rw [← tau_real]
  rfl

theorem unwindDown_of_le {r : ℝ} (h : r ≤ π) (rounds : Nat) : unwindDown rounds r = some r := by
  cases rounds with
  | zero => exact if_neg (not_lt.mpr h)
  | succ rounds => rw [unwindDown_real, if_neg (not_lt.mpr h)]

theorem unwindUp_of_le {r : ℝ} (h : -π ≤ r) (rounds : Nat) : unwindUp rounds r = some r := by
  cases rounds with
  | zero => exact if_neg (not_lt.mpr h)
  | succ rounds => rw [unwindUp_real, if_neg (not_lt.mpr h)]

/-- What the first loop ends with. -/
theorem unwindDown_spec {rounds : Nat} {r a : ℝ} (h : unwindDown rounds r = some a) :
    a ≤ π ∧ ∃ k : ℤ, a = r - k * (2 * π) := by
  induction rounds generalizing r with
  | zero =>
      obtain ⟨hLe, hEq⟩ := Option.ite_none_left_eq_some.mp h
      cases hEq
      exact ⟨not_lt.mp hLe, 0, by simp⟩
  | succ rounds ih =>
      rw [unwindDown_real] at h
      split at h
      · obtain ⟨hLe, k, hTurns⟩ := ih h
        refine ⟨hLe, k + 1, ?_⟩
        rw [hTurns]
        push_cast
        ring
      · rename_i hLe
        cases h
        exact ⟨not_lt.mp hLe, 0, by simp⟩

/-- What the second loop ends with; it does not go above half a turn again. -/
theorem unwindUp_spec {rounds : Nat} {r a : ℝ} (hr : r ≤ π) (h : unwindUp rounds r = some a) :
    |a| ≤ π ∧ ∃ k : ℤ, a = r - k * (2 * π) := by
  induction rounds generalizing r with
  | zero =>
      obtain ⟨hLe, hEq⟩ := Option.ite_none_left_eq_some.mp h
      cases hEq
      exact ⟨abs_le.mpr ⟨not_lt.mp hLe, hr⟩, 0, by simp⟩
  | succ rounds ih =>
      rw [unwindUp_real] at h
      split at h
      · rename_i hLt
        obtain ⟨hLe, k, hTurns⟩ := ih (by linarith) h
        refine ⟨hLe, k - 1, ?_⟩
        rw [hTurns]
        push_cast
        ring
      · rename_i hLe
        cases h
        exact ⟨abs_le.mpr ⟨not_lt.mp hLe, hr⟩, 0, by simp⟩

theorem unwindDown_ends (r : ℝ) : ∃ rounds a, ∀ n ≥ rounds, unwindDown n r = some a := by
  obtain ⟨k, hk⟩ := exists_nat_ge ((r - π) / (2 * π))
  rw [div_le_iff₀ (by positivity)] at hk
  induction k generalizing r with
  | zero =>
      have hLe : r ≤ π := by simpa using hk
      exact ⟨0, r, fun n _ => unwindDown_of_le hLe n⟩
  | succ k ih =>
      push_cast at hk
      obtain ⟨rounds, a, hEnd⟩ := ih (r - 2 * π) (by linarith)
      by_cases hLe : r ≤ π
      · exact ⟨0, r, fun n _ => unwindDown_of_le hLe n⟩
      · refine ⟨rounds + 1, a, fun n hn => ?_⟩
        obtain ⟨n, rfl⟩ := Nat.exists_eq_add_of_le' (Nat.one_le_of_lt hn)
        rw [unwindDown_real, if_pos (not_le.mp hLe)]
        exact hEnd n (by omega)

theorem unwindUp_ends (r : ℝ) : ∃ rounds a, ∀ n ≥ rounds, unwindUp n r = some a := by
  obtain ⟨k, hk⟩ := exists_nat_ge ((-π - r) / (2 * π))
  rw [div_le_iff₀ (by positivity)] at hk
  induction k generalizing r with
  | zero =>
      have hLe : -π ≤ r := by
        simp only [Nat.cast_zero, zero_mul] at hk
        linarith
      exact ⟨0, r, fun n _ => unwindUp_of_le hLe n⟩
  | succ k ih =>
      push_cast at hk
      obtain ⟨rounds, a, hEnd⟩ := ih (r + 2 * π) (by linarith)
      by_cases hLe : -π ≤ r
      · exact ⟨0, r, fun n _ => unwindUp_of_le hLe n⟩
      · refine ⟨rounds + 1, a, fun n hn => ?_⟩
        obtain ⟨n, rfl⟩ := Nat.exists_eq_add_of_le' (Nat.one_le_of_lt hn)
        rw [unwindUp_real, if_pos (not_le.mp hLe)]
        exact hEnd n (by omega)

namespace CarPose

/-- The way to the waypoint. -/
def way (p : CarPose ℝ) : ℂ := ⟨(path p.target).1 - p.x, (path p.target).2 - p.y⟩

/-- The direction of the car. -/
noncomputable def heading (p : CarPose ℝ) : ℂ := Complex.exp (p.theta * Complex.I)

end CarPose

variable {p : CarPose ℝ} {err : ℝ} {rounds : Nat}

/-- The loops end with the heading error up to full turns, and within half a turn. -/
theorem headingError_wraps (h : headingError rounds p = some err) :
    WrapsTo (p.way.arg - p.theta) err := by
  obtain ⟨a, hDown, hUp⟩ := Option.bind_eq_some_iff.mp h
  obtain ⟨hLe, k, hTurns⟩ := unwindDown_spec hDown
  obtain ⟨hAbs, k', hTurns'⟩ := unwindUp_spec hLe hUp
  refine ⟨hAbs, k + k', ?_⟩
  rw [hTurns', hTurns]
  push_cast
  show (p.way.arg - p.theta) - k * (2 * π) - k' * (2 * π) = _
  ring

/-- They end. -/
theorem headingError_ends (p : CarPose ℝ) :
    ∃ rounds err, ∀ n ≥ rounds, headingError n p = some err := by
  obtain ⟨down, a, hDown⟩ := unwindDown_ends (p.way.arg - p.theta)
  obtain ⟨up, err, hUp⟩ := unwindUp_ends a
  refine ⟨max down up, err, fun n hn => ?_⟩
  show (unwindDown n (p.way.arg - p.theta)).bind (unwindUp n) = some err
  rw [hDown n (le_of_max_le_left hn), Option.bind_some, hUp n (le_of_max_le_right hn)]

/-! ## A turn of the loop -/

section Turn

variable {speed dt time : ℝ}

/-- The car after the move, before it takes up the next waypoint. -/
noncomputable def CarPose.move (speed dt err : ℝ) (p : CarPose ℝ) : CarPose ℝ :=
  let theta := p.theta + turnRate err * dt
  ⟨p.x + speedAt speed err * cos theta * dt, p.y + speedAt speed err * sin theta * dt, theta,
    p.target⟩

theorem drive_real (speed dt err : ℝ) (p : CarPose ℝ) : drive speed dt err p =
    if ‖(p.move speed dt err).way‖ < 0.15 then
      { p.move speed dt err with target := p.target + 1 }
    else p.move speed dt err := by
  -- the norm of a complex number is the square root that the source takes
  split
  · rename_i hNear
    exact congrArg (CarPose.mk _ _ _) (if_pos hNear)
  · rename_i hFar
    exact congrArg (CarPose.mk _ _ _) (if_neg hFar)

/-- A turn takes the car no further east than its speed allows. -/
theorem drive_x_le {speed dt : ℝ} (h : 0.05 ≤ speed) (hDt : 0 ≤ dt) (err : ℝ) (p : CarPose ℝ) :
    (drive speed dt err p).x ≤ p.x + speed * dt := by
  have hSpeed : 0 ≤ speedAt speed err ∧ speedAt speed err ≤ speed := by
    unfold speedAt
    split
    · exact ⟨by norm_num, h⟩
    · exact ⟨by linarith, le_rfl⟩
  have hMove : (p.move speed dt err).x ≤ p.x + speed * dt := by
    have hCos : speedAt speed err * cos (p.theta + turnRate err * dt) ≤ speed :=
      (mul_le_of_le_one_right hSpeed.1 (cos_le_one _)).trans hSpeed.2
    show p.x + speedAt speed err * cos (p.theta + turnRate err * dt) * dt ≤ p.x + speed * dt
    linarith [mul_le_mul_of_nonneg_right hCos hDt]
  rw [drive_real]
  split
  · exact hMove
  · exact hMove

theorem norm_heading (p : CarPose ℝ) : ‖p.heading‖ = 1 := Complex.norm_exp_ofReal_mul_I p.theta

theorem move_way (speed dt err : ℝ) (p : CarPose ℝ) : (p.move speed dt err).way =
    p.way - (speedAt speed err * dt) • (p.move speed dt err).heading := by
  apply Complex.ext
  · simp only [CarPose.way, CarPose.heading, CarPose.move, Complex.sub_re, Complex.real_smul,
      Complex.re_ofReal_mul, Complex.exp_ofReal_mul_I_re]
    ring
  · simp only [CarPose.way, CarPose.heading, CarPose.move, Complex.sub_im, Complex.real_smul,
      Complex.im_ofReal_mul, Complex.exp_ofReal_mul_I_im]
    ring

theorem speedAt_of_lt (h : 0.6 < |err|) : speedAt speed err = 0.05 := if_pos h

theorem speedAt_of_le (h : |err| ≤ 0.6) : speedAt speed err = speed := if_neg (not_lt.mpr h)

/-- A turn of the car takes a part of the heading error away, and no more than all of it. -/
theorem abs_sub_turn (err : ℝ) (h : dt ∈ Set.Icc 0 1) :
    |err - turnRate err * dt| = |err| - min |err| 1.2 * dt := by
  obtain ⟨hNonneg, hLe⟩ := h
  simp only [turnRate, clamp]
  split
  · rename_i hLow
    have hPart : 1.2 * dt ≤ 1.2 := mul_le_of_le_one_right (by norm_num) hLe
    rw [abs_of_nonpos (by linarith), abs_of_nonpos (by linarith), min_eq_right (by linarith)]
    ring
  · split
    · rename_i hHigh
      have hPart : 1.2 * dt ≤ 1.2 := mul_le_of_le_one_right (by norm_num) hLe
      rw [abs_of_nonneg (by linarith), abs_of_nonneg (by linarith), min_eq_right (by linarith)]
    · rename_i hLow hHigh
      have hAbs : |err| ≤ 1.2 := abs_le.mpr ⟨by linarith, by linarith⟩
      rw [min_eq_left hAbs, ← mul_one_sub, abs_mul, abs_of_nonneg (sub_nonneg.mpr hLe)]
      ring

theorem turned_nonneg (err : ℝ) (hDt : dt ∈ Set.Icc 0 1) : 0 ≤ min |err| 1.2 * dt :=
  mul_nonneg (le_min (abs_nonneg err) (by norm_num)) hDt.1

/-- The angle between the old way and the new direction. -/
theorem angle_move (speed : ℝ) (hWay : p.way ≠ 0) (hErr : WrapsTo (p.way.arg - p.theta) err)
    (hDt : dt ∈ Set.Icc 0 1) :
    angle p.way (p.move speed dt err).heading = |err| - min |err| 1.2 * dt := by
  have hTurn := abs_sub_turn err hDt
  have hPart := turned_nonneg err hDt
  rw [← hTurn]
  exact angle_heading hWay (hErr.turn (by linarith [hErr.small]))

/-- At full speed the car drives towards the waypoint. -/
theorem cos_angle_move (speed : ℝ) (hWay : p.way ≠ 0) (hErr : WrapsTo (p.way.arg - p.theta) err)
    (hDt : dt ∈ Set.Icc 0 1) (hFast : |err| ≤ 0.6) :
    0.82 ≤ cos (angle p.way (p.move speed dt err).heading) := by
  have hTurned := angle_move speed hWay hErr hDt
  have hPart := turned_nonneg err hDt
  have hCos := one_sub_sq_div_two_le_cos (x := angle p.way (p.move speed dt err).heading)
  have hSquare : angle p.way (p.move speed dt err).heading ^ 2 ≤ 0.6 ^ 2 :=
    pow_le_pow_left₀ (angle_nonneg _ _) (by linarith) 2
  linarith

/-! ## The distance stays bounded -/

/-- The distance and the heading error in one. -/
noncomputable def CarPose.potential (p : CarPose ℝ) : ℝ := ‖p.way‖ + 0.66 * angle p.way p.heading

/-- Not at the waypoint yet, and not too far from it. -/
structure OnCourse (p : CarPose ℝ) : Prop where
  away : 0.15 ≤ ‖p.way‖
  near : p.potential ≤ 18.1

theorem way_ne_zero (h : 0.15 ≤ ‖p.way‖) : p.way ≠ 0 :=
  norm_pos_iff.mp (lt_of_lt_of_le (by norm_num) h)

theorem angle_after_move (speed : ℝ) (hWay : p.way ≠ 0) (hErr : WrapsTo (p.way.arg - p.theta) err)
    (hDt : dt ∈ Set.Icc 0 1) (hForward : 0 ≤ speedAt speed err * dt)
    (hShort : speedAt speed err * dt ≤ ‖p.way‖) :
    angle (p.move speed dt err).way (p.move speed dt err).heading ≤
      |err| - min |err| 1.2 * dt + π / 2 * (speedAt speed err * dt / ‖p.way‖) := by
  rw [move_way, ← angle_move speed hWay hErr hDt]
  exact angle_after_step_le (norm_heading _) hForward hShort hWay

/-- At walking pace the turn is worth more than the way. -/
theorem potential_slow (hAway : 0.15 ≤ ‖p.way‖) (hErr : WrapsTo (p.way.arg - p.theta) err)
    (hDt : dt ∈ Set.Icc 0 1) (hSlow : 0.6 < |err|) :
    (p.move speed dt err).potential ≤ p.potential := by
  have hWay := way_ne_zero hAway
  obtain ⟨hNonneg, hLe⟩ := hDt
  have hForward : 0 ≤ speedAt speed err * dt := by
    rw [speedAt_of_lt hSlow]
    positivity
  have hShort : speedAt speed err * dt ≤ ‖p.way‖ := by
    rw [speedAt_of_lt hSlow]
    linarith
  have hAngle := angle_after_move speed hWay hErr ⟨hNonneg, hLe⟩ hForward hShort
  have hLength : ‖(p.move speed dt err).way‖ ≤ ‖p.way‖ + speedAt speed err * dt := by
    rw [move_way]
    exact norm_step_le (norm_heading _) hForward
  rw [speedAt_of_lt hSlow] at hAngle hLength
  have hTurn : 0.6 * dt ≤ min |err| 1.2 * dt :=
    mul_le_mul_of_nonneg_right (le_min hSlow.le (by norm_num)) hNonneg
  have hSwing : 0.05 * dt / ‖p.way‖ ≤ dt / 3 := by
    rw [div_le_iff₀ (lt_of_lt_of_le (by norm_num) hAway)]
    linarith [mul_le_mul_of_nonneg_left hAway hNonneg]
  have hPi : π / 2 * (0.05 * dt / ‖p.way‖) ≤ 0.5236 * dt := by
    have hHalf : π / 2 ≤ 1.5708 := by linarith [pi_lt_d4]
    calc π / 2 * (0.05 * dt / ‖p.way‖) ≤ 1.5708 * (dt / 3) :=
          mul_le_mul hHalf hSwing (by positivity) (by norm_num)
      _ = 0.5236 * dt := by ring
  have hBefore : angle p.way p.heading = |err| := angle_heading hWay hErr
  simp only [CarPose.potential, hBefore]
  linarith

/-- At full speed from far away the way is worth more than the turn. -/
theorem potential_far (hFar : 16.01 ≤ ‖p.way‖) (hErr : WrapsTo (p.way.arg - p.theta) err)
    (hDt : dt ∈ Set.Icc 0 1) (hFast : |err| ≤ 0.6) (hForward : 0 ≤ speed * dt)
    (hReach : speed * dt ≤ 16.01) : (p.move speed dt err).potential ≤ p.potential := by
  have hWay : p.way ≠ 0 := norm_pos_iff.mp (lt_of_lt_of_le (by norm_num) hFar)
  have hSpeed : speedAt speed err = speed := speedAt_of_le hFast
  have hAngle := angle_after_move speed hWay hErr hDt (by rwa [hSpeed])
    (by rw [hSpeed]; exact hReach.trans hFar)
  have hPart := turned_nonneg err hDt
  have hLength : ‖(p.move speed dt err).way‖ ≤ ‖p.way‖ - 0.4 * (speed * dt) := by
    rw [move_way, hSpeed]
    refine norm_step_le_sub (norm_heading _) hForward (hReach.trans hFar) (by norm_num) ?_
    exact le_trans (by norm_num) (cos_angle_move speed hWay hErr hDt hFast)
  rw [hSpeed] at hAngle
  have hSwing : speed * dt / ‖p.way‖ ≤ speed * dt / 16 :=
    div_le_div_of_nonneg_left hForward (by norm_num) (by linarith)
  have hPi : π / 2 * (speed * dt / ‖p.way‖) ≤ 2 * (speed * dt / 16) := by
    have hHalf : π / 2 ≤ 2 := by linarith [pi_lt_d4]
    exact mul_le_mul hHalf hSwing (div_nonneg hForward (norm_nonneg _)) (by norm_num)
  have hBefore : angle p.way p.heading = |err| := angle_heading hWay hErr
  simp only [CarPose.potential, hBefore]
  linarith

/-- At full speed from nearby the car may pass the waypoint, but not by more than its step. -/
theorem norm_way_close (hAway : 0.15 ≤ ‖p.way‖) (hNear : ‖p.way‖ < 16.01)
    (hErr : WrapsTo (p.way.arg - p.theta) err) (hDt : dt ∈ Set.Icc 0 1) (hFast : |err| ≤ 0.6)
    (hForward : 0 ≤ speed * dt) (hReach : speed * dt ≤ 16.01) :
    ‖(p.move speed dt err).way‖ ≤ 16.01 := by
  have hCos := cos_angle_move speed (way_ne_zero hAway) hErr hDt hFast
  rw [move_way, speedAt_of_le hFast]
  refine (norm_step_le_max (norm_heading _) hForward ?_).trans (max_le hNear.le hReach)
  exact le_trans (by norm_num) hCos

/-- Whatever the heading. -/
theorem potential_le (p : CarPose ℝ) : p.potential ≤ ‖p.way‖ + 2.08 := by
  have hAngle := angle_le_pi p.way p.heading
  simp only [CarPose.potential]
  linarith [pi_lt_d4]

theorem potential_move (hCourse : OnCourse p) (hErr : WrapsTo (p.way.arg - p.theta) err)
    (hDt : dt ∈ Set.Icc 0 1) (hForward : 0 ≤ speed * dt) (hReach : speed * dt ≤ 16.01) :
    (p.move speed dt err).potential ≤ 18.1 := by
  rcases lt_or_ge 0.6 |err| with hSlow | hFast
  · exact (potential_slow hCourse.away hErr hDt hSlow).trans hCourse.near
  · rcases lt_or_ge ‖p.way‖ 16.01 with hNear | hFar
    · have hClose := norm_way_close hCourse.away hNear hErr hDt hFast hForward hReach
      linarith [potential_le (p.move speed dt err)]
    · exact (potential_far hFar hErr hDt hFast hForward hReach).trans hCourse.near

/-- Two waypoints that follow each other are 1.5 to 4.5 m apart. -/
theorem norm_path_sub (t : Fin 6) :
    ‖(⟨(path (t + 1)).1 - (path t).1, (path (t + 1)).2 - (path t).2⟩ : ℂ)‖ ∈ Set.Icc 1.5 4.5 := by
  rw [Set.mem_Icc, ← pow_le_pow_iff_left₀ (by norm_num) (norm_nonneg _) two_ne_zero,
    ← pow_le_pow_iff_left₀ (norm_nonneg _) (by norm_num) two_ne_zero, Complex.sq_norm,
    Complex.normSq_mk]
  match t with
  | 0 | 1 | 2 | 3 | 4 | 5 =>
      simp only [Fin.reduceAdd]
      constructor <;> norm_num [path]

theorem retarget_onCourse (h : ‖p.way‖ < 0.15) : OnCourse { p with target := p.target + 1 } := by
  let leg : ℂ :=
    ⟨(path (p.target + 1)).1 - (path p.target).1, (path (p.target + 1)).2 - (path p.target).2⟩
  have hLeg : ‖leg‖ ∈ Set.Icc 1.5 4.5 := norm_path_sub p.target
  have hWay : CarPose.way { p with target := p.target + 1 } = leg + p.way := by
    apply Complex.ext
    · simp [leg, CarPose.way]
    · simp [leg, CarPose.way]
  have hBelow := norm_sub_le_norm_add leg p.way
  have hAbove := norm_add_le leg p.way
  rw [← hWay] at hBelow hAbove
  obtain ⟨hLow, hHigh⟩ := hLeg
  refine ⟨by linarith, ?_⟩
  linarith [potential_le { p with target := p.target + 1 }]

/-- **A turn of the loop.** -/
theorem drive_onCourse (hCourse : OnCourse p) (hErr : headingError rounds p = some err)
    (hDt : dt ∈ Set.Icc 0 1) (hForward : 0 ≤ speed * dt) (hReach : speed * dt ≤ 16.01) :
    OnCourse (drive speed dt err p) := by
  rw [drive_real]
  split
  · rename_i hArrived
    exact retarget_onCourse hArrived
  · rename_i hAway
    exact ⟨not_lt.mp hAway,
      potential_move hCourse (headingError_wraps hErr) hDt hForward hReach⟩

theorem OnCourse.x_lt (h : OnCourse p) : p.x < 74 / 3 := by
  have hPath : (path p.target).1 ≤ (5.8 : ℝ) := by
    generalize p.target = t
    fin_cases t <;> norm_num [path]
  have hRe : |p.way.re| ≤ ‖p.way‖ := Complex.abs_re_le_norm p.way
  have hAngle := angle_nonneg p.way p.heading
  have hNear := h.near
  simp only [CarPose.potential] at hNear
  have hBack : -‖p.way‖ ≤ (path p.target).1 - p.x := (abs_le.mp hRe).1
  linarith

/-! ## Driving backwards -/

/-- The car backs from where it starts, along the line to its first waypoint. -/
structure Backs (p : CarPose ℝ) : Prop where
  x : p.x ≤ 1
  y : p.y = 0.8
  theta : p.theta = 0
  target : p.target = 1

theorem Backs.way (h : Backs p) : p.way = ((5.5 - p.x : ℝ) : ℂ) := by
  apply Complex.ext
  · simp [CarPose.way, h.target, path]
  · simp [CarPose.way, h.target, h.y, path]

theorem headingError_of_arg_eq (h : p.way.arg = p.theta) (rounds : Nat) :
    headingError rounds p = some 0 := by
  show (unwindDown rounds (p.way.arg - p.theta)).bind (unwindUp rounds) = some 0
  rw [h, sub_self, unwindDown_of_le pi_nonneg, Option.bind_some,
    unwindUp_of_le (neg_nonpos.mpr pi_nonneg)]

theorem Backs.headingError (h : Backs p) (rounds : Nat) : headingError rounds p = some 0 := by
  apply headingError_of_arg_eq
  have hAhead : 0 ≤ 5.5 - p.x := by linarith [h.x]
  rw [h.way, h.theta, Complex.arg_ofReal_of_nonneg hAhead]

theorem turnRate_zero : turnRate (0 : ℝ) = 0 := by
  norm_num [turnRate, clamp]

/-- Without a heading error, a car that faces east stays on its line. -/
theorem move_straight (hTheta : p.theta = 0) (speed dt : ℝ) :
    p.move speed dt 0 = ⟨p.x + speed * dt, p.y, 0, p.target⟩ := by
  have hSpeed : speedAt speed 0 = speed := speedAt_of_le (by norm_num)
  simp only [CarPose.move, hSpeed, turnRate_zero, hTheta, zero_mul, add_zero, cos_zero, sin_zero,
    mul_one, mul_zero]

theorem Backs.move (h : Backs p) (hBack : speed * dt ≤ 0) : Backs (p.move speed dt 0) := by
  rw [move_straight h.theta]
  exact ⟨by linarith [h.x], h.y, rfl, h.target⟩

theorem drive_backs (h : Backs p) (hErr : OlivawHub.headingError rounds p = some err)
    (hBack : speed * dt ≤ 0) : Backs (drive speed dt err p) := by
  rw [h.headingError, Option.some.injEq] at hErr
  subst hErr
  have hMove := h.move hBack
  have hFar : ¬‖(p.move speed dt 0).way‖ < 0.15 := by
    rw [hMove.way, Complex.norm_real, norm_of_nonneg (by linarith [hMove.x])]
    linarith [hMove.x]
  rw [drive_real, if_neg hFar]
  exact hMove

/-! ## Driving past the waypoint -/

/-- The car is far east of its first waypoint, and has been turning for `time` seconds. -/
structure Overshot (time : ℝ) (p : CarPose ℝ) : Prop where
  x : 24.9 - 0.05 * time ≤ p.x
  y : |p.y - 0.8| ≤ 0.05 * time
  theta : |p.theta| ≤ 1.2 * time
  target : p.target = 1

theorem Overshot.way (h : Overshot time p) : p.way = ⟨5.5 - p.x, 0.8 - p.y⟩ := by
  simp [CarPose.way, h.target, path]

theorem Overshot.norm_way (h : Overshot time p) (hTime : time ≤ 2.01) : 19 ≤ ‖p.way‖ := by
  have hRe : p.way.re = 5.5 - p.x := congrArg Complex.re h.way
  have hNorm : -‖p.way‖ ≤ p.way.re := (abs_le.mp (Complex.abs_re_le_norm p.way)).1
  linarith [h.x]

/-- For a second the waypoint stays behind the car. -/
theorem Overshot.behind (h : Overshot time p) (hTime : time ≤ 1.01) :
    π / 2 < angle p.way p.heading := by
  have hRe : p.way.re = 5.5 - p.x := congrArg Complex.re h.way
  have hIm : |p.way.im| ≤ 0.06 := by
    rw [h.way, abs_sub_comm]
    linarith [h.y]
  have hCos : 0.26 ≤ cos p.theta := by
    have hSquare : p.theta ^ 2 ≤ 1.212 ^ 2 := sq_le_sq' (by linarith [abs_le.mp h.theta])
      (by linarith [abs_le.mp h.theta])
    linarith [one_sub_sq_div_two_le_cos (x := p.theta)]
  have hSin : p.way.im * sin p.theta ≤ 0.06 := by
    calc p.way.im * sin p.theta ≤ |p.way.im| * |sin p.theta| := by
          rw [← abs_mul]
          exact le_abs_self _
      _ ≤ 0.06 * 1 := mul_le_mul hIm (abs_sin_le_one _) (abs_nonneg _) (by norm_num)
      _ = 0.06 := mul_one _
  have hWest : p.way.re * cos p.theta ≤ -19 * 0.26 :=
    mul_le_mul_of_nonpos_of_nonneg (by linarith [h.x]) hCos (by norm_num) (by linarith)
  have hInner : inner ℝ p.way p.heading < 0 := by
    have hEq : inner ℝ p.way p.heading = p.way.re * cos p.theta + p.way.im * sin p.theta := by
      rw [CarPose.heading, Complex.inner, Complex.exp_mul_I]
      simp [Complex.cos_ofReal_re, Complex.sin_ofReal_re]
      ring
    rw [hEq]
    linarith
  refine lt_of_not_ge fun hFront => ?_
  have hSign := arccos_le_pi_div_two.mp hFront
  have hPos : 0 < ‖p.way‖ * ‖p.heading‖ := by
    rw [norm_heading, mul_one]
    linarith [h.norm_way (by linarith)]
  rw [le_div_iff₀ hPos, zero_mul] at hSign
  linarith

/-- So the car only turns, at walking pace. -/
theorem Overshot.move (speed : ℝ) (h : Overshot time p) (hTime : time ≤ 1.01) (hDt : 0 ≤ dt)
    (hErr : WrapsTo (p.way.arg - p.theta) err) :
    Overshot (time + dt) (p.move speed dt err) := by
  have hFar : 19 ≤ ‖p.way‖ := h.norm_way (by linarith)
  have hAngle : angle p.way p.heading = |err| :=
    angle_heading (norm_pos_iff.mp (by linarith)) hErr
  have hSlow : speedAt speed err = 0.05 :=
    speedAt_of_lt (by linarith [h.behind hTime, pi_gt_three])
  have hTurn : |turnRate err| ≤ 1.2 := by
    simp only [turnRate, clamp]
    split_ifs <;> rw [abs_le] <;> constructor <;> linarith
  have hStep : ∀ c : ℝ, |c| ≤ 1 → |0.05 * c * dt| ≤ 0.05 * dt := by
    intro c hc
    rw [abs_mul, abs_mul, abs_of_nonneg hDt, abs_of_pos (by norm_num : (0 : ℝ) < 0.05)]
    exact mul_le_mul_of_nonneg_right (mul_le_of_le_one_right (by norm_num) hc) hDt
  have hx := hStep (cos (p.theta + turnRate err * dt)) (abs_cos_le_one _)
  have hy := hStep (sin (p.theta + turnRate err * dt)) (abs_sin_le_one _)
  refine ⟨?_, ?_, ?_, h.target⟩
  · simp only [CarPose.move, hSlow]
    linarith [h.x, (abs_le.mp hx).1]
  · simp only [CarPose.move, hSlow, add_sub_right_comm]
    linarith [abs_add_le (p.y - 0.8) (0.05 * sin (p.theta + turnRate err * dt) * dt), h.y]
  · have hPart : |turnRate err * dt| ≤ 1.2 * dt := by
      rw [abs_mul, abs_of_nonneg hDt]
      exact mul_le_mul_of_nonneg_right hTurn hDt
    simp only [CarPose.move]
    linarith [abs_add_le p.theta (turnRate err * dt), h.theta]

theorem drive_overshot (h : Overshot time p) (hTime : time ≤ 1.01) (hDt : dt ∈ Set.Icc 0 1)
    (hErr : OlivawHub.headingError rounds p = some err) :
    Overshot (time + dt) (drive speed dt err p) := by
  have hMove := h.move speed hTime hDt.1 (headingError_wraps hErr)
  have hFar : 19 ≤ ‖(p.move speed dt err).way‖ := hMove.norm_way (by linarith [hDt.2])
  rw [drive_real, if_neg (by linarith)]
  exact hMove

end Turn

/-! ## All turns -/

/-- Where a car of this speed can be. -/
structure InReach (speed : ℝ) (p : CarPose ℝ) : Prop where
  forward : 0 < speed → OnCourse p
  backward : speed ≤ 0 → Backs p

/-- Every turn keeps the car in reach, if it moves at most 16.01 m. -/
theorem drive_inReach {speed dt : ℝ} (h : InReach speed p)
    (hErr : headingError rounds p = some err) (hDt : dt ∈ Set.Icc 0 1)
    (hReach : speed * dt ≤ 16.01) : InReach speed (drive speed dt err p) where
  forward hPos := drive_onCourse (h.forward hPos) hErr hDt (mul_nonneg hPos.le hDt.1) hReach
  backward hNeg :=
    drive_backs (h.backward hNeg) hErr (mul_nonpos_of_nonpos_of_nonneg hNeg hDt.1)

theorem InReach.x_lt {speed : ℝ} (h : InReach speed p) : p.x < 74 / 3 := by
  rcases lt_or_ge 0 speed with hPos | hNeg
  · exact (h.forward hPos).x_lt
  · linarith [(h.backward hNeg).x]

theorem backs_new {T : Type} : Backs (Sim.new : Sim ℝ T).pose where
  x := by norm_num [Sim.new, path]
  y := rfl
  theta := by norm_num [Sim.new]
  target := rfl

theorem inReach_new {T : Type} (speed : ℝ) : InReach speed (Sim.new : Sim ℝ T).pose where
  forward _ := by
    have hWay : ‖(Sim.new : Sim ℝ T).pose.way‖ = 4.5 := by
      rw [backs_new.way, Complex.norm_real]
      norm_num [Sim.new, path]
    refine ⟨by rw [hWay]; norm_num, ?_⟩
    linarith [potential_le (Sim.new : Sim ℝ T).pose]
  backward _ := backs_new

/-- The first turn takes a car that moves almost 24 m in a turn past its waypoint. -/
theorem drive_new_overshot {T : Type} {speed dt : ℝ} (hDt : dt ∈ Set.Icc 0 1)
    (hFar : 23.99 ≤ speed * dt) (hErr : headingError rounds (Sim.new : Sim ℝ T).pose = some err) :
    Overshot dt (drive speed dt err (Sim.new : Sim ℝ T).pose) := by
  have hBacks : Backs (Sim.new : Sim ℝ T).pose := backs_new
  have hx : (Sim.new : Sim ℝ T).pose.x = 1 := by norm_num [Sim.new, path]
  rw [hBacks.headingError, Option.some.injEq] at hErr
  subst hErr
  have hMove : Overshot dt ((Sim.new : Sim ℝ T).pose.move speed dt 0) := by
    rw [move_straight hBacks.theta, hx, hBacks.y]
    refine ⟨by linarith [hDt.1], ?_, ?_, hBacks.target⟩
    · rw [sub_self, abs_zero]
      linarith [hDt.1]
    · rw [abs_zero]
      linarith [hDt.1]
  have hNorm : 19 ≤ ‖((Sim.new : Sim ℝ T).pose.move speed dt 0).way‖ :=
    hMove.norm_way (by linarith [hDt.2])
  rw [drive_real, if_neg (by linarith)]
  exact hMove

end OlivawHub
