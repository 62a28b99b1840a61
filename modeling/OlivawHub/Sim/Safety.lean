import OlivawHub.Sim.Steering
import OlivawHub.Foundations.ExactFloats

/-!
# When the simulator fails

The simulated car with exact positions, for every configuration that can be read, NaN and the
infinities included, and for every run; the period is the `f64` that the source computes. While the
numbers are finite the car is the one with real numbers (`headingError_num`, `drive_num`). A step
goes wrong in three ways: the rate is above 2 GHz and the period rounds to zero, the speed is not a
number, or telemetry is sent from so far east that the subtraction in `rssi_dbm` overflows. A run
whose steps keep clear of them is sound (`sim_sound_while_safe`), and all runs are if the car moves
at most 16 m in a turn.
-/

namespace OlivawHub

open Foundations Foundations.ExactFloat
open scoped Real

noncomputable instance : SimFloat (ExactFloat ℝ) where
  pi := num π
  sin
    | num r => num (Real.sin r)
    | _ => nan
  cos
    | num r => num (Real.cos r)
    | _ => nan
  atan2
    | num y, num x => num (Complex.arg ⟨x, y⟩)
    | nan, _ => nan
    | _, nan => nan
    | num _, posInf => num 0
    | num y, negInf => num (if y < 0 then -π else π)
    | posInf, num _ => num (0.5 * π)
    | negInf, num _ => num (-(0.5 * π))
    | posInf, posInf => num (0.25 * π)
    | posInf, negInf => num (0.75 * π)
    | negInf, posInf => num (-(0.25 * π))
    | negInf, negInf => num (-(0.75 * π))
  sqrt
    | num r => if r < 0 then nan else num √r
    | posInf => posInf
    | _ => nan
  round := ExactFloat.round
  toF64 := ExactFloat.toF64
  asInt := ExactFloat.asInt
  fromSecsF64 := ExactFloat.fromSecsF64

/-! ## Finite numbers -/

/-- A pose with finite numbers. -/
def CarPose.ofReal (p : CarPose ℝ) : CarPose (ExactFloat ℝ) :=
  ⟨num p.x, num p.y, num p.theta, p.target⟩

theorem path_num (t : Fin 6) :
    (path t : ExactFloat ℝ × ExactFloat ℝ) = (num (path t).1, num (path t).2) := by
  fin_cases t <;> rfl

theorem unwindDown_num (rounds : Nat) (r : ℝ) :
    unwindDown rounds (num r) = (unwindDown rounds r).map num := by
  induction rounds generalizing r with
  | zero =>
      show (if num r > num π then none else some (num r)) = Option.map num (if r > π then _ else _)
      simp only [gt_iff_lt, num_lt]
      split <;> rfl
  | succ rounds ih =>
      show (if num r > num π then unwindDown rounds (num (r + -tau)) else some (num r)) =
        Option.map num (if r > π then _ else _)
      simp only [gt_iff_lt, num_lt, ih, sub_eq_add_neg]
      split <;> rfl

theorem unwindUp_num (rounds : Nat) (r : ℝ) :
    unwindUp rounds (num r) = (unwindUp rounds r).map num := by
  induction rounds generalizing r with
  | zero =>
      show (if num r < num (-π) then none else some (num r)) =
        Option.map num (if r < -π then _ else _)
      simp only [num_lt]
      split <;> rfl
  | succ rounds ih =>
      show (if num r < num (-π) then unwindUp rounds (num (r + tau)) else some (num r)) =
        Option.map num (if r < -π then _ else _)
      simp only [num_lt, ih]
      split <;> rfl

theorem headingError_num (rounds : Nat) (p : CarPose ℝ) :
    headingError rounds p.ofReal = (headingError rounds p).map num := by
  have hWant : SimFloat.atan2 ((path p.ofReal.target).2 - p.ofReal.y)
      ((path p.ofReal.target).1 - p.ofReal.x) - p.ofReal.theta = num (p.way.arg - p.theta) := by
    rw [path_num, CarPose.ofReal, num_sub, num_sub]
    exact num_sub _ _
  simp only [headingError, hWant, unwindDown_num]
  show _ = Option.map num ((unwindDown rounds (p.way.arg - p.theta)).bind _)
  cases unwindDown rounds (p.way.arg - p.theta) with
  | none => rfl
  | some a => exact unwindUp_num rounds a

theorem speedAt_num (speed err : ℝ) : speedAt (num speed) (num err) = num (speedAt speed err) := by
  show (if max (num err) (num (-err)) > num 0.6 then num 0.05 else num speed) =
    num (if max err (-err) > 0.6 then 0.05 else speed)
  simp only [gt_iff_lt, num_max, num_lt, apply_ite num]

theorem turnRate_num (err : ℝ) : turnRate (num err) = num (turnRate err) := num_clamp err (-1.2) 1.2

theorem cos_num (r : ℝ) : SimFloat.cos (num r) = num (SimFloat.cos r) := rfl

theorem sin_num (r : ℝ) : SimFloat.sin (num r) = num (SimFloat.sin r) := rfl

theorem sqrt_num {r : ℝ} (h : 0 ≤ r) : SimFloat.sqrt (num r) = num (SimFloat.sqrt r) :=
  if_neg (not_lt.mpr h)

theorem drive_num (speed dt err : ℝ) (p : CarPose ℝ) :
    drive (num speed) (num dt) (num err) p.ofReal = (drive speed dt err p).ofReal := by
  have hArrived : ∀ dx dy : ℝ, SimFloat.sqrt (num (dx * dx + dy * dy)) < 0.15 ↔
      SimFloat.sqrt (dx * dx + dy * dy) < 0.15 := by
    intro dx dy
    rw [sqrt_num (add_nonneg (mul_self_nonneg dx) (mul_self_nonneg dy))]
    exact num_lt _ _
  simp only [drive, CarPose.ofReal, path_num, speedAt_num, turnRate_num, cos_num, sin_num, num_mul,
    num_add, num_sub, hArrived]

/-! ## The period -/

/-- Up to 2 GHz the period is more than half a nanosecond. -/
theorem half_lt_round64 {r : ℝ} (hOne : 1 ≤ r) (h : r ≤ 2e9) :
    1 / 2 < round64 (1 / r) * 10 ^ 9 := by
  have hPeriod : 1 / 2e9 ≤ 1 / r := one_div_le_one_div_of_le (by linarith) h
  rcases lt_or_ge (1 / r) (2 ^ (-30 : ℤ)) with hShort | hLong
  · have hBit : lastBit (1 / r) = -83 := by
      apply lastBit_eq (e := -31)
      · exact le_trans (by norm_num) hPeriod
      · exact hShort
      · norm_num
    -- 2 ^ 83 / 2e9 lies between this number of units and half a unit less
    have hUnits : ((4835703278458517 : ℤ) : ℝ) * 2 ^ lastBit (1 / r) ≤ round64 (1 / r) := by
      apply le_round64
      rw [hBit, lt_div_iff₀ (two_zpow_pos _)]
      exact lt_of_lt_of_le (by norm_num) hPeriod
    rw [hBit] at hUnits
    norm_num at hUnits ⊢
    linarith
  · have hRound := zpow_le_round64 hLong (by norm_num)
    norm_num at hRound ⊢
    linarith

/-- At the next rate that is a float it is less. -/
theorem round64_le_half {r : ℝ} (h : 2e9 + 2 ^ (-22 : ℤ) ≤ r) :
    round64 (1 / r) * 10 ^ 9 ≤ 1 / 2 := by
  have hPos : (0 : ℝ) < 2e9 + 2 ^ (-22 : ℤ) := by positivity
  have hPeriod : 1 / r ≤ 1 / (2e9 + 2 ^ (-22 : ℤ)) := one_div_le_one_div_of_le hPos h
  rcases lt_or_ge (1 / r) (2 ^ (-31 : ℤ)) with hShort | hLong
  · have hRound := round64_le_zpow (one_div_pos.mpr (hPos.trans_le h)) hShort.le (by norm_num)
    norm_num at hRound ⊢
    linarith
  · have hBit : lastBit (1 / r) = -83 := by
      apply lastBit_eq (e := -31)
      · exact hLong
      · exact lt_of_le_of_lt hPeriod (by norm_num)
      · norm_num
    have hUnits : round64 (1 / r) ≤ ((4835703278458516 : ℤ) : ℝ) * 2 ^ lastBit (1 / r) := by
      apply round64_le
      rw [hBit, div_lt_iff₀ (two_zpow_pos _)]
      exact lt_of_le_of_lt hPeriod (by norm_num)
    rw [hBit] at hUnits
    norm_num at hUnits ⊢
    linarith

/-- A float above 2e9 is at least the next one. -/
theorem next_le_of_round64_eq {r : ℝ} (hFloat : round64 r = r) (h : 2e9 < r) :
    2e9 + 2 ^ (-22 : ℤ) ≤ r := by
  rcases lt_or_ge r (2 ^ (31 : ℤ)) with hSmall | hLarge
  · have hBit : lastBit r = -22 := by
      apply lastBit_eq (e := 30)
      · exact le_trans (by norm_num) h.le
      · exact hSmall
      · norm_num
    obtain ⟨n, hn⟩ := exists_int_of_round64_eq hFloat
    rw [hBit] at hn
    have hAbove : (2000000000 * 2 ^ 22 : ℤ) < n := by
      rw [← Int.cast_lt (R := ℝ)]
      rw [hn] at h
      norm_num at h ⊢
      linarith
    have hNext : ((2000000000 * 2 ^ 22 + 1 : ℤ) : ℝ) ≤ n := Int.cast_le.mpr hAbove
    rw [hn]
    norm_num at hNext ⊢
    linarith
  · refine le_trans ?_ hLarge
    norm_num

/-- The period is at most a second, and the rounding moves it by very little. -/
theorem round64_one_div {r : ℝ} (hOne : 1 ≤ r) :
    round64 (1 / r) ∈ Set.Icc (0 : ℝ) 1 ∧
      (r ≤ 2e9 → round64 (1 / r) * r ∈ Set.Icc (0.9999 : ℝ) 1.0001) := by
  have hPos : 0 < r := by linarith
  have hTop : (1 : ℝ) / r ≤ 2 ^ (0 : ℤ) := by
    rw [zpow_zero, div_le_one hPos]
    exact hOne
  refine ⟨⟨round64_nonneg (one_div_pos.mpr hPos).le, ?_⟩, fun hRate => ?_⟩
  · have hRound := round64_le_zpow (one_div_pos.mpr hPos) hTop (by norm_num)
    rwa [zpow_zero] at hRound
  · have hNormal : (2 : ℝ) ^ (-1022 : ℤ) ≤ 1 / r := by
      calc (2 : ℝ) ^ (-1022 : ℤ) ≤ 2 ^ (-31 : ℤ) :=
            zpow_le_zpow_right₀ one_le_two (by norm_num)
        _ ≤ 1 / 2e9 := by norm_num
        _ ≤ 1 / r := one_div_le_one_div_of_le hPos hRate
    have hError := abs_le.mp (abs_round64_sub_le hNormal)
    have hScaled : 1 / r * r = 1 := one_div_mul_cancel hPos.ne'
    have hLow := mul_le_mul_of_nonneg_right hError.1 hPos.le
    have hHigh := mul_le_mul_of_nonneg_right hError.2 hPos.le
    rw [sub_mul, hScaled] at hLow hHigh
    have hPart : 1 / r / 2 ^ 53 * r = 1 / 2 ^ 53 := by
      rw [div_mul_eq_mul_div, hScaled]
    rw [hPart] at hHigh
    rw [neg_mul, hPart] at hLow
    constructor
    · norm_num at hLow ⊢
      linarith
    · norm_num at hHigh ⊢
      linarith

variable {T : Type} {crate : SimCrate T} {cfg : SimConfig (ExactFloat ℝ)}
  {s s' : Sim (ExactFloat ℝ) T}

/-- What `scan_hz.max(1.0)` can be. -/
theorem max_scanHz_cases (hz : ExactFloat ℝ) :
    (hz = posInf ∧ max hz 1.0 = posInf) ∨
      ∃ r : ℝ, 1 ≤ r ∧ max hz 1.0 = num r ∧ (2e9 < hz → hz = num r) ∧ (¬2e9 < hz → r ≤ 2e9) := by
  have hOne : (1.0 : ℝ) ≤ 2e9 := by norm_num
  cases hz with
  | nan =>
      refine Or.inr ⟨1.0, by norm_num, rfl, ?_, fun _ => hOne⟩
      intro h
      cases h
  | negInf =>
      refine Or.inr ⟨1.0, by norm_num, rfl, ?_, fun _ => hOne⟩
      intro h
      cases h
  | num a =>
      refine Or.inr ⟨max a 1.0, le_max_of_le_right (by norm_num), num_max a 1.0, fun h => ?_,
        fun h => max_le ?_ hOne⟩
      · rw [max_eq_left (hOne.trans ((num_lt _ _).mp h).le)]
      · exact not_lt.mp fun hHigh => h ((num_lt _ _).mpr hHigh)
  | posInf => exact Or.inl ⟨rfl, rfl⟩

theorem SimConfig.dt_eq {r : ℝ} (hOne : 1 ≤ r) (hRate : max cfg.scanHz 1.0 = num r) :
    cfg.dt = num (round64 (1 / r)) := by
  have hDt : cfg.dt = toF64 (num 1.0 / max cfg.scanHz 1.0) := rfl
  have hQuotient : (num 1.0 / num r : ExactFloat ℝ) = num (1 / r) := by
    rw [num_div _ (by linarith)]
    norm_num
  obtain ⟨⟨hLow, hHigh⟩, -⟩ := round64_one_div hOne
  rw [hDt, hRate, hQuotient, toF64_num]
  rw [abs_of_nonneg hLow]
  exact hHigh.trans_lt (one_lt_pow₀ one_lt_two (by norm_num))

/-- The period is between 0 and 1 s. Up to 2 GHz it is more than half a nanosecond and all but the
inverse of the rate; above it, it is at most half a nanosecond. -/
theorem dt_cases (cfg : SimConfig (ExactFloat ℝ)) :
    ∃ dt ∈ Set.Icc (0 : ℝ) 1, cfg.dt = num dt ∧
      (¬2e9 < cfg.scanHz → 1 / 2 < dt * 10 ^ 9 ∧ ∃ r, 1 ≤ r ∧ max cfg.scanHz 1.0 = num r ∧
        dt * r ∈ Set.Icc (0.9999 : ℝ) 1.0001) ∧
      (2e9 < cfg.scanHz → toF64 cfg.scanHz = cfg.scanHz → dt * 10 ^ 9 ≤ 1 / 2) := by
  rcases max_scanHz_cases cfg.scanHz with ⟨hHz, hRate⟩ | ⟨r, hOne, hRate, hHigh, hLow⟩
  · refine ⟨0, by norm_num, ?_, fun h => absurd ?_ h, fun _ _ => by norm_num⟩
    · have hZero : cfg.dt = toF64 (num 1.0 / max cfg.scanHz 1.0) := rfl
      have hRound : round64 (0 : ℝ) = 0 := by
        rw [round64, zero_div, show roundHalfEven (0 : ℝ) = 0 by simp [roundHalfEven],
          Int.cast_zero, zero_mul]
      rw [hZero, hRate, show (num 1.0 / posInf : ExactFloat ℝ) = num 0 from rfl, toF64_num, hRound]
      rw [hRound, abs_zero]
      positivity
    · rw [hHz]
      rfl
  · obtain ⟨hPeriod, hError⟩ := round64_one_div hOne
    refine ⟨_, hPeriod, SimConfig.dt_eq hOne hRate, fun h => ?_, fun h hFloat => ?_⟩
    · exact ⟨half_lt_round64 hOne (hLow h), r, hOne, hRate, hError (hLow h)⟩
    · have hNum := hHigh h
      rw [hNum] at h hFloat
      exact round64_le_half (next_le_of_round64_eq (round64_of_toF64_eq hFloat) ((num_lt _ _).mp h))

/-! ## The modulus -/

/-- The count of scans in a second is not rounded to zero, nor up. -/
theorem scansPerSecond_cases (cfg : SimConfig (ExactFloat ℝ)) :
    1 ≤ cfg.scansPerSecond.toNat ∧
      ∀ r, max cfg.scanHz 1.0 = num r → (cfg.scansPerSecond.toNat : ℝ) ≤ r := by
  have hNat : cfg.scansPerSecond.toNat =
      (SimFloat.asInt 0 (2 ^ 32 - 1) (max cfg.scanHz 1.0)).toNat % 2 ^ 32 :=
    UInt32.toNat_ofNat'
  rcases max_scanHz_cases cfg.scanHz with ⟨-, hRate⟩ | ⟨r, hOne, hRate, -, -⟩
  · rw [hNat, hRate]
    exact ⟨by decide, fun r h => by cases h⟩
  · have hCast : SimFloat.asInt 0 (2 ^ 32 - 1) (num r) = max 0 (min (2 ^ 32 - 1) (trunc r)) := rfl
    have hFloor : 1 ≤ trunc r := (le_trunc_iff one_pos).mpr (by exact_mod_cast hOne)
    rw [hNat, hRate, hCast]
    refine ⟨by omega, fun r' h => ?_⟩
    cases h
    have hPart : (trunc r : ℝ) ≤ r := (le_trunc_iff (by omega)).mp le_rfl
    have hLe : (((max 0 (min (2 ^ 32 - 1) (trunc r))).toNat % 2 ^ 32 : Nat) : Int) ≤ trunc r := by
      omega
    have hReal := Int.cast_le (R := ℝ).mpr hLe
    rw [Int.cast_natCast] at hReal
    exact hReal.trans hPart

theorem scansPerSecond_ne_zero (cfg : SimConfig (ExactFloat ℝ)) : cfg.scansPerSecond ≠ 0 := by
  intro hZero
  have hOne := (scansPerSecond_cases cfg).1
  rw [hZero] at hOne
  cases hOne

theorem start_pose (cfg : SimConfig (ExactFloat ℝ)) (s : Sim (ExactFloat ℝ) T) (atMs : UInt64)
    (isOpen : Bool) : (s.start cfg atMs isOpen).pose = s.pose := by
  unfold Sim.start
  split <;> rfl

theorem start_seq (cfg : SimConfig (ExactFloat ℝ)) (s : Sim (ExactFloat ℝ) T) (atMs : UInt64)
    (isOpen : Bool) : (s.start cfg atMs isOpen).seq = s.seq := by
  unfold Sim.start
  split <;> rfl

/-- The period can be represented, and is zero when it is at most half a nanosecond. -/
theorem start_phase (cfg : SimConfig (ExactFloat ℝ)) (s : Sim (ExactFloat ℝ) T) (atMs : UInt64)
    (isOpen : Bool) {dt : ℝ} (hDt : cfg.dt = num dt) (hPeriod : dt ∈ Set.Icc (0 : ℝ) 1) :
    (s.start cfg atMs isOpen).phase =
      if dt * 10 ^ 9 ≤ 1 / 2 then .panicked .zeroPeriod else .driving := by
  obtain ⟨hNonneg, hOne⟩ := hPeriod
  have hPeriod : SimFloat.fromSecsF64 cfg.dt = some (roundHalfEven (dt * 10 ^ 9)).toNat := by
    rw [hDt]
    exact (fromSecsF64_num dt).trans (if_pos ⟨hNonneg, hOne.trans_lt (by norm_num)⟩)
  have hZero := roundHalfEven_le_zero_iff (k := dt * 10 ^ 9) (by positivity)
  unfold Sim.start
  rw [hPeriod]
  split
  · rename_i hNone
    cases hNone
  · rename_i hNone
    have hRound : (roundHalfEven (dt * 10 ^ 9)).toNat = 0 := Option.some.inj hNone
    rw [if_pos (hZero.mp (by omega))]
  · rename_i n hPos hSome
    have hRound : ¬roundHalfEven (dt * 10 ^ 9) ≤ 0 := fun hLe =>
      hPos ((Option.some.inj hSome).symm.trans (Int.toNat_of_nonpos hLe))
    rw [if_neg (hZero.not.mp hRound)]

/-- Up to 2 GHz the loop starts. -/
theorem start_driving (h : ¬2e9 < cfg.scanHz) (s : Sim (ExactFloat ℝ) T) (atMs : UInt64)
    (isOpen : Bool) : (s.start cfg atMs isOpen).phase = .driving := by
  obtain ⟨dt, hPeriod, hDt, hLow, -⟩ := dt_cases cfg
  rw [start_phase cfg s atMs isOpen hDt hPeriod, if_neg (not_le.mpr (hLow h).1)]

/-- At every float above, it does not. -/
theorem start_zeroPeriod (h : 2e9 < cfg.scanHz) (hFloat : toF64 cfg.scanHz = cfg.scanHz)
    (s : Sim (ExactFloat ℝ) T) (atMs : UInt64) (isOpen : Bool) :
    (s.start cfg atMs isOpen).phase = .panicked .zeroPeriod := by
  obtain ⟨dt, hPeriod, hDt, -, hHigh⟩ := dt_cases cfg
  rw [start_phase cfg s atMs isOpen hDt hPeriod, if_pos (hHigh h hFloat)]

/-! ## Telemetry -/

theorem checkedSubI8_eq_none_iff {i : Int} (h : -128 ≤ i ∧ i ≤ 127) :
    checkedSubI8 (-55) (.ofInt i) = none ↔ 74 ≤ i := by
  have hInt : (Int8.ofInt i).toInt = i := Int8.toInt_ofInt_of_le h.1 (by omega)
  simp only [checkedSubI8, hInt, ite_eq_right_iff]
  simp
  omega

theorem limit_num : (74.0 / 3.0 : ExactFloat ℝ) = num (74 / 3) := by
  refine (num_div (74.0 : ℝ) (by norm_num : (3.0 : ℝ) ≠ 0)).trans (congrArg num ?_)
  norm_num

/-- The subtraction overflows from 74/3 m to the east on. -/
theorem rssiDbm_eq_none_iff (x : ExactFloat ℝ) : rssiDbm x = none ↔ 74.0 / 3.0 ≤ x := by
  rw [limit_num]
  cases x with
  | nan => exact iff_of_false (by decide) fun h => by cases h
  | negInf =>
      have hCast : SimFloat.asInt (-128) 127 (negInf * 3.0 : ExactFloat ℝ) = -128 := by
        show asInt (-128) 127 (infOf (-1 * SignType.sign (3.0 : ℝ))) = -128
        rw [sign_pos (by norm_num)]
        rfl
      rw [rssiDbm, hCast]
      exact iff_of_false (by decide) fun h => by cases h
  | num a =>
      have hCast : SimFloat.asInt (-128) 127 (num a * 3.0 : ExactFloat ℝ) =
          max (-128) (min 127 (trunc (a * 3.0))) := rfl
      have hTrunc := le_trunc_iff (n := 74) (by norm_num) (k := a * 3.0)
      rw [rssiDbm, hCast, checkedSubI8_eq_none_iff (by omega), num_le, div_le_iff₀ (by norm_num)]
      norm_num at hTrunc ⊢
      exact hTrunc
  | posInf =>
      have hCast : SimFloat.asInt (-128) 127 (posInf * 3.0 : ExactFloat ℝ) = 127 := by
        show asInt (-128) 127 (infOf (1 * SignType.sign (3.0 : ℝ))) = 127
        rw [sign_pos (by norm_num)]
        rfl
      rw [rssiDbm, hCast]
      exact iff_of_true (by decide) rfl

/-- The turn sends telemetry. -/
def Sim.TelemetryDue (cfg : SimConfig (ExactFloat ℝ)) (s : Sim (ExactFloat ℝ) T) (t : SimTurn) :
    Prop := t.scanOpen = true ∧ (s.seq + 1) % cfg.scansPerSecond = 0

/-- How a turn ends. -/
theorem report_cases (crate : SimCrate T) (cfg : SimConfig (ExactFloat ℝ))
    (s : Sim (ExactFloat ℝ) T) (err : ExactFloat ℝ) (t : SimTurn) :
    (s.report crate cfg err t).pose = s.pose ∧
    ((s.report crate cfg err t).phase = .panicked .overflow ∧ s.TelemetryDue cfg t ∧
        74.0 / 3.0 ≤ s.pose.x ∨
      ((s.report crate cfg err t).phase = s.phase ∨
          (s.report crate cfg err t).phase = .returned) ∧
        ¬(s.TelemetryDue cfg t ∧ 74.0 / 3.0 ≤ s.pose.x)) := by
  unfold Sim.report
  by_cases hOpen : t.scanOpen = true
  · by_cases hDue : (s.seq + 1) % cfg.scansPerSecond = 0
    · simp only [if_pos hOpen, if_pos hDue]
      split
      · rename_i hOverflow
        have hFar := (rssiDbm_eq_none_iff s.pose.x).mp (Option.map_eq_none_iff.mp hOverflow)
        exact ⟨rfl, Or.inl ⟨rfl, ⟨hOpen, hDue⟩, hFar⟩⟩
      · rename_i hSome
        have hNear : ¬74.0 / 3.0 ≤ s.pose.x := by
          intro hFar
          have hNone := (rssiDbm_eq_none_iff s.pose.x).mpr hFar
          rw [telemetryReadings, hNone] at hSome
          cases hSome
        split
        · exact ⟨rfl, Or.inr ⟨Or.inl rfl, fun h => hNear h.2⟩⟩
        · exact ⟨rfl, Or.inr ⟨Or.inr rfl, fun h => hNear h.2⟩⟩
    · refine ⟨?_, Or.inr ⟨Or.inl ?_, fun h => hDue h.1.2⟩⟩
      · simp only [if_pos hOpen, if_neg hDue]
      · simp only [if_pos hOpen, if_neg hDue]
  · refine ⟨?_, Or.inr ⟨Or.inr ?_, fun h => hOpen h.1.1⟩⟩
    · simp only [if_neg hOpen]
    · simp only [if_neg hOpen]

/-! ## Runs -/

/-- The loops of the next turn end, with an error of at most half a turn. -/
structure Steers (p : CarPose (ExactFloat ℝ)) : Prop where
  ends : ∃ rounds, ∀ n ≥ rounds, (headingError n p).isSome
  bounded : ∀ n e, headingError n p = some e → ∃ err : ℝ, e = num err ∧ |err| ≤ π

theorem steers_ofReal (p : CarPose ℝ) : Steers p.ofReal where
  ends := by
    obtain ⟨rounds, err, hEnd⟩ := headingError_ends p
    refine ⟨rounds, fun n hn => ?_⟩
    rw [headingError_num, hEnd n hn]
    rfl
  bounded n e hErr := by
    rw [headingError_num] at hErr
    obtain ⟨err, hReal, rfl⟩ := Option.map_eq_some_iff.mp hErr
    exact ⟨err, rfl, (headingError_wraps hReal).small⟩

/-- No panic so far, and the next turn will find a heading error. -/
structure Sim.Sound (s : Sim (ExactFloat ℝ) T) : Prop where
  phase : ∀ p, s.phase ≠ .panicked p
  steers : Steers s.pose

/-- What a step needs: a rate of at most 2 GHz when the loop starts, and in each turn a speed that
is a number. If the speed is more than 16 m in a period of the rate and the turn sends telemetry,
the car has to be, before the turn, more than the way of a period west of 74/3 m. -/
def StaysSafe (cfg : SimConfig (ExactFloat ℝ)) (s : Sim (ExactFloat ℝ) T) : SimLabel → Prop
  | .start _ _ => ¬2e9 < cfg.scanHz
  | .tick t => (∃ speed, cfg.speedMps = num speed) ∧
      (cfg.speedMps ≤ 16.0 * max cfg.scanHz 1.0 ∨
        (s.TelemetryDue cfg t → s.pose.x + cfg.speedMps * cfg.dt < 74.0 / 3.0))

/-- Once `y` is NaN, so is the heading error. -/
theorem headingError_of_nan {p : CarPose (ExactFloat ℝ)} (h : p.y = nan) (rounds : Nat) :
    headingError rounds p = some nan := by
  have hWant : SimFloat.atan2 ((path p.target).2 - p.y) ((path p.target).1 - p.x) - p.theta =
      nan := by
    rw [h, path_num]
    rfl
  have hDown : unwindDown rounds (nan : ExactFloat ℝ) = some nan := by
    cases rounds <;> rfl
  have hUp : unwindUp rounds (nan : ExactFloat ℝ) = some nan := by
    cases rounds <;> rfl
  simp only [headingError, hWant, hDown, Option.bind_some, hUp]

theorem not_steers_of_nan {p : CarPose (ExactFloat ℝ)} (h : p.y = nan) : ¬Steers p := by
  intro hSteers
  obtain ⟨err, hNan, -⟩ := hSteers.bounded 0 nan (headingError_of_nan h 0)
  cases hNan

theorem headingError_new (rounds : Nat) :
    headingError rounds (Sim.new : Sim (ExactFloat ℝ) T).pose = some (num 0) := by
  have hReal : headingError rounds (Sim.new : Sim ℝ T).pose = some 0 :=
    backs_new.headingError rounds
  show headingError rounds (Sim.new : Sim ℝ T).pose.ofReal = some (num 0)
  rw [headingError_num, hReal]
  rfl

/-- A speed that is not a number makes `y` NaN in the first turn. -/
theorem drive_new_of_not_num {speed : ExactFloat ℝ} (hSpeed : ∀ v, speed ≠ num v)
    {dt : ℝ} {err : ExactFloat ℝ} {rounds : Nat}
    (hErr : headingError rounds (Sim.new : Sim (ExactFloat ℝ) T).pose = some err) :
    (drive speed (num dt) err (Sim.new : Sim (ExactFloat ℝ) T).pose).y = nan := by
  have hPose : (Sim.new : Sim (ExactFloat ℝ) T).pose = (Sim.new : Sim ℝ T).pose.ofReal := rfl
  rw [headingError_new, Option.some.injEq] at hErr
  subst hErr
  have hTheta : (Sim.new : Sim (ExactFloat ℝ) T).pose.theta + turnRate (num 0) * num dt =
      num 0 := by
    rw [turnRate_num, turnRate_zero, hPose, CarPose.ofReal, backs_new.theta]
    simp
  have hCruise : speedAt speed (num 0) = speed := by
    apply if_neg
    rw [num_neg, num_max, neg_zero, max_self]
    exact (num_lt _ _).not.mpr (by norm_num)
  show _ + speedAt speed (num 0) * SimFloat.sin (_ + turnRate (num 0) * num dt) * num dt = nan
  rw [hTheta, hCruise, sin_num]
  have hSin : SimFloat.sin (0 : ℝ) = 0 := Real.sin_zero
  rw [hSin]
  cases speed with
  | num v => exact absurd rfl (hSpeed v)
  | nan => rfl
  | negInf =>
      show _ + infOf (-1 * SignType.sign (0 : ℝ)) * num dt = nan
      rw [sign_zero]
      rfl
  | posInf =>
      show _ + infOf (1 * SignType.sign (0 : ℝ)) * num dt = nan
      rw [sign_zero]
      rfl

theorem sound_new : (Sim.new : Sim (ExactFloat ℝ) T).Sound where
  phase p h := by cases h
  steers := steers_ofReal (Sim.new : Sim ℝ T).pose

/-- All that a step can do. -/
theorem sim_cases {l : SimLabel} (h : (sim crate cfg).step s l = some s') :
    (∃ atMs isOpen, l = .start atMs isOpen ∧ s.phase = .starting ∧
      s' = s.start cfg atMs isOpen) ∨
    ∃ t err, l = .tick t ∧ s.phase = .driving ∧ headingError t.rounds s.pose = some err ∧
      s' = { s with pose := drive cfg.speedMps cfg.dt err s.pose }.report crate cfg err t := by
  cases l with
  | start atMs isOpen =>
      obtain ⟨hPhase, hEq⟩ := Option.ite_none_right_eq_some.mp h
      exact Or.inl ⟨atMs, isOpen, rfl, hPhase, (Option.some.inj hEq).symm⟩
  | tick t =>
      obtain ⟨hPhase, hTick⟩ := Option.ite_none_right_eq_some.mp h
      obtain ⟨err, hErr, hEq⟩ := Option.map_eq_some_iff.mp hTick
      exact Or.inr ⟨t, err, rfl, hPhase, hErr, hEq.symm⟩

/-! ## Runs that meet the condition -/

/-- What every run that meets the condition keeps. -/
structure Sim.OnTrack (cfg : SimConfig (ExactFloat ℝ)) (s : Sim (ExactFloat ℝ) T) : Prop where
  sound : s.Sound
  rate : s.phase = .driving → ¬2e9 < cfg.scanHz
  pose : ∃ p : CarPose ℝ, s.pose = p.ofReal ∧ ∀ speed, cfg.speedMps = num speed →
    cfg.speedMps ≤ 16.0 * max cfg.scanHz 1.0 → InReach speed p

theorem onTrack_new (cfg : SimConfig (ExactFloat ℝ)) :
    (Sim.new : Sim (ExactFloat ℝ) T).OnTrack cfg where
  sound := sound_new
  rate h := by cases h
  pose := ⟨(Sim.new : Sim ℝ T).pose, rfl, fun speed _ _ => inReach_new speed⟩

/-- The pose after a turn that meets the condition. -/
theorem drive_onTrack (hRate : ¬2e9 < cfg.scanHz) {p : CarPose ℝ} (hPose : s.pose = p.ofReal)
    (hReach : ∀ speed, cfg.speedMps = num speed → cfg.speedMps ≤ 16.0 * max cfg.scanHz 1.0 →
      InReach speed p) {t : SimTurn} (hSafe : StaysSafe cfg s (.tick t)) {err : ExactFloat ℝ}
    (hErr : headingError t.rounds s.pose = some err) :
    ∃ q : CarPose ℝ, drive cfg.speedMps cfg.dt err s.pose = q.ofReal ∧
      (s.TelemetryDue cfg t → q.x < 74 / 3) ∧
      ∀ speed, cfg.speedMps = num speed → cfg.speedMps ≤ 16.0 * max cfg.scanHz 1.0 →
        InReach speed q := by
  obtain ⟨⟨speed, hSpeed⟩, hClear⟩ := hSafe
  obtain ⟨dt, hPeriod, hDt, hLow, -⟩ := dt_cases cfg
  obtain ⟨-, r, hOne, hHz, hScaled⟩ := hLow hRate
  rw [hPose, headingError_num] at hErr
  obtain ⟨e, hReal, rfl⟩ := Option.map_eq_some_iff.mp hErr
  have hSlow : cfg.speedMps ≤ 16.0 * max cfg.scanHz 1.0 → InReach speed (drive speed dt e p) := by
    intro hSlow
    refine drive_inReach (hReach speed hSpeed hSlow) hReal hPeriod ?_
    rw [hSpeed, hHz] at hSlow
    have hNum : speed ≤ 16.0 * r := (num_le _ _).mp hSlow
    have hStep := mul_le_mul_of_nonneg_right hNum hPeriod.1
    linarith [hScaled.2]
  refine ⟨drive speed dt e p, ?_, fun hDue => ?_, fun speed' hSpeed' hSlower => ?_⟩
  · rw [hPose, hSpeed, hDt, drive_num]
  · by_cases hSmall : cfg.speedMps ≤ 16.0 * max cfg.scanHz 1.0
    · exact (hSlow hSmall).x_lt
    · have hWest := (hClear.resolve_left hSmall) hDue
      rw [hPose, hSpeed, hDt, limit_num] at hWest
      rw [hSpeed, hHz] at hSmall
      have hFast : 16.0 * r < speed := not_le.mp ((num_le _ _).not.mp hSmall)
      exact (drive_x_le (by linarith) hPeriod.1 e p).trans_lt ((num_lt _ _).mp hWest)
  · cases hSpeed.symm.trans hSpeed'
    exact hSlow hSlower

/-- **A step that meets the condition.** -/
theorem step_onTrack {l : SimLabel} (h : s.OnTrack cfg) (hSafe : StaysSafe cfg s l)
    (hStep : (sim crate cfg).step s l = some s') : s'.OnTrack cfg := by
  obtain ⟨p, hPose, hReach⟩ := h.pose
  rcases sim_cases hStep with ⟨atMs, isOpen, rfl, -, rfl⟩ | ⟨t, err, rfl, hPhase, hErr, hEq⟩
  · have hDriving := start_driving hSafe s atMs isOpen
    have hStay := start_pose cfg s atMs isOpen
    refine ⟨⟨fun panic hPanic => ?_, hStay.symm ▸ h.sound.steers⟩, fun _ => hSafe,
      p, hStay.trans hPose, hReach⟩
    cases hDriving.symm.trans hPanic
  · have hRate := h.rate hPhase
    obtain ⟨q, hDrive, hWest, hReach'⟩ := drive_onTrack hRate hPose hReach hSafe hErr
    obtain ⟨hPose', hEnd⟩ := report_cases crate cfg
      { s with pose := drive cfg.speedMps cfg.dt err s.pose } err t
    rw [← hEq] at hPose' hEnd
    have hNow : s'.pose = q.ofReal := hPose'.trans hDrive
    refine ⟨⟨fun panic hPanic => ?_, hNow ▸ steers_ofReal q⟩, fun _ => hRate, q, hNow, hReach'⟩
    rcases hEnd with ⟨-, hDue, hFar⟩ | ⟨hDriving | hReturned, -⟩
    · have hEast : (74.0 / 3.0 : ExactFloat ℝ) ≤ q.ofReal.x := hDrive ▸ hFar
      rw [limit_num] at hEast
      exact absurd (hWest hDue) (not_lt.mpr ((num_le _ _).mp hEast))
    · cases (hDriving.trans hPhase).symm.trans hPanic
    · cases hReturned.symm.trans hPanic

theorem run_onTrack {labels : List SimLabel}
    (hMeets : (sim crate cfg).Meets (StaysSafe cfg) Sim.new labels)
    (hRun : (sim crate cfg).exec Sim.new labels = some s) : s.OnTrack cfg :=
  Machine.exec_history_of_meets (P := fun _ s => s.OnTrack cfg) (onTrack_new cfg)
    (fun _ _ _ _ _ hSafe h hStep => step_onTrack h hSafe hStep) hMeets hRun

/-- The rate is at most 2 GHz, and the speed is a number of at most 16 m in a period. -/
structure SimConfig.Tame (cfg : SimConfig (ExactFloat ℝ)) : Prop where
  rate : ¬2e9 < cfg.scanHz
  speed : ∃ speed, cfg.speedMps = num speed
  reach : cfg.speedMps ≤ 16.0 * max cfg.scanHz 1.0

theorem SimConfig.Tame.staysSafe (h : cfg.Tame) (s : Sim (ExactFloat ℝ) T) (l : SimLabel) :
    StaysSafe cfg s l := by
  cases l with
  | start atMs isOpen => exact h.rate
  | tick t => exact ⟨h.speed, Or.inl h.reach⟩

/-! ## A speed that is not a number -/

/-- The car is where it started, or nowhere. -/
def Sim.Lost (s : Sim (ExactFloat ℝ) T) : Prop :=
  s.pose = (Sim.new : Sim (ExactFloat ℝ) T).pose ∨ s.pose.y = nan

theorem Sim.Lost.drive (h : s.Lost) (hSpeed : ∀ speed, cfg.speedMps ≠ num speed)
    {err : ExactFloat ℝ} {rounds : Nat} (hErr : headingError rounds s.pose = some err) :
    (OlivawHub.drive cfg.speedMps cfg.dt err s.pose).y = nan := by
  rcases h with hNew | hNan
  · obtain ⟨dt, -, hDt, -⟩ := dt_cases cfg
    rw [hNew] at hErr ⊢
    rw [hDt]
    exact drive_new_of_not_num hSpeed hErr
  · show s.pose.y + _ = nan
    rw [hNan]
    rfl

theorem step_lost {l : SimLabel} (h : s.Lost) (hSpeed : ∀ speed, cfg.speedMps ≠ num speed)
    (hStep : (sim crate cfg).step s l = some s') :
    s'.Lost ∧ ((∃ t, l = .tick t) → s'.pose.y = nan) := by
  rcases sim_cases hStep with ⟨atMs, isOpen, rfl, -, rfl⟩ | ⟨t, err, rfl, -, hErr, hEq⟩
  · refine ⟨?_, fun ⟨t, hTick⟩ => by cases hTick⟩
    rw [Sim.Lost, start_pose]
    exact h
  · have hPose := (report_cases crate cfg
      { s with pose := drive cfg.speedMps cfg.dt err s.pose } err t).1
    rw [← hEq] at hPose
    have hNan : s'.pose.y = nan := by
      rw [hPose]
      exact h.drive hSpeed hErr
    exact ⟨Or.inr hNan, fun _ => hNan⟩

/-- After its first turn the car has no heading error in range any more. -/
theorem not_sound_of_not_num (hSpeed : ∀ speed, cfg.speedMps ≠ num speed) {past : List SimLabel}
    {t : SimTurn} (hRun : (sim crate cfg).exec Sim.new (past ++ [.tick t]) = some s) :
    ¬s.Sound := by
  rw [Machine.exec_snoc] at hRun
  obtain ⟨s₀, hPast, hStep⟩ := Option.bind_eq_some_iff.mp hRun
  have hNew : (Sim.new : Sim (ExactFloat ℝ) T).Lost := Or.inl (Eq.refl _)
  have hLost : s₀.Lost := Machine.exec_invariant (P := Sim.Lost)
    (fun _ _ _ h hs => (step_lost h hSpeed hs).1) hNew hPast
  intro hSound
  exact not_steers_of_nan ((step_lost hLost hSpeed hStep).2 ⟨t, rfl⟩) hSound.steers

/-! ## Configurations that are not -/

/-- A speed of at least 24 m in a period, at a rate that the loop starts with. -/
structure SimConfig.Wild (cfg : SimConfig (ExactFloat ℝ)) : Prop where
  rate : ¬2e9 < cfg.scanHz
  speed : ∃ speed, cfg.speedMps = num speed
  reach : 24.0 * max cfg.scanHz 1.0 ≤ cfg.speedMps

/-- The car has driven `k` turns, all without telemetry. -/
structure Sim.Overshot (dt : ℝ) (k : Nat) (s : Sim (ExactFloat ℝ) T) : Prop where
  phase : s.phase = .driving
  seq : s.seq.toNat = k
  pose : ∃ p : CarPose ℝ, s.pose = p.ofReal ∧
    (k = 0 ∧ p = (Sim.new : Sim ℝ T).pose ∨ 0 < k ∧ OlivawHub.Overshot (k * dt) p)

theorem SimConfig.Wild.step_ge (h : cfg.Wild) : ∃ speed dt : ℝ, cfg.speedMps = num speed ∧
    cfg.dt = num dt ∧ dt ∈ Set.Icc 0 1 ∧ 23.99 ≤ speed * dt ∧
      cfg.scansPerSecond.toNat * dt ≤ 1.01 := by
  obtain ⟨speed, hSpeed⟩ := h.speed
  obtain ⟨dt, hPeriod, hDt, hLow, -⟩ := dt_cases cfg
  obtain ⟨-, r, hOne, hRate, hScaled⟩ := hLow h.rate
  have hReach := h.reach
  rw [hSpeed, hRate] at hReach
  have hReal : 24.0 * r ≤ speed := (num_le _ _).mp hReach
  refine ⟨speed, dt, hSpeed, hDt, hPeriod, ?_, ?_⟩
  · linarith [mul_le_mul_of_nonneg_right hReal hPeriod.1, hScaled.1]
  · have hCount := (scansPerSecond_cases cfg).2 r hRate
    linarith [mul_le_mul_of_nonneg_right hCount hPeriod.1, hScaled.2]

theorem report_quiet (crate : SimCrate T) (s : Sim (ExactFloat ℝ) T) (err : ExactFloat ℝ)
    {t : SimTurn}
    (hOpen : t.scanOpen = true) (hDue : (s.seq + 1) % cfg.scansPerSecond ≠ 0) :
    (s.report crate cfg err t).phase = s.phase ∧
      (s.report crate cfg err t).seq = s.seq + 1 := by
  unfold Sim.report
  constructor
  · simp only [if_pos hOpen, if_neg hDue]
  · simp only [if_pos hOpen, if_neg hDue]

theorem toNat_add_one_of_lt {a b : UInt32} (h : a.toNat < b.toNat) :
    (a + 1).toNat = a.toNat + 1 := by
  have hFits := b.toNat_lt
  rw [UInt32.toNat_add, UInt32.toNat_one]
  omega

theorem add_one_mod_eq_zero_iff {a b : UInt32} (h : a.toNat < b.toNat) :
    (a + 1) % b = 0 ↔ a.toNat + 1 = b.toNat := by
  rw [← UInt32.toNat_inj, UInt32.toNat_mod, toNat_add_one_of_lt h, UInt32.toNat_zero]
  rcases Nat.lt_or_ge (a.toNat + 1) b.toNat with hLt | hGe
  · rw [Nat.mod_eq_of_lt hLt]
    omega
  · have hEq : a.toNat + 1 = b.toNat := by omega
    rw [hEq, Nat.mod_self]
    exact iff_of_true rfl rfl

theorem start_overshot (hWild : cfg.Wild) (dt : ℝ) (atMs : UInt64) (isOpen : Bool) :
    ((Sim.new : Sim (ExactFloat ℝ) T).start cfg atMs isOpen).Overshot dt 0 where
  phase := start_driving hWild.rate _ atMs isOpen
  seq := congrArg UInt32.toNat (start_seq cfg _ atMs isOpen)
  pose := ⟨(Sim.new : Sim ℝ T).pose, start_pose cfg _ atMs isOpen, Or.inl ⟨rfl, rfl⟩⟩

theorem Sim.Overshot.headingError_ends {dt : ℝ} {k : Nat} (h : s.Overshot dt k) :
    ∃ rounds err, headingError rounds s.pose = some err := by
  obtain ⟨p, hPose, -⟩ := h.pose
  obtain ⟨rounds, err, hEnd⟩ := OlivawHub.headingError_ends p
  refine ⟨rounds, num err, ?_⟩
  rw [hPose, headingError_num, hEnd rounds le_rfl]
  rfl

/-- One more turn. -/
theorem Sim.Overshot.turn (crate : SimCrate T) {dt : ℝ} {k : Nat} (h : s.Overshot dt k)
    (hWild : cfg.Wild) (hDt : cfg.dt = num dt) (hk : k < cfg.scansPerSecond.toNat) {t : SimTurn}
    {err : ExactFloat ℝ} (hErr : headingError t.rounds s.pose = some err) :
    ∃ q : CarPose ℝ, OlivawHub.Overshot ((k + 1 : Nat) * dt) q ∧ (k + 1 : Nat) * dt ≤ 1.01 ∧
      (sim crate cfg).step s (.tick t) =
        some ({ s with pose := q.ofReal }.report crate cfg err t) := by
  obtain ⟨speed, dt', hSpeed, hDt', hPeriod, hFar, hSecond⟩ := hWild.step_ge
  cases hDt.symm.trans hDt'
  obtain ⟨p, hPose, hWhere⟩ := h.pose
  have hNum := hErr
  rw [hPose, headingError_num] at hNum
  obtain ⟨e, hReal, rfl⟩ := Option.map_eq_some_iff.mp hNum
  have hTime : (k + 1 : Nat) * dt ≤ 1.01 := by
    refine le_trans (mul_le_mul_of_nonneg_right ?_ hPeriod.1) hSecond
    exact_mod_cast hk
  refine ⟨drive speed dt e p, ?_, hTime, ?_⟩
  · push_cast at hTime ⊢
    rw [add_one_mul] at hTime ⊢
    rcases hWhere with ⟨rfl, rfl⟩ | ⟨-, hOver⟩
    · simpa using drive_new_overshot hPeriod hFar hReal
    · exact drive_overshot hOver (by linarith [hPeriod.1]) hPeriod hReal
  · have hDrive : drive cfg.speedMps cfg.dt (num e) s.pose = (drive speed dt e p).ofReal := by
      rw [hPose, hSpeed, hDt, drive_num]
    show (if s.phase = .driving then s.tick crate cfg t else none) = _
    rw [if_pos h.phase, Sim.tick, hErr, ← hDrive]
    rfl

/-- The turns before the first telemetry. -/
theorem Sim.Overshot.next (crate : SimCrate T) {dt : ℝ} {k : Nat} (h : s.Overshot dt k)
    (hWild : cfg.Wild) (hDt : cfg.dt = num dt) (hk : k + 1 < cfg.scansPerSecond.toNat)
    {t : SimTurn} (hOpen : t.scanOpen = true) {err : ExactFloat ℝ}
    (hErr : headingError t.rounds s.pose = some err) :
    ∃ s', (sim crate cfg).step s (.tick t) = some s' ∧ s'.Overshot dt (k + 1) := by
  obtain ⟨q, hNext, -, hStep⟩ := h.turn crate hWild hDt (by omega) hErr
  have hSeq : s.seq.toNat < cfg.scansPerSecond.toNat := by
    rw [h.seq]
    omega
  have hDue : (s.seq + 1) % cfg.scansPerSecond ≠ 0 := by
    rw [Ne, add_one_mod_eq_zero_iff hSeq, h.seq]
    omega
  obtain ⟨hPhase, hCount⟩ := report_quiet crate { s with pose := q.ofReal } err hOpen hDue
  have hPose := (report_cases crate cfg { s with pose := q.ofReal } err t).1
  refine ⟨_, hStep, hPhase.trans h.phase, ?_, q, hPose, Or.inr ⟨k.succ_pos, hNext⟩⟩
  rw [hCount, toNat_add_one_of_lt hSeq, h.seq]

/-- The first turn with telemetry. -/
theorem Sim.Overshot.panics (crate : SimCrate T) {dt : ℝ} {k : Nat} (h : s.Overshot dt k)
    (hWild : cfg.Wild) (hDt : cfg.dt = num dt) (hk : k + 1 = cfg.scansPerSecond.toNat)
    {t : SimTurn} (hOpen : t.scanOpen = true) {err : ExactFloat ℝ}
    (hErr : headingError t.rounds s.pose = some err) :
    ∃ s', (sim crate cfg).step s (.tick t) = some s' ∧ s'.phase = .panicked .overflow := by
  obtain ⟨q, hNext, hTime, hStep⟩ := h.turn crate hWild hDt (by omega) hErr
  refine ⟨_, hStep, ?_⟩
  have hDue : (s.seq + 1) % cfg.scansPerSecond = 0 := by
    rw [add_one_mod_eq_zero_iff (by rw [h.seq]; omega), h.seq, hk]
  have hEast : (74.0 / 3.0 : ExactFloat ℝ) ≤ q.ofReal.x := by
    rw [limit_num]
    refine (num_le _ _).mpr ?_
    linarith [hNext.x]
  rcases (report_cases crate cfg { s with pose := q.ofReal } err t).2 with ⟨hPanic, -⟩ | ⟨-, hNot⟩
  · exact hPanic
  · exact absurd ⟨⟨hOpen, hDue⟩, hEast⟩ hNot

theorem exec_overshot (crate : SimCrate T) (hWild : cfg.Wild) {dt : ℝ} (hDt : cfg.dt = num dt)
    {k : Nat} (hk : k < cfg.scansPerSecond.toNat) :
    ∃ labels, ∃ s : Sim (ExactFloat ℝ) T, (sim crate cfg).exec Sim.new labels = some s ∧
      s.Overshot dt k := by
  induction k with
  | zero => exact ⟨[.start 0 true], _, rfl, start_overshot hWild dt 0 true⟩
  | succ k ih =>
      obtain ⟨labels, s, hRun, hOver⟩ := ih (by omega)
      obtain ⟨rounds, err, hErr⟩ := hOver.headingError_ends
      obtain ⟨s', hStep, hNext⟩ :=
        hOver.next crate hWild hDt hk (t := ⟨rounds, 0, true, 0, true⟩) rfl hErr
      refine ⟨labels ++ [.tick ⟨rounds, 0, true, 0, true⟩], s', ?_, hNext⟩
      rw [Machine.exec_snoc, hRun, Option.bind_some, hStep]

/-- A car that is too fast panics when it first sends telemetry. -/
theorem overshoot_panics (crate : SimCrate T) (hWild : cfg.Wild) :
    ∃ labels, ∃ s : Sim (ExactFloat ℝ) T, (sim crate cfg).exec Sim.new labels = some s ∧
      s.phase = .panicked .overflow := by
  obtain ⟨speed, dt, -, hDt, -⟩ := hWild.step_ge
  have hOne := (scansPerSecond_cases cfg).1
  obtain ⟨labels, s, hRun, hOver⟩ := exec_overshot crate hWild hDt (Nat.sub_one_lt_of_lt hOne)
  obtain ⟨rounds, err, hErr⟩ := hOver.headingError_ends
  obtain ⟨s', hStep, hPanic⟩ :=
    hOver.panics crate hWild hDt (by omega) (t := ⟨rounds, 0, true, 0, true⟩) rfl hErr
  refine ⟨labels ++ [.tick ⟨rounds, 0, true, 0, true⟩], s', ?_, hPanic⟩
  rw [Machine.exec_snoc, hRun, Option.bind_some, hStep]

/-- **The simulator, for every configuration and every run.** The modulus is not zero. A run whose
steps all meet the condition is sound. All runs do if the rate is at most 2 GHz and the speed at
most 16 m in a period; from 24 m in a period on, some run panics. At every higher rate that is a
float the loop does not start, and a speed that is not a number spoils every run that turns. -/
theorem sim_sound_while_safe (crate : SimCrate T) (cfg : SimConfig (ExactFloat ℝ)) :
    cfg.scansPerSecond ≠ 0 ∧
    (∀ labels s, (sim crate cfg).exec Sim.new labels = some s →
      (sim crate cfg).Meets (StaysSafe cfg) Sim.new labels → s.Sound) ∧
    (cfg.Tame → ∀ labels s, (sim crate cfg).exec Sim.new labels = some s → s.Sound) ∧
    (cfg.Wild → ∃ labels s, (sim crate cfg).exec Sim.new labels = some s ∧
      s.phase = .panicked .overflow) ∧
    (2e9 < cfg.scanHz → toF64 cfg.scanHz = cfg.scanHz → ∀ atMs isOpen s,
      (sim crate cfg).exec Sim.new [.start atMs isOpen] = some s →
        s.phase = .panicked .zeroPeriod) ∧
    ((∀ speed, cfg.speedMps ≠ num speed) → ∀ past t s,
      (sim crate cfg).exec Sim.new (past ++ [.tick t]) = some s → ¬s.Sound) := by
  refine ⟨scansPerSecond_ne_zero cfg, fun labels s hRun hMeets => ?_, fun hTame labels s hRun => ?_,
    overshoot_panics crate, fun hHigh hFloat atMs isOpen s hRun => ?_,
    fun hSpeed past t s hRun => not_sound_of_not_num hSpeed hRun⟩
  · exact (run_onTrack hMeets hRun).sound
  · refine (run_onTrack (Machine.meets_of_forall (fun l _ s => ?_) _) hRun).sound
    exact hTame.staysSafe s l
  · cases hRun
    exact start_zeroPeriod hHigh hFloat _ atMs isOpen

/-- The default configuration is safe. -/
theorem sim_sound_default :
    ∀ labels s, (sim (⟨720, id⟩ : SimCrate SimReadings) ⟨"sim-01", 10.0, 0.3, 0.01⟩).exec
      (Sim.new : Sim (ExactFloat ℝ) SimReadings) labels = some s → s.Sound := by
  have hRate : max (10.0 : ExactFloat ℝ) 1.0 = num (max 10.0 1.0) := num_max _ _
  refine (sim_sound_while_safe _ _).2.2.1 ⟨(num_lt _ _).not.mpr (by norm_num), ⟨0.3, rfl⟩, ?_⟩
  rw [hRate]
  exact (num_le _ _).mpr (by norm_num)

/-- At 1 Hz and 1000 m/s the first telemetry overflows. -/
theorem fast_sim_panics :
    ∃ s, (sim (⟨720, id⟩ : SimCrate SimReadings) ⟨"sim-01", 1.0, 1000.0, 0.01⟩).exec
        (Sim.new : Sim (ExactFloat ℝ) SimReadings)
        [.start 0 true, .tick ⟨0, 0, true, 0, true⟩] = some s ∧
      s.phase = .panicked .overflow := by
  let cfg : SimConfig (ExactFloat ℝ) := ⟨"sim-01", 1.0, 1000.0, 0.01⟩
  have hRate : max cfg.scanHz 1.0 = num 1.0 := (num_max _ _).trans (congrArg num (max_self _))
  have hDt : cfg.dt = num (round64 (1 / 1.0)) := SimConfig.dt_eq (by norm_num) hRate
  have hWild : cfg.Wild := by
    refine ⟨(num_lt _ _).not.mpr (by norm_num), ⟨1000.0, rfl⟩, ?_⟩
    rw [hRate]
    exact (num_le _ _).mpr (by norm_num)
  have hCount : 0 + 1 = cfg.scansPerSecond.toNat := by
    obtain ⟨hOne, hAll⟩ := scansPerSecond_cases cfg
    have hLe : (cfg.scansPerSecond.toNat : ℝ) ≤ 1 := (hAll _ hRate).trans (by norm_num)
    exact le_antisymm hOne (by exact_mod_cast hLe)
  have hErr : headingError 0 ((Sim.new : Sim (ExactFloat ℝ) SimReadings).start cfg 0 true).pose =
      some (num 0) := by
    rw [start_pose]
    exact headingError_new 0
  obtain ⟨s, hStep, hPanic⟩ := (start_overshot hWild _ 0 true).panics ⟨720, id⟩ hWild hDt hCount
    (t := ⟨0, 0, true, 0, true⟩) rfl hErr
  have hStart : (sim (⟨720, id⟩ : SimCrate SimReadings) cfg).exec Sim.new [.start 0 true] =
      some ((Sim.new : Sim (ExactFloat ℝ) SimReadings).start cfg 0 true) := rfl
  refine ⟨s, Machine.exec_trans hStart ?_, hPanic⟩
  rw [Machine.exec_cons, hStep]
  rfl

end OlivawHub
