import OlivawHub.Ingest.SerialTrace
import OlivawHub.Sim.Readings

/-!
# From the lidar to the matcher

The reader codes angles in 64ths of a degree and distances in quarters of a millimetre
(`serial.rs`), and the worker turns the codes into metres in the frame of the car (`units.rs`). In
exact arithmetic each return of the lidar is a point of the cloud, nearly where the lidar measured
it (`lidar_points_keep_place`); one beyond 16.38375 m is brought to that distance, and one nearer
than an eighth of a millimetre is dropped.
-/

namespace OlivawHub

open Foundations Real

/-- A measurement of the lidar: degrees clockwise, and millimetres. Without a return it has neither
a distance nor a quality. -/
structure Measurement where
  angle : ℚ
  distance : ℚ
  quality : UInt8
  angle_nonneg : 0 ≤ angle
  angle_le : angle ≤ 1023
  distance_nonneg : 0 ≤ distance
  heard : quality = 0 → distance = 0

namespace Measurement

/-- As the lidar gives it. -/
def point (m : Measurement) : LidarPoint := ⟨.num m.angle, .num m.distance, m.quality⟩

/-- The largest distance there is a code for. -/
def reach : ℚ := 65535 / 4

/-- Where it is in the frame of the car, in metres, x forward and y to the left. -/
noncomputable def place (m : Measurement) : ℂ :=
  polar (min m.distance reach / 1000 : ℚ) (-((m.angle / 180 : ℚ) * π))

end Measurement

/-! ## Codes -/

theorem trunc_intCast (n : ℤ) : ExactFloat.trunc (n : ℚ) = n := by
  unfold ExactFloat.trunc
  split
  · exact Int.floor_intCast n
  · exact Int.ceil_intCast n

/-- The code of a number that is not negative. -/
theorem toNat_toQ {v scale : ℚ} (h : 0 ≤ v * scale) :
    ((toQ (.num v) (.num scale)).toNat : ℤ) = min ⌊v * scale + 1 / 2⌋ 65535 := by
  have hFloor : 0 ≤ ⌊v * scale + 1 / 2⌋ := Int.floor_nonneg.mpr (by linarith)
  have hRound : (ExactFloat.num v * ExactFloat.num scale).round =
      .num ((⌊v * scale + 1 / 2⌋ : ℤ) : ℚ) := by
    show ExactFloat.num _ = _
    rw [if_pos h]
  have hClamp : clamp (((⌊v * scale + 1 / 2⌋ : ℤ) : ℚ)) 0 65535 =
      ((min ⌊v * scale + 1 / 2⌋ 65535 : ℤ) : ℚ) := by
    have hNonneg : (0 : ℚ) ≤ ⌊v * scale + 1 / 2⌋ := Int.cast_nonneg hFloor
    rw [clamp, if_neg (not_lt.mpr hNonneg)]
    push_cast
    split
    · rename_i hFar
      exact (min_eq_right (le_of_lt hFar)).symm
    · rename_i hNear
      exact (min_eq_left (not_lt.mp hNear)).symm
  rw [toQ, hRound, ExactFloat.num_clamp, hClamp]
  show ((UInt16.ofNat (max 0 (min 65535 (ExactFloat.trunc _))).toNat).toNat : ℤ) = _
  rw [trunc_intCast, UInt16.toNat_ofNat']
  omega

theorem toQ_near {v scale : ℚ} (h : 0 ≤ v * scale) :
    |((toQ (.num v) (.num scale)).toNat : ℚ) - min (v * scale) 65535| ≤ 1 / 2 := by
  have hCode : ((toQ (.num v) (.num scale)).toNat : ℚ) =
      min (⌊v * scale + 1 / 2⌋ : ℚ) 65535 := by
    exact_mod_cast congrArg (Int.cast (R := ℚ)) (toNat_toQ h)
  have hLow := Int.floor_le (v * scale + 1 / 2)
  have hHigh := Int.lt_floor_add_one (v * scale + 1 / 2)
  rw [hCode]
  refine (abs_min_sub_min_le_max _ _ _ _).trans (max_le ?_ ?_)
  · rw [abs_le]
    constructor <;> linarith
  · rw [sub_self, abs_zero]
    norm_num

/-- A code is within half a unit of what it stands for, up to the last one. -/
theorem toQ_unit {v : ℚ} (scale : ℚ) (hScale : 0 < scale) (hv : 0 ≤ v) :
    |((toQ (.num v) (.num scale)).toNat : ℚ) / scale - min v (65535 / scale)| ≤
      1 / 2 / scale := by
  have hMin : min (v * scale) 65535 = min v (65535 / scale) * scale := by
    rw [min_mul_of_nonneg _ _ hScale.le, div_mul_cancel₀ _ hScale.ne']
  have hNear := toQ_near (mul_nonneg hv hScale.le)
  have hSplit : ((toQ (.num v) (.num scale)).toNat : ℚ) / scale - min v (65535 / scale) =
      (((toQ (.num v) (.num scale)).toNat : ℚ) - min (v * scale) 65535) / scale := by
    rw [hMin, sub_div, mul_div_cancel_right₀ _ hScale.ne']
  rw [hSplit, abs_div, abs_of_pos hScale]
  exact div_le_div_of_nonneg_right hNear hScale.le

theorem angle_near (m : Measurement) :
    |(m.point.toScanPoint.angleQ6.toNat : ℚ) / 64 - m.angle| ≤ 1 / 128 := by
  have hUnit := toQ_unit 64 (by norm_num) m.angle_nonneg
  have hMin : min m.angle (65535 / 64) = m.angle :=
    min_eq_left (m.angle_le.trans (by norm_num))
  rw [hMin] at hUnit
  exact hUnit.trans (by norm_num)

theorem distance_near (m : Measurement) :
    |(m.point.toScanPoint.distQ2.toNat : ℚ) / 4000 - min m.distance Measurement.reach / 1000| ≤
      1 / 8000 := by
  have hUnit := toQ_unit 4 (by norm_num) m.distance_nonneg
  have hSplit : (m.point.toScanPoint.distQ2.toNat : ℚ) / 4000 -
      min m.distance Measurement.reach / 1000 =
        ((m.point.toScanPoint.distQ2.toNat : ℚ) / 4 - min m.distance (65535 / 4)) / 1000 := by
    rw [Measurement.reach]
    ring
  rw [hSplit, abs_div, abs_of_pos (by norm_num : (0 : ℚ) < 1000)]
  exact (div_le_div_of_nonneg_right hUnit (by norm_num)).trans (by norm_num)

theorem distQ2_eq_zero_iff (m : Measurement) : m.point.toScanPoint.distQ2 = 0 ↔
    m.distance < 1 / 8 := by
  have hScaled : 0 ≤ m.distance * 4 := mul_nonneg m.distance_nonneg (by norm_num)
  have hCode := toNat_toQ hScaled
  have hFloor : 0 ≤ ⌊m.distance * 4 + 1 / 2⌋ := Int.floor_nonneg.mpr (by linarith)
  have hZero : ⌊m.distance * 4 + 1 / 2⌋ < 1 ↔ m.distance < 1 / 8 := by
    rw [Int.floor_lt]
    push_cast
    constructor <;> intro h <;> linarith
  rw [← hZero, ← UInt16.toNat_inj]
  show (toQ (.num m.distance) (.num 4)).toNat = 0 ↔ _
  omega

/-! ## Points -/

section Points

variable {S : Type} {lib : SlamLib S ℝ}

theorem isValid_iff (hLib : ExactLib lib) (m : Measurement) :
    lib.isValid m.point.toScanPoint = true ↔ 1 / 8 ≤ m.distance := by
  rw [← not_lt, ← distQ2_eq_zero_iff]
  constructor
  · intro hValid hZero
    rw [hLib.invalid _ hZero] at hValid
    cases hValid
  · intro hFar
    refine hLib.valid _ hFar fun hQuality => hFar ?_
    rw [distQ2_eq_zero_iff, m.heard hQuality]
    norm_num

/-- The point of the cloud, as a complex number. -/
theorem toComplex_cloudPoint (hLib : ExactLib lib) (point : ScanPoint) :
    (cloudPoint lib point).toComplex = polar ((point.distQ2.toNat : ℝ) / 4000)
      (-((point.angleQ6.toNat : ℝ) / 64 * (π / 180))) := by
  have hR : lib.distanceMm point / 1000.0 = (point.distQ2.toNat : ℝ) / 4000 := by
    rw [hLib.distanceMm]
    norm_num
    ring
  apply Complex.ext
  · rw [polar_re, Real.cos_neg]
    simp only [Point2.toComplex, cloudPoint, hR, hLib.toRadians, hLib.angleDeg, hLib.cos]
  · rw [polar_im, Real.sin_neg]
    simp only [Point2.toComplex, cloudPoint, hR, hLib.toRadians, hLib.angleDeg, hLib.sin]
    ring

/-- How far a point may be from where it was measured: half a code of each kind. -/
noncomputable def codeError (m : Measurement) : ℝ :=
  (1 / 8000 : ℚ) + (min m.distance Measurement.reach / 1000 : ℚ) * ((1 / 128 / 180 : ℚ) * π)

theorem cloudPoint_near (hLib : ExactLib lib) (m : Measurement) :
    ‖(cloudPoint lib m.point.toScanPoint).toComplex - m.place‖ ≤ codeError m := by
  have hAngle : |(m.point.toScanPoint.angleQ6.toNat : ℝ) / 64 - m.angle| ≤ 1 / 128 := by
    have hCast := (Rat.cast_le (K := ℝ)).mpr (angle_near m)
    push_cast at hCast
    exact hCast
  have hDistance : |(m.point.toScanPoint.distQ2.toNat : ℝ) / 4000 -
      (min m.distance Measurement.reach / 1000 : ℚ)| ≤ (1 / 8000 : ℚ) := by
    have hCast := (Rat.cast_le (K := ℝ)).mpr (distance_near m)
    push_cast at hCast ⊢
    exact hCast
  have hReach : (0 : ℝ) ≤ (min m.distance Measurement.reach / 1000 : ℚ) := by
    have hMin : 0 ≤ min m.distance Measurement.reach :=
      le_min m.distance_nonneg (by rw [Measurement.reach]; norm_num)
    exact Rat.cast_nonneg.mpr (div_nonneg hMin (by norm_num))
  rw [toComplex_cloudPoint hLib, Measurement.place, codeError]
  refine (norm_polar_sub_le hReach).trans (add_le_add hDistance ?_)
  refine mul_le_mul_of_nonneg_left ?_ hReach
  have hTurn : -((m.point.toScanPoint.angleQ6.toNat : ℝ) / 64 * (π / 180)) -
      -((m.angle / 180 : ℚ) * π) =
        -(((m.point.toScanPoint.angleQ6.toNat : ℝ) / 64 - m.angle) * (π / 180)) := by
    push_cast
    ring
  have hCode : ((1 / 128 / 180 : ℚ) * π : ℝ) = 1 / 128 * (π / 180) := by
    push_cast
    ring
  rw [hTurn, hCode, abs_neg, abs_mul, abs_of_pos (div_pos pi_pos (by norm_num : (0 : ℝ) < 180))]
  exact mul_le_mul_of_nonneg_right hAngle (by positivity)

/-- The points of the cloud are what the lidar measured, as far as the frame had room, without those
that are too near to have a code. -/
def ShowsMeasured (maxPoints : Nat) (ms : List Measurement)
    (cloud : List (Point2 ℝ)) : Prop :=
  List.Forall₂ (fun m q => ‖q.toComplex - m.place‖ ≤ codeError m)
    ((ms.take maxPoints).filter fun m => 1 / 8 ≤ m.distance) cloud

theorem showsMeasured_frame {T : Type} (hLib : ExactLib lib) (crate : ProtoCrate T) (k : Nat)
    (ms : List Measurement) (t : SerialTurn) (timestampNs : UInt64) :
    ShowsMeasured crate.maxPoints ms (scanFrameToCloud lib
      (rotationFrame crate k (ms.map Measurement.point) t) timestampNs).points := by
  have hPoints : (rotationFrame crate k (ms.map Measurement.point) t).points =
      (ms.take crate.maxPoints).map fun m => m.point.toScanPoint := by
    simp only [rotationFrame, List.map_map, List.map_take, Function.comp_def]
  have hValid : (lib.isValid ∘ fun m : Measurement => m.point.toScanPoint) =
      fun m => decide (1 / 8 ≤ m.distance) := by
    ext m
    exact Bool.eq_iff_iff.mpr ((isValid_iff hLib m).trans decide_eq_true_iff.symm)
  rw [ShowsMeasured, points_scanFrameToCloud, hPoints, List.filter_map, List.map_map,
    List.forall₂_map_right_iff, hValid]
  exact List.forall₂_same.mpr fun m _ => cloudPoint_near hLib m

end Points

/-- **Lidar and matcher.** In every run of the serial reader, whatever the lidar measures: every
frame sent is that of one of its rotations, and the cloud the worker makes of it has one point for
each measurement with a code of its own, in order, within half a code of where it was measured. -/
theorem lidar_points_keep_place {S T ε : Type} {lib : SlamLib S ℝ} (hLib : ExactLib lib)
    (crate : ProtoCrate T) (car : String) (labels : List (SerialLabel ε)) (s : SerialReader ε T)
    (hRun : (serialReader crate car).exec .new labels = some s)
    (hMeasured : ∀ r ∈ rotationsOf labels, ∃ ms : List Measurement, r.1 = ms.map Measurement.point)
    (e : CarEvent T) (he : e ∈ s.sent) (frame : ScanFrame) (hScan : e.kind = .scan frame)
    (timestampNs : UInt64) :
    ∃ k ms t, (rotationsOf labels)[k]? = some (ms.map Measurement.point, t) ∧
      frame.seq = .ofNat k ∧
      ShowsMeasured crate.maxPoints ms (scanFrameToCloud lib frame timestampNs).points := by
  obtain ⟨k, ⟨points, t⟩, hAt, rfl⟩ := (SerialReader.Tells.of_run hRun).frame he hScan
  obtain ⟨ms, rfl⟩ := hMeasured _ (List.mem_of_getElem? hAt)
  exact ⟨k, ms, t, hAt, rfl, showsMeasured_frame hLib crate k ms t timestampNs⟩

/-- A measurement at 90 degrees, and one that is too far. -/
def rightAndFar : List Measurement :=
  [⟨90, 1000, 40, by decide +kernel, by decide +kernel, by decide +kernel, nofun⟩,
    ⟨180, 20000, 40, by decide +kernel, by decide +kernel, by decide +kernel, nofun⟩]

/-- One rotation of a lidar that measures them. -/
def rightAndFarRun : List (SerialLabel String) :=
  [.start (.ok ()) (.ok ()) (.ok ()) 5 true,
    .scan (rightAndFar.map Measurement.point) ⟨0, 0, 0, 0, 6, true, 7, true⟩]

theorem lidar_points_keep_place_two : ∃ s frame,
    (serialReader unitCrate "lidar").exec .new rightAndFarRun = some s ∧
      (⟨"lidar", 6, .scan frame⟩ : CarEvent Unit) ∈ s.sent ∧
      ∃ k ms t, (rotationsOf rightAndFarRun)[k]? = some (ms.map Measurement.point, t) ∧
        frame.seq = .ofNat k ∧
        ShowsMeasured 500 ms (scanFrameToCloud exactLib frame 0).points := by
  have hMeasured : ∀ r ∈ rotationsOf rightAndFarRun,
      ∃ ms : List Measurement, r.1 = ms.map Measurement.point := by
    intro r hr
    obtain rfl := List.mem_singleton.mp hr
    exact ⟨rightAndFar, rfl⟩
  have hRun : (serialReader unitCrate "lidar").exec .new rightAndFarRun = some _ := rfl
  exact ⟨_, _, hRun, List.mem_cons_of_mem _ List.mem_cons_self,
    lidar_points_keep_place exactLib_exact unitCrate "lidar" rightAndFarRun _ hRun hMeasured _
      (List.mem_cons_of_mem _ List.mem_cons_self) _ rfl 0⟩

end OlivawHub
