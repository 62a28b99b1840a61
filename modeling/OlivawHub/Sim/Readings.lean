import OlivawHub.Sim.Trace
import OlivawHub.Slam.Worker
import OlivawHub.Foundations.Polar

/-!
# From the beams to the map frame and back to the walls

The simulator turns distances into the units of the wire (`room.rs`), and the worker turns these
into metres in the frame of the car (`units.rs`). In exact arithmetic the two fit together: what
the worker makes of a simulated scan, placed where the car is in the turn that sends it, lies on
the walls that the beams hit, up to the noise and 2 mm for the units of the wire
(`scans_show_walls`).
-/

namespace OlivawHub

open Foundations Real

/-- Exact arithmetic: no rounding. -/
noncomputable instance : HubFloat ℝ where
  asF32 := id

/-! ## The random numbers -/

theorem nextF64_mem (rng : UInt64) : (nextF64 rng : ℝ × UInt64).1 ∈ Set.Icc (0 : ℝ) 1 := by
  have hShift : ∀ w : UInt64, (w >>> 11).toNat ≤ 2 ^ 53 := by
    intro w
    have hW := w.toNat_lt
    have hBits : (11 : UInt64).toNat % 64 = 11 := rfl
    rw [UInt64.toNat_shiftRight, hBits, Nat.shiftRight_eq_div_pow]
    omega
  show ((_ : ℕ) : ℝ) / ((2 ^ 53 : ℕ) : ℝ) ∈ _
  refine ⟨by positivity, (div_le_one (by positivity)).mpr ?_⟩
  exact_mod_cast hShift _

/-- The sum of `n` of them. -/
theorem sum_nextF64_mem (rng : UInt64) (n : ℕ) :
    ((List.range n).foldl (fun (p : ℝ × UInt64) _ =>
      (p.1 + (nextF64 p.2 : ℝ × UInt64).1, (nextF64 p.2 : ℝ × UInt64).2)) ((0.0 : ℝ), rng)).1 ∈
        Set.Icc (0 : ℝ) n := by
  induction n with
  | zero => exact ⟨by norm_num, by norm_num⟩
  | succ n ih =>
      rw [List.range_succ, List.foldl_append]
      obtain ⟨hLow, hHigh⟩ := nextF64_mem ((List.range n).foldl (fun (p : ℝ × UInt64) _ =>
        (p.1 + (nextF64 p.2 : ℝ × UInt64).1, (nextF64 p.2 : ℝ × UInt64).2)) ((0.0 : ℝ), rng)).2
      refine ⟨add_nonneg ih.1 hLow, ?_⟩
      push_cast
      exact add_le_add ih.2 hHigh

theorem abs_noise_le {sum : ℝ} (h : sum ∈ Set.Icc (0 : ℝ) (6 : ℕ)) (sigma : ℝ) :
    |(sum - 3.0) * sigma / 0.707| ≤ 3 * |sigma| / 0.707 := by
  obtain ⟨hLow, hHigh⟩ := h
  push_cast at hHigh
  have hMiddle : |sum - 3.0| ≤ 3 := by
    rw [abs_le]
    constructor <;> norm_num <;> linarith
  rw [abs_div, abs_mul, abs_of_pos (by norm_num : (0 : ℝ) < 0.707)]
  exact div_le_div_of_nonneg_right (mul_le_mul_of_nonneg_right hMiddle (abs_nonneg _))
    (by norm_num)

theorem noise_le (rng : UInt64) (sigma : ℝ) : |(noise rng sigma).1| ≤ 3 * |sigma| / 0.707 :=
  abs_noise_le (sum_nextF64_mem rng 6) sigma

/-! ## One beam -/

/-- The bearing of a beam. -/
noncomputable def beamBearing (p : CarPose ℝ) (i : Nat) : ℝ :=
  p.theta - (i : ℝ) * 360.0 / 500.0 * (π / 180.0)

/-- The distance of what the beam hits. -/
noncomputable def echo (p : CarPose ℝ) (i : Nat) : Option ℝ :=
  cast (p.x, p.y) (beamBearing p i) walls 12.0

/-- How far the distance in a frame may be off for a wall at distance `d`: the noise, and what is
nearer than 5 cm is taken for 5 cm. -/
noncomputable def slack (noiseM d : ℝ) : ℝ := 3 * |noiseM| / 0.707 + max (0.05 - d) 0

/-- The point tells of the beam. -/
structure TellsOf (noiseM : ℝ) (p : CarPose ℝ) (i : Nat) (point : ScanPoint) : Prop where
  angle : |(point.angleQ6.toNat : ℝ) / 64 - (i : ℝ) * 360.0 / 500.0| ≤ 1 / 128
  miss : echo p i = none → point.distQ2 = 0
  hit : ∀ d, echo p i = some d → point.distQ2 ≠ 0 ∧ point.quality ≠ 0 ∧
    |(point.distQ2.toNat : ℝ) / 4000 - d| ≤ 1 / 8000 + slack noiseM d

theorem round_of_nonneg {r : ℝ} (h : 0 ≤ r) : SimFloat.round r = (round r : ℝ) := by
  show (if 0 ≤ r then ((⌊r + 0.5⌋ : ℤ) : ℝ) else ((⌈r - 0.5⌉ : ℤ) : ℝ)) = _
  rw [if_pos h, round_eq]
  norm_num

/-- The code of a number in range. -/
theorem toNat_asInt {n : ℤ} (h : 0 ≤ n) (hn : n ≤ 65535) :
    ((UInt16.ofNat (SimFloat.asInt 0 65535 (n : ℝ)).toNat).toNat : ℤ) = n := by
  have hTrunc : ExactFloat.trunc (n : ℝ) = n := by
    rw [ExactFloat.trunc, if_pos (Int.cast_nonneg h), Int.floor_intCast]
  have hInt : SimFloat.asInt 0 65535 (n : ℝ) = n := by
    show max 0 (min 65535 (ExactFloat.trunc (n : ℝ))) = n
    rw [hTrunc]
    omega
  rw [hInt, UInt16.toNat_ofNat']
  omega

/-- What is written for a number in range is within half a unit of it. -/
theorem code_sub_le {x : ℝ} (hLow : 0 ≤ x) (hHigh : x ≤ 65534) :
    |((UInt16.ofNat (SimFloat.asInt 0 65535 (SimFloat.round x)).toNat).toNat : ℝ) - x| ≤
      1 / 2 := by
  have hRound := abs_sub_round x
  obtain ⟨hBelow, hAbove⟩ := abs_le.mp hRound
  have hNonneg : 0 ≤ round x := by
    rw [round_eq]
    exact Int.floor_nonneg.mpr (by linarith)
  have hFits : round x ≤ 65535 := by
    have : ((round x : ℤ) : ℝ) ≤ (65535 : ℤ) := by
      push_cast
      linarith
    exact_mod_cast this
  have hCode := toNat_asInt hNonneg hFits
  rw [round_of_nonneg hLow, abs_sub_comm]
  have hReal : ((UInt16.ofNat (SimFloat.asInt 0 65535 ((round x : ℤ) : ℝ)).toNat).toNat : ℝ) =
      round x := by exact_mod_cast congrArg (Int.cast (R := ℝ)) hCode
  rw [hReal]
  exact hRound

/-- Such a number is not clamped. -/
theorem clamp_round {x : ℝ} (hLow : 0 ≤ x) (hHigh : x ≤ 65534) :
    clamp (SimFloat.round x) 0.0 65535.0 = SimFloat.round x := by
  obtain ⟨hBelow, hAbove⟩ := abs_le.mp (abs_sub_round x)
  have hNonneg : 0 ≤ round x := by
    rw [round_eq]
    exact Int.floor_nonneg.mpr (by linarith)
  have hNonneg' : (0 : ℝ) ≤ round x := Int.cast_nonneg hNonneg
  rw [round_of_nonneg hLow, clamp, if_neg (by norm_num; exact hNonneg),
    if_neg (by norm_num; linarith)]

/-- The point of a beam that measures `dist`. -/
noncomputable def wirePoint (i : Nat) (dist : ℝ) : ScanPoint :=
  ⟨.ofNat (SimFloat.asInt 0 65535 (SimFloat.round ((i : ℝ) * 360.0 / 500.0 * 64.0))).toNat,
    .ofNat (SimFloat.asInt 0 65535
      (clamp (SimFloat.round (dist * 1000.0 * 4.0)) 0.0 65535.0)).toNat,
    if dist > 0.0 then 47 else 0⟩

theorem beam_eq (noiseM : ℝ) (p : CarPose ℝ) (rng : UInt64) (i : Nat) :
    (beam noiseM p rng i).1 = match echo p i with
      | some d => wirePoint i (max (d + (noise rng noiseM).1) 0.05)
      | none => wirePoint i 0.0 := by
  have hEcho : cast (p.x, p.y) (p.theta - (i : ℝ) * 360.0 / 500.0 * (SimFloat.pi / 180.0)) walls
      12.0 = echo p i := rfl
  unfold beam
  dsimp only
  rw [hEcho]
  cases echo p i with
  | none => rfl
  | some d => rfl

/-- What is hit is in front of the car, at less than 12 m. -/
theorem echo_mem {p : CarPose ℝ} {i : Nat} {d : ℝ} (h : echo p i = some d) :
    0 < d ∧ d < 12 ∧ ∃ w ∈ walls,
      w.Meets (p.x, p.y) (cos (beamBearing p i), sin (beamBearing p i)) d := by
  obtain ⟨⟨hFront, hNear, w, hw, hMeets⟩, -⟩ := castAlong_eq_some_iff.mp h
  refine ⟨lt_trans (by norm_num) hFront, lt_of_lt_of_eq hNear (by norm_num), w, hw, hMeets⟩

theorem abs_max_sub_le {d e m : ℝ} : |max (d + e) m - d| ≤ |e| + max (m - d) 0 := by
  have hSlack : 0 ≤ max (m - d) 0 := le_max_right _ _
  have hLow := neg_abs_le e
  have hHigh := le_abs_self e
  rw [abs_le]
  constructor
  · have hLeft := le_max_left (d + e) m
    linarith
  · rcases max_choice (d + e) m with hMax | hMax
    · rw [hMax]
      linarith
    · rw [hMax]
      have hGap := le_max_left (m - d) 0
      have hAbs := abs_nonneg e
      linarith

theorem wirePoint_angle (dist : ℝ) {i : Nat} (hi : i < 500) :
    |((wirePoint i dist).angleQ6.toNat : ℝ) / 64 - (i : ℝ) * 360.0 / 500.0| ≤ 1 / 128 := by
  have hIndex : (i : ℝ) ≤ 500 := by exact_mod_cast hi.le
  have hCode := code_sub_le (x := (i : ℝ) * 360.0 / 500.0 * 64.0) (by positivity)
    (by norm_num; linarith)
  have hScale : ((wirePoint i dist).angleQ6.toNat : ℝ) / 64 - (i : ℝ) * 360.0 / 500.0 =
      (((wirePoint i dist).angleQ6.toNat : ℝ) - (i : ℝ) * 360.0 / 500.0 * 64.0) / 64 := by
    norm_num
    ring
  rw [hScale, abs_div, abs_of_pos (by norm_num : (0 : ℝ) < 64)]
  exact (div_le_div_of_nonneg_right hCode (by norm_num)).trans (by norm_num)

theorem wirePoint_dist (i : Nat) (dist : ℝ) (hLow : 0 ≤ dist) (hHigh : dist ≤ 16.3) :
    |((wirePoint i dist).distQ2.toNat : ℝ) / 4000 - dist| ≤ 1 / 8000 := by
  have hNonneg : 0 ≤ dist * 1000.0 * 4.0 := by positivity
  have hFits : dist * 1000.0 * 4.0 ≤ 65534 := by
    norm_num at hHigh ⊢
    linarith
  have hCode := code_sub_le hNonneg hFits
  rw [← clamp_round hNonneg hFits] at hCode
  have hScale : ((wirePoint i dist).distQ2.toNat : ℝ) / 4000 - dist =
      (((wirePoint i dist).distQ2.toNat : ℝ) - dist * 1000.0 * 4.0) / 4000 := by
    norm_num
    ring
  rw [hScale, abs_div, abs_of_pos (by norm_num : (0 : ℝ) < 4000)]
  exact (div_le_div_of_nonneg_right hCode (by norm_num)).trans (by norm_num)

/-- Every beam is told of, whatever the random numbers. -/
theorem beam_tells {noiseM : ℝ} (hNoise : |noiseM| ≤ 1) (p : CarPose ℝ) (rng : UInt64) {i : Nat}
    (hi : i < 500) : TellsOf noiseM p i (beam noiseM p rng i).1 := by
  rw [beam_eq]
  cases hEcho : echo p i with
  | none =>
      refine ⟨wirePoint_angle _ hi, fun _ => ?_, fun d hd => ?_⟩
      · have hCode := (abs_le.mp (wirePoint_dist i 0.0 (by norm_num) (by norm_num))).2
        have hHalf : ((wirePoint i 0.0).distQ2.toNat : ℝ) < 1 := by linarith
        have hZero : (wirePoint i 0.0).distQ2.toNat < 1 := by exact_mod_cast hHalf
        exact UInt16.toNat_inj.mp (by simpa using hZero)
      · rw [hEcho] at hd
        cases hd
  | some d =>
      obtain ⟨hFront, hNear, -⟩ := echo_mem hEcho
      have hEps := noise_le rng noiseM
      have hLow : 0.05 ≤ max (d + (noise rng noiseM).1) 0.05 := le_max_right _ _
      have hHigh : max (d + (noise rng noiseM).1) 0.05 ≤ 16.3 := by
        refine max_le ?_ (by norm_num)
        have hBound : 3 * |noiseM| / 0.707 ≤ 3 / 0.707 :=
          div_le_div_of_nonneg_right (by linarith) (by norm_num)
        have hAbs := le_abs_self (noise rng noiseM).1
        norm_num at hBound hEps ⊢
        linarith
      have hDist := wirePoint_dist i _ (le_trans (by norm_num) hLow) hHigh
      refine ⟨wirePoint_angle _ hi, fun hNone => ?_, fun d' hd => ⟨?_, ?_, ?_⟩⟩
      · rw [hEcho] at hNone
        cases hNone
      · intro hZero
        have hBelow := (abs_le.mp hDist).1
        have hNone : ((0 : UInt16).toNat : ℝ) = 0 := Nat.cast_zero
        rw [hZero, hNone] at hBelow
        linarith
      · have hPos : max (d + (noise rng noiseM).1) 0.05 > 0.0 :=
          lt_of_lt_of_le (by norm_num) hLow
        show (if max (d + (noise rng noiseM).1) 0.05 > 0.0 then (47 : UInt8) else 0) ≠ 0
        rw [if_pos hPos]
        decide
      · rw [hEcho] at hd
        cases hd
        refine (abs_sub_le _ (max (d + (noise rng noiseM).1) 0.05) _).trans (add_le_add hDist ?_)
        exact abs_max_sub_le.trans (add_le_add_left hEps _)

/-! ## A frame -/

theorem beams_tell {noiseM : ℝ} (hNoise : |noiseM| ≤ 1) (maxPoints : Nat) (p : CarPose ℝ)
    (rng : UInt64) : List.Forall₂ (TellsOf noiseM p) (List.range (min 500 maxPoints))
      (beams maxPoints noiseM p rng).1 := by
  have hLoop : ∀ n ≤ 500, List.Forall₂ (TellsOf noiseM p) (List.range (min n maxPoints))
      ((List.range n).foldl (fun (q : List ScanPoint × UInt64) i =>
        (if q.1.length < maxPoints then q.1 ++ [(beam noiseM p q.2 i).1] else q.1,
          (beam noiseM p q.2 i).2)) ([], rng)).1 := by
    intro n hn
    induction n with
    | zero =>
        rw [Nat.zero_min]
        exact .nil
    | succ n ih =>
        have hPast := ih (by omega)
        have hLength := hPast.length_eq
        rw [List.length_range] at hLength
        rw [List.range_succ, List.foldl_append]
        generalize (List.range n).foldl (fun (q : List ScanPoint × UInt64) i =>
          (if q.1.length < maxPoints then q.1 ++ [(beam noiseM p q.2 i).1] else q.1,
            (beam noiseM p q.2 i).2)) ([], rng) = q at hPast hLength
        show List.Forall₂ _ _ (if q.1.length < maxPoints then q.1 ++ [(beam noiseM p q.2 n).1]
          else q.1)
        split
        · rename_i hRoom
          have hCount : min (n + 1) maxPoints = n + 1 := by omega
          have hBefore : min n maxPoints = n := by omega
          rw [hBefore] at hPast
          rw [hCount, List.range_succ]
          exact List.rel_append hPast (.cons (beam_tells hNoise p q.2 (by omega)) .nil)
        · rename_i hFull
          have hCount : min (n + 1) maxPoints = min n maxPoints := by omega
          rw [hCount]
          exact hPast
  exact hLoop 500 le_rfl

/-- What `olivaw_proto` and `olivaw_slam` compute, in exact arithmetic. -/
structure ExactLib {S : Type} (lib : SlamLib S ℝ) : Prop where
  invalid : ∀ p : ScanPoint, p.distQ2 = 0 → lib.isValid p = false
  valid : ∀ p : ScanPoint, p.distQ2 ≠ 0 → p.quality ≠ 0 → lib.isValid p = true
  distanceMm : ∀ p, lib.distanceMm p = p.distQ2.toNat / 4
  angleDeg : ∀ p, lib.angleDeg p = p.angleQ6.toNat / 64
  toRadians : ∀ a, lib.toRadians a = a * (π / 180)
  cos : ∀ a, lib.cos a = cos a
  sin : ∀ a, lib.sin a = sin a
  transformPoint : ∀ (pose : Pose2 ℝ) (q : Point2 ℝ), lib.transformPoint pose q =
    ⟨pose.x + (q.x * Real.cos pose.theta - q.y * Real.sin pose.theta),
      pose.y + (q.x * Real.sin pose.theta + q.y * Real.cos pose.theta)⟩

/-- A point as a complex number. -/
def Point2.toComplex (q : Point2 ℝ) : ℂ := ⟨q.x, q.y⟩

/-- The pose of the car as the matcher would give it. -/
def CarPose.toPose2 (p : CarPose ℝ) : Pose2 ℝ := ⟨p.x, p.y, p.theta⟩

/-- What the beam hits at distance `d`. -/
noncomputable def hitPoint (p : CarPose ℝ) (i : Nat) (d : ℝ) : ℂ :=
  ⟨p.x, p.y⟩ + polar d (beamBearing p i)

section Cloud

variable {S : Type} {lib : SlamLib S ℝ}

/-- The point of the cloud for a point of a frame. -/
noncomputable def cloudPoint (lib : SlamLib S ℝ) (point : ScanPoint) : Point2 ℝ :=
  ⟨lib.distanceMm point / 1000.0 * lib.cos (lib.toRadians (lib.angleDeg point)),
    -(lib.distanceMm point / 1000.0) * lib.sin (lib.toRadians (lib.angleDeg point))⟩

theorem points_scanFrameToCloud (lib : SlamLib S ℝ) (frame : ScanFrame) (timestampNs : UInt64) :
    (scanFrameToCloud lib frame timestampNs).points =
      (frame.points.filter lib.isValid).map (cloudPoint lib) := rfl

/-- Where a point of the frame is, seen from the pose `p`. -/
theorem place_cloudPoint (hLib : ExactLib lib) (p : CarPose ℝ) (point : ScanPoint) :
    (lib.transformPoint p.toPose2 (cloudPoint lib point)).toComplex =
      ⟨p.x, p.y⟩ + polar ((point.distQ2.toNat : ℝ) / 4000)
        (p.theta - (point.angleQ6.toNat : ℝ) / 64 * (π / 180)) := by
  rw [hLib.transformPoint]
  have hR : lib.distanceMm point / 1000.0 = (point.distQ2.toNat : ℝ) / 4000 := by
    rw [hLib.distanceMm]
    norm_num
    ring
  have hCloud : cloudPoint lib point =
      ⟨(point.distQ2.toNat : ℝ) / 4000 * Real.cos ((point.angleQ6.toNat : ℝ) / 64 * (π / 180)),
        -((point.distQ2.toNat : ℝ) / 4000) *
          Real.sin ((point.angleQ6.toNat : ℝ) / 64 * (π / 180))⟩ := by
    rw [cloudPoint, hR, hLib.toRadians, hLib.angleDeg, hLib.cos, hLib.sin]
  rw [hCloud]
  apply Complex.ext
  · rw [Complex.add_re, polar_re, Real.cos_sub]
    simp only [Point2.toComplex, CarPose.toPose2]
    ring
  · rw [Complex.add_im, polar_im, Real.sin_sub]
    simp only [Point2.toComplex, CarPose.toPose2]
    ring

/-- The units of the wire cost less than 2 mm. -/
theorem place_near_hit (hLib : ExactLib lib) {noiseM : ℝ} {p : CarPose ℝ} {i : Nat} {d : ℝ}
    {point : ScanPoint} (hTells : TellsOf noiseM p i point) (hEcho : echo p i = some d) :
    ‖(lib.transformPoint p.toPose2 (cloudPoint lib point)).toComplex - hitPoint p i d‖ ≤
      0.002 + slack noiseM d := by
  obtain ⟨hFront, hNear, -⟩ := echo_mem hEcho
  obtain ⟨-, -, hDist⟩ := hTells.hit d hEcho
  have hAngle : |p.theta - (point.angleQ6.toNat : ℝ) / 64 * (π / 180) - beamBearing p i| ≤
      1 / 128 * (π / 180) := by
    have hDiff : p.theta - (point.angleQ6.toNat : ℝ) / 64 * (π / 180) - beamBearing p i =
        -(((point.angleQ6.toNat : ℝ) / 64 - (i : ℝ) * 360.0 / 500.0) * (π / 180)) := by
      rw [beamBearing]
      norm_num
      ring
    rw [hDiff, abs_neg, abs_mul, abs_of_pos (div_pos pi_pos (by norm_num : (0 : ℝ) < 180))]
    exact mul_le_mul_of_nonneg_right hTells.angle (by positivity)
  have hArc : d * |p.theta - (point.angleQ6.toNat : ℝ) / 64 * (π / 180) - beamBearing p i| ≤
      12 * (1 / 128 * (3.15 / 180)) := by
    refine mul_le_mul hNear.le (hAngle.trans ?_) (abs_nonneg _) (by norm_num)
    have hPi := pi_lt_d2
    linarith
  rw [place_cloudPoint hLib, hitPoint, add_sub_add_left_eq_sub]
  refine (norm_polar_sub_le hFront.le).trans ?_
  norm_num at hArc ⊢
  linarith

end Cloud

/-! ## A run -/

/-- The points of the cloud are near what the beams hit, one for each beam that hits a wall. -/
def OnWalls {S : Type} (lib : SlamLib S ℝ) (noiseM : ℝ) (maxPoints : Nat) (p : CarPose ℝ)
    (cloud : List (Point2 ℝ)) : Prop :=
  List.Forall₂ (fun i q => ∃ d, echo p i = some d ∧
      (∃ w ∈ walls, w.Meets (p.x, p.y) (cos (beamBearing p i), sin (beamBearing p i)) d) ∧
      ‖(lib.transformPoint p.toPose2 q).toComplex - hitPoint p i d‖ ≤ 0.002 + slack noiseM d)
    ((List.range (min 500 maxPoints)).filter fun i => (echo p i).isSome) cloud

theorem onWalls_frame {S : Type} {lib : SlamLib S ℝ} (hLib : ExactLib lib) {noiseM : ℝ}
    (hNoise : |noiseM| ≤ 1) (maxPoints : Nat) (p : CarPose ℝ) (rng : UInt64) {frame : ScanFrame}
    (hPoints : frame.points = (beams maxPoints noiseM p rng).1) (timestampNs : UInt64) :
    OnWalls lib noiseM maxPoints p (scanFrameToCloud lib frame timestampNs).points := by
  rw [OnWalls, points_scanFrameToCloud, hPoints, List.forall₂_map_right_iff]
  have hTell := beams_tell hNoise maxPoints p rng
  have hValid : ∀ i point, TellsOf noiseM p i point →
      ((echo p i).isSome = true ↔ lib.isValid point = true) := by
    intro i point hTells
    cases hEcho : echo p i with
    | none => simp [hLib.invalid point (hTells.miss hEcho)]
    | some d =>
        obtain ⟨hDist, hQuality, -⟩ := hTells.hit d hEcho
        simp [hLib.valid point hDist hQuality]
  have hHits := List.rel_filter (fun i point h => hValid i point h) hTell
  have hSome : ∀ i ∈ (List.range (min 500 maxPoints)).filter fun i => (echo p i).isSome,
      (echo p i).isSome = true := fun i hi => (List.mem_filter.mp hi).2
  refine ((List.forall₂_and_left _ _).mpr ⟨hSome, hHits⟩).imp ?_
  rintro i point ⟨hHit, hTells⟩
  obtain ⟨d, hEcho⟩ := Option.isSome_iff_exists.mp hHit
  exact ⟨d, hEcho, (echo_mem hEcho).2.2, place_near_hit hLib hTells hEcho⟩

variable {T : Type} {crate : SimCrate T} {cfg : SimConfig ℝ}

/-- The scans that a step sends, each with the pose in which it was taken: a turn moves the car
before it casts the beams, and not afterwards. -/
noncomputable def Sim.shots (crate : SimCrate T) (cfg : SimConfig ℝ) (s : Sim ℝ T) (l : SimLabel) :
    List (ScanFrame × CarPose ℝ) :=
  match (sim crate cfg).step s l with
  | some s' => ((s'.sent.drop s.sent.length).filterMap CarEvent.scan?).map fun frame =>
      (frame, s'.pose)
  | none => []

/-- The scans of a run, in the order in which they are sent. -/
noncomputable def shotsOf (crate : SimCrate T) (cfg : SimConfig ℝ) (labels : List SimLabel) :
    List (ScanFrame × CarPose ℝ) :=
  (sim crate cfg).outputs (Sim.shots crate cfg) Sim.new labels

variable {s s' : Sim ℝ T} {l : SimLabel}

/-- What a step sends is at the end, and its scans tell of the pose that it leaves. -/
theorem sim_step_sends (hStep : (sim crate cfg).step s l = some s') :
    ∃ more rng, s'.sent = s.sent ++ more ∧ ∀ frame ∈ more.filterMap CarEvent.scan?,
      frame.points = (beams crate.maxPoints cfg.noiseM s'.pose rng).1 := by
  cases l with
  | start atMs isOpen =>
      obtain ⟨-, hStart⟩ := Option.ite_none_right_eq_some.mp hStep
      cases hStart
      unfold Sim.start
      split
      · exact ⟨[], 0, (List.append_nil _).symm, by simp⟩
      · exact ⟨[], 0, (List.append_nil _).symm, by simp⟩
      · refine ⟨_, 0, rfl, ?_⟩
        cases isOpen <;> simp [CarEvent.scan?]
  | tick t =>
      obtain ⟨-, hTick⟩ := Option.ite_none_right_eq_some.mp hStep
      obtain ⟨err, -, rfl⟩ := Option.map_eq_some_iff.mp hTick
      generalize hPose : ({ s with pose := drive cfg.speedMps cfg.dt err s.pose } : Sim ℝ T) =
        moved
      have hSent : moved.sent = s.sent := by rw [← hPose]
      obtain ⟨hSame, -, -, hEnd⟩ := report_sends crate cfg moved err t
      rw [hSame, ← hSent]
      rcases hEnd with ⟨-, -, hEq⟩ | ⟨-, -, hEq⟩ | ⟨-, ⟨-, hEq⟩ | ⟨r, -, hEq⟩⟩
      · exact ⟨[], 0, hEq.trans (List.append_nil _).symm, by simp⟩
      all_goals
        refine ⟨_, moved.rng, hEq, fun frame hFrame => ?_⟩
        obtain rfl : frame = moved.frame crate cfg := by simpa [CarEvent.scan?] using hFrame
        rw [Sim.frame]

/-- The scans of a step, and the pose of each. -/
theorem shots_of_step (hStep : (sim crate cfg).step s l = some s') :
    s'.sent.filterMap CarEvent.scan? =
        s.sent.filterMap CarEvent.scan? ++ (s.shots crate cfg l).map Prod.fst ∧
      ∀ shot ∈ s.shots crate cfg l,
        ∃ rng, shot.1.points = (beams crate.maxPoints cfg.noiseM shot.2 rng).1 := by
  obtain ⟨more, rng, hSent, hTell⟩ := sim_step_sends hStep
  have hShots : s.shots crate cfg l =
      (more.filterMap CarEvent.scan?).map fun frame => (frame, s'.pose) := by
    simp only [Sim.shots, hStep, hSent, List.drop_left]
  rw [hShots]
  refine ⟨?_, fun shot hShot => ?_⟩
  · rw [hSent, List.filterMap_append, List.map_map]
    exact congrArg _ (List.map_id _).symm
  · obtain ⟨frame, hFrame, rfl⟩ := List.mem_map.mp hShot
    exact ⟨rng, hTell frame hFrame⟩

/-- The shots of a run are its scans, each from where the car was. -/
theorem shots_of_run {labels : List SimLabel}
    (hRun : (sim crate cfg).exec Sim.new labels = some s) :
    (shotsOf crate cfg labels).map Prod.fst = s.sent.filterMap CarEvent.scan? ∧
      ∀ shot ∈ shotsOf crate cfg labels,
        ∃ rng, shot.1.points = (beams crate.maxPoints cfg.noiseM shot.2 rng).1 := by
  refine Machine.exec_history (P := fun past s =>
    (shotsOf crate cfg past).map Prod.fst = s.sent.filterMap CarEvent.scan? ∧
      ∀ shot ∈ shotsOf crate cfg past,
        ∃ rng, shot.1.points = (beams crate.maxPoints cfg.noiseM shot.2 rng).1) ?_ ?_ hRun
  · exact ⟨rfl, by simp [shotsOf, Machine.outputs]⟩
  intro past s l s' hPast ih hStep
  obtain ⟨hScans, hTell⟩ := ih
  obtain ⟨hMore, hNew⟩ := shots_of_step hStep
  have hShots : shotsOf crate cfg (past ++ [l]) = shotsOf crate cfg past ++ s.shots crate cfg l :=
    Machine.outputs_concat _ hPast l
  rw [hShots]
  refine ⟨?_, fun shot hShot => ?_⟩
  · rw [List.map_append, hScans, hMore]
  · rcases List.mem_append.mp hShot with hOld | hLast
    · exact hTell shot hOld
    · exact hNew shot hLast

/-- **Scans show walls.** Let the noise be at most a metre. The scans sent in a run of the simulator
are its shots, in order, and each is seen from the pose that the car has in the turn that sends it:
the hub's cloud of it has one point for each beam that hits a wall from there, in order, and placed
at that pose the point is within 2 mm, and the noise, of what the beam hits; what is nearer than
5 cm may be off by what it lacks of these. -/
theorem scans_show_walls {S : Type} (lib : SlamLib S ℝ) (hLib : ExactLib lib)
    (crate : SimCrate T) (cfg : SimConfig ℝ) (hNoise : |cfg.noiseM| ≤ 1) (labels : List SimLabel)
    (s : Sim ℝ T) (hRun : (sim crate cfg).exec Sim.new labels = some s) (timestampNs : UInt64) :
    (shotsOf crate cfg labels).map Prod.fst = s.sent.filterMap CarEvent.scan? ∧
      ∀ shot ∈ shotsOf crate cfg labels, OnWalls lib cfg.noiseM crate.maxPoints shot.2
        (scanFrameToCloud lib shot.1 timestampNs).points := by
  obtain ⟨hScans, hTell⟩ := shots_of_run hRun
  refine ⟨hScans, fun shot hShot => ?_⟩
  obtain ⟨rng, hPoints⟩ := hTell shot hShot
  exact onWalls_frame hLib hNoise _ _ rng hPoints timestampNs

/-- The crates in exact arithmetic; the matcher gives the pose it had. -/
noncomputable def exactLib : SlamLib (Pose2 ℝ) ℝ where
  isValid p := p.distQ2 ≠ 0
  distanceMm p := p.distQ2.toNat / 4
  angleDeg p := p.angleQ6.toNat / 64
  toRadians a := a * (π / 180)
  cos := Real.cos
  sin := Real.sin
  processScan pose _ := (some pose, pose)
  transformPoint pose q :=
    ⟨pose.x + (q.x * Real.cos pose.theta - q.y * Real.sin pose.theta),
      pose.y + (q.x * Real.sin pose.theta + q.y * Real.cos pose.theta)⟩
  keyframes _ := 0
  loopsClosed _ := 0
  grid _ := ⟨1, 1, [0], ⟨0, 0⟩, 1⟩
  paint := ⟨Real.exp, fun r => .ofNat (SimFloat.asInt 0 255 (SimFloat.round r)).toNat,
    fun _ _ gray => some gray⟩

theorem exactLib_exact : ExactLib exactLib where
  invalid p h := by simp [exactLib, h]
  valid p h _ := by simp [exactLib, h]
  distanceMm _ := rfl
  angleDeg _ := rfl
  toRadians _ := rfl
  cos _ := rfl
  sin _ := rfl
  transformPoint _ _ := rfl

theorem demoConfig_noise : |demoConfig.noiseM| ≤ 1 := by
  show |(0.01 : ℝ)| ≤ 1
  rw [abs_of_pos] <;> norm_num

theorem scans_show_walls_demo : ∃ (labels : List SimLabel) (s : Sim ℝ SimReadings),
    (sim ⟨720, id⟩ demoConfig).exec Sim.new labels = some s ∧
    ∃ shot ∈ shotsOf (⟨720, id⟩ : SimCrate SimReadings) demoConfig labels,
      ⟨"sim-01", 8, .scan shot.1⟩ ∈ s.sent ∧
      OnWalls exactLib 0.01 720 shot.2 (scanFrameToCloud exactLib shot.1 0).points := by
  obtain ⟨s, hRun, hReport⟩ := demo_turn (⟨720, id⟩ : SimCrate SimReadings) 7 true
    ⟨0, 8, true, 9, true⟩
  obtain ⟨-, -, -, hEnd⟩ := report_sends (⟨720, id⟩ : SimCrate SimReadings) demoConfig
    ({ (Sim.new : Sim ℝ SimReadings).start demoConfig 7 true with
      pose := drive demoConfig.speedMps demoConfig.dt 0 (Sim.new : Sim ℝ SimReadings).pose } :
        Sim ℝ SimReadings) 0 ⟨0, 8, true, 9, true⟩
  rw [← hReport] at hEnd
  have hSent : ∃ frame, (⟨"sim-01", 8, .scan frame⟩ : CarEvent SimReadings) ∈ s.sent := by
    rcases hEnd with ⟨hClosed, -⟩ | ⟨-, -, hEq⟩ | ⟨-, ⟨-, hEq⟩ | ⟨r, -, hEq⟩⟩
    · cases hClosed
    · exact ⟨_, hEq ▸ List.mem_append_right _ List.mem_cons_self⟩
    · exact ⟨_, hEq ▸ List.mem_append_right _ List.mem_cons_self⟩
    · exact ⟨_, hEq ▸ List.mem_append_right _ List.mem_cons_self⟩
  obtain ⟨frame, hFrame⟩ := hSent
  obtain ⟨hScans, hWalls⟩ := scans_show_walls exactLib exactLib_exact
    (⟨720, id⟩ : SimCrate SimReadings) demoConfig demoConfig_noise _ s hRun 0
  have hShot : frame ∈ (shotsOf (⟨720, id⟩ : SimCrate SimReadings) demoConfig
      (.start 7 true :: [(⟨0, 8, true, 9, true⟩ : SimTurn)].map .tick)).map Prod.fst := by
    rw [hScans]
    exact List.mem_filterMap.mpr ⟨_, hFrame, rfl⟩
  obtain ⟨shot, hMem, rfl⟩ := List.mem_map.mp hShot
  exact ⟨_, s, hRun, shot, hMem, hFrame, hWalls shot hMem⟩

end OlivawHub
