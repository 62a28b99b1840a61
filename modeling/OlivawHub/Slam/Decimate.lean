import OlivawHub.Slam.Worker
import Mathlib.Data.List.Induction

/-!
# Decimation

`decimate` divides with rounding down and then takes every `step`-th point, which rounds up. So
its output is longer than the cap unless the input is no longer than the cap or a multiple of it
(`length_decimate_le_iff`).
-/

namespace OlivawHub

section StepBy

variable {α : Type} {step : Nat}

theorem stepBy_concat (step : Nat) (l : List α) (a : α) :
    stepBy step (l ++ [a]) = stepBy step l ++ if l.length % step = 0 then [a] else [] := by
  simp only [stepBy, List.zipIdx_append, List.filter_append, List.map_append, Nat.zero_add]
  congr 1
  by_cases h : l.length % step = 0
  · simp [h]
  · simp [h]

theorem lt_length_of_getElem? {l l' : List α} (h : ∀ i : Nat, l'[i]? = l[i * step]?) (i : Nat) :
    i < l'.length ↔ i * step < l.length := by
  rw [← Nat.not_le, ← Nat.not_le, ← List.getElem?_eq_none_iff, ← List.getElem?_eq_none_iff, h]

/-- The `i`-th element taken is the one at `i * step`. -/
theorem getElem?_stepBy (hStep : 0 < step) (l : List α) (i : Nat) :
    (stepBy step l)[i]? = l[i * step]? := by
  induction l using List.reverseRecOn generalizing i with
  | nil => simp [stepBy]
  | append_singleton l a ih =>
      have hLength := lt_length_of_getElem? ih
      rw [stepBy_concat]
      by_cases hInside : i * step < l.length
      · rw [List.getElem?_append_left ((hLength i).mpr hInside), ih,
          List.getElem?_append_left hInside]
      · have hOutside : (stepBy step l).length ≤ i := Nat.not_lt.mp fun h =>
          hInside ((hLength i).mp h)
        rw [List.getElem?_append_right hOutside, List.getElem?_append_right (Nat.not_lt.mp hInside)]
        by_cases hLast : l.length = i * step
        · -- `a` stands at `i * step`, and all elements before it are taken
          have hAll : i ≤ (stepBy step l).length := by
            refine Nat.le_of_not_lt fun hLess => ?_
            have hBefore := (hLength (stepBy step l).length).mpr ?_
            · exact Nat.lt_irrefl _ hBefore
            · rw [hLast]
              exact Nat.mul_lt_mul_of_pos_right hLess hStep
          rw [if_pos (by rw [hLast, Nat.mul_mod_left]), hLast, Nat.sub_self,
            Nat.sub_eq_zero_of_le hAll]
        · have hBeyond : l.length < i * step := by omega
          have hRight : [a][i * step - l.length]? = none := by
            rw [List.getElem?_eq_none_iff, List.length_singleton]
            omega
          rw [hRight, List.getElem?_eq_none_iff]
          split
          · rename_i hMod
            obtain ⟨q, hq⟩ := Nat.dvd_of_mod_eq_zero hMod
            rw [Nat.mul_comm] at hq
            have hTaken : (stepBy step l).length ≤ q := Nat.le_of_not_lt fun h =>
              Nat.lt_irrefl _ (hq ▸ (hLength q).mp h)
            have hLess : q < i := Nat.lt_of_mul_lt_mul_right (hq ▸ hBeyond)
            rw [List.length_singleton]
            omega
          · simp

/-- Rounding up. -/
theorem lt_ceil_iff (hStep : 0 < step) (i n : Nat) :
    i < (n + step - 1) / step ↔ i * step < n := by
  rw [Nat.lt_iff_add_one_le, Nat.le_div_iff_mul_le hStep, Nat.succ_mul]
  omega

theorem length_stepBy (hStep : 0 < step) (l : List α) :
    (stepBy step l).length = (l.length + step - 1) / step := by
  have hSame : ∀ i, i < (stepBy step l).length ↔ i < (l.length + step - 1) / step := by
    intro i
    rw [lt_ceil_iff hStep, lt_length_of_getElem? (getElem?_stepBy hStep l)]
  have hLeft := hSame (stepBy step l).length
  have hRight := hSame ((l.length + step - 1) / step)
  omega

end StepBy

/-- The step of `decimate`. -/
def decimateStep (len cap : Nat) : Nat := max (len / max cap 1) 1

theorem decimateStep_pos (len cap : Nat) : 0 < decimateStep len cap := by
  unfold decimateStep
  omega

/-- With this step no more than `cap` elements are taken just when nothing is left out or nothing
is left over. -/
theorem ceil_decimateStep_le_iff {len cap : Nat} (hCap : 1 ≤ cap) :
    (len + decimateStep len cap - 1) / decimateStep len cap ≤ cap ↔ len ≤ cap ∨ cap ∣ len := by
  rw [← Nat.not_lt, lt_ceil_iff (decimateStep_pos _ _), Nat.not_lt, decimateStep,
    Nat.max_eq_left hCap]
  have hDiv := Nat.div_mul_le_self len cap
  rcases Nat.lt_or_ge len cap with hShort | hLong
  · rw [Nat.div_eq_of_lt hShort, Nat.max_eq_right (Nat.zero_le 1), Nat.mul_one]
    exact ⟨Or.inl, fun _ => Nat.le_of_lt hShort⟩
  · rw [Nat.max_eq_left (Nat.div_pos hLong hCap), Nat.mul_comm]
    constructor
    · intro h
      exact Or.inr ⟨len / cap, by rw [Nat.mul_comm]; exact Nat.le_antisymm h hDiv⟩
    · rintro (hEq | hDvd)
      · rw [Nat.le_antisymm hEq hLong, Nat.div_self hCap, Nat.one_mul]
      · rw [Nat.div_mul_cancel hDvd]

variable {S F : Type} [HubFloat F] (lib : SlamLib S F)

/-- A point in the map frame, as it is forwarded. -/
def mapPoint (pose : Pose2 F) (p : Point2 F) : F × F :=
  (HubFloat.asF32 (lib.transformPoint pose p).x, HubFloat.asF32 (lib.transformPoint pose p).y)

theorem decimate_eq (points : List (Point2 F)) (pose : Pose2 F) (cap : Nat) :
    decimate lib points pose cap =
      (stepBy (decimateStep points.length cap) points).map (mapPoint lib pose) := rfl

theorem getElem?_decimate (points : List (Point2 F)) (pose : Pose2 F) (cap i : Nat) :
    (decimate lib points pose cap)[i]? =
      (points[i * decimateStep points.length cap]?).map (mapPoint lib pose) := by
  rw [decimate_eq, List.getElem?_map, getElem?_stepBy (decimateStep_pos _ _)]

theorem decimateStep_of_le {len cap : Nat} (hCap : 1 ≤ cap) (h : len ≤ cap) :
    decimateStep len cap = 1 := by
  have hDiv : len / cap ≤ 1 := Nat.div_le_of_le_mul (by omega)
  rw [decimateStep, Nat.max_eq_left hCap, Nat.max_eq_right hDiv]

theorem decimate_of_le {points : List (Point2 F)} {pose : Pose2 F} {cap : Nat} (hCap : 1 ≤ cap)
    (h : points.length ≤ cap) : decimate lib points pose cap = points.map (mapPoint lib pose) := by
  refine List.ext_getElem? fun i => ?_
  rw [getElem?_decimate, decimateStep_of_le hCap h, Nat.mul_one, List.getElem?_map]

theorem length_decimate_le_iff {points : List (Point2 F)} {pose : Pose2 F} {cap : Nat}
    (hCap : 1 ≤ cap) :
    (decimate lib points pose cap).length ≤ cap ↔ points.length ≤ cap ∨ cap ∣ points.length := by
  rw [decimate_eq, List.length_map, length_stepBy (decimateStep_pos _ _),
    ceil_decimateStep_le_iff hCap]

end OlivawHub
