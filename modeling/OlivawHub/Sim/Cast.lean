import OlivawHub.Foundations.Nearest
import Mathlib.Algebra.Field.Rat
import Mathlib.Algebra.Order.Field.Rat
import Mathlib.Algebra.Module.Prod
import Mathlib.Data.Rat.Cast.OfScientific
import Mathlib.Tactic.Linarith
import Mathlib.Tactic.LinearCombination
import Mathlib.Tactic.Module
import Mathlib.Tactic.NormNum.OfScientific

/-!
# The ray of the simulated lidar

`walls` and the loop of `cast` in `room.rs`, for any numbers with the operations that the loop
uses; `castAlong` takes the direction in place of the bearing. In an ordered field the result is the
least parameter at which the ray meets a wall (`castAlong_nearest`). The direction need not be a
unit vector for that.
-/

namespace OlivawHub

open Foundations

/-- Line segment, metres. -/
structure Wall (F : Type) where
  a : F × F
  b : F × F
  deriving DecidableEq, Repr

section Source

variable {F : Type}

def rect (x0 y0 x1 y1 : F) : List (Wall F) :=
  [⟨(x0, y0), (x1, y0)⟩, ⟨(x1, y0), (x1, y1)⟩, ⟨(x1, y1), (x0, y1)⟩, ⟨(x0, y1), (x0, y0)⟩]

def walls [OfScientific F] : List (Wall F) :=
  rect 0.0 0.0 7.0 5.0 ++
    rect 2.0 1.0 2.8 1.8 ++ -- a box
    rect 4.5 3.0 5.5 4.2 ++ -- a table
    rect 6.2 0.0 7.0 1.5 -- a corner cupboard

variable [Add F] [Sub F] [Mul F] [Div F] [Neg F] [Max F] [LT F] [LE F] [DecidableLT F]
  [DecidableLE F] [OfScientific F]

/-- One turn of the loop of `cast`. -/
def castWall (o d : F × F) (best : F) (w : Wall F) : F :=
  let ex := w.b.1 - w.a.1
  let ey := w.b.2 - w.a.2
  let denom := d.1 * ey - d.2 * ex
  if max denom (-denom) < 1e-9 then best
  else
    let fx := w.a.1 - o.1
    let fy := w.a.2 - o.2
    let t := (fx * ey - fy * ex) / denom
    let u := (fx * d.2 - fy * d.1) / denom
    if t > 1e-9 ∧ (-1e-6 ≤ u ∧ u ≤ 1.0 + 1e-6) ∧ t < best then t else best

/-- `cast`, in the direction `d`. -/
def castAlong (o d : F × F) (walls : List (Wall F)) (max : F) : Option F :=
  let best := walls.foldl (castWall o d) max
  if best < max then some best else none

end Source

variable {K : Type} [Field K] [LinearOrder K]

def cross (v w : K × K) : K := v.1 * w.2 - v.2 * w.1

def Wall.swap (w : Wall K) : Wall K := ⟨w.b, w.a⟩

/-- The line of `w` is not nearly parallel to the ray, which meets it at `t`, between the ends of
`w` or a little outside. -/
structure Wall.Meets (o d : K × K) (t : K) (w : Wall K) : Prop where
  notParallel : 1e-9 ≤ |cross d (w.b - w.a)|
  point : ∃ u : K, -1e-6 ≤ u ∧ u ≤ 1 + 1e-6 ∧ o + t • d = w.a + u • (w.b - w.a)

/-- The parameters at which the ray meets a wall. -/
def hits (o d : K × K) (walls : List (Wall K)) (max : K) : Set K :=
  {t | 1e-9 < t ∧ t < max ∧ ∃ w ∈ walls, w.Meets o d t}

omit [LinearOrder K] in
/-- Both parameters of the meeting point of two lines. -/
theorem meeting_point_iff {o d a e : K × K} {t u : K} (h : cross d e ≠ 0) :
    o + t • d = a + u • e ↔
      t = cross (a - o) e / cross d e ∧ u = cross (a - o) d / cross d e := by
  have hCross : d.1 * e.2 - d.2 * e.1 ≠ 0 := h
  rw [eq_div_iff h, eq_div_iff h]
  simp only [cross, Prod.ext_iff, Prod.fst_add, Prod.snd_add, Prod.smul_fst, Prod.smul_snd,
    Prod.fst_sub, Prod.snd_sub, smul_eq_mul]
  constructor
  · rintro ⟨hx, hy⟩
    constructor
    · linear_combination e.2 * hx - e.1 * hy
    · linear_combination d.2 * hx - d.1 * hy
  · rintro ⟨ht, hu⟩
    constructor
    · apply mul_left_cancel₀ hCross
      linear_combination d.1 * ht - e.1 * hu
    · apply mul_left_cancel₀ hCross
      linear_combination d.2 * ht - e.2 * hu

/-- The parameter at which the loop finds a wall. -/
def Wall.hit? (o d : K × K) (w : Wall K) : Option K :=
  let e := w.b - w.a
  let t := cross (w.a - o) e / cross d e
  let u := cross (w.a - o) d / cross d e
  if 1e-9 ≤ |cross d e| ∧ 1e-9 < t ∧ -1e-6 ≤ u ∧ u ≤ 1 + 1e-6 then some t else none

variable {o d : K × K} {t max : K} {w : Wall K} {ws ws' : List (Wall K)}

theorem hits_mono (h : ws ⊆ ws') : hits o d ws max ⊆ hits o d ws' max :=
  fun _ ⟨hFront, hLt, w, hw, hMeets⟩ => ⟨hFront, hLt, w, h hw, hMeets⟩

section Fields

variable [IsStrictOrderedRing K]

theorem cross_ne_zero {v w : K × K} (h : 1e-9 ≤ |cross v w|) : cross v w ≠ 0 :=
  abs_pos.mp (lt_of_lt_of_le (by norm_num) h)

theorem Wall.hit?_eq_some_iff : w.hit? o d = some t ↔ 1e-9 < t ∧ w.Meets o d t := by
  simp only [hit?]
  split
  · rename_i hHit
    obtain ⟨hParallel, hFront, hLow, hHigh⟩ := hHit
    have hCross := cross_ne_zero hParallel
    rw [Option.some.injEq]
    constructor
    · rintro rfl
      exact ⟨hFront, hParallel, _, hLow, hHigh, (meeting_point_iff hCross).mpr ⟨rfl, rfl⟩⟩
    · rintro ⟨-, -, u, -, -, hPoint⟩
      exact ((meeting_point_iff hCross).mp hPoint).1.symm
  · rename_i hMiss
    refine ⟨nofun, fun ⟨hFront, hMeets⟩ => absurd ?_ hMiss⟩
    obtain ⟨u, hLow, hHigh, hPoint⟩ := hMeets.point
    obtain ⟨rfl, rfl⟩ := (meeting_point_iff (cross_ne_zero hMeets.notParallel)).mp hPoint
    exact ⟨hMeets.notParallel, hFront, hLow, hHigh⟩

theorem Wall.Meets.swap (h : w.Meets o d t) : w.swap.Meets o d t := by
  obtain ⟨u, hLow, hHigh, hPoint⟩ := h.point
  have hFlip : cross d (w.a - w.b) = -cross d (w.b - w.a) := by
    simp only [cross, Prod.fst_sub, Prod.snd_sub]
    ring
  refine ⟨?_, 1 - u, by linarith, by linarith, ?_⟩
  · rw [Wall.swap, hFlip, abs_neg]
    exact h.notParallel
  · rw [hPoint, Wall.swap]
    module

theorem Wall.meets_swap : w.swap.Meets o d t ↔ w.Meets o d t :=
  ⟨fun h => h.swap, fun h => h.swap⟩

theorem castWall_eq (best : K) :
    castWall o d best w = (w.hit? o d).elim best fun t => if t < best then t else best := by
  have hOne : (1.0 : K) = 1 := by norm_num
  have hTurn : castWall o d best w =
      let c := cross d (w.b - w.a)
      let t := cross (w.a - o) (w.b - w.a) / c
      let u := cross (w.a - o) d / c
      if |c| < 1e-9 then best
      else if 1e-9 < t ∧ (-1e-6 ≤ u ∧ u ≤ 1.0 + 1e-6) ∧ t < best then t else best := rfl
  simp only [hTurn, Wall.hit?, hOne]
  by_cases hParallel : |cross d (w.b - w.a)| < 1e-9
  · rw [if_pos hParallel, if_neg fun hHit => absurd hParallel (not_lt.mpr hHit.1)]
    rfl
  · rw [if_neg hParallel]
    simp only [not_lt.mp hParallel, true_and]
    split <;> split <;> simp_all

theorem castAlong_eq : castAlong o d ws max = nearest max (ws.filterMap (Wall.hit? o d)) := by
  have hFold : ∀ best, ws.foldl (castWall o d) best =
      runningMin best (ws.filterMap (Wall.hit? o d)) := by
    induction ws with
    | nil => exact fun _ => rfl
    | cons w ws ih =>
        intro best
        rw [List.foldl_cons, castWall_eq, List.filterMap_cons, ih]
        cases w.hit? o d <;> rfl
  simp only [castAlong, nearest, hFold]

theorem mem_hits : t ∈ hits o d ws max ↔ t ∈ ws.filterMap (Wall.hit? o d) ∧ t < max := by
  simp only [hits, Set.mem_ofPred_eq, List.mem_filterMap, Wall.hit?_eq_some_iff]
  constructor
  · rintro ⟨hFront, hLt, w, hw, hMeets⟩
    exact ⟨⟨w, hw, hFront, hMeets⟩, hLt⟩
  · rintro ⟨⟨w, hw, hFront, hMeets⟩, hLt⟩
    exact ⟨hFront, hLt, w, hw, hMeets⟩

/-- The least parameter at which the ray meets a wall. -/
theorem castAlong_eq_some_iff : castAlong o d ws max = some t ↔ IsLeast (hits o d ws max) t := by
  have hHits : hits o d ws max = {t | t ∈ ws.filterMap (Wall.hit? o d) ∧ t < max} :=
    Set.ext fun _ => mem_hits
  rw [castAlong_eq, nearest_eq_some_iff, hHits]

theorem castAlong_eq_none_iff : castAlong o d ws max = none ↔ hits o d ws max = ∅ := by
  rw [castAlong_eq, nearest_eq_none_iff, Set.eq_empty_iff_forall_notMem]
  simp only [mem_hits, not_and]

/-- The result is a matter of where the ray meets the walls. -/
theorem castAlong_congr (h : hits o d ws max = hits o d ws' max) :
    castAlong o d ws max = castAlong o d ws' max := by
  apply Option.ext
  intro t
  rw [castAlong_eq_some_iff, castAlong_eq_some_iff, h]

theorem hits_turned (h : List.Forall₂ (fun w w' => w' = w ∨ w' = w.swap) ws ws') :
    hits o d ws' max = hits o d ws max := by
  ext t
  have hMeets : (∃ w ∈ ws', w.Meets o d t) ↔ ∃ w ∈ ws, w.Meets o d t := by
    induction h with
    | nil => rfl
    | cons hTurn _ ih =>
        simp only [List.exists_mem_cons_iff, ih]
        rcases hTurn with rfl | rfl
        · rfl
        · rw [Wall.meets_swap]
  simp only [hits, Set.mem_ofPred_eq, hMeets]

theorem castAlong_closer (h : ws ⊆ ws') (hHit : castAlong o d ws max = some t) :
    ∃ t' ≤ t, castAlong o d ws' max = some t' := by
  have hMem : t ∈ hits o d ws' max := hits_mono h (castAlong_eq_some_iff.mp hHit).1
  cases hCast : castAlong o d ws' max with
  | none =>
      rw [castAlong_eq_none_iff.mp hCast] at hMem
      cases hMem
  | some t' => exact ⟨t', (castAlong_eq_some_iff.mp hCast).2 hMem, rfl⟩

end Fields

/-- **Ray casting.** The ray finds the nearest wall it meets before `max`. Neither the order of the
walls nor that of their ends matters, and more walls do not make the distance larger. -/
theorem castAlong_nearest [IsStrictOrderedRing K] (o d : K × K) (ws : List (Wall K)) (max : K) :
    (∀ t, castAlong o d ws max = some t ↔ IsLeast (hits o d ws max) t) ∧
    ((castAlong o d ws max).isSome ↔ (hits o d ws max).Nonempty) ∧
    (∀ ws', ws.Perm ws' → castAlong o d ws' max = castAlong o d ws max) ∧
    (∀ ws', List.Forall₂ (fun w w' => w' = w ∨ w' = w.swap) ws ws' →
      castAlong o d ws' max = castAlong o d ws max) ∧
    ∀ ws', ws ⊆ ws' → ∀ t, castAlong o d ws max = some t →
      ∃ t' ≤ t, castAlong o d ws' max = some t' := by
  refine ⟨fun t => castAlong_eq_some_iff, ?_, fun ws' h => ?_, fun ws' h => ?_,
    fun ws' h t hHit => castAlong_closer h hHit⟩
  · rw [← Option.ne_none_iff_isSome, Ne, castAlong_eq_none_iff, Set.nonempty_iff_ne_empty]
  · exact castAlong_congr ((hits_mono h.symm.subset).antisymm (hits_mono h.subset))
  · exact castAlong_congr (hits_turned h)

/-- From `(3.5, 2.5)` the east wall is 3.5 m away. -/
theorem castAlong_east :
    castAlong ((7 / 2, 5 / 2) : ℚ × ℚ) (1, 0) walls 20 = some (7 / 2) ∧
    IsLeast (hits ((7 / 2, 5 / 2) : ℚ × ℚ) (1, 0) walls 20) (7 / 2) := by
  have hCast : castAlong ((7 / 2, 5 / 2) : ℚ × ℚ) (1, 0) walls 20 = some (7 / 2) := by
    decide +kernel
  exact ⟨hCast, ((castAlong_nearest _ _ _ _).1 _).mp hCast⟩

end OlivawHub
