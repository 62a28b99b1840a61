import Mathlib.Algebra.Order.Floor.Ring
import Mathlib.Data.Int.Log
import Mathlib.Data.Rat.Floor
import Mathlib.Data.Sign.Defs
import Mathlib.Tactic.FieldSimp
import Mathlib.Tactic.Linarith
import Mathlib.Tactic.Positivity
import Mathlib.Tactic.Ring

/-!
# Floats as exact numbers

The values of a float type if it did not round: the numbers of an ordered field, two infinities and
NaN. The operations are those of IEEE 754, except that there is only one zero, which counts as
positive. On numbers they are those of the field (`num_add` and the lemmas after it).

`fromSecsF64` makes a duration of nanoseconds from seconds, rounding to nearest with ties to even.
It panics (`none`) unless the seconds are a number from 0 up to, but less than, `2 ^ 64`.

Where rounding matters, `round64` takes a number to the nearest float of 64 bits, or to the even one
of two: 53 significant bits, and none below `2 ^ (-1074)`. It does not leave the powers of two
between which a number lies (`round64_le_zpow`, `zpow_le_round64`), and moves a number that is not
too small by at most one part in `2 ^ 53` (`abs_round64_sub_le`).
-/

namespace OlivawHub.Foundations

/-- `clamp`, which leaves NaN alone. -/
def clamp {F : Type} [LT F] [DecidableLT F] (a lo hi : F) : F :=
  if a < lo then lo else if a > hi then hi else a

/-- A number, an infinity or NaN. -/
inductive ExactFloat (K : Type) where
  | nan
  | negInf
  | num (k : K)
  | posInf
  deriving DecidableEq, Repr

namespace ExactFloat

variable {K : Type} [Field K] [LinearOrder K]

/-- The infinity of a sign; there is none of sign 0. -/
def infOf : SignType → ExactFloat K
  | .pos => posInf
  | .neg => negInf
  | .zero => nan

def sign : ExactFloat K → SignType
  | nan => 0
  | negInf => -1
  | num k => SignType.sign k
  | posInf => 1

instance : Add (ExactFloat K) where
  add
    | num a, num b => num (a + b)
    | nan, _ => nan
    | _, nan => nan
    | posInf, negInf => nan
    | negInf, posInf => nan
    | posInf, _ => posInf
    | _, posInf => posInf
    | negInf, _ => negInf
    | _, negInf => negInf

instance : Neg (ExactFloat K) where
  neg
    | nan => nan
    | negInf => posInf
    | num a => num (-a)
    | posInf => negInf

instance : Sub (ExactFloat K) := ⟨fun a b => a + -b⟩

instance : Mul (ExactFloat K) where
  mul
    | num a, num b => num (a * b)
    | nan, _ => nan
    | _, nan => nan
    | a, b => infOf (a.sign * b.sign)

instance : Div (ExactFloat K) where
  div
    | num a, num b => if b = 0 then infOf (SignType.sign a) else num (a / b)
    | nan, _ => nan
    | _, nan => nan
    | num _, _ => num 0
    | a, num b => infOf (a.sign * if b = 0 then 1 else SignType.sign b)
    | _, _ => nan

/-- `<`, of which NaN is never a part. -/
def lt : ExactFloat K → ExactFloat K → Bool
  | num a, num b => a < b
  | negInf, num _ => true
  | negInf, posInf => true
  | num _, posInf => true
  | _, _ => false

def le : ExactFloat K → ExactFloat K → Bool
  | num a, num b => a ≤ b
  | negInf, nan => false
  | negInf, _ => true
  | nan, posInf => false
  | _, posInf => true
  | _, _ => false

instance : LT (ExactFloat K) := ⟨fun a b => lt a b = true⟩

instance : LE (ExactFloat K) := ⟨fun a b => le a b = true⟩

instance : DecidableLT (ExactFloat K) := fun a b => inferInstanceAs (Decidable (lt a b = true))

instance : DecidableLE (ExactFloat K) := fun a b => inferInstanceAs (Decidable (le a b = true))

/-- `f64::max`, which prefers a number to NaN. -/
instance : Max (ExactFloat K) where
  max
    | nan, b => b
    | a, nan => a
    | a, b => if a < b then b else a

instance : OfScientific (ExactFloat K) := ⟨fun m s e => num (OfScientific.ofScientific m s e)⟩

instance : NatCast (ExactFloat K) := ⟨fun n => num n⟩

section Numbers

variable (a b : K)

omit [LinearOrder K] in
@[simp] theorem num_add : (num a + num b : ExactFloat K) = num (a + b) := rfl

omit [LinearOrder K] in
@[simp] theorem num_neg : (-num a : ExactFloat K) = num (-a) := rfl

omit [LinearOrder K] in
@[simp] theorem num_sub : (num a - num b : ExactFloat K) = num (a - b) :=
  congrArg num (sub_eq_add_neg a b).symm

@[simp] theorem num_mul : (num a * num b : ExactFloat K) = num (a * b) := rfl

theorem num_div {b : K} (h : b ≠ 0) : (num a / num b : ExactFloat K) = num (a / b) := if_neg h

omit [Field K] in
@[simp] theorem num_lt : (num a : ExactFloat K) < num b ↔ a < b :=
  decide_eq_true_iff

omit [Field K] in
@[simp] theorem num_le : (num a : ExactFloat K) ≤ num b ↔ a ≤ b :=
  decide_eq_true_iff

omit [Field K] in
@[simp] theorem num_max : max (num a) (num b) = num (max a b) := by
  have hMax : max (num a) (num b) = if num a < num b then num b else num a := rfl
  rw [hMax, max_def_lt]
  split <;> simp_all

omit [Field K] in
theorem num_clamp (a lo hi : K) : clamp (num a) (num lo) (num hi) = num (clamp a lo hi) := by
  simp only [clamp, gt_iff_lt, num_lt, apply_ite num]

omit [LinearOrder K] in
@[simp] theorem num_natCast (n : Nat) : ((n : Nat) : ExactFloat K) = num (n : K) := rfl

end Numbers

/-! ## Casts -/

section Casts

variable [FloorRing K]

/-- The integer part, towards zero. -/
def trunc (k : K) : Int := if 0 ≤ k then ⌊k⌋ else ⌈k⌉

theorem le_trunc_iff [IsStrictOrderedRing K] {n : Int} (h : 0 < n) {k : K} :
    n ≤ trunc k ↔ (n : K) ≤ k := by
  unfold trunc
  split
  · exact Int.le_floor
  · rename_i hNeg
    have hCeil : ⌈k⌉ ≤ 0 := Int.ceil_le.mpr (by simpa using (not_le.mp hNeg).le)
    refine iff_of_false (by omega) fun hLe => hNeg ?_
    exact (Int.cast_nonneg h.le).trans hLe

/-- `as` to an integer type of the values from `lo` to `hi`: it saturates, and NaN becomes 0. -/
def asInt (lo hi : Int) : ExactFloat K → Int
  | nan => 0
  | negInf => lo
  | num k => max lo (min hi (trunc k))
  | posInf => hi

/-- `round`, half-way cases away from zero. -/
def round : ExactFloat K → ExactFloat K
  | num k => num (if 0 ≤ k then ⌊k + 1 / 2⌋ else ⌈k - 1 / 2⌉)
  | a => a

/-- The nearest integer, the even one of two. -/
def roundHalfEven (k : K) : Int :=
  if k - ⌊k⌋ < 1 / 2 then ⌊k⌋
  else if 1 / 2 < k - ⌊k⌋ then ⌊k⌋ + 1
  else if ⌊k⌋ % 2 = 0 then ⌊k⌋
  else ⌊k⌋ + 1

/-- `Duration::from_secs_f64`, in nanoseconds. -/
def fromSecsF64 : ExactFloat K → Option Nat
  | num secs =>
      if 0 ≤ secs ∧ secs < 2 ^ 64 then some (roundHalfEven (secs * 10 ^ 9)).toNat else none
  | _ => none

theorem roundHalfEven_le [IsStrictOrderedRing K] {k : K} {n : Int} (h : k < n + 1 / 2) :
    roundHalfEven k ≤ n := by
  have hFloor := Int.floor_le k
  unfold roundHalfEven
  split
  · refine Int.lt_add_one_iff.mp (Int.cast_lt (R := K) |>.mp ?_)
    push_cast
    linarith
  · rename_i hHalf
    have hBelow : ⌊k⌋ < n := Int.cast_lt (R := K) |>.mp (by linarith [not_lt.mp hHalf])
    split_ifs <;> omega

theorem le_roundHalfEven [IsStrictOrderedRing K] {k : K} {n : Int} (h : n - 1 / 2 < k) :
    n ≤ roundHalfEven k := by
  have hFloor := Int.lt_floor_add_one k
  have hAbove : n ≤ ⌊k⌋ + 1 := by
    refine Int.lt_add_one_iff.mp (Int.cast_lt (R := K) |>.mp ?_)
    push_cast
    linarith
  have hExact : k - ⌊k⌋ ≤ 1 / 2 → n ≤ ⌊k⌋ := fun hHalf =>
    Int.lt_add_one_iff.mp (Int.cast_lt (R := K) |>.mp (by push_cast; linarith))
  unfold roundHalfEven
  split
  · rename_i hLow
    exact hExact hLow.le
  · split
    · exact hAbove
    · rename_i hNot
      have hBelow := hExact (not_lt.mp hNot)
      split_ifs <;> omega

theorem abs_roundHalfEven_sub_le [IsStrictOrderedRing K] (k : K) :
    |(roundHalfEven k : K) - k| ≤ 1 / 2 := by
  have hLow := Int.floor_le k
  have hHigh := Int.lt_floor_add_one k
  rw [abs_le]
  unfold roundHalfEven
  split_ifs
  all_goals
    push_cast
    constructor <;> linarith

/-- What rounds to zero. -/
theorem roundHalfEven_le_zero_iff [IsStrictOrderedRing K] {k : K} (h : 0 ≤ k) :
    roundHalfEven k ≤ 0 ↔ k ≤ 1 / 2 := by
  have hFloor : 0 ≤ ⌊k⌋ := Int.floor_nonneg.mpr h
  unfold roundHalfEven
  rcases hFloor.eq_or_lt with hZero | hPos
  · rw [← hZero, Int.cast_zero, sub_zero]
    split
    · rename_i hLt
      exact ⟨fun _ => hLt.le, fun _ => le_rfl⟩
    · split
      · rename_i hGt
        exact ⟨fun hLe => by omega, fun hLe => absurd hLe (not_le.mpr hGt)⟩
      · rename_i hNotGt
        exact ⟨fun _ => not_lt.mp hNotGt, fun _ => le_rfl⟩
  · have hOne : (1 : K) ≤ k := by
      have := Int.le_floor.mp (Int.add_one_le_of_lt hPos)
      simpa using this
    have hLarge : ¬k ≤ 1 / 2 := by linarith
    refine iff_of_false ?_ hLarge
    split_ifs <;> omega

theorem fromSecsF64_num (secs : K) : fromSecsF64 (num secs) =
    if 0 ≤ secs ∧ secs < 2 ^ 64 then some (roundHalfEven (secs * 10 ^ 9)).toNat else none := rfl

end Casts

/-! ## Rounding to 64 bits -/

section Rounding

variable [FloorRing K]

/-- The exponent of the last bit of the floats around `k`. -/
def lastBit (k : K) : ℤ := max (Int.log 2 |k| - 52) (-1074)

/-- The nearest float, if the exponent has no upper limit. -/
def round64 (k : K) : K := roundHalfEven (k / 2 ^ lastBit k) * 2 ^ lastBit k

/-- The nearest float. What is too large for a float becomes infinite. -/
def toF64 : ExactFloat K → ExactFloat K
  | num k => if 2 ^ 1024 ≤ |round64 k| then infOf (SignType.sign k) else num (round64 k)
  | a => a

variable {k : K} {e : ℤ}

theorem toF64_num (h : |round64 k| < 2 ^ 1024) : toF64 (num k) = num (round64 k) :=
  if_neg (not_le.mpr h)

theorem round64_of_toF64_eq (h : toF64 (num k) = num k) : round64 k = k := by
  have hCases : (if 2 ^ 1024 ≤ |round64 k| then infOf (SignType.sign k) else num (round64 k)) =
      num k := h
  split at hCases
  · cases hSign : SignType.sign k <;> rw [hSign] at hCases <;> cases hCases
  · exact ExactFloat.num.inj hCases

/-- A float is a whole number of units of its last bit. -/
theorem exists_int_of_round64_eq (h : round64 k = k) : ∃ n : ℤ, k = n * 2 ^ lastBit k :=
  ⟨roundHalfEven (k / 2 ^ lastBit k), h.symm⟩

variable [IsStrictOrderedRing K]

theorem two_zpow_pos (e : ℤ) : (0 : K) < 2 ^ e := zpow_pos two_pos e

/-- The exponent of the last bit of a number between two powers of two. -/
theorem lastBit_eq (hLow : 2 ^ e ≤ k) (hHigh : k < 2 ^ (e + 1)) (he : -1022 ≤ e) :
    lastBit k = e - 52 := by
  have hPos : 0 < k := (two_zpow_pos e).trans_le hLow
  have hLog : Int.log 2 k = e := by
    apply le_antisymm
    · rw [← Int.lt_add_one_iff, ← Int.lt_zpow_iff_log_lt Nat.one_lt_two hPos, Nat.cast_ofNat]
      exact hHigh
    · rw [← Int.zpow_le_iff_le_log Nat.one_lt_two hPos, Nat.cast_ofNat]
      exact hLow
  rw [lastBit, abs_of_pos hPos, hLog]
  omega

/-- Every number that is not too small lies between two powers of two. -/
theorem exists_zpow_le (hNormal : 2 ^ (-1022 : ℤ) ≤ k) :
    ∃ e : ℤ, -1022 ≤ e ∧ 2 ^ e ≤ k ∧ k < 2 ^ (e + 1) := by
  have hPos : 0 < k := (two_zpow_pos _).trans_le hNormal
  refine ⟨Int.log 2 k, ?_, ?_, ?_⟩
  · rw [← Int.zpow_le_iff_le_log Nat.one_lt_two hPos, Nat.cast_ofNat]
    exact hNormal
  · have hLow := Int.zpow_log_le_self Nat.one_lt_two hPos
    rwa [Nat.cast_ofNat] at hLow
  · have hHigh := Int.lt_zpow_succ_log_self Nat.one_lt_two k
    rwa [Nat.cast_ofNat] at hHigh

theorem round64_nonneg (h : 0 ≤ k) : 0 ≤ round64 k := by
  have hScaled : 0 ≤ k / 2 ^ lastBit k := div_nonneg h (two_zpow_pos _).le
  have hRound : 0 ≤ roundHalfEven (k / 2 ^ lastBit k) := by
    apply le_roundHalfEven
    rw [Int.cast_zero]
    linarith
  exact mul_nonneg (Int.cast_nonneg hRound) (two_zpow_pos _).le

/-- What is at most `n` units of its last bit is rounded to at most that. -/
theorem round64_le {n : ℤ} (h : k / 2 ^ lastBit k < n + 1 / 2) :
    round64 k ≤ n * 2 ^ lastBit k :=
  mul_le_mul_of_nonneg_right (Int.cast_le.mpr (roundHalfEven_le h)) (two_zpow_pos _).le

theorem le_round64 {n : ℤ} (h : n - 1 / 2 < k / 2 ^ lastBit k) :
    n * 2 ^ lastBit k ≤ round64 k :=
  mul_le_mul_of_nonneg_right (Int.cast_le.mpr (le_roundHalfEven h)) (two_zpow_pos _).le

theorem round64_le_zpow (hPos : 0 < k) (h : k ≤ 2 ^ e) (he : -1022 ≤ e) : round64 k ≤ 2 ^ e := by
  have hBit : lastBit k ≤ e := by
    have hLog := Int.log_mono_right (b := 2) hPos h
    have hPower := Int.log_zpow (R := K) Nat.one_lt_two e
    rw [Nat.cast_ofNat] at hPower
    rw [hPower] at hLog
    rw [lastBit, abs_of_pos hPos]
    omega
  obtain ⟨d, hd⟩ := Int.le.dest hBit
  have hUnits : (2 : K) ^ e = ((2 ^ d : ℤ) : K) * 2 ^ lastBit k := by
    rw [← hd, zpow_add₀ two_ne_zero, zpow_natCast, mul_comm]
    push_cast
    rfl
  rw [hUnits]
  apply round64_le
  have hDiv : k / 2 ^ lastBit k ≤ ((2 ^ d : ℤ) : K) := by
    rw [div_le_iff₀ (two_zpow_pos _), ← hUnits]
    exact h
  linarith

theorem zpow_le_round64 (h : 2 ^ e ≤ k) (he : -1022 ≤ e) : 2 ^ e ≤ round64 k := by
  have hNormal : (2 : K) ^ (-1022 : ℤ) ≤ k :=
    (zpow_le_zpow_right₀ one_le_two he).trans h
  obtain ⟨f, hf, hLow, hHigh⟩ := exists_zpow_le hNormal
  have hOrder : e ≤ f := by
    have hLt := h.trans_lt hHigh
    rw [zpow_lt_zpow_iff_right₀ one_lt_two] at hLt
    omega
  have hBit := lastBit_eq hLow hHigh hf
  have hUnits : (2 : K) ^ f = ((2 ^ 52 : ℤ) : K) * 2 ^ lastBit k := by
    rw [hBit, zpow_sub₀ two_ne_zero, zpow_ofNat]
    push_cast
    ring
  refine (zpow_le_zpow_right₀ one_le_two hOrder).trans ?_
  rw [hUnits]
  apply le_round64
  have hDiv : ((2 ^ 52 : ℤ) : K) ≤ k / 2 ^ lastBit k := by
    rw [le_div_iff₀ (two_zpow_pos _), ← hUnits]
    exact hLow
  linarith

/-- The relative error. -/
theorem abs_round64_sub_le (hNormal : 2 ^ (-1022 : ℤ) ≤ k) : |round64 k - k| ≤ k / 2 ^ 53 := by
  obtain ⟨e, he, hLow, hHigh⟩ := exists_zpow_le hNormal
  have hUnit := two_zpow_pos (K := K) (lastBit k)
  have hError : round64 k - k =
      (roundHalfEven (k / 2 ^ lastBit k) - k / 2 ^ lastBit k) * 2 ^ lastBit k := by
    rw [round64, sub_mul, div_mul_cancel₀ _ hUnit.ne']
  have hBit : (2 : K) ^ lastBit k = 2 ^ e / 2 ^ 52 := by
    rw [lastBit_eq hLow hHigh he, zpow_sub₀ two_ne_zero, zpow_ofNat]
  rw [hError, abs_mul, abs_of_pos hUnit]
  calc |(roundHalfEven (k / 2 ^ lastBit k) : K) - k / 2 ^ lastBit k| * 2 ^ lastBit k
      ≤ 1 / 2 * 2 ^ lastBit k :=
        mul_le_mul_of_nonneg_right (abs_roundHalfEven_sub_le _) hUnit.le
    _ = 2 ^ e / 2 ^ 53 := by
        rw [hBit]
        ring
    _ ≤ k / 2 ^ 53 := div_le_div_of_nonneg_right hLow (by positivity)

end Rounding

end ExactFloat

end OlivawHub.Foundations
