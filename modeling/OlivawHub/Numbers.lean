import Mathlib.Algebra.Order.Field.Rat

/-!
# The numbers of the hub

`f64` and `f32` values are elements of one type `F`, with the operations the source
applies to them and the cast `as f32`. No law is assumed of them, so a statement about
every `F` covers IEEE floats, NaN included. A statement in exact arithmetic takes `F = ℚ`, or
`F = ℝ` where the simulator's angles enter it; where NaN and the infinities matter to the
simulator, `F` is `ExactFloat ℝ`.

Counters of type `u64` and `usize` are `Nat`: each grows by at most one per event. The
32-bit counters, which a long run can exhaust, are `UInt32` and wrap as they do in a
release build.
-/

namespace OlivawHub

/-- The arithmetic of the source's floats. -/
class HubFloat (F : Type) extends Add F, Sub F, Mul F, Div F, Neg F, Max F, NatCast F,
    OfScientific F where
  /-- `as f32` on an `f64`. -/
  asF32 : F → F

/-- Exact arithmetic: no rounding. -/
instance : HubFloat ℚ where
  asF32 := id

end OlivawHub
