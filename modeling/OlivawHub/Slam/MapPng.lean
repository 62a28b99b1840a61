import OlivawHub.Numbers

/-!
# Rendered maps

The occupancy grid of `olivaw_slam`, the grayscale snapshot the hub keeps of it, and
`MapSnapshot.fromGrid`. Indexing out of range is a panic of the source and an error here.
-/

namespace OlivawHub

/-- A point of the plane, metres. -/
structure Point2 (F : Type) where
  x : F
  y : F
  deriving DecidableEq, Repr

/-- A pose of the plane, metres and radians. -/
structure Pose2 (F : Type) where
  x : F
  y : F
  theta : F
  deriving DecidableEq, Repr

/-- What the hub reads of an occupancy grid: row-major log odds, row 0 at minimum `y`. -/
structure OccupancyGrid (F : Type) where
  width : Nat
  height : Nat
  cells : List F
  origin : Point2 F
  resolutionM : F
  deriving DecidableEq, Repr

/-- A rendered map. -/
structure MapSnapshot (F : Type) where
  version : Nat
  width : UInt32
  height : UInt32
  origin : F × F
  resolution : F
  gray : List UInt8
  png : List UInt8
  deriving DecidableEq, Repr

/-- Ways in which rendering ends without a snapshot. -/
inductive RenderError where
  | size
  | index
  | png
  deriving DecidableEq, Repr

/-- What the rendering takes from outside the repository: the float functions behind the
shade of a cell, and the PNG encoder. -/
structure Painter (F : Type) where
  exp : F → F
  /-- `.round().clamp(0.0, 255.0) as u8`. -/
  roundToU8 : F → UInt8
  encodePng : UInt32 → UInt32 → List UInt8 → Option (List UInt8)

variable {F : Type} [HubFloat F]

/-- The gray of one cell: `255 × (1 − p)`. -/
def Painter.shade (paint : Painter F) (logOdds : F) : UInt8 :=
  let p : F := 1.0 / (1.0 + paint.exp (-logOdds))
  paint.roundToU8 ((1.0 - p) * 255.0)

/-- `v[i] = a`, where `i` must be in range. -/
def setChecked {α : Type} (v : List α) (i : Nat) (a : α) : Except RenderError (List α) :=
  if i < v.length then .ok (v.set i a) else .error .index

/-- `&v[a..b]`, where the range must lie inside. -/
def sliceChecked {α : Type} (v : List α) (a b : Nat) : Except RenderError (List α) :=
  if a ≤ b ∧ b ≤ v.length then .ok ((v.drop a).take (b - a)) else .error .index

/-- Grid cells (row 0 = min `y`) to gray pixels (row 0 = max `y`). -/
def toGray (paint : Painter F) (grid : OccupancyGrid F) : Except RenderError (List UInt8) :=
  let w := grid.width
  let h := grid.height
  (List.range h).foldlM (fun gray row => do
    let src ← sliceChecked grid.cells (row * w) ((row + 1) * w)
    let dstRow := h - 1 - row
    src.zipIdx.foldlM (fun gray (logOdds, col) =>
      setChecked gray (dstRow * w + col) (paint.shade logOdds)) gray)
    (List.replicate (w * h) 205)

/-- `u32::try_from` on a `usize`. -/
def u32TryFrom (n : Nat) : Except RenderError UInt32 :=
  if n < 2 ^ 32 then .ok (UInt32.ofNat n) else .error .size

/-- The PNG encoding of gray pixels. -/
def Painter.encode (paint : Painter F) (width height : UInt32) (gray : List UInt8) :
    Except RenderError (List UInt8) :=
  match paint.encodePng width height gray with
  | some png => .ok png
  | none => .error .png

/-- Render the grid. -/
def MapSnapshot.fromGrid (paint : Painter F) (grid : OccupancyGrid F) (version : Nat) :
    Except RenderError (MapSnapshot F) := do
  let width ← u32TryFrom grid.width
  let height ← u32TryFrom grid.height
  let gray ← toGray paint grid
  let png ← paint.encode width height gray
  return { version, width, height, origin := (grid.origin.x, grid.origin.y),
           resolution := grid.resolutionM, gray, png }

omit [HubFloat F] in
/-- Binary PGM (P5): occupied 0, free 254, unknown 205. -/
def MapSnapshot.toPgm (m : MapSnapshot F) : List UInt8 :=
  s!"P5\n{m.width} {m.height}\n255\n".toUTF8.data.toList ++
    m.gray.map fun g => if g < 90 then 0 else if g > 205 then 254 else 205

omit [HubFloat F] in
/-- A bind that succeeds has a first part that succeeds. -/
theorem except_bind_ok {ε α β : Type} {x : Except ε α} {f : α → Except ε β} {b : β}
    (h : x >>= f = .ok b) : ∃ a, x = .ok a ∧ f a = .ok b := by
  cases x with
  | error e => cases h
  | ok a => exact ⟨a, rfl, h⟩

theorem MapSnapshot.fromGrid_version {paint : Painter F} {grid : OccupancyGrid F}
    {version : Nat} {m : MapSnapshot F} (h : fromGrid paint grid version = .ok m) :
    m.version = version := by
  obtain ⟨width, _, h⟩ := except_bind_ok h
  obtain ⟨height, _, h⟩ := except_bind_ok h
  obtain ⟨gray, _, h⟩ := except_bind_ok h
  obtain ⟨png, _, h⟩ := except_bind_ok h
  cases h
  rfl

end OlivawHub
