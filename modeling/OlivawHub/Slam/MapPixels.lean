import OlivawHub.Slam.MapPng
import OlivawHub.Foundations.Pgm
import OlivawHub.Foundations.Writes

/-!
# Where the cells of a map end up

`toGray` writes every pixel once, and uses every cell once for it (`toGray_eq`): it turns the rows
around and leaves the columns. The PGM file holds the same pixels in the same order, each as
occupied, unknown or free. `MapSnapshot.Shows` collects what this means for a snapshot.
-/

namespace OlivawHub

open Foundations

section Checked

variable {α β : Type}

theorem setChecked_of_lt {v : List α} {i : Nat} (h : i < v.length) (a : α) :
    setChecked v i a = .ok (v.set i a) := if_pos h

theorem sliceChecked_of_le {v : List α} {a b : Nat} (hLe : a ≤ b) (hEnd : b ≤ v.length) :
    sliceChecked v a b = .ok ((v.drop a).take (b - a)) := if_pos ⟨hLe, hEnd⟩

/-- A loop of writes that are all in range. -/
theorem foldlM_setChecked (write : β → Nat × α) {items : List β} {v : List α}
    (h : ∀ b ∈ items, (write b).1 < v.length) :
    items.foldlM (fun v b => setChecked v (write b).1 (write b).2) v =
      .ok (writeAll v (items.map write)) := by
  induction items generalizing v with
  | nil => rfl
  | cons b items ih =>
      rw [List.foldlM_cons, setChecked_of_lt (h b List.mem_cons_self)]
      refine ih fun b' hb' => ?_
      rw [List.length_set]
      exact h b' (List.mem_cons_of_mem _ hb')

/-- A loop over loops of writes. -/
theorem foldlM_writeAll {body : List α → β → Except RenderError (List α)}
    (writes : β → List (Nat × α)) {items : List β} {v : List α}
    (h : ∀ b ∈ items, ∀ u : List α, u.length = v.length → body u b = .ok (writeAll u (writes b))) :
    items.foldlM body v = .ok (writeAll v (items.flatMap writes)) := by
  induction items generalizing v with
  | nil => rfl
  | cons b items ih =>
      rw [List.foldlM_cons, h b List.mem_cons_self v rfl, List.flatMap_cons, writeAll_append]
      refine ih fun b' hb' u hu => h b' (List.mem_cons_of_mem _ hb') u ?_
      rw [hu, length_writeAll]

end Checked

variable {F : Type} [HubFloat F]

omit [HubFloat F] in
/-- The cell in a column and a row, row 0 at minimum `y`. -/
def OccupancyGrid.cell? (grid : OccupancyGrid F) (col row : Nat) : Option F :=
  grid.cells[row * grid.width + col]?

/-- The corner of a cell at minimum `x` and minimum `y`. -/
def OccupancyGrid.corner (grid : OccupancyGrid F) (col row : Nat) : Point2 F :=
  ⟨grid.origin.x + (col : F) * grid.resolutionM, grid.origin.y + (row : F) * grid.resolutionM⟩

omit [HubFloat F] in
/-- The pixel in a column and a row, row 0 at the top. -/
def MapSnapshot.pixel? (m : MapSnapshot F) (x r : Nat) : Option UInt8 :=
  m.gray[r * m.width.toNat + x]?

/-- The bottom-left corner of a pixel, in the world. -/
def MapSnapshot.corner (m : MapSnapshot F) (x r : Nat) : Point2 F :=
  ⟨m.origin.1 + (x : F) * m.resolution,
    m.origin.2 + ((m.height.toNat - 1 - r : Nat) : F) * m.resolution⟩

/-- The writes of `toGray`, in order: the pixel that is written, and the cell it is written for. -/
def placements (w h : Nat) : List (Nat × Nat) :=
  (List.range h).flatMap fun row => (List.range w).map fun col =>
    ((h - 1 - row) * w + col, row * w + col)

theorem placements_pixels (w h : Nat) :
    ((placements w h).map Prod.fst).Perm (List.range (w * h)) := by
  have hPixels : (placements w h).map Prod.fst = (List.range h).flatMap fun row =>
      (List.range w).map fun col => (h - 1 - row) * w + col := by
    simp [placements, List.map_flatMap, Function.comp_def]
  rw [hPixels, Nat.mul_comm]
  exact flippedRows_perm w h

theorem placements_cells (w h : Nat) : (placements w h).map Prod.snd = List.range (w * h) := by
  rw [Nat.mul_comm, ← rows_eq_range]
  simp [placements, List.map_flatMap, Function.comp_def]

/-- The writes of one pass of the outer loop. -/
def rowWrites (paint : Painter F) (grid : OccupancyGrid F) (row : Nat) : List (Nat × UInt8) :=
  ((grid.cells.drop (row * grid.width)).take grid.width).zipIdx.map fun (logOdds, col) =>
    ((grid.height - 1 - row) * grid.width + col, paint.shade logOdds)

/-- The writes of `toGray`. -/
def grayWrites (paint : Painter F) (grid : OccupancyGrid F) : List (Nat × UInt8) :=
  (List.range grid.height).flatMap (rowWrites paint grid)

section Grid

variable {grid : OccupancyGrid F} (hCells : grid.cells.length = grid.width * grid.height)
include hCells

omit [HubFloat F] in
theorem row_end_le {row : Nat} (hRow : row < grid.height) :
    (row + 1) * grid.width ≤ grid.cells.length := by
  rw [hCells, Nat.mul_comm grid.width]
  exact Nat.mul_le_mul_right _ hRow

/-- The writes of one row are those the placements say. -/
theorem rowWrites_eq (paint : Painter F) {row : Nat} (hRow : row < grid.height) :
    (rowWrites paint grid row).map some = (List.range grid.width).map fun col =>
      (grid.cells[row * grid.width + col]?).map fun logOdds =>
        ((grid.height - 1 - row) * grid.width + col, paint.shade logOdds) := by
  have hEnd := row_end_le hCells hRow
  rw [Nat.succ_mul] at hEnd
  refine List.ext_getElem? fun col => ?_
  by_cases hCol : col < grid.width
  · have hIn : row * grid.width + col < grid.cells.length := by omega
    simp [rowWrites, List.getElem?_zipIdx, List.getElem?_drop, hCol, List.getElem?_eq_getElem hIn]
  · simp [rowWrites, hCol]

theorem grayWrites_eq (paint : Painter F) :
    (grayWrites paint grid).map some = (placements grid.width grid.height).map fun (pixel, cell) =>
      (grid.cells[cell]?).map fun logOdds => (pixel, paint.shade logOdds) := by
  rw [grayWrites, placements, List.map_flatMap, List.map_flatMap]
  refine List.flatMap_congr fun row hRow => ?_
  rw [rowWrites_eq hCells paint (List.mem_range.mp hRow), List.map_map]
  rfl

omit [HubFloat F] in
theorem cells_of_mem {p : Nat × Nat} (h : p ∈ placements grid.width grid.height) :
    p.2 < grid.cells.length := by
  have hMem : p.2 ∈ (placements grid.width grid.height).map Prod.snd := List.mem_map_of_mem h
  rw [placements_cells, List.mem_range] at hMem
  rwa [hCells]

/-- No pixel is left out and none is written twice. -/
theorem grayWrites_pixels (paint : Painter F) :
    ((grayWrites paint grid).map Prod.fst).Perm (List.range (grid.width * grid.height)) := by
  have hSame : ((grayWrites paint grid).map Prod.fst).map some =
      ((placements grid.width grid.height).map Prod.fst).map some := by
    have hFst := congrArg (List.map (Option.map Prod.fst)) (grayWrites_eq hCells paint)
    rw [List.map_map, List.map_map] at hFst
    rw [List.map_map, List.map_map]
    refine hFst.trans (List.map_congr_left fun p hp => ?_)
    simp [List.getElem?_eq_getElem (cells_of_mem hCells hp)]
  rw [List.map_injective_iff.mpr (Option.some_injective _) hSame]
  exact placements_pixels grid.width grid.height

theorem toGray_eq (paint : Painter F) :
    toGray paint grid = .ok (writeAll (List.replicate (grid.width * grid.height) 205)
      (grayWrites paint grid)) := by
  have hPixels : ∀ p ∈ grayWrites paint grid, p.1 < grid.width * grid.height := fun p hp =>
    List.mem_range.mp ((grayWrites_pixels hCells paint).mem_iff.mp (List.mem_map_of_mem hp))
  refine foldlM_writeAll (rowWrites paint grid) fun row hRow gray hGray => ?_
  have hEnd := row_end_le hCells (List.mem_range.mp hRow)
  have hSlice : (row + 1) * grid.width - row * grid.width = grid.width := by
    rw [Nat.succ_mul, Nat.add_sub_cancel_left]
  rw [sliceChecked_of_le (Nat.mul_le_mul_right _ (Nat.le_succ row)) hEnd, hSlice]
  refine foldlM_setChecked (fun p : F × Nat =>
    ((grid.height - 1 - row) * grid.width + p.2, paint.shade p.1)) fun p hp => ?_
  rw [hGray, List.length_replicate]
  exact hPixels _ (List.mem_flatMap.mpr ⟨row, hRow, List.mem_map_of_mem hp⟩)

/-- The pixel a cell is drawn at. -/
theorem pixel_of_cell (paint : Painter F) {col row : Nat} (hCol : col < grid.width)
    (hRow : row < grid.height) {gray : List UInt8} (hGray : toGray paint grid = .ok gray) :
    gray[(grid.height - 1 - row) * grid.width + col]? = (grid.cell? col row).map paint.shade := by
  cases hGray.symm.trans (toGray_eq hCells paint)
  have hPlaced : ((grid.height - 1 - row) * grid.width + col, row * grid.width + col) ∈
      placements grid.width grid.height :=
    List.mem_flatMap.mpr ⟨row, List.mem_range.mpr hRow,
      List.mem_map.mpr ⟨col, List.mem_range.mpr hCol, rfl⟩⟩
  have hPixels := grayWrites_pixels hCells paint
  have hIn : row * grid.width + col < grid.cells.length := cells_of_mem hCells hPlaced
  have hWritten : some ((grid.height - 1 - row) * grid.width + col,
      paint.shade grid.cells[row * grid.width + col]) ∈ (grayWrites paint grid).map some := by
    rw [grayWrites_eq hCells]
    exact List.mem_map.mpr ⟨_, hPlaced, by simp [List.getElem?_eq_getElem hIn]⟩
  obtain ⟨_, hMem, hEq⟩ := List.mem_map.mp hWritten
  cases hEq
  have hRange := List.mem_range.mp (hPixels.mem_iff.mp (List.mem_map_of_mem hMem))
  rw [getElem?_writeAll (hPixels.nodup_iff.mpr List.nodup_range) hMem
    (by rwa [List.length_replicate]), OccupancyGrid.cell?, List.getElem?_eq_getElem hIn,
    Option.map_some]

end Grid

/-! ## Snapshots -/

/-- What a byte of the PGM raster says of a pixel. -/
inductive CellClass where
  | occupied
  | unknown
  | free
  deriving DecidableEq, Repr

/-- The class of a gray. -/
def CellClass.ofGray (g : UInt8) : CellClass :=
  if g < 90 then .occupied else if g > 205 then .free else .unknown

/-- The byte of a class, by the convention of `map_server`. -/
def CellClass.byte : CellClass → UInt8
  | .occupied => 0
  | .unknown => 205
  | .free => 254

/-- The snapshot shows the grid: every cell is in its place, in the PNG as in the PGM. -/
structure MapSnapshot.Shows (paint : Painter F) (grid : OccupancyGrid F) (m : MapSnapshot F) :
    Prop where
  width : m.width.toNat = grid.width
  height : m.height.toNat = grid.height
  length : m.gray.length = grid.width * grid.height
  pixel : ∀ x r, x < grid.width → r < grid.height →
    m.pixel? x r = (grid.cell? x (grid.height - 1 - r)).map paint.shade
  /-- Turning the rows around once more gives the cells back. -/
  cell : ∀ col row, col < grid.width → row < grid.height →
    (grid.cell? col row).map paint.shade = m.pixel? col (grid.height - 1 - row)
  corner : ∀ x r, r < grid.height → m.corner x r = grid.corner x (grid.height - 1 - r)
  png : paint.encodePng m.width m.height m.gray = some m.png
  pgm : parsePgm m.toPgm =
    some ⟨grid.width, grid.height, 255, m.gray.map fun g => (CellClass.ofGray g).byte⟩

omit [HubFloat F] in
theorem MapSnapshot.toPgm_eq (m : MapSnapshot F) :
    m.toPgm = printPgm ⟨m.width.toNat, m.height.toNat, 255,
      m.gray.map fun g => (CellClass.ofGray g).byte⟩ := by
  have hClass : (fun g : UInt8 => if g < 90 then 0 else if g > 205 then 254 else 205) =
      fun g => (CellClass.ofGray g).byte := by
    funext g
    unfold CellClass.ofGray
    split
    · rfl
    · split <;> rfl
  have hNumber : ∀ n : UInt32, (toString n).toByteArray.data.toList = printNat n.toNat := fun n =>
    bytes_toString n.toNat
  have hMagic : (toString "P5\n").toByteArray.data.toList = [80, 53, 10] := rfl
  have hBlank : (toString " ").toByteArray.data.toList = [32] := rfl
  have hMaxval : (toString "\n255\n").toByteArray.data.toList = [10] ++ printNat 255 ++ [10] := by
    decide
  simp only [toPgm, printPgm, hClass, String.toUTF8_eq_toByteArray, String.toByteArray_append,
    ByteArray.data_append, Array.toList_append, hNumber, hMagic, hBlank, hMaxval,
    List.append_assoc]

omit [HubFloat F] in
theorem MapSnapshot.parsePgm_toPgm {m : MapSnapshot F}
    (hLength : m.gray.length = m.width.toNat * m.height.toNat) :
    parsePgm m.toPgm = some ⟨m.width.toNat, m.height.toNat, 255,
      m.gray.map fun g => (CellClass.ofGray g).byte⟩ := by
  rw [toPgm_eq]
  refine parsePgm_printPgm ⟨Nat.zero_lt_succ 254, Nat.lt_succ_self 255, ?_, fun b hb => ?_⟩
  · rw [List.length_map, hLength]
  · exact Nat.le_of_lt_succ b.toNat_lt

theorem u32TryFrom_of_lt {n : Nat} (h : n < 2 ^ 32) : u32TryFrom n = .ok (UInt32.ofNat n) :=
  if_pos h

/-- **Map rendering.** Nothing is indexed out of range; every pixel is written once and every cell
used once; and a snapshot, which there is unless the PNG encoder fails, shows the grid. -/
theorem map_keeps_cells (paint : Painter F) (grid : OccupancyGrid F) (version : Nat)
    (hWidth : grid.width < 2 ^ 32) (hHeight : grid.height < 2 ^ 32)
    (hCells : grid.cells.length = grid.width * grid.height) :
    grid.width * grid.height < 2 ^ 64 ∧
    ((placements grid.width grid.height).map Prod.fst).Perm
      (List.range (grid.width * grid.height)) ∧
    (placements grid.width grid.height).map Prod.snd = List.range (grid.width * grid.height) ∧
    (∃ writes : List (Nat × UInt8),
      writes.map some = (placements grid.width grid.height).map (fun (pixel, cell) =>
        (grid.cells[cell]?).map fun logOdds => (pixel, paint.shade logOdds)) ∧
      toGray paint grid =
        .ok (writeAll (List.replicate (grid.width * grid.height) 205) writes)) ∧
    ∃ gray, toGray paint grid = .ok gray ∧
      ((paint.encodePng (UInt32.ofNat grid.width) (UInt32.ofNat grid.height) gray = none ∧
          MapSnapshot.fromGrid paint grid version = .error .png) ∨
        ∃ m, MapSnapshot.fromGrid paint grid version = .ok m ∧ m.gray = gray ∧
          m.Shows paint grid) := by
  refine ⟨?_, placements_pixels _ _, placements_cells _ _,
    ⟨grayWrites paint grid, grayWrites_eq hCells paint, toGray_eq hCells paint⟩, ?_⟩
  · calc grid.width * grid.height
        ≤ grid.width * 2 ^ 32 := Nat.mul_le_mul_left _ hHeight.le
      _ < 2 ^ 32 * 2 ^ 32 := Nat.mul_lt_mul_of_pos_right hWidth (by decide)
  · obtain ⟨gray, hGray⟩ : ∃ gray, toGray paint grid = .ok gray := ⟨_, toGray_eq hCells paint⟩
    have hLength : gray.length = grid.width * grid.height := by
      cases hGray.symm.trans (toGray_eq hCells paint)
      rw [length_writeAll, List.length_replicate]
    have hRender : MapSnapshot.fromGrid paint grid version =
        (paint.encode (UInt32.ofNat grid.width) (UInt32.ofNat grid.height) gray).map fun png =>
          ⟨version, UInt32.ofNat grid.width, UInt32.ofNat grid.height,
            (grid.origin.x, grid.origin.y), grid.resolutionM, gray, png⟩ := by
      rw [MapSnapshot.fromGrid, u32TryFrom_of_lt hWidth, u32TryFrom_of_lt hHeight, hGray]
      rfl
    refine ⟨gray, hGray, ?_⟩
    cases hPng : paint.encodePng (UInt32.ofNat grid.width) (UInt32.ofNat grid.height) gray with
    | none =>
        rw [Painter.encode, hPng] at hRender
        exact Or.inl ⟨rfl, hRender⟩
    | some png =>
        rw [Painter.encode, hPng] at hRender
        have hW : (UInt32.ofNat grid.width).toNat = grid.width := UInt32.toNat_ofNat_of_lt hWidth
        have hH : (UInt32.ofNat grid.height).toNat = grid.height := UInt32.toNat_ofNat_of_lt hHeight
        have hCell : ∀ col row, col < grid.width → row < grid.height →
            gray[(grid.height - 1 - row) * grid.width + col]? =
              (grid.cell? col row).map paint.shade :=
          fun col row hCol hRow => pixel_of_cell hCells paint hCol hRow hGray
        refine Or.inr ⟨_, hRender, rfl, hW, hH, hLength, fun x r hx hr => ?_,
          fun col row hCol hRow => ?_, fun x r hr => ?_, hPng, ?_⟩
        · have hTwice : grid.height - 1 - (grid.height - 1 - r) = r := by omega
          rw [← hCell x (grid.height - 1 - r) hx (by omega), hTwice, MapSnapshot.pixel?, hW]
        · rw [← hCell col row hCol hRow, MapSnapshot.pixel?, hW]
        · simp only [MapSnapshot.corner, OccupancyGrid.corner, hH]
        · have hParse := MapSnapshot.parsePgm_toPgm (m := ⟨version, UInt32.ofNat grid.width,
            UInt32.ofNat grid.height, (grid.origin.x, grid.origin.y), grid.resolutionM, gray, png⟩)
            (by rw [hW, hH, hLength])
          rwa [hW, hH] at hParse

/-- A grid of two rows of three cells. -/
def sixCells : OccupancyGrid ℚ := ⟨3, 2, [0, -1, -4, -1, 0, 0], ⟨-2, -2⟩, 1⟩

/-- A painter that needs no transcendental functions, with an encoder that keeps the pixels. -/
def plainPainter : Painter ℚ := ⟨id, fun q => UInt8.ofNat q.floor.toNat, fun _ _ gray => some gray⟩

theorem map_keeps_cells_six :
    toGray plainPainter sixCells = .ok [127, 0, 0, 0, 127, 204] ∧
      ∃ gray, toGray plainPainter sixCells = .ok gray ∧
        ((plainPainter.encodePng 3 2 gray = none ∧
            MapSnapshot.fromGrid plainPainter sixCells 1 = .error .png) ∨
          ∃ m, MapSnapshot.fromGrid plainPainter sixCells 1 = .ok m ∧ m.gray = gray ∧
            m.Shows plainPainter sixCells) :=
  ⟨by decide +kernel,
    (map_keeps_cells plainPainter sixCells 1 (by decide) (by decide) rfl).2.2.2.2⟩

end OlivawHub
