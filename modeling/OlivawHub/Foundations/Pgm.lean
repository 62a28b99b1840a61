import OlivawHub.Foundations.Decimal

/-!
# Binary graymaps

A P5 file of one byte per sample: `P5`, the width, the height and the largest sample value in
decimal, each behind white space, then one white space and the raster, row by row. `parsePgm`
accepts well-formed files and no others; what `printPgm` writes is read back (`parsePgm_printPgm`).
-/

namespace OlivawHub.Foundations

/-- A graymap. -/
structure Pgm where
  width : Nat
  height : Nat
  maxval : Nat
  raster : List UInt8
  deriving DecidableEq, Repr

/-- The raster has a sample for each pixel, and no sample is above the largest value. -/
def Pgm.WellFormed (p : Pgm) : Prop :=
  0 < p.maxval ∧ p.maxval < 256 ∧ p.raster.length = p.width * p.height ∧
    ∀ b ∈ p.raster, b.toNat ≤ p.maxval

instance (p : Pgm) : Decidable p.WellFormed :=
  inferInstanceAs (Decidable (0 < p.maxval ∧ p.maxval < 256 ∧
    p.raster.length = p.width * p.height ∧ ∀ b ∈ p.raster, b.toNat ≤ p.maxval))

/-- Blank, TAB, LF, VT, FF or CR. -/
def isSpace (b : UInt8) : Bool := b = 32 || (9 ≤ b && b ≤ 13)

/-- White space and a number, with what follows it. -/
def parseField : List UInt8 → Option (Nat × List UInt8)
  | [] => none
  | b :: rest =>
      if isSpace b then
        let text := rest.dropWhile isSpace
        (parseNat (text.takeWhile fun b => decide (IsDigit b))).map fun n =>
          (n, text.dropWhile fun b => decide (IsDigit b))
      else none

/-- A whole file. -/
def parsePgm : List UInt8 → Option Pgm
  | 80 :: 53 :: text => do
      let (width, text) ← parseField text
      let (height, text) ← parseField text
      let (maxval, text) ← parseField text
      match text with
      | b :: raster =>
          if isSpace b ∧ (Pgm.mk width height maxval raster).WellFormed then
            some ⟨width, height, maxval, raster⟩
          else none
      | [] => none
  | _ => none

/-- The file with the header on three lines. -/
def printPgm (p : Pgm) : List UInt8 :=
  [80, 53, 10] ++ printNat p.width ++ [32] ++ printNat p.height ++ [10] ++ printNat p.maxval ++
    [10] ++ p.raster

theorem not_isSpace_of_isDigit {b : UInt8} (h : IsDigit b) : isSpace b = false := by
  have hRange : 48 ≤ b.toNat := h.1
  simp only [isSpace, Bool.or_eq_false_iff, decide_eq_false_iff_not, Bool.and_eq_false_iff,
    UInt8.not_le, ← UInt8.toNat_inj, UInt8.lt_iff_toNat_lt]
  exact ⟨fun hBlank => by rw [hBlank] at hRange; exact absurd hRange (by decide),
    Or.inr (Nat.lt_of_lt_of_le (by decide) hRange)⟩

/-- A printed number behind one white space, up to something that is no digit. -/
theorem parseField_printNat (n : Nat) {sep stop : UInt8} (hSep : isSpace sep = true)
    (hStop : ¬IsDigit stop) (rest : List UInt8) :
    parseField (sep :: (printNat n ++ stop :: rest)) = some (n, stop :: rest) := by
  have hDigits : ∀ b ∈ printNat n, decide (IsDigit b) = true := fun b hb =>
    decide_eq_true (isDigit_of_mem hb)
  obtain ⟨b, digits, hHead⟩ := List.exists_cons_of_ne_nil (printNat_ne_nil n)
  have hFirst : isSpace b = false :=
    not_isSpace_of_isDigit (isDigit_of_mem (n := n) (by rw [hHead]; exact List.mem_cons_self))
  have hText : (printNat n ++ stop :: rest).dropWhile isSpace = printNat n ++ stop :: rest := by
    rw [hHead, List.cons_append, List.dropWhile_cons_of_neg (by simp [hFirst])]
  rw [parseField, if_pos hSep]
  dsimp only
  rw [hText, List.takeWhile_append_of_pos hDigits, List.dropWhile_append_of_pos hDigits,
    List.takeWhile_cons_of_neg (by simpa using hStop),
    List.dropWhile_cons_of_neg (by simpa using hStop), List.append_nil, parseNat_printNat,
    Option.map_some]

theorem parsePgm_printPgm {p : Pgm} (h : p.WellFormed) : parsePgm (printPgm p) = some p := by
  have hPrint : printPgm p = 80 :: 53 :: 10 :: (printNat p.width ++ 32 :: (printNat p.height ++
      10 :: (printNat p.maxval ++ 10 :: p.raster))) := by
    simp [printPgm]
  rw [hPrint, parsePgm, parseField_printNat _ (by decide) (by decide)]
  dsimp only [bind, Option.bind]
  rw [parseField_printNat _ (by decide) (by decide)]
  dsimp only
  rw [parseField_printNat _ (by decide) (by decide)]
  exact if_pos ⟨by decide, h⟩

end OlivawHub.Foundations
