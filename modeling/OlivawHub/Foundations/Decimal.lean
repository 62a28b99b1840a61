import Mathlib.Algebra.Group.Nat.Defs
import Mathlib.Data.List.Basic

/-!
# Decimal numbers in ASCII

Numbers as `Display` prints them, in bytes, and a parser that takes back exactly what was printed
(`parseInt_printInt`). `cut` splits a line at a separator; since a printed number contains none
(`not_mem_printInt`), fields of numbers can be told apart.
-/

namespace OlivawHub.Foundations

/-- The digits of a number. -/
def printNat (n : Nat) : List UInt8 := (Nat.toDigits 10 n).map Char.toUInt8

/-- A number, with `-` in front of it if it is negative. -/
def printInt : Int → List UInt8
  | .ofNat n => printNat n
  | .negSucc n => 45 :: printNat (n + 1)

/-- Bytes that are digits. -/
def IsDigit (b : UInt8) : Prop := 48 ≤ b.toNat ∧ b.toNat ≤ 57

instance (b : UInt8) : Decidable (IsDigit b) :=
  inferInstanceAs (Decidable (48 ≤ b.toNat ∧ b.toNat ≤ 57))

/-- The value of a digit. -/
def digitValue (b : UInt8) : Option Nat := if IsDigit b then some (b.toNat - 48) else none

/-- The value of digits that follow digits of value `acc`. -/
def parseDigits (acc : Nat) : List UInt8 → Option Nat
  | [] => some acc
  | b :: bs => (digitValue b).bind fun d => parseDigits (10 * acc + d) bs

/-- One digit or more. -/
def parseNat (bs : List UInt8) : Option Nat := if bs = [] then none else parseDigits 0 bs

def parseInt : List UInt8 → Option Int
  | 45 :: bs => (parseNat bs).map fun n => -(n : Int)
  | bs => (parseNat bs).map fun n => (n : Int)

/-- What stands before the first separator, and what stands behind it. -/
def cut (sep : UInt8) : List UInt8 → Option (List UInt8 × List UInt8)
  | [] => none
  | b :: bs => if b = sep then some ([], bs) else (cut sep bs).map fun p => (b :: p.1, p.2)

theorem printNat_of_lt {d : Nat} (h : d < 10) : printNat d = [UInt8.ofNat (48 + d)] := by
  rw [printNat, Nat.toDigits_of_lt_base h, List.map_singleton]
  congr 1
  have hChar : d.digitChar.val.toNat = 48 + d := Nat.toNat_digitChar_of_lt_ten h
  rw [← UInt8.toNat_inj, Char.toUInt8, UInt32.toNat_toUInt8, hChar, UInt8.toNat_ofNat']

theorem printNat_of_le {n : Nat} (h : 10 ≤ n) :
    printNat n = printNat (n / 10) ++ printNat (n % 10) := by
  have hDigit : n % 10 < 10 := Nat.mod_lt _ (by omega)
  rw [printNat, printNat, printNat, ← List.map_append,
    Nat.toDigits_append_toDigits (by omega) (by omega) hDigit, Nat.div_add_mod]

theorem isDigit_ofNat {d : Nat} (h : d < 10) : IsDigit (UInt8.ofNat (48 + d)) := by
  rw [IsDigit, UInt8.toNat_ofNat']
  omega

theorem digitValue_ofNat {d : Nat} (h : d < 10) : digitValue (UInt8.ofNat (48 + d)) = some d := by
  rw [digitValue, if_pos (isDigit_ofNat h), UInt8.toNat_ofNat']
  congr 1
  omega

theorem printNat_ne_nil (n : Nat) : printNat n ≠ [] := by
  rw [printNat, ne_eq, List.map_eq_nil_iff]
  exact Nat.toDigits_ne_nil

theorem isDigit_of_mem {n : Nat} {b : UInt8} (h : b ∈ printNat n) : IsDigit b := by
  induction n using Nat.strongRecOn with
  | ind n ih =>
      rcases Nat.lt_or_ge n 10 with hSmall | hLarge
      · rw [printNat_of_lt hSmall, List.mem_singleton] at h
        exact h ▸ isDigit_ofNat hSmall
      · rw [printNat_of_le hLarge, List.mem_append] at h
        exact h.elim (ih _ (by omega)) (ih _ (by omega))

theorem parseDigits_append (acc : Nat) (xs ys : List UInt8) :
    parseDigits acc (xs ++ ys) = (parseDigits acc xs).bind fun n => parseDigits n ys := by
  induction xs generalizing acc with
  | nil => rfl
  | cons b xs ih =>
      rw [List.cons_append, parseDigits, parseDigits, Option.bind_assoc]
      congr 1
      funext d
      exact ih _

theorem parseDigits_printNat (n : Nat) : parseDigits 0 (printNat n) = some n := by
  induction n using Nat.strongRecOn with
  | ind n ih =>
      rcases Nat.lt_or_ge n 10 with hSmall | hLarge
      · rw [printNat_of_lt hSmall, parseDigits, digitValue_ofNat hSmall, Option.bind_some,
          parseDigits, Nat.mul_zero, Nat.zero_add]
      · have hDigit : n % 10 < 10 := Nat.mod_lt _ (by omega)
        rw [printNat_of_le hLarge, parseDigits_append, ih _ (by omega), Option.bind_some,
          printNat_of_lt hDigit, parseDigits, digitValue_ofNat hDigit, Option.bind_some,
          parseDigits, Nat.div_add_mod]

theorem parseNat_printNat (n : Nat) : parseNat (printNat n) = some n := by
  rw [parseNat, if_neg (printNat_ne_nil n), parseDigits_printNat]

theorem parseInt_printInt (i : Int) : parseInt (printInt i) = some i := by
  cases i with
  | ofNat n =>
      have hHead : ∀ bs, printNat n ≠ 45 :: bs := by
        intro bs hEq
        have hDigit : IsDigit 45 := isDigit_of_mem (hEq ▸ List.mem_cons_self)
        exact absurd hDigit.1 (by decide)
      rw [printInt, parseInt, parseNat_printNat]
      · rfl
      · exact hHead
  | negSucc n =>
      rw [printInt, parseInt, parseNat_printNat]
      rfl

theorem printInt_ne_nil (i : Int) : printInt i ≠ [] := by
  cases i with
  | ofNat n => exact printNat_ne_nil n
  | negSucc n => simp [printInt]

theorem mem_printInt {i : Int} {b : UInt8} (h : b ∈ printInt i) : b = 45 ∨ IsDigit b := by
  cases i with
  | ofNat n => exact Or.inr (isDigit_of_mem h)
  | negSucc n => exact (List.mem_cons.mp h).imp_right isDigit_of_mem

/-- A separator that is neither a digit nor `-`. -/
theorem not_mem_printInt {sep : UInt8} (hMinus : sep ≠ 45) (hDigit : ¬IsDigit sep) (i : Int) :
    sep ∉ printInt i := fun hMem => (mem_printInt hMem).elim hMinus hDigit

/-- The bytes of a number as `Display` prints it. -/
theorem bytes_toString (n : Nat) : (toString n).toUTF8.data.toList = printNat n := by
  have hAscii : ∀ c ∈ Nat.toDigits 10 n, String.utf8EncodeChar c = [c.toUInt8] := by
    intro c hc
    have hDigit : c.isDigit = true := Nat.isDigit_of_mem_toDigits (by decide) (by decide) hc
    refine String.utf8EncodeChar_eq_singleton (Char.utf8Size_eq_one_iff.mpr ?_)
    simp only [Char.isDigit, Bool.and_eq_true, decide_eq_true_eq] at hDigit
    exact UInt32.le_trans hDigit.2 (by decide)
  have hText : toString n = String.ofList (Nat.toDigits 10 n) := rfl
  rw [hText, String.toUTF8_eq_toByteArray, String.toByteArray_ofList, List.utf8Encode,
    List.flatMap_congr hAscii, ← List.map_eq_flatMap, List.data_toByteArray]
  rfl

theorem cut_append {sep : UInt8} {xs : List UInt8} (h : sep ∉ xs) (ys : List UInt8) :
    cut sep (xs ++ sep :: ys) = some (xs, ys) := by
  induction xs with
  | nil => simp [cut]
  | cons b xs ih =>
      rw [List.mem_cons, not_or] at h
      rw [List.cons_append, cut, if_neg (Ne.symm h.1), ih h.2, Option.map_some]

theorem eq_append_of_cut {sep : UInt8} {bs xs ys : List UInt8} (h : cut sep bs = some (xs, ys)) :
    bs = xs ++ sep :: ys := by
  induction bs generalizing xs with
  | nil => cases h
  | cons b bs ih =>
      rw [cut] at h
      split at h
      · rename_i hSep
        cases h
        rw [hSep, List.nil_append]
      · obtain ⟨⟨xs', ys'⟩, hRest, hEq⟩ := Option.map_eq_some_iff.mp h
        cases hEq
        rw [ih hRest, List.cons_append]

/-- A printed number has no leading zero. -/
theorem eq_zero_of_printNat {n : Nat} {bs : List UInt8} (h : printNat n = 48 :: bs) : n = 0 := by
  induction n using Nat.strongRecOn generalizing bs with
  | ind n ih =>
      rcases Nat.lt_or_ge n 10 with hSmall | hLarge
      · rw [printNat_of_lt hSmall, List.cons.injEq, ← UInt8.toNat_inj, UInt8.toNat_ofNat'] at h
        have hValue : (48 : UInt8).toNat = 48 := rfl
        omega
      · rw [printNat_of_le hLarge] at h
        obtain ⟨b, bs', hHead⟩ := List.exists_cons_of_ne_nil (printNat_ne_nil (n / 10))
        rw [hHead, List.cons_append, List.cons.injEq] at h
        have hZero := ih (n / 10) (by omega) (by rw [hHead, h.1])
        omega

theorem eq_zero_of_printInt {i : Int} {bs : List UInt8} (h : printInt i = 48 :: bs) : i = 0 := by
  cases i with
  | ofNat n => rw [eq_zero_of_printNat h]; rfl
  | negSucc n => simp [printInt] at h

end OlivawHub.Foundations
