import Mathlib.Data.List.Perm.Basic
import Mathlib.Data.List.Nodup

/-!
# Writing the places of a list

`writeAll` performs writes to a list one after the other. If no place is written twice, each place
that is written holds afterwards what was written there (`getElem?_writeAll`). The places of a grid
of `h` rows of `w` are those of a list of length `h * w`, row by row (`rows_eq_range`), and a grid
has the same places when its rows are counted from the other end (`flippedRows_perm`).
-/

namespace OlivawHub.Foundations

variable {α : Type}

/-- The list after the writes, in order. -/
def writeAll (v : List α) (ws : List (Nat × α)) : List α := ws.foldl (fun v w => v.set w.1 w.2) v

@[simp] theorem writeAll_nil (v : List α) : writeAll v [] = v := rfl

@[simp] theorem writeAll_cons (v : List α) (w : Nat × α) (ws : List (Nat × α)) :
    writeAll v (w :: ws) = writeAll (v.set w.1 w.2) ws := rfl

theorem writeAll_append (v : List α) (xs ys : List (Nat × α)) :
    writeAll v (xs ++ ys) = writeAll (writeAll v xs) ys := List.foldl_append

@[simp] theorem length_writeAll (v : List α) (ws : List (Nat × α)) :
    (writeAll v ws).length = v.length := by
  induction ws generalizing v with
  | nil => rfl
  | cons w ws ih => rw [writeAll_cons, ih, List.length_set]

theorem getElem?_writeAll_of_notMem {i : Nat} {ws : List (Nat × α)} (h : i ∉ ws.map Prod.fst)
    (v : List α) : (writeAll v ws)[i]? = v[i]? := by
  induction ws generalizing v with
  | nil => rfl
  | cons w ws ih =>
      rw [List.map_cons, List.mem_cons, not_or] at h
      rw [writeAll_cons, ih h.2, List.getElem?_set_ne (Ne.symm h.1)]

/-- A place that is written once holds what was written. -/
theorem getElem?_writeAll {i : Nat} {a : α} {ws : List (Nat × α)} (hOnce : (ws.map Prod.fst).Nodup)
    (hMem : (i, a) ∈ ws) {v : List α} (hi : i < v.length) : (writeAll v ws)[i]? = some a := by
  induction ws generalizing v with
  | nil => cases hMem
  | cons w ws ih =>
      rw [List.map_cons, List.nodup_cons] at hOnce
      rcases List.mem_cons.mp hMem with rfl | hRest
      · rw [writeAll_cons, getElem?_writeAll_of_notMem hOnce.1, List.getElem?_set_self hi]
      · exact ih hOnce.2 hRest (by rwa [List.length_set])

/-! ## Rows and columns -/

theorem rows_eq_range (w h : Nat) :
    ((List.range h).flatMap fun row => (List.range w).map fun col => row * w + col) =
      List.range (h * w) := by
  induction h with
  | zero => simp
  | succ h ih =>
      rw [List.range_succ, List.flatMap_append, ih, List.flatMap_singleton, Nat.succ_mul,
        List.range_add]

theorem map_flip_range (h : Nat) :
    (List.range h).map (fun row => h - 1 - row) = (List.range h).reverse := by
  rw [List.range_eq_range', List.reverse_range', Nat.zero_add, List.range_eq_range']

/-- The rows counted from the other end. -/
theorem flippedRows_perm (w h : Nat) :
    ((List.range h).flatMap fun row => (List.range w).map fun col => (h - 1 - row) * w + col).Perm
      (List.range (h * w)) := by
  have hFlip : ((List.range h).flatMap fun row =>
      (List.range w).map fun col => (h - 1 - row) * w + col) =
      ((List.range h).reverse.flatMap fun row => (List.range w).map fun col => row * w + col) := by
    rw [← map_flip_range, List.flatMap_map]
  rw [hFlip, ← rows_eq_range]
  exact List.Perm.flatMap_right _ (List.reverse_perm _)

end OlivawHub.Foundations
