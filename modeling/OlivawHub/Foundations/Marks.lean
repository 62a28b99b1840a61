import Mathlib.Data.List.Induction
import Mathlib.Data.List.Basic
import Mathlib.Algebra.Group.Nat.Defs

/-!
# A mark after every `n`-th element

`marked n xs` are the elements of `xs` in order, and directly after every `n`-th of them a mark
that carries its number: 1, 2, 3, ….
-/

namespace OlivawHub.Foundations

universe u

variable {α : Type u} {n : Nat}

/-- The elements, and after every `n`-th a numbered mark. -/
def marked (n : Nat) (xs : List α) : List (α ⊕ Nat) :=
  xs.zipIdx.flatMap fun e =>
    .inl e.1 :: if (e.2 + 1) % n = 0 then [.inr ((e.2 + 1) / n)] else []

@[simp] theorem marked_nil (n : Nat) : marked n ([] : List α) = [] := rfl

/-- The element `x`, the `k`-th after which marks are counted. -/
def markedOne (n : Nat) (x : α) (k : Nat) : List (α ⊕ Nat) :=
  .inl x :: if k % n = 0 then [.inr (k / n)] else []

theorem marked_concat (n : Nat) (xs : List α) (x : α) :
    marked n (xs ++ [x]) = marked n xs ++ markedOne n x (xs.length + 1) := by
  simp [marked, markedOne, List.zipIdx_append]

/-- The elements of a list with marks. -/
def unmarked (trace : List (α ⊕ Nat)) : List α := trace.filterMap Sum.getLeft?

/-- The marks of a list with marks. -/
def marks (trace : List (α ⊕ Nat)) : List Nat := trace.filterMap Sum.getRight?

@[simp] theorem unmarked_append (s t : List (α ⊕ Nat)) :
    unmarked (s ++ t) = unmarked s ++ unmarked t := List.filterMap_append

@[simp] theorem marks_append (s t : List (α ⊕ Nat)) : marks (s ++ t) = marks s ++ marks t :=
  List.filterMap_append

theorem unmarked_markedOne (n : Nat) (x : α) (k : Nat) : unmarked (markedOne n x k) = [x] := by
  unfold markedOne unmarked
  split <;> rfl

theorem marks_markedOne (n : Nat) (x : α) (k : Nat) :
    marks (markedOne n x k) = if k % n = 0 then [k / n] else [] := by
  unfold markedOne marks
  split <;> rfl

@[simp] theorem unmarked_marked (n : Nat) (xs : List α) : unmarked (marked n xs) = xs := by
  induction xs using List.reverseRecOn with
  | nil => rfl
  | append_singleton xs x ih => rw [marked_concat, unmarked_append, ih, unmarked_markedOne]

theorem div_succ_of_mod (n k : Nat) :
    (k + 1) / n = if (k + 1) % n = 0 then k / n + 1 else k / n := by
  rw [Nat.succ_div]
  simp only [Nat.dvd_iff_mod_eq_zero]
  split <;> rfl

theorem marks_marked (n : Nat) (xs : List α) :
    marks (marked n xs) = List.range' 1 (xs.length / n) := by
  induction xs using List.reverseRecOn with
  | nil => simp [marks]
  | append_singleton xs x ih =>
      rw [marked_concat, marks_append, ih, marks_markedOne, List.length_append,
        List.length_singleton, div_succ_of_mod]
      split
      · rw [List.range'_concat, Nat.one_mul, Nat.add_comm 1]
      · rw [List.append_nil]

/-- What can follow an element in the piece that ends with it. -/
theorem markedOne_split {x y : α} {k : Nat} {before after : List (α ⊕ Nat)}
    (h : markedOne n y k = before ++ .inl x :: after) :
    before = [] ∧ after = if k % n = 0 then [.inr (k / n)] else [] := by
  unfold markedOne at h
  cases before with
  | nil =>
      rw [List.nil_append, List.cons.injEq] at h
      exact ⟨rfl, h.2.symm⟩
  | cons _ rest =>
      rw [List.cons_append, List.cons.injEq] at h
      have hMem : .inl x ∈ rest ++ .inl x :: after := by simp
      rw [← h.2] at hMem
      split at hMem
      · simp at hMem
      · simp at hMem

theorem head?_mark_iff (hn : 0 < n) (k j : Nat) :
    (if k % n = 0 then [.inr (k / n)] else [] : List (α ⊕ Nat)).head? = some (.inr j) ↔
      k = j * n := by
  have hDiv := Nat.div_add_mod k n
  split
  · rename_i hMod
    rw [List.head?_cons, Option.some.injEq, Sum.inr.injEq]
    constructor
    · rintro rfl
      rw [Nat.mul_comm]
      omega
    · rintro rfl
      exact Nat.mul_div_cancel j hn
  · rename_i hMod
    refine ⟨nofun, ?_⟩
    rintro rfl
    exact absurd (Nat.mul_mod_left j n) hMod

/-- Directly after the `i`-th element stands mark `j` just when `i = j * n`. -/
theorem mark_after_iff (hn : 0 < n) {xs : List α} {before after : List (α ⊕ Nat)} {x : α}
    (h : marked n xs = before ++ .inl x :: after) (j : Nat) :
    after.head? = some (.inr j) ↔ (unmarked before).length + 1 = j * n := by
  induction xs using List.reverseRecOn generalizing after with
  | nil => simp at h
  | append_singleton xs y ih =>
      rw [marked_concat] at h
      rcases List.append_eq_append_iff.mp h with ⟨rest, rfl, hOne⟩ | ⟨rest, hMarked, hAfter⟩
      · -- the element is the last one
        obtain ⟨rfl, rfl⟩ := markedOne_split hOne
        rw [head?_mark_iff hn, List.append_nil, unmarked_marked]
      · cases rest with
        | nil =>
            rw [List.append_nil] at hMarked
            have hOne : markedOne n y (xs.length + 1) = [] ++ .inl x :: after := hAfter.symm
            obtain ⟨-, rfl⟩ := markedOne_split hOne
            rw [head?_mark_iff hn, ← hMarked, unmarked_marked]
        | cons _ rest =>
            rw [List.cons_append, List.cons.injEq] at hAfter
            obtain ⟨rfl, rfl⟩ := hAfter
            rw [← ih hMarked]
            cases rest with
            | nil => simp [markedOne]
            | cons => rfl

theorem markedOne_mark {y : α} {k j : Nat} {before after : List (α ⊕ Nat)}
    (h : markedOne n y k = before ++ .inr j :: after) :
    before = [.inl y] ∧ k % n = 0 ∧ j = k / n := by
  unfold markedOne at h
  rcases before with _ | ⟨first, rest⟩
  · simp at h
  · rw [List.cons_append, List.cons.injEq] at h
    obtain ⟨rfl, hRest⟩ := h
    split at hRest
    · rename_i hMod
      rcases rest with _ | ⟨second, rest⟩
      · simp only [List.nil_append, List.cons.injEq, Sum.inr.injEq] at hRest
        exact ⟨rfl, hMod, hRest.1.symm⟩
      · simp at hRest
    · simp at hRest

/-- Before mark `j` there are `j * n` elements and the marks below `j`. -/
theorem before_mark {xs : List α} {before after : List (α ⊕ Nat)} {j : Nat}
    (h : marked n xs = before ++ .inr j :: after) :
    (unmarked before).length = j * n ∧ (marks before).length + 1 = j := by
  induction xs using List.reverseRecOn generalizing after with
  | nil => simp at h
  | append_singleton xs y ih =>
      rw [marked_concat] at h
      rcases List.append_eq_append_iff.mp h with ⟨rest, rfl, hOne⟩ | ⟨rest, hMarked, hAfter⟩
      · -- the mark is the last one
        obtain ⟨rfl, hMod, hj⟩ := markedOne_mark hOne
        have hDiv := Nat.div_add_mod (xs.length + 1) n
        have hSucc := div_succ_of_mod n xs.length
        rw [if_pos hMod] at hSucc
        rw [hMod, Nat.add_zero, ← hj, Nat.mul_comm] at hDiv
        constructor
        · rw [unmarked_append, unmarked_marked, List.length_append, hDiv]
          rfl
        · rw [marks_append, marks_marked, hj, hSucc]
          simp [marks]
      · cases rest with
        | nil => simp [markedOne] at hAfter
        | cons _ rest =>
            rw [List.cons_append, List.cons.injEq] at hAfter
            obtain ⟨rfl, -⟩ := hAfter
            exact ih hMarked

/-- Between a mark and the next there are `n` elements. -/
theorem between_marks {xs middle : List α} {before after : List (α ⊕ Nat)} {i j : Nat}
    (h : marked n xs = before ++ .inr i :: (middle.map .inl ++ .inr j :: after)) :
    middle.length = n ∧ j = i + 1 := by
  have hMiddle : unmarked (middle.map .inl : List (α ⊕ Nat)) = middle := by
    simp [unmarked, List.filterMap_map, Function.comp_def]
  have hNoMark : marks (middle.map .inl : List (α ⊕ Nat)) = [] := by
    simp [marks, List.filterMap_map, Function.comp_def]
  obtain ⟨hFirst, hFirstMark⟩ := before_mark h
  have hSplit : marked n xs = (before ++ [.inr i] ++ middle.map .inl) ++ .inr j :: after := by
    rw [h]
    simp
  obtain ⟨hSecond, hSecondMark⟩ := before_mark hSplit
  rw [unmarked_append, unmarked_append, hMiddle, List.length_append, List.length_append,
    hFirst] at hSecond
  rw [marks_append, marks_append, hNoMark, List.append_nil, List.length_append] at hSecondMark
  have hNext : j = i + 1 := by
    have hOne : (marks ([.inr i] : List (α ⊕ Nat))).length = 1 := rfl
    omega
  have hOne : (unmarked ([.inr i] : List (α ⊕ Nat))).length = 0 := rfl
  rw [hNext, Nat.succ_mul] at hSecond
  exact ⟨by omega, hNext⟩

end OlivawHub.Foundations
