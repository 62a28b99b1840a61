import Mathlib.Data.List.Induction

/-!
# Wins since the last reset

A trace whose entries may be resets, and may be wins. `winsSince` counts the wins since the last
reset, those of its own entry included. A bound on this number along a trace bounds the wins of
every part of the trace that has no reset after its first entry (`countP_le_winsSince`).
-/

namespace OlivawHub.Foundations

universe u

variable {α : Type u} (resets wins : α → Bool)

/-- The wins of the trace since its last reset. -/
def winsSince (trace : List α) : Nat :=
  trace.foldl (fun n x => (if resets x then 0 else n) + if wins x then 1 else 0) 0

@[simp] theorem winsSince_nil : winsSince resets wins [] = 0 := rfl

@[simp] theorem winsSince_concat (trace : List α) (x : α) :
    winsSince resets wins (trace ++ [x]) =
      (if resets x then 0 else winsSince resets wins trace) + if wins x then 1 else 0 := by
  simp [winsSince]

theorem countP_le_winsSince (before : List α) {part : List α}
    (h : ∀ x ∈ part.tail, resets x = false) :
    part.countP wins ≤ winsSince resets wins (before ++ part) := by
  induction part using List.reverseRecOn with
  | nil => simp
  | append_singleton part x ih =>
      rw [← List.append_assoc, winsSince_concat, List.countP_append]
      cases part with
      | nil =>
          rw [List.countP_nil, Nat.zero_add, List.countP_singleton]
          exact Nat.le_add_left _ _
      | cons y part =>
          have hLast : resets x = false := h x (by simp)
          have hPart := ih fun z hz => h z (by simpa using Or.inl hz)
          rw [hLast, List.countP_singleton]
          exact Nat.add_le_add_right hPart _

/-- A win since the last reset is one that no reset follows. -/
theorem exists_win_of_winsSince {trace : List α} (h : 0 < winsSince resets wins trace) :
    ∃ before x after, trace = before ++ x :: after ∧ wins x = true ∧
      ∀ y ∈ after, resets y = false := by
  induction trace using List.reverseRecOn with
  | nil => simp at h
  | append_singleton trace x ih =>
      cases hWin : wins x with
      | true => exact ⟨trace, x, [], rfl, hWin, by simp⟩
      | false =>
          cases hReset : resets x with
          | true => simp [hWin, hReset] at h
          | false =>
              simp only [winsSince_concat, hWin, hReset, Bool.false_eq_true, if_false,
                Nat.add_zero] at h
              obtain ⟨before, y, after, rfl, hy, hAfter⟩ := ih h
              refine ⟨before, y, after ++ [x], by simp, hy, ?_⟩
              intro z hz
              rcases List.mem_append.mp hz with hOld | hNew
              · exact hAfter z hOld
              · rw [List.mem_singleton.mp hNew, hReset]

end OlivawHub.Foundations
