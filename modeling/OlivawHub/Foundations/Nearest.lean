import Mathlib.Order.Bounds.Basic

/-!
# The least value below a cap

A loop that keeps the smallest value seen, starting from a cap, ends with the least value below the
cap if there is one, and with the cap otherwise (`nearest_eq_some_iff`, `nearest_eq_none_iff`).
-/

namespace OlivawHub.Foundations

section Loop

variable {K : Type} [LT K] [DecidableLT K]

/-- The smallest of `best` and the values. -/
def runningMin (best : K) (values : List K) : K :=
  values.foldl (fun best t => if t < best then t else best) best

/-- The smallest of the values below `cap`. -/
def nearest (cap : K) (values : List K) : Option K :=
  if runningMin cap values < cap then some (runningMin cap values) else none

end Loop

variable {K : Type} [LinearOrder K] {cap t : K} {values : List K}

theorem isLeast_runningMin (cap : K) (values : List K) :
    IsLeast {t | t = cap ∨ t ∈ values} (runningMin cap values) := by
  induction values generalizing cap with
  | nil => exact ⟨Or.inl rfl, fun t ht => (ht.resolve_right List.not_mem_nil).ge⟩
  | cons v values ih =>
      by_cases hLt : v < cap
      · have hStep : runningMin cap (v :: values) = runningMin v values :=
          congrArg (runningMin · values) (if_pos hLt)
        obtain ⟨hMem, hLeast⟩ := ih v
        rw [hStep]
        refine ⟨Or.inr (List.mem_cons.mpr hMem), ?_⟩
        rintro t (rfl | ht)
        · exact (hLeast (Or.inl rfl)).trans hLt.le
        · exact hLeast (List.mem_cons.mp ht)
      · have hStep : runningMin cap (v :: values) = runningMin cap values :=
          congrArg (runningMin · values) (if_neg hLt)
        obtain ⟨hMem, hLeast⟩ := ih cap
        rw [hStep]
        refine ⟨hMem.imp_right (List.mem_cons_of_mem _), ?_⟩
        rintro t (rfl | ht)
        · exact hLeast (Or.inl rfl)
        · rcases List.mem_cons.mp ht with rfl | hOld
          · exact (hLeast (Or.inl rfl)).trans (not_lt.mp hLt)
          · exact hLeast (Or.inr hOld)

theorem nearest_eq_some_iff :
    nearest cap values = some t ↔ IsLeast {t | t ∈ values ∧ t < cap} t := by
  obtain ⟨hMem, hLeast⟩ := isLeast_runningMin cap values
  unfold nearest
  split
  · rename_i hLt
    have hMin : IsLeast {t | t ∈ values ∧ t < cap} (runningMin cap values) :=
      ⟨⟨hMem.resolve_left hLt.ne, hLt⟩, fun t ht => hLeast (Or.inr ht.1)⟩
    rw [Option.some.injEq]
    exact ⟨fun hEq => hEq ▸ hMin, fun h => hMin.unique h⟩
  · rename_i hCap
    refine ⟨nofun, fun h => ?_⟩
    exact absurd ((hLeast (Or.inr h.1.1)).trans_lt h.1.2) hCap

theorem nearest_eq_none_iff : nearest cap values = none ↔ ∀ t ∈ values, ¬t < cap := by
  obtain ⟨hMem, hLeast⟩ := isLeast_runningMin cap values
  unfold nearest
  split
  · rename_i hLt
    exact ⟨nofun, fun h => absurd hLt (h _ (hMem.resolve_left hLt.ne))⟩
  · rename_i hCap
    exact ⟨fun _ t ht hLt => hCap ((hLeast (Or.inr ht)).trans_lt hLt), fun _ => rfl⟩

end OlivawHub.Foundations
