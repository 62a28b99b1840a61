import OlivawHub.Foundations.Machines
import OlivawHub.Foundations.Lists

/-!
# A machine with any number of observers

Observers come at any moment and stay; each reads the state of the machine and keeps a state of its
own. What observer `i` does is a run of the machine watched by it alone (`crowd_exec_viewOf`), so it
is the same whatever the other observers do, and the machine runs as it would unobserved.
-/

namespace OlivawHub.Foundations

/-- What happens among the observers. -/
inductive CrowdStep (κ : Type) where
  /-- One more observer comes. -/
  | join
  /-- Observer `i` takes the step `k`. -/
  | act (i : Nat) (k : κ)
  deriving DecidableEq, Repr

namespace Machine

variable {σ ℓ ω κ : Type}

/-- The machine with observers who all begin in the state `o₀`. -/
def crowd (M : Machine σ ℓ) (O : σ → ω → κ → Option ω) (o₀ : ω) :
    Machine (σ × List ω) (ℓ ⊕ CrowdStep κ) where
  step
    | (s, os), .inl l => (M.step s l).map fun s' => (s', os)
    | (s, os), .inr .join => some (s, os ++ [o₀])
    | (s, os), .inr (.act i k) =>
        os[i]?.bind fun o => (O s o k).map fun o' => (s, os.set i o')

/-- What a step is for observer `i`. -/
def viewOf (i : Nat) : ℓ ⊕ CrowdStep κ → Option (ℓ ⊕ κ)
  | .inl l => some (.inl l)
  | .inr .join => none
  | .inr (.act j k) => if j = i then some (.inr k) else none

variable {M : Machine σ ℓ} {O : σ → ω → κ → Option ω} {o₀ : ω} {s t : σ} {os : List ω}

theorem crowd_step_act {i : Nat} {k : κ} {p : σ × List ω} :
    (M.crowd O o₀).step (s, os) (.inr (.act i k)) = some p ↔
      ∃ o o', os[i]? = some o ∧ O s o k = some o' ∧ (s, os.set i o') = p := by
  simp [crowd, Option.bind_eq_some_iff]

/-- One step, as observer `i` sees it: it comes in the state it has before it does anything. -/
theorem crowd_step_viewOf (i : Nat) {l : ℓ ⊕ CrowdStep κ} {os' : List ω}
    (hStep : (M.crowd O o₀).step (s, os) l = some (t, os')) :
    (M.watch O).exec (s, os[i]?.getD o₀) (viewOf i l).toList = some (t, os'[i]?.getD o₀) := by
  cases l with
  | inl l =>
      obtain ⟨t', hMachine, hEq⟩ := Option.map_eq_some_iff.mp hStep
      cases hEq
      have hWatch : (M.watch O).step (s, os[i]?.getD o₀) (.inl l) = some (t, os[i]?.getD o₀) :=
        watch_step_inl.mpr ⟨t, hMachine, rfl⟩
      rw [viewOf, Option.toList_some, exec_cons, hWatch]
      rfl
  | inr c =>
      cases c with
      | join =>
          cases hStep
          have hSame : (os ++ [o₀])[i]?.getD o₀ = os[i]?.getD o₀ := by
            rcases Nat.lt_trichotomy i os.length with hLt | rfl | hGt
            · rw [List.getElem?_append_left hLt]
            · simp
            · rw [List.getElem?_eq_none (by simp; omega), List.getElem?_eq_none (by omega)]
          rw [hSame]
          rfl
      | act j k =>
          obtain ⟨o, o', ho, hObserve, hEq⟩ := crowd_step_act.mp hStep
          cases hEq
          obtain ⟨hLt, -⟩ := List.getElem?_eq_some_iff.mp ho
          by_cases hj : j = i
          · subst hj
            have hWatch : (M.watch O).step (s, o) (.inr k) = some (s, o') :=
              watch_step_inr.mpr ⟨o', hObserve, rfl⟩
            rw [ho, List.getElem?_set, if_pos rfl, if_pos hLt, viewOf, if_pos rfl,
              Option.toList_some, Option.getD_some, Option.getD_some, exec_cons, hWatch]
            rfl
          · rw [List.getElem?_set, if_neg hj, viewOf, if_neg hj]
            rfl

/-- Every observer watches the machine as if it were alone. -/
theorem crowd_exec_viewOf (i : Nat) {ls : List (ℓ ⊕ CrowdStep κ)}
    (hRun : (M.crowd O o₀).exec (s, []) ls = some (t, os)) :
    (M.watch O).exec (s, o₀) (ls.filterMap (viewOf i)) = some (t, os[i]?.getD o₀) := by
  refine exec_history (M := M.crowd O o₀) (P := fun past p =>
    (M.watch O).exec (s, o₀) (past.filterMap (viewOf i)) = some (p.1, p.2[i]?.getD o₀)) rfl ?_ hRun
  rintro past ⟨u, us⟩ l ⟨u', us'⟩ - ih hStep
  rw [filterMap_concat_toList]
  exact exec_trans ih (crowd_step_viewOf i hStep)

/-- The machine runs as it would unobserved. -/
theorem crowd_exec {ls : List (ℓ ⊕ CrowdStep κ)}
    (hRun : (M.crowd O o₀).exec (s, []) ls = some (t, os)) :
    M.exec s (ls.filterMap Sum.getLeft?) = some t := by
  have hAlone := watch_exec (crowd_exec_viewOf 0 hRun)
  rw [List.filterMap_filterMap] at hAlone
  have hSame : (fun l : ℓ ⊕ CrowdStep κ => (viewOf 0 l).bind Sum.getLeft?) = Sum.getLeft? := by
    funext l
    cases l with
    | inl l => rfl
    | inr c =>
        cases c with
        | join => rfl
        | act j k => by_cases hj : j = 0 <;> simp [viewOf, hj]
  rwa [hSame] at hAlone

end Machine

end OlivawHub.Foundations
