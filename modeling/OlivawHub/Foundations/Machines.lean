import Mathlib.Data.List.Induction

/-!
# Labelled machines and their runs

A machine takes one labelled step at a time; a label that is not enabled in a state has
no successor there. All nondeterminism (the scheduler, the environment, the clock) is in
the labels, so a run is a list of labels and `exec` computes the state it ends in.

Two rules carry every proof about runs: an invariant kept by each step holds at the end
of every run (`exec_invariant`), and so does a property that relates the state to the
labels taken so far (`exec_history`). `watch` puts an observer next to a machine: the
observer may look at the machine's state at any moment but never changes it.
-/

namespace OlivawHub.Foundations

universe u v w x

/-- A machine with states `σ` and labels `ℓ`. -/
structure Machine (σ : Type u) (ℓ : Type v) where
  step : σ → ℓ → Option σ

namespace Machine

variable {σ : Type u} {ℓ : Type v} (M : Machine σ ℓ)

/-- The state after a list of labels, if all of them are enabled. -/
def exec : σ → List ℓ → Option σ
  | s, [] => some s
  | s, l :: ls => (M.step s l).bind fun s' => exec s' ls

@[simp] theorem exec_nil (s : σ) : M.exec s [] = some s := rfl

theorem exec_cons (s : σ) (l : ℓ) (ls : List ℓ) :
    M.exec s (l :: ls) = (M.step s l).bind fun s' => M.exec s' ls := rfl

theorem exec_append (s : σ) (xs ys : List ℓ) :
    M.exec s (xs ++ ys) = (M.exec s xs).bind fun s' => M.exec s' ys := by
  induction xs generalizing s with
  | nil => rfl
  | cons l ls ih =>
      simp only [List.cons_append, exec_cons, Option.bind_assoc]
      exact congrArg _ (funext fun s' => ih s')

theorem exec_snoc (s : σ) (ls : List ℓ) (l : ℓ) :
    M.exec s (ls ++ [l]) = (M.exec s ls).bind fun s' => M.step s' l := by
  rw [exec_append]
  exact congrArg _ (funext fun s' => by simp [exec_cons])

variable {M}

theorem exec_cons_some {s t : σ} {l : ℓ} {ls : List ℓ} (h : M.exec s (l :: ls) = some t) :
    ∃ s', M.step s l = some s' ∧ M.exec s' ls = some t :=
  Option.bind_eq_some_iff.mp h

/-- A run goes on from where another ended. -/
theorem exec_trans {s t u : σ} {xs ys : List ℓ} (hFirst : M.exec s xs = some t)
    (hThen : M.exec t ys = some u) : M.exec s (xs ++ ys) = some u := by
  rw [exec_append, hFirst, Option.bind_some, hThen]

/-- What every step keeps, every run keeps. -/
theorem exec_invariant {P : σ → Prop}
    (hStep : ∀ s l s', P s → M.step s l = some s' → P s') {s t : σ} {ls : List ℓ}
    (h : P s) (hRun : M.exec s ls = some t) : P t := by
  induction ls generalizing s with
  | nil => exact Option.some.inj hRun ▸ h
  | cons l ls ih =>
      obtain ⟨s', hs, hRest⟩ := exec_cons_some hRun
      exact ih (hStep s l s' h hs) hRest

/-- The same for a property of the state together with the labels that led to it. -/
theorem exec_history {P : List ℓ → σ → Prop} {s₀ : σ} (h₀ : P [] s₀)
    (hStep : ∀ past s l s', M.exec s₀ past = some s → P past s → M.step s l = some s' →
      P (past ++ [l]) s')
    {t : σ} {ls : List ℓ} (hRun : M.exec s₀ ls = some t) : P ls t := by
  induction ls using List.reverseRecOn generalizing t with
  | nil => exact Option.some.inj hRun ▸ h₀
  | append_singleton past l ih =>
      rw [exec_snoc] at hRun
      obtain ⟨s, hPast, hs⟩ := Option.bind_eq_some_iff.mp hRun
      exact hStep past s l t hPast (ih hPast) hs

/-! ## What a run puts out -/

/-- The outputs of the steps of a run, in order. -/
def outputs {τ : Type w} (M : Machine σ ℓ) (out : σ → ℓ → List τ) : σ → List ℓ → List τ
  | _, [] => []
  | s, l :: ls => out s l ++ match M.step s l with
      | some s' => outputs M out s' ls
      | none => []

theorem outputs_concat {τ : Type w} (out : σ → ℓ → List τ) {s t : σ} {past : List ℓ}
    (hRun : M.exec s past = some t) (l : ℓ) :
    M.outputs out s (past ++ [l]) = M.outputs out s past ++ out t l := by
  induction past generalizing s with
  | nil =>
      cases Option.some.inj hRun
      simp only [List.nil_append, outputs]
      split <;> simp
  | cons l' past ih =>
      obtain ⟨s', hs, hRest⟩ := exec_cons_some hRun
      simp only [List.cons_append, outputs, hs, ih hRest, List.append_assoc]

/-- A machine each of whose steps is a run of `N` is a machine each of whose runs is. -/
theorem exec_outputs {σ' : Type w} {ℓ' : Type x} {N : Machine σ' ℓ'} {f : σ → σ'}
    {out : σ → ℓ → List ℓ'}
    (hStep : ∀ s l s', M.step s l = some s' → N.exec (f s) (out s l) = some (f s')) {s t : σ}
    {ls : List ℓ} (hRun : M.exec s ls = some t) :
    N.exec (f s) (M.outputs out s ls) = some (f t) := by
  induction ls generalizing s with
  | nil =>
      cases Option.some.inj hRun
      rfl
  | cons l ls ih =>
      obtain ⟨s', hs, hRest⟩ := exec_cons_some hRun
      simp only [outputs, hs, exec_append, hStep s l s' hs, Option.bind_some]
      exact ih hRest

/-- A machine each of whose steps is one of `N`, with the same label. -/
theorem exec_map {σ' : Type w} {N : Machine σ' ℓ} {f : σ → σ'}
    (hStep : ∀ s l s', M.step s l = some s' → N.step (f s) l = some (f s')) {s t : σ}
    {ls : List ℓ} (hRun : M.exec s ls = some t) : N.exec (f s) ls = some (f t) := by
  induction ls generalizing s with
  | nil =>
      cases Option.some.inj hRun
      rfl
  | cons l ls ih =>
      obtain ⟨s', hs, hRest⟩ := exec_cons_some hRun
      rw [exec_cons, hStep s l s' hs]
      exact ih hRest

/-! ## Runs whose steps all meet a condition -/

/-- Every step of the run is taken in a state where `C` allows its label. -/
def Meets (M : Machine σ ℓ) (C : σ → ℓ → Prop) : σ → List ℓ → Prop
  | _, [] => True
  | s, l :: ls => C s l ∧ ∀ s', M.step s l = some s' → Meets M C s' ls

instance decidableMeets {C : σ → ℓ → Prop} [∀ s l, Decidable (C s l)] :
    (s : σ) → (ls : List ℓ) → Decidable (M.Meets C s ls)
  | _, [] => isTrue trivial
  | s, l :: ls =>
      match hStep : M.step s l with
      | none => decidable_of_iff (C s l) (by simp [Meets, hStep])
      | some s' =>
          have := decidableMeets (C := C) s' ls
          decidable_of_iff (C s l ∧ M.Meets C s' ls) (by simp [Meets, hStep])

theorem meets_concat {C : σ → ℓ → Prop} {s t : σ} {past : List ℓ} {l : ℓ}
    (hRun : M.exec s past = some t) :
    M.Meets C s (past ++ [l]) ↔ M.Meets C s past ∧ C t l := by
  induction past generalizing s with
  | nil =>
      cases Option.some.inj hRun
      simp [Meets]
  | cons l' past ih =>
      obtain ⟨s', hs, hRest⟩ := exec_cons_some hRun
      simp only [List.cons_append, Meets, hs, Option.some.injEq, forall_eq', ih hRest, and_assoc]

theorem meets_append {C : σ → ℓ → Prop} {s t : σ} {xs ys : List ℓ}
    (hRun : M.exec s xs = some t) (hLeft : M.Meets C s xs) (hRight : M.Meets C t ys) :
    M.Meets C s (xs ++ ys) := by
  induction xs generalizing s with
  | nil =>
      cases Option.some.inj hRun
      exact hRight
  | cons l xs ih =>
      obtain ⟨s', hs, hRest⟩ := exec_cons_some hRun
      refine ⟨hLeft.1, fun s'' hs'' => ?_⟩
      cases hs.symm.trans hs''
      exact ih hRest (hLeft.2 s' hs)

theorem meets_of_forall {C : σ → ℓ → Prop} {ls : List ℓ} (h : ∀ l ∈ ls, ∀ s, C s l) (s : σ) :
    M.Meets C s ls := by
  induction ls generalizing s with
  | nil => trivial
  | cons l ls ih =>
      exact ⟨h l (by simp) s, fun s' _ => ih (fun l' hl' => h l' (by simp [hl'])) s'⟩

theorem exec_history_of_meets {C : σ → ℓ → Prop} {P : List ℓ → σ → Prop} {s₀ : σ}
    (h₀ : P [] s₀)
    (hStep : ∀ past s l s', M.exec s₀ past = some s → C s l → P past s →
      M.step s l = some s' → P (past ++ [l]) s')
    {t : σ} {ls : List ℓ} (hMeets : M.Meets C s₀ ls) (hRun : M.exec s₀ ls = some t) : P ls t := by
  refine exec_history (P := fun past s => M.Meets C s₀ past → P past s) (fun _ => h₀) ?_ hRun
    hMeets
  intro past s l s' hPast ih hs hMeets
  obtain ⟨hBefore, hLast⟩ := (meets_concat hPast).mp hMeets
  exact hStep past s l s' hPast hLast (ih hBefore) hs

/-! ## Observers -/

/-- The machine with an observer that reads its state and keeps a state of its own. -/
def watch {ω : Type w} {κ : Type x} (M : Machine σ ℓ) (O : σ → ω → κ → Option ω) :
    Machine (σ × ω) (ℓ ⊕ κ) where
  step
    | (s, o), .inl l => (M.step s l).map fun s' => (s', o)
    | (s, o), .inr k => (O s o k).map fun o' => (s, o')

variable {ω : Type w} {κ : Type x} {O : σ → ω → κ → Option ω}

theorem watch_step_inl {s : σ} {o : ω} {l : ℓ} {t : σ × ω} :
    (M.watch O).step (s, o) (.inl l) = some t ↔ ∃ s', M.step s l = some s' ∧ (s', o) = t := by
  simp [watch]

theorem watch_step_inr {s : σ} {o : ω} {k : κ} {t : σ × ω} :
    (M.watch O).step (s, o) (.inr k) = some t ↔ ∃ o', O s o k = some o' ∧ (s, o') = t := by
  simp [watch]

/-- What the steps of the machine and those of the observer keep, every watched run keeps. -/
theorem watch_history {P : List (ℓ ⊕ κ) → σ → ω → Prop} {s₀ : σ} {o₀ : ω} (h₀ : P [] s₀ o₀)
    (hMachine : ∀ past s o l s', (M.watch O).exec (s₀, o₀) past = some (s, o) → P past s o →
      M.step s l = some s' → P (past ++ [.inl l]) s' o)
    (hObserver : ∀ past s o k o', (M.watch O).exec (s₀, o₀) past = some (s, o) → P past s o →
      O s o k = some o' → P (past ++ [.inr k]) s o')
    {s : σ} {o : ω} {ls : List (ℓ ⊕ κ)} (hRun : (M.watch O).exec (s₀, o₀) ls = some (s, o)) :
    P ls s o := by
  refine exec_history (P := fun past p => P past p.1 p.2) h₀ ?_ hRun
  rintro past ⟨s, o⟩ (l | k) ⟨s', o'⟩ hPast h hStep
  · obtain ⟨s'', hs, hEq⟩ := watch_step_inl.mp hStep
    cases hEq
    exact hMachine past s o l s' hPast h hs
  · obtain ⟨o'', ho, hEq⟩ := watch_step_inr.mp hStep
    cases hEq
    exact hObserver past s o k o' hPast h ho

/-- The watched machine runs as it would unobserved. -/
theorem watch_exec {s t : σ} {o p : ω} {ls : List (ℓ ⊕ κ)}
    (h : (M.watch O).exec (s, o) ls = some (t, p)) :
    M.exec s (ls.filterMap Sum.getLeft?) = some t := by
  induction ls generalizing s o with
  | nil =>
      cases Option.some.inj h
      rfl
  | cons l ls ih =>
      obtain ⟨⟨s', o'⟩, hs, hRest⟩ := exec_cons_some h
      cases l with
      | inl l =>
          obtain ⟨s'', hl, he⟩ := watch_step_inl.mp hs
          cases he
          simpa [List.filterMap_cons, exec_cons, hl] using ih hRest
      | inr k =>
          obtain ⟨o'', _, he⟩ := watch_step_inr.mp hs
          cases he
          simpa [List.filterMap_cons] using ih hRest

end Machine

end OlivawHub.Foundations
