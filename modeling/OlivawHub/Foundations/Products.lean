import OlivawHub.Foundations.Machines

/-!
# Two machines that share some steps

A label of `together` is some steps of the first machine and, at the same moment, some of the
second, which may depend on the state of the first: a value that the one hands to the other. A run
of both is a run of each (`exec_fst`, `exec_snd`).
-/

namespace OlivawHub.Foundations

namespace Machine

variable {σ τ ℓ κ α : Type}

/-- Both machines. -/
def together (M : Machine σ ℓ) (N : Machine τ κ) (left : α → List ℓ) (right : σ → α → List κ) :
    Machine (σ × τ) α where
  step p a :=
    (M.exec p.1 (left a)).bind fun s => (N.exec p.2 (right p.1 a)).map fun t => (s, t)

variable {M : Machine σ ℓ} {N : Machine τ κ} {left : α → List ℓ} {right : σ → α → List κ}
  {p q : σ × τ} {as : List α}

theorem together_step {a : α} : (M.together N left right).step p a = some q ↔
    M.exec p.1 (left a) = some q.1 ∧ N.exec p.2 (right p.1 a) = some q.2 := by
  obtain ⟨s, t⟩ := q
  simp [together, Option.bind_eq_some_iff]

theorem exec_fst (hRun : (M.together N left right).exec p as = some q) :
    M.exec p.1 (as.flatMap left) = some q.1 := by
  induction as generalizing p with
  | nil =>
      cases Option.some.inj hRun
      rfl
  | cons a as ih =>
      obtain ⟨p', hStep, hRest⟩ := exec_cons_some hRun
      exact exec_trans (together_step.mp hStep).1 (ih hRest)

/-- The steps of the second machine in a run of both. -/
def rightSteps (M : Machine σ ℓ) (N : Machine τ κ) (left : α → List ℓ) (right : σ → α → List κ)
    (p : σ × τ) (as : List α) : List κ :=
  (M.together N left right).outputs (fun p a => right p.1 a) p as

theorem rightSteps_concat (hRun : (M.together N left right).exec p as = some q) (a : α) :
    rightSteps M N left right p (as ++ [a]) =
      rightSteps M N left right p as ++ right q.1 a := outputs_concat _ hRun a

theorem exec_snd (hRun : (M.together N left right).exec p as = some q) :
    N.exec p.2 (rightSteps M N left right p as) = some q.2 :=
  exec_outputs (f := Prod.snd) (fun _ _ _ hStep => (together_step.mp hStep).2) hRun

end Machine

end OlivawHub.Foundations
