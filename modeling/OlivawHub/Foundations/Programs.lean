import Mathlib.Data.List.Basic

/-!
# Sequential programs over an interface of atomic operations

A program `Prog I α` is a tree of operations of the interface `I`; what it does next may
depend on the replies it gets. A handler says what one operation does to a state. From
these the file derives

* `Prog.run`: the whole program as one state transformer,
* `Prog.ops`: the operations the program performs on the way,
* `Prog.next`: one operation, for interleaving the program with other parties.

Running to the end and going one operation at a time agree: after one operation, what is
still to be performed is the tail of `ops` (`ops_next`), so the state after any number of
operations is a replay of a prefix of `ops` (`replay`), and the operations of a sequence
are those of its parts (`ops_bind`).
-/

namespace OlivawHub.Foundations

universe u

/-- Operations, each with the type of its reply. -/
structure Interface where
  Op : Type
  Reply : Op → Type

/-- A sequential program over the operations of `I`. -/
inductive Prog (I : Interface) (α : Type) : Type where
  | ret (a : α)
  | op (o : I.Op) (k : I.Reply o → Prog I α)

/-- What each operation does to a state, and what it replies. -/
abbrev Handler (I : Interface) (σ : Type u) := (o : I.Op) → σ → I.Reply o × σ

namespace Prog

variable {I : Interface} {α β : Type} {σ : Type u}

protected def bind : Prog I α → (α → Prog I β) → Prog I β
  | .ret a, f => f a
  | .op o k, f => .op o fun r => (k r).bind f

instance : Monad (Prog I) where
  pure := .ret
  bind := Prog.bind

@[simp] theorem pure_eq (a : α) : (pure a : Prog I α) = .ret a := rfl

@[simp] theorem ret_bind (a : α) (f : α → Prog I β) : (Prog.ret a >>= f) = f a := rfl

@[simp] theorem op_bind (o : I.Op) (k : I.Reply o → Prog I α) (f : α → Prog I β) :
    (Prog.op o k >>= f) = .op o fun r => k r >>= f := rfl

@[simp] theorem bind_assoc {γ : Type} (p : Prog I α) (f : α → Prog I β) (g : β → Prog I γ) :
    ((p >>= f) >>= g) = p >>= fun a => f a >>= g := by
  induction p with
  | ret a => rfl
  | op o k ih => exact congrArg (Prog.op o) (funext fun r => ih r)

/-! ## Running to the end -/

/-- The result and the final state of the whole program. -/
def run (H : Handler I σ) : Prog I α → σ → α × σ
  | .ret a, s => (a, s)
  | .op o k, s => (k (H o s).1).run H (H o s).2

/-- The operations the program performs from a state, in order. -/
def ops (H : Handler I σ) : Prog I α → σ → List I.Op
  | .ret _, _ => []
  | .op o k, s => o :: (k (H o s).1).ops H (H o s).2

/-- The state after a list of operations. -/
def replay (H : Handler I σ) (s : σ) (os : List I.Op) : σ :=
  os.foldl (fun s o => (H o s).2) s

@[simp] theorem replay_nil (H : Handler I σ) (s : σ) : replay H s [] = s := rfl

@[simp] theorem replay_cons (H : Handler I σ) (s : σ) (o : I.Op) (os : List I.Op) :
    replay H s (o :: os) = replay H (H o s).2 os := rfl

@[simp] theorem replay_append (H : Handler I σ) (s : σ) (xs ys : List I.Op) :
    replay H s (xs ++ ys) = replay H (replay H s xs) ys := List.foldl_append

theorem run_snd_eq_replay (H : Handler I σ) (p : Prog I α) (s : σ) :
    (p.run H s).2 = replay H s (p.ops H s) := by
  induction p generalizing s with
  | ret a => rfl
  | op o k ih => exact ih _ _

theorem run_bind (H : Handler I σ) (p : Prog I α) (f : α → Prog I β) (s : σ) :
    (p >>= f).run H s = (f (p.run H s).1).run H (p.run H s).2 := by
  induction p generalizing s with
  | ret a => rfl
  | op o k ih => exact ih _ _

theorem ops_bind (H : Handler I σ) (p : Prog I α) (f : α → Prog I β) (s : σ) :
    (p >>= f).ops H s = p.ops H s ++ (f (p.run H s).1).ops H (p.run H s).2 := by
  induction p generalizing s with
  | ret a => rfl
  | op o k ih => exact congrArg (o :: ·) (ih _ _)

/-! ## One operation at a time -/

/-- The next operation, with the rest of the program and the state after it. -/
def next (H : Handler I σ) : Prog I α → σ → Option (I.Op × Prog I α × σ)
  | .ret _, _ => none
  | .op o k, s => some (o, k (H o s).1, (H o s).2)

theorem ops_next {H : Handler I σ} {p p' : Prog I α} {s s' : σ} {o : I.Op}
    (h : p.next H s = some (o, p', s')) :
    p.ops H s = o :: p'.ops H s' ∧ p'.run H s' = p.run H s ∧ s' = (H o s).2 := by
  cases p with
  | ret a => cases h
  | op o k =>
      cases h
      exact ⟨rfl, rfl, rfl⟩

end Prog

end OlivawHub.Foundations
