import Mathlib.Logic.Relation
import Mathlib.Data.List.Perm.Basic

/-!
# A reader-writer lock

The value behind the lock is overwritten piece by piece by the one writer that holds it, or looked
at piece by piece by any number of readers. A reader is a request with the progress made on it;
`look v q k` is one look of the reader at the value: it goes on, or it leaves with its answer.

While a writer is at work the value in memory is neither the old nor the new one, but nobody looks
at it: with `settled`, the value as it will be once the writer is done, every writer acts in one
step, and every answer is that of a reader who makes all its looks at this one value
(`Consistent.step`). The parties inside can always leave (`drain`).
-/

namespace OlivawHub.Foundations

variable {σ q κ ρ : Type}

/-- Who is inside. -/
structure RwLock (σ q κ : Type) where
  /-- What is left to do for the writer. -/
  writer : Option (List (σ → σ))
  readers : List (q × κ)

/-- What the parties do with a lock, the start of a write apart. -/
inductive RwStep (q : Type) where
  /-- The writer does its next piece. -/
  | write
  /-- The writer leaves. -/
  | release
  /-- A reader gets the lock. -/
  | enter (request : q)
  /-- Reader `i` looks. -/
  | look (i : Nat)
  deriving DecidableEq, Repr

/-- The looks that readers take, and how they begin. -/
structure Reader (σ q κ ρ : Type) where
  start : q → κ
  look : σ → q → κ → κ ⊕ ρ

namespace Reader

variable (R : Reader σ q κ ρ)

/-- One look at `v` and no answer yet. -/
def GoesOn (v : σ) (request : q) (k k' : κ) : Prop := R.look v request k = .inl k'

/-- All the looks at `v` together end in this answer. -/
def Answers (v : σ) (request : q) (answer : ρ) : Prop :=
  ∃ k, Relation.ReflTransGen (R.GoesOn v request) (R.start request) k ∧
    R.look v request k = .inr answer

/-- No reader looks for ever. -/
def Terminates : Prop := ∀ v request k, Acc (fun k' k => R.GoesOn v request k k') k

end Reader

namespace RwLock

/-- Nobody is inside. -/
def free : RwLock σ q κ := ⟨none, []⟩

/-- A writer gets the lock. -/
def acquire (l : RwLock σ q κ) (pieces : List (σ → σ)) : Option (RwLock σ q κ) :=
  match l.writer, l.readers with
  | none, [] => some { l with writer := some pieces }
  | _, _ => none

/-- One step, with the value afterwards and the answer of a reader that leaves. -/
def step (R : Reader σ q κ ρ) (l : RwLock σ q κ) (v : σ) :
    RwStep q → Option (RwLock σ q κ × σ × Option (q × ρ))
  | .write =>
      match l.writer with
      | some (piece :: pieces) => some ({ l with writer := some pieces }, piece v, none)
      | _ => none
  | .release =>
      match l.writer with
      | some [] => some ({ l with writer := none }, v, none)
      | _ => none
  | .enter request =>
      match l.writer with
      | none => some ({ l with readers := l.readers ++ [(request, R.start request)] }, v, none)
      | some _ => none
  | .look i =>
      match l.readers[i]? with
      | some (request, k) =>
          match R.look v request k with
          | .inl k' => some ({ l with readers := l.readers.set i (request, k') }, v, none)
          | .inr answer =>
              some ({ l with readers := l.readers.eraseIdx i }, v, some (request, answer))
      | none => none

/-- The value once the writer is done. -/
def settled (l : RwLock σ q κ) (v : σ) : σ := (l.writer.getD []).foldl (fun v piece => piece v) v

/-- What holds between any two steps. -/
structure Consistent (R : Reader σ q κ ρ) (l : RwLock σ q κ) (v : σ) : Prop where
  exclusive : l.writer.isSome → l.readers = []
  looked : ∀ r ∈ l.readers, Relation.ReflTransGen (R.GoesOn v r.1) (R.start r.1) r.2

variable {R : Reader σ q κ ρ} {l l' : RwLock σ q κ} {v v' : σ} {out : Option (q × ρ)}
  {st : RwStep q}

theorem acquire_eq_some {pieces : List (σ → σ)} :
    l.acquire pieces = some l' ↔ l = free ∧ l' = ⟨some pieces, []⟩ := by
  obtain ⟨writer, readers⟩ := l
  cases writer <;> cases readers <;> simp [acquire, free, eq_comm]

/-- All that a step can do. -/
theorem step_cases (h : l.step R v st = some (l', v', out)) :
    (∃ piece pieces, st = .write ∧ l.writer = some (piece :: pieces) ∧
      l' = { l with writer := some pieces } ∧ v' = piece v ∧ out = none) ∨
    (st = .release ∧ l.writer = some [] ∧ l' = { l with writer := none } ∧ v' = v ∧ out = none) ∨
    (∃ request, st = .enter request ∧ l.writer = none ∧
      l' = { l with readers := l.readers ++ [(request, R.start request)] } ∧ v' = v ∧
        out = none) ∨
    (∃ i request k k', st = .look i ∧ l.readers[i]? = some (request, k) ∧
      R.look v request k = .inl k' ∧ l' = { l with readers := l.readers.set i (request, k') } ∧
        v' = v ∧ out = none) ∨
    (∃ i request k answer, st = .look i ∧ l.readers[i]? = some (request, k) ∧
      R.look v request k = .inr answer ∧ l' = { l with readers := l.readers.eraseIdx i } ∧
        v' = v ∧ out = some (request, answer)) := by
  cases st with
  | write =>
      simp only [step] at h
      split at h
      · rename_i piece pieces hWriter
        cases h
        exact Or.inl ⟨piece, pieces, rfl, hWriter, rfl, rfl, rfl⟩
      · cases h
  | release =>
      simp only [step] at h
      split at h
      · rename_i hWriter
        cases h
        exact Or.inr (Or.inl ⟨rfl, hWriter, rfl, rfl, rfl⟩)
      · cases h
  | enter request =>
      simp only [step] at h
      split at h
      · rename_i hWriter
        cases h
        exact Or.inr (Or.inr (Or.inl ⟨request, rfl, hWriter, rfl, rfl, rfl⟩))
      · cases h
  | look i =>
      simp only [step] at h
      split at h
      · rename_i request k hReader
        split at h
        · rename_i k' hLook
          cases h
          exact Or.inr (Or.inr (Or.inr (Or.inl ⟨i, request, k, k', rfl, hReader, hLook, rfl, rfl,
            rfl⟩)))
        · rename_i answer hLook
          cases h
          exact Or.inr (Or.inr (Or.inr (Or.inr ⟨i, request, k, answer, rfl, hReader, hLook, rfl,
            rfl, rfl⟩)))
      · cases h

theorem settled_of_none (h : l.writer = none) (v : σ) : l.settled v = v := by
  rw [settled, h]
  rfl

namespace Consistent

theorem free (R : Reader σ q κ ρ) (v : σ) : Consistent R RwLock.free v :=
  ⟨fun h => absurd h Bool.false_ne_true, by simp [RwLock.free]⟩

/-- A reader is inside only without a writer. -/
theorem no_writer (h : Consistent R l v) {i : Nat} {r : q × κ} (hr : l.readers[i]? = some r) :
    l.writer = none := by
  cases hWriter : l.writer with
  | none => rfl
  | some pieces =>
      rw [h.exclusive (by rw [hWriter]; rfl)] at hr
      cases hr

/-- The whole write counts when it begins. -/
theorem acquire {pieces : List (σ → σ)} (h : l.acquire pieces = some l') (v : σ) :
    Consistent R l' v ∧ l.settled v = v ∧
      l'.settled v = pieces.foldl (fun v piece => piece v) v := by
  obtain ⟨rfl, rfl⟩ := acquire_eq_some.mp h
  exact ⟨⟨fun _ => rfl, by simp⟩, rfl, rfl⟩

/-- A step inside leaves the settled value as it is, and who leaves has an answer to it. -/
theorem step (h : Consistent R l v) (hStep : l.step R v st = some (l', v', out)) :
    Consistent R l' v' ∧ l'.settled v' = l.settled v ∧
      ∀ request answer, out = some (request, answer) →
        l.writer = none ∧ R.Answers v request answer := by
  rcases step_cases hStep with ⟨piece, pieces, -, hWriter, rfl, rfl, rfl⟩ |
    ⟨-, hWriter, rfl, rfl, rfl⟩ | ⟨request, -, hWriter, rfl, rfl, rfl⟩ |
    ⟨i, request, k, k', -, hReader, hLook, rfl, rfl, rfl⟩ |
    ⟨i, request, k, answer, -, hReader, hLook, rfl, rfl, rfl⟩
  · have hNone : l.readers = [] := h.exclusive (by rw [hWriter]; rfl)
    refine ⟨⟨fun _ => hNone, by simp [hNone]⟩, ?_, nofun⟩
    rw [settled, settled, hWriter]
    rfl
  · have hNone : l.readers = [] := h.exclusive (by rw [hWriter]; rfl)
    refine ⟨⟨fun _ => hNone, by simp [hNone]⟩, ?_, nofun⟩
    rw [settled, settled, hWriter]
    rfl
  · refine ⟨⟨fun hSome => ?_, fun r hr => ?_⟩, rfl, nofun⟩
    · rw [hWriter] at hSome
      cases hSome
    · rcases List.mem_append.mp hr with hOld | hNew
      · exact h.looked r hOld
      · rw [List.mem_singleton.mp hNew]
  · have hWriter := h.no_writer hReader
    refine ⟨⟨fun hSome => ?_, fun r hr => ?_⟩, rfl, nofun⟩
    · rw [hWriter] at hSome
      cases hSome
    · rcases List.mem_or_eq_of_mem_set hr with hOld | rfl
      · exact h.looked r hOld
      · exact (h.looked _ (List.mem_of_getElem? hReader)).tail hLook
  · have hWriter := h.no_writer hReader
    refine ⟨⟨fun hSome => ?_, fun r hr => ?_⟩, rfl, ?_⟩
    · rw [hWriter] at hSome
      cases hSome
    · exact h.looked r (List.mem_of_mem_eraseIdx hr)
    · rintro _ _ ⟨⟩
      exact ⟨hWriter, k, h.looked _ (List.mem_of_getElem? hReader), hLook⟩

end Consistent

/-! ## Everybody can leave -/

/-- Nobody is forgotten: who is no longer inside has an answer. -/
theorem readers_perm (hEnter : ∀ request, st ≠ .enter request)
    (hStep : l.step R v st = some (l', v', out)) :
    (l.readers.map Prod.fst).Perm (out.toList.map Prod.fst ++ l'.readers.map Prod.fst) := by
  rcases step_cases hStep with ⟨_, _, -, -, rfl, -, rfl⟩ | ⟨-, -, rfl, -, rfl⟩ |
    ⟨request, hOther, -⟩ | ⟨i, request, k, k', -, hReader, -, rfl, -, rfl⟩ |
    ⟨i, request, k, answer, -, hReader, -, rfl, -, rfl⟩
  · exact List.Perm.refl _
  · exact List.Perm.refl _
  · exact absurd hOther (hEnter request)
  · have hSame : (l.readers.set i (request, k')).map Prod.fst = l.readers.map Prod.fst := by
      refine List.ext_getElem? fun j => ?_
      rw [List.getElem?_map, List.getElem?_map, List.getElem?_set]
      obtain ⟨hLt, -⟩ := List.getElem?_eq_some_iff.mp hReader
      by_cases hi : i = j
      · subst hi
        rw [if_pos rfl, if_pos hLt, hReader]
        rfl
      · rw [if_neg hi]
    rw [hSame]
    exact List.Perm.refl _
  · obtain ⟨hLt, hEq⟩ := List.getElem?_eq_some_iff.mp hReader
    have hFront := List.getElem_cons_eraseIdx_perm hLt
    rw [hEq] at hFront
    exact (hFront.map Prod.fst).symm

/-- What holds of a free lock, and before a step inside if it does after it, holds of every lock
that is reached: the steps inside come to an end. -/
theorem drain (hTerminates : R.Terminates) {P : RwLock σ q κ → σ → Prop} (hFree : ∀ v, P free v)
    (hStep : ∀ l v st l' v' out, (∀ request, st ≠ .enter request) →
      l.step R v st = some (l', v', out) → P l' v' → P l v)
    (h : Consistent R l v) : P l v := by
  obtain ⟨writer, readers⟩ := l
  cases writer with
  | some pieces =>
      have hNone : readers = [] := h.exclusive rfl
      subst hNone
      clear h
      induction pieces generalizing v with
      | nil => exact hStep _ _ .release _ _ _ nofun rfl (hFree v)
      | cons piece pieces ih => exact hStep _ _ .write _ _ _ nofun rfl ih
  | none =>
      clear h
      induction readers with
      | nil => exact hFree v
      | cons r readers ih =>
          obtain ⟨request, k⟩ := r
          -- the first reader looks until it leaves
          induction hTerminates v request k with
          | intro k _ ihLook =>
              cases hLook : R.look v request k with
              | inl k' =>
                  refine hStep _ _ (.look 0) ⟨none, (request, k') :: readers⟩ v none nofun ?_
                    (ihLook k' hLook)
                  simp [step, hLook]
              | inr answer =>
                  refine hStep _ _ (.look 0) ⟨none, readers⟩ v (some (request, answer)) nofun ?_ ih
                  simp [step, hLook]

end RwLock

end OlivawHub.Foundations
