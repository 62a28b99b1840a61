import Mathlib.Data.List.Chain
import Mathlib.Data.List.Induction

/-!
# Things done at most once in a while

Of a sequence of events some are followed by an action: the first one, and each that comes when the
last action is at least `gap` ago. The clock is read to decide and once more when the action is
taken. Then the actions are `gap` apart, and none is late: an event without one came less than `gap`
after the last (`Throttle.respects`).
-/

namespace OlivawHub.Foundations

variable {α : Type}

/-- When an event came, and when the action after it is said to have been taken. -/
structure Throttle (α : Type) where
  gap : Nat
  read : α → Nat
  mark : α → Nat

/-- The events that were followed by an action. -/
def acted (told : List (α × Bool)) : List α :=
  told.filterMap fun p => if p.2 then some p.1 else none

theorem acted_append (xs ys : List (α × Bool)) : acted (xs ++ ys) = acted xs ++ acted ys :=
  List.filterMap_append

theorem mem_acted {a : α} {told : List (α × Bool)} : a ∈ acted told ↔ (a, true) ∈ told := by
  rw [acted, List.mem_filterMap]
  constructor
  · rintro ⟨⟨b, done⟩, hMem, hDone⟩
    obtain ⟨hTrue, hSame⟩ := Option.ite_none_right_eq_some.mp hDone
    cases hTrue
    cases hSame
    exact hMem
  · intro hMem
    exact ⟨_, hMem, rfl⟩

namespace Throttle

variable (t : Throttle α)

/-- Whether the event `a` is followed by an action, after the last one at `last`. -/
def due (last : Option Nat) (a : α) : Bool :=
  last.all fun since => t.gap ≤ t.read a - since

/-- The last action after an event. -/
def next (last : Option Nat) (a : α) : Option Nat :=
  if t.due last a then some (t.mark a) else last

/-- The last action after all events. -/
def last (as : List α) : Option Nat := as.foldl t.next none

/-- The decisions, from the last action before the events on. -/
def decisions (last : Option Nat) : List α → List (α × Bool)
  | [] => []
  | a :: as => (a, t.due last a) :: decisions (t.next last a) as

theorem last_concat (as : List α) (a : α) : t.last (as ++ [a]) = t.next (t.last as) a := by
  rw [last, List.foldl_append]
  rfl

theorem decisions_append (since : Option Nat) (as bs : List α) :
    t.decisions since (as ++ bs) =
      t.decisions since as ++ t.decisions (as.foldl t.next since) bs := by
  induction as generalizing since with
  | nil => rfl
  | cons a as ih =>
      rw [List.cons_append, decisions, ih]
      rfl

theorem decisions_concat (as : List α) (a : α) :
    t.decisions none (as ++ [a]) = t.decisions none as ++ [(a, t.due (t.last as) a)] :=
  t.decisions_append none as [a]

theorem map_fst_decisions (since : Option Nat) (as : List α) :
    (t.decisions since as).map Prod.fst = as := by
  induction as generalizing since with
  | nil => rfl
  | cons a as ih => rw [decisions, List.map_cons, ih]

theorem last_eq (as : List α) :
    t.last as = (acted (t.decisions none as)).getLast?.map t.mark := by
  induction as using List.reverseRecOn with
  | nil => rfl
  | append_singleton as a ih =>
      rw [last_concat, decisions_concat, acted_append, next]
      cases t.due (t.last as) a with
      | true => simp [acted]
      | false => simpa [acted] using ih

/-- The actions are apart, and none is late. -/
structure Respects (told : List (α × Bool)) : Prop where
  apart : (acted told).IsChain fun a b => t.mark a + t.gap ≤ t.read b
  prompt : ∀ xs b ys, told = xs ++ (b, false) :: ys →
    ∃ a, (a, true) ∈ xs ∧ t.read b < t.mark a + t.gap

theorem respects (hGap : 0 < t.gap) (as : List α) : t.Respects (t.decisions none as) := by
  induction as using List.reverseRecOn with
  | nil => exact ⟨List.isChain_nil, by simp [decisions]⟩
  | append_singleton as a ih =>
      have hLast := t.last_eq as
      rw [decisions_concat]
      refine ⟨?_, fun xs b ys hSplit => ?_⟩
      · rw [acted_append]
        cases hDue : t.due (t.last as) a with
        | false => simpa [acted] using ih.apart
        | true =>
            refine List.isChain_append.mpr ⟨ih.apart, List.isChain_singleton a, ?_⟩
            intro b hb a' ha
            obtain rfl : a = a' := by simpa [acted] using ha
            rw [hLast, hb, Option.map_some] at hDue
            have hLate : t.gap ≤ t.read a - t.mark b := by simpa [due] using hDue
            omega
      · rcases List.eq_nil_or_concat ys with rfl | ⟨ys', y, rfl⟩
        · -- the new event itself came too early
          obtain ⟨rfl, hPair⟩ := List.append_inj' hSplit rfl
          obtain ⟨rfl, hDue⟩ := Prod.mk.inj (List.cons.inj hPair).1
          cases hSince : (acted (t.decisions none as)).getLast? with
          | none =>
              rw [hLast, hSince] at hDue
              cases hDue
          | some b =>
              rw [hLast, hSince, Option.map_some] at hDue
              have hEarly : ¬t.gap ≤ t.read a - t.mark b := by simpa [due] using hDue
              exact ⟨b, mem_acted.mp (List.mem_of_getLast? hSince), by omega⟩
        · refine ih.prompt xs b ys' ?_
          rw [List.concat_eq_append, ← List.cons_append, ← List.append_assoc] at hSplit
          exact (List.append_inj' hSplit rfl).1

end Throttle

end OlivawHub.Foundations
