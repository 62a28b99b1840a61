import OlivawHub.Foundations.Lists

/-!
# Registers whose changes are announced

One task writes a register and announces what it wrote. `Announced v ts` is its discipline,
starting at the value `v`: a write that changes the value is followed at once by the
announcement of the new value; one that does not may stay silent.

A listener starts from a value it read and takes over what it hears. Whoever starts
listening first and reads afterwards ends with the value of the register, wherever the two
moments lie between writes and announcements (`Announced.handOff`).
-/

namespace OlivawHub.Foundations

/-- The two things that happen to a register. -/
inductive Touch (β : Type) where
  | write (b : β)
  | announce (b : β)

variable {β : Type}

/-- The value a write leaves. -/
@[simp] def Touch.written? : Touch β → Option β
  | .write b => some b
  | .announce _ => none

/-- The value an announcement tells. -/
@[simp] def Touch.announced? : Touch β → Option β
  | .write _ => none
  | .announce b => some b

/-- Every change of the register is announced before the next write. -/
inductive Announced : β → List (Touch β) → Prop where
  | nil {v : β} : Announced v []
  | unchanged {v : β} {ts : List (Touch β)} (h : Announced v ts) : Announced v (.write v :: ts)
  | told {v w : β} {ts : List (Touch β)} (h : Announced w ts) :
      Announced v (.write w :: .announce w :: ts)

namespace Announced

variable {v w : β} {ts xs ys zs : List (Touch β)}

theorem append (hLeft : Announced v xs) (hRight : Announced (latest Touch.written? v xs) ys) :
    Announced v (xs ++ ys) := by
  induction hLeft with
  | nil => exact hRight
  | unchanged h ih => exact (ih hRight).unchanged
  | told h ih => exact (ih hRight).told

/-- Hearing everything from the start is knowing the value. -/
theorem heard_all (h : Announced v ts) :
    latest Touch.announced? v ts = latest Touch.written? v ts := by
  induction h with
  | nil => rfl
  | unchanged h ih => exact ih
  | told h ih => exact ih

/-- While nothing is announced the value stays. -/
theorem quiet (h : Announced v ts) (hSplit : ts = xs ++ ys)
    (hQuiet : ∀ t ∈ ys, Touch.announced? t = none) :
    latest Touch.written? v xs = latest Touch.written? v ts := by
  induction h generalizing xs ys with
  | nil => rw [(List.append_eq_nil_iff.mp hSplit.symm).1]
  | @unchanged v ts h ih =>
      cases xs with
      | nil =>
          obtain rfl : _ = ys := hSplit
          have hTail := ih (List.nil_append ts).symm fun t ht => hQuiet t (by simp [ht])
          exact hTail
      | cons x xs =>
          obtain ⟨rfl, hRest⟩ := List.cons.inj hSplit
          have hTail := ih hRest hQuiet
          exact hTail
  | @told v w ts h ih =>
      have hLoud : Touch.announce w ∉ ys := fun hMem => by simpa using hQuiet _ hMem
      rcases xs with _ | ⟨x, _ | ⟨y, xs⟩⟩
      · obtain rfl : _ = ys := hSplit
        simp at hLoud
      · obtain ⟨-, hRest⟩ := List.cons.inj hSplit
        obtain rfl : _ = ys := hRest
        simp at hLoud
      · simp only [List.cons_append, List.cons.injEq] at hSplit
        obtain ⟨rfl, rfl, hRest⟩ := hSplit
        have hTail := ih hRest hQuiet
        exact hTail

/-- The last announcement tells the value. -/
theorem truthful (h : Announced v ts) (hSplit : ts = xs ++ ys)
    (hLoud : ∃ t ∈ ys, Touch.announced? t ≠ none) (b : β) :
    latest Touch.announced? b ys = latest Touch.written? v ts := by
  induction h generalizing xs ys with
  | nil =>
      obtain ⟨t, ht, -⟩ := hLoud
      rw [(List.append_eq_nil_iff.mp hSplit.symm).2] at ht
      cases ht
  | @unchanged v ts h ih =>
      cases xs with
      | nil =>
          obtain rfl : _ = ys := hSplit
          obtain ⟨t, ht, hne⟩ := hLoud
          rcases List.mem_cons.mp ht with rfl | ht
          · simp at hne
          · have hTail := ih (List.nil_append ts).symm ⟨t, ht, hne⟩
            exact hTail
      | cons x xs =>
          obtain ⟨rfl, hRest⟩ := List.cons.inj hSplit
          have hTail := ih hRest hLoud
          exact hTail
  | @told v w ts h ih =>
      rcases xs with _ | ⟨x, _ | ⟨y, xs⟩⟩
      · obtain rfl : _ = ys := hSplit
        exact h.heard_all
      · obtain ⟨rfl, hRest⟩ := List.cons.inj hSplit
        obtain rfl : _ = ys := hRest
        exact h.heard_all
      · simp only [List.cons_append, List.cons.injEq] at hSplit
        obtain ⟨rfl, rfl, hRest⟩ := hSplit
        have hTail := ih hRest hLoud
        exact hTail

/-- What is announced was written last. -/
theorem written_last {b : β} (h : Announced v ts) (hSplit : ts = xs ++ .announce b :: ys) :
    ∃ before, xs = before ++ [.write b] := by
  induction h generalizing xs with
  | nil => cases xs <;> cases hSplit
  | @unchanged v ts h ih =>
      cases xs with
      | nil => cases hSplit
      | cons x xs =>
          obtain ⟨rfl, hRest⟩ := List.cons.inj hSplit
          obtain ⟨before, rfl⟩ := ih hRest
          exact ⟨.write v :: before, rfl⟩
  | @told v w ts h ih =>
      rcases xs with _ | ⟨x, _ | ⟨y, xs⟩⟩
      · cases hSplit
      · cases hSplit
        exact ⟨[], rfl⟩
      · simp only [List.cons_append, List.cons.injEq] at hSplit
        obtain ⟨rfl, rfl, hRest⟩ := hSplit
        obtain ⟨before, rfl⟩ := ih hRest
        exact ⟨.write w :: .announce w :: before, rfl⟩

/-- The announcements are writes, in the order in which these took place. -/
theorem announced_sublist (h : Announced v ts) :
    (ts.filterMap Touch.announced?).Sublist (ts.filterMap Touch.written?) := by
  induction h with
  | nil => exact List.Sublist.refl _
  | unchanged h ih => exact ih.cons _
  | told h ih => exact ih.cons_cons _

/-- **Hand-off.** Listen from some moment on, read the register at a later one, and take over
everything heard since the first: this gives the value at the end. -/
theorem handOff (h : Announced v ts) (hSplit : ts = xs ++ ys ++ zs) :
    latest Touch.announced? (latest Touch.written? v (xs ++ ys)) (ys ++ zs) =
      latest Touch.written? v ts := by
  by_cases hLoud : ∃ t ∈ ys ++ zs, Touch.announced? t ≠ none
  · exact h.truthful (by rw [hSplit, List.append_assoc]) hLoud _
  · have hQuiet : ∀ t ∈ ys ++ zs, Touch.announced? t = none := by
      simpa using hLoud
    rw [latest_of_none hQuiet]
    exact h.quiet hSplit fun t ht => hQuiet t (List.mem_append_right _ ht)

end Announced

end OlivawHub.Foundations
