import OlivawHub.Foundations.Lists

/-!
# A bounded broadcast channel

Every receiver of the channel sees all values sent since it subscribed, unless it falls more
than `cap` values behind: then the oldest are overwritten, and its next receive reports how
many it missed and moves it to the oldest value left. The channel is the list of all values
ever sent, and a receiver is the number of the next value it will read.
-/

namespace OlivawHub.Foundations

variable {α β : Type}

/-- What a receive may return. -/
inductive Recv (α : Type) where
  | value (a : α)
  | lagged (n : Nat)
  deriving DecidableEq, Repr

/-- One receive at position `next`, with the new position; nothing while the receiver is up to
date. -/
def recv (cap : Nat) (log : List α) (next : Nat) : Option (Recv α × Nat) :=
  if next + cap < log.length then some (.lagged (log.length - cap - next), log.length - cap)
  else log[next]?.map fun a => (.value a, next + 1)

theorem recv_value {cap : Nat} {log : List α} {next next' : Nat} {a : α}
    (h : recv cap log next = some (.value a, next')) :
    log.drop next = a :: log.drop next' ∧ next' = next + 1 ∧ next < log.length := by
  unfold recv at h
  split at h
  · cases h
  · obtain ⟨b, hb, he⟩ := Option.map_eq_some_iff.mp h
    cases he
    obtain ⟨hLt, rfl⟩ := List.getElem?_eq_some_iff.mp hb
    exact ⟨List.drop_eq_getElem_cons hLt, rfl, hLt⟩

theorem recv_lagged {cap : Nat} {log : List α} {next next' n : Nat}
    (h : recv cap log next = some (.lagged n, next')) :
    next' = log.length - cap ∧ next < next' ∧ next' ≤ log.length ∧ n = next' - next := by
  unfold recv at h
  split at h
  · cases h
    omega
  · obtain ⟨b, -, he⟩ := Option.map_eq_some_iff.mp h
    cases he

/-- The values a receiver at `next` will never see if it receives now. -/
def skipped (cap : Nat) (log : List α) (next : Nat) : List α :=
  (log.take (log.length - cap)).drop next

/-- The values still in the channel. -/
def retained (cap : Nat) (log : List α) : List α := log.drop (log.length - cap)

theorem drop_eq_skipped_append (cap : Nat) {log : List α} {next : Nat}
    (h : next ≤ log.length - cap) : log.drop next = skipped cap log next ++ retained cap log := by
  have hLen : next ≤ (log.take (log.length - cap)).length := by
    rw [List.length_take]
    omega
  rw [skipped, retained, ← List.drop_append_of_le_length hLen, List.take_append_drop]

/-- What is gone does not matter to a variable of value `v`: something left overwrites it, or
what is gone would have left it as it is. -/
def Harmless (f : α → Option β) (v : β) (gone left : List α) : Prop :=
  (∃ a ∈ left, f a ≠ none) ∨ latest f v gone = v

/-- Exactly then the variable ends the same without what is gone. -/
theorem harmless_iff {f : α → Option β} {v : β} {gone left : List α} :
    Harmless f v gone left ↔ latest f v (gone ++ left) = latest f v left := by
  rw [latest_append]
  by_cases hLeft : ∃ a ∈ left, f a ≠ none
  · exact ⟨fun _ => latest_congr hLeft _ _, fun _ => Or.inl hLeft⟩
  · have hNone : ∀ a ∈ left, f a = none := by simpa using hLeft
    rw [latest_of_none hNone, latest_of_none hNone]
    exact ⟨fun h => h.resolve_left hLeft, Or.inr⟩

end OlivawHub.Foundations
