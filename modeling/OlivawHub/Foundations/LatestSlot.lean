import OlivawHub.Foundations.Machines

/-!
# A slot for the latest value

Putting a value into the slot replaces what it holds; taking empties it. `put` and `taken` are
history variables: the values put in, and the values taken out, each with the number of values
put in by then. In every run what is taken is the latest value at that moment, no value is taken
twice, and the latest one is taken or still there (`LatestSlot.Sound`).
-/

namespace OlivawHub.Foundations

variable {α : Type}

/-- The slot and its history. -/
structure LatestSlot (α : Type) where
  slot : Option α
  put : List α
  taken : List (α × Nat)

/-- What is done with a slot. -/
inductive SlotStep (α : Type) where
  | put (a : α)
  | take

/-- An empty slot. -/
def LatestSlot.new : LatestSlot α := ⟨none, [], []⟩

/-- A slot for the latest value. -/
def latestSlot (α : Type) : Machine (LatestSlot α) (SlotStep α) where
  step
    | s, .put a => some ⟨some a, s.put ++ [a], s.taken⟩
    | s, .take => s.slot.map fun a => ⟨none, s.put, s.taken ++ [(a, s.put.length)]⟩

/-- What every run of a slot keeps. -/
structure LatestSlot.Sound (s : LatestSlot α) : Prop where
  /-- Each value taken was the latest. -/
  latest : ∀ p ∈ s.taken, p.2 ≤ s.put.length ∧ (s.put.take p.2).getLast? = some p.1
  /-- No value is taken twice, and none before an older one. -/
  ordered : (s.taken.map Prod.snd).Pairwise (· < ·)
  /-- The slot holds the latest value, which was not taken yet. -/
  full : ∀ a, s.slot = some a → s.put.getLast? = some a ∧ ∀ p ∈ s.taken, p.2 < s.put.length
  /-- The slot is empty once the latest value is taken. -/
  empty : s.slot = none → s.put = [] ∨ ∃ p ∈ s.taken, p.2 = s.put.length

namespace LatestSlot.Sound

variable {s s' : LatestSlot α}

theorem new : Sound (LatestSlot.new : LatestSlot α) where
  latest p hp := by cases hp
  ordered := List.Pairwise.nil
  full a ha := by cases ha
  empty _ := Or.inl rfl

theorem put (h : Sound s) (a : α) : Sound ⟨some a, s.put ++ [a], s.taken⟩ := by
  refine ⟨fun p hp => ?_, h.ordered, fun b hb => ?_, nofun⟩
  · obtain ⟨hLe, hLast⟩ := h.latest p hp
    refine ⟨?_, by rw [List.take_append_of_le_length hLe, hLast]⟩
    rw [List.length_append]
    omega
  · cases hb
    refine ⟨by simp, fun p hp => ?_⟩
    obtain ⟨hLe, -⟩ := h.latest p hp
    rw [List.length_append, List.length_singleton]
    omega

theorem take (h : Sound s) {a : α} (ha : s.slot = some a) :
    Sound ⟨none, s.put, s.taken ++ [(a, s.put.length)]⟩ := by
  obtain ⟨hLast, hBefore⟩ := h.full a ha
  refine ⟨fun p hp => ?_, ?_, nofun, fun _ => Or.inr ⟨_, List.mem_concat_self, rfl⟩⟩
  · rcases List.mem_append.mp hp with hOld | hNew
    · exact h.latest p hOld
    · obtain rfl := List.mem_singleton.mp hNew
      exact ⟨Nat.le_refl _, by rw [List.take_length, hLast]⟩
  · rw [List.map_append]
    refine List.pairwise_append.mpr ⟨h.ordered, List.pairwise_singleton _ _, ?_⟩
    intro k hk k' hk'
    obtain ⟨p, hp, rfl⟩ := List.mem_map.mp hk
    obtain rfl : k' = s.put.length := by simpa using hk'
    exact hBefore p hp

theorem of_run {steps : List (SlotStep α)}
    (hRun : (latestSlot α).exec LatestSlot.new steps = some s) : Sound s := by
  refine Machine.exec_invariant (P := Sound) ?_ new hRun
  intro s step s' h hStep
  cases step with
  | put a => exact Option.some.inj hStep ▸ h.put a
  | take =>
      obtain ⟨a, ha, rfl⟩ := Option.map_eq_some_iff.mp hStep
      exact h.take ha

end LatestSlot.Sound

end OlivawHub.Foundations
