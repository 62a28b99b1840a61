import Mathlib.Data.List.DropRight
import Mathlib.Data.List.Forall2

/-!
# Projections of logs

A log is a list that grows at its end; what a reader sees of it is a partial function
mapped over it. The lemmas say how such a projection, and its last value (`lastSome?`),
change when the log grows.
-/

namespace OlivawHub.Foundations

variable {α β : Type}

theorem filterMap_cons_toList (f : α → Option β) (a : α) (l : List α) :
    (a :: l).filterMap f = (f a).toList ++ l.filterMap f := by
  cases h : f a <;> simp [h]

theorem filterMap_concat_toList (f : α → Option β) (l : List α) (a : α) :
    (l ++ [a]).filterMap f = l.filterMap f ++ (f a).toList := by
  cases h : f a <;> simp [h]

theorem getElem?_concat_eq_some {l : List α} {a b : α} {i : Nat} :
    (l ++ [a])[i]? = some b ↔ l[i]? = some b ∨ i = l.length ∧ a = b := by
  rcases Nat.lt_trichotomy i l.length with hLt | rfl | hGt
  · rw [List.getElem?_append_left hLt]
    exact ⟨Or.inl, fun h => h.resolve_right fun hEq => by omega⟩
  · simp
  · have hOut : i ≠ l.length := Nat.ne_of_gt hGt
    rw [List.getElem?_eq_none (by simp; omega), List.getElem?_eq_none (by omega)]
    simp [hOut]

theorem exists_of_mem_forall₂ {R : α → β → Prop} {l : List α} {l' : List β}
    (h : List.Forall₂ R l l') {a : α} (ha : a ∈ l) : ∃ b ∈ l', R a b := by
  induction h with
  | nil => simp at ha
  | cons hHead _ ih =>
      rcases List.mem_cons.mp ha with rfl | hTail
      · exact ⟨_, List.mem_cons_self, hHead⟩
      · obtain ⟨b, hb, hR⟩ := ih hTail
        exact ⟨b, List.mem_cons_of_mem _ hb, hR⟩

/-- The last value of a projection. -/
def lastSome? (f : α → Option β) (l : List α) : Option β := (l.filterMap f).getLast?

@[simp] theorem lastSome?_nil (f : α → Option β) : lastSome? f [] = none := rfl

@[simp] theorem lastSome?_concat (f : α → Option β) (l : List α) (a : α) :
    lastSome? f (l ++ [a]) = (f a).or (lastSome? f l) := by
  unfold lastSome?
  rw [filterMap_concat_toList]
  cases f a <;> simp

/-- The last value of a projection, or `b` if there is none: what is left of a variable that
every entry of the log may overwrite. -/
def latest (f : α → Option β) (b : β) (l : List α) : β := l.foldl (fun b a => (f a).getD b) b

@[simp] theorem latest_nil (f : α → Option β) (b : β) : latest f b [] = b := rfl

@[simp] theorem latest_cons (f : α → Option β) (b : β) (a : α) (l : List α) :
    latest f b (a :: l) = latest f ((f a).getD b) l := rfl

@[simp] theorem latest_append (f : α → Option β) (b : β) (xs ys : List α) :
    latest f b (xs ++ ys) = latest f (latest f b xs) ys := List.foldl_append

theorem latest_of_none {f : α → Option β} {l : List α} (h : ∀ a ∈ l, f a = none) (b : β) :
    latest f b l = b := by
  induction l with
  | nil => rfl
  | cons a l ih =>
      rw [latest_cons, h a (by simp), Option.getD_none]
      exact ih fun a' ha' => h a' (by simp [ha'])

/-- Once something overwrites the variable, what it held before does not matter. -/
theorem latest_congr {f : α → Option β} {l : List α} (h : ∃ a ∈ l, f a ≠ none) (b b' : β) :
    latest f b l = latest f b' l := by
  induction l generalizing b b' with
  | nil => simp at h
  | cons a l ih =>
      cases hf : f a with
      | some v => simp [hf]
      | none =>
          obtain ⟨a', ha', hne⟩ := h
          rcases List.mem_cons.mp ha' with rfl | hl
          · exact absurd hf hne
          · simpa [hf] using ih ⟨a', hl, hne⟩ b b'

/-- The variable holds what it held at first, or what an entry of the log left in it. -/
theorem latest_eq_or_mem (f : α → Option β) (b : β) (l : List α) :
    latest f b l = b ∨ ∃ a ∈ l, f a = some (latest f b l) := by
  induction l generalizing b with
  | nil => exact Or.inl rfl
  | cons a l ih =>
      rw [latest_cons]
      rcases ih ((f a).getD b) with hFirst | ⟨a', ha', hLast⟩
      · rw [hFirst]
        cases hf : f a with
        | none => exact Or.inl rfl
        | some v => exact Or.inr ⟨a, List.mem_cons_self, hf⟩
      · exact Or.inr ⟨a', List.mem_cons_of_mem a ha', hLast⟩

theorem latest_filterMap {γ : Type} (g : γ → Option α) (f : α → Option β) (b : β) (l : List γ) :
    latest f b (l.filterMap g) = latest (fun c => (g c).bind f) b l := by
  induction l generalizing b with
  | nil => rfl
  | cons c l ih => cases hg : g c <;> simp [hg, ih]

end OlivawHub.Foundations
