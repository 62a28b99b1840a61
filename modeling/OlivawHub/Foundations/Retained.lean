import OlivawHub.Foundations.Lists
import Mathlib.Data.List.Destutter

/-!
# A broker that keeps last values

A subscriber of a broker gets each message in its turn or never, and whenever it subscribes it
gets again what the broker keeps: the last message of a topic among those sent to be kept
(`Relayed`). So what is never kept comes at most once and in order (`Relayed.sublist`), while kept
messages come several times; a reader that drops the values equal to the one before (`changes`)
sees each of them at most once and in order (`Relayed.changes_sublist`). Where nothing may be lost,
both see exactly what was sent. Whatever was lost before, since the last subscription the value that
came last is the one the broker keeps (`CaughtUp`).
-/

namespace OlivawHub.Foundations

section Changes

variable {β : Type} [DecidableEq β]

/-- The values that differ from the one before them; before the first there is `v`. -/
def changes (v : β) : List β → List β
  | [] => []
  | b :: l => if v = b then changes v l else b :: changes b l

variable {v : β} {l r : List β} {b : β}

theorem cons_changes (v : β) (l : List β) : v :: changes v l = l.destutter' (· ≠ ·) v := by
  induction l generalizing v with
  | nil => rfl
  | cons b l ih =>
      by_cases hSame : v = b
      · rw [changes, if_pos hSame, List.destutter'_cons_neg _ (by simpa using hSame), ih]
      · rw [changes, if_neg hSame, List.destutter'_cons_pos _ hSame, ih]

theorem changes_sublist (v : β) (l : List β) : List.Sublist (changes v l) l := by
  have hAll : List.Sublist (v :: changes v l) (v :: l) := by
    rw [cons_changes]
    exact List.destutter'_sublist ..
  exact List.cons_sublist_cons.mp hAll

/-- No value comes twice in a row. -/
theorem isChain_changes (v : β) (l : List β) : (v :: changes v l).IsChain (· ≠ ·) := by
  rw [cons_changes]
  exact List.isChain_destutter' ..

theorem getLast?_changes (v : β) (l : List β) :
    (changes v l).getLast?.getD v = l.getLast?.getD v := by
  induction l generalizing v with
  | nil => rfl
  | cons b l ih =>
      by_cases hSame : v = b
      · rw [changes, if_pos hSame, ih, hSame, List.getLast?_cons, Option.getD_some]
      · rw [changes, if_neg hSame, List.getLast?_cons, List.getLast?_cons, ih]

theorem changes_append (v : β) (l r : List β) :
    changes v (l ++ r) = changes v l ++ changes (l.getLast?.getD v) r := by
  induction l generalizing v with
  | nil => rfl
  | cons b l ih =>
      rw [List.cons_append, changes, changes, List.getLast?_cons, Option.getD_some]
      by_cases hSame : v = b
      · rw [if_pos hSame, if_pos hSame, ih, hSame]
      · rw [if_neg hSame, if_neg hSame, ih, List.cons_append]

/-- A value that is there already is no change. -/
theorem changes_concat_last (h : l.getLast?.getD v = b) : changes v (l ++ [b]) = changes v l := by
  rw [changes_append, changes, if_pos h]
  exact List.append_nil _

theorem changes_concat_new (h : l.getLast?.getD v ≠ b) :
    changes v (l ++ [b]) = changes v l ++ [b] := by
  rw [changes_append, changes, if_neg h]
  rfl

theorem changes_isPrefix (v : β) (h : l <+: r) : changes v l <+: changes v r := by
  obtain ⟨rest, rfl⟩ := h
  exact ⟨_, (changes_append v l rest).symm⟩

end Changes

theorem filterMap_concat_none {α β : Type} {g : α → Option β} {l : List α} {a : α}
    (h : g a = none) : (l ++ [a]).filterMap g = l.filterMap g := by
  rw [filterMap_concat_toList, h, Option.toList_none, List.append_nil]

/-- A sublist that does not end with `b` does without the `b` at the end. -/
theorem sublist_of_concat {β : Type} {l r : List β} {b : β} (h : List.Sublist l (r ++ [b]))
    (hLast : l.getLast? ≠ some b) : List.Sublist l r := by
  obtain ⟨first, second, rfl, hFirst, hSecond⟩ := List.sublist_append_iff.mp h
  rcases List.sublist_singleton.mp hSecond with rfl | rfl
  · rwa [List.append_nil]
  · exact absurd List.getLast?_concat hLast

/-- What a subscriber gets of the messages sent, in the order of the broker. -/
inductive Relayed {α κ : Type} (topic : α → κ) (kept mayLose : α → Prop) :
    List α → List α → Prop where
  | nil : Relayed topic kept mayLose [] []
  | passed {sent arrived : List α} (m : α) (h : Relayed topic kept mayLose sent arrived) :
      Relayed topic kept mayLose (sent ++ [m]) (arrived ++ [m])
  | lost {sent arrived : List α} (m : α) (h : Relayed topic kept mayLose sent arrived)
      (hMay : mayLose m) : Relayed topic kept mayLose (sent ++ [m]) arrived
  /-- The subscriber subscribes, and `m` is what the broker keeps of its topic. -/
  | again {before after arrived : List α} {m : α}
      (h : Relayed topic kept mayLose (before ++ m :: after) arrived) (hKept : kept m)
      (hLatest : ∀ x ∈ after, kept x → topic x ≠ topic m) :
      Relayed topic kept mayLose (before ++ m :: after) (arrived ++ [m])

namespace Relayed

variable {α κ β : Type} {topic : α → κ} {kept mayLose : α → Prop} {sent arrived : List α}
  {g : α → Option β}

/-- What is never kept comes at most once and in order. -/
theorem sublist (h : Relayed topic kept mayLose sent arrived)
    (hOnce : ∀ m ∈ sent, g m ≠ none → ¬ kept m) :
    List.Sublist (arrived.filterMap g) (sent.filterMap g) := by
  induction h with
  | nil => exact List.Sublist.slnil
  | passed m _ ih =>
      rw [filterMap_concat_toList, filterMap_concat_toList]
      exact (ih fun x hx => hOnce x (List.mem_append_left _ hx)).append_right _
  | lost m _ _ ih =>
      rw [filterMap_concat_toList]
      exact (ih fun x hx => hOnce x (List.mem_append_left _ hx)).trans
        (List.sublist_append_left _ _)
  | @again before after arrived m _ hKept _ ih =>
      have hNone : g m = none := by
        by_contra hSome
        exact hOnce m (List.mem_append_right _ List.mem_cons_self) hSome hKept
      rw [filterMap_concat_none hNone]
      exact ih hOnce

/-- What is neither kept nor lost comes as it was sent. -/
theorem filterMap_eq (h : Relayed topic kept mayLose sent arrived)
    (hOnce : ∀ m ∈ sent, g m ≠ none → ¬ kept m)
    (hSafe : ∀ m ∈ sent, g m ≠ none → ¬ mayLose m) :
    arrived.filterMap g = sent.filterMap g := by
  induction h with
  | nil => rfl
  | passed m _ ih =>
      rw [filterMap_concat_toList, filterMap_concat_toList,
        ih (fun x hx => hOnce x (List.mem_append_left _ hx))
          (fun x hx => hSafe x (List.mem_append_left _ hx))]
  | lost m _ hMay ih =>
      have hNone : g m = none := by
        by_contra hSome
        exact hSafe m (List.mem_append_right _ List.mem_cons_self) hSome hMay
      rw [filterMap_concat_none hNone]
      exact ih (fun x hx => hOnce x (List.mem_append_left _ hx))
        (fun x hx => hSafe x (List.mem_append_left _ hx))
  | @again before after arrived m _ hKept _ ih =>
      have hNone : g m = none := by
        by_contra hSome
        exact hOnce m (List.mem_append_right _ List.mem_cons_self) hSome hKept
      rw [filterMap_concat_none hNone]
      exact ih hOnce hSafe

/-- When all values are kept on one topic, the one that comes again is the last one sent. -/
theorem filterMap_again {before after : List α} {m : α} {k : κ} {b : β}
    (hKept : ∀ x ∈ before ++ m :: after, g x ≠ none → topic x = k ∧ kept x)
    (hLatest : ∀ x ∈ after, kept x → topic x ≠ topic m) (hValue : g m = some b) :
    (before ++ m :: after).filterMap g = before.filterMap g ++ [b] := by
  have hTopic : topic m = k := by
    refine (hKept m (List.mem_append_right _ List.mem_cons_self) ?_).1
    rw [hValue]
    exact Option.some_ne_none b
  have hAfter : after.filterMap g = [] := by
    refine List.filterMap_eq_nil_iff.mpr fun x hx => ?_
    by_contra hSome
    obtain ⟨hSame, hKeptX⟩ :=
      hKept x (List.mem_append_right _ (List.mem_cons_of_mem _ hx)) hSome
    exact hLatest x hx hKeptX (hSame.trans hTopic.symm)
  rw [List.filterMap_append, List.filterMap_cons_some hValue, hAfter]

variable [DecidableEq β] (v : β) {k : κ}

/-- Of values that are all kept on one topic, a reader of the changes sees each at most once and in
order, however often they come again. -/
theorem changes_sublist (h : Relayed topic kept mayLose sent arrived)
    (hKept : ∀ m ∈ sent, g m ≠ none → topic m = k ∧ kept m) :
    List.Sublist (changes v (arrived.filterMap g)) (sent.filterMap g) := by
  induction h with
  | nil => exact List.Sublist.slnil
  | passed m _ ih =>
      have hPast := ih fun x hx => hKept x (List.mem_append_left _ hx)
      rw [filterMap_concat_toList, filterMap_concat_toList, changes_append]
      exact hPast.append (Foundations.changes_sublist _ _)
  | lost m _ _ ih =>
      rw [filterMap_concat_toList]
      exact (ih fun x hx => hKept x (List.mem_append_left _ hx)).trans
        (List.sublist_append_left _ _)
  | @again before after arrived m _ _ hLatest ih =>
      have hPast := ih hKept
      rw [filterMap_concat_toList]
      cases hValue : g m with
      | none =>
          rw [Option.toList_none, List.append_nil]
          exact hPast
      | some b =>
          rw [Option.toList_some]
          by_cases hLast : (arrived.filterMap g).getLast?.getD v = b
          · rw [changes_concat_last hLast]
            exact hPast
          · -- the last one sent was lost, and comes now
            rw [changes_concat_new hLast, filterMap_again hKept hLatest hValue]
            rw [filterMap_again hKept hLatest hValue] at hPast
            refine (sublist_of_concat hPast fun hEnd => hLast ?_).append_right _
            rw [← getLast?_changes, hEnd, Option.getD_some]

/-- Where none of them may be lost, the changes are those of the values sent. -/
theorem changes_eq (h : Relayed topic kept mayLose sent arrived)
    (hKept : ∀ m ∈ sent, g m ≠ none → topic m = k ∧ kept m)
    (hSafe : ∀ m ∈ sent, g m ≠ none → ¬ mayLose m) :
    changes v (arrived.filterMap g) = changes v (sent.filterMap g) := by
  induction h with
  | nil => rfl
  | @passed sent arrived m _ ih =>
      have hPast := ih (fun x hx => hKept x (List.mem_append_left _ hx))
        (fun x hx => hSafe x (List.mem_append_left _ hx))
      rw [filterMap_concat_toList, filterMap_concat_toList, changes_append, changes_append,
        ← getLast?_changes v (arrived.filterMap g), hPast, getLast?_changes]
  | lost m _ hMay ih =>
      have hNone : g m = none := by
        by_contra hSome
        exact hSafe m (List.mem_append_right _ List.mem_cons_self) hSome hMay
      rw [filterMap_concat_none hNone]
      exact ih (fun x hx => hKept x (List.mem_append_left _ hx))
        (fun x hx => hSafe x (List.mem_append_left _ hx))
  | @again before after arrived m _ _ hLatest ih =>
      have hPast := ih hKept hSafe
      rw [filterMap_concat_toList]
      cases hValue : g m with
      | none =>
          rw [Option.toList_none, List.append_nil]
          exact hPast
      | some b =>
          rw [Option.toList_some, changes_concat_last ?_]
          · exact hPast
          · show (arrived.filterMap g).getLast?.getD v = b
            rw [← getLast?_changes, hPast, getLast?_changes,
              filterMap_again hKept hLatest hValue, List.getLast?_concat, Option.getD_some]

end Relayed

namespace Relayed

variable {α κ : Type} {topic : α → κ} {kept mayLose : α → Prop} {sent arrived first : List α}

/-- What is on its way may still be lost. -/
theorem of_isPrefix (h : Relayed topic kept mayLose sent arrived) (hMay : ∀ m, mayLose m)
    (hPrefix : first <+: arrived) : Relayed topic kept mayLose sent first := by
  induction h with
  | nil =>
      rw [List.prefix_nil.mp hPrefix]
      exact .nil
  | passed m h ih =>
      rcases List.prefix_concat_iff.mp hPrefix with rfl | hFirst
      · exact .passed m h
      · exact .lost m (ih hFirst) (hMay m)
  | lost m _ _ ih => exact .lost m (ih hPrefix) (hMay m)
  | again h hKept hLatest ih =>
      rcases List.prefix_concat_iff.mp hPrefix with rfl | hFirst
      · exact .again h hKept hLatest
      · exact ih hFirst

end Relayed

/-! ## What the broker keeps -/

section Store

variable {α κ β : Type} [DecidableEq κ]

/-- The last message of each topic among those sent to be kept, unless it is one that clears the
topic. -/
def retainedOf (topic : α → κ) (kept clears : α → Bool) : List α → List α
  | [] => []
  | m :: rest =>
      if kept m && !clears m && rest.all fun x => !kept x || topic x ≠ topic m then
        m :: retainedOf topic kept clears rest
      else retainedOf topic kept clears rest

variable {topic : α → κ} {kept clears : α → Bool} {sent arrived batch : List α} {m : α}
  {g : α → Option β} {k : κ}

theorem retainedOf_sublist (topic : α → κ) (kept clears : α → Bool) (sent : List α) :
    List.Sublist (retainedOf topic kept clears sent) sent := by
  induction sent with
  | nil => exact List.Sublist.slnil
  | cons m rest ih =>
      rw [retainedOf]
      split
      · exact ih.cons_cons m
      · exact ih.cons m

theorem exists_of_mem_retainedOf (h : m ∈ retainedOf topic kept clears sent) :
    kept m = true ∧ ∃ before after, sent = before ++ m :: after ∧
      ∀ x ∈ after, kept x = true → topic x ≠ topic m := by
  induction sent with
  | nil => cases h
  | cons m' rest ih =>
      have hRest : m ∈ retainedOf topic kept clears rest → kept m = true ∧
          ∃ before after, m' :: rest = before ++ m :: after ∧
            ∀ x ∈ after, kept x = true → topic x ≠ topic m := by
        intro hMem
        obtain ⟨hKept, before, after, rfl, hLatest⟩ := ih hMem
        exact ⟨hKept, m' :: before, after, rfl, hLatest⟩
      rw [retainedOf] at h
      split at h
      · rename_i hLast
        rcases List.mem_cons.mp h with rfl | hMem
        · simp only [Bool.and_eq_true, List.all_eq_true, Bool.or_eq_true, Bool.not_eq_true',
            decide_eq_true_eq] at hLast
          refine ⟨hLast.1.1, [], rest, rfl, fun x hx hKept => ?_⟩
          rcases hLast.2 x hx with hNot | hOther
          · rw [hKept] at hNot
            cases hNot
          · exact hOther
        · exact hRest hMem
      · exact hRest h

/-- What is kept afterwards is the new message, or was kept before. -/
theorem mem_retainedOf_concat {m' : α} (h : m ∈ retainedOf topic kept clears (sent ++ [m'])) :
    m = m' ∨ m ∈ retainedOf topic kept clears sent := by
  induction sent with
  | nil => exact Or.inl (List.mem_singleton.mp ((retainedOf_sublist ..).subset h))
  | cons x rest ih =>
      rw [List.cons_append, retainedOf] at h
      rw [retainedOf]
      split at h
      · rename_i hLast
        rw [List.all_append, ← Bool.and_assoc, Bool.and_eq_true] at hLast
        rw [if_pos hLast.1]
        rcases List.mem_cons.mp h with rfl | hMem
        · exact Or.inr List.mem_cons_self
        · exact (ih hMem).imp id fun hOld => List.mem_cons_of_mem _ hOld
      · refine (ih h).imp id fun hOld => ?_
        split
        · exact List.mem_cons_of_mem _ hOld
        · exact hOld

/-- Of values that are all kept on one topic, the broker keeps the last, or none. -/
theorem filterMap_retainedOf (clears : α → Bool)
    (hKept : ∀ m ∈ sent, g m ≠ none → topic m = k ∧ kept m = true) :
    (retainedOf topic kept clears sent).filterMap g = [] ∨ ∃ b,
      (retainedOf topic kept clears sent).filterMap g = [b] ∧
        (sent.filterMap g).getLast? = some b := by
  induction sent with
  | nil => exact Or.inl rfl
  | cons m rest ih =>
      have hLater := ih fun x hx => hKept x (List.mem_cons_of_mem _ hx)
      have hSkip : (retainedOf topic kept clears rest).filterMap g = [] ∨ ∃ b,
          (retainedOf topic kept clears rest).filterMap g = [b] ∧
            ((m :: rest).filterMap g).getLast? = some b := by
        refine hLater.imp id fun ⟨b, hOne, hLast⟩ => ⟨b, hOne, ?_⟩
        rw [filterMap_cons_toList, List.getLast?_append, hLast]
        rfl
      rw [retainedOf]
      split
      · rename_i hLast
        cases hValue : g m with
        | none =>
            rw [List.filterMap_cons_none hValue, List.filterMap_cons_none hValue]
            rw [List.filterMap_cons_none hValue] at hSkip
            exact hSkip
        | some b =>
            have hTopic : topic m = k :=
              (hKept m List.mem_cons_self (by rw [hValue]; exact Option.some_ne_none b)).1
            have hRest : rest.filterMap g = [] := by
              refine List.filterMap_eq_nil_iff.mpr fun x hx => ?_
              by_contra hSome
              obtain ⟨hSame, hKeptX⟩ := hKept x (List.mem_cons_of_mem _ hx) hSome
              simp only [Bool.and_eq_true, List.all_eq_true, Bool.or_eq_true, Bool.not_eq_true',
                decide_eq_true_eq] at hLast
              rcases hLast.2 x hx with hNot | hOther
              · rw [hKeptX] at hNot
                cases hNot
              · exact hOther (hSame.trans hTopic.symm)
            have hNone : (retainedOf topic kept clears rest).filterMap g = [] :=
              List.sublist_nil.mp (hRest ▸ (retainedOf_sublist topic kept clears rest).filterMap g)
            refine Or.inr ⟨b, ?_, ?_⟩
            · rw [List.filterMap_cons_some hValue, hNone]
            · rw [List.filterMap_cons_some hValue, hRest]
              rfl
      · exact hSkip

/-- The last value that came is the last one sent, if the broker keeps any. -/
def CaughtUp (topic : α → κ) (kept clears : α → Bool) (g : α → Option β) (sent arrived : List α) :
    Prop :=
  (retainedOf topic kept clears sent).filterMap g = [] ∨
    (arrived.filterMap g).getLast? = (sent.filterMap g).getLast?

namespace CaughtUp

theorem concat_none (h : CaughtUp topic kept clears g sent arrived) (hNone : g m = none) :
    CaughtUp topic kept clears g (sent ++ [m]) arrived := by
  refine h.imp (fun hEmpty => ?_) fun hLast => by rw [filterMap_concat_none hNone, hLast]
  refine List.filterMap_eq_nil_iff.mpr fun x hx => ?_
  rcases mem_retainedOf_concat hx with rfl | hOld
  · exact hNone
  · exact List.filterMap_eq_nil_iff.mp hEmpty x hOld

theorem passed (h : CaughtUp topic kept clears g sent arrived) (m : α) :
    CaughtUp topic kept clears g (sent ++ [m]) (arrived ++ [m]) := by
  cases hValue : g m with
  | none =>
      refine (h.concat_none hValue).imp id fun hLast => ?_
      rw [filterMap_concat_none hValue, hLast]
  | some b =>
      refine Or.inr ?_
      rw [filterMap_concat_toList, filterMap_concat_toList, hValue, Option.toList_some,
        List.getLast?_concat, List.getLast?_concat]

/-- A subscription makes up for all that was missed. -/
theorem subscribed (hBatch : batch.Perm (retainedOf topic kept clears sent))
    (hKept : ∀ m ∈ sent, g m ≠ none → topic m = k ∧ kept m = true) (arrived : List α) :
    CaughtUp topic kept clears g sent (arrived ++ batch) := by
  rcases filterMap_retainedOf clears hKept with hNone | ⟨b, hOne, hLast⟩
  · exact Or.inl hNone
  · have hPerm := hBatch.filterMap g
    rw [hOne, List.perm_singleton] at hPerm
    refine Or.inr ?_
    rw [List.filterMap_append, hPerm, List.getLast?_concat, hLast]

/-- What the broker keeps is what came last. -/
theorem getLast?_eq (h : CaughtUp topic kept clears g sent arrived)
    (hKept : ∀ m ∈ sent, g m ≠ none → topic m = k ∧ kept m = true)
    (hm : m ∈ retainedOf topic kept clears sent) {b : β} (hValue : g m = some b) :
    (arrived.filterMap g).getLast? = some b := by
  have hMem : b ∈ (retainedOf topic kept clears sent).filterMap g :=
    List.mem_filterMap.mpr ⟨m, hm, hValue⟩
  rcases filterMap_retainedOf clears hKept with hNone | ⟨b', hOne, hLast⟩
  · rw [hNone] at hMem
    cases hMem
  · rw [hOne] at hMem
    obtain rfl := List.mem_singleton.mp hMem
    refine (h.resolve_left fun hEmpty => ?_).trans hLast
    rw [hOne] at hEmpty
    cases hEmpty

end CaughtUp

end Store

end OlivawHub.Foundations
