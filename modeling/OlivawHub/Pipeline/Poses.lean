import OlivawHub.Pipeline.Run

/-!
# Poses between the snapshot and the broadcast

A `Tracked` output first goes into the snapshot of its car and is then broadcast as a `Pose`
and a `Scan` event. So at any moment the broadcast poses are the applied ones, the last one
perhaps missing (`posesEmitted_prefix`), and the event after a `Pose` is the `Scan` of the same
rotation (`scan_follows_pose`).
-/

namespace OlivawHub

open Foundations

variable {T F : Type}

/-- The pose an action stores in a snapshot, with its car. -/
def HubOp.appliedPose? : HubOp T F → Option (String × PoseInfo F)
  | .updateCar id (.tracked pose _ _) => some (id, pose)
  | _ => none

/-- The pose an event tells, with its car. -/
def WsEvent.pose? : WsEvent T F → Option (String × PoseInfo F)
  | .pose car p => some (car, p)
  | _ => none

/-- The poses stored by a list of actions, in order. -/
def posesApplied (os : List (HubOp T F)) : List (String × PoseInfo F) :=
  os.filterMap HubOp.appliedPose?

/-- The poses told by a list of events, in order. -/
def posesTold (es : List (WsEvent T F)) : List (String × PoseInfo F) := es.filterMap WsEvent.pose?

/-- The poses broadcast by a list of actions, in order. -/
def posesEmitted (os : List (HubOp T F)) : List (String × PoseInfo F) := posesTold (emitted os)

/-- The pose a pass stores. -/
def Input.pose? : Input T F → Option (String × PoseInfo F)
  | .slam car (.tracked pose _) => some (car, pose)
  | _ => none

@[simp] theorem posesApplied_nil : posesApplied ([] : List (HubOp T F)) = [] := rfl

@[simp] theorem posesEmitted_nil : posesEmitted ([] : List (HubOp T F)) = [] := rfl

@[simp] theorem posesApplied_append (xs ys : List (HubOp T F)) :
    posesApplied (xs ++ ys) = posesApplied xs ++ posesApplied ys := List.filterMap_append

@[simp] theorem posesTold_append (xs ys : List (WsEvent T F)) :
    posesTold (xs ++ ys) = posesTold xs ++ posesTold ys := List.filterMap_append

@[simp] theorem posesEmitted_append (xs ys : List (HubOp T F)) :
    posesEmitted (xs ++ ys) = posesEmitted xs ++ posesEmitted ys := by
  simp [posesEmitted]

/-- Poses are broadcast in the order in which they are stored, and never before. -/
def PosesInOrder (os : List (HubOp T F)) : Prop :=
  posesEmitted os = posesApplied os ∧ ∀ xs, xs <+: os → posesEmitted xs <+: posesApplied xs

theorem PosesInOrder.append {os ps : List (HubOp T F)} (hLeft : PosesInOrder os)
    (hRight : PosesInOrder ps) : PosesInOrder (os ++ ps) := by
  refine ⟨by rw [posesEmitted_append, posesApplied_append, hLeft.1, hRight.1], ?_⟩
  rintro xs ⟨ys, hSplit⟩
  rcases List.append_eq_append_iff.mp hSplit with ⟨zs, hOs, -⟩ | ⟨zs, rfl, hPs⟩
  · exact hLeft.2 xs ⟨zs, hOs.symm⟩
  · rw [posesEmitted_append, posesApplied_append, hLeft.1]
    exact (List.prefix_append_right_inj _).mpr (hRight.2 zs ⟨ys, hPs.symm⟩)

theorem PosesInOrder.of_silent {os : List (HubOp T F)}
    (h : ∀ o ∈ os, o.appliedPose? = none ∧ o.emitted?.bind WsEvent.pose? = none) :
    PosesInOrder os := by
  have hEmitted : ∀ xs, xs <+: os → posesEmitted xs = [] := by
    intro xs hxs
    rw [posesEmitted, posesTold, emitted, List.filterMap_filterMap, List.filterMap_eq_nil_iff]
    exact fun o ho => (h o (hxs.subset ho)).2
  have hApplied : posesApplied os = [] :=
    List.filterMap_eq_nil_iff.mpr fun o ho => (h o ho).1
  refine ⟨by rw [hEmitted os List.prefix_rfl, hApplied], fun xs hxs => ?_⟩
  rw [hEmitted xs hxs]
  exact List.nil_prefix

variable [HubFloat F]

/-- Actions of passes other than a `Tracked` output. -/
theorem silent_of_mem_bodyOps {n : Nat} {hub : Hub T F} {l : Locals F} {i : Input T F}
    (hInput : i.pose? = none) {o : HubOp T F} (h : o ∈ bodyOps n hub l i) :
    o.appliedPose? = none ∧ o.emitted?.bind WsEvent.pose? = none := by
  cases i with
  | event e now spawned =>
      rcases mem_eventOps h with rfl | rfl | ⟨_, rfl⟩ | ⟨_, rfl⟩ | ⟨_, rfl⟩ | ⟨_, _, rfl⟩
      · exact ⟨rfl, rfl⟩
      · cases e.kind <;> exact ⟨rfl, rfl⟩
      all_goals exact ⟨rfl, rfl⟩
  | slam car output =>
      cases output with
      | tracked pose scanWorld => cases hInput
      | map snapshot =>
          simp only [bodyOps, slamOps, List.mem_cons, List.not_mem_nil, or_false] at h
          rcases h with rfl | rfl | rfl <;> exact ⟨rfl, rfl⟩
  | tick visits =>
      obtain ⟨_, _, _, rfl | ⟨_, rfl⟩⟩ := mem_visits h <;> exact ⟨rfl, rfl⟩

theorem posesInOrder_bodyOps (n : Nat) (hub : Hub T F) (l : Locals F) (i : Input T F) :
    PosesInOrder (bodyOps n hub l i) := by
  cases hInput : i.pose? with
  | none => exact PosesInOrder.of_silent fun o ho => silent_of_mem_bodyOps hInput ho
  | some p =>
      rcases i with _ | ⟨car, _ | _⟩ | _ <;> cases hInput
      rename_i pose scanWorld
      refine ⟨rfl, fun xs hxs => ?_⟩
      simp only [bodyOps, slamOps, List.prefix_cons_iff, List.prefix_nil] at hxs
      rcases hxs with rfl | ⟨_, rfl, rfl | ⟨_, rfl, rfl | ⟨_, rfl, rfl⟩⟩⟩
      · exact List.prefix_rfl
      · exact List.nil_prefix
      · exact List.prefix_rfl
      · exact List.prefix_rfl

theorem posesApplied_bodyOps (n : Nat) (hub : Hub T F) (l : Locals F) (i : Input T F) :
    posesApplied (bodyOps n hub l i) = i.pose?.toList := by
  cases hInput : i.pose? with
  | none => exact List.filterMap_eq_nil_iff.mpr fun o ho => (silent_of_mem_bodyOps hInput ho).1
  | some p =>
      rcases i with _ | ⟨car, _ | _⟩ | _ <;> cases hInput
      rfl

theorem posesApplied_actionsOf {n : Nat} {inputs : List (Input T F)} {s : Pipeline T F}
    (hRun : (pipeline T F n).exec Pipeline.new inputs = some s) :
    posesApplied (actionsOf n inputs) = inputs.filterMap Input.pose? := by
  refine Machine.exec_history
    (P := fun past _ => posesApplied (actionsOf n past) = past.filterMap Input.pose?) rfl ?_ hRun
  intro past s i s' hPast ih _
  rw [actionsOf_concat hPast, posesApplied_append, ih, posesApplied_bodyOps,
    filterMap_concat_toList]

/-- In every run poses are broadcast in the order in which they are stored. -/
theorem posesInOrder_actionsOf {n : Nat} {inputs : List (Input T F)} {s : Pipeline T F}
    (hRun : (pipeline T F n).exec Pipeline.new inputs = some s) :
    PosesInOrder (actionsOf n inputs) := by
  refine actionsOf_induction (P := PosesInOrder) (PosesInOrder.of_silent (by simp)) ?_ hRun
  exact fun os l i _ ih => ih.append (posesInOrder_bodyOps n _ l i)

/-- The event after each `Pose`, if it is already there, is the `Scan` of the same rotation. -/
def ScanFollows (es : List (WsEvent T F)) : Prop :=
  ∀ xs car p ys, es = xs ++ .pose car p :: ys → ys ≠ [] →
    ∃ points zs, ys = .scan car p.seq points :: zs

omit [HubFloat F] in
theorem ScanFollows.of_isPrefix {es ps : List (WsEvent T F)} (h : ScanFollows es)
    (hPrefix : ps <+: es) : ScanFollows ps := by
  obtain ⟨rest, rfl⟩ := hPrefix
  intro xs car p ys hSplit hys
  obtain ⟨points, zs, hScan⟩ := h xs car p (ys ++ rest) (by simp [hSplit]) (by simp [hys])
  obtain ⟨y, ys, rfl⟩ := List.exists_cons_of_ne_nil hys
  obtain ⟨rfl, -⟩ := List.cons.inj hScan
  exact ⟨points, ys, rfl⟩

omit [HubFloat F] in
/-- Where no `Pose` comes last, lists of events can be put together. -/
theorem ScanFollows.append {es ps : List (WsEvent T F)} (hLeft : ScanFollows es)
    (hLast : ∀ car p, es.getLast? ≠ some (.pose car p)) (hRight : ScanFollows ps) :
    ScanFollows (es ++ ps) := by
  intro xs car p ys hSplit hys
  rcases List.append_eq_append_iff.mp hSplit with ⟨zs, hXs, hPs⟩ | ⟨zs, hEs, hRest⟩
  · exact hRight zs car p ys hPs hys
  · cases zs with
    | nil => exact hRight [] car p ys hRest.symm hys
    | cons z zs =>
        obtain ⟨rfl, rfl⟩ := List.cons.inj hRest
        cases zs with
        | nil => exact absurd (by simp [hEs]) (hLast car p)
        | cons z zs =>
            obtain ⟨points, zs', hScan⟩ := hLeft xs car p (z :: zs) hEs (by simp)
            obtain ⟨rfl, -⟩ := List.cons.inj hScan
            exact ⟨points, zs ++ ps, rfl⟩

theorem scanFollows_bodyOps (n : Nat) (hub : Hub T F) (l : Locals F) (i : Input T F) :
    ScanFollows (emitted (bodyOps n hub l i)) ∧
      ∀ car p, (emitted (bodyOps n hub l i)).getLast? ≠ some (.pose car p) := by
  cases hInput : i.pose? with
  | none =>
      have hSilent : ∀ car p, WsEvent.pose car p ∉ emitted (bodyOps n hub l i) := by
        intro car p hMem
        have hNone := (silent_of_mem_bodyOps hInput (mem_emitted.mp hMem)).2
        cases hNone
      refine ⟨fun xs car p ys hSplit _ => ?_, fun car p hLast => ?_⟩
      · exact absurd (by simp [hSplit]) (hSilent car p)
      · exact hSilent car p (List.mem_of_getLast? hLast)
  | some p =>
      rcases i with _ | ⟨car, _ | _⟩ | _ <;> cases hInput
      rename_i pose scanWorld
      refine ⟨fun xs car' p ys hSplit _ => ?_, fun car' p hLast => by cases hLast⟩
      rcases xs with _ | ⟨x, _ | ⟨y, xs⟩⟩
      · cases hSplit
        exact ⟨scanWorld, [], rfl⟩
      · cases hSplit
      · simp [bodyOps, slamOps] at hSplit

/-- In every run the event after each `Pose` is the `Scan` of the same car and rotation. -/
theorem scanFollows_actionsOf {n : Nat} {inputs : List (Input T F)} {s : Pipeline T F}
    (hRun : (pipeline T F n).exec Pipeline.new inputs = some s) :
    ScanFollows (emitted (actionsOf n inputs)) := by
  refine (actionsOf_induction (P := fun os => ScanFollows (emitted os) ∧
    ∀ car p, (emitted os).getLast? ≠ some (.pose car p)) ?_ ?_ hRun).1
  · exact ⟨fun xs car p ys hSplit => by simp at hSplit, by simp⟩
  · intro os l i _ ih
    obtain ⟨hBody, hLast⟩ := scanFollows_bodyOps n (Hub.new.after os) l i
    refine ⟨?_, fun car p => ?_⟩
    · rw [emitted_append]
      exact ih.1.append ih.2 hBody
    · rw [emitted_append, List.getLast?_append]
      cases hEnd : (emitted (bodyOps n (Hub.new.after os) l i)).getLast? with
      | none => exact ih.2 car p
      | some e => exact fun hEq => hLast car p (hEnd.trans hEq)

end OlivawHub
