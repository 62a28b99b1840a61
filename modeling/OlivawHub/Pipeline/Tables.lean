import OlivawHub.Pipeline.CarLog
import Mathlib.Algebra.Order.BigOperators.Group.List
import Mathlib.Data.List.Induction

/-!
# The five tables agree

The pipeline keeps `cars`, `maps`, `rates` and `workers`, and every pass writes some of
them. `Tables.Invariant` ties each table to the log of its cars, so that in every reachable
state they agree with each other (`tables_agree`).

The stats windows partition the scans of a car: `scanWindows` lists the scans per window.
The counter of a window has 32 bits, so what a tick reports is the number of scans in the
window modulo `2 ^ 32`, and closed and open windows add up to `scans_total` exactly when no
window held `2 ^ 32` scans or more.
-/

namespace OlivawHub

open Foundations

variable {T F : Type}

/-! ## Windows -/

/-- Scans per window: the closed windows, and the open one. -/
structure ScanWindows where
  closed : List Nat
  opened : Nat
  deriving DecidableEq, Repr

/-- A tick closes the open window; a scan of `c` is counted in it. -/
def ScanWindows.step (c : String) (w : ScanWindows) : Input T F → ScanWindows
  | .tick _ => ⟨w.closed ++ [w.opened], 0⟩
  | .slam _ _ => w
  | .event e now spawned =>
      { w with opened := w.opened + ((Input.event e now spawned).scanOf? c).toList.length }

/-- The windows of `c` after a list of passes. -/
def scanWindows (c : String) (inputs : List (Input T F)) : ScanWindows :=
  inputs.foldl (ScanWindows.step c) ⟨[], 0⟩

/-- Every window, closed or open, holds fewer than `2 ^ 32` scans. -/
def ScanWindows.Short (w : ScanWindows) : Prop := (∀ n ∈ w.closed, n < 2 ^ 32) ∧ w.opened < 2 ^ 32

/-- The counter of `c`'s open window. -/
def scansInWindow (c : String) (l : Locals F) : Nat :=
  match l.rates.lookup c with
  | some rate => rate.scansInWindow.toNat
  | none => 0

variable [HubFloat F]

/-- The scans a pass reports for `c`: a tick closes the open window of every car. -/
def closedBy (c : String) (s : Pipeline T F) : Input T F → Nat
  | .tick _ => scansInWindow c s.locals
  | .slam _ _ => 0
  | .event _ _ _ => 0

/-- The scans of `c` counted in all windows closed during a run. -/
def closedScans (c : String) (len : Nat) (inputs : List (Input T F)) : Nat :=
  ((pipeline T F len).outputs (fun s i => [closedBy c s i]) Pipeline.new inputs).sum

theorem closedScans_concat {c : String} {len : Nat} {s : Pipeline T F}
    {past : List (Input T F)} (hRun : (pipeline T F len).exec Pipeline.new past = some s)
    (i : Input T F) :
    closedScans c len (past ++ [i]) = closedScans c len past + closedBy c s i := by
  rw [closedScans, Machine.outputs_concat _ hRun, List.sum_append, List.sum_singleton,
    closedScans]

/-! ## What a pass does to the other tables -/

theorem storedMaps_eventOps (c : String) (hub : Hub T F) (l : Locals F) (e : CarEvent T)
    (spawned : Option Nat) : storedMaps c (eventOps hub l e spawned) = [] := by
  unfold eventOps
  cases e.kind with
  | status s => simp only [storedMaps_cons, HubOp.storedMap?]; split <;> simp
  | telemetry t => simp
  | scan frame =>
      simp only [storedMaps_cons, HubOp.storedMap?, workerOps]
      split <;> simp

omit [HubFloat F] in
theorem storedMaps_slamOps (c car : String) (output : SlamOutput F) (n : Nat) :
    storedMaps c (slamOps car output n : List (HubOp T F)) =
      ((if car = c then some output else none).bind SlamOutput.map?).toList := by
  cases output <;> by_cases h : car = c <;> simp [slamOps, SlamOutput.map?, h]

theorem storedMaps_visits (c : String) (hub : Hub T F) (rates : Table String (CarRate F))
    (visits : List (Visit F)) : storedMaps c (visits.flatMap (visitOps hub rates)) = [] := by
  refine List.filterMap_eq_nil_iff.mpr fun o ho => ?_
  obtain ⟨v, -, hov⟩ := List.mem_flatMap.mp ho
  unfold visitOps at hov
  split at hov
  · cases hov
  · simp only [List.mem_cons, List.not_mem_nil, or_false] at hov
    rcases hov with rfl | rfl <;> rfl

theorem storedMaps_bodyOps (c : String) (len : Nat) (hub : Hub T F) (l : Locals F)
    (i : Input T F) :
    storedMaps c (bodyOps len hub l i) = ((i.outputOf? c).bind SlamOutput.map?).toList := by
  cases i with
  | event e now spawned => exact storedMaps_eventOps c hub l e spawned
  | slam car output => exact storedMaps_slamOps c car output len
  | tick visits => exact storedMaps_visits c hub l.rates visits

omit [HubFloat F] in
theorem mem_rates_eventLocals {c : String} {l : Locals F} {e : CarEvent T} (now : F)
    (spawned : Option Nat) : c ∈ (eventLocals l e now spawned).rates ↔
      c ∈ l.rates ∨ ((Input.event e now spawned).scanOf? c).isSome := by
  unfold eventLocals Input.scanOf? Input.eventOf?
  by_cases hCar : e.car = c
  · cases hk : e.kind <;>
      simp [hCar, hk, CarEvent.scan?, countScan, Table.mem_upsert]
  · cases hk : e.kind <;>
      simp [hCar, Ne.symm hCar, countScan, Table.mem_upsert]

omit [HubFloat F] in
theorem mem_workersAfter {c car : String} {spawned : Option Nat} {workers : Table String Nat}
    (h : c ∈ workersAfter car spawned workers) : c = car ∨ c ∈ workers := by
  unfold workersAfter at h
  split at h
  · exact Or.inr h
  · split at h
    · exact (AList.mem_insert workers).mp h
    · exact Or.inr h

omit [HubFloat F] in
theorem mem_workers_eventLocals {c : String} {l : Locals F} {e : CarEvent T} {now : F}
    {spawned : Option Nat} (h : c ∈ (eventLocals l e now spawned).workers) :
    ((Input.event e now spawned).scanOf? c).isSome ∨ c ∈ l.workers := by
  unfold eventLocals at h
  cases hk : e.kind with
  | status s => exact Or.inr (by simpa [hk] using h)
  | telemetry t => exact Or.inr (by simpa [hk] using h)
  | scan frame =>
      rw [hk] at h
      refine (mem_workersAfter h).imp_left fun hc => ?_
      simp [Input.scanOf?, Input.eventOf?, hc, CarEvent.scan?, hk]

omit [HubFloat F] in
theorem lookup_foldl_visitRates {visits : List (Visit F)} {rates : Table String (CarRate F)}
    {c : String} (hc : c ∈ visits.map Visit.car) (hRates : c ∈ rates) :
    ∃ v ∈ visits, v.car = c ∧
      (visits.foldl visitRates rates).lookup c = some ⟨v.resetAt, 0⟩ := by
  induction visits using List.reverseRecOn with
  | nil => simp at hc
  | append_singleton vs v ih =>
      rw [List.foldl_concat]
      have hMem : c ∈ vs.foldl visitRates rates := (mem_visitRates vs rates c).mpr hRates
      by_cases h : c = v.car
      · subst h
        exact ⟨v, by simp, rfl, by simp [visitRates, hMem]⟩
      · rw [lookup_visitRates_ne _ _ h]
        obtain ⟨u, hu, hCar, hLookup⟩ := ih (by simpa [h] using hc)
        exact ⟨u, List.mem_append_left _ hu, hCar, hLookup⟩

omit [HubFloat F] in
/-- A scan of `c` is counted in the window of `c`, which it opens if there is none. -/
theorem lookup_rates_eventLocals (c : String) (l : Locals F) (e : CarEvent T) (now : F)
    (spawned : Option Nat) :
    (eventLocals l e now spawned).rates.lookup c =
      match (Input.event e now spawned).scanOf? c with
      | some _ =>
          let rate := (l.rates.lookup c).getD ⟨now, 0⟩
          some { rate with scansInWindow := rate.scansInWindow + 1 }
      | none => l.rates.lookup c := by
  unfold eventLocals Input.scanOf? Input.eventOf?
  by_cases hCar : e.car = c
  · cases hk : e.kind <;> simp [hCar, hk, CarEvent.scan?, countScan]
  · have hRates : (countScan e.car now l.rates).lookup c = l.rates.lookup c :=
      Table.lookup_upsert_ne _ _ _ (Ne.symm hCar)
    cases hk : e.kind <;> simp [hCar, hRates]

omit [HubFloat F] in
/-- A scan of `c` moves the counter of its window by one, modulo its width. -/
theorem scansInWindow_eventLocals (c : String) (l : Locals F) (e : CarEvent T) (now : F)
    (spawned : Option Nat) :
    scansInWindow c (eventLocals l e now spawned) =
      (scansInWindow c l + ((Input.event e now spawned).scanOf? c).toList.length) % 2 ^ 32 := by
  have hBound : scansInWindow c l < 2 ^ 32 := by
    unfold scansInWindow
    split
    · exact UInt32.toNat_lt _
    · omega
  cases hScan : (Input.event e now spawned).scanOf? c with
  | none =>
      rw [scansInWindow, lookup_rates_eventLocals, hScan]
      exact (Nat.mod_eq_of_lt hBound).symm
  | some frame =>
      rw [scansInWindow, lookup_rates_eventLocals, hScan, scansInWindow]
      cases l.rates.lookup c with
      | none => rfl
      | some rate => exact UInt32.toNat_add ..

/-! ## Runs -/

/-- What every run keeps. -/
structure Tables.Invariant (len : Nat) (past : List (Input T F)) (s : Pipeline T F) : Prop where
  log : CarLog.Invariant len past s
  rates : ∀ c, c ∈ s.locals.rates ↔ scansOf c past ≠ []
  workers : ∀ c, c ∈ s.locals.workers → c ∈ s.locals.rates
  maps : ∀ c, s.hub.maps.lookup c = lastSome? SlamOutput.map? (carLog c past).outputs
  opened : ∀ c, scansInWindow c s.locals = (scanWindows c past).opened % 2 ^ 32
  closed : ∀ c, closedScans c len past =
    ((scanWindows c past).closed.map (· % 2 ^ 32)).sum
  total : ∀ c, (scansOf c past).length =
    (scanWindows c past).closed.sum + (scanWindows c past).opened

namespace Tables.Invariant

theorem new (len : Nat) : Invariant len ([] : List (Input T F)) Pipeline.new where
  log := CarLog.Invariant.new len
  rates c := by simp [Pipeline.new, Locals.new, scansOf, carLog]
  workers c hc := by simp [Pipeline.new, Locals.new] at hc
  maps c := by simp [Pipeline.new, Hub.new, carLog]
  opened c := by simp [scansInWindow, Pipeline.new, Locals.new, scanWindows]
  closed c := by simp [closedScans, Machine.outputs, scanWindows]
  total c := by simp [scansOf, carLog, scanWindows]

variable {len : Nat} {past : List (Input T F)} {s s' : Pipeline T F} {i : Input T F}

theorem step (h : Invariant len past s)
    (hRun : (pipeline T F len).exec Pipeline.new past = some s)
    (hStep : (pipeline T F len).step s i = some s') : Invariant len (past ++ [i]) s' := by
  have hLog := h.log.step hStep
  obtain ⟨hEnabled, rfl⟩ := pipeline_step.mp hStep
  have hMaps : ∀ c, (s.hub.after (bodyOps len s.hub s.locals i)).maps.lookup c =
      lastSome? SlamOutput.map? (carLog c (past ++ [i])).outputs := by
    intro c
    rw [Hub.after_maps, storedMaps_bodyOps, h.maps, carLog_concat]
    cases i.outputOf? c with
    | none => simp
    | some out => cases hOut : out.map? <;> simp [hOut]
  cases i with
  | slam car out =>
      have hScans : ∀ c, scansOf c (past ++ [.slam car out]) = scansOf c past := by
        intro c
        rw [scansOf_concat]
        simp [Input.scanOf?, Input.eventOf?]
      have hWindows : ∀ c, scanWindows c (past ++ [.slam car out]) = scanWindows c past :=
        fun c => by simp [scanWindows, ScanWindows.step]
      refine ⟨hLog, fun c => ?_, fun c hc => h.workers c hc, hMaps, fun c => ?_, fun c => ?_,
        fun c => ?_⟩
      · rw [hScans]
        exact h.rates c
      · rw [hWindows]
        exact h.opened c
      · rw [closedScans_concat hRun, hWindows, h.closed]
        rfl
      · rw [hScans, hWindows]
        exact h.total c
  | tick visits =>
      have hScans : ∀ c, scansOf c (past ++ [.tick visits]) = scansOf c past := by
        intro c
        rw [scansOf_concat]
        simp [Input.scanOf?, Input.eventOf?]
      have hWindows : ∀ c, scanWindows c (past ++ [.tick visits]) =
          ⟨(scanWindows c past).closed ++ [(scanWindows c past).opened], 0⟩ :=
        fun c => by simp [scanWindows, ScanWindows.step]
      refine ⟨hLog, fun c => ?_, fun c hc => ?_, hMaps, fun c => ?_, fun c => ?_, fun c => ?_⟩
      · rw [hScans, ← h.rates c]
        exact mem_visitRates visits s.locals.rates c
      · exact (mem_visitRates visits s.locals.rates c).mpr (h.workers c hc)
      · rw [hWindows]
        by_cases hc : c ∈ s.locals.rates
        · have hVisit : c ∈ visits.map Visit.car :=
            (List.Perm.mem_iff hEnabled).mpr (AList.mem_keys.mp hc)
          obtain ⟨v, -, -, ht⟩ := lookup_foldl_visitRates hVisit hc
          simp [scansInWindow, bodyLocals, ht]
        · have hNone := AList.lookup_eq_none.mpr
            fun hm => hc ((mem_visitRates visits s.locals.rates c).mp hm)
          simp [scansInWindow, bodyLocals, hNone]
      · rw [closedScans_concat hRun, hWindows, h.closed, closedBy, h.opened]
        simp
      · rw [hScans, hWindows, h.total]
        simp
  | event e now spawned =>
      have hWindows : ∀ c, scanWindows c (past ++ [.event e now spawned]) =
          ScanWindows.step c (scanWindows c past) (.event e now spawned) :=
        fun c => List.foldl_concat ..
      refine ⟨hLog, fun c => ?_, fun c hc => ?_, hMaps, fun c => ?_, fun c => ?_, fun c => ?_⟩
      · rw [scansOf_concat]
        refine (mem_rates_eventLocals now spawned).trans ?_
        rw [h.rates]
        cases (Input.event e now spawned).scanOf? c <;> simp
      · refine (mem_rates_eventLocals now spawned).mpr ?_
        rcases mem_workers_eventLocals hc with hNew | hOld
        · exact Or.inr hNew
        · exact Or.inl (h.workers c hOld)
      · rw [hWindows, ScanWindows.step]
        exact (scansInWindow_eventLocals c s.locals e now spawned).trans
          (by rw [h.opened, Nat.mod_add_mod])
      · rw [closedScans_concat hRun, hWindows, h.closed]
        rfl
      · rw [scansOf_concat, hWindows, ScanWindows.step, List.length_append, h.total]
        dsimp only
        omega

theorem of_run (hRun : (pipeline T F len).exec Pipeline.new past = some s) :
    Invariant len past s :=
  Machine.exec_history (new len) (fun _ _ _ _ hRun h hStep => h.step hRun hStep) hRun

end Tables.Invariant

/-- Reducing every summand keeps the sum exactly when no summand is reduced. -/
theorem sum_map_mod_eq_iff (m : Nat) (ns : List Nat) (k : Nat) :
    (ns.map (· % m)).sum + k % m = ns.sum + k ↔ (∀ n ∈ ns, n % m = n) ∧ k % m = k := by
  have hLe : ∀ l : List Nat, (l.map (· % m)).sum ≤ l.sum := fun l =>
    (List.sum_le_sum fun n _ => Nat.mod_le n m).trans_eq (by rw [List.map_id'])
  induction ns with
  | nil => simp
  | cons n ns ih =>
      have hn := Nat.mod_le n m
      have hk := Nat.mod_le k m
      have hns := hLe ns
      simp only [List.map_cons, List.sum_cons, List.forall_mem_cons, and_assoc]
      refine ⟨fun h => ⟨by omega, ih.mp (by omega)⟩, fun ⟨h, hRest⟩ => ?_⟩
      have := ih.mpr hRest
      omega

/-- What the windows report adds up to `scans_total` exactly when no counter overflowed. -/
theorem Tables.Invariant.windows {len : Nat} {past : List (Input T F)} {s : Pipeline T F}
    (h : Invariant len past s) (c : String) :
    closedScans c len past + scansInWindow c s.locals = (s.hub.car c).scansTotal ↔
      (scanWindows c past).Short := by
  rw [h.closed, h.opened, (h.log.describes c).scansTotal]
  refine (Eq.congr_right (h.total c)).trans ((sum_map_mod_eq_iff _ _ _).trans ?_)
  simp only [ScanWindows.Short, Nat.mod_eq_iff_lt (by decide : 2 ^ 32 ≠ 0)]

/-- How the tables of the pipeline agree after the passes `inputs`. -/
structure Tables.Agree (len : Nat) (inputs : List (Input T F)) (s : Pipeline T F) : Prop where
  ids : ∀ k snap, s.hub.cars.lookup k = some snap → snap.id = k
  sorted : (s.hub.snapshots.map CarSnapshot.id).Pairwise (· < ·)
  listed : ∀ k, k ∈ s.hub.snapshots.map CarSnapshot.id ↔ k ∈ s.hub.cars
  rates : ∀ c, c ∈ s.locals.rates ↔ ∃ e frame, e ∈ (carLog c inputs).events ∧ e.kind = .scan frame
  workers : ∀ c, c ∈ s.locals.workers → c ∈ s.locals.rates
  mapped : ∀ c, c ∈ s.hub.maps ↔
    ∃ snap info, s.hub.cars.lookup c = some snap ∧ snap.map = some info
  geometry : ∀ c m snap info, s.hub.maps.lookup c = some m → s.hub.cars.lookup c = some snap →
    snap.map = some info → info.version = m.version ∧ info.width = m.width ∧
      info.height = m.height ∧ info.origin = m.origin ∧ info.resolution = m.resolution
  windows : ∀ c snap, s.hub.cars.lookup c = some snap →
    (closedScans c len inputs + scansInWindow c s.locals = snap.scansTotal ↔
      (scanWindows c inputs).Short)

/-- **Cross-table invariant.** In every state the pipeline can reach, the tables agree; the
scans of a car are counted in exactly one window each, as long as no window overflows. -/
theorem tables_agree (len : Nat) (inputs : List (Input T F)) (s : Pipeline T F)
    (hRun : (pipeline T F len).exec Pipeline.new inputs = some s) :
    Tables.Agree len inputs s := by
  have h := Tables.Invariant.of_run hRun
  have hCar : ∀ {k snap}, s.hub.cars.lookup k = some snap → s.hub.car k = snap := by
    intro k snap hk
    rw [Hub.car, hk, Option.getD_some]
  have hIds : ∀ k snap, s.hub.cars.lookup k = some snap → snap.id = k := fun k snap hk =>
    hCar hk ▸ (h.log.describes k).id
  obtain ⟨hSorted, hListed⟩ := Table.sortedValues_keys s.hub.cars CarSnapshot.id hIds
  have hMap : ∀ {c snap}, s.hub.cars.lookup c = some snap →
      snap.map = (s.hub.maps.lookup c).map (mapInfo c) := by
    intro c snap hc
    rw [h.maps, ← hCar hc]
    exact (h.log.describes c).map
  refine ⟨hIds, hSorted, hListed, fun c => ?_, h.workers, fun c => ⟨fun hc => ?_, ?_⟩, ?_,
    fun c snap hc => ?_⟩
  · rw [h.rates, Ne, List.eq_nil_iff_forall_not_mem, not_forall_not, scansOf]
    simp only [List.mem_filterMap]
    constructor
    · rintro ⟨frame, e, he, hf⟩
      refine ⟨e, frame, he, ?_⟩
      cases hk : e.kind <;> simp_all [CarEvent.scan?]
    · rintro ⟨e, frame, he, hk⟩
      exact ⟨frame, e, he, by simp [CarEvent.scan?, hk]⟩
  · obtain ⟨m, hm⟩ := Option.isSome_iff_exists.mp (AList.lookup_isSome.mpr hc)
    have hOcc : (carLog c inputs).Occurs := Or.inr fun hNil => by
      rw [h.maps, hNil] at hm
      cases hm
    obtain ⟨snap, hSnap⟩ := Option.isSome_iff_exists.mp
      (AList.lookup_isSome.mpr ((h.log.known c).mpr hOcc))
    exact ⟨snap, mapInfo c m, hSnap, by rw [hMap hSnap, hm, Option.map_some]⟩
  · rintro ⟨snap, info, hc, hInfo⟩
    rw [hMap hc, Option.map_eq_some_iff] at hInfo
    obtain ⟨m, hm, -⟩ := hInfo
    exact AList.lookup_isSome.mp (by rw [hm, Option.isSome_some])
  · intro c m snap info hm hc hInfo
    rw [hMap hc, hm, Option.map_some, Option.some.injEq] at hInfo
    exact hInfo ▸ ⟨rfl, rfl, rfl, rfl, rfl⟩
  · exact hCar hc ▸ h.windows c

/-- A spawn that fails, one that succeeds, a map and a tick. -/
theorem tables_agree_two_cars :
    let frame : ScanFrame := ⟨3, 0, [], 0⟩
    let inputs : List (Input Unit ℚ) :=
      [.event ⟨"a", 5, .scan frame⟩ 0 none, .event ⟨"b", 6, .scan frame⟩ 0 (some 0),
        .tick [⟨"b", 1, 1⟩, ⟨"a", 1, 1⟩], .slam "b" (.map ⟨1, 1, 1, (0, 0), 1, [0], []⟩),
        .event ⟨"a", 9, .scan frame⟩ 0 none]
    ∃ s, (pipeline Unit ℚ 1).exec Pipeline.new inputs = some s ∧ Tables.Agree 1 inputs s :=
  ⟨_, rfl, tables_agree 1 _ _ rfl⟩

/-- `n` rotations of one car and nothing else: no tick closes a window in between. -/
def rotations (n : Nat) : List (Input Unit ℚ) :=
  List.replicate n (.event ⟨"a", 0, .scan ⟨0, 0, [], 0⟩⟩ 0 none)

theorem exec_rotations (len : Nat) (n : Nat) (s : Pipeline Unit ℚ) :
    ∃ s', (pipeline Unit ℚ len).exec s (rotations n) = some s' := by
  induction n generalizing s with
  | zero => exact ⟨s, rfl⟩
  | succ n ih => exact ih _

theorem scanWindows_rotations (n : Nat) : scanWindows "a" (rotations n) = ⟨[], n⟩ := by
  induction n with
  | zero => rfl
  | succ n ih =>
      rw [rotations, List.replicate_succ', scanWindows, List.foldl_concat]
      exact (congrArg (ScanWindows.step "a" · _) ih).trans rfl

/-- With `2 ^ 32` rotations in one window the 32-bit counter is back at zero. -/
theorem windows_disagree_after_overflow :
    ∃ s snap, (pipeline Unit ℚ 0).exec Pipeline.new (rotations (2 ^ 32)) = some s ∧
      s.hub.cars.lookup "a" = some snap ∧
      closedScans "a" 0 (rotations (2 ^ 32)) + scansInWindow "a" s.locals ≠
        snap.scansTotal := by
  obtain ⟨s, hRun⟩ := exec_rotations 0 (2 ^ 32) Pipeline.new
  have h := Tables.Invariant.of_run hRun
  have hOverflow : ¬(scanWindows "a" (rotations (2 ^ 32))).Short := by
    rw [scanWindows_rotations]
    exact fun hShort => lt_irrefl _ hShort.2
  have hKnown : "a" ∈ s.hub.cars := by
    rw [h.log.known]
    refine Or.inl fun hNil => ?_
    have hTotal := h.total "a"
    rw [scansOf, hNil, scanWindows_rotations] at hTotal
    cases hTotal
  obtain ⟨snap, hSnap⟩ := Option.isSome_iff_exists.mp (AList.lookup_isSome.mpr hKnown)
  refine ⟨s, snap, hRun, hSnap, fun hEq => hOverflow ((h.windows "a").mp ?_)⟩
  rw [hEq, Hub.car, hSnap, Option.getD_some]

end OlivawHub
