import OlivawHub.Pipeline.Tables
import OlivawHub.Foundations.Spacing

/-!
# The reported scan rate

A tick reports the scans of a window divided by its age, and the window opens with the first scan
already in it. When the scans of a car come at least `gap` seconds apart and no tick closes a
window of the car that is younger than a second, every reported rate is at most `1 / gap + 1`
(`scan_rate_bounded`). The second is needed: of the runs with a single scan, which any `gap`
admits, those whose tick comes within a second report more.

Times are rationals; `readings` lists what the clock showed in the passes of a run.
-/

namespace OlivawHub

open Foundations

variable {T : Type}

section Clock

variable {F : Type}

/-- What the clock shows in a pass. -/
def Input.readings : Input T F → List F
  | .event _ now _ => [now]
  | .slam _ _ => []
  | .tick visits => visits.flatMap fun v => [v.elapsedAt, v.resetAt]

def readings (inputs : List (Input T F)) : List F :=
  inputs.flatMap Input.readings

/-- When a pass counts a scan of `c`. -/
def Input.arrival? (c : String) : Input T F → Option F
  | .event e now spawned => ((Input.event e now spawned).scanOf? c).map fun _ => now
  | .slam _ _ => none
  | .tick _ => none

def arrivals (c : String) (inputs : List (Input T F)) : List F :=
  inputs.filterMap (Input.arrival? c)

theorem readings_concat (past : List (Input T F)) (i : Input T F) :
    readings (past ++ [i]) = readings past ++ i.readings := by
  simp [readings]

theorem arrivals_concat (c : String) (past : List (Input T F)) (i : Input T F) :
    arrivals c (past ++ [i]) = arrivals c past ++ (i.arrival? c).toList := by
  cases h : i.arrival? c <;> simp [arrivals, h]

theorem mem_readings_of_arrival {c : String} {inputs : List (Input T F)} {t : F}
    (h : t ∈ arrivals c inputs) : t ∈ readings inputs := by
  obtain ⟨i, hi, ht⟩ := List.mem_filterMap.mp h
  refine List.mem_flatMap.mpr ⟨i, hi, ?_⟩
  cases i with
  | event e now spawned =>
      obtain ⟨_, -, rfl⟩ := Option.map_eq_some_iff.mp ht
      exact List.mem_singleton.mpr rfl
  | slam car output => cases ht
  | tick visits => cases ht

end Clock

/-- The window of `c` after the passes `past`: opened when the clock was read, it counts no more
than the last scans of `c`, all of which came since. -/
structure RateWindow (c : String) (past : List (Input T ℚ)) (rate : CarRate ℚ) : Prop where
  opened : rate.windowStart ∈ readings past
  counted : ∃ before inside, arrivals c past = before ++ inside ∧
    rate.scansInWindow.toNat ≤ inside.length ∧ ∀ t ∈ inside, rate.windowStart ≤ t

variable {len : Nat} {c : String} {past : List (Input T ℚ)} {s s' : Pipeline T ℚ}

theorem RateWindow.concat {rate : CarRate ℚ} (h : RateWindow c past rate) {i : Input T ℚ}
    (hNone : i.arrival? c = none) : RateWindow c (past ++ [i]) rate where
  opened := by
    rw [readings_concat]
    exact List.mem_append_left _ h.opened
  counted := by
    rw [arrivals_concat, hNone, Option.toList_none, List.append_nil]
    exact h.counted

theorem toNat_succ_le (n : UInt32) : (n + 1).toNat ≤ n.toNat + 1 := by
  rw [UInt32.toNat_add]
  exact Nat.mod_le _ _

/-- The window of `c` after a scan of `c` at `now`. -/
theorem RateWindow.count {l : Locals ℚ}
    (h : ∀ rate, l.rates.lookup c = some rate → RateWindow c past rate) {i : Input T ℚ} {now : ℚ}
    (hReadings : i.readings = [now]) (hArrival : i.arrival? c = some now)
    (hClock : (readings (past ++ [i])).Pairwise (· ≤ ·)) :
    RateWindow c (past ++ [i])
      { (l.rates.lookup c).getD ⟨now, 0⟩ with
        scansInWindow := ((l.rates.lookup c).getD ⟨now, 0⟩).scansInWindow + 1 } := by
  rw [readings_concat, hReadings, List.pairwise_append] at hClock
  cases hRate : l.rates.lookup c with
  | none =>
      refine ⟨?_, arrivals c past, [now], ?_, le_refl 1, ?_⟩
      · rw [readings_concat, hReadings]
        exact List.mem_append_right _ (List.mem_singleton.mpr rfl)
      · rw [arrivals_concat, hArrival, Option.toList_some]
      · intro t ht
        exact (List.mem_singleton.mp ht).ge
  | some rate =>
      obtain ⟨hOpened, before, inside, hSplit, hCount, hSince⟩ := h rate hRate
      have hNow : rate.windowStart ≤ now := hClock.2.2 _ hOpened now (List.mem_singleton.mpr rfl)
      refine ⟨?_, before, inside ++ [now], ?_, ?_, ?_⟩
      · rw [readings_concat]
        exact List.mem_append_left _ hOpened
      · rw [arrivals_concat, hArrival, Option.toList_some, hSplit, List.append_assoc]
      · rw [List.length_append, List.length_singleton]
        exact (toNat_succ_le _).trans (Nat.succ_le_succ hCount)
      · intro t ht
        rcases List.mem_append.mp ht with hOld | hNew
        · exact hSince t hOld
        · rw [List.mem_singleton.mp hNew]
          exact hNow

theorem RateWindow.step (h : ∀ rate, s.locals.rates.lookup c = some rate → RateWindow c past rate)
    {i : Input T ℚ} (hClock : (readings (past ++ [i])).Pairwise (· ≤ ·))
    (hStep : (pipeline T ℚ len).step s i = some s') :
    ∀ rate, s'.locals.rates.lookup c = some rate → RateWindow c (past ++ [i]) rate := by
  intro rate hRate
  obtain ⟨hEnabled, rfl⟩ := pipeline_step.mp hStep
  cases i with
  | slam car output => exact (h rate hRate).concat rfl
  | event e now spawned =>
      rw [bodyLocals, lookup_rates_eventLocals] at hRate
      cases hScan : (Input.event e now spawned).scanOf? c with
      | none =>
          rw [hScan] at hRate
          exact (h rate hRate).concat (by rw [Input.arrival?, hScan, Option.map_none])
      | some frame =>
          rw [hScan] at hRate
          cases hRate
          exact RateWindow.count h rfl (by rw [Input.arrival?, hScan, Option.map_some]) hClock
  | tick visits =>
      by_cases hc : c ∈ s.locals.rates
      · have hVisit : c ∈ visits.map Visit.car :=
          (List.Perm.mem_iff hEnabled).mpr (AList.mem_keys.mp hc)
        obtain ⟨v, hv, -, hLookup⟩ := lookup_foldl_visitRates hVisit hc
        cases hLookup.symm.trans hRate
        refine ⟨?_, arrivals c past, [], ?_, le_refl 0, fun t ht => absurd ht List.not_mem_nil⟩
        · rw [readings_concat]
          exact List.mem_append_right _ (List.mem_flatMap.mpr ⟨v, hv, by simp⟩)
        · rw [arrivals_concat, Input.arrival?, Option.toList_none]
      · have hNone := AList.lookup_eq_none.mpr
          fun hm => hc ((mem_visitRates visits s.locals.rates c).mp hm)
        cases hNone.symm.trans hRate

theorem RateWindow.of_run (hRun : (pipeline T ℚ len).exec Pipeline.new past = some s)
    (hClock : (readings past).Pairwise (· ≤ ·)) :
    ∀ rate, s.locals.rates.lookup c = some rate → RateWindow c past rate := by
  refine Machine.exec_history (P := fun past s => (readings past).Pairwise (· ≤ ·) →
    ∀ rate, s.locals.rates.lookup c = some rate → RateWindow c past rate) ?_ ?_ hRun hClock
  · intro _ rate hRate
    cases hRate
  · intro past s i s' _ ih hStep hClock
    have hBefore : (readings past).Pairwise (· ≤ ·) := by
      rw [readings_concat, List.pairwise_append] at hClock
      exact hClock.1
    exact RateWindow.step (ih hBefore) hClock hStep

/-! ## Reports -/

/-- The rate an action stores or sends for `c`. -/
def HubOp.rate? {F : Type} (c : String) : HubOp T F → Option F
  | .updateCar id (.scanHz hz) => if id = c then some hz else none
  | .emit (.stats car hz _) => if car = c then some hz else none
  | _ => none

/-- The rates the pipeline stores and sends for `c`. -/
def reportedRates {F : Type} (c : String) (os : List (HubOp T F)) : List F :=
  os.filterMap (HubOp.rate? c)

theorem reportedRates_concat {F : Type} [HubFloat F] {past : List (Input T F)} {s : Pipeline T F}
    (hPast : (pipeline T F len).exec Pipeline.new past = some s) (i : Input T F) :
    reportedRates c (actionsOf len (past ++ [i])) =
      reportedRates c (actionsOf len past) ++
        reportedRates c (bodyOps len s.hub s.locals i) := by
  rw [actionsOf_concat hPast]
  exact List.filterMap_append

/-- Only a tick reports rates, those of the windows it closes. -/
theorem mem_reportedRates_bodyOps {F : Type} [HubFloat F] {hub : Hub T F} {l : Locals F}
    {i : Input T F} {hz : F} (h : hz ∈ reportedRates c (bodyOps len hub l i)) :
    ∃ visits, i = .tick visits ∧ ∃ v ∈ visits, v.car = c ∧ ∃ rate, l.rates.lookup c = some rate ∧
      hz = rate.hz v.elapsedAt := by
  obtain ⟨o, ho, hRate⟩ := List.mem_filterMap.mp h
  cases i with
  | event e now spawned =>
      obtain ⟨car, atMs, kind⟩ := e
      rcases mem_eventOps ho with rfl | rfl | ⟨_, rfl⟩ | ⟨_, rfl⟩ | ⟨_, rfl⟩ | ⟨_, _, rfl⟩
      · cases hRate
      · cases kind <;> cases hRate
      · cases hRate
      · cases hRate
      · cases hRate
      · cases hRate
  | slam car output =>
      cases output <;> simp only [bodyOps, slamOps, List.mem_cons, List.not_mem_nil, or_false]
        at ho <;> rcases ho with rfl | rfl | rfl <;> cases hRate
  | tick visits =>
      obtain ⟨v, hv, rate, hLookup, ho⟩ := mem_visitOps ho
      have hOf : (if v.car = c then some (rate.hz v.elapsedAt) else none) = some hz := by
        rcases ho with rfl | ⟨total, rfl⟩ <;> exact hRate
      obtain ⟨rfl, hSame⟩ := Option.ite_none_right_eq_some.mp hOf
      exact ⟨visits, rfl, v, hv, rfl, rate, hLookup, (Option.some.inj hSame).symm⟩

/-- A window of `c` that a tick closes is a second old, or nothing was counted in it. -/
def ClosesSeconds (c : String) (s : Pipeline T ℚ) : Input T ℚ → Prop
  | .tick visits => ∀ v ∈ visits, v.car = c → ∀ rate ∈ s.locals.rates.lookup c,
      rate.scansInWindow = 0 ∨ rate.windowStart + 1 ≤ v.elapsedAt
  | _ => True

instance (c : String) (s : Pipeline T ℚ) : (i : Input T ℚ) → Decidable (ClosesSeconds c s i)
  | .tick visits =>
      inferInstanceAs (Decidable (∀ v ∈ visits, v.car = c → ∀ rate ∈ s.locals.rates.lookup c,
        rate.scansInWindow = 0 ∨ rate.windowStart + 1 ≤ v.elapsedAt))
  | .event _ _ _ => isTrue trivial
  | .slam _ _ => isTrue trivial

theorem CarRate.hz_eq (rate : CarRate ℚ) (now : ℚ) :
    rate.hz now = rate.scansInWindow.toNat / max (now - rate.windowStart) (1 / 1000) := by
  have hMilli : (1e-3 : ℚ) = 1 / 1000 := by norm_num
  rw [← hMilli]
  rfl

/-- What a tick reports for a window of spaced scans that is a second old, or empty. -/
theorem RateWindow.hz_le {rate : CarRate ℚ} {gap now : ℚ} (h : RateWindow c past rate)
    (hGap : 0 < gap) (hSpaced : Spaced gap (arrivals c past)) (hNow : ∀ t ∈ readings past, t ≤ now)
    (hAge : rate.scansInWindow = 0 ∨ rate.windowStart + 1 ≤ now) :
    rate.hz now ≤ 1 / gap + 1 := by
  rw [CarRate.hz_eq]
  rcases hAge with hEmpty | hSecond
  · have hPos : 0 < 1 / gap := one_div_pos.mpr hGap
    rw [hEmpty]
    simp only [UInt32.toNat_zero, Nat.cast_zero, zero_div]
    linarith
  · obtain ⟨before, inside, hSplit, hCount, hSince⟩ := h.counted
    rw [hSplit] at hSpaced
    have hAge : 1 ≤ max (now - rate.windowStart) (1 / 1000) :=
      le_max_of_le_left (by linarith)
    have hIn : ∀ t ∈ inside, rate.windowStart ≤ t ∧ t ≤ now := fun t ht =>
      ⟨hSince t ht, hNow t (mem_readings_of_arrival (by
        rw [hSplit]
        exact List.mem_append_right _ ht))⟩
    have hCast : (rate.scansInWindow.toNat : ℚ) ≤ inside.length := Nat.cast_le.mpr hCount
    calc (rate.scansInWindow.toNat : ℚ) / max (now - rate.windowStart) (1 / 1000)
        ≤ inside.length / max (now - rate.windowStart) (1 / 1000) :=
          div_le_div_of_nonneg_right hCast (zero_le_one.trans hAge)
      _ ≤ 1 / gap + 1 :=
          hSpaced.suffix.rate_le hGap (by linarith) hIn (le_max_left _ _) hAge

/-- Every rate stored and sent for `c` is at most one above that of scans `gap` apart. -/
def RatesBounded (c : String) (gap : ℚ) (len : Nat) (inputs : List (Input T ℚ)) : Prop :=
  ∀ hz ∈ reportedRates c (actionsOf len inputs), hz ≤ 1 / gap + 1

theorem RatesBounded.concat {gap : ℚ} {i : Input T ℚ} (hGap : 0 < gap)
    (hPast : (pipeline T ℚ len).exec Pipeline.new past = some s)
    (hClock : (readings (past ++ [i])).Pairwise (· ≤ ·)) (hSpaced : Spaced gap (arrivals c past))
    (hCloses : ClosesSeconds c s i) (h : RatesBounded c gap len past) :
    RatesBounded c gap len (past ++ [i]) := by
  intro hz hReported
  rw [readings_concat, List.pairwise_append] at hClock
  rw [reportedRates_concat hPast, List.mem_append] at hReported
  rcases hReported with hOld | hNew
  · exact h hz hOld
  · obtain ⟨visits, rfl, v, hv, hCar, rate, hRate, rfl⟩ := mem_reportedRates_bodyOps hNew
    have hRead : v.elapsedAt ∈ (Input.tick visits : Input T ℚ).readings :=
      List.mem_flatMap.mpr ⟨v, hv, by simp⟩
    exact (RateWindow.of_run hPast hClock.1 rate hRate).hz_le hGap hSpaced
      (fun t ht => hClock.2.2 t ht _ hRead) (hCloses v hv hCar rate hRate)

/-! ## Windows younger than a second -/

/-- The only scan of a run. -/
def firstScan (c : String) : Input T ℚ :=
  .event ⟨c, 0, .scan ⟨0, 0, [], 0⟩⟩ 0 none

/-- One scan of `c`, and a tick when its window is `age` seconds old. -/
def oneScan (c : String) (age : ℚ) : List (Input T ℚ) :=
  [firstScan c] ++ [.tick [⟨c, age, age⟩]]

theorem exec_firstScan (len : Nat) (c : String) :
    ∃ s, (pipeline T ℚ len).exec Pipeline.new [firstScan c] = some s ∧
      s.locals.rates = countScan c 0 ∅ := by
  have hEnabled : (firstScan c : Input T ℚ).Enabled (Pipeline.new : Pipeline T ℚ).locals := trivial
  have hStep := pipeline_step (n := len).mpr ⟨hEnabled, rfl⟩
  exact ⟨_, by rw [Machine.exec_cons, hStep, Option.bind_some, Machine.exec_nil], rfl⟩

/-- It is a run: the tick visits the one window there is. -/
theorem exec_oneScan (len : Nat) (c : String) (age : ℚ) :
    ∃ s, (pipeline T ℚ len).exec Pipeline.new (oneScan c age) = some s := by
  obtain ⟨s, hRun, hRates⟩ := exec_firstScan (T := T) len c
  have hEnabled : (Input.tick [⟨c, age, age⟩] : Input T ℚ).Enabled s.locals := by
    rw [Input.Enabled, hRates, countScan, Table.upsert, AList.keys_insert]
    exact List.Perm.refl [c]
  have hStep := pipeline_step (n := len).mpr ⟨hEnabled, rfl⟩
  exact ⟨_, by rw [oneScan, Machine.exec_snoc, hRun, Option.bind_some, hStep]⟩

theorem mem_reportedRates_oneScan {age hz : ℚ} :
    hz ∈ reportedRates c (actionsOf (T := T) len (oneScan c age)) ↔
      hz = 1 / max age (1 / 1000) := by
  obtain ⟨s, hRun, hRates⟩ := exec_firstScan (T := T) len c
  have hLookup : s.locals.rates.lookup c = some ⟨0, 1⟩ := by
    rw [hRates, countScan, Table.lookup_upsert_self]
    rfl
  have hFirst : hz ∉ reportedRates c (actionsOf (T := T) len [firstScan c]) := by
    intro hMem
    rw [← List.nil_append [firstScan c], reportedRates_concat rfl, List.mem_append] at hMem
    rcases hMem with hNone | hScan
    · cases hNone
    · obtain ⟨visits, hTick, -⟩ := mem_reportedRates_bodyOps hScan
      cases hTick
  have hRate : (⟨0, 1⟩ : CarRate ℚ).hz age = 1 / max age (1 / 1000) := by
    rw [CarRate.hz_eq, sub_zero]
    rfl
  rw [oneScan, reportedRates_concat hRun, List.mem_append, or_iff_right hFirst]
  simp only [bodyOps, List.flatMap_singleton, visitOps, hLookup, hRate, reportedRates,
    List.filterMap_cons, List.filterMap_nil, HubOp.rate?, if_true, List.mem_cons,
    List.not_mem_nil, or_false, or_self]

/-- Whatever `gap` is asked for: a single scan is reported within the bound exactly when its
window is a second old. -/
theorem ratesBounded_oneScan_iff (len : Nat) (c : String) (age : ℚ) :
    (∀ gap, 0 < gap → RatesBounded c gap len (oneScan (T := T) c age)) ↔ 1 ≤ age := by
  have hMilli : (0 : ℚ) < max age (1 / 1000) := lt_max_of_lt_right (by norm_num)
  have hSecond : 1 / max age (1 / 1000) ≤ 1 ↔ 1 ≤ age := by
    rw [div_le_one hMilli, le_max_iff]
    norm_num
  simp only [RatesBounded, mem_reportedRates_oneScan, forall_eq]
  rw [← hSecond]
  constructor
  · intro h
    refine le_of_forall_pos_le_add fun ε hε => ?_
    have hGap := h (1 / ε) (one_div_pos.mpr hε)
    rwa [one_div_one_div, add_comm] at hGap
  · intro h gap hGap
    have hPos : 0 < 1 / gap := one_div_pos.mpr hGap
    linarith

/-- **Scan rates.** In every run in which the scans of `c` come at least `gap` seconds apart, and
every window of `c` that a tick closes is empty or a second old, each rate stored and sent for `c`
is at most `1 / gap + 1`. For windows of a single scan, and there are such runs, a second is exactly
what it takes. -/
theorem scan_rate_bounded (c : String) (gap : ℚ) (hGap : 0 < gap) (len : Nat)
    (inputs : List (Input T ℚ)) (s : Pipeline T ℚ)
    (hRun : (pipeline T ℚ len).exec Pipeline.new inputs = some s)
    (hClock : (readings inputs).Pairwise (· ≤ ·)) (hSpaced : Spaced gap (arrivals c inputs))
    (hMeets : (pipeline T ℚ len).Meets (ClosesSeconds c) Pipeline.new inputs) :
    RatesBounded c gap len inputs ∧
      ∀ age, (∃ t : Pipeline T ℚ, (pipeline T ℚ len).exec Pipeline.new (oneScan c age) = some t) ∧
        ((∀ gap', 0 < gap' → RatesBounded c gap' len (oneScan (T := T) c age)) ↔ 1 ≤ age) := by
  refine ⟨?_, fun age => ⟨exec_oneScan len c age, ratesBounded_oneScan_iff len c age⟩⟩
  refine Machine.exec_history_of_meets (P := fun past _ => (readings past).Pairwise (· ≤ ·) →
    Spaced gap (arrivals c past) → RatesBounded c gap len past) (fun _ _ => nofun) ?_ hMeets hRun
    hClock hSpaced
  intro past s i s' hPast hCloses ih _ hClock hSpaced
  have hSpacedBefore : Spaced gap (arrivals c past) := by
    rw [arrivals_concat] at hSpaced
    exact (List.isChain_append.mp hSpaced).1
  have hClockBefore : (readings past).Pairwise (· ≤ ·) := by
    rw [readings_concat, List.pairwise_append] at hClock
    exact hClock.1
  exact (ih hClockBefore hSpacedBefore).concat hGap hPast hClock hSpacedBefore hCloses

/-- Scans of `a` at the given times and a tick, between the first scan and the others. -/
def scansAroundTick (first tick : ℚ) (later : List ℚ) : List (Input Unit ℚ) :=
  let scanAt (now : ℚ) : Input Unit ℚ := .event ⟨"a", 0, .scan ⟨0, 0, [], 0⟩⟩ now none
  scanAt first :: .tick [⟨"a", tick, tick⟩] :: later.map scanAt

/-- Scans ten seconds apart, with a tick half a second after the first: the tick reports two
rotations a second. -/
theorem half_second_window :
    ∃ s, (pipeline Unit ℚ 0).exec Pipeline.new (scansAroundTick 0 (1 / 2) [10]) = some s ∧
      (readings (scansAroundTick 0 (1 / 2) [10])).Pairwise (· ≤ ·) ∧
      Spaced 10 (arrivals "a" (scansAroundTick 0 (1 / 2) [10])) ∧
      reportedRates "a" (actionsOf 0 (scansAroundTick 0 (1 / 2) [10])) = [2, 2] ∧
      ¬(2 : ℚ) ≤ 1 / 10 + 1 :=
  ⟨_, rfl, by decide +kernel, by decide +kernel, by decide +kernel, by decide +kernel⟩

theorem scan_rate_bounded_two :
    RatesBounded "a" (1 / 2) 0 (scansAroundTick 0 1 [3 / 2]) :=
  (scan_rate_bounded "a" (1 / 2) (by decide +kernel) 0 (scansAroundTick 0 1 [3 / 2]) _ rfl
    (by decide +kernel) (by decide +kernel) (by decide +kernel)).1

end OlivawHub
