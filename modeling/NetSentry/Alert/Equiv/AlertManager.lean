import Mathlib.Data.List.GetD
import Mathlib.Data.List.Nodup
import NetSentry.Alert.AlertManager

/-!
# When alerts fire

`checkAlerts_exact`: in every pass of every run an alert fires exactly when its condition holds and
it has not fired before, or the reading that `shouldSuppressAlert` takes is at least sixty seconds
after its last firing.

* `Inv`: what the cooldown policy knows of a name is the last firing of the alert with this name.
* `checkAlert_spec`: one alert in a pass.
* `checkFrom_spec`, `run_spec`: a pass, and a run.
-/

namespace NetSentry.AlertManager

variable {κ : Type*} {clock : ℕ → ℤ} {pass : Pass} {m : AlertManager κ} {history : List (Check κ)}

/-! ### Callbacks and firings -/

/-- When no callback throws, each is called once, in their order. -/
theorem notify_eq {returns : ℕ → Bool} (h : ∀ j, returns j = true) (j : ℕ) (callbacks : List κ) :
    notify returns j callbacks = (callbacks, true) := by
  induction callbacks generalizing j with
  | nil => rfl
  | cons callback callbacks ih => rw [notify, if_pos (h j), ih]

/-- The pass goes on after an alert whose callbacks return normally. -/
theorem checkFrom_cons_of_returns {m' : AlertManager κ} {i : ℕ} {alert : Alert} {check : Check κ}
    (h : checkAlert clock pass m i alert = (check, m', true)) (alerts : List Alert) :
    checkFrom clock pass m i (alert :: alerts)
      = (check :: (checkFrom clock pass m' (i + 1) alerts).1,
        (checkFrom clock pass m' (i + 1) alerts).2) := by
  rw [checkFrom, h]

/-- A callback that throws ends the pass. -/
theorem checkFrom_cons_of_throws {m' : AlertManager κ} {i : ℕ} {alert : Alert} {check : Check κ}
    (h : checkAlert clock pass m i alert = (check, m', false)) (alerts : List Alert) :
    checkFrom clock pass m i (alert :: alerts) = ([check], m') := by
  rw [checkFrom, h]

theorem firings_append (i : ℕ) (xs ys : List (Check κ)) :
    firings i (xs ++ ys) = firings i xs ++ firings i ys :=
  List.filterMap_append

theorem firings_concat_of_none {check : Check κ} (h : check.fired = none) (i : ℕ)
    (history : List (Check κ)) : firings i (history ++ [check]) = firings i history := by
  rw [firings_append]
  simp [firings, h]

theorem firings_concat_of_ne {check : Check κ} {i : ℕ} (h : check.index ≠ i)
    (history : List (Check κ)) : firings i (history ++ [check]) = firings i history := by
  rw [firings_append]
  simp [firings, h]

theorem firings_concat_self {check : Check κ} {time : ℤ} (h : check.fired = some time)
    (history : List (Check κ)) :
    firings check.index (history ++ [check]) = firings check.index history ++ [time] := by
  rw [firings_append]
  simp [firings, h]

/-- The last of times that lie apart is the latest. -/
theorem le_of_getLast?_eq_some {times : List ℤ} {last time : ℤ}
    (h : times.Pairwise fun a b => a + cooldown ≤ b) (hlast : times.getLast? = some last)
    (htime : time ∈ times) : time ≤ last := by
  obtain ⟨before, rfl⟩ := List.getLast?_eq_some_iff.mp hlast
  rcases List.mem_append.mp htime with hbefore | hself
  · have hapart := (List.pairwise_append.mp h).2.2 time hbefore last List.mem_cons_self
    unfold cooldown at hapart
    omega
  · exact (List.mem_singleton.mp hself).le

/-! ### The invariant -/

/-- What the cooldown policy knows of a name is the last firing of the alert with this name, and the
firings of an alert lie apart. -/
structure Inv (m : AlertManager κ) (history : List (Check κ)) : Prop where
  duration : m.cooldownPolicy.cooldownDuration = cooldown
  fired : ∀ i alert, m.alerts[i]? = some alert →
    m.cooldownPolicy.lastFired.lookup alert.name = (firings i history).getLast?
  absent : ∀ name, name ∉ m.alerts.map Alert.name →
    m.cooldownPolicy.lastFired.lookup name = none
  bound : ∀ check ∈ history, check.index < m.alerts.length
  apart : ∀ i, (firings i history).Pairwise fun a b => a + cooldown ≤ b

theorem inv_create : Inv (create : AlertManager κ) [] where
  duration := rfl
  fired := fun _ _ h => nomatch h
  absent := fun _ _ => Finmap.lookup_empty _
  bound := nofun
  apart := fun _ => .nil

theorem Inv.bound_concat (hinv : Inv m history) {check : Check κ}
    (hcheck : check.index < m.alerts.length) :
    ∀ c ∈ history ++ [check], c.index < m.alerts.length := by
  intro c hc
  rcases List.mem_append.mp hc with hc | hc
  · exact hinv.bound c hc
  · exact List.mem_singleton.mp hc ▸ hcheck

/-- An alert that does not fire. -/
theorem Inv.quiet (hinv : Inv m history) {check : Check κ} (hnone : check.fired = none)
    (hcheck : check.index < m.alerts.length) (reads : ℕ) :
    Inv { m with reads := reads } (history ++ [check]) where
  duration := hinv.duration
  fired := by
    intro i alert hi
    rw [firings_concat_of_none hnone]
    exact hinv.fired i alert hi
  absent := hinv.absent
  bound := hinv.bound_concat hcheck
  apart := by
    intro i
    rw [firings_concat_of_none hnone]
    exact hinv.apart i

/-- An alert that fires, long enough after it has fired before. -/
theorem Inv.record (hinv : Inv m history) (hnames : (m.alerts.map Alert.name).Nodup)
    {check : Check κ} {alert : Alert} {time : ℤ} (hi : m.alerts[check.index]? = some alert)
    (hfired : check.fired = some time)
    (hlate : ∀ t ∈ firings check.index history, t + cooldown ≤ time) (reads : ℕ) :
    Inv { m with
      cooldownPolicy := { m.cooldownPolicy with
        lastFired := m.cooldownPolicy.lastFired.insert alert.name time }
      reads := reads } (history ++ [check]) where
  duration := hinv.duration
  fired := by
    intro j other hj
    by_cases hji : check.index = j
    · subst hji
      obtain rfl := Option.some.inj (hi.symm.trans hj)
      rw [firings_concat_self hfired, List.getLast?_concat]
      exact Finmap.lookup_insert _
    · -- another alert has another name
      have hname : other.name ≠ alert.name := by
        intro heq
        have hj' : (m.alerts.map Alert.name)[j]? = some alert.name := by
          rw [List.getElem?_map, hj, ← heq]
          rfl
        have hi' : (m.alerts.map Alert.name)[check.index]? = some alert.name := by
          rw [List.getElem?_map, hi]
          rfl
        have hlt : check.index < (m.alerts.map Alert.name).length :=
          (List.getElem?_eq_some_iff.mp hi').1
        exact hji ((List.getElem?_inj hlt hnames).mp (hi'.trans hj'.symm))
      rw [firings_concat_of_ne hji, ← hinv.fired j other hj]
      exact Finmap.lookup_insert_of_ne _ hname
  absent := by
    intro name hname
    have hne : name ≠ alert.name := by
      rintro rfl
      exact hname (List.mem_map_of_mem (List.mem_of_getElem? hi))
    rw [← hinv.absent name hname]
    exact Finmap.lookup_insert_of_ne _ hne
  bound := hinv.bound_concat (List.getElem?_eq_some_iff.mp hi).1
  apart := by
    intro j
    by_cases hji : check.index = j
    · subst hji
      rw [firings_concat_self hfired]
      refine List.pairwise_append.mpr ⟨hinv.apart _, List.pairwise_singleton _ _, ?_⟩
      intro t ht time' htime'
      obtain rfl := List.mem_singleton.mp htime'
      exact hlate t ht
    · rw [firings_concat_of_ne hji]
      exact hinv.apart j

/-! ### Passes -/

/-- What a pass does about an alert, given what happened before it. -/
structure Exact (pass : Pass) (callbacks : List κ) (history : List (Check κ)) (check : Check κ) :
    Prop where
  holds : check.holds = pass.holds check.index
  fires : check.fired.isSome ↔ check.holds = true ∧
    (firings check.index history = [] ∨ ∃ last reading,
      (firings check.index history).getLast? = some last ∧ check.reading = some reading ∧
      last + cooldown ≤ reading)
  calls : check.calls = if check.fired.isSome then callbacks else []

/-- **One alert in a pass.** -/
theorem checkAlert_spec (hclock : Steady clock) (hreturns : pass.Returns)
    (hnames : (m.alerts.map Alert.name).Nodup) (hinv : Inv m history) {i : ℕ} {alert : Alert}
    (hi : m.alerts[i]? = some alert) :
    ∃ check m', checkAlert clock pass m i alert = (check, m', true) ∧
      Inv m' (history ++ [check]) ∧ m'.alerts = m.alerts ∧ m'.callbacks = m.callbacks ∧
      check.index = i ∧ Exact pass m.callbacks history check := by
  have hlt : i < m.alerts.length := (List.getElem?_eq_some_iff.mp hi).1
  have hlast := hinv.fired i alert hi
  have hnotify := notify_eq (hreturns i) 0 m.callbacks
  unfold checkAlert CooldownPolicy.shouldSuppressAlert CooldownPolicy.recordAlertFired
  rw [hnotify]
  by_cases hholds : pass.holds i = true
  · rw [if_pos hholds]
    cases hlookup : m.cooldownPolicy.lastFired.lookup alert.name with
    | none =>
      -- the first firing
      have hnone : firings i history = [] := by
        rw [hlookup] at hlast
        exact List.getLast?_eq_none_iff.mp hlast.symm
      refine ⟨_, _, rfl, hinv.record hnames hi rfl ?_ _, rfl, rfl, rfl, hholds.symm, ?_, rfl⟩
      · intro t ht
        rw [show firings _ history = [] from hnone] at ht
        cases ht
      · exact ⟨fun _ => ⟨rfl, .inl hnone⟩, fun _ => rfl⟩
    | some last =>
      rw [hlookup] at hlast
      have hne : firings i history ≠ [] := by
        intro hnil
        rw [hnil] at hlast
        cases hlast
      dsimp only
      by_cases hearly : clock m.reads - last < m.cooldownPolicy.cooldownDuration
      · rw [if_pos (decide_eq_true hearly)]
        rw [hinv.duration] at hearly
        refine ⟨_, _, rfl, hinv.quiet rfl hlt _, rfl, rfl, rfl, hholds.symm, ?_, rfl⟩
        constructor
        · nofun
        · rintro ⟨_, hnil | ⟨last', reading, hlast', hreading, hlate⟩⟩
          · exact absurd hnil hne
          · obtain rfl := Option.some.inj (hlast'.symm.trans hlast.symm)
            obtain rfl := Option.some.inj hreading
            omega
      · rw [if_neg (by rwa [decide_eq_true_iff])]
        rw [hinv.duration] at hearly
        -- the time that is recorded is read after the one that is compared
        have hread : clock m.reads ≤ clock (m.reads + 1) := hclock (Nat.le_succ m.reads)
        refine ⟨_, _, rfl, hinv.record hnames hi rfl ?_ _, rfl, rfl, rfl, hholds.symm, ?_, rfl⟩
        · intro t ht
          have hle := le_of_getLast?_eq_some (hinv.apart i) hlast.symm ht
          omega
        · refine ⟨fun _ => ⟨rfl, .inr ⟨last, clock m.reads, hlast.symm, rfl, ?_⟩⟩, fun _ => rfl⟩
          omega
  · rw [if_neg hholds]
    refine ⟨_, _, rfl, hinv.quiet rfl hlt _, rfl, rfl, rfl, (Bool.eq_false_iff.mpr hholds).symm, ?_,
      rfl⟩
    exact ⟨nofun, fun h => absurd h.1 Bool.false_ne_true⟩

/-- **A pass** checks the alerts one after the other, and each as if it were alone. -/
theorem checkFrom_spec (hclock : Steady clock) (hreturns : pass.Returns)
    (hnames : (m.alerts.map Alert.name).Nodup) (hinv : Inv m history) {before alerts : List Alert}
    (halerts : m.alerts = before ++ alerts) :
    let result := checkFrom clock pass m before.length alerts
    Inv result.2 (history ++ result.1) ∧ result.2.alerts = m.alerts ∧
      result.2.callbacks = m.callbacks ∧
      result.1.map (·.index) = List.range' before.length alerts.length ∧
      ∀ check ∈ result.1, Exact pass m.callbacks history check := by
  induction alerts generalizing m history before with
  | nil => exact ⟨(List.append_nil history).symm ▸ hinv, rfl, rfl, rfl, nofun⟩
  | cons alert alerts ih =>
    have hi : m.alerts[before.length]? = some alert := by
      rw [halerts, List.getElem?_append_right (Nat.le_refl _), Nat.sub_self]
      rfl
    obtain ⟨check, m', hcheck, hinv', halerts', hcallbacks', hindex, hexact⟩ :=
      checkAlert_spec hclock hreturns hnames hinv hi
    have hsplit : m'.alerts = (before ++ [alert]) ++ alerts := by
      rw [halerts', halerts, List.append_assoc]
      rfl
    have hrest := ih (halerts' ▸ hnames) hinv' hsplit
    rw [List.length_append, List.length_singleton] at hrest
    obtain ⟨hinvRest, halertsRest, hcallbacksRest, hindices, hexactRest⟩ := hrest
    rw [checkFrom_cons_of_returns hcheck]
    refine ⟨?_, halertsRest.trans halerts', hcallbacksRest.trans hcallbacks', ?_, ?_⟩
    · rwa [List.append_assoc] at hinvRest
    · rw [List.map_cons, hindex, hindices, List.length_cons, List.range'_succ]
    · intro c hc
      rcases List.mem_cons.mp hc with rfl | hc
      · exact hexact
      · -- the checks before it in the pass are about other alerts
        have hmem : c.index ∈ List.range' (before.length + 1) alerts.length :=
          hindices ▸ List.mem_map_of_mem hc
        have hne : check.index ≠ c.index := by
          have hlt := (List.mem_range'_1.mp hmem).1
          omega
        have hc := hexactRest c hc
        exact ⟨hc.holds, by rw [hc.fires, firings_concat_of_ne hne], hcallbacks' ▸ hc.calls⟩

/-! ### Runs -/

/-- A new alert has not fired, under its name or otherwise. -/
theorem Inv.createAlert (hinv : Inv m history) {alert : Alert}
    (hnames : ((m.alerts ++ [alert]).map Alert.name).Nodup) :
    Inv (m.createAlert alert) history where
  duration := hinv.duration
  fired := by
    intro i other hi
    change (m.alerts ++ [alert])[i]? = some other at hi
    rcases Nat.lt_or_ge i m.alerts.length with hlt | hge
    · rw [List.getElem?_append_left hlt] at hi
      exact hinv.fired i other hi
    · rw [List.getElem?_append_right hge] at hi
      obtain rfl := List.mem_singleton.mp (List.mem_of_getElem? hi)
      have hfirings : firings i history = [] := by
        apply List.filterMap_eq_nil_iff.mpr
        intro check hcheck
        have hlt := hinv.bound check hcheck
        exact if_neg (by omega)
      rw [List.map_append, List.nodup_append] at hnames
      have hname : other.name ∉ m.alerts.map Alert.name := fun hmem =>
        hnames.2.2 other.name hmem other.name List.mem_cons_self rfl
      rw [hfirings]
      exact hinv.absent other.name hname
  absent := by
    intro name hname
    refine hinv.absent name fun hmem => hname ?_
    show name ∈ (m.alerts ++ [alert]).map Alert.name
    rw [List.map_append]
    exact List.mem_append_left _ hmem
  bound := by
    intro check hcheck
    have hlt := hinv.bound check hcheck
    show check.index < (m.alerts ++ [alert]).length
    rw [List.length_append]
    omega
  apart := hinv.apart

/-- **A run** keeps the invariant, and its alerts and callbacks in the order of their calls. -/
theorem run_spec (hclock : Steady clock) {calls : List (Call κ)} (hinv : Inv m history)
    (hnames : ((m.alerts ++ created calls).map Alert.name).Nodup)
    (hreturns : ∀ pass, .checkAlerts pass ∈ calls → pass.Returns) :
    let result := run clock m calls
    Inv result.2 (history ++ result.1) ∧ result.2.alerts = m.alerts ++ created calls ∧
      result.2.callbacks = m.callbacks ++ registered calls := by
  induction calls generalizing m history with
  | nil =>
    exact ⟨(List.append_nil history).symm ▸ hinv, (List.append_nil _).symm,
      (List.append_nil _).symm⟩
  | cons c calls ih =>
    have hreturnsRest : ∀ pass, .checkAlerts pass ∈ calls → pass.Returns :=
      fun pass hpass => hreturns pass (List.mem_cons_of_mem c hpass)
    cases c with
    | createAlert alert =>
      have hcreated : m.alerts ++ created (.createAlert alert :: calls)
          = (m.createAlert alert).alerts ++ created calls :=
        (List.append_cons m.alerts alert (created calls))
      rw [hcreated] at hnames ⊢
      have hnew : ((m.alerts ++ [alert]).map Alert.name).Nodup := by
        rw [List.map_append] at hnames
        exact (List.nodup_append.mp hnames).1
      exact ih (hinv.createAlert hnew) hnames hreturnsRest
    | registerCallback callback =>
      have hregistered : m.callbacks ++ registered (.registerCallback callback :: calls)
          = (m.registerCallback callback).callbacks ++ registered calls :=
        (List.append_cons m.callbacks callback (registered calls))
      rw [hregistered]
      have hsame : Inv (m.registerCallback callback) history := { hinv with }
      exact ih hsame hnames hreturnsRest
    | checkAlerts pass =>
      have hold : (m.alerts.map Alert.name).Nodup := by
        rw [List.map_append] at hnames
        exact (List.nodup_append.mp hnames).1
      obtain ⟨hinvPass, halerts, hcallbacks, _⟩ := checkFrom_spec hclock
        (hreturns pass List.mem_cons_self) hold hinv (List.nil_append m.alerts).symm
      obtain ⟨hinvRest, halertsRest, hcallbacksRest⟩ :=
        ih hinvPass (halerts.symm ▸ hnames) hreturnsRest
      rw [List.append_assoc] at hinvRest
      exact ⟨hinvRest, halertsRest.trans (congrArg (· ++ created calls) halerts),
        hcallbacksRest.trans (congrArg (· ++ registered calls) hcallbacks)⟩

/-- **Alerts fire exactly when they should.**  After any run, a pass checks every alert once, in the
order of their creation; an alert fires when its condition holds and it has not fired yet, or the
reading that `shouldSuppressAlert` takes is at least sixty seconds after its last firing; for each
firing every callback registered so far is called once, in the order of their registration; and the
times of any two firings of an alert are at least sixty seconds apart. -/
theorem checkAlerts_exact (hclock : Steady clock) (calls : List (Call κ)) (pass : Pass)
    (hnames : ((created calls).map Alert.name).Nodup)
    (hreturns : ∀ pass, .checkAlerts pass ∈ calls → pass.Returns) (hpass : pass.Returns) :
    let before := run clock create calls
    let checks := (before.2.checkAlerts clock pass).1
    checks.map (·.index) = List.range (created calls).length ∧
    (∀ check ∈ checks, check.holds = pass.holds check.index ∧
      (check.fired.isSome ↔ check.holds = true ∧ (firings check.index before.1 = [] ∨
        ∃ last reading, (firings check.index before.1).getLast? = some last ∧
          check.reading = some reading ∧ last + 60 * 10 ^ 9 ≤ reading)) ∧
      check.calls = if check.fired.isSome then registered calls else []) ∧
    ∀ i, (firings i (before.1 ++ checks)).Pairwise fun a b => a + 60 * 10 ^ 9 ≤ b := by
  intro before checks
  obtain ⟨hinv, halerts, hcallbacks⟩ := run_spec hclock inv_create hnames hreturns
  have hsame : before.2.alerts = created calls := halerts
  have hregistered : before.2.callbacks = registered calls := hcallbacks
  obtain ⟨hinvPass, _, _, hindices, hexact⟩ := checkFrom_spec hclock hpass (hsame.symm ▸ hnames)
    hinv (List.nil_append before.2.alerts).symm
  refine ⟨?_, ?_, ?_⟩
  · rw [← hsame, List.range_eq_range']
    exact hindices
  · intro check hcheck
    obtain ⟨hholds, hfires, hcalls⟩ := hexact check hcheck
    exact ⟨hholds, hfires, hregistered ▸ hcalls⟩
  · exact hinvPass.apart

/-- The clock goes on by thirty seconds from reading to reading. -/
def halfMinutes (n : ℕ) : ℤ := n * (30 * 10 ^ 9)

/-- All conditions hold and no callback throws. -/
def allHold : Pass where
  holds := fun _ => true
  returns := fun _ _ => true

/-- Of three passes, the last of which comes after these calls, an alert fires in the first and in
the third one. -/
def threePasses : List (Call ℕ) :=
  [.createAlert ⟨Bytes.ascii "cpu", .warning⟩, .registerCallback 1, .checkAlerts allHold,
    .registerCallback 2, .checkAlerts allHold]

theorem checkAlerts_exact_threePasses :
    let before := run halfMinutes create threePasses
    let checks := (before.2.checkAlerts halfMinutes allHold).1
    checks.map (·.calls) = [[1, 2]] ∧
    (firings 0 (before.1 ++ checks)).Pairwise fun a b => a + 60 * 10 ^ 9 ≤ b := by
  intro before checks
  have hclock : Steady halfMinutes := by
    intro a b hab
    unfold halfMinutes
    omega
  have hexact := checkAlerts_exact hclock threePasses allHold (by decide)
    (by
      intro pass hpass
      simp only [threePasses, List.mem_cons, List.not_mem_nil, reduceCtorEq, or_false, false_or,
        Call.checkAlerts.injEq] at hpass
      rcases hpass with rfl | rfl <;> exact fun _ _ => rfl)
    fun _ _ => rfl
  exact ⟨by decide, hexact.2.2 0⟩

end NetSentry.AlertManager
