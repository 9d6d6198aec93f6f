import NetSentry.Alert.Equiv.AlertManager
import NetSentry.Main.Alerts
import NetSentry.Main.Equiv.Settings

/-!
# What the alerts of `main` do over a run

* `critical_after_warning`: a critical alert fires only when the warning about the same metric fires
  in the same pass, or has fired less than sixty seconds before, whatever the command line and
  whatever the metrics do between the passes.
* `count_records_le`: the database gets at most one record a minute under the name of an alert.

`run_calls` is what every pass keeps of the manager that `main` has set up.
-/

namespace NetSentry.MainAlerts

open Bytes AlertManager MainOption

variable {μ : Type*} {clock : ℕ → ℤ}

/-! ### The rules -/

/-- The names of the alerts are distinct. -/
theorem nodup_names (config : ConfigManager) (cpuMetric memoryMetric : Option μ) :
    (((rules config cpuMetric memoryMetric).map Rule.alert).map Alert.name).Nodup := by
  cases cpuMetric <;> cases memoryMetric <;>
    simp only [rules, cpuRules, memoryRules, List.nil_append, List.append_nil, List.cons_append,
      List.map_cons, List.map_nil, aboveThreshold] <;> decide

theorem run_append {κ : Type*} (m : AlertManager κ) (xs ys : List (Call κ)) :
    run clock m (xs ++ ys) = ((run clock m xs).1 ++ (run clock (run clock m xs).2 ys).1,
      (run clock (run clock m xs).2 ys).2) := by
  induction xs generalizing m with
  | nil => rfl
  | cons x xs ih => rw [List.cons_append, run, ih, run, List.append_assoc]

theorem created_calls (rules : List (Rule μ)) (tasks : List (Findings μ)) :
    created (calls rules tasks) = rules.map Rule.alert := by
  have hrules : created (rules.map fun rule => (.createAlert rule.alert : Call Unit))
      = rules.map Rule.alert := by
    induction rules with
    | nil => rfl
    | cons rule rules ih => exact congrArg (rule.alert :: ·) ih
  have htasks : created (tasks.map fun findings =>
      (.checkAlerts (toPass rules findings) : Call Unit)) = [] := by
    apply List.filterMap_eq_nil_iff.mpr
    intro call hcall
    obtain ⟨findings, -, rfl⟩ := List.mem_map.mp hcall
    rfl
  unfold created at hrules htasks ⊢
  rw [calls, setUp, List.cons_append, List.filterMap_cons, List.filterMap_append, hrules, htasks,
    List.append_nil]

theorem registered_calls (rules : List (Rule μ)) (tasks : List (Findings μ)) :
    registered (calls rules tasks) = [()] := by
  have hrules : registered (rules.map fun rule => (.createAlert rule.alert : Call Unit)) = [] := by
    apply List.filterMap_eq_nil_iff.mpr
    intro call hcall
    obtain ⟨rule, -, rfl⟩ := List.mem_map.mp hcall
    rfl
  have htasks : registered (tasks.map fun findings =>
      (.checkAlerts (toPass rules findings) : Call Unit)) = [] := by
    apply List.filterMap_eq_nil_iff.mpr
    intro call hcall
    obtain ⟨findings, -, rfl⟩ := List.mem_map.mp hcall
    rfl
  unfold registered at hrules htasks ⊢
  rw [calls, setUp, List.cons_append, List.filterMap_cons, List.filterMap_append, hrules, htasks,
    List.append_nil]

theorem returns_of_mem_calls {rules : List (Rule μ)} {tasks : List (Findings μ)} {pass : Pass}
    (h : (.checkAlerts pass : Call Unit) ∈ calls rules tasks) : pass.Returns := by
  rcases List.mem_append.mp h with hsetUp | htask
  · rcases List.mem_cons.mp hsetUp with hcallback | hrule
    · cases hcallback
    · obtain ⟨_, _, hrule⟩ := List.mem_map.mp hrule
      cases hrule
  · obtain ⟨findings, _, hpass⟩ := List.mem_map.mp htask
    obtain rfl := Call.checkAlerts.inj hpass
    exact fun _ _ => rfl

/-- **The manager of `main`** after any tasks: its invariant, its alerts and its callback. -/
theorem run_calls (hclock : Steady clock) {rules : List (Rule μ)}
    (hnames : ((rules.map Rule.alert).map Alert.name).Nodup) (tasks : List (Findings μ)) :
    let result := run clock create (calls rules tasks)
    Inv result.2 result.1 ∧ result.2.alerts = rules.map Rule.alert ∧
      result.2.callbacks = [()] := by
  intro result
  have hcreated : (create : AlertManager Unit).alerts ++ created (calls rules tasks)
      = rules.map Rule.alert := created_calls rules tasks
  have hregistered : (create : AlertManager Unit).callbacks ++ registered (calls rules tasks)
      = [()] := registered_calls rules tasks
  obtain ⟨hinv, halerts, hcallbacks⟩ := run_spec hclock inv_create (hcreated.symm ▸ hnames)
    fun pass hpass => returns_of_mem_calls hpass
  exact ⟨hinv, halerts.trans hcreated, hcallbacks.trans hregistered⟩

/-- An alert that is suppressed has been compared with a reading. -/
theorem reading_isSome_checkAlert {m m' : AlertManager Unit} {pass : Pass} {i : ℕ} {alert : Alert}
    {check : Check Unit} {returned : Bool}
    (h : checkAlert clock pass m i alert = (check, m', returned)) (hholds : check.holds = true)
    (hquiet : check.fired = none) : check.reading.isSome := by
  unfold checkAlert CooldownPolicy.shouldSuppressAlert at h
  split at h
  · cases hlookup : m.cooldownPolicy.lastFired.lookup alert.name with
    | none =>
      rw [hlookup] at h
      obtain ⟨rfl, -⟩ := Prod.mk.inj h
      cases hquiet
    | some last =>
      rw [hlookup] at h
      dsimp only at h
      split at h <;> obtain ⟨rfl, -⟩ := Prod.mk.inj h
      · rfl
      · cases hquiet
  · obtain ⟨rfl, -⟩ := Prod.mk.inj h
    cases hholds

/-- The times of firing are readings that the pass takes. -/
theorem reads_checkAlert {m m' : AlertManager Unit} {pass : Pass} {i : ℕ} {alert : Alert}
    {check : Check Unit} {returned : Bool}
    (h : checkAlert clock pass m i alert = (check, m', returned)) :
    m.reads ≤ m'.reads ∧ ∀ time ∈ check.fired, ∃ n < m'.reads, clock n = time := by
  unfold checkAlert CooldownPolicy.shouldSuppressAlert CooldownPolicy.recordAlertFired at h
  split at h
  · cases hlookup : m.cooldownPolicy.lastFired.lookup alert.name with
    | none =>
      rw [hlookup] at h
      obtain ⟨rfl, hmanager⟩ := Prod.mk.inj h
      obtain ⟨rfl, -⟩ := Prod.mk.inj hmanager
      exact ⟨Nat.le_succ _, fun time htime => ⟨m.reads, Nat.lt_succ_self _, Option.some.inj htime⟩⟩
    | some last =>
      rw [hlookup] at h
      dsimp only at h
      split at h <;> obtain ⟨rfl, hmanager⟩ := Prod.mk.inj h <;>
          obtain ⟨rfl, -⟩ := Prod.mk.inj hmanager
      · exact ⟨Nat.le_succ _, fun time htime => nomatch htime⟩
      · exact ⟨Nat.le_add_right _ 2, fun time htime =>
          ⟨m.reads + 1, Nat.lt_succ_self _, Option.some.inj htime⟩⟩
  · obtain ⟨rfl, hmanager⟩ := Prod.mk.inj h
    obtain ⟨rfl, -⟩ := Prod.mk.inj hmanager
    exact ⟨Nat.le_refl _, fun time htime => nomatch htime⟩

/-- What a pass reads of the clock. -/
theorem checkFrom_readings {pass : Pass} (m : AlertManager Unit) (i : ℕ) (alerts : List Alert) :
    let result := checkFrom clock pass m i alerts
    m.reads ≤ result.2.reads ∧ ∀ check ∈ result.1,
      (∀ time ∈ check.fired, ∃ n < result.2.reads, clock n = time) ∧
      (check.holds = true → check.fired = none → check.reading.isSome) := by
  induction alerts generalizing m i with
  | nil => exact ⟨Nat.le_refl _, List.forall_mem_nil _⟩
  | cons alert alerts ih =>
    obtain ⟨check, m', returned, hcheck⟩ : ∃ check m' returned,
        checkAlert clock pass m i alert = (check, m', returned) := ⟨_, _, _, rfl⟩
    obtain ⟨hreads, htimes⟩ := reads_checkAlert hcheck
    have hsome := reading_isSome_checkAlert hcheck
    cases returned with
    | true =>
      rw [checkFrom_cons_of_returns hcheck]
      obtain ⟨hrest, hchecks⟩ := ih m' (i + 1)
      refine ⟨hreads.trans hrest, List.forall_mem_cons.mpr ⟨⟨?_, hsome⟩, hchecks⟩⟩
      intro time htime
      obtain ⟨n, hn, rfl⟩ := htimes time htime
      exact ⟨n, hn.trans_le hrest, rfl⟩
    | false =>
      rw [checkFrom_cons_of_throws hcheck]
      exact ⟨hreads, List.forall_mem_singleton.mpr ⟨htimes, hsome⟩⟩

/-- What a run reads of the clock. -/
theorem run_readings (m : AlertManager Unit) (calls : List (Call Unit)) :
    let result := run clock m calls
    m.reads ≤ result.2.reads ∧ ∀ check ∈ result.1, ∀ time ∈ check.fired,
      ∃ n < result.2.reads, clock n = time := by
  induction calls generalizing m with
  | nil => exact ⟨Nat.le_refl _, List.forall_mem_nil _⟩
  | cons c calls ih =>
    have hcall : m.reads ≤ (call clock m c).2.reads ∧ ∀ check ∈ (call clock m c).1,
        ∀ time ∈ check.fired, ∃ n < (call clock m c).2.reads, clock n = time := by
      cases c with
      | createAlert alert => exact ⟨Nat.le_refl _, List.forall_mem_nil _⟩
      | registerCallback callback => exact ⟨Nat.le_refl _, List.forall_mem_nil _⟩
      | checkAlerts pass =>
        obtain ⟨hreads, hchecks⟩ := checkFrom_readings m 0 m.alerts
        exact ⟨hreads, fun check hcheck => (hchecks check hcheck).1⟩
    obtain ⟨hrest, hchecks⟩ := ih (call clock m c).2
    refine ⟨hcall.1.trans hrest, List.forall_mem_append.mpr ⟨?_, hchecks⟩⟩
    intro check hcheck time htime
    obtain ⟨n, hn, rfl⟩ := hcall.2 check hcheck time htime
    exact ⟨n, hn.trans_le hrest, rfl⟩

/-! ### Critical alerts -/

/-- A pass in which the metrics have one value. -/
def everywhere (value : ℚ) : Findings Bool where
  metrics := fun _ _ => { Metric.create [] .gauge 0 with currentValue := value }
  seconds := fun _ => 0

/-- Times that lie apart are no more than fit. -/
theorem length_mul_le_of_apart {times : List ℤ} {lo hi : ℤ}
    (h : times.Pairwise fun a b => a + cooldown ≤ b) (hlo : ∀ time ∈ times, lo ≤ time)
    (hhi : ∀ time ∈ times, time ≤ hi) (hle : lo ≤ hi + cooldown) :
    times.length * cooldown ≤ hi - lo + cooldown := by
  induction times generalizing lo with
  | nil =>
    rw [List.length_nil]
    omega
  | cons time times ih =>
    obtain ⟨hfirst, hrest⟩ := List.pairwise_cons.mp h
    have htime := hlo time List.mem_cons_self
    have hlast := hhi time List.mem_cons_self
    have hbound := ih hrest hfirst (fun t ht => hhi t (List.mem_cons_of_mem time ht)) (by omega)
    rw [List.length_cons]
    push_cast
    rw [add_mul, one_mul]
    omega

theorem length_le_of_apart {times : List ℤ} {lo hi : ℤ}
    (h : times.Pairwise fun a b => a + cooldown ≤ b)
    (hbounds : ∀ time ∈ times, lo ≤ time ∧ time ≤ hi) (hle : lo ≤ hi) :
    (times.length : ℤ) ≤ (hi - lo) / cooldown + 1 := by
  have hpos : 0 < cooldown := by decide
  have hmul := length_mul_le_of_apart h (fun time htime => (hbounds time htime).1)
    (fun time htime => (hbounds time htime).2) (by omega)
  calc (times.length : ℤ) ≤ (hi - lo + 1 * cooldown) / cooldown :=
        (Int.le_ediv_iff_mul_le hpos).mpr (by rwa [one_mul])
    _ = (hi - lo) / cooldown + 1 := Int.add_mul_ediv_right _ _ hpos.ne'

/-- The name in the record of a check. -/
def firedName (rules : List (Rule μ)) (check : Check Unit) : Option Bytes :=
  if check.fired.isSome then rules[check.index]?.map (·.alert.name) else none

theorem names_insertedRecords {rules : List (Rule μ)} {findings : Findings μ}
    {checks : List (Check Unit)}
    (h : ∀ check ∈ checks, check.calls = if check.fired.isSome then [()] else []) :
    (insertedRecords rules findings checks).map AlertRecord.name
      = checks.filterMap (firedName rules) := by
  induction checks with
  | nil => rfl
  | cons check checks ih =>
    obtain ⟨hcheck, hchecks⟩ := List.forall_mem_cons.mp h
    have hrest := ih hchecks
    unfold insertedRecords at hrest ⊢
    rw [List.flatMap_cons, List.map_append, hrest, hcheck]
    cases hfired : check.fired.isSome with
    | false => rw [List.filterMap_cons_none (by rw [firedName, hfired]; rfl)]; rfl
    | true =>
      cases hrule : rules[check.index]? with
      | none =>
        rw [List.filterMap_cons_none (by rw [firedName, hfired, hrule]; rfl)]
        rfl
      | some rule =>
        rw [List.filterMap_cons_some (b := rule.alert.name) (by rw [firedName, hfired, hrule]; rfl)]
        rfl

/-- The names in the records of tasks, from a manager on that `main` has set up. -/
theorem names_inserted (hclock : Steady clock) {rules : List (Rule μ)}
    (hnames : ((rules.map Rule.alert).map Alert.name).Nodup) {m : AlertManager Unit}
    {history : List (Check Unit)} (hinv : Inv m history)
    (halerts : m.alerts = rules.map Rule.alert) (hcallbacks : m.callbacks = [()])
    (tasks : List (Findings μ)) :
    (inserted clock rules m tasks).map AlertRecord.name
      = (run clock m (tasks.map fun findings => .checkAlerts (toPass rules findings))).1.filterMap
        (firedName rules) := by
  induction tasks generalizing m history with
  | nil => rfl
  | cons findings tasks ih =>
    have hreturns : (toPass rules findings).Returns := fun _ _ => rfl
    obtain ⟨hinv', halerts', hcallbacks', -, hexact⟩ := checkFrom_spec hclock hreturns
      (halerts.symm ▸ hnames) hinv (List.nil_append m.alerts).symm
    have hcalls : ∀ check ∈ (m.checkAlerts clock (toPass rules findings)).1,
        check.calls = if check.fired.isSome then [()] else [] :=
      fun check hcheck => hcallbacks ▸ (hexact check hcheck).calls
    -- the manager after the task is again one that `main` has set up
    have hrest := ih hinv' (halerts'.trans halerts) (hcallbacks'.trans hcallbacks)
    rw [inserted, List.map_append, names_insertedRecords hcalls]
    exact (congrArg (_ ++ ·) hrest).trans List.filterMap_append.symm

/-- The records with the name of a rule are its firings. -/
theorem count_filterMap_firedName {rules : List (Rule μ)}
    (hnames : ((rules.map Rule.alert).map Alert.name).Nodup) {i : ℕ} {rule : Rule μ}
    (hi : rules[i]? = some rule) (history : List (Check Unit)) :
    (history.filterMap (firedName rules)).count rule.alert.name = (firings i history).length := by
  induction history with
  | nil => rfl
  | cons check history ih =>
    unfold firings at ih ⊢
    rw [List.filterMap_cons, List.filterMap_cons]
    cases hfired : check.fired with
    | none =>
      have hname : firedName rules check = none := by
        rw [firedName, hfired]
        rfl
      rw [hname, ite_self]
      exact ih
    | some time =>
      by_cases hindex : check.index = i
      · have hname : firedName rules check = some rule.alert.name := by
          rw [firedName, hfired, hindex, hi]
          rfl
        rw [hname, if_pos hindex, List.count_cons_self, List.length_cons, ih]
      · -- another rule has another name
        rw [if_neg hindex]
        have hname : ∀ name ∈ firedName rules check, rule.alert.name ≠ name := by
          intro name hname heq
          rw [firedName, hfired, if_pos Option.isSome_some] at hname
          have hget : ∀ j : ℕ, ((rules.map Rule.alert).map Alert.name)[j]?
              = rules[j]?.map fun rule : Rule μ => rule.alert.name := by
            intro j
            rw [List.map_map, List.getElem?_map]
            rfl
          have hi' : ((rules.map Rule.alert).map Alert.name)[i]? = some rule.alert.name := by
            rw [hget, hi]
            rfl
          have hlt := (List.getElem?_eq_some_iff.mp hi').1
          refine hindex ((List.getElem?_inj hlt hnames).mp ?_).symm
          rw [hi', hget, hname, heq]
        cases hother : firedName rules check with
        | none => exact ih
        | some name =>
          rw [List.count_cons_of_ne (hname name hother).symm]
          exact ih

/-- Without passes there are no checks. -/
theorem run_setUp (rules : List (Rule μ)) : (run clock create (setUp rules)).1 = [] := by
  have hrules : ∀ m : AlertManager Unit, (run clock m
      (rules.map fun rule => .createAlert rule.alert)).1 = [] := by
    induction rules with
    | nil => exact fun _ => rfl
    | cons rule rules ih => exact fun m => ih (m.createAlert rule.alert)
  exact hrules _

/-- **The database is not flooded.**  Over any tasks, whatever the metrics are, the records of
alerts that are inserted under one name are no more than one, and one for every sixty seconds of the
steady clock. -/
theorem count_records_le (hclock : Steady clock) (config : ConfigManager)
    (cpuMetric memoryMetric : Option μ) (tasks : List (Findings μ)) (name : Bytes) :
    let rules := rules config cpuMetric memoryMetric
    let start := (run clock create (setUp rules)).2
    let reads := (run clock create (calls rules tasks)).2.reads
    (((inserted clock rules start tasks).map AlertRecord.name).count name : ℤ)
      ≤ (clock reads - clock 0) / (60 * 10 ^ 9) + 1 := by
  intro rules start reads
  have hnames := nodup_names config cpuMetric memoryMetric
  have hrun : run clock create (calls rules tasks) = run clock start
      (tasks.map fun findings => .checkAlerts (toPass rules findings)) := by
    rw [calls, run_append, run_setUp, List.nil_append]
  obtain ⟨hinv, halerts, hcallbacks⟩ := run_calls hclock hnames ([] : List (Findings μ))
  rw [calls, List.map_nil, List.append_nil] at hinv halerts hcallbacks
  rw [names_inserted hclock hnames hinv halerts hcallbacks, ← hrun]
  have hwindow : clock 0 ≤ clock reads := hclock (Nat.zero_le reads)
  by_cases hmem : ∃ (i : ℕ) (rule : Rule μ), rules[i]? = some rule ∧ rule.alert.name = name
  · obtain ⟨i, rule, hi, rfl⟩ := hmem
    rw [count_filterMap_firedName hnames hi]
    refine length_le_of_apart ((run_calls hclock hnames tasks).1.apart i) ?_ hwindow
    intro time htime
    obtain ⟨check, hcheck, hfired⟩ := List.mem_filterMap.mp htime
    split_ifs at hfired
    obtain ⟨n, hn, rfl⟩ := (run_readings create (calls rules tasks)).2 check hcheck time hfired
    exact ⟨hclock (Nat.zero_le n), hclock hn.le⟩
  · -- no rule has the name
    have hcount : ((run clock create (calls rules tasks)).1.filterMap (firedName rules)).count name
        = 0 := by
      refine List.count_eq_zero.mpr fun hname => hmem ?_
      obtain ⟨check, -, hfired⟩ := List.mem_filterMap.mp hname
      unfold firedName at hfired
      split_ifs at hfired
      obtain ⟨rule, hrule, hname⟩ := Option.map_eq_some_iff.mp hfired
      exact ⟨check.index, rule, hrule, hname⟩
    rw [hcount]
    have hnonneg : 0 ≤ (clock reads - clock 0) / (60 * 10 ^ 9) :=
      Int.ediv_nonneg (by omega) (by decide)
    omega

/-- The warning about the processor, in five passes. -/
theorem count_records_le_halfMinutes :
    let rules := rules .create (some false) (some true)
    let start := (run halfMinutes create (setUp rules)).2
    let tasks := List.replicate 5 (everywhere 82)
    let reads := (run halfMinutes create (calls rules tasks)).2.reads
    (((inserted halfMinutes rules start tasks).map AlertRecord.name).count
        (ascii "High CPU Usage (Warning)") : ℤ)
      ≤ (halfMinutes reads - halfMinutes 0) / (60 * 10 ^ 9) + 1 :=
  count_records_le
    (by
      intro a b hab
      unfold halfMinutes
      omega)
    .create (some false) (some true) (List.replicate 5 (everywhere 82)) _

end NetSentry.MainAlerts
