import NetSentry.Alert.Equiv.AlertManager
import NetSentry.Lib.KeyedFold

/-!
# What the firings of an alert depend on

The cooldown policy keeps one time for each name.  `alerts_independent`: in which passes the alerts
of a name fire depends on what the checks of these alerts find and on nothing else; in particular an
alert that shares its name with no other fires as if it were alone.  What a check finds is whether
its condition holds, and the readings of the clock that it takes: none, one or two.

* `Check.Follows`: what a check does, given when the last alert of its name fired.
* `followsAll_checkFrom`, `followsPasses_checks`: the checks of a name follow each other.
* `FollowsPasses.fired_eq`: two such runs in lockstep, in which the checks find the same.
-/

namespace NetSentry.AlertManager

variable {κ : Type*} {clock : ℕ → ℤ} {pass : Pass}

/-! ### Two checks -/

/-- The readings of the clock that a check takes, in their order. -/
def Check.readings (check : Check κ) : List ℤ := check.reading.toList ++ check.fired.toList

/-- Two checks find the same: the conditions agree, and so do the readings that both of them
take. -/
def Check.Alike (check check' : Check κ) : Prop :=
  check.holds = check'.holds ∧ ∀ p ∈ check.readings.zip check'.readings, p.1 = p.2

instance (check check' : Check κ) : Decidable (check.Alike check') :=
  inferInstanceAs (Decidable (_ ∧ _))

/-- What a check does about an alert, given when the last alert of its name fired. -/
inductive Check.Follows (check : Check κ) : Option ℤ → Prop
  | quiet (last : Option ℤ) (holds : check.holds = false) (reading : check.reading = none)
      (fired : check.fired = none) : check.Follows last
  | first (time : ℤ) (holds : check.holds = true) (reading : check.reading = none)
      (fired : check.fired = some time) : check.Follows none
  | suppressed (last now : ℤ) (holds : check.holds = true) (reading : check.reading = some now)
      (early : now - last < cooldown) (fired : check.fired = none) : check.Follows (some last)
  | again (last now time : ℤ) (holds : check.holds = true) (reading : check.reading = some now)
      (late : ¬ now - last < cooldown) (fired : check.fired = some time) :
      check.Follows (some last)

/-- Two checks that find the same after the same firing have the same outcome. -/
theorem Check.Follows.fired_eq {check check' : Check κ} {last : Option ℤ}
    (h : check.Follows last) (h' : check'.Follows last) (halike : check.Alike check') :
    check.fired = check'.fired := by
  obtain ⟨hholds, hreadings⟩ := halike
  unfold Check.readings at hreadings
  cases h with
  | quiet last holds reading fired =>
    cases h' with
    | quiet _ _ _ fired' => rw [fired, fired']
    | first _ holds' _ _ | suppressed _ _ holds' _ _ _ | again _ _ _ holds' _ _ _ =>
      exact absurd (holds.symm.trans (hholds.trans holds')) Bool.false_ne_true
  | first time holds reading fired =>
    cases h' with
    | quiet _ holds' _ _ =>
      exact absurd (holds'.symm.trans (hholds.symm.trans holds)) Bool.false_ne_true
    | first time' _ reading' fired' =>
      rw [reading, reading', fired, fired'] at hreadings
      rw [fired, fired']
      exact congrArg some (hreadings (time, time') List.mem_cons_self)
  | suppressed last now holds reading early fired =>
    cases h' with
    | quiet _ holds' _ _ =>
      exact absurd (holds'.symm.trans (hholds.symm.trans holds)) Bool.false_ne_true
    | suppressed _ _ _ _ _ fired' => rw [fired, fired']
    | again _ now' _ _ reading' late _ =>
      -- the first readings agree, and one of them is early
      rw [reading, reading'] at hreadings
      obtain rfl : now = now' := hreadings (now, now') List.mem_cons_self
      exact absurd early late
  | again last now time holds reading late fired =>
    cases h' with
    | quiet _ holds' _ _ =>
      exact absurd (holds'.symm.trans (hholds.symm.trans holds)) Bool.false_ne_true
    | suppressed _ now' _ reading' early _ =>
      rw [reading, reading'] at hreadings
      obtain rfl : now = now' := hreadings (now, now') List.mem_cons_self
      exact absurd early late
    | again _ now' time' _ reading' _ fired' =>
      rw [reading, reading', fired, fired'] at hreadings
      rw [fired, fired']
      exact congrArg some (hreadings (time, time') (List.mem_cons_of_mem _ List.mem_cons_self))

/-! ### The checks of a name, one after the other -/

/-- When the last alert of a name has fired after some checks. -/
def lastAfter (last : Option ℤ) (fired : List (Option ℤ)) : Option ℤ :=
  fired.foldl (fun last time => time.or last) last

/-- Each check follows the ones before it. -/
def FollowsAll : Option ℤ → List (Check κ) → Prop
  | _, [] => True
  | last, check :: checks => check.Follows last ∧ FollowsAll (check.fired.or last) checks

/-- The checks of each pass follow the ones before them. -/
def FollowsPasses : Option ℤ → List (List (Check κ)) → Prop
  | _, [] => True
  | last, checks :: passes =>
    FollowsAll last checks ∧ FollowsPasses (lastAfter last (checks.map Check.fired)) passes

theorem FollowsAll.fired_eq {last : Option ℤ} {checks checks' : List (Check κ)}
    (h : FollowsAll last checks) (h' : FollowsAll last checks')
    (halike : List.Forall₂ Check.Alike checks checks') :
    checks.map Check.fired = checks'.map Check.fired := by
  induction halike generalizing last with
  | nil => rfl
  | cons hhead _ ih =>
    have hfired := h.1.fired_eq h'.1 hhead
    rw [List.map_cons, List.map_cons, ih h.2 (hfired ▸ h'.2), hfired]

/-- **Two runs in lockstep**: when the checks find the same, they have the same outcomes. -/
theorem FollowsPasses.fired_eq {last : Option ℤ} {passes passes' : List (List (Check κ))}
    (h : FollowsPasses last passes) (h' : FollowsPasses last passes')
    (halike : List.Forall₂ (List.Forall₂ Check.Alike) passes passes') :
    passes.map (List.map Check.fired) = passes'.map (List.map Check.fired) := by
  induction halike generalizing last with
  | nil => rfl
  | cons hhead _ ih =>
    have hfired := h.1.fired_eq h'.1 hhead
    rw [List.map_cons, List.map_cons, ih h.2 (hfired ▸ h'.2), hfired]

/-! ### Alerts in a run -/

/-- What a pass did about the alerts that are selected by their index and themselves, given what it
did about each alert. -/
def checksOf (select : ℕ → Alert → Bool) (alerts : List Alert) (checks : List (Check κ)) :
    List (Check κ) :=
  ((alerts.zip checks).filter fun p => select p.2.index p.1).map Prod.snd

/-- The passes of a run, each with the manager it begins with. -/
def passes (clock : ℕ → ℤ) : AlertManager κ → List (Call κ) → List (Pass × AlertManager κ)
  | _, [] => []
  | m, .checkAlerts pass :: calls =>
    (pass, m) :: passes clock (call clock m (.checkAlerts pass)).2 calls
  | m, c :: calls => passes clock (call clock m c).2 calls

/-- The checks of the selected alerts in a run from a manager on, pass after pass. -/
def checksFrom (clock : ℕ → ℤ) (select : ℕ → Alert → Bool) (m : AlertManager κ)
    (calls : List (Call κ)) : List (List (Check κ)) :=
  (passes clock m calls).map fun p =>
    checksOf select p.2.alerts (p.2.checkAlerts clock p.1).1

/-- The checks of the selected alerts in a run, pass after pass. -/
def checks (clock : ℕ → ℤ) (select : ℕ → Alert → Bool) (calls : List (Call κ)) :
    List (List (Check κ)) :=
  checksFrom clock select create calls

/-- When the selected alerts fired in the passes of a run. -/
def outcomes (clock : ℕ → ℤ) (select : ℕ → Alert → Bool) (calls : List (Call κ)) :
    List (List (Option ℤ)) :=
  (checks clock select calls).map (List.map Check.fired)

/-- The alerts of a name. -/
def named (name : Bytes) : ℕ → Alert → Bool := fun _ alert => alert.name = name

/-- The alert with an index. -/
def indexed (k : ℕ) : ℕ → Alert → Bool := fun i _ => i = k

/-! ### One check and one pass -/

theorem checksOf_cons (select : ℕ → Alert → Bool) (alert : Alert) (alerts : List Alert)
    (check : Check κ) (checks : List (Check κ)) :
    checksOf select (alert :: alerts) (check :: checks)
      = if select check.index alert then check :: checksOf select alerts checks
        else checksOf select alerts checks := by
  rw [checksOf, List.zip_cons_cons, List.filter_cons]
  split_ifs <;> rfl

/-- Without callbacks, a manager of the constructor's cooldown. -/
structure Plain (m : AlertManager κ) : Prop where
  callbacks : m.callbacks = []
  duration : m.cooldownPolicy.cooldownDuration = cooldown

/-- **One check** follows the last firing of its name, and leaves the other names alone. -/
theorem checkAlert_follows (clock : ℕ → ℤ) (pass : Pass) {m : AlertManager κ} (hplain : Plain m)
    (i : ℕ) (alert : Alert) :
    ∃ check m', checkAlert clock pass m i alert = (check, m', true) ∧ Plain m' ∧
      m'.alerts = m.alerts ∧ check.index = i ∧
      check.Follows (m.cooldownPolicy.lastFired.lookup alert.name) ∧
      ∀ name, m'.cooldownPolicy.lastFired.lookup name
        = if alert.name = name then check.fired.or (m.cooldownPolicy.lastFired.lookup name)
          else m.cooldownPolicy.lastFired.lookup name := by
  obtain ⟨hcallbacks, hduration⟩ := hplain
  have hrecord := KeyedFold.lookup_insert_eq_ite m.cooldownPolicy.lastFired alert.name
  unfold checkAlert CooldownPolicy.shouldSuppressAlert CooldownPolicy.recordAlertFired
  rw [hcallbacks]
  by_cases hholds : pass.holds i = true
  · rw [if_pos hholds]
    cases hlookup : m.cooldownPolicy.lastFired.lookup alert.name with
    | none =>
      exact ⟨_, _, rfl, ⟨rfl, hduration⟩, rfl, rfl, .first _ rfl rfl rfl, hrecord _⟩
    | some last =>
      dsimp only
      by_cases hearly : clock m.reads - last < cooldown
      · rw [hduration, if_pos (decide_eq_true hearly)]
        exact ⟨_, _, rfl, ⟨rfl, hduration⟩, rfl, rfl, .suppressed last _ rfl rfl hearly rfl,
          fun name => (ite_self _).symm⟩
      · rw [hduration, if_neg (by rwa [decide_eq_true_iff])]
        exact ⟨_, _, rfl, ⟨rfl, rfl⟩, rfl, rfl, .again last _ _ rfl rfl hearly rfl, hrecord _⟩
  · rw [if_neg hholds]
    exact ⟨_, _, rfl, ⟨hcallbacks, hduration⟩, rfl, rfl, .quiet _ rfl rfl rfl,
      fun name => (ite_self _).symm⟩

/-- **A pass**: the checks of a name follow each other. -/
theorem followsAll_checkFrom (clock : ℕ → ℤ) (pass : Pass) {m : AlertManager κ}
    (hplain : Plain m) (name : Bytes) (i : ℕ) (alerts : List Alert) :
    let result := checkFrom clock pass m i alerts
    let last := m.cooldownPolicy.lastFired.lookup name
    let checks := checksOf (named name) alerts result.1
    Plain result.2 ∧ result.2.alerts = m.alerts ∧ FollowsAll last checks ∧
      result.2.cooldownPolicy.lastFired.lookup name
        = lastAfter last (checks.map Check.fired) := by
  induction alerts generalizing m i with
  | nil => exact ⟨hplain, rfl, trivial, rfl⟩
  | cons alert alerts ih =>
    obtain ⟨check, m', hcheck, hplain', halerts, hindex, hfollows, hlast⟩ :=
      checkAlert_follows clock pass hplain i alert
    obtain ⟨hrest, halertsRest, hfollowsRest, hlastRest⟩ := ih hplain' (i + 1)
    rw [hlast name] at hfollowsRest hlastRest
    dsimp only
    rw [checkFrom_cons_of_returns hcheck, checksOf_cons, hindex]
    refine ⟨hrest, halertsRest.trans halerts, ?_⟩
    by_cases hname : alert.name = name
    · have hselect : named name i alert = true := decide_eq_true hname
      rw [if_pos hname] at hfollowsRest hlastRest
      rw [if_pos hselect]
      exact ⟨⟨hname ▸ hfollows, hfollowsRest⟩, hlastRest⟩
    · have hselect : ¬ named name i alert = true := by simpa [named] using hname
      rw [if_neg hname] at hfollowsRest hlastRest
      rw [if_neg hselect]
      exact ⟨hfollowsRest, hlastRest⟩

/-! ### Runs -/

theorem plain_of_isEmpty [IsEmpty κ] {m : AlertManager κ}
    (hduration : m.cooldownPolicy.cooldownDuration = cooldown) : Plain m :=
  ⟨List.eq_nil_of_length_eq_zero (by
    cases hcallbacks : m.callbacks with
    | nil => rfl
    | cons callback _ => exact isEmptyElim callback), hduration⟩

/-- **A run**: the checks of a name follow each other from pass to pass. -/
theorem followsPasses_checks [IsEmpty κ] {m : AlertManager κ} (hplain : Plain m) (name : Bytes)
    (calls : List (Call κ)) :
    FollowsPasses (m.cooldownPolicy.lastFired.lookup name)
      (checksFrom clock (named name) m calls) := by
  induction calls generalizing m with
  | nil => trivial
  | cons c calls ih =>
    cases c with
    | createAlert alert =>
      have hcreated : (m.createAlert alert).Plain := plain_of_isEmpty hplain.duration
      exact ih hcreated
    | registerCallback callback => exact isEmptyElim callback
    | checkAlerts pass =>
      obtain ⟨hplain', -, hfollows, hlast⟩ :=
        followsAll_checkFrom clock pass hplain name 0 m.alerts
      have hrest := ih hplain'
      rw [hlast] at hrest
      exact ⟨hfollows, hrest⟩

/-- The alerts of a name have the same outcomes in two runs whose checks find the same. -/
theorem outcomes_named_eq [IsEmpty κ] {clock clock' : ℕ → ℤ} {calls calls' : List (Call κ)}
    {name name' : Bytes}
    (h : List.Forall₂ (List.Forall₂ Check.Alike) (checks clock (named name) calls)
      (checks clock' (named name') calls')) :
    outcomes clock (named name) calls = outcomes clock' (named name') calls' := by
  have hcreate : Plain (create : AlertManager κ) := ⟨rfl, rfl⟩
  exact (followsPasses_checks hcreate name calls).fired_eq
    (followsPasses_checks hcreate name' calls') h

/-! ### Alerts with a name of their own -/

/-- What a pass did about the selected alerts depends on how its own alerts are selected. -/
theorem checksOf_congr {select select' : ℕ → Alert → Bool} {alerts : List Alert} {i : ℕ}
    {m : AlertManager κ} (hplain : Plain m)
    (h : ∀ j alert, alerts[j]? = some alert → select (i + j) alert = select' (i + j) alert) :
    checksOf select alerts (checkFrom clock pass m i alerts).1
      = checksOf select' alerts (checkFrom clock pass m i alerts).1 := by
  induction alerts generalizing m i with
  | nil => rfl
  | cons alert alerts ih =>
    obtain ⟨check, m', hcheck, hplain', -, hindex, -, -⟩ :=
      checkAlert_follows clock pass hplain i alert
    have hhead : select i alert = select' i alert := h 0 alert rfl
    have hrest : ∀ j other, alerts[j]? = some other →
        select (i + 1 + j) other = select' (i + 1 + j) other := by
      intro j other hother
      rw [show i + 1 + j = i + (j + 1) by omega]
      exact h (j + 1) other hother
    rw [checkFrom_cons_of_returns hcheck, checksOf_cons, checksOf_cons, hindex, hhead,
      ih hplain' hrest]

/-- The alerts of a pass are the first ones that the run creates. -/
theorem alerts_prefix_of_mem_passes [IsEmpty κ] {m : AlertManager κ} (hplain : Plain m)
    {calls : List (Call κ)} {p : Pass × AlertManager κ} (h : p ∈ passes clock m calls) :
    Plain p.2 ∧ p.2.alerts <+: m.alerts ++ created calls := by
  induction calls generalizing m with
  | nil => exact absurd h List.not_mem_nil
  | cons c calls ih =>
    cases c with
    | createAlert alert =>
      have hcreated : (m.createAlert alert).Plain := plain_of_isEmpty hplain.duration
      obtain ⟨hplain', hprefix⟩ := ih hcreated h
      rw [show (m.createAlert alert).alerts = m.alerts ++ [alert] from rfl, List.append_assoc]
        at hprefix
      exact ⟨hplain', hprefix⟩
    | registerCallback callback => exact isEmptyElim callback
    | checkAlerts pass =>
      rcases List.mem_cons.mp h with rfl | h
      · exact ⟨hplain, List.prefix_append _ _⟩
      · obtain ⟨hplain', halerts, -, -⟩ :=
          followsAll_checkFrom clock pass hplain [] 0 m.alerts
        have hrest := ih hplain' h
        rwa [halerts] at hrest

/-- The alert with index `k` has a name that no other alert of the run has. -/
def HasOwnName (calls : List (Call κ)) (k : ℕ) (name : Bytes) : Prop :=
  ∀ i alert, (created calls)[i]? = some alert → (alert.name = name ↔ i = k)

/-- An alert with a name of its own is the alert of its name. -/
theorem checks_named_eq_indexed [IsEmpty κ] {calls : List (Call κ)} {k : ℕ} {name : Bytes}
    (h : HasOwnName calls k name) (clock : ℕ → ℤ) :
    checks clock (named name) calls = checks clock (indexed k) calls := by
  refine List.map_congr_left fun p hp => ?_
  obtain ⟨hplain, rest, hrest⟩ := alerts_prefix_of_mem_passes ⟨rfl, rfl⟩ hp
  refine checksOf_congr hplain fun j alert hj => ?_
  have hcreated : (created calls)[j]? = some alert := by
    rw [← List.nil_append (created calls)]
    exact hrest ▸ (List.getElem?_append_left (List.getElem?_eq_some_iff.mp hj).1).trans hj
  rw [Nat.zero_add]
  exact decide_eq_decide.mpr (h j alert hcreated)

/-- **Alerts of different names do not suppress each other**: in two runs whose checks of the alerts
of a name find the same, these alerts fire in the same passes, whatever other alerts there are; and
so does an alert that has its name to itself. -/
theorem alerts_independent (clock clock' : ℕ → ℤ) (calls calls' : List (Call Empty)) :
    (∀ name,
      List.Forall₂ (List.Forall₂ Check.Alike) (checks clock (named name) calls)
        (checks clock' (named name) calls') →
      outcomes clock (named name) calls = outcomes clock' (named name) calls') ∧
    ∀ k k' name name', HasOwnName calls k name → HasOwnName calls' k' name' →
      List.Forall₂ (List.Forall₂ Check.Alike) (checks clock (indexed k) calls)
        (checks clock' (indexed k') calls') →
      outcomes clock (indexed k) calls = outcomes clock' (indexed k') calls' := by
  refine ⟨fun name h => outcomes_named_eq h, fun k k' name name' hown hown' h => ?_⟩
  have hchecks := checks_named_eq_indexed hown clock
  have hchecks' := checks_named_eq_indexed hown' clock'
  rw [← hchecks, ← hchecks'] at h
  rw [outcomes, outcomes, ← hchecks, ← hchecks']
  exact outcomes_named_eq h

/-- Three passes over an alert "cpu". -/
def cpuAlone : List (Call Empty) :=
  [.createAlert ⟨Bytes.ascii "cpu", .critical⟩, .checkAlerts allHold, .checkAlerts allHold,
    .checkAlerts allHold]

/-- The same passes, with an alert "memory" before it. -/
def cpuAfterMemory : List (Call Empty) := .createAlert ⟨Bytes.ascii "memory", .warning⟩ :: cpuAlone

/-- The readings when both alerts are checked: those of "cpu" are the second, the fourth and the
last two. -/
def sharedClock (n : ℕ) : ℤ := [0, 0, 30, 30, 60, 60, 60, 90].getD n 90 * 10 ^ 9

theorem alerts_independent_cpu :
    outcomes halfMinutes (named (Bytes.ascii "cpu")) cpuAlone
        = outcomes sharedClock (named (Bytes.ascii "cpu")) cpuAfterMemory ∧
      outcomes halfMinutes (indexed 0) cpuAlone = outcomes sharedClock (indexed 1) cpuAfterMemory ∧
      outcomes halfMinutes (indexed 0) cpuAlone = [[some 0], [none], [some (90 * 10 ^ 9)]] := by
  have hcpu := alerts_independent halfMinutes sharedClock cpuAlone cpuAfterMemory
  have hown : HasOwnName cpuAlone 0 (Bytes.ascii "cpu") := by
    rintro (_ | i) alert ⟨⟩
    decide
  have hown' : HasOwnName cpuAfterMemory 1 (Bytes.ascii "cpu") := by
    rintro (_ | _ | i) alert ⟨⟩ <;> decide
  exact ⟨hcpu.1 _ (by decide), hcpu.2 0 1 _ _ hown hown' (by decide), by decide⟩

/-- An alert "cpu" in a pass after another alert, whose name is also "cpu" or is "memory". -/
def afterOther (other : Bytes) : List (Call Empty) :=
  [.createAlert ⟨other, .warning⟩, .createAlert ⟨Bytes.ascii "cpu", .critical⟩,
    .checkAlerts allHold]

/-- The alert fires after the one of another name, and is suppressed by the one of its own name. -/
theorem sameName_not_independent :
    ¬ ∀ (clock clock' : ℕ → ℤ) (calls calls' : List (Call Empty)) (k k' : ℕ),
      (created calls)[k]? = (created calls')[k']? →
      List.Forall₂ (List.Forall₂ Check.Alike) (checks clock (indexed k) calls)
        (checks clock' (indexed k') calls') →
      outcomes clock (indexed k) calls = outcomes clock' (indexed k') calls' := by
  intro h
  have hsame := h halfMinutes halfMinutes (afterOther (Bytes.ascii "cpu"))
    (afterOther (Bytes.ascii "memory")) 1 1 (by decide) (by decide)
  exact absurd hsame (by decide)

end NetSentry.AlertManager
