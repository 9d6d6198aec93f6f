import NetSentry.Alert.Equiv.AlertManager

/-!
# Callbacks that throw

`checkAlerts` records that an alert has fired before it calls the callbacks, and an exception of a
callback leaves both loops.  `isolated_iff`: in which passes every alert that is due still reaches
every callback that does not throw, and no alert is recorded as fired that some callback was not
called for.

* `notify_snd`, `length_notify_eq_iff`: which callbacks are called for one alert.
* `checkAlert_settle`: one alert of a pass.
-/

namespace NetSentry.AlertManager

variable {κ : Type*} {clock : ℕ → ℤ} {pass : Pass}

/-! ### Due alerts -/

/-- Whether an alert is due: its condition holds and it is not in cooldown.  Then the policy and the
number of readings once it has been checked. -/
def settle (clock : ℕ → ℤ) (c : CooldownPolicy) (reads : ℕ) (holds : Bool) (alert : Alert) :
    Bool × CooldownPolicy × ℕ :=
  if holds then
    let (suppressed, _, reads) := c.shouldSuppressAlert clock reads alert
    if suppressed then (false, c, reads)
    else
      let (_, c, reads) := c.recordAlertFired clock reads alert
      (true, c, reads)
  else (false, c, reads)

/-- The indices of the alerts that are due in a pass, as long as no callback throws. -/
def dueFrom (clock : ℕ → ℤ) (holds : ℕ → Bool) :
    CooldownPolicy → ℕ → ℕ → List Alert → List ℕ
  | _, _, _, [] => []
  | c, reads, i, alert :: alerts =>
    let (due, c, reads) := settle clock c reads (holds i) alert
    if due then i :: dueFrom clock holds c reads (i + 1) alerts
    else dueFrom clock holds c reads (i + 1) alerts

/-- The indices of the alerts that are due in a pass of a manager. -/
def due (clock : ℕ → ℤ) (pass : Pass) (m : AlertManager κ) : List ℕ :=
  dueFrom clock pass.holds m.cooldownPolicy m.reads 0 m.alerts

/-- The callback with index `j` is called for the alert with index `i`.  The callbacks are called in
their order, so that it is called when more than `j` are. -/
def Invoked (checks : List (Check κ)) (i j : ℕ) : Prop :=
  ∃ check ∈ checks, check.index = i ∧ j < check.calls.length

/-- Given the number of callbacks, the alerts that are due and what a pass did: each alert that is
due has reached every callback that does not throw for it, and of an alert that is recorded as fired
every callback has been called. -/
def IsolatedFrom (pass : Pass) (n : ℕ) (due : List ℕ) (checks : List (Check κ)) : Prop :=
  (∀ i ∈ due, ∀ j < n, pass.returns i j = true → Invoked checks i j) ∧
    ∀ check ∈ checks, check.fired.isSome = true → check.calls.length = n

/-- A throwing callback neither swallows a notification nor shadows another alert. -/
def Isolated (clock : ℕ → ℤ) (pass : Pass) (m : AlertManager κ) : Prop :=
  IsolatedFrom pass m.callbacks.length (due clock pass m) (m.checkAlerts clock pass).1

/-- On the first of some alerts on which a callback throws, only the last callback does, and on the
ones after it every callback throws. -/
def ThrowsLast (pass : Pass) (n : ℕ) : List ℕ → Prop
  | [] => True
  | i :: rest =>
    if ∀ j < n, pass.returns i j = true then ThrowsLast pass n rest
    else (∀ j, j + 1 < n → pass.returns i j = true) ∧
      ∀ i' ∈ rest, ∀ j < n, pass.returns i' j = false

/-! ### One alert -/

/-- All callbacks are called exactly when none but the last one throws. -/
theorem length_notify_eq_iff (returns : ℕ → Bool) (k : ℕ) (callbacks : List κ) :
    (notify returns k callbacks).1.length = callbacks.length
      ↔ ∀ j, j + 1 < callbacks.length → returns (k + j) = true := by
  induction callbacks generalizing k with
  | nil => simp [notify]
  | cons callback callbacks ih =>
    rw [notify]
    split_ifs with hreturns
    · rw [List.length_cons, List.length_cons, Nat.add_right_cancel_iff, ih]
      constructor
      · intro h j hj
        cases j with
        | zero => exact hreturns
        | succ j =>
          rw [show k + (j + 1) = k + 1 + j by omega]
          exact h j (by omega)
      · intro h j hj
        rw [show k + 1 + j = k + (j + 1) by omega]
        exact h (j + 1) (by omega)
    · -- the first one throws: it must be the only one
      rw [List.length_singleton, List.length_cons]
      constructor
      · intro h j hj
        omega
      · intro h
        by_contra hne
        exact hreturns (h 0 (by omega))

theorem notify_snd (returns : ℕ → Bool) (k : ℕ) (callbacks : List κ) :
    (notify returns k callbacks).2 = true ↔ ∀ j < callbacks.length, returns (k + j) = true := by
  induction callbacks generalizing k with
  | nil => simp [notify]
  | cons callback callbacks ih =>
    rw [notify, List.length_cons, Nat.forall_lt_succ_left]
    split_ifs with hreturns
    · rw [ih, and_iff_right (show returns (k + 0) = true from hreturns)]
      exact forall₂_congr fun j _ => by rw [show k + (j + 1) = k + 1 + j by omega]
    · exact ⟨False.elim, fun h => absurd h.1 hreturns⟩

/-- **One alert of a pass** is recorded and notified exactly when it is due. -/
theorem checkAlert_settle (clock : ℕ → ℤ) (pass : Pass) (m : AlertManager κ) (i : ℕ)
    (alert : Alert) :
    let settled := settle clock m.cooldownPolicy m.reads (pass.holds i) alert
    let notified := notify (pass.returns i) 0 m.callbacks
    ∃ check, checkAlert clock pass m i alert
        = (check, { m with cooldownPolicy := settled.2.1, reads := settled.2.2 },
          if settled.1 then notified.2 else true) ∧
      check.index = i ∧ check.fired.isSome = settled.1 ∧
      check.calls = if settled.1 then notified.1 else [] := by
  unfold checkAlert settle
  split_ifs with hholds
  · cases hsuppress : m.cooldownPolicy.shouldSuppressAlert clock m.reads alert with
    | mk suppressed rest =>
      cases suppressed with
      | true => exact ⟨_, rfl, rfl, rfl, rfl⟩
      | false => exact ⟨_, rfl, rfl, rfl, rfl⟩
  · exact ⟨_, rfl, rfl, rfl, rfl⟩

/-! ### A pass -/

section

variable {n i : ℕ} {due : List ℕ} {check : Check κ} {checks : List (Check κ)}

theorem invoked_cons_of_ne (h : check.index ≠ i) (j : ℕ) :
    Invoked (check :: checks) i j ↔ Invoked checks i j := by
  simp [Invoked, h]

/-- An alert that is not due changes nothing. -/
theorem isolatedFrom_cons_of_quiet (hcalls : check.calls = [])
    (hfired : check.fired.isSome = false) :
    IsolatedFrom pass n due (check :: checks) ↔ IsolatedFrom pass n due checks := by
  simp [IsolatedFrom, Invoked, hcalls, hfired]

/-- An alert for which every callback has been called. -/
theorem isolatedFrom_cons_of_called (hdue : ∀ i' ∈ due, check.index ≠ i')
    (hcalls : check.calls.length = n) :
    IsolatedFrom pass n (check.index :: due) (check :: checks)
      ↔ IsolatedFrom pass n due checks := by
  unfold IsolatedFrom
  rw [List.forall_mem_cons, List.forall_mem_cons]
  have hself : ∀ j < n, pass.returns check.index j = true →
      Invoked (check :: checks) check.index j := fun j hj _ =>
    ⟨check, List.mem_cons_self, rfl, hcalls.symm ▸ hj⟩
  rw [and_iff_right hself, and_iff_right fun _ => hcalls]
  refine and_congr_left' (forall₂_congr fun i' hi' => ?_)
  simp only [invoked_cons_of_ne (hdue i' hi')]

/-- An alert on which a callback throws ends the pass. -/
theorem isolatedFrom_singleton (hdue : ∀ i' ∈ due, check.index ≠ i')
    (hfired : check.fired.isSome = true) :
    IsolatedFrom pass n (check.index :: due) [check]
      ↔ check.calls.length = n ∧ ∀ i' ∈ due, ∀ j < n, pass.returns i' j = false := by
  have hnone : ∀ i' ∈ due, ∀ j, ¬ Invoked [check] i' j := by
    rintro i' hi' j ⟨c, hc, hindex, -⟩
    rw [List.mem_singleton.mp hc] at hindex
    exact hdue i' hi' hindex
  unfold IsolatedFrom
  rw [List.forall_mem_cons, List.forall_mem_singleton, and_comm]
  constructor
  · rintro ⟨hcalled, -, hrest⟩
    refine ⟨hcalled hfired, fun i' hi' j hj => Bool.eq_false_iff.mpr fun hreturns => ?_⟩
    exact hnone i' hi' j (hrest i' hi' j hj hreturns)
  · rintro ⟨hcalls, hrest⟩
    refine ⟨fun _ => hcalls, fun j hj _ => ⟨check, List.mem_cons_self, rfl, hcalls.symm ▸ hj⟩, ?_⟩
    intro i' hi' j hj hreturns
    exact absurd hreturns (Bool.eq_false_iff.mp (hrest i' hi' j hj))

end

theorem le_of_mem_dueFrom {holds : ℕ → Bool} {alerts : List Alert} {c : CooldownPolicy}
    {reads i i' : ℕ} (h : i' ∈ dueFrom clock holds c reads i alerts) : i ≤ i' := by
  induction alerts generalizing c reads i with
  | nil => exact absurd h List.not_mem_nil
  | cons alert alerts ih =>
    rw [dueFrom] at h
    dsimp only at h
    split_ifs at h
    · rcases List.mem_cons.mp h with rfl | h
      · exact le_rfl
      · exact Nat.le_of_succ_le (ih h)
    · exact Nat.le_of_succ_le (ih h)

theorem isolatedFrom_checkFrom (m : AlertManager κ) (i : ℕ) (alerts : List Alert) :
    IsolatedFrom pass m.callbacks.length
        (dueFrom clock pass.holds m.cooldownPolicy m.reads i alerts)
        (checkFrom clock pass m i alerts).1
      ↔ ThrowsLast pass m.callbacks.length
        (dueFrom clock pass.holds m.cooldownPolicy m.reads i alerts) := by
  induction alerts generalizing m i with
  | nil => simp [dueFrom, checkFrom, IsolatedFrom, ThrowsLast]
  | cons alert alerts ih =>
    obtain ⟨check, hcheck, rfl, hfired, hcalls⟩ :=
      checkAlert_settle clock pass m i alert
    rw [dueFrom]
    cases hsettle : settle clock m.cooldownPolicy m.reads (pass.holds check.index) alert with
    | mk isDue rest =>
    obtain ⟨c, reads⟩ := rest
    rw [hsettle] at hcheck hfired hcalls
    cases isDue with
    | false =>
      rw [checkFrom_cons_of_returns hcheck]
      exact (isolatedFrom_cons_of_quiet hcalls hfired).trans
        (ih { m with cooldownPolicy := c, reads := reads } (check.index + 1))
    | true =>
      dsimp only at hcheck hfired hcalls ⊢
      rw [if_pos rfl] at hcheck hcalls ⊢
      -- the alerts after it have other indices
      have hdue : ∀ i' ∈ dueFrom clock pass.holds c reads (check.index + 1) alerts,
          check.index ≠ i' := fun i' hi' => Nat.ne_of_lt (le_of_mem_dueFrom hi')
      have hall := notify_snd (pass.returns check.index) 0 m.callbacks
      have hlength := length_notify_eq_iff (pass.returns check.index) 0 m.callbacks
      simp only [Nat.zero_add] at hall hlength
      rw [ThrowsLast]
      by_cases hreturned : (notify (pass.returns check.index) 0 m.callbacks).2 = true
      · have hcalled : check.calls.length = m.callbacks.length := by
          rw [hcalls, hlength]
          exact fun j hj => hall.mp hreturned j (Nat.lt_of_succ_lt hj)
        rw [hreturned] at hcheck
        rw [checkFrom_cons_of_returns hcheck, if_pos (hall.mp hreturned),
          isolatedFrom_cons_of_called hdue hcalled]
        exact ih { m with cooldownPolicy := c, reads := reads } (check.index + 1)
      · rw [Bool.eq_false_iff.mpr hreturned] at hcheck
        rw [checkFrom_cons_of_throws hcheck, if_neg fun h => hreturned (hall.mpr h),
          isolatedFrom_singleton hdue hfired, hcalls, hlength]

/-- **A throwing callback neither swallows a notification nor shadows another alert** exactly where
callbacks throw last: of the alerts that are due, the first one on which a callback throws has none
but its last callback throw, and on every alert after it every callback throws. -/
theorem isolated_iff (clock : ℕ → ℤ) (pass : Pass) (m : AlertManager κ) :
    Isolated clock pass m ↔ ThrowsLast pass m.callbacks.length (due clock pass m) :=
  isolatedFrom_checkFrom m 0 m.alerts

/-- An alert and two callbacks, of which the first one throws. -/
theorem not_isolated_firstThrows :
    ¬ ∀ (clock : ℕ → ℤ) (pass : Pass) (m : AlertManager ℕ), Isolated clock pass m := by
  intro h
  have hthrows := (isolatedFrom_checkFrom _ 0 _).mp (h halfMinutes
    { holds := fun _ => true, returns := fun _ j => j != 0 }
    (((create.createAlert ⟨Bytes.ascii "cpu", .warning⟩).registerCallback 1).registerCallback 2))
  exact absurd (hthrows.1 0 (by decide)) (by decide)

end NetSentry.AlertManager
