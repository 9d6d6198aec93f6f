import Mathlib.Algebra.BigOperators.Group.Finset.Basic
import Mathlib.Tactic.Abel
import Mathlib.Tactic.Linarith
import NetSentry.Lib.Transition

/-!
# How long a transition system can go on

`Path step guard s as t` is a run from `s` to `t` whose actions are `as`, each taken within the
guard.  A system has halted where no action can be taken within the guard.

* `Path.cost_le`: the potential rule: where a step pays its cost out of the potential and of what
  the action brings, the costs of a run are bounded by the potential at its start and what its
  actions bring.
* `exists_halted`: where every step lowers a measure, the system can be run until it halts, and it
  halts after as many steps as the measure says.
* `sum_update_add`: where one of finitely many parties goes on, the sum over the parties changes by
  what this one gives up and what it gets.
-/

namespace Transition

variable {σ α : Type*} {step : σ → α → Option σ} {guard : σ → α → Prop} {inv : σ → Prop}

/-- The actions lead from `s` to `t`, each within the guard. -/
inductive Path (step : σ → α → Option σ) (guard : σ → α → Prop) (s : σ) : List α → σ → Prop
  | nil : Path step guard s [] s
  | append {as : List α} {t u : σ} {a : α} (h : Path step guard s as t) (hguard : guard t a)
    (hstep : step t a = some u) : Path step guard s (as ++ [a]) u

theorem Path.reaches {s t : σ} {as : List α} (h : Path step guard s as t) :
    Reaches step guard s t := by
  induction h with
  | nil => exact .refl _
  | append _ hguard hstep ih => exact Relation.ReflTransGen.tail ih ⟨_, hguard, hstep⟩

theorem Path.mono {guard' : σ → α → Prop} (hle : ∀ s a, guard s a → guard' s a) {s t : σ}
    {as : List α} (h : Path step guard s as t) : Path step guard' s as t := by
  induction h with
  | nil => exact .nil
  | append _ hguard hstep ih => exact ih.append (hle _ _ hguard) hstep

theorem Path.cons {s t u : σ} {a : α} {as : List α} (hguard : guard s a)
    (hstep : step s a = some t) (h : Path step guard t as u) : Path step guard s (a :: as) u := by
  induction h with
  | nil => exact Path.append .nil hguard hstep
  | append _ hguard' hstep' ih => exact ih.append hguard' hstep'

theorem path_of_run [∀ s a, Decidable (guard s a)] : ∀ {as : List α} {s t : σ},
    run step guard s as = some t → Path step guard s as t
  | [], s, t, h => by
    obtain rfl := Option.some.inj h
    exact .nil
  | a :: as, s, t, h => by
    rw [run] at h
    split_ifs at h with hguard
    obtain ⟨u, hu, hrest⟩ := Option.bind_eq_some_iff.mp h
    exact (path_of_run hrest).cons hguard hu

/-- **The potential rule.** -/
theorem Path.cost_le {potential : σ → ℕ} {cost budget : α → ℕ} {s t : σ} {as : List α}
    (h : Path step guard s as t)
    (hkeep : ∀ s a t, inv s → guard s a → step s a = some t → inv t)
    (hpay : ∀ s a t, inv s → guard s a → step s a = some t →
      potential t + cost a ≤ potential s + budget a) (hs : inv s) :
    potential t + (as.map cost).sum ≤ potential s + (as.map budget).sum := by
  induction h with
  | nil => exact Nat.le_refl _
  | append h hguard hstep ih =>
    have hlast := hpay _ _ _ (h.reaches.invariant hkeep hs) hguard hstep
    rw [List.map_append, List.map_append, List.sum_append, List.sum_append, List.map_singleton,
      List.map_singleton, List.sum_singleton, List.sum_singleton]
    linarith

/-- **One party goes on.** -/
theorem sum_update_add {ι β M : Type*} [Fintype ι] [DecidableEq ι] [AddCommMonoid M] (g : β → M)
    (f : ι → β) (i : ι) (b : β) :
    (∑ j, g (Function.update f i b j)) + g (f i) = (∑ j, g (f j)) + g b := by
  have hrest : ∑ j ∈ Finset.univ.erase i, g (Function.update f i b j)
      = ∑ j ∈ Finset.univ.erase i, g (f j) := by
    refine Finset.sum_congr rfl fun j hj => ?_
    rw [Function.update_of_ne (Finset.ne_of_mem_erase hj)]
  rw [← Finset.add_sum_erase _ _ (Finset.mem_univ i), ← Finset.add_sum_erase _ _
    (Finset.mem_univ i), hrest, Function.update_self]
  abel

/-- No action can be taken within the guard. -/
def Halted (step : σ → α → Option σ) (guard : σ → α → Prop) (s : σ) : Prop :=
  ∀ a, guard s a → step s a = none

/-- **A system that every step brings closer to its end** can be run to it. -/
theorem exists_halted {measure : σ → ℕ}
    (hkeep : ∀ s a t, inv s → guard s a → step s a = some t → inv t)
    (hless : ∀ s a t, inv s → guard s a → step s a = some t → measure t < measure s)
    {s : σ} (hs : inv s) :
    ∃ as t, Path step guard s as t ∧ Halted step guard t ∧ as.length ≤ measure s := by
  induction hn : measure s using Nat.strong_induction_on generalizing s with
  | _ n ih =>
    subst hn
    by_cases hhalted : Halted step guard s
    · exact ⟨[], s, .nil, hhalted, Nat.zero_le _⟩
    · obtain ⟨a, ha⟩ := not_forall.mp hhalted
      obtain ⟨hguard, hsome⟩ := Classical.not_imp.mp ha
      obtain ⟨t, hstep⟩ := Option.ne_none_iff_exists'.mp hsome
      have hlt := hless s a t hs hguard hstep
      obtain ⟨as, u, hpath, hu, hlength⟩ := ih _ hlt (hkeep s a t hs hguard hstep) rfl
      exact ⟨a :: as, u, hpath.cons hguard hstep, hu, by rw [List.length_cons]; omega⟩

end Transition
