import Mathlib.Logic.Relation
import Mathlib.Tactic.SplitIfs

/-!
# Guarded runs of a transition system

A system is given by a partial step function: `step s a` is the state after action `a` in state `s`,
or `none` where `a` cannot be taken there.  `Reaches step guard s t` says that some run of steps
leads from `s` to `t` in which every action was taken in a state that meets `guard`.

* `Reaches.invariant`: what every guarded step preserves holds in every state reached.
* `reaches_of_run`: a list of actions that can be taken one after the other within the guard is a
  run.
-/

namespace Transition

variable {σ α : Type*} {step : σ → α → Option σ} {guard : σ → α → Prop}

/-- `t` is reached from `s` by a run of steps that each meet the guard. -/
def Reaches (step : σ → α → Option σ) (guard : σ → α → Prop) : σ → σ → Prop :=
  Relation.ReflTransGen fun s t => ∃ a, guard s a ∧ step s a = some t

theorem Reaches.refl (s : σ) : Reaches step guard s s := Relation.ReflTransGen.refl

theorem Reaches.head {s t u : σ} (a : α) (hguard : guard s a) (hstep : step s a = some t)
    (h : Reaches step guard t u) : Reaches step guard s u :=
  Relation.ReflTransGen.head ⟨a, hguard, hstep⟩ h

/-- **The invariant rule.** -/
theorem Reaches.invariant {inv : σ → Prop} {s t : σ} (h : Reaches step guard s t)
    (hstep : ∀ s a t, inv s → guard s a → step s a = some t → inv t) (hs : inv s) : inv t := by
  induction h with
  | refl => exact hs
  | tail _ hlast ih =>
    obtain ⟨a, hguard, ha⟩ := hlast
    exact hstep _ a _ ih hguard ha

/-- Taking the actions of a list one after the other, as long as each meets the guard. -/
def run (step : σ → α → Option σ) (guard : σ → α → Prop) [∀ s a, Decidable (guard s a)] :
    σ → List α → Option σ
  | s, [] => some s
  | s, a :: as => if guard s a then (step s a).bind fun t => run step guard t as else none

theorem reaches_of_run [∀ s a, Decidable (guard s a)] : ∀ {as : List α} {s t : σ},
    run step guard s as = some t → Reaches step guard s t
  | [], s, t, h => by
    obtain rfl := Option.some.inj h
    exact Reaches.refl s
  | a :: as, s, t, h => by
    rw [run] at h
    split_ifs at h with hguard
    obtain ⟨u, hu, hrest⟩ := Option.bind_eq_some_iff.mp h
    exact (reaches_of_run hrest).head a hguard hu

end Transition
