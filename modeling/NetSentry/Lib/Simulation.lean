import Mathlib.Data.List.Basic

/-!
# Machines that answer operations

A machine answers each operation of a sequence and goes on in a new state.  One that may get stuck
(`run`) is compared with one that never does (`outputs`, `final`), an abstract model of it.

* `run_of_simulates`: a machine whose states stay related to those of the abstract one, and whose
  answers are those of the abstract one through a translation, never gets stuck and gives the
  translated answers to every sequence of operations.
-/

namespace Simulation

universe u

variable {ε : Type*} {σ τ ι ο ο' : Type u}

/-- The answers of the abstract machine. -/
def outputs (step : τ → ι → ο × τ) : τ → List ι → List ο
  | _, [] => []
  | t, i :: is => (step t i).1 :: outputs step (step t i).2 is

/-- The state of the abstract machine after a sequence of operations. -/
def final (step : τ → ι → ο × τ) (t : τ) (is : List ι) : τ := is.foldl (fun t i => (step t i).2) t

/-- The answers of a machine that may get stuck, and its last state. -/
def run (step : σ → ι → Except ε (ο × σ)) : σ → List ι → Except ε (List ο × σ)
  | s, [] => pure ([], s)
  | s, i :: is => do
    let (o, s) ← step s i
    let (os, s) ← run step s is
    pure (o :: os, s)

/-- One operation keeps the relation and gives the translated answer. -/
def Simulates (step : σ → ι → Except ε (ο' × σ)) (step' : τ → ι → ο × τ) (translate : ο → ο')
    (R : σ → τ → Prop) : Prop :=
  ∀ s t i, R s t → ∃ s', step s i = .ok (translate (step' t i).1, s') ∧ R s' (step' t i).2

/-- **The simulation rule.** -/
theorem run_of_simulates {step : σ → ι → Except ε (ο' × σ)} {step' : τ → ι → ο × τ}
    {translate : ο → ο'} {R : σ → τ → Prop} (h : Simulates step step' translate R) {s : σ} {t : τ}
    (hR : R s t) (is : List ι) :
    ∃ s', run step s is = .ok ((outputs step' t is).map translate, s') ∧
      R s' (final step' t is) := by
  induction is generalizing s t with
  | nil => exact ⟨s, rfl, hR⟩
  | cons i is ih =>
    obtain ⟨s₁, hstep, hR₁⟩ := h s t i hR
    obtain ⟨s₂, hrun, hR₂⟩ := ih hR₁
    refine ⟨s₂, ?_, hR₂⟩
    rw [run, hstep]
    show (run step s₁ is >>= fun r => pure (translate (step' t i).1 :: r.1, r.2)) = _
    rw [hrun]
    rfl

end Simulation
