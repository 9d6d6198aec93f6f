import Mathlib.Data.List.Basic
import Mathlib.Data.List.Perm.Basic

/-!
# Asking in turn

Partial functions are asked in turn, and the first one that answers decides.

* `ask_of_unanimous`: where all that answer give one answer, this is the answer.
* `ask_perm_iff`: the order in which they are asked is of no importance for an input exactly when
  all that answer it give one answer.
-/

namespace OrderedChoice

variable {α β : Type*} {fs gs : List (α → Option β)} {x : α}

/-- The first answer. -/
def ask (fs : List (α → Option β)) (x : α) : Option β := fs.findSome? (· x)

/-- All that answer give one answer. -/
def Unanimous (fs : List (α → Option β)) (x : α) : Prop :=
  ∀ f ∈ fs, ∀ g ∈ fs, ∀ a ∈ f x, ∀ b ∈ g x, a = b

theorem Unanimous.perm (h : Unanimous fs x) (hperm : gs.Perm fs) : Unanimous gs x :=
  fun f hf g hg => h f (hperm.mem_iff.mp hf) g (hperm.mem_iff.mp hg)

/-- Only one of them answers. -/
theorem unanimous_of_only (f : α → Option β) (h : ∀ g ∈ fs, g = f ∨ g x = none) :
    Unanimous fs x := by
  have heq : ∀ g ∈ fs, ∀ b ∈ g x, b ∈ f x := by
    intro g hg b hb
    rcases h g hg with rfl | hnone
    · exact hb
    · exact absurd (hnone.symm.trans hb) (Option.some_ne_none b).symm
  exact fun g hg g' hg' a ha b hb => Option.mem_unique (heq g hg a ha) (heq g' hg' b hb)

theorem ask_of_unanimous (h : Unanimous fs x) {f : α → Option β} (hf : f ∈ fs) {a : β}
    (ha : a ∈ f x) : ask fs x = some a := by
  cases hask : ask fs x with
  | none =>
    have hnone : f x = none := List.findSome?_eq_none_iff.mp hask f hf
    exact absurd (ha.symm.trans hnone) (Option.some_ne_none a)
  | some b =>
    obtain ⟨g, hg, hb⟩ := List.exists_of_findSome?_eq_some hask
    rw [h g hg f hf b hb a ha]

/-- The one that comes first decides, where it answers. -/
theorem ask_cons_of_mem {f : α → Option β} {a : β} (ha : a ∈ f x) : ask (f :: fs) x = some a := by
  rw [ask, List.findSome?_cons, ha]

/-- **When the order is of no importance.** -/
theorem ask_perm_iff : (∀ gs, gs.Perm fs → ask gs x = ask fs x) ↔ Unanimous fs x := by
  constructor
  · intro h f hf g hg a ha b hb
    -- whichever is put in front decides
    have hfirst : ∀ f ∈ fs, ∀ a ∈ f x, some a = ask fs x := by
      intro f hf a ha
      obtain ⟨before, after, rfl⟩ := List.append_of_mem hf
      rw [← h _ List.perm_middle.symm, ask_cons_of_mem ha]
    exact Option.some.inj ((hfirst f hf a ha).trans (hfirst g hg b hb).symm)
  · intro h gs hperm
    cases hask : ask fs x with
    | none =>
      apply List.findSome?_eq_none_iff.mpr
      exact fun f hf => List.findSome?_eq_none_iff.mp hask f (hperm.mem_iff.mp hf)
    | some a =>
      obtain ⟨f, hf, ha⟩ := List.exists_of_findSome?_eq_some hask
      exact ask_of_unanimous (h.perm hperm) (hperm.mem_iff.mpr hf) ha

end OrderedChoice
