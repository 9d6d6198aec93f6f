import Mathlib.Data.List.Basic
import Mathlib.Order.Defs.Unbundled
import Mathlib.Order.Lattice

/-!
# The first elements by weight

A sort gives a permutation that its comparison orders, and `topK` the first `k` elements of a sorted
list.  A comparison is by weight (`ByWeight`) where the heavier element comes first.

* `ByWeight.isStrictWeakOrder`: comparing by weight is a strict weak order.
* `length_topK`, `mem_of_mem_topK`, `nodup_topK`, `pairwise_topK`, `le_of_notMem_topK`: how many
  elements there are, which, and in what order, and that none that is left out weighs more.
* `map_weight_topK`: the weights of the first elements do not depend on the sort.
-/

/-- `std::sort` with a comparison: it permutes a list so that no element comes after one that it is
before. -/
structure Sorter {α : Type*} (before : α → α → Bool) where
  sort : List α → List α
  perm : ∀ xs, (sort xs).Perm xs
  ordered : ∀ xs, (sort xs).Pairwise fun a b => before b a = false

namespace TopK

variable {α β : Type*} [LinearOrder β] {before : α → α → Bool} {weight : α → β}

/-- The comparison puts the heavier element first. -/
def ByWeight (before : α → α → Bool) (weight : α → β) : Prop :=
  ∀ a b, before a b = true ↔ weight b < weight a

/-- **Comparing by weight** is a strict weak order. -/
theorem ByWeight.isStrictWeakOrder (h : ByWeight before weight) :
    IsStrictWeakOrder α fun a b => before a b = true where
  irrefl a := by
    rw [h]
    exact lt_irrefl _
  trans a b c := by
    rw [h, h, h]
    exact fun hab hbc => hbc.trans hab
  incomp_trans a b c := by
    simp only [h a, h b, h c, not_lt]
    exact fun hab hbc => ⟨hab.1.trans hbc.1, hbc.2.trans hab.2⟩

/-- A merge sort. -/
def mergeSorter (h : ByWeight before weight) : Sorter before where
  sort xs := xs.mergeSort fun a b => !before b a
  perm xs := List.mergeSort_perm xs _
  ordered xs := by
    have hle : ∀ a b, (!before b a) = true ↔ weight b ≤ weight a := fun a b => by
      rw [Bool.not_eq_true', ← Bool.not_eq_true, h, not_lt]
    have hsorted : (xs.mergeSort fun a b => !before b a).Pairwise
        fun a b => (!before b a) = true := by
      apply List.pairwise_mergeSort
      · intro a b c
        rw [hle, hle, hle]
        exact fun hab hbc => hbc.trans hab
      · intro a b
        rw [Bool.or_eq_true, hle, hle]
        exact le_total _ _
    exact hsorted.imp fun hab => by simpa using hab

/-- The first `k` elements of a list that is sorted. -/
def topK (sorter : Sorter before) (k : ℕ) (xs : List α) : List α := (sorter.sort xs).take k

variable (sorter : Sorter before) {k : ℕ} {xs : List α}

theorem length_topK (k : ℕ) (xs : List α) : (topK sorter k xs).length = min k xs.length := by
  rw [topK, List.length_take, (sorter.perm xs).length_eq]

theorem mem_of_mem_topK {a : α} (h : a ∈ topK sorter k xs) : a ∈ xs :=
  (sorter.perm xs).mem_iff.mp (List.mem_of_mem_take h)

theorem nodup_topK {γ : Type*} {f : α → γ} (h : (xs.map f).Nodup) :
    ((topK sorter k xs).map f).Nodup := by
  have hsorted : ((sorter.sort xs).map f).Nodup := ((sorter.perm xs).map f).nodup_iff.mpr h
  rw [topK, List.map_take]
  exact hsorted.sublist (List.take_sublist k _)

section Weights

variable (h : ByWeight before weight)
include h

theorem pairwise_sort (xs : List α) : (sorter.sort xs).Pairwise fun a b => weight b ≤ weight a :=
  (sorter.ordered xs).imp fun {a b} hab => by
    rwa [← Bool.not_eq_true, h, not_lt] at hab

/-- The elements are in order. -/
theorem pairwise_topK : (topK sorter k xs).Pairwise fun a b => weight b ≤ weight a :=
  (pairwise_sort sorter h xs).sublist (List.take_sublist k _)

/-- **Nothing that is left out weighs more.** -/
theorem le_of_notMem_topK {a b : α} (ha : a ∈ xs) (hnot : a ∉ topK sorter k xs)
    (hb : b ∈ topK sorter k xs) : weight a ≤ weight b := by
  have hsorted := pairwise_sort sorter h xs
  rw [← List.take_append_drop k (sorter.sort xs)] at hsorted
  have hdrop : a ∈ (sorter.sort xs).drop k := by
    have hmem := (sorter.perm xs).mem_iff.mpr ha
    rw [← List.take_append_drop k (sorter.sort xs)] at hmem
    exact (List.mem_append.mp hmem).resolve_left hnot
  exact (List.pairwise_append.mp hsorted).2.2 b hb a hdrop

/-- **The weights do not depend on the sort**: two sorts of the same elements, in any order, give
the same weights. -/
theorem map_weight_sort (sorter' : Sorter before) {ys : List α} (hperm : xs.Perm ys) :
    (sorter.sort xs).map weight = (sorter'.sort ys).map weight := by
  have hweights : ((sorter.sort xs).map weight).Perm ((sorter'.sort ys).map weight) :=
    (((sorter.perm xs).trans hperm).trans (sorter'.perm ys).symm).map weight
  refine hweights.eq_of_pairwise (fun a b _ _ hab hba => le_antisymm hba hab) ?_ ?_
  · exact List.pairwise_map.mpr (pairwise_sort sorter h xs)
  · exact List.pairwise_map.mpr (pairwise_sort sorter' h ys)

theorem map_weight_topK (sorter' : Sorter before) {ys : List α} (hperm : xs.Perm ys) {k l : ℕ}
    (hkl : k ≤ l) :
    (topK sorter k xs).map weight = ((topK sorter' l ys).take k).map weight := by
  rw [topK, topK, List.take_take, Nat.min_eq_left hkl, List.map_take, List.map_take,
    map_weight_sort sorter h sorter' hperm]

end Weights

end TopK
