import Mathlib.Data.List.Nodup
import Mathlib.Logic.Function.Basic
import Mathlib.Logic.Relation

/-!
# Chains of links

A nullable pointer and a `next` function trace a chain from pointer to pointer; `Chain next null a
xs` says that the chain from `a` visits `xs` and then ends at `null`.

* `Chain.unique`, `Chain.nodup`: there is one such list, and it repeats nothing.
* `Chain.congr`: the chain depends on the links of what it visits alone.
* `Chain.exists_suffix`: the chain from a visited node is the rest of the list.
* `Chain.append`: linking a new last node.
* `chain_of_seq`: the chain through a sequence of nodes.
-/

/-- The chain from a pointer visits the nodes of a list and ends at `null`. -/
inductive Chain {α : Type*} (next : α → α) (null : α) : α → List α → Prop
  | nil : Chain next null null []
  | cons {a : α} {xs : List α} (hne : a ≠ null) (h : Chain next null (next a) xs) :
    Chain next null a (a :: xs)

namespace Chain

variable {α : Type*} {next next' : α → α} {null a b : α} {xs ys : List α}

theorem eq_nil (h : Chain next null null xs) : xs = [] := by
  cases h with
  | nil => rfl
  | cons hne _ => exact absurd rfl hne

/-- A chain that does not end at once. -/
theorem exists_cons (h : Chain next null a xs) (hne : a ≠ null) :
    ∃ ys, xs = a :: ys ∧ Chain next null (next a) ys := by
  cases h with
  | nil => exact absurd rfl hne
  | cons _ h => exact ⟨_, rfl, h⟩

theorem head_eq (h : Chain next null a (b :: xs)) : a = b := by
  cases h with
  | cons _ _ => rfl

theorem tail (h : Chain next null a (b :: xs)) : Chain next null (next a) xs := by
  cases h with
  | cons _ h => exact h

theorem ne_null (h : Chain next null a xs) (hb : b ∈ xs) : b ≠ null := by
  induction h with
  | nil => cases hb
  | cons hne _ ih =>
    rcases List.mem_cons.mp hb with rfl | hmem
    · exact hne
    · exact ih hmem

/-- A pointer traces one list only. -/
theorem unique (h : Chain next null a xs) (h' : Chain next null a ys) : xs = ys := by
  induction h generalizing ys with
  | nil => exact h'.eq_nil.symm
  | cons hne _ ih =>
    obtain ⟨zs, rfl, hzs⟩ := h'.exists_cons hne
    rw [ih hzs]

/-- The chain depends on the links of what it visits alone. -/
theorem congr (h : Chain next null a xs) (hnext : ∀ x ∈ xs, next' x = next x) :
    Chain next' null a xs := by
  induction h with
  | nil => exact .nil
  | @cons a xs hne _ ih =>
    apply Chain.cons hne
    rw [hnext a List.mem_cons_self]
    exact ih fun x hx => hnext x (List.mem_cons_of_mem a hx)

/-- The chain from a visited node is the rest of the list. -/
theorem exists_suffix (h : Chain next null a xs) (hb : b ∈ xs) :
    ∃ ys zs, xs = ys ++ b :: zs ∧ Chain next null b (b :: zs) := by
  induction h with
  | nil => cases hb
  | @cons a xs hne h ih =>
    rcases List.mem_cons.mp hb with rfl | hmem
    · exact ⟨[], xs, rfl, .cons hne h⟩
    · obtain ⟨ys, zs, rfl, hchain⟩ := ih hmem
      exact ⟨a :: ys, zs, rfl, hchain⟩

/-- **A chain that ends repeats nothing**: it would go around for ever. -/
theorem nodup (h : Chain next null a xs) : xs.Nodup := by
  induction h with
  | nil => exact List.nodup_nil
  | @cons a xs hne h ih =>
    refine List.nodup_cons.mpr ⟨?_, ih⟩
    intro hmem
    obtain ⟨ys, zs, hsplit, hchain⟩ := h.exists_suffix hmem
    have hsame : a :: zs = a :: xs := hchain.unique (.cons hne h)
    have hlength : zs.length = xs.length := congrArg List.length (List.cons.inj hsame).2
    rw [hsplit, List.length_append, List.length_cons] at hlength
    omega

/-- A chain that visits something visits its start. -/
theorem start_mem (h : Chain next null a xs) (hb : b ∈ xs) : a ∈ xs := by
  cases h with
  | nil => cases hb
  | cons _ _ => exact List.mem_cons_self

/-- The successor of a visited node is visited. -/
theorem next_mem (h : Chain next null a xs) (hb : b ∈ xs) (hne : next b ≠ null) : next b ∈ xs := by
  obtain ⟨ys, zs, rfl, hchain⟩ := h.exists_suffix hb
  cases hchain with
  | cons _ hrest =>
    obtain ⟨ws, rfl, _⟩ := hrest.exists_cons hne
    simp

/-- What a chain visits is reached link by link. -/
theorem reaches (h : Chain next null a xs) (hb : b ∈ xs) :
    Relation.ReflTransGen (fun x y => next x = y) a b := by
  induction h with
  | nil => cases hb
  | @cons a xs _ _ ih =>
    rcases List.mem_cons.mp hb with rfl | hmem
    · exact .refl
    · exact (ih hmem).head rfl

/-- A node without a successor is the last one. -/
theorem eq_append_of_next_eq_null (h : Chain next null a xs) (hb : b ∈ xs) (hnext : next b = null) :
    ∃ ys, xs = ys ++ [b] := by
  obtain ⟨ys, zs, hsplit, hchain⟩ := h.exists_suffix hb
  cases hchain with
  | cons _ hrest =>
    rw [hnext] at hrest
    exact ⟨ys, hrest.eq_nil ▸ hsplit⟩

/-- The last node has no successor. -/
theorem next_eq_null (h : Chain next null a (xs ++ [b])) : next b = null := by
  induction xs generalizing a with
  | nil =>
    cases h with
    | cons _ hrest =>
      cases hrest with
      | nil => rfl
  | cons x xs ih =>
    cases h with
    | cons _ hrest => exact ih hrest

/-- **Linking a new last node.** -/
theorem append [DecidableEq α] {c : α} (h : Chain next null a (xs ++ [b])) (hc : c ≠ null)
    (hnew : c ∉ xs ++ [b]) (hnext : next c = null) :
    Chain (Function.update next b c) null a (xs ++ [b] ++ [c]) := by
  have hbc : c ≠ b := fun hcb => hnew (by simp [hcb])
  induction xs generalizing a with
  | nil =>
    cases h with
    | cons hne _ =>
      apply Chain.cons hne
      rw [Function.update_self]
      apply Chain.cons hc
      rw [Function.update_of_ne hbc, hnext]
      exact .nil
  | cons x xs ih =>
    have hnodup := h.nodup
    cases h with
    | cons hne h =>
      apply Chain.cons hne
      have hxb : x ≠ b := by
        rintro rfl
        simp at hnodup
      rw [Function.update_of_ne hxb]
      exact ih h fun hmem => hnew (List.mem_cons_of_mem x hmem)

end Chain

/-- **The chain through a sequence** of nodes, each linked to the one after it. -/
theorem chain_of_seq {α : Type*} {next : α → α} {null : α} (f : ℕ → α) (n : ℕ)
    (hnext : ∀ i < n, next (f i) = f (i + 1)) (hlast : next (f n) = null)
    (hne : ∀ i ≤ n, f i ≠ null) : Chain next null (f 0) ((List.range (n + 1)).map f) := by
  induction n generalizing f with
  | zero =>
    apply Chain.cons (hne 0 (Nat.le_refl 0))
    rw [hlast]
    exact .nil
  | succ n ih =>
    rw [List.range_succ_eq_map, List.map_cons, List.map_map]
    apply Chain.cons (hne 0 (Nat.zero_le _))
    rw [hnext 0 (Nat.succ_pos n)]
    exact ih (fun i => f (i + 1)) (fun i hi => hnext (i + 1) (by omega)) hlast
      fun i hi => hne (i + 1) (by omega)
