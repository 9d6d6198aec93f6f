import Mathlib.Algebra.BigOperators.Group.Finset.Basic
import Mathlib.Algebra.BigOperators.Group.List.Basic
import Mathlib.Data.Finmap
import Mathlib.Tactic.SplitIfs

/-!
# Accumulating items by key

A finite map from keys to accumulators is updated by a stream of items: each item updates the
accumulator of its own key, which is created where the key is new.

* `lookup_foldl_accumulate`: after any stream, the accumulator of a key is what folding the items
  of that key alone gives; the other items do not matter.
* `measure_foldl_accumulate`: a measure of the accumulators to which every item of a key adds its
  weight sums the weights of the items of that key.
* `keys_foldl_accumulate`: the keys present are those that were there and those of the items.
* `mem_visitOrder`, `mem_entries`: a loop over a map visits the keys of the map, in whatever order,
  with what they have.
* `perm_of_valuesOf`: lists with the same values of every key are the same but for the order.
* `lastOf_append`: the last value of a key is that of the second part, where it has one.
* `total_accumulate`: an item adds to the total over all keys what it adds to that of its own key.
-/

namespace KeyedFold

variable {ι κ ν : Type*} [DecidableEq κ]

theorem lookup_insert_eq_ite (m : Finmap fun _ : κ => ν) (k : κ) (v : ν) (k' : κ) :
    (m.insert k v).lookup k' = if k = k' then some v else m.lookup k' := by
  split_ifs with h
  · rw [h, Finmap.lookup_insert]
  · rw [Finmap.lookup_insert_of_ne m (Ne.symm h)]

/-- One item updates the accumulator of its key. -/
def accumulate (key : ι → κ) (update : Option ν → ι → ν) (m : Finmap fun _ : κ => ν) (x : ι) :
    Finmap fun _ : κ => ν :=
  m.insert (key x) (update (m.lookup (key x)) x)

variable {key : ι → κ} {update : Option ν → ι → ν} {m : Finmap fun _ : κ => ν}

theorem lookup_accumulate (k : κ) (x : ι) :
    (accumulate key update m x).lookup k
      = if key x = k then some (update (m.lookup k) x) else m.lookup k := by
  rw [accumulate, lookup_insert_eq_ite]
  split_ifs with h
  · rw [h]
  · rfl

theorem lookup_foldl_accumulate (xs : List ι) (k : κ) :
    (xs.foldl (accumulate key update) m).lookup k
      = (xs.filter (key · = k)).foldl (fun o x => some (update o x)) (m.lookup k) := by
  induction xs generalizing m with
  | nil => rfl
  | cons x xs ih =>
    rw [List.foldl_cons, ih, lookup_accumulate]
    by_cases h : key x = k
    · rw [if_pos h, List.filter_cons_of_pos (by simpa using h), List.foldl_cons]
    · rw [if_neg h, List.filter_cons_of_neg (by simpa using h)]

theorem measure_foldl_update {μ : Type*} [AddCommMonoid μ] {measure : ν → μ} {weight : ι → μ}
    {xs : List ι} (h : ∀ o, ∀ x ∈ xs, measure (update o x) = o.elim 0 measure + weight x)
    (o : Option ν) :
    (xs.foldl (fun o x => some (update o x)) o).elim 0 measure
      = o.elim 0 measure + (xs.map weight).sum := by
  induction xs generalizing o with
  | nil => simp
  | cons x xs ih =>
    rw [List.foldl_cons, ih fun o y hy => h o y (List.mem_cons_of_mem x hy), Option.elim_some,
      h o x (by simp), List.map_cons, List.sum_cons, add_assoc]

/-- **Additive measures add up**, key by key. -/
theorem measure_foldl_accumulate {μ : Type*} [AddCommMonoid μ] {measure : ν → μ} {weight : ι → μ}
    {k : κ} (h : ∀ o x, key x = k → measure (update o x) = o.elim 0 measure + weight x)
    (xs : List ι) :
    ((xs.foldl (accumulate key update) m).lookup k).elim 0 measure
      = (m.lookup k).elim 0 measure + ((xs.filter (key · = k)).map weight).sum := by
  rw [lookup_foldl_accumulate]
  exact measure_foldl_update (fun o x hx => h o x (by simpa using (List.mem_filter.mp hx).2)) _

theorem keys_accumulate (x : ι) :
    (accumulate key update m x).keys = insert (key x) m.keys := by
  ext k
  rw [Finmap.mem_keys, accumulate, Finmap.mem_insert, Finset.mem_insert, Finmap.mem_keys]

theorem keys_foldl_accumulate (xs : List ι) :
    (xs.foldl (accumulate key update) m).keys = m.keys ∪ (xs.map key).toFinset := by
  induction xs generalizing m with
  | nil => simp
  | cons x xs ih =>
    rw [List.foldl_cons, ih, keys_accumulate, List.map_cons, List.toFinset_cons]
    rw [Finset.insert_union, Finset.union_insert]

/-! ### Groups -/

/-- Accumulating the items themselves in lists groups them by key, in their order. -/
theorem lookup_foldl_group (xs : List ι) (k : κ) :
    ((xs.foldl (accumulate key fun o x => o.getD [] ++ [x]) ∅).lookup k).getD []
      = xs.filter (key · = k) := by
  have hfold : ∀ (ys : List ι) (o : Option (List ι)),
      (ys.foldl (fun o x => some (o.getD [] ++ [x])) o).getD [] = o.getD [] ++ ys := by
    intro ys
    induction ys with
    | nil => simp
    | cons y ys ih =>
      intro o
      rw [List.foldl_cons, ih, Option.getD_some, List.append_assoc, List.singleton_append]
  rw [lookup_foldl_accumulate, hfold, Finmap.lookup_empty, Option.getD_none, List.nil_append]

/-! ### The values of a key -/

/-- The values of the pairs that have the key, in their order. -/
def valuesOf (k : κ) (pairs : List (κ × ν)) : List ν :=
  (pairs.filter (·.1 = k)).map Prod.snd

theorem valuesOf_append_singleton (k k' : κ) (pairs : List (κ × ν)) (v : ν) :
    valuesOf k (pairs ++ [(k', v)]) = valuesOf k pairs ++ if k' = k then [v] else [] := by
  unfold valuesOf
  by_cases h : k' = k <;> simp [h]

/-- **Lists with the same values of every key** are the same but for the order. -/
theorem perm_of_valuesOf {pairs pairs' : List (κ × ν)}
    (h : ∀ k, valuesOf k pairs = valuesOf k pairs') : pairs.Perm pairs' := by
  classical
  have hcount : ∀ (k : κ) (v : ν) (pairs : List (κ × ν)),
      pairs.count (k, v) = (valuesOf k pairs).count v := by
    intro k v pairs
    induction pairs with
    | nil => rfl
    | cons pair pairs ih =>
      unfold valuesOf at ih ⊢
      obtain ⟨k', v'⟩ := pair
      by_cases hk : k' = k <;> simp [List.count_cons, ih, hk]
  apply List.perm_iff_count.mpr
  rintro ⟨k, v⟩
  rw [hcount, hcount, h]

/-! ### The last value of a key -/

/-- The value of the last pair that has the key. -/
def lastOf (pairs : List (κ × ν)) (k : κ) : Option ν :=
  (pairs.filter (·.1 = k)).getLast?.map Prod.snd

theorem lastOf_append (ps qs : List (κ × ν)) (k : κ) :
    lastOf (ps ++ qs) k = (lastOf qs k).or (lastOf ps k) := by
  rw [lastOf, List.filter_append, List.getLast?_append, Option.map_or]
  rfl

theorem lastOf_singleton (p : κ × ν) (k : κ) :
    lastOf [p] k = if p.1 = k then some p.2 else none := by
  rw [lastOf]
  split_ifs with h
  · rw [List.filter_cons_of_pos (by simpa using h), List.filter_nil]
    rfl
  · rw [List.filter_cons_of_neg (by simpa using h), List.filter_nil]
    rfl

theorem mem_of_lastOf {ps : List (κ × ν)} {k : κ} {v : ν} (h : lastOf ps k = some v) :
    (k, v) ∈ ps := by
  obtain ⟨p, hp, rfl⟩ := Option.map_eq_some_iff.mp h
  obtain ⟨hmem, hkey⟩ := List.mem_filter.mp (List.mem_of_getLast? hp)
  rwa [← of_decide_eq_true hkey]

theorem lastOf_eq_none_iff {ps : List (κ × ν)} {k : κ} :
    lastOf ps k = none ↔ ∀ p ∈ ps, p.1 ≠ k := by
  rw [lastOf, Option.map_eq_none_iff, List.getLast?_eq_none_iff, List.filter_eq_nil_iff]
  simp only [decide_eq_true_eq, ne_eq]

/-- Where no key comes twice, the last value of a key is its only one. -/
theorem lastOf_of_nodup {ps : List (κ × ν)} (hnodup : (ps.map Prod.fst).Nodup) {k : κ} {v : ν}
    (h : (k, v) ∈ ps) : lastOf ps k = some v := by
  cases hlast : lastOf ps k with
  | none => exact absurd rfl (lastOf_eq_none_iff.mp hlast _ h)
  | some w =>
    have heq : (k, w) = (k, v) := List.inj_on_of_nodup_map hnodup (mem_of_lastOf hlast) h rfl
    rw [(Prod.mk.inj heq).2]

/-! ### Loops over a map -/

/-- An order in which a loop over the map can visit its keys. -/
abbrev VisitOrder (m : Finmap fun _ : κ => ν) :=
  { order : List κ // (order : Multiset κ) = m.keys.val }

/-- Some order of the keys. -/
noncomputable def someOrder (m : Finmap fun _ : κ => ν) : VisitOrder m :=
  ⟨m.keys.val.toList, Multiset.coe_toList _⟩

omit [DecidableEq κ] in
theorem mem_visitOrder (order : VisitOrder m) {k : κ} : k ∈ order.1 ↔ k ∈ m := by
  rw [← Multiset.mem_coe, order.2, Finset.mem_val, Finmap.mem_keys]

/-- The entries of a map, as a loop visits them. -/
def entries (m : Finmap fun _ : κ => ν) (order : VisitOrder m) : List (κ × ν) :=
  order.1.filterMap fun key => (m.lookup key).map (key, ·)

theorem mem_entries (order : VisitOrder m) {e : κ × ν} :
    e ∈ entries m order ↔ m.lookup e.1 = some e.2 := by
  rw [entries, List.mem_filterMap]
  constructor
  · rintro ⟨key, -, hkey⟩
    obtain ⟨v, hv, rfl⟩ := Option.map_eq_some_iff.mp hkey
    exact hv
  · intro h
    exact ⟨e.1, (mem_visitOrder order).mpr (Finmap.mem_of_lookup_eq_some h), by rw [h]; rfl⟩

/-- **The keys of the entries** are visited in order. -/
theorem map_fst_entries (order : VisitOrder m) : (entries m order).map Prod.fst = order.1 := by
  have hall : ∀ key ∈ order.1, (m.lookup key).map (fun _ => key) = some key := fun key hkey => by
    obtain ⟨v, hv⟩ := Finmap.mem_iff.mp ((mem_visitOrder order).mp hkey)
    rw [hv, Option.map_some]
  rw [entries, List.map_filterMap]
  simp only [Option.map_map, Function.comp_def]
  rw [List.filterMap_congr hall, List.filterMap_some]

omit [DecidableEq κ] in
theorem nodup_visitOrder (order : VisitOrder m) : order.1.Nodup := by
  rw [← Multiset.coe_nodup, order.2]
  exact m.keys.nodup

theorem nodup_keys_entries (order : VisitOrder m) : ((entries m order).map Prod.fst).Nodup := by
  rw [map_fst_entries]
  exact nodup_visitOrder order

theorem length_entries (order : VisitOrder m) : (entries m order).length = m.keys.card := by
  have h := congrArg List.length (map_fst_entries order)
  rw [List.length_map] at h
  rw [h, ← Multiset.coe_card, order.2]
  rfl

/-- The entries in one order are those in another one. -/
theorem perm_entries (order order' : VisitOrder m) :
    (entries m order).Perm (entries m order') := by
  have hperm : order.1.Perm order'.1 := Multiset.coe_eq_coe.mp (order.2.trans order'.2.symm)
  exact hperm.filterMap _

/-! ### Totals over all keys -/

/-- The sum of what the entries weigh. -/
def total {μ : Type*} [AddCommMonoid μ] (weight : κ → ν → μ) (m : Finmap fun _ : κ => ν) : μ :=
  ∑ k ∈ m.keys, (m.lookup k).elim 0 (weight k)

section Total

variable {μ : Type*} [AddCommMonoid μ] {weight : κ → ν → μ}

@[simp] theorem total_empty : total weight (∅ : Finmap fun _ : κ => ν) = 0 := by
  rw [total, Finmap.keys_empty, Finset.sum_empty]

/-- The entry of one key, which may be missing, and all the others. -/
theorem total_eq_add_erase (m : Finmap fun _ : κ => ν) (k : κ) :
    total weight m = (m.lookup k).elim 0 (weight k)
      + ∑ k' ∈ m.keys.erase k, (m.lookup k').elim 0 (weight k') := by
  by_cases hk : k ∈ m.keys
  · exact (Finset.add_sum_erase m.keys (fun k' => (m.lookup k').elim 0 (weight k')) hk).symm
  · have hnone : m.lookup k = none := Finmap.lookup_eq_none.mpr (Finmap.mem_keys.not.mp hk)
    rw [hnone, Option.elim_none, zero_add, Finset.erase_eq_of_notMem hk]
    rfl

theorem total_insert (m : Finmap fun _ : κ => ν) (k : κ) (v : ν) :
    total weight (m.insert k v)
      = weight k v + ∑ k' ∈ m.keys.erase k, (m.lookup k').elim 0 (weight k') := by
  have hkeys : (m.insert k v).keys.erase k = m.keys.erase k := by
    ext k'
    rw [Finset.mem_erase, Finset.mem_erase, Finmap.mem_keys, Finmap.mem_insert, Finmap.mem_keys]
    tauto
  rw [total_eq_add_erase _ k, Finmap.lookup_insert, Option.elim_some, hkeys]
  congr 1
  apply Finset.sum_congr rfl
  intro k' hk'
  rw [Finmap.lookup_insert_of_ne m (Finset.ne_of_mem_erase hk')]

/-- **What one item adds to a total.** -/
theorem total_accumulate {x : ι} {added : μ}
    (h : ∀ o, weight (key x) (update o x) = o.elim 0 (weight (key x)) + added) :
    total weight (accumulate key update m x) = total weight m + added := by
  rw [accumulate, total_insert, h, total_eq_add_erase m (key x), add_right_comm]

end Total

end KeyedFold
