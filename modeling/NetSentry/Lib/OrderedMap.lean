import Mathlib.Data.Finset.Max
import Mathlib.Data.Finset.Card
import Mathlib.Order.Bounds.Basic

/-!
# Ordered maps

A map over a linear order is the list of its entries, by ascending keys, and `newest n K` is the set
of the `n` greatest elements of `K`.

* `mem_assign`: an assignment replaces the entry of its own key.
* `mem_shrink`: erasing the first entry while there are too many keeps the entries of the greatest
  keys.
* `newest_insert_newest`: what is not among the greatest elements never is among them again.
* `lowerBound_eq_some_iff`, `last_eq_some_iff`: the entries that a search and the end of the map
  give.
-/

/-- A map with the keys of a linear order. -/
structure OrderedMap (κ ν : Type*) [LinearOrder κ] where
  entries : List (κ × ν)
  sorted : entries.Pairwise (·.1 < ·.1)

namespace OrderedMap

variable {κ ν : Type*} [LinearOrder κ] {m : OrderedMap κ ν}

/-! ### Operations -/

/-- The map without entries. -/
def empty : OrderedMap κ ν := ⟨[], .nil⟩

/-- The number of entries. -/
def size (m : OrderedMap κ ν) : ℕ := m.entries.length

/-- The keys of a list of entries. -/
def keysOf (es : List (κ × ν)) : Finset κ := (es.map Prod.fst).toFinset

/-- The keys that have an entry. -/
def keys (m : OrderedMap κ ν) : Finset κ := keysOf m.entries

/-- The entries after `m[k] = v`. -/
def insertEntry (k : κ) (v : ν) : List (κ × ν) → List (κ × ν)
  | [] => [(k, v)]
  | e :: es =>
    if e.1 < k then e :: insertEntry k v es
    else if k < e.1 then (k, v) :: e :: es
    else (k, v) :: es

/-- The entries that are left when the first is erased while there are more than `limit`. -/
def shrinkEntries (limit : ℕ) : List (κ × ν) → List (κ × ν)
  | [] => []
  | e :: es => if limit < (e :: es).length then shrinkEntries limit es else e :: es

theorem mem_insertEntry {es : List (κ × ν)} (h : es.Pairwise (·.1 < ·.1)) (k : κ) (v : ν)
    (e : κ × ν) : e ∈ insertEntry k v es ↔ e = (k, v) ∨ (e.1 ≠ k ∧ e ∈ es) := by
  induction es with
  | nil => simp [insertEntry]
  | cons e' es ih =>
    obtain ⟨hlt, hes⟩ := List.pairwise_cons.mp h
    rw [insertEntry]
    split_ifs with hle hge
    · -- the key comes later
      rw [List.mem_cons, ih hes, List.mem_cons]
      constructor
      · rintro (rfl | rfl | ⟨hne, hmem⟩)
        · exact Or.inr ⟨hle.ne, Or.inl rfl⟩
        · exact Or.inl rfl
        · exact Or.inr ⟨hne, Or.inr hmem⟩
      · rintro (rfl | ⟨hne, rfl | hmem⟩)
        · exact Or.inr (Or.inl rfl)
        · exact Or.inl rfl
        · exact Or.inr (Or.inr ⟨hne, hmem⟩)
    · -- the key comes before all entries
      rw [List.mem_cons]
      constructor
      · rintro (rfl | hmem)
        · exact Or.inl rfl
        · refine Or.inr ⟨?_, hmem⟩
          rcases List.mem_cons.mp hmem with rfl | hmem
          · exact hge.ne'
          · exact (hge.trans (hlt e hmem)).ne'
      · rintro (rfl | ⟨-, hmem⟩)
        · exact Or.inl rfl
        · exact Or.inr hmem
    · -- the key has an entry, which is replaced
      have heq : e'.1 = k := le_antisymm (not_lt.mp hge) (not_lt.mp hle)
      rw [List.mem_cons, List.mem_cons]
      constructor
      · rintro (rfl | hmem)
        · exact Or.inl rfl
        · exact Or.inr ⟨heq ▸ (hlt e hmem).ne', Or.inr hmem⟩
      · rintro (rfl | ⟨hne, rfl | hmem⟩)
        · exact Or.inl rfl
        · exact absurd heq hne
        · exact Or.inr hmem

theorem sorted_insertEntry {es : List (κ × ν)} (h : es.Pairwise (·.1 < ·.1)) (k : κ) (v : ν) :
    (insertEntry k v es).Pairwise (·.1 < ·.1) := by
  induction es with
  | nil => exact List.pairwise_singleton _ _
  | cons e es ih =>
    obtain ⟨hlt, hes⟩ := List.pairwise_cons.mp h
    rw [insertEntry]
    split_ifs with hle hge
    · refine List.pairwise_cons.mpr ⟨fun e' he' => ?_, ih hes⟩
      rcases (mem_insertEntry hes k v e').mp he' with rfl | ⟨-, hmem⟩
      · exact hle
      · exact hlt e' hmem
    · refine List.pairwise_cons.mpr ⟨fun e' he' => ?_, h⟩
      rcases List.mem_cons.mp he' with rfl | hmem
      · exact hge
      · exact hge.trans (hlt e' hmem)
    · have heq : e.1 = k := le_antisymm (not_lt.mp hge) (not_lt.mp hle)
      exact List.pairwise_cons.mpr ⟨fun e' he' => heq ▸ hlt e' he', hes⟩

omit [LinearOrder κ] in
theorem shrinkEntries_suffix (limit : ℕ) (es : List (κ × ν)) : shrinkEntries limit es <:+ es := by
  induction es with
  | nil => exact List.suffix_refl []
  | cons e es ih =>
    rw [shrinkEntries]
    split_ifs
    · exact ih.trans (List.suffix_cons e es)
    · exact List.suffix_refl _

/-- `m[k] = v`. -/
def assign (m : OrderedMap κ ν) (k : κ) (v : ν) : OrderedMap κ ν :=
  ⟨insertEntry k v m.entries, sorted_insertEntry m.sorted k v⟩

/-- `while (m.size() > limit) m.erase(m.begin());`. -/
def shrink (m : OrderedMap κ ν) (limit : ℕ) : OrderedMap κ ν :=
  ⟨shrinkEntries limit m.entries, m.sorted.sublist (shrinkEntries_suffix limit m.entries).sublist⟩

/-- `m.lower_bound(k)`: the first entry whose key is not less than `k`; `none` is the end. -/
def lowerBound (m : OrderedMap κ ν) (k : κ) : Option (κ × ν) := m.entries.find? (k ≤ ·.1)

/-- `m.rbegin()`. -/
def last (m : OrderedMap κ ν) : Option (κ × ν) := m.entries.getLast?

/-! ### The greatest elements -/

/-- The `n` greatest elements of a set: those that have fewer than `n` greater ones. -/
def newest (n : ℕ) (K : Finset κ) : Finset κ := K.filter fun r => (K.filter (r < ·)).card < n

theorem mem_newest {n : ℕ} {K : Finset κ} {r : κ} :
    r ∈ newest n K ↔ r ∈ K ∧ (K.filter (r < ·)).card < n := Finset.mem_filter

theorem newest_subset (n : ℕ) (K : Finset κ) : newest n K ⊆ K := Finset.filter_subset _ K

theorem newest_of_card_le {n : ℕ} {K : Finset κ} (h : K.card < n) : newest n K = K :=
  Finset.filter_true_of_mem fun _ _ => lt_of_le_of_lt (Finset.card_filter_le _ _) h

/-- What is not among the greatest elements is less than all of them. -/
theorem lt_of_notMem_newest {n : ℕ} {K : Finset κ} {r d : κ} (hr : r ∈ newest n K) (hd : d ∈ K)
    (hnot : d ∉ newest n K) : d < r := by
  by_contra hle
  refine hnot (mem_newest.mpr ⟨hd, lt_of_le_of_lt (Finset.card_le_card ?_) (mem_newest.mp hr).2⟩)
  exact Finset.monotone_filter_right K fun x _ hx => lt_of_le_of_lt (not_lt.mp hle) hx

/-- An element that is less than all others is among the greatest only where there are few. -/
theorem newest_insert_of_lt {n : ℕ} {K : Finset κ} {a : κ} (ha : ∀ r ∈ K, a < r) :
    newest n (insert a K) = if K.card < n then insert a (newest n K) else newest n K := by
  have hall : (insert a K).filter (a < ·) = K := by
    rw [Finset.filter_insert, if_neg (lt_irrefl a), Finset.filter_true_of_mem ha]
  have hrest : K.filter (fun r => ((insert a K).filter (r < ·)).card < n) = newest n K :=
    Finset.filter_congr fun r hr => by rw [Finset.filter_insert, if_neg (ha r hr).not_gt]
  rw [newest, Finset.filter_insert, hall, hrest]

/-- **There are `n` greatest elements**, or all of them where there are fewer. -/
theorem card_newest (n : ℕ) (K : Finset κ) : (newest n K).card = min n K.card := by
  induction K using Finset.induction_on_min with
  | empty => rw [Finset.card_empty, Nat.min_zero, newest, Finset.filter_empty, Finset.card_empty]
  | insert a K ha ih =>
    have hnot : a ∉ K := fun h => lt_irrefl a (ha a h)
    rw [newest_insert_of_lt ha, Finset.card_insert_of_notMem hnot]
    split_ifs with hn
    · rw [Finset.card_insert_of_notMem fun h => hnot (newest_subset n K h), ih]
      omega
    · rw [ih]
      omega

/-- **What has once been left out does not matter again.** -/
theorem newest_insert_newest (n : ℕ) (K : Finset κ) (r : κ) :
    newest n (insert r (newest n K)) = newest n (insert r K) := by
  have hsub : insert r (newest n K) ⊆ insert r K :=
    Finset.insert_subset_insert r (newest_subset n K)
  have hsup : newest n (insert r K) ⊆ insert r (newest n K) := fun x hx => by
    obtain ⟨hmem, hcard⟩ := mem_newest.mp hx
    rcases Finset.mem_insert.mp hmem with rfl | hmem
    · exact Finset.mem_insert_self x _
    · refine Finset.mem_insert_of_mem (mem_newest.mpr ⟨hmem, lt_of_le_of_lt ?_ hcard⟩)
      exact Finset.card_le_card (Finset.filter_subset_filter _ (Finset.subset_insert r K))
  ext x
  constructor
  · intro hx
    by_contra hnot
    obtain ⟨hmem, hcard⟩ := mem_newest.mp hx
    have hxK := hsub hmem
    have hfull : n ≤ (insert r K).card := by
      by_contra hlt
      refine hnot (mem_newest.mpr ⟨hxK, lt_of_le_of_lt (Finset.card_filter_le _ _) ?_⟩)
      exact not_le.mp hlt
    -- all of the greatest elements are greater than `x`, and none of them was left out before
    have hgreater : newest n (insert r K) ⊆ (insert r (newest n K)).filter (x < ·) := fun y hy =>
      Finset.mem_filter.mpr ⟨hsup hy, lt_of_notMem_newest hy hxK hnot⟩
    have hle := Finset.card_le_card hgreater
    rw [card_newest, min_eq_left hfull] at hle
    exact absurd hcard (not_lt.mpr hle)
  · intro hx
    refine mem_newest.mpr ⟨hsup hx, lt_of_le_of_lt ?_ (mem_newest.mp hx).2⟩
    exact Finset.card_le_card (Finset.filter_subset_filter _ hsub)

/-- The greatest element stays. -/
theorem mem_newest_of_isGreatest {n : ℕ} {K : Finset κ} {r : κ} (h : IsGreatest (K : Set κ) r)
    (hn : 0 < n) : r ∈ newest n K := by
  refine mem_newest.mpr ⟨h.1, ?_⟩
  rwa [Finset.filter_false_of_mem fun x hx => not_lt.mpr (h.2 hx), Finset.card_empty]

/-! ### What the operations do -/

theorem mem_keysOf {es : List (κ × ν)} {k : κ} : k ∈ keysOf es ↔ ∃ v, (k, v) ∈ es := by
  rw [keysOf, List.mem_toFinset, List.mem_map]
  constructor
  · rintro ⟨⟨_, v⟩, hmem, rfl⟩
    exact ⟨v, hmem⟩
  · rintro ⟨v, hmem⟩
    exact ⟨(k, v), hmem, rfl⟩

theorem keysOf_cons (e : κ × ν) (es : List (κ × ν)) :
    keysOf (e :: es) = insert e.1 (keysOf es) := by
  rw [keysOf, List.map_cons, List.toFinset_cons, keysOf]

theorem nodup_map_fst {es : List (κ × ν)} (h : es.Pairwise (·.1 < ·.1)) :
    (es.map Prod.fst).Nodup :=
  List.pairwise_map.mpr (h.imp fun hlt => hlt.ne)

theorem card_keysOf {es : List (κ × ν)} (h : es.Pairwise (·.1 < ·.1)) :
    (keysOf es).card = es.length := by
  rw [keysOf, List.toFinset_card_of_nodup (nodup_map_fst h), List.length_map]

theorem mem_keys {k : κ} : k ∈ m.keys ↔ ∃ v, (k, v) ∈ m.entries := mem_keysOf

theorem mem_keys_of_mem {e : κ × ν} (h : e ∈ m.entries) : e.1 ∈ m.keys := mem_keys.mpr ⟨e.2, h⟩

/-- A key has one value. -/
theorem eq_of_mem {e e' : κ × ν} (h : e ∈ m.entries) (h' : e' ∈ m.entries) (hkey : e.1 = e'.1) :
    e = e' :=
  List.inj_on_of_nodup_map (nodup_map_fst m.sorted) h h' hkey

theorem mem_assign {k : κ} {v : ν} {e : κ × ν} :
    e ∈ (m.assign k v).entries ↔ e = (k, v) ∨ (e.1 ≠ k ∧ e ∈ m.entries) :=
  mem_insertEntry m.sorted k v e

theorem keys_assign (k : κ) (v : ν) : (m.assign k v).keys = insert k m.keys := by
  ext k'
  rw [Finset.mem_insert, mem_keys, mem_keys]
  by_cases h : k' = k
  · exact ⟨fun _ => Or.inl h, fun _ => ⟨v, mem_assign.mpr (Or.inl (by rw [h]))⟩⟩
  · simp only [mem_assign, Prod.mk.injEq, h, false_and, false_or, ne_eq, not_false_eq_true,
      true_and]

theorem mem_shrinkEntries {limit : ℕ} {es : List (κ × ν)} (h : es.Pairwise (·.1 < ·.1))
    {e : κ × ν} :
    e ∈ shrinkEntries limit es ↔ e ∈ es ∧ e.1 ∈ newest limit (keysOf es) := by
  induction es with
  | nil => simp [shrinkEntries]
  | cons e' es ih =>
    obtain ⟨hlt, hes⟩ := List.pairwise_cons.mp h
    have hmin : ∀ k ∈ keysOf es, e'.1 < k := fun k hk => by
      obtain ⟨v, hv⟩ := mem_keysOf.mp hk
      exact hlt (k, v) hv
    have hnot : e'.1 ∉ keysOf es := fun hk => lt_irrefl _ (hmin _ hk)
    rw [shrinkEntries, keysOf_cons, newest_insert_of_lt hmin, card_keysOf hes, List.length_cons]
    split_ifs with hlong hfits hfits
    · omega
    · -- there are too many entries, and the first one is erased
      rw [ih hes, List.mem_cons]
      constructor
      · rintro ⟨hmem, hnew⟩
        exact ⟨Or.inr hmem, hnew⟩
      · rintro ⟨rfl | hmem, hnew⟩
        · exact absurd (newest_subset _ _ hnew) hnot
        · exact ⟨hmem, hnew⟩
    · refine ⟨fun hmem => ⟨hmem, ?_⟩, And.left⟩
      have hall : newest limit (keysOf es) = keysOf es :=
        newest_of_card_le (by rw [card_keysOf hes]; omega)
      rw [hall, ← keysOf_cons]
      exact mem_keysOf.mpr ⟨e.2, hmem⟩
    · omega

/-- **Erasing from the front** leaves the entries of the greatest keys. -/
theorem mem_shrink {limit : ℕ} {e : κ × ν} :
    e ∈ (m.shrink limit).entries ↔ e ∈ m.entries ∧ e.1 ∈ newest limit m.keys :=
  mem_shrinkEntries m.sorted

/-! ### Searches -/

theorem lowerBound_eq_none_iff {k : κ} : m.lowerBound k = none ↔ ∀ e ∈ m.entries, e.1 < k := by
  rw [lowerBound, List.find?_eq_none]
  simp only [decide_eq_true_eq, not_le]

/-- What a search gives has a least key. -/
theorem isLeast_of_lowerBound {k : κ} {e : κ × ν} (h : m.lowerBound k = some e) :
    e ∈ m.entries ∧ IsLeast {k' | k' ∈ m.keys ∧ k ≤ k'} e.1 := by
  obtain ⟨hle, before, after, hentries, hbefore⟩ := List.find?_eq_some_iff_append.mp h
  have hmem : e ∈ m.entries := List.mem_of_find?_eq_some h
  refine ⟨hmem, ⟨mem_keys_of_mem hmem, of_decide_eq_true hle⟩, ?_⟩
  rintro k' ⟨hk', hkk'⟩
  obtain ⟨v, hv⟩ := mem_keys.mp hk'
  have hsorted := m.sorted
  rw [hentries] at hsorted hv
  rcases List.mem_append.mp hv with hv | hv
  · exact absurd hkk' (by simpa using hbefore _ hv)
  · rcases List.mem_cons.mp hv with rfl | hv
    · exact le_refl _
    · exact ((List.pairwise_cons.mp (List.pairwise_append.mp hsorted).2.1).1 _ hv).le

/-- **A search gives the entry of the least key that is not less.** -/
theorem lowerBound_eq_some_iff {k : κ} {e : κ × ν} :
    m.lowerBound k = some e ↔ e ∈ m.entries ∧ IsLeast {k' | k' ∈ m.keys ∧ k ≤ k'} e.1 := by
  refine ⟨isLeast_of_lowerBound, ?_⟩
  rintro ⟨hmem, hleast⟩
  cases hfound : m.lowerBound k with
  | none => exact absurd hleast.1.2 (not_le.mpr (lowerBound_eq_none_iff.mp hfound e hmem))
  | some e' =>
    obtain ⟨hmem', hleast'⟩ := isLeast_of_lowerBound hfound
    rw [eq_of_mem hmem' hmem (hleast'.unique hleast)]

/-- What the end of the map gives has the greatest key. -/
theorem isGreatest_of_last {e : κ × ν} (h : m.last = some e) :
    e ∈ m.entries ∧ IsGreatest (m.keys : Set κ) e.1 := by
  obtain ⟨before, hentries⟩ := List.getLast?_eq_some_iff.mp h
  have hmem : e ∈ m.entries := List.mem_of_getLast? h
  refine ⟨hmem, mem_keys_of_mem hmem, fun k hk => ?_⟩
  obtain ⟨v, hv⟩ := mem_keys.mp hk
  have hsorted := m.sorted
  rw [hentries] at hsorted hv
  rcases List.mem_append.mp hv with hv | hv
  · exact ((List.pairwise_append.mp hsorted).2.2 _ hv _ (List.mem_singleton_self e)).le
  · rw [← List.mem_singleton.mp hv]

/-- **The end of the map has its greatest key.** -/
theorem last_eq_some_iff {e : κ × ν} :
    m.last = some e ↔ e ∈ m.entries ∧ IsGreatest (m.keys : Set κ) e.1 := by
  refine ⟨isGreatest_of_last, ?_⟩
  rintro ⟨hmem, hgreatest⟩
  cases hfound : m.last with
  | none => rw [List.getLast?_eq_none_iff.mp hfound] at hmem; cases hmem
  | some e' =>
    obtain ⟨hmem', hgreatest'⟩ := isGreatest_of_last hfound
    rw [eq_of_mem hmem' hmem (hgreatest'.unique hgreatest)]

end OrderedMap
