import Mathlib.Data.List.Infix

/-!
# The first occurrence of a pattern in a list

`find pat s` is the index of the first occurrence of the pattern `pat` in `s`, `findFrom pat s pos`
the first one at `pos` or later, and `split pat s` the pieces of `s` between the successive
occurrences.

* `find_append`: where no occurrence begins inside `l`, searching `l ++ r` is searching `r`.
* `find_some` and `find_eq_none_iff`: what the two results mean.
* `find_singleton_append` and `find_pair_append`: the first occurrence of a one-element pattern, and
  of a pattern of two different elements, after a part that is free of it.
* `split_append`: splitting after a piece that is free of the pattern.
-/

namespace Search

variable {α : Type*} [DecidableEq α]

/-- The index of the first occurrence of `pat` in a list. -/
def find (pat : List α) : List α → Option ℕ
  | [] => if pat = [] then some 0 else none
  | c :: s => if pat <+: c :: s then some 0 else (find pat s).map (· + 1)

/-- The index of the first occurrence of `pat` in `s` that begins at `pos` or later. -/
def findFrom (pat s : List α) (pos : ℕ) : Option ℕ :=
  if pos ≤ s.length then (find pat (s.drop pos)).map (· + pos) else none

/-! ### The two results of a search -/

theorem find_of_isPrefix {pat s : List α} (h : pat <+: s) : find pat s = some 0 := by
  cases s with
  | nil => rw [find, if_pos (List.prefix_nil.mp h)]
  | cons c s => rw [find, if_pos h]

/-- **Skipping a part without an occurrence.** -/
theorem find_append {pat : List α} : ∀ {l r : List α},
    (∀ j < l.length, ¬ pat <+: (l ++ r).drop j) →
      find pat (l ++ r) = (find pat r).map (· + l.length)
  | [], r, _ => by simp
  | c :: l, r, h => by
    have h0 : ¬ pat <+: c :: (l ++ r) := h 0 (by simp)
    have hrest : ∀ j < l.length, ¬ pat <+: (l ++ r).drop j := fun j hj => by
      simpa using h (j + 1) (by simpa using hj)
    rw [List.cons_append, find, if_neg h0, find_append hrest, Option.map_map]
    congr 1

theorem find_some {pat : List α} : ∀ {s : List α} {i : ℕ}, find pat s = some i →
    pat <+: s.drop i ∧ ∀ j < i, ¬ pat <+: s.drop j
  | [], i, h => by
    rw [find] at h
    split_ifs at h with hp
    obtain rfl := Option.some.inj h
    exact ⟨by simp [hp], fun j hj => absurd hj (Nat.not_lt_zero j)⟩
  | c :: s, i, h => by
    rw [find] at h
    split_ifs at h with hp
    · obtain rfl := Option.some.inj h
      exact ⟨by simpa using hp, fun j hj => absurd hj (Nat.not_lt_zero j)⟩
    · obtain ⟨i', hi', rfl⟩ := Option.map_eq_some_iff.mp h
      obtain ⟨hpre, hmin⟩ := find_some hi'
      refine ⟨by simpa using hpre, fun j hj => ?_⟩
      cases j with
      | zero => simpa using hp
      | succ j => simpa using hmin j (by omega)

theorem find_eq_none_iff {pat : List α} : ∀ {s : List α},
    find pat s = none ↔ ¬ pat <:+: s
  | [] => by simp [find]
  | c :: s => by
    rw [find, List.infix_cons_iff]
    split_ifs with hp
    · simp [hp]
    · rw [Option.map_eq_none_iff, find_eq_none_iff]
      simp [hp]

/-- An occurrence lies inside the list it was found in. -/
theorem find_add_length_le {pat s : List α} {i : ℕ} (h : find pat s = some i) :
    i + pat.length ≤ s.length := by
  have hlen := (find_some h).1.length_le
  rw [List.length_drop] at hlen
  rcases Nat.lt_or_ge i s.length with hi | hi
  · omega
  · -- past the end only the empty pattern occurs, and it occurs first at `0`
    have hpat : pat = [] := List.length_eq_zero_iff.mp (by omega)
    rw [find_of_isPrefix (by rw [hpat]; exact List.nil_prefix)] at h
    obtain rfl := Option.some.inj h
    simp [hpat]

/-- What comes behind does not matter where there is an occurrence. -/
theorem find_append_of_some {pat : List α} : ∀ {s : List α} {i : ℕ} (t : List α),
    find pat s = some i → find pat (s ++ t) = some i
  | [], i, t, h => by
    rw [find] at h
    split_ifs at h with hpat
    rw [List.nil_append, find_of_isPrefix (hpat ▸ List.nil_prefix), h]
  | c :: s, i, t, h => by
    have hle := find_add_length_le h
    rw [find] at h
    split_ifs at h with hp
    · rw [find_of_isPrefix (hp.trans (List.prefix_append _ t)), h]
    · obtain ⟨i', hi', rfl⟩ := Option.map_eq_some_iff.mp h
      -- an occurrence at the beginning would lie inside `c :: s`
      have hnot : ¬ pat <+: c :: (s ++ t) := by
        intro hpre
        exact hp (List.prefix_of_prefix_length_le hpre (List.prefix_append (c :: s) t) (by omega))
      rw [List.cons_append, find, if_neg hnot, find_append_of_some t hi']
      rfl

theorem findFrom_of_le {pat s : List α} {pos : ℕ} (h : pos ≤ s.length) :
    findFrom pat s pos = (find pat (s.drop pos)).map (· + pos) := by
  rw [findFrom, if_pos h]

theorem findFrom_zero (pat s : List α) : findFrom pat s 0 = find pat s := by
  rw [findFrom_of_le (Nat.zero_le _), List.drop_zero]
  exact Option.map_id'

theorem findFrom_some {pat s : List α} {pos i : ℕ} (h : findFrom pat s pos = some i) :
    pos ≤ i ∧ i + pat.length ≤ s.length := by
  rw [findFrom] at h
  split_ifs at h with hpos
  obtain ⟨j, hj, rfl⟩ := Option.map_eq_some_iff.mp h
  have hlen := find_add_length_le hj
  rw [List.length_drop] at hlen
  omega

theorem le_getD_findFrom {pat s : List α} {pos : ℕ} (h : pos ≤ s.length) :
    pos ≤ (findFrom pat s pos).getD s.length := by
  cases hfind : findFrom pat s pos with
  | none => exact h
  | some i => exact (findFrom_some hfind).1

/-! ### Patterns of one and of two elements -/

omit [DecidableEq α] in
theorem not_isPrefix_drop_of_not_mem {a : α} {l r : List α} (h : a ∉ l) :
    ∀ j < l.length, ¬ [a] <+: (l ++ r).drop j := by
  intro j hj hpre
  rw [List.drop_append_of_le_length hj.le, List.drop_eq_getElem_cons hj, List.cons_append,
    List.cons_prefix_cons] at hpre
  exact h (hpre.1 ▸ List.getElem_mem hj)

theorem find_singleton_append {a : α} {l : List α} (r : List α) (h : a ∉ l) :
    find [a] (l ++ a :: r) = some l.length := by
  rw [find_append (not_isPrefix_drop_of_not_mem h), find_of_isPrefix (by simp)]
  simp

theorem find_singleton_eq_none {a : α} {l : List α} (h : a ∉ l) : find [a] l = none := by
  rw [find_eq_none_iff]
  exact fun hin => h (List.singleton_infix_iff _ _ |>.mp hin)

/-- What stands around the first occurrence of an element. -/
theorem find_singleton_some {a : α} {s : List α} {i : ℕ} (h : find [a] s = some i) :
    ∃ before after, s = before ++ a :: after ∧ a ∉ before ∧ before.length = i := by
  have hmem : a ∈ s := by
    by_contra hno
    rw [find_singleton_eq_none hno] at h
    cases h
  obtain ⟨before, after, rfl, hbefore⟩ := List.eq_append_cons_of_mem hmem
  rw [find_singleton_append after hbefore] at h
  exact ⟨before, after, rfl, hbefore, Option.some.inj h⟩

omit [DecidableEq α] in
/-- Two different elements in a row cannot begin inside a part that is free of them when what
follows does not begin with the second one. -/
theorem not_isPrefix_drop_of_not_isInfix {a b : α} {l r : List α} (h : ¬ [a, b] <:+: l)
    (hr : r.head? ≠ some b) : ∀ j < l.length, ¬ [a, b] <+: (l ++ r).drop j := by
  intro j hj hpre
  rw [List.drop_append_of_le_length hj.le] at hpre
  rcases Nat.lt_or_ge (j + 1) l.length with hj1 | hj1
  · -- both elements lie inside `l`
    refine h ((List.prefix_of_prefix_length_le hpre (List.prefix_append _ r) ?_).isInfix.trans
      (List.drop_suffix j l).isInfix)
    rw [List.length_drop, List.length_cons, List.length_singleton]
    omega
  · -- the first one is the last element of `l`
    rw [List.drop_eq_getElem_cons hj, List.drop_of_length_le hj1, List.cons_append,
      List.cons_prefix_cons, List.nil_append] at hpre
    obtain ⟨t, ht⟩ := hpre.2
    exact hr (by rw [← ht]; rfl)

omit [DecidableEq α] in
/-- Two parts free of a pair stay free of it together when the pair is not formed where they
meet. -/
theorem not_infix_append {a b : α} {l r : List α} (hl : ¬ [a, b] <:+: l) (hr : ¬ [a, b] <:+: r)
    (hmeet : r.head? ≠ some b ∨ l.getLast? ≠ some a) : ¬ [a, b] <:+: l ++ r := by
  intro h
  rw [List.infix_append_iff] at h
  rcases h with h | h | ⟨t₁, t₂, hsplit, hsuffix, hprefix⟩
  · exact hl h
  · exact hr h
  · match t₁, t₂, hsplit with
    | [], t₂, hsplit =>
      rw [List.nil_append] at hsplit
      exact hr (hsplit ▸ hprefix.isInfix)
    | [x], [y], hsplit =>
      obtain ⟨rfl, rfl⟩ : a = x ∧ b = y := by simpa using hsplit
      rcases hmeet with hmeet | hmeet
      · obtain ⟨t, rfl⟩ := hprefix
        exact hmeet rfl
      · obtain ⟨t, rfl⟩ := hsuffix
        exact hmeet (by simp)
    | [x, y], [], hsplit =>
      rw [List.append_nil] at hsplit
      exact hl (hsplit ▸ hsuffix.isInfix)

theorem find_pair_append {a b : α} {l : List α} (r : List α) (hab : a ≠ b)
    (h : ¬ [a, b] <:+: l) : find [a, b] (l ++ a :: b :: r) = some l.length := by
  rw [find_append (not_isPrefix_drop_of_not_isInfix h (by simpa using hab)),
    find_of_isPrefix (by simp)]
  simp

/-! ### Splitting at every occurrence -/

/-- The pieces of `s` between the successive occurrences of `pat`; all of `s` where there is
none. -/
def split (pat s : List α) : List (List α) :=
  match _hfind : find pat s with
  | none => [s]
  | some i => if _hpat : pat = [] then [s] else s.take i :: split pat (s.drop (i + pat.length))
termination_by s.length
decreasing_by
  have hle := find_add_length_le _hfind
  have hpos : 0 < pat.length := List.length_pos_iff.mpr _hpat
  rw [List.length_drop]
  omega

theorem split_of_find_none {pat s : List α} (h : find pat s = none) : split pat s = [s] := by
  rw [split]
  split
  · rfl
  · next i hi => rw [h] at hi; cases hi

theorem split_of_find_some {pat s : List α} {i : ℕ} (hp : pat ≠ []) (h : find pat s = some i) :
    split pat s = s.take i :: split pat (s.drop (i + pat.length)) := by
  rw [split]
  split
  · next hn => rw [h] at hn; cases hn
  · next j hj =>
    rw [h] at hj
    obtain rfl := Option.some.inj hj
    rw [dif_neg hp]

theorem split_append {pat l r : List α} (hp : pat ≠ [])
    (h : find pat (l ++ (pat ++ r)) = some l.length) :
    split pat (l ++ (pat ++ r)) = l :: split pat r := by
  rw [split_of_find_some hp h, List.take_left, ← List.append_assoc,
    show l.length + pat.length = (l ++ pat).length by rw [List.length_append], List.drop_left]

/-- **Splitting undoes joining**: pieces that are free of a pair of different elements and are
joined by that pair are what splitting at it gives back. -/
theorem split_intercalate_pair {a b : α} (hab : a ≠ b) : ∀ {ls : List (List α)}, ls ≠ [] →
    (∀ l ∈ ls, ¬ [a, b] <:+: l) → split [a, b] ([a, b].intercalate ls) = ls
  | [l], _, hfree => by
    rw [List.intercalate_singleton, split_of_find_none (find_eq_none_iff.mpr (hfree l (by simp)))]
  | l :: l' :: ls, _, hfree => by
    rw [List.intercalate_cons_cons, List.append_assoc,
      split_append (by simp) (find_pair_append _ hab (hfree l (by simp))),
      split_intercalate_pair hab (by simp) fun m hm => hfree m (List.mem_cons_of_mem _ hm)]

/-- **The end of a block of lines**: the pair twice in a row first occurs after the lines that are
joined by it, when the lines are free of the pair and only the first one may be empty. -/
theorem find_twice_intercalate {a b : α} (hab : a ≠ b) (r : List α) : ∀ {l : List α}
    {ls : List (List α)}, ¬ [a, b] <:+: l → (∀ m ∈ ls, m ≠ [] ∧ ¬ [a, b] <:+: m) →
    find [a, b, a, b] ([a, b].intercalate (l :: ls) ++ a :: b :: a :: b :: r)
      = some ([a, b].intercalate (l :: ls)).length
  | l, [], hl, _ => by
    have hskip : ∀ j < l.length, ¬ [a, b, a, b] <+: (l ++ a :: b :: a :: b :: r).drop j :=
      fun j hj hpre => not_isPrefix_drop_of_not_isInfix hl (by simpa using hab) j hj
        ((List.prefix_append [a, b] [a, b]).trans hpre)
    rw [List.intercalate_singleton, find_append hskip, find_of_isPrefix (by simp)]
    simp
  | l, l' :: ls, hl, hls => by
    obtain ⟨hne, hfree⟩ := hls l' (by simp)
    set tail := [a, b].intercalate (l' :: ls) ++ a :: b :: a :: b :: r with htail
    have hih := find_twice_intercalate hab r hfree fun m hm => hls m (List.mem_cons_of_mem _ hm)
    rw [← htail] at hih
    -- the next line does not begin with the pair
    have hnext : ¬ [a, b] <+: tail := by
      obtain ⟨rest, hrest⟩ : ∃ rest, tail = l' ++ a :: rest := by
        cases ls with
        | nil => exact ⟨b :: a :: b :: r, by rw [htail, List.intercalate_singleton]⟩
        | cons m ls =>
          exact ⟨b :: ([a, b].intercalate (m :: ls) ++ a :: b :: a :: b :: r), by
            rw [htail, List.intercalate_cons_cons]
            simp⟩
      rw [hrest]
      exact not_isPrefix_drop_of_not_isInfix hfree (by simpa using hab) 0
        (List.length_pos_iff.mpr hne)
    have hskip : ∀ j < (l ++ [a, b]).length, ¬ [a, b, a, b] <+: ((l ++ [a, b]) ++ tail).drop j := by
      intro j hj hpre
      rw [List.length_append, List.length_cons, List.length_singleton] at hj
      have hpair := (List.prefix_append [a, b] [a, b]).trans hpre
      rw [List.append_assoc] at hpair hpre
      rcases Nat.lt_or_ge j l.length with hlt | hge
      · exact not_isPrefix_drop_of_not_isInfix hl (by simpa using hab) j hlt hpair
      · rw [List.drop_append, List.drop_of_length_le hge, List.nil_append] at hpre
        rcases (show j - l.length = 0 ∨ j - l.length = 1 by omega) with h0 | h1
        · rw [h0] at hpre
          exact hnext (by simpa using hpre)
        · rw [h1] at hpre
          exact hab (List.cons_prefix_cons.mp hpre).1
    have hjoin : [a, b].intercalate (l :: l' :: ls) ++ a :: b :: a :: b :: r
        = (l ++ [a, b]) ++ tail := by
      rw [List.intercalate_cons_cons, htail]
      simp
    rw [hjoin, find_append hskip, hih, List.intercalate_cons_cons]
    simp only [Option.map_some, List.length_append, Option.some.injEq]
    omega

end Search
