import NetSentry.Core.Equiv.ConfigManager
import NetSentry.Lib.KeyedFold

/-!
# What a configuration file stores for a key

`lookup_parseYaml`: a key has what the last line that stores it gives, or what it had.
-/

namespace NetSentry.ConfigManager

open Bytes KeyedFold

/-- What a line stores: the key, and the entry that its value gives. -/
def stores (line : Bytes) : Option (Bytes × ConfigEntry) :=
  (parseLine line).bind fun (key, value) =>
    (parsedValue (guessType value) value).map fun v => (key, ⟨guessType value, v⟩)

/-- What a key has after these lines: what the last line that stores it gives, or what it had. -/
def settled (c : ConfigManager) (lines : List Bytes) (key : Bytes) : Option ConfigEntry :=
  (lastOf (lines.filterMap stores) key).or (c.values.lookup key)

/-- One of the lines stores the key. -/
def StoredBy (lines : List Bytes) (key : Bytes) : Prop :=
  ∃ line ∈ lines, ∃ entry, stores line = some (key, entry)

/-! ### One line -/

/-- An entry has the type that its value is taken for. -/
theorem type_of_stores {line key value : Bytes} {k : Bytes} {entry : ConfigEntry}
    (hline : parseLine line = some (key, value)) (h : stores line = some (k, entry)) :
    k = key ∧ entry.1 = guessType value := by
  rw [stores, hline] at h
  obtain ⟨v, -, hv⟩ := Option.map_eq_some_iff.mp h
  obtain ⟨rfl, rfl⟩ := Prod.mk.inj hv
  exact ⟨rfl, rfl⟩

/-- **One line** stores what it gives for its key. -/
theorem lookup_parseYamlLine (c : ConfigManager) (line key : Bytes) :
    (c.parseYamlLine line).values.lookup key = settled c [line] key := by
  rw [settled, parseYamlLine, List.filterMap_cons, List.filterMap_nil, stores]
  cases parseLine line with
  | none => rfl
  | some assignment =>
    obtain ⟨k, value⟩ := assignment
    simp only [Option.bind_some, parseYamlValue]
    cases parsedValue (guessType value) value with
    | none => rfl
    | some v =>
      rw [Option.elim_some, Option.map_some, lastOf_singleton]
      by_cases hk : k = key
      · rw [if_pos hk, ← hk]
        exact lookup_set_self c _ k v
      · rw [if_neg hk, Option.none_or]
        exact lookup_set_of_ne c _ v (Ne.symm hk)

/-! ### All lines -/

theorem settled_append (c : ConfigManager) (ls ls' : List Bytes) (key : Bytes) :
    settled c (ls ++ ls') key = (lastOf (ls'.filterMap stores) key).or (settled c ls key) := by
  rw [settled, List.filterMap_append, lastOf_append, Option.or_assoc, settled]

theorem lookup_foldl_parseYamlLine (c : ConfigManager) (lines : List Bytes) (key : Bytes) :
    (lines.foldl parseYamlLine c).values.lookup key = settled c lines key := by
  induction lines using List.reverseRecOn with
  | nil => rfl
  | append_singleton lines line ih =>
    rw [List.foldl_append, List.foldl_cons, List.foldl_nil, lookup_parseYamlLine, settled, ih,
      settled_append]

/-- **A key has what the last line that stores it gives.** -/
theorem lookup_parseYaml (c : ConfigManager) (content key : Bytes) :
    (c.parseYaml content).2.values.lookup key = settled c (getlines content) key :=
  lookup_foldl_parseYamlLine c (getlines content) key

theorem storedBy_iff {lines : List Bytes} {key : Bytes} :
    StoredBy lines key ↔ lastOf (lines.filterMap stores) key ≠ none := by
  rw [ne_eq, lastOf_eq_none_iff]
  constructor
  · rintro ⟨line, hline, entry, hstores⟩ hnone
    exact hnone _ (List.mem_filterMap.mpr ⟨line, hline, hstores⟩) rfl
  · intro h
    by_contra hno
    refine h fun pair hpair hkey => hno ?_
    obtain ⟨line, hline, hstores⟩ := List.mem_filterMap.mp hpair
    exact ⟨line, hline, pair.2, by rw [hstores, ← hkey]⟩

end NetSentry.ConfigManager
