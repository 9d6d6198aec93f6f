import NetSentry.Core.ConfigManager

/-!
# Integer settings that are loaded from a file

`not_loaded`: a setting that the program reads as a `uint16_t` or `uint32_t` and that the file
assigns a number is never the setting the program uses.  `parseYaml` stores every number as an
`int64_t`, and `get` returns a value at the type it is stored with only.

* `values_parseYamlLine_of_ne`: a line changes the key it assigns and no other.
* `parseLine_keyValue`, `guessType_decimal`: what `parseYaml` makes of the line `key: value`.
* `lookup_loadFromFile`: what is stored for a key that is last assigned by such a line.
-/

namespace NetSentry.ConfigManager

open Bytes

/-! ### Reading a stored value -/

@[simp] theorem lookup_set_self (c : ConfigManager) (T : ConfigType) (key : Bytes)
    (value : T.Value) : (c.set T key value).values.lookup key = some ⟨T, value⟩ :=
  Finmap.lookup_insert c.values

theorem lookup_set_of_ne (c : ConfigManager) (T : ConfigType) {key k : Bytes} (value : T.Value)
    (h : k ≠ key) : (c.set T key value).values.lookup k = c.values.lookup k :=
  Finmap.lookup_insert_of_ne c.values h

theorem get_of_lookup_ne {c : ConfigManager} {key : Bytes} {entry : ConfigEntry}
    (h : c.values.lookup key = some entry) {T : ConfigType} (hT : T ≠ entry.1) :
    c.get T key = none := by
  rw [get, h]
  exact dif_neg hT

theorem getOrDefault_of_get_eq_none {c : ConfigManager} {T : ConfigType} {key : Bytes}
    (h : c.get T key = none) (default : T.Value) : c.getOrDefault T key default = default := by
  rw [getOrDefault, h]

/-! ### Other keys -/

theorem values_parseYamlValue_of_ne (c : ConfigManager) (T : ConfigType) {key k : Bytes}
    (value : Bytes) (h : k ≠ key) :
    (c.parseYamlValue T key value).values.lookup k = c.values.lookup k := by
  unfold parseYamlValue
  cases parsedValue T value with
  | none => rfl
  | some v => exact lookup_set_of_ne c T v h

/-- **A line changes the key it assigns** and no other. -/
theorem values_parseYamlLine_of_ne (c : ConfigManager) {line k : Bytes}
    (h : ∀ assignment ∈ parseLine line, assignment.1 ≠ k) :
    (c.parseYamlLine line).values.lookup k = c.values.lookup k := by
  unfold parseYamlLine
  cases hline : parseLine line with
  | none => rfl
  | some assignment =>
    exact values_parseYamlValue_of_ne c _ _ (h assignment (by rw [hline]; rfl)).symm

theorem values_foldl_of_ne {k : Bytes} {lines : List Bytes}
    (h : ∀ line ∈ lines, ∀ assignment ∈ parseLine line, assignment.1 ≠ k) (c : ConfigManager) :
    (lines.foldl parseYamlLine c).values.lookup k = c.values.lookup k := by
  induction lines generalizing c with
  | nil => rfl
  | cons line lines ih =>
    rw [List.foldl_cons, ih fun l hl => h l (List.mem_cons_of_mem _ hl),
      values_parseYamlLine_of_ne c (h line (by simp))]

/-! ### Lines that assign a value -/

/-- No white space at either end. -/
def Trimmed (s : Bytes) : Prop :=
  (∀ c ∈ s.head?, isSpace c = false) ∧ ∀ c ∈ s.getLast?, isSpace c = false

/-- No end of a line, which the regular expression's dot does not match. -/
def OneLine (s : Bytes) : Prop := 10 ∉ s ∧ 13 ∉ s

/-- A key that a line can begin with and that is read back from it. -/
def LineKey (key : Bytes) : Prop :=
  key ≠ [] ∧ key.head? ≠ some 35 ∧ 58 ∉ key ∧ OneLine key ∧ Trimmed key

instance (s : Bytes) : Decidable (Trimmed s) := inferInstanceAs (Decidable (_ ∧ _))

instance (s : Bytes) : Decidable (OneLine s) := inferInstanceAs (Decidable (_ ∧ _))

instance (key : Bytes) : Decidable (LineKey key) :=
  inferInstanceAs (Decidable (_ ∧ _ ∧ _ ∧ _ ∧ _))

/-- A key that a line can begin with: no white space, no colon and not the start of a comment. -/
def PlainKey (key : Bytes) : Prop :=
  key ≠ [] ∧ key.head? ≠ some 35 ∧ 58 ∉ key ∧ ∀ c ∈ key, isSpace c = false

instance (key : Bytes) : Decidable (PlainKey key) :=
  inferInstanceAs (Decidable (_ ∧ _ ∧ _ ∧ _))

theorem trimmed_of_forall {s : Bytes} (h : ∀ c ∈ s, isSpace c = false) : Trimmed s :=
  ⟨fun c hc => h c (List.mem_of_mem_head? hc), fun c hc => h c (List.mem_of_mem_getLast? hc)⟩

theorem oneLine_of_forall {s : Bytes} (h : ∀ c ∈ s, isSpace c = false) : OneLine s :=
  ⟨fun hmem => absurd (h 10 hmem) (by decide), fun hmem => absurd (h 13 hmem) (by decide)⟩

theorem PlainKey.lineKey {key : Bytes} (h : PlainKey key) : LineKey key := by
  obtain ⟨hne, hcomment, hcolon, hspace⟩ := h
  exact ⟨hne, hcomment, hcolon, oneLine_of_forall hspace, trimmed_of_forall hspace⟩

theorem isBlank_eq_false {c : UInt8} (h : isSpace c = false) : isBlank c = false := by
  have h32 : c ≠ 32 := by
    rintro rfl
    cases h
  have h9 : c ≠ 9 := by
    rintro rfl
    cases h
  simp [isBlank, h32, h9]

theorem dropWhile_eq_self {s : Bytes} {p : UInt8 → Bool} (h : ∀ c ∈ s.head?, p c = false) :
    s.dropWhile p = s := by
  cases s with
  | nil => rfl
  | cons c s => exact List.dropWhile_cons_of_neg (by simp [h c rfl])

theorem trim_eq_self {s : Bytes} (h : Trimmed s) : trim s = s := by
  have hhead : s.dropWhile isBlank = s :=
    dropWhile_eq_self fun c hc => isBlank_eq_false (h.1 c hc)
  have hlast : s.reverse.dropWhile isBlank = s.reverse := by
    apply dropWhile_eq_self
    intro c hc
    rw [List.head?_reverse] at hc
    exact isBlank_eq_false (h.2 c hc)
  rw [trim, hhead, List.rdropWhile, hlast, List.reverse_reverse]

/-- **The line `key: value`** assigns the value to the key. -/
theorem parseLine_keyValue {key value : Bytes} (hkey : LineKey key) (htrim : Trimmed value)
    (hone : OneLine value) : parseLine (key ++ ascii ": " ++ value) = some (key, value) := by
  obtain ⟨hne, hcomment, hcolon, -, hkeyTrim⟩ := hkey
  have hline : key ++ ascii ": " ++ value = key ++ 58 :: 32 :: value := by
    rw [show ascii ": " = [58, 32] by decide, List.append_assoc]
    rfl
  have hfind : Search.find [58] (key ++ 58 :: 32 :: value) = some key.length :=
    Search.find_singleton_append _ hcolon
  have hafter : ((key ++ 58 :: 32 :: value).drop (key.length + 1)).dropWhile isSpace = value := by
    rw [← List.drop_drop, List.drop_left, List.drop_one, List.tail_cons,
      List.dropWhile_cons_of_pos (by decide), dropWhile_eq_self htrim.1]
  have hnoend : (value.any fun c => c = 10 || c = 13) = false := by
    rw [List.any_eq_false]
    intro c hc hend
    rcases (show c = 10 ∨ c = 13 by simpa using hend) with rfl | rfl
    · exact hone.1 hc
    · exact hone.2 hc
  -- the line begins as the key does
  have hhead : (key ++ 58 :: 32 :: value).head? ≠ some 35 := by
    obtain ⟨c, key, rfl⟩ := List.exists_cons_of_ne_nil hne
    exact hcomment
  rw [hline, parseLine, if_neg (not_or.mpr ⟨by simp, hhead⟩), matchKeyValue, hfind]
  simp only [List.take_left, hafter, dropWhile_eq_self hkeyTrim.1, hnoend, hne, or_self, if_false,
    Bool.false_eq_true, Option.map_some, trim_eq_self hkeyTrim, trim_eq_self htrim]

/-- The line `key: value` assigns the value to the key. -/
theorem parseLine_assignment {key value : Bytes} (hkey : PlainKey key)
    (hvalue : ∀ c ∈ value, isSpace c = false) :
    parseLine (key ++ ascii ": " ++ value) = some (key, value) :=
  parseLine_keyValue hkey.lineKey (trimmed_of_forall hvalue) (oneLine_of_forall hvalue)

/-! ### Numerals -/

theorem guessType_of_matchesInteger {value : Bytes} (h : matchesInteger value = true) :
    guessType value = .int64 := by
  -- none of the words of `bool` is a numeral
  have hword : value ∉ ["true", "false", "yes", "no", "on", "off"].map ascii := by
    intro hmem
    have hno : ∀ w ∈ ["true", "false", "yes", "no", "on", "off"].map ascii,
        matchesInteger w = false := by decide +kernel
    rw [hno value hmem] at h
    cases h
  rw [guessType, if_neg hword, if_pos h]

theorem matchesInteger_decimal (v : ℕ) : matchesInteger (decimal v) = true := by
  have hdigits := forall_isDigit_decimal v
  have hsign : (decimal v).head? ≠ some 45 := by
    intro hhead
    exact absurd (hdigits 45 (List.mem_of_mem_head? hhead)) (by decide)
  unfold matchesInteger
  simp only [if_neg hsign, Bool.and_eq_true, decide_eq_true_eq, List.all_eq_true]
  exact ⟨decimal_ne_nil v, hdigits⟩

theorem guessType_decimal (v : ℕ) : guessType (decimal v) = .int64 :=
  guessType_of_matchesInteger (matchesInteger_decimal v)

/-- **A number is stored as an `int64_t`.** -/
theorem lookup_parseYamlLine_decimal (c : ConfigManager) {key : Bytes} (hkey : PlainKey key) {v : ℕ}
    (hv : v < 2 ^ 63) :
    (c.parseYamlLine (key ++ ascii ": " ++ decimal v)).values.lookup key
      = some ⟨.int64, Int64.ofInt v⟩ := by
  have hspace : ∀ c ∈ decimal v, isSpace c = false := by
    intro c hc
    exact not_isSpace_of_isDigit (forall_isDigit_decimal v c hc)
  have hread : stoll (decimal v) = some (v : ℤ) := by
    rw [stoll, strtol_decimal, Option.filter_some_pos]
    simp only [decide_eq_true_eq]
    omega
  rw [parseYamlLine, parseLine_assignment hkey hspace]
  simp only [guessType_decimal]
  rw [parseYamlValue, parsedValue, hread, Option.map_some, Option.elim_some]
  exact lookup_set_self c .int64 key _

/-! ### Files -/

/-- The last line of the text that assigns the key is `key: value`. -/
def LastAssignment (content key value : Bytes) : Prop :=
  ∃ before after, getlines content = before ++ (key ++ ascii ": " ++ value) :: after ∧
    ∀ line ∈ after, ∀ assignment ∈ parseLine line, assignment.1 ≠ key

theorem lookup_loadFromFile (c : ConfigManager) {content key : Bytes} (hkey : PlainKey key) {v : ℕ}
    (hv : v < 2 ^ 63) (h : LastAssignment content key (decimal v)) :
    (c.loadFromFile (some content)).2.values.lookup key = some ⟨.int64, Int64.ofInt v⟩ := by
  obtain ⟨before, after, hlines, hafter⟩ := h
  rw [loadFromFile, parseYaml, hlines, List.foldl_append, List.foldl_cons,
    values_foldl_of_ne hafter, lookup_parseYamlLine_decimal _ hkey hv]

/-- The settings that are read as `uint16_t`. -/
def uint16Keys : List Bytes := ["api_port", "web_port"].map ascii

/-- The settings that are read as `uint32_t`. -/
def uint32Keys : List Bytes :=
  ["cpu_threshold_warning", "cpu_threshold_critical", "memory_threshold_warning",
    "memory_threshold_critical", "metric_retention_seconds", "alert_cooldown_seconds",
    "cleanup_interval_seconds", "metrics_max_age_days", "connections_max_age_days",
    "alerts_max_age_days"].map ascii

theorem plainKey_of_mem : ∀ key ∈ uint16Keys ++ uint32Keys, PlainKey key := by decide +kernel

/-- A number that is loaded from a file is there for the readers of `int64_t` only; all the others
get their default. -/
theorem get_loadFromFile_of_ne (c : ConfigManager) {content key : Bytes} (hkey : PlainKey key)
    {v : ℕ} (hv : v < 2 ^ 63) (h : LastAssignment content key (decimal v)) {T : ConfigType}
    (hT : T ≠ .int64) :
    (c.loadFromFile (some content)).2.get T key = none ∧
      ∀ d, (c.loadFromFile (some content)).2.getOrDefault T key d = d := by
  have hget := get_of_lookup_ne (lookup_loadFromFile c hkey hv h) hT
  exact ⟨hget, getOrDefault_of_get_eq_none hget⟩

/-- **A number in the file is not the setting the program uses**, at either type. -/
theorem not_loaded (c : ConfigManager) (content : Bytes) :
    (∀ key ∈ uint16Keys, ∀ v : UInt16, LastAssignment content key (decimal v.toNat) →
      ¬ ((c.loadFromFile (some content)).2.get .uint16 key = some v ∧
        ∀ d, (c.loadFromFile (some content)).2.getOrDefault .uint16 key d = v)) ∧
    (∀ key ∈ uint32Keys, ∀ v : UInt32, LastAssignment content key (decimal v.toNat) →
      ¬ ((c.loadFromFile (some content)).2.get .uint32 key = some v ∧
        ∀ d, (c.loadFromFile (some content)).2.getOrDefault .uint32 key d = v)) := by
  constructor
  · intro key hkey v hlast
    have hv := v.toNat_lt
    have hplain := plainKey_of_mem key (List.mem_append_left _ hkey)
    rw [(get_loadFromFile_of_ne c hplain (by omega) hlast (T := .uint16) (by decide)).1]
    rintro ⟨h, -⟩
    cases h
  · intro key hkey v hlast
    have hv := v.toNat_lt
    have hplain := plainKey_of_mem key (List.mem_append_right _ hkey)
    rw [(get_loadFromFile_of_ne c hplain (by omega) hlast (T := .uint32) (by decide)).1]
    rintro ⟨h, -⟩
    cases h

/-- A file that sets the port of the API. -/
def portFile : Bytes := ascii "# API settings\napi_port: 9000\nenable_api: true\n"

theorem lastAssignment_portFile : LastAssignment portFile (ascii "api_port") (decimal 9000) :=
  ⟨[ascii "# API settings"], [ascii "enable_api: true"], by decide +kernel, by decide +kernel⟩

theorem not_loaded_portFile :
    ¬ ((create.loadFromFile (some portFile)).2.get .uint16 (ascii "api_port") = some 9000 ∧
      ∀ d, (create.loadFromFile (some portFile)).2.getOrDefault .uint16 (ascii "api_port") d
        = 9000) :=
  (not_loaded create portFile).1 (ascii "api_port") (by decide) 9000 lastAssignment_portFile

/-- The port in the file is not used. -/
theorem not_forall_loaded :
    ¬ ∀ (c : ConfigManager) (content : Bytes),
      (∀ key ∈ uint16Keys, ∀ v : UInt16, LastAssignment content key (decimal v.toNat) →
        (c.loadFromFile (some content)).2.get .uint16 key = some v ∧
          ∀ d, (c.loadFromFile (some content)).2.getOrDefault .uint16 key d = v) ∧
      (∀ key ∈ uint32Keys, ∀ v : UInt32, LastAssignment content key (decimal v.toNat) →
        (c.loadFromFile (some content)).2.get .uint32 key = some v ∧
          ∀ d, (c.loadFromFile (some content)).2.getOrDefault .uint32 key d = v) := by
  intro h
  have hget := ((h create portFile).1 (ascii "api_port") (by decide) 9000
    lastAssignment_portFile).1
  exact absurd hget (by decide +kernel)

end NetSentry.ConfigManager
