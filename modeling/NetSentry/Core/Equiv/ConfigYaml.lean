import NetSentry.Core.ConfigYaml
import NetSentry.Core.Equiv.ConfigManager

/-!
# Saving and loading the settings

`parseYaml_generateYaml`: loading the text that `generateYaml` writes gives the settings back,
whatever the order in which the unordered maps are visited.

* `parseYaml_yamlLine`: the line that is written for a setting stores the setting.
* `parseYaml_yamlLines`: so do the lines of several settings, one after the other.
* `parseYaml_yamlSections`: the comments and the empty lines around them store nothing.
* `lookup_restore`, `restore_all`: storing the settings of some keys again, and of all.
-/

namespace NetSentry.ConfigManager

open Bytes KeyedFold

variable {c : ConfigManager} {putDouble : Double → Bytes}

/-! ### Values -/

/-- The values that are read back at the type they are stored with: the types that `parseYaml`
stores but `double`, and strings of one line. -/
def Reloadable : ConfigEntry → Prop
  | ⟨.bool, _⟩ => True
  | ⟨.int64, _⟩ => True
  | ⟨.string, value⟩ => OneLine value
  | _ => False

instance : DecidablePred Reloadable := fun entry =>
  match entry with
  | ⟨.bool, _⟩ => .isTrue trivial
  | ⟨.int64, _⟩ => .isTrue trivial
  | ⟨.string, value⟩ => inferInstanceAs (Decidable (OneLine value))
  | ⟨.double, _⟩ => .isFalse id
  | ⟨.uint16, _⟩ => .isFalse id
  | ⟨.uint32, _⟩ => .isFalse id

theorem not_isSpace_signedDecimal (v : ℤ) : ∀ b ∈ signedDecimal v, isSpace b = false := by
  intro b hb
  rcases forall_mem_signedDecimal v b hb with rfl | hdigit
  · decide
  · exact not_isSpace_of_isDigit hdigit

theorem matchesInteger_signedDecimal (v : ℤ) : matchesInteger (signedDecimal v) = true := by
  rw [signedDecimal]
  split_ifs with hneg
  · have hdigits := forall_isDigit_decimal v.natAbs
    simp only [matchesInteger, List.head?_cons, if_true, List.tail_cons, Bool.and_eq_true,
      decide_eq_true_eq, List.all_eq_true]
    exact ⟨decimal_ne_nil _, hdigits⟩
  · exact matchesInteger_decimal _

/-- A text in quotes is neither a word of `bool` nor a numeral. -/
theorem guessType_quoted (value : Bytes) : guessType (34 :: (value ++ [34])) = .string := by
  have hword : 34 :: (value ++ [34]) ∉ ["true", "false", "yes", "no", "on", "off"].map ascii := by
    intro hmem
    have hno : ∀ w ∈ ["true", "false", "yes", "no", "on", "off"].map ascii,
        w.head? ≠ some 34 := by decide +kernel
    exact hno _ hmem rfl
  have hinteger : matchesInteger (34 :: (value ++ [34])) = false := by
    simp [matchesInteger, isDigit]
  have hdecimal : (matchDecimal (34 :: (value ++ [34]))).isSome = false := by
    simp [matchDecimal, isDigit]
  rw [guessType, if_neg hword, hinteger, hdecimal]
  rfl

theorem trimmed_quoted (value : Bytes) : Trimmed (34 :: (value ++ [34])) := by
  constructor
  · intro b hb
    obtain rfl : 34 = b := by simpa using hb
    decide
  · intro b hb
    rw [← List.cons_append, List.getLast?_concat] at hb
    obtain rfl : 34 = b := by simpa using hb
    decide

theorem oneLine_quoted {value : Bytes} (h : OneLine value) : OneLine (34 :: (value ++ [34])) := by
  constructor
  · simpa using h.1
  · simpa using h.2

theorem trimmed_yamlValue {entry : ConfigEntry} (h : Reloadable entry) :
    Trimmed (yamlValue putDouble entry) := by
  match entry, h with
  | ⟨.bool, value⟩, _ =>
    have hwords : ∀ b : Bool, Trimmed (ascii (if b then "true" else "false")) := by decide +kernel
    exact hwords value
  | ⟨.int64, value⟩, _ => exact trimmed_of_forall (not_isSpace_signedDecimal _)
  | ⟨.string, value⟩, _ => exact trimmed_quoted value

theorem oneLine_yamlValue {entry : ConfigEntry} (h : Reloadable entry) :
    OneLine (yamlValue putDouble entry) := by
  match entry, h with
  | ⟨.bool, value⟩, _ =>
    have hwords : ∀ b : Bool, OneLine (ascii (if b then "true" else "false")) := by decide +kernel
    exact hwords value
  | ⟨.int64, value⟩, _ => exact oneLine_of_forall (not_isSpace_signedDecimal _)
  | ⟨.string, value⟩, h => exact oneLine_quoted h

theorem stoll_signedDecimal (v : Int64) : stoll (signedDecimal v.toInt) = some v.toInt := by
  rw [stoll, strtol_signedDecimal, Option.filter_some_pos]
  exact decide_eq_true ⟨v.le_toInt, v.toInt_lt⟩

/-- The quotes are removed. -/
theorem parseYamlValue_quoted (s : ConfigManager) (key value : Bytes) :
    s.parseYamlValue .string key (34 :: (value ++ [34])) = s.set .string key value := by
  have hlast : (34 :: (value ++ [34])).getLast? = some 34 := by
    rw [← List.cons_append, List.getLast?_concat]
  have hinner : ((34 :: (value ++ [34])).drop 1).take ((34 :: (value ++ [34])).length - 2)
      = value := by simp
  unfold parseYamlValue parsedValue
  simp only [List.head?_cons, hlast, hinner, and_self, true_or, and_true]
  rw [if_pos (by simp), Option.elim_some]

/-- **What is written for a value is read as the value**, at its type. -/
theorem parseYamlValue_yamlValue (s : ConfigManager) (key : Bytes) {entry : ConfigEntry}
    (h : Reloadable entry) :
    s.parseYamlValue (guessType (yamlValue putDouble entry)) key (yamlValue putDouble entry)
      = s.set entry.1 key entry.2 := by
  match entry, h with
  | ⟨.bool, true⟩, _ =>
    have hguess : guessType (ascii "true") = .bool := by decide +kernel
    have hmem : ascii "true" ∈ ["true", "yes", "on", "1"].map ascii := by decide +kernel
    simp only [yamlValue, if_true, hguess]
    rw [parseYamlValue, parsedValue, if_pos hmem, Option.elim_some]
  | ⟨.bool, false⟩, _ =>
    have hguess : guessType (ascii "false") = .bool := by decide +kernel
    have hno : ascii "false" ∉ ["true", "yes", "on", "1"].map ascii := by decide +kernel
    have hmem : ascii "false" ∈ ["false", "no", "off", "0"].map ascii := by decide +kernel
    simp only [yamlValue, Bool.false_eq_true, if_false, hguess]
    rw [parseYamlValue, parsedValue, if_neg hno, if_pos hmem, Option.elim_some]
  | ⟨.int64, value⟩, _ =>
    simp only [yamlValue, guessType_of_matchesInteger (matchesInteger_signedDecimal _)]
    rw [parseYamlValue, parsedValue, stoll_signedDecimal, Option.map_some, Option.elim_some,
      Int64.ofInt_toInt]
  | ⟨.string, value⟩, _ =>
    simp only [yamlValue, guessType_quoted]
    exact parseYamlValue_quoted s key value

/-! ### Lines -/

/-- Reading the first line, and then the others. -/
theorem parseYaml_line (s : ConfigManager) {line : Bytes} (h : 10 ∉ line) (rest : Bytes) :
    s.parseYaml (line ++ 10 :: rest) = (s.parseYamlLine line).parseYaml rest := by
  rw [parseYaml, getlines_append h, List.foldl_cons, parseYaml]

theorem parseYaml_emptyLine (s : ConfigManager) (rest : Bytes) :
    s.parseYaml (10 :: rest) = s.parseYaml rest :=
  parseYaml_line s List.not_mem_nil rest

/-- A comment stores nothing. -/
theorem parseYaml_comment (s : ConfigManager) {text : Bytes} (h : 10 ∉ text) (rest : Bytes) :
    s.parseYaml (35 :: text ++ 10 :: rest) = s.parseYaml rest := by
  have hskip : parseLine (35 :: text) = none := if_pos (Or.inr rfl)
  rw [parseYaml_line s (by simpa using h), parseYamlLine, hskip]

/-- **The line of a setting** stores it. -/
theorem parseYaml_yamlLine (s : ConfigManager) {key : Bytes} {entry : ConfigEntry}
    (hentry : c.values.lookup key = some entry) (hkey : LineKey key) (hvalue : Reloadable entry)
    (rest : Bytes) :
    s.parseYaml (c.yamlLine putDouble key ++ rest)
      = (s.set entry.1 key entry.2).parseYaml rest := by
  have hone : OneLine (yamlValue putDouble entry) := oneLine_yamlValue hvalue
  have hline : 10 ∉ key ++ ascii ": " ++ yamlValue putDouble entry := by
    have hcolon : 10 ∉ ascii ": " := by decide
    simp only [List.mem_append, not_or]
    exact ⟨⟨hkey.2.2.2.1.1, hcolon⟩, hone.1⟩
  have hend : ascii "\n" ++ rest = 10 :: rest := rfl
  simp only [yamlLine, hentry]
  rw [List.append_assoc, hend, parseYaml_line s hline, parseYamlLine,
    parseLine_keyValue hkey (trimmed_yamlValue hvalue) hone]
  simp only [parseYamlValue_yamlValue s key hvalue]

/-! ### The settings of some keys -/

/-- Storing the settings of the keys, one after the other. -/
def restore (c s : ConfigManager) (keys : List Bytes) : ConfigManager :=
  keys.foldl (fun s key => (c.values.lookup key).elim s fun entry => s.set entry.1 key entry.2) s

theorem restore_append (s : ConfigManager) (keys keys' : List Bytes) :
    c.restore s (keys ++ keys') = c.restore (c.restore s keys) keys' :=
  List.foldl_append

theorem lookup_restore {keys : List Bytes} (hkeys : ∀ key ∈ keys, key ∈ c.values)
    (s : ConfigManager) (k : Bytes) :
    (c.restore s keys).values.lookup k
      = if k ∈ keys then c.values.lookup k else s.values.lookup k := by
  induction keys generalizing s with
  | nil => rfl
  | cons key keys ih =>
    obtain ⟨entry, hentry⟩ := Finmap.mem_iff.mp (hkeys key (by simp))
    have hrest := ih (fun key' hkey' => hkeys key' (List.mem_cons_of_mem key hkey'))
      (s.set entry.1 key entry.2)
    rw [restore, List.foldl_cons, hentry, Option.elim_some]
    apply hrest.trans
    by_cases hk : k = key
    · subst hk
      simp [hentry]
    · simp [lookup_set_of_ne s entry.1 entry.2 hk, hk]

/-- Storing the settings of all keys gives the settings. -/
theorem restore_all {keys : List Bytes} (h : ∀ key, key ∈ keys ↔ key ∈ c.values) :
    c.restore { values := ∅ } keys = c := by
  have hvalues : (c.restore { values := ∅ } keys).values = c.values := by
    apply Finmap.ext_lookup
    intro k
    rw [lookup_restore fun key => (h key).mp]
    by_cases hk : k ∈ c.values
    · rw [if_pos ((h k).mpr hk)]
    · rw [if_neg fun hmem => hk ((h k).mp hmem), Finmap.lookup_empty,
        Finmap.lookup_eq_none.mpr hk]
  exact congrArg ConfigManager.mk hvalues

/-- The settings can be saved and loaded. -/
def Saveable (c : ConfigManager) : Prop :=
  ∀ key entry, c.values.lookup key = some entry → LineKey key ∧ Reloadable entry

theorem saveable_empty : Saveable { values := ∅ } := by
  intro key entry hentry
  cases hentry

theorem Saveable.set (hc : c.Saveable) {T : ConfigType} {key : Bytes} {value : T.Value}
    (hkey : LineKey key) (hvalue : Reloadable ⟨T, value⟩) : (c.set T key value).Saveable := by
  intro k entry hentry
  by_cases hk : k = key
  · subst hk
    rw [lookup_set_self] at hentry
    obtain rfl := Option.some.inj hentry
    exact ⟨hkey, hvalue⟩
  · rw [lookup_set_of_ne c T value hk] at hentry
    exact hc k entry hentry

section Reload

variable (hc : c.Saveable)
include hc

/-- **The lines of several settings** store them. -/
theorem parseYaml_yamlLines {keys : List Bytes} (hkeys : ∀ key ∈ keys, key ∈ c.values)
    (s : ConfigManager) (rest : Bytes) :
    s.parseYaml (keys.flatMap (c.yamlLine putDouble) ++ rest)
      = (c.restore s keys).parseYaml rest := by
  induction keys generalizing s with
  | nil => rfl
  | cons key keys ih =>
    obtain ⟨entry, hentry⟩ := Finmap.mem_iff.mp (hkeys key (by simp))
    obtain ⟨hkey, hvalue⟩ := hc key entry hentry
    rw [List.flatMap_cons, List.append_assoc, parseYaml_yamlLine s hentry hkey hvalue,
      ih fun key' hkey' => hkeys key' (List.mem_cons_of_mem _ hkey'), restore, restore,
      List.foldl_cons, hentry, Option.elim_some]

/-- **A section** stores the settings of its keys. -/
theorem parseYaml_yamlSection {category : Bytes} (hcategory : 10 ∉ category) {keys : List Bytes}
    (hkeys : ∀ key ∈ keys, key ∈ c.values) (s : ConfigManager) (rest : Bytes) :
    s.parseYaml (c.yamlSection putDouble category keys ++ rest)
      = (c.restore s keys).parseYaml rest := by
  have htext : c.yamlSection putDouble category keys ++ rest
      = 35 :: (32 :: category ++ ascii " settings")
        ++ 10 :: (keys.flatMap (c.yamlLine putDouble) ++ 10 :: rest) := by
    rw [yamlSection, show ascii "# " = [35, 32] by decide,
      show ascii " settings\n" = ascii " settings" ++ [10] by decide,
      show ascii "\n" = [10] by decide]
    simp
  have hcomment : 10 ∉ 32 :: category ++ ascii " settings" := by
    have hsettings : 10 ∉ ascii " settings" := by decide
    simp [hcategory, hsettings]
  rw [htext, parseYaml_comment s hcomment, parseYaml_yamlLines hc hkeys, parseYaml_emptyLine]

/-- **The sections**, one after the other. -/
theorem parseYaml_yamlSections {group : Bytes → List Bytes} {order : List Bytes}
    (horder : ∀ category ∈ order, 10 ∉ category)
    (hgroup : ∀ category ∈ order, ∀ key ∈ group category, key ∈ c.values) (s : ConfigManager)
    (rest : Bytes) :
    s.parseYaml (order.flatMap (fun category => c.yamlSection putDouble category (group category))
        ++ rest)
      = (c.restore s (order.flatMap group)).parseYaml rest := by
  induction order generalizing s with
  | nil => rfl
  | cons category order ih =>
    rw [List.flatMap_cons, List.append_assoc,
      parseYaml_yamlSection hc (horder category (by simp)) (hgroup category (by simp)),
      ih (fun category' h => horder category' (List.mem_cons_of_mem _ h))
        fun category' h => hgroup category' (List.mem_cons_of_mem _ h),
      List.flatMap_cons, restore_append]

end Reload

/-! ### Categories -/

theorem not_mem_categoryOf {key : Bytes} (h : 10 ∉ key) : 10 ∉ categoryOf key := by
  rw [categoryOf]
  split
  · decide
  · exact fun hmem => h (List.mem_of_mem_take hmem)

theorem mem_categories {allKeys : List Bytes} {category : Bytes} :
    category ∈ categories allKeys ↔ ∃ key ∈ allKeys, categoryOf key = category := by
  rw [← Finmap.mem_keys, categories, keys_foldl_accumulate]
  simp

theorem lookup_categories (allKeys : List Bytes) (category : Bytes) :
    ((categories allKeys).lookup category).getD []
      = allKeys.filter (categoryOf · = category) :=
  lookup_foldl_group allKeys category

/-- **Loading what was saved gives the settings back**: the same keys with the same types and
values. -/
theorem parseYaml_generateYaml (putDouble : Double → Bytes) {c : ConfigManager} (hc : c.Saveable)
    (visit : VisitOrder c.values)
    (visitCategories : VisitOrder (categories (c.getAllKeys visit))) :
    ConfigManager.parseYaml { values := ∅ } (c.generateYaml putDouble visit visitCategories)
      = (true, c) := by
  have hvisit : ∀ key, key ∈ c.getAllKeys visit ↔ key ∈ c.values := fun key => mem_visitOrder visit
  -- every key is in the section of its category
  have hall : ∀ key, key ∈ visitCategories.1.flatMap (fun category =>
      ((categories (c.getAllKeys visit)).lookup category).getD []) ↔ key ∈ c.values := by
    intro key
    simp only [List.mem_flatMap, lookup_categories, List.mem_filter, decide_eq_true_eq,
      mem_visitOrder visitCategories, mem_categories, hvisit]
    constructor
    · rintro ⟨category, -, hkey, -⟩
      exact hkey
    · intro hkey
      exact ⟨categoryOf key, ⟨key, hkey, rfl⟩, hkey, rfl⟩
  have horder : ∀ category ∈ visitCategories.1, 10 ∉ category := by
    intro category hmem
    obtain ⟨key, hkey, rfl⟩ := mem_categories.mp ((mem_visitOrder visitCategories).mp hmem)
    obtain ⟨entry, hentry⟩ := Finmap.mem_iff.mp ((hvisit key).mp hkey)
    exact not_mem_categoryOf (hc key entry hentry).1.2.2.2.1.1
  have hgroup : ∀ category ∈ visitCategories.1,
      ∀ key ∈ ((categories (c.getAllKeys visit)).lookup category).getD [], key ∈ c.values := by
    intro category hmem key hkey
    exact (hall key).mp (List.mem_flatMap.mpr ⟨category, hmem, hkey⟩)
  have htext : c.generateYaml putDouble visit visitCategories
      = 35 :: ascii " NetSentry Configuration" ++ 10 :: 10 :: (visitCategories.1.flatMap
          (fun category => c.yamlSection putDouble category
            (((categories (c.getAllKeys visit)).lookup category).getD [])) ++ []) := by
    rw [generateYaml, show ascii "# NetSentry Configuration\n\n"
      = 35 :: ascii " NetSentry Configuration" ++ [10, 10] by decide]
    simp
  rw [htext, parseYaml_comment _ (by decide), parseYaml_emptyLine,
    parseYaml_yamlSections hc horder hgroup, restore_all hall]
  rfl

/-- A text that looks like a number, a negative number, and a key with a blank. -/
def threeSettings : ConfigManager :=
  (((ConfigManager.mk ∅).set .string (ascii "log_file") (ascii "42")).set .int64
    (ascii "log_level") (-7)).set .bool (ascii "web page") true

theorem saveable_threeSettings : threeSettings.Saveable := by
  have hkeys : LineKey (ascii "log_file") ∧ LineKey (ascii "log_level") ∧
      LineKey (ascii "web page") := by decide +kernel
  have hfile : Reloadable ⟨.string, ascii "42"⟩ := by decide +kernel
  have hlevel : Reloadable ⟨.int64, (-7 : Int64)⟩ := trivial
  have hpage : Reloadable ⟨.bool, true⟩ := trivial
  exact ((saveable_empty.set hkeys.1 hfile).set hkeys.2.1 hlevel).set hkeys.2.2 hpage

theorem parseYaml_generateYaml_threeSettings :
    ConfigManager.parseYaml { values := ∅ }
        (threeSettings.generateYaml (fun _ => [])
          ⟨[ascii "log_level", ascii "web page", ascii "log_file"], by decide +kernel⟩
          ⟨[ascii "general", ascii "log"], by decide +kernel⟩)
      = (true, threeSettings) :=
  parseYaml_generateYaml (fun _ => []) saveable_threeSettings _ _

end NetSentry.ConfigManager
