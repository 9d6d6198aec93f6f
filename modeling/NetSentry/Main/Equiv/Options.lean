import NetSentry.Core.Equiv.StoredKeys
import NetSentry.Lib.Checked
import NetSentry.Main.Options

/-!
# Which API port the program uses

The last `--api-port` stores its number as a `uint16_t`, and a configuration file that is loaded
later may store the key again, never as a `uint16_t`: the program then uses the default.

* `optionLoop_eq`: the loop applies the options one after the other.
* `storedOtherwise_of_assigns`, `lookup_of_not_assigns`: what a file makes of a key.
* `honoured_iff`: the port is the one asked for exactly where every port fits 16 bits and no file
  loaded after the last one stores the key, unless that port is the default.
-/

namespace NetSentry

open Bytes

namespace ConfigManager

/-! ### Keys that a file stores -/

/-- The value is stored: it is not a numeral out of the range of its type. -/
def IsStored (value : Bytes) : Prop :=
  match guessType value with
  | .int64 => stoll value ≠ none
  | .double => stod value ≠ none
  | _ => True

/-- The line stores the key. -/
def LineAssigns (line key : Bytes) : Prop :=
  ∃ value, parseLine line = some (key, value) ∧ IsStored value

/-- The file stores the key. -/
def Assigns (content key : Bytes) : Prop := ∃ line ∈ getlines content, LineAssigns line key

/-- The key is stored with another type than `uint16_t`. -/
def StoredOtherwise (c : ConfigManager) (key : Bytes) : Prop :=
  ∃ entry, c.values.lookup key = some entry ∧ entry.1 ≠ .uint16

theorem guessType_ne_uint16 (value : Bytes) : guessType value ≠ .uint16 := by
  unfold guessType
  split_ifs <;> decide

/-- **A value is stored** where it is not out of the range of its type. -/
theorem parsedValue_isSome_iff (value : Bytes) :
    (parsedValue (guessType value) value).isSome ↔ IsStored value := by
  unfold IsStored
  cases htype : guessType value with
  | bool =>
    -- each of the words that are taken for a `bool` is one of the words that are stored
    have hword : value ∈ ["true", "false", "yes", "no", "on", "off"].map ascii := by
      by_contra hno
      rw [guessType, if_neg hno] at htype
      split_ifs at htype
    have hstored : ∀ w ∈ ["true", "false", "yes", "no", "on", "off"].map ascii,
        w ∈ ["true", "yes", "on", "1"].map ascii ∨ w ∈ ["false", "no", "off", "0"].map ascii := by
      decide +kernel
    refine iff_of_true ?_ trivial
    rw [parsedValue]
    split_ifs with htrue hfalse
    · rfl
    · rfl
    · exact absurd (hstored value hword) (not_or.mpr ⟨htrue, hfalse⟩)
  | int64 => rw [parsedValue, Option.isSome_map, Option.isSome_iff_ne_none]
  | double => exact Option.isSome_iff_ne_none
  | string => exact iff_of_true rfl trivial
  | uint16 => exact absurd htype (guessType_ne_uint16 value)
  | uint32 =>
    unfold guessType at htype
    split_ifs at htype

/-- A line stores the key exactly when it gives an entry for it. -/
theorem lineAssigns_iff {line key : Bytes} :
    LineAssigns line key ↔ ∃ entry, stores line = some (key, entry) := by
  constructor
  · rintro ⟨value, hline, hstored⟩
    obtain ⟨v, hv⟩ := Option.isSome_iff_exists.mp ((parsedValue_isSome_iff value).mpr hstored)
    refine ⟨⟨guessType value, v⟩, ?_⟩
    simp only [stores, hline, Option.bind_some, hv, Option.map_some]
  · rintro ⟨entry, hstores⟩
    cases hline : parseLine line with
    | none =>
      rw [stores, hline] at hstores
      cases hstores
    | some assignment =>
      obtain ⟨k, value⟩ := assignment
      obtain ⟨rfl, -⟩ := type_of_stores hline hstores
      refine ⟨value, hline, ?_⟩
      rw [stores, hline] at hstores
      obtain ⟨v, hv, -⟩ := Option.map_eq_some_iff.mp hstores
      rw [← parsedValue_isSome_iff, hv]
      rfl

theorem assigns_iff {content key : Bytes} :
    Assigns content key ↔ StoredBy (getlines content) key := by
  simp only [Assigns, StoredBy, lineAssigns_iff]

/-- **A file that stores the key** does not store it as a `uint16_t`. -/
theorem storedOtherwise_of_assigns {content key : Bytes} (h : Assigns content key)
    (c : ConfigManager) : (c.parseYaml content).2.StoredOtherwise key := by
  obtain ⟨entry, hlast⟩ := Option.ne_none_iff_exists'.mp (storedBy_iff.mp (assigns_iff.mp h))
  refine ⟨entry, by rw [lookup_parseYaml, settled, hlast, Option.some_or], ?_⟩
  obtain ⟨line, -, hstores⟩ := List.mem_filterMap.mp (KeyedFold.mem_of_lastOf hlast)
  obtain ⟨value, hline, -⟩ := lineAssigns_iff.mpr ⟨entry, hstores⟩
  rw [(type_of_stores hline hstores).2]
  exact guessType_ne_uint16 value

/-- A file that does not store the key leaves it as it is. -/
theorem lookup_of_not_assigns {content key : Bytes} (h : ¬ Assigns content key)
    (c : ConfigManager) : (c.parseYaml content).2.values.lookup key = c.values.lookup key := by
  have hlast := not_not.mp (storedBy_iff.not.mp (assigns_iff.not.mp h))
  rw [lookup_parseYaml, settled, hlast, Option.none_or]

end ConfigManager

namespace MainOption

open ConfigManager

/-! ### The options of the arguments -/

/-- The options that the loop takes the arguments for, in their order. -/
def options : List Bytes → List MainOption
  | [] => []
  | arg :: rest => (readOption arg rest).1 :: options (readOption arg rest).2
termination_by args => args.length
decreasing_by
  have := length_readOption_le arg rest
  rw [List.length_cons]
  omega

/-- **The loop applies the options one after the other.** -/
theorem optionLoop_eq (files : Bytes → Option Bytes) (config : ConfigManager) (args : List Bytes) :
    optionLoop files config args = (options args).foldlM (applyOption files) config := by
  induction args using options.induct generalizing config with
  | case1 =>
    rw [optionLoop, options]
    rfl
  | case2 arg rest ih =>
    rw [optionLoop, options, List.foldlM_cons]
    congr 1
    funext config
    exact ih config

/-! ### What the options make of the port -/

/-- The key of the API port. -/
def portKey : Bytes := ascii "api_port"

/-- The option loads a file that stores the API port. -/
def LoadsPort (files : Bytes → Option Bytes) : MainOption → Prop
  | .config file => ∃ content, files file = some content ∧ Assigns content portKey
  | _ => False

variable {files : Bytes → Option Bytes} {config config' : ConfigManager}

theorem setPort_eq_ok {key port : Bytes} :
    setPort config key port = .ok config'
      ↔ ∃ value, stoi port = some value ∧
          config' = config.set .uint16 key (UInt16.ofInt value) := by
  rw [setPort]
  cases stoi port with
  | none => exact ⟨nofun, nofun⟩
  | some value =>
    constructor
    · intro h
      exact ⟨value, rfl, (Except.ok.inj h).symm⟩
    · rintro ⟨_, hvalue, rfl⟩
      rw [Option.some.inj hvalue]

theorem applyOption_config_eq_ok {file : Bytes} :
    applyOption files config (.config file) = .ok config'
      ↔ ∃ content, files file = some content ∧ config' = (config.parseYaml content).2 := by
  rw [applyOption]
  cases files file with
  | none => exact ⟨nofun, nofun⟩
  | some content =>
    constructor
    · intro h
      exact ⟨content, rfl, (Except.ok.inj h).symm⟩
    · rintro ⟨_, hcontent, rfl⟩
      rw [← Option.some.inj hcontent]
      rfl

/-- **The option that sets the port** stores the number that it reads, cut to 16 bits. -/
theorem lookup_applyOption_apiPort {port : Bytes}
    (h : applyOption files config (.apiPort port) = .ok config') :
    ∃ value, stoi port = some value ∧
      config'.values.lookup portKey = some ⟨.uint16, UInt16.ofInt value⟩ := by
  obtain ⟨value, hvalue, rfl⟩ := setPort_eq_ok.mp h
  exact ⟨value, hvalue, lookup_set_self config .uint16 portKey _⟩

/-- A file that stores the port replaces it by something that is no `uint16_t`. -/
theorem storedOtherwise_of_loadsPort {option : MainOption} (hloads : LoadsPort files option)
    (h : applyOption files config option = .ok config') : config'.StoredOtherwise portKey := by
  cases option with
  | config file =>
    obtain ⟨content, hfile, rfl⟩ := applyOption_config_eq_ok.mp h
    obtain ⟨content', hfile', hassigns⟩ := hloads
    obtain rfl := Option.some.inj (hfile.symm.trans hfile')
    exact storedOtherwise_of_assigns hassigns config
  | _ => exact hloads.elim

/-- Every other option leaves the port as it is. -/
theorem lookup_applyOption {option : MainOption} (hport : ∀ port, option ≠ .apiPort port)
    (hloads : ¬ LoadsPort files option) (h : applyOption files config option = .ok config') :
    config'.values.lookup portKey = config.values.lookup portKey := by
  cases option with
  | help => cases h
  | config file =>
    obtain ⟨content, hfile, rfl⟩ := applyOption_config_eq_ok.mp h
    exact lookup_of_not_assigns (fun hassigns => hloads ⟨content, hfile, hassigns⟩) config
  | interface name =>
    obtain rfl := Except.ok.inj h
    rw [lookup_set_of_ne _ .bool _ (by decide), lookup_set_of_ne _ .string _ (by decide)]
  | apiPort port => exact absurd rfl (hport port)
  | webPort port =>
    obtain ⟨value, -, rfl⟩ := setPort_eq_ok.mp h
    exact lookup_set_of_ne config .uint16 _ (by decide)
  | apiEnable =>
    obtain rfl := Except.ok.inj h
    exact lookup_set_of_ne config .bool _ (by decide)
  | webEnable =>
    obtain rfl := Except.ok.inj h
    exact lookup_set_of_ne config .bool _ (by decide)
  | logLevel level =>
    obtain rfl := Except.ok.inj h
    exact lookup_set_of_ne config .string _ (by decide)
  | logFile file =>
    obtain rfl := Except.ok.inj h
    exact lookup_set_of_ne config .string _ (by decide)
  | ignored =>
    obtain rfl := Except.ok.inj h
    rfl

/-! ### The whole loop -/

/-- After an option that stores the port otherwise it stays so, unless a later option sets it. -/
theorem storedOtherwise_foldlM {after : List MainOption} (hports : ∀ port, .apiPort port ∉ after)
    (hstored : config.StoredOtherwise portKey)
    (h : after.foldlM (applyOption files) config = .ok config') :
    config'.StoredOtherwise portKey := by
  induction after generalizing config with
  | nil => exact Except.ok.inj h ▸ hstored
  | cons option after ih =>
    rw [List.foldlM_cons] at h
    obtain ⟨next, hnext, hrest⟩ := Checked.bind_eq_ok.mp h
    apply ih (fun port hmem => hports port (List.mem_cons_of_mem option hmem)) _ hrest
    by_cases hloads : LoadsPort files option
    · exact storedOtherwise_of_loadsPort hloads hnext
    · have hport : ∀ port, option ≠ .apiPort port :=
        fun port heq => hports port (heq ▸ List.mem_cons_self)
      obtain ⟨entry, hentry, htype⟩ := hstored
      exact ⟨entry, (lookup_applyOption hport hloads hnext).trans hentry, htype⟩

theorem lookup_foldlM {after : List MainOption} (hports : ∀ port, .apiPort port ∉ after)
    (hloads : ∀ option ∈ after, ¬ LoadsPort files option)
    (h : after.foldlM (applyOption files) config = .ok config') :
    config'.values.lookup portKey = config.values.lookup portKey := by
  induction after generalizing config with
  | nil => rw [Except.ok.inj h]
  | cons option after ih =>
    rw [List.foldlM_cons] at h
    obtain ⟨next, hnext, hrest⟩ := Checked.bind_eq_ok.mp h
    have hport : ∀ port, option ≠ .apiPort port :=
      fun port heq => hports port (heq ▸ List.mem_cons_self)
    rw [ih (fun port hmem => hports port (List.mem_cons_of_mem option hmem))
      (fun o ho => hloads o (List.mem_cons_of_mem option ho)) hrest,
      lookup_applyOption hport (hloads option List.mem_cons_self) hnext]

theorem storedOtherwise_of_exists_loadsPort {after : List MainOption}
    (hports : ∀ port, .apiPort port ∉ after) (hloads : ∃ option ∈ after, LoadsPort files option)
    (h : after.foldlM (applyOption files) config = .ok config') :
    config'.StoredOtherwise portKey := by
  obtain ⟨option, hoption, hload⟩ := hloads
  obtain ⟨before, rest, rfl⟩ := List.append_of_mem hoption
  rw [List.foldlM_append] at h
  obtain ⟨_, _, h⟩ := Checked.bind_eq_ok.mp h
  rw [List.foldlM_cons] at h
  obtain ⟨next, hnext, hrest⟩ := Checked.bind_eq_ok.mp h
  refine storedOtherwise_foldlM (fun port hmem => hports port ?_)
    (storedOtherwise_of_loadsPort hload hnext) hrest
  exact List.mem_append_right before (List.mem_cons_of_mem option hmem)

/-- **The port that is used** after the last option that sets it: the number of that option, cut to
16 bits, unless a file replaces it, and then the default. -/
theorem apiPortOf_foldlM {before after : List MainOption} {port : Bytes}
    (hports : ∀ p, .apiPort p ∉ after)
    (h : (before ++ .apiPort port :: after).foldlM (applyOption files) config = .ok config') :
    ∃ value, stoi port = some value ∧
      ((∀ option ∈ after, ¬ LoadsPort files option) → apiPortOf config' = UInt16.ofInt value) ∧
      ((∃ option ∈ after, LoadsPort files option) → apiPortOf config' = 8080) := by
  rw [List.foldlM_append] at h
  obtain ⟨_, _, h⟩ := Checked.bind_eq_ok.mp h
  rw [List.foldlM_cons] at h
  obtain ⟨next, hnext, hafter⟩ := Checked.bind_eq_ok.mp h
  obtain ⟨value, hvalue, hlookup⟩ := lookup_applyOption_apiPort hnext
  refine ⟨value, hvalue, fun hloads => ?_, fun hloads => ?_⟩
  · have hfinal := (lookup_foldlM hports hloads hafter).trans hlookup
    rw [portKey] at hfinal
    rw [apiPortOf, getOrDefault, ConfigManager.get, hfinal]
    rfl
  · obtain ⟨entry, hentry, htype⟩ := storedOtherwise_of_exists_loadsPort hports hloads hafter
    exact getOrDefault_of_get_eq_none (get_of_lookup_ne hentry htype.symm) 8080

/-- A port number that fits 16 bits. -/
def FitsPort (port : Bytes) : Prop := ∀ value ∈ stoi port, 0 ≤ value ∧ value ≤ 65535

/-- The port that is used is the integer that the last `--api-port` asks for, and no argument that
denotes an integer outside 0..65535 was taken. -/
structure Honoured (args : List Bytes) (port : Bytes) (config : ConfigManager) : Prop where
  port_eq : ∃ value, stoi port = some value ∧ ((apiPortOf config).toNat : ℤ) = value
  rejected : ∀ p, .apiPort p ∈ options args → FitsPort p

theorem toNat_ofInt_uint16 {value : ℤ} (h0 : 0 ≤ value) (h : value ≤ 65535) :
    ((UInt16.ofInt value).toNat : ℤ) = value := by
  rw [UInt16.ofInt, UInt16.toNat_ofNat']
  omega

/-- **The port is the one asked for** exactly where all ports fit and no file that is loaded after
the last `--api-port` stores the port, or the default is asked for. -/
theorem honoured_iff (files : Bytes → Option Bytes) (args : List Bytes)
    (before after : List MainOption) (port : Bytes) (config : ConfigManager)
    (hoptions : options args = before ++ .apiPort port :: after)
    (hlast : ∀ p, .apiPort p ∉ after)
    (hdone : optionLoop files .create args = .ok config) :
    Honoured args port config ↔ (∀ p, .apiPort p ∈ options args → FitsPort p) ∧
      (stoi port = some 8080 ∨ ∀ option ∈ after, ¬ LoadsPort files option) := by
  have hfold : (before ++ .apiPort port :: after).foldlM (applyOption files) .create
      = .ok config := by
    rw [← hoptions, ← optionLoop_eq, hdone]
  have hmem : .apiPort port ∈ options args := by
    rw [hoptions]
    exact List.mem_append_right before List.mem_cons_self
  obtain ⟨value, hvalue, hkept, hreplaced⟩ := apiPortOf_foldlM hlast hfold
  by_cases hloads : ∃ option ∈ after, LoadsPort files option
  · -- the default is used, whatever the options ask for
    have hport := hreplaced hloads
    constructor
    · rintro ⟨⟨value', hvalue', heq⟩, hfits⟩
      rw [hport] at heq
      refine ⟨hfits, .inl ?_⟩
      rw [hvalue', ← heq]
      rfl
    · rintro ⟨hfits, hdefault | hno⟩
      · refine ⟨⟨8080, hdefault, ?_⟩, hfits⟩
        rw [hport]
        rfl
      · obtain ⟨option, hoption, hload⟩ := hloads
        exact absurd hload (hno option hoption)
  · -- the number of the last option is used, cut to 16 bits
    have hno : ∀ option ∈ after, ¬ LoadsPort files option :=
      fun option hoption hload => hloads ⟨option, hoption, hload⟩
    constructor
    · exact fun h => ⟨h.rejected, .inr hno⟩
    · rintro ⟨hfits, -⟩
      obtain ⟨h0, h65535⟩ := hfits port hmem value hvalue
      refine ⟨⟨value, hvalue, ?_⟩, hfits⟩
      rw [hkept hno]
      exact toNat_ofInt_uint16 h0 h65535

/-- The arguments that ask for a port and nothing else. -/
def portArgs (port : Bytes) : List Bytes := [ascii "--api-port", port]

theorem options_portArgs (port : Bytes) : options (portArgs port) = [.apiPort port] := by
  have hread : readOption (ascii "--api-port") [port] = (.apiPort port, []) := by
    rw [readOption, if_neg (by decide), if_neg fun h => absurd h.1 (by decide),
      if_neg fun h => absurd h.1 (by decide), if_neg (by decide),
      if_pos ⟨rfl, List.cons_ne_nil _ _⟩]
    rfl
  rw [portArgs, options, hread, options]

theorem optionLoop_portArgs (files : Bytes → Option Bytes) {port : Bytes} {value : ℤ}
    (h : stoi port = some value) : optionLoop files .create (portArgs port)
      = .ok (create.set .uint16 portKey (UInt16.ofInt value)) := by
  rw [optionLoop_eq, options_portArgs, List.foldlM_cons, applyOption, setPort, h]
  rfl

/-- Asking for 9000 is honoured. -/
theorem honoured_9000 : Honoured (portArgs (ascii "9000")) (ascii "9000")
    (create.set .uint16 portKey (UInt16.ofInt 9000)) :=
  (honoured_iff (fun _ => none) (portArgs (ascii "9000")) [] [] (ascii "9000") _
    (options_portArgs _) (by simp) (optionLoop_portArgs _ (by decide +kernel))).mpr
    ⟨by rw [options_portArgs]; simp [FitsPort]; decide +kernel, .inr (by simp)⟩

/-- Asking for 70000 is not rejected, and the port is 4464. -/
theorem not_honoured_70000 :
    optionLoop (fun _ => none) .create (portArgs (ascii "70000"))
        = .ok (create.set .uint16 portKey 4464) ∧
      ¬ Honoured (portArgs (ascii "70000")) (ascii "70000")
        (create.set .uint16 portKey 4464) := by
  have hvalue : stoi (ascii "70000") = some 70000 := by decide +kernel
  refine ⟨optionLoop_portArgs _ hvalue, fun h => ?_⟩
  have hfits := h.rejected (ascii "70000") (by rw [options_portArgs]; exact List.mem_cons_self)
  exact absurd (hfits 70000 hvalue).2 (by decide)

end MainOption

end NetSentry
