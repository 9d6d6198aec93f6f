import NetSentry.Core.Equiv.StoredKeys
import NetSentry.Main.Cleanup
import NetSentry.Main.Equiv.Options
import NetSentry.Main.Settings

/-!
# The command line as a list of writes

Each option writes settings: an option such as `--api-port` its own, and `--config` those of the
lines of a file, in their order.

* `getOrDefault_optionLoop`: after the option loop every setting has what the last write to it
  stored, at the type of that write alone.
* `numbers_not_configurable`: so no option and no file changes a number that `main` reads as a
  `uint32_t`, except that a file that mentions it brings the default of `main` back.
-/

namespace NetSentry.MainOption

open Bytes ConfigManager KeyedFold

variable {files : Bytes → Option Bytes} {config config' : ConfigManager}

/-! ### What an option writes -/

/-- The lines of a file that can be opened. -/
def linesOf (files : Bytes → Option Bytes) (file : Bytes) : List Bytes :=
  (files file).elim [] getlines

/-- What an option that does not end the program writes, in order. -/
def writes (files : Bytes → Option Bytes) : MainOption → List (Bytes × ConfigEntry)
  | .help | .ignored => []
  | .config file => (linesOf files file).filterMap stores
  | .interface name =>
    [(ascii "capture_interface", ⟨.string, name⟩), (ascii "enable_packet_capture", ⟨.bool, true⟩)]
  | .apiEnable => [(ascii "enable_api", ⟨.bool, true⟩)]
  | .apiPort port =>
    (stoi port).elim [] fun v => [(ascii "api_port", ⟨.uint16, UInt16.ofInt v⟩)]
  | .webEnable => [(ascii "enable_web", ⟨.bool, true⟩)]
  | .webPort port =>
    (stoi port).elim [] fun v => [(ascii "web_port", ⟨.uint16, UInt16.ofInt v⟩)]
  | .logLevel level => [(ascii "log_level", ⟨.string, level⟩)]
  | .logFile file => [(ascii "log_file", ⟨.string, file⟩)]

theorem lookup_set (c : ConfigManager) (T : ConfigType) (k : Bytes) (value : T.Value)
    (key : Bytes) :
    (c.set T k value).values.lookup key
      = (lastOf [(k, (⟨T, value⟩ : ConfigEntry))] key).or (c.values.lookup key) := by
  rw [lastOf_singleton]
  split_ifs with hk
  · obtain rfl : k = key := hk
    rw [lookup_set_self, Option.some_or]
  · rw [lookup_set_of_ne c T value (Ne.symm hk), Option.none_or]

theorem lookup_setPort {k port : Bytes} (h : setPort config k port = .ok config')
    (key : Bytes) :
    config'.values.lookup key
      = (lastOf ((stoi port).elim [] fun v => [(k, (⟨.uint16, UInt16.ofInt v⟩ : ConfigEntry))])
          key).or (config.values.lookup key) := by
  obtain ⟨value, hvalue, rfl⟩ := setPort_eq_ok.mp h
  rw [hvalue, Option.elim_some, lookup_set]

/-- **One option** leaves each setting at the last thing that it writes to it. -/
theorem lookup_applyOption_eq {option : MainOption}
    (h : applyOption files config option = .ok config') (key : Bytes) :
    config'.values.lookup key
      = (lastOf (writes files option) key).or (config.values.lookup key) := by
  cases option with
  | help => cases h
  | ignored =>
    obtain rfl := Except.ok.inj h
    rfl
  | config file =>
    obtain ⟨content, hfile, rfl⟩ := applyOption_config_eq_ok.mp h
    rw [lookup_parseYaml, settled, writes, linesOf, hfile]
    rfl
  | interface name =>
    obtain rfl := Except.ok.inj h
    rw [lookup_set, lookup_set, ← Option.or_assoc, ← lastOf_append]
    rfl
  | apiPort port => exact lookup_setPort h key
  | webPort port => exact lookup_setPort h key
  | apiEnable | webEnable | logLevel level | logFile file =>
    obtain rfl := Except.ok.inj h
    exact lookup_set config _ _ _ key

/-- Options one after the other. -/
theorem lookup_foldlM_applyOption {options : List MainOption}
    (h : options.foldlM (applyOption files) config = .ok config') (key : Bytes) :
    config'.values.lookup key
      = (lastOf (options.flatMap (writes files)) key).or (config.values.lookup key) := by
  induction options generalizing config with
  | nil =>
    obtain rfl := Except.ok.inj h
    rfl
  | cons option options ih =>
    rw [List.foldlM_cons] at h
    cases hstep : applyOption files config option with
    | error e =>
      rw [hstep] at h
      cases h
    | ok next =>
      rw [hstep] at h
      rw [ih h, lookup_applyOption_eq hstep, List.flatMap_cons, lastOf_append, Option.or_assoc]

/-! ### What the command line leaves -/

/-- A setting as `get` returns it. -/
def readAs (T : ConfigType) (entry : Option ConfigEntry) : Option T.Value :=
  entry.bind fun entry => if h : entry.1 = T then some (h ▸ entry.2) else none

theorem get_eq_readAs (c : ConfigManager) (T : ConfigType) (key : Bytes) :
    c.get T key = readAs T (c.values.lookup key) := by
  unfold ConfigManager.get
  cases c.values.lookup key with
  | none => rfl
  | some entry =>
    obtain ⟨T', value⟩ := entry
    rcases eq_or_ne T T' with rfl | hne
    · simp [readAs]
    · simp [readAs, hne, hne.symm]

/-- **The last write counts**: after an option loop that completes, a setting has what the last
write to it has stored, whether an option or a line of a file has made it; where there is none it
has what it had; and it is found at the type of that write alone. -/
theorem getOrDefault_optionLoop {args : List Bytes}
    (h : optionLoop files config args = .ok config') (T : ConfigType) (key : Bytes)
    (default : T.Value) :
    config'.getOrDefault T key default
      = match lastOf ((options args).flatMap (writes files)) key with
        | some entry => (readAs T (some entry)).getD default
        | none => config.getOrDefault T key default := by
  rw [optionLoop_eq] at h
  have hlookup := lookup_foldlM_applyOption h key
  have hget : ∀ c : ConfigManager, c.getOrDefault T key default
      = (readAs T (c.values.lookup key)).getD default := by
    intro c
    rw [getOrDefault, get_eq_readAs]
    cases readAs T (c.values.lookup key) <;> rfl
  rw [hget, hget, hlookup]
  cases lastOf ((options args).flatMap (writes files)) key with
  | none => rw [Option.none_or]
  | some entry => rw [Option.some_or]

/-- A level on the command line, and then a file. -/
def levelThenFile : List Bytes :=
  [ascii "--log-level", ascii "debug", ascii "--config", ascii "netsentry.yaml"]

theorem options_levelThenFile :
    options levelThenFile = [.logLevel (ascii "debug"), .config (ascii "netsentry.yaml")] := by
  have hlevel : readOption (ascii "--log-level")
      [ascii "debug", ascii "--config", ascii "netsentry.yaml"]
      = (.logLevel (ascii "debug"), [ascii "--config", ascii "netsentry.yaml"]) := by decide
  have hfile : readOption (ascii "--config") [ascii "netsentry.yaml"]
      = (.config (ascii "netsentry.yaml"), []) := by decide
  rw [levelThenFile, options, hlevel, options, hfile, options]

/-- The files of which every one has this text. -/
def everyFile (content : Bytes) (_ : Bytes) : Option Bytes := some content

/-- The file comes after the option, and has the last word. -/
theorem getOrDefault_optionLoop_levelThenFile :
    ∃ config', optionLoop (everyFile (ascii "log_level: error\n")) .create levelThenFile
        = .ok config' ∧
      config'.getOrDefault .string (ascii "log_level") (ascii "info") = ascii "error" := by
  obtain ⟨config', h⟩ : ∃ config',
      optionLoop (everyFile (ascii "log_level: error\n")) .create levelThenFile = .ok config' := by
    rw [optionLoop_eq, options_levelThenFile]
    exact ⟨_, rfl⟩
  refine ⟨config', h, ?_⟩
  rw [getOrDefault_optionLoop h .string, options_levelThenFile]
  decide +kernel

/-! ### Numbers -/

theorem guessType_ne_uint32 (value : Bytes) : guessType value ≠ .uint32 := by
  unfold guessType
  split_ifs <;> decide

theorem ne_uint32_of_stores {line k : Bytes} {entry : ConfigEntry}
    (h : stores line = some (k, entry)) : entry.1 ≠ .uint32 := by
  cases hline : parseLine line with
  | none =>
    rw [stores, hline] at h
    cases h
  | some assignment =>
    rw [(type_of_stores hline h).2]
    exact guessType_ne_uint32 _

/-- **Nothing that is written is a `uint32_t`.** -/
theorem ne_uint32_of_mem_writes {option : MainOption} {write : Bytes × ConfigEntry}
    (h : write ∈ writes files option) : write.2.1 ≠ .uint32 := by
  have hport : ∀ (k : Bytes) (read : Option ℤ),
      write ∈ (read.elim [] fun v => [(k, (⟨.uint16, UInt16.ofInt v⟩ : ConfigEntry))]) →
        write.2.1 ≠ .uint32 := by
    intro k read hwrite
    cases read with
    | none => cases hwrite
    | some v =>
      obtain rfl := List.mem_singleton.mp hwrite
      exact ConfigType.noConfusion
  cases option with
  | help => cases h
  | ignored => cases h
  | config file =>
    obtain ⟨line, -, hstores⟩ := List.mem_filterMap.mp h
    exact ne_uint32_of_stores hstores
  | interface name =>
    rcases List.mem_pair.mp h with rfl | rfl <;> exact ConfigType.noConfusion
  | apiPort port => exact hport _ _ h
  | webPort port => exact hport _ _ h
  | apiEnable | webEnable | logLevel level | logFile file =>
    obtain rfl := List.mem_singleton.mp h
    exact ConfigType.noConfusion

/-- The command line writes the setting, in an option or in a file. -/
def written (files : Bytes → Option Bytes) (args : List Bytes) (key : Bytes) : Bool :=
  (lastOf ((options args).flatMap (writes files)) key).isSome

/-- **A number of 32 bits** that is written is lost. -/
theorem getOrDefault_uint32 {args : List Bytes} (h : optionLoop files config args = .ok config')
    (key : Bytes) (default : UInt32) :
    config'.getOrDefault .uint32 key default
      = if written files args key then default else config.getOrDefault .uint32 key default := by
  rw [getOrDefault_optionLoop h .uint32 key default]
  unfold written
  cases hlast : lastOf ((options args).flatMap (writes files)) key with
  | none => rfl
  | some entry =>
    obtain ⟨option, -, hwrite⟩ := List.mem_flatMap.mp (mem_of_lastOf hlast)
    have hne : entry.1 ≠ .uint32 := ne_uint32_of_mem_writes hwrite
    show (readAs .uint32 (some entry)).getD default = default
    rw [readAs, Option.bind_some, dif_neg hne]
    rfl

/-- A number of 32 bits that is in the settings from the start, or is not. -/
theorem getOrDefault_uint32_create {args : List Bytes}
    (h : optionLoop files .create args = .ok config') {key : Bytes} {default value : UInt32}
    (hvalue : ConfigManager.create.getOrDefault .uint32 key default = value) :
    config'.getOrDefault .uint32 key default
      = if written files args key then default else value := by
  rw [getOrDefault_uint32 h, hvalue]

open MainSettings

section Numbers

variable {args : List Bytes} (h : optionLoop files .create args = .ok config')
include h

theorem cpuWarning_eq : cpuWarning config'
    = if written files args (ascii "cpu_threshold_warning") then 75 else 80 :=
  getOrDefault_uint32_create h (by decide +kernel)

theorem cpuCritical_eq : cpuCritical config' = 90 :=
  (getOrDefault_uint32_create h (by decide +kernel)).trans (ite_self 90)

theorem memWarning_eq : memWarning config'
    = if written files args (ascii "memory_threshold_warning") then 70 else 75 :=
  getOrDefault_uint32_create h (by decide +kernel)

theorem memCritical_eq : memCritical config' = 85 :=
  (getOrDefault_uint32_create h (by decide +kernel)).trans (ite_self 85)

/-- **The thresholds and the times of `main` cannot be configured**: whatever the options and the
files, the critical thresholds, the interval of the cleanup and the days for which records are kept
are the same; and writing a threshold for warnings, whatever the number, only makes it the default
of `main` instead of that of the settings. -/
theorem numbers_not_configurable :
    cpuWarning config' = (if written files args (ascii "cpu_threshold_warning") then 75 else 80) ∧
    cpuCritical config' = 90 ∧
    memWarning config'
      = (if written files args (ascii "memory_threshold_warning") then 70 else 75) ∧
    memCritical config' = 85 ∧ cleanupInterval config' = 3600 ∧
    ∀ table : Table, config'.getOrDefault .uint32 table.maxAgeKey table.maxAgeDefault
      = table.maxAgeDefault := by
  refine ⟨cpuWarning_eq h, cpuCritical_eq h, memWarning_eq h, memCritical_eq h, ?_, ?_⟩
  · unfold cleanupInterval
    rw [(getOrDefault_uint32_create h (by decide +kernel)).trans (ite_self 3600)]
    rfl
  · intro table
    cases table
    · exact (getOrDefault_uint32_create h (by decide +kernel)).trans (ite_self 30)
    · exact (getOrDefault_uint32_create h (by decide +kernel)).trans (ite_self 7)
    · exact (getOrDefault_uint32_create h (by decide +kernel)).trans (ite_self 90)

end Numbers

/-- A file with thresholds. -/
def thresholdFile : Bytes := ascii "cpu_threshold_warning: 95\ncpu_threshold_critical: 99\n"

/-- The one threshold becomes lower, and the other one stays. -/
theorem numbers_not_configurable_thresholdFile :
    ∃ config', optionLoop (everyFile thresholdFile) .create levelThenFile = .ok config' ∧
      cpuWarning config' = 75 ∧ cpuCritical config' = 90 := by
  obtain ⟨config', h⟩ : ∃ config',
      optionLoop (everyFile thresholdFile) .create levelThenFile = .ok config' := by
    rw [optionLoop_eq, options_levelThenFile]
    exact ⟨_, rfl⟩
  have hwritten : written (everyFile thresholdFile) levelThenFile
      (ascii "cpu_threshold_warning") = true := by
    rw [written, options_levelThenFile]
    decide +kernel
  obtain ⟨hwarning, hcritical, _⟩ := numbers_not_configurable h
  exact ⟨config', h, hwarning.trans (if_pos hwritten), hcritical⟩

end NetSentry.MainOption
