import NetSentry.Core.ConfigManager

/-!
# The option loop of `main`

The loop goes through the arguments after the program name.  `readOption` is the chain of
comparisons, which for some options takes the next argument as well; `applyOption` is what the
chosen branch does to the settings.
-/

namespace NetSentry

open Bytes

/-- What the option loop takes an argument for, with the argument after it where it uses that. -/
inductive MainOption
  | help
  | config (file : Bytes)
  | interface (name : Bytes)
  | apiEnable
  | apiPort (port : Bytes)
  | webEnable
  | webPort (port : Bytes)
  | logLevel (level : Bytes)
  | logFile (file : Bytes)
  /-- Nothing that the loop knows, or an option whose argument is missing. -/
  | ignored
deriving DecidableEq

/-- Why `main` ends in its option loop. -/
inductive MainExit
  /-- The usage is printed, and `main` returns 0. -/
  | usage
  /-- The file could not be loaded, and `main` returns 1. -/
  | notLoaded (file : Bytes)
  /-- `std::stoi` throws, and nothing catches the exception. -/
  | uncaught
deriving DecidableEq

namespace MainOption

/-- The branch that the option loop takes for an argument, given the arguments after it, and the
arguments that are left for the next pass. -/
def readOption (arg : Bytes) (rest : List Bytes) : MainOption × List Bytes :=
  if arg = ascii "--help" then (.help, rest)
  else if arg = ascii "--config" ∧ rest ≠ [] then (.config (rest.headD []), rest.tail)
  else if arg = ascii "--interface" ∧ rest ≠ [] then (.interface (rest.headD []), rest.tail)
  else if arg = ascii "--api-enable" then (.apiEnable, rest)
  else if arg = ascii "--api-port" ∧ rest ≠ [] then (.apiPort (rest.headD []), rest.tail)
  else if arg = ascii "--web-enable" then (.webEnable, rest)
  else if arg = ascii "--web-port" ∧ rest ≠ [] then (.webPort (rest.headD []), rest.tail)
  else if arg = ascii "--log-level" ∧ rest ≠ [] then (.logLevel (rest.headD []), rest.tail)
  else if arg = ascii "--log-file" ∧ rest ≠ [] then (.logFile (rest.headD []), rest.tail)
  else (.ignored, rest)

/-- Whatever branch is taken: if either leaves at most so many arguments, the choice does. -/
theorem length_ite_le {p : Prop} [Decidable p] {r r' : MainOption × List Bytes} {n : ℕ}
    (hr : r.2.length ≤ n) (hr' : r'.2.length ≤ n) : (if p then r else r').2.length ≤ n := by
  split
  · exact hr
  · exact hr'

theorem length_readOption_le (arg : Bytes) (rest : List Bytes) :
    (readOption arg rest).2.length ≤ rest.length := by
  have htail : rest.tail.length ≤ rest.length := by
    rw [List.length_tail]
    exact Nat.sub_le _ _
  unfold readOption
  -- a branch that takes an argument leaves the tail of the others
  repeat' apply length_ite_le
  all_goals first | exact htail | exact Nat.le_refl _

/-- `static_cast<uint16_t>(std::stoi(arg))`, stored for a key. -/
def setPort (config : ConfigManager) (key port : Bytes) : Except MainExit ConfigManager :=
  match stoi port with
  | some value => .ok (config.set .uint16 key (UInt16.ofInt value))
  | none => .error .uncaught

/-- What the branch does, given the texts of the files that can be opened. -/
def applyOption (files : Bytes → Option Bytes) (config : ConfigManager) :
    MainOption → Except MainExit ConfigManager
  | .help => .error .usage
  | .config file =>
    let (loaded, config) := config.loadFromFile (files file)
    if loaded then .ok config else .error (.notLoaded file)
  | .interface name =>
    .ok ((config.set .string (ascii "capture_interface") name).set .bool
      (ascii "enable_packet_capture") true)
  | .apiEnable => .ok (config.set .bool (ascii "enable_api") true)
  | .apiPort port => setPort config (ascii "api_port") port
  | .webEnable => .ok (config.set .bool (ascii "enable_web") true)
  | .webPort port => setPort config (ascii "web_port") port
  | .logLevel level => .ok (config.set .string (ascii "log_level") level)
  | .logFile file => .ok (config.set .string (ascii "log_file") file)
  | .ignored => .ok config

/-- The option loop of `main`, on the arguments after the program name. -/
def optionLoop (files : Bytes → Option Bytes) (config : ConfigManager) :
    List Bytes → Except MainExit ConfigManager
  | [] => .ok config
  | arg :: rest => do
    let config ← applyOption files config (readOption arg rest).1
    optionLoop files config (readOption arg rest).2
termination_by args => args.length
decreasing_by
  have := length_readOption_le arg rest
  rw [List.length_cons]
  omega

/-- The port that `main` starts the API server on. -/
def apiPortOf (config : ConfigManager) : UInt16 :=
  config.getOrDefault .uint16 (ascii "api_port") 8080

end MainOption

end NetSentry
