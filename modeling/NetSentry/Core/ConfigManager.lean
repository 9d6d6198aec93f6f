import Mathlib.Data.Finmap
import Mathlib.Data.List.DropRight
import NetSentry.Lib.BinaryFloat
import NetSentry.Lib.Search
import NetSentry.Lib.TextStream

/-!
# `ConfigManager`

The typed settings: a value is stored with its type, `get` returns it at that type only, and
`parseYaml` guesses the type of a value from its text.  A `double` is a number of the IEEE format
with 53 bits of precision.
-/

namespace NetSentry

open Bytes

/-- The types whose `type_index` settings are stored with. -/
inductive ConfigType
  | bool
  | int64
  | double
  | string
  | uint16
  | uint32
deriving DecidableEq

/-- A finite `double`: a sign, which zero has as well, and a magnitude in units of the least
positive one. -/
structure Double where
  negative : Bool
  magnitude : BinaryFloat 52 2045
deriving DecidableEq

/-- The number one in these units: the least positive `double` is `2 ^ (-1074)`. -/
def Double.unitsOfOne : ℕ := 2 ^ 1074

/-- The values of a type. -/
abbrev ConfigType.Value : ConfigType → Type
  | .bool => Bool
  | .int64 => Int64
  | .double => Double
  | .string => Bytes
  | .uint16 => UInt16
  | .uint32 => UInt32

/-- What is stored for a key: the pair of the type and the value. -/
abbrev ConfigEntry := Σ T : ConfigType, T.Value

/-- `ConfigManager`. -/
structure ConfigManager where
  values : Finmap fun _ : Bytes => ConfigEntry

namespace ConfigManager

/-- `ConfigManager::get<T>`. -/
def get (c : ConfigManager) (T : ConfigType) (key : Bytes) : Option T.Value :=
  match c.values.lookup key with
  | none => none
  | some entry => if h : T = entry.1 then some (h ▸ entry.2) else none

/-- `ConfigManager::getOrDefault<T>`. -/
def getOrDefault (c : ConfigManager) (T : ConfigType) (key : Bytes) (default : T.Value) : T.Value :=
  match c.get T key with
  | some value => value
  | none => default

/-- `ConfigManager::set<T>`. -/
def set (c : ConfigManager) (T : ConfigType) (key : Bytes) (value : T.Value) : ConfigManager where
  values := c.values.insert key ⟨T, value⟩

/-- What `setDefaultConfig` sets, in this order. -/
def defaultConfig : List (Bytes × ConfigEntry) :=
  [(ascii "enable_api", ⟨.bool, false⟩),
    (ascii "api_port", ⟨.uint16, 8080⟩),
    (ascii "enable_web", ⟨.bool, false⟩),
    (ascii "web_port", ⟨.uint16, 9090⟩),
    (ascii "enable_packet_capture", ⟨.bool, false⟩),
    (ascii "capture_interface", ⟨.string, ascii "eth0"⟩),
    (ascii "log_level", ⟨.string, ascii "info"⟩),
    (ascii "log_file", ⟨.string, ascii "netsentry.log"⟩),
    (ascii "metric_retention_seconds", ⟨.uint32, 3600⟩),
    (ascii "alert_cooldown_seconds", ⟨.uint32, 60⟩),
    (ascii "cpu_threshold_warning", ⟨.uint32, 80⟩),
    (ascii "cpu_threshold_critical", ⟨.uint32, 90⟩),
    (ascii "memory_threshold_warning", ⟨.uint32, 75⟩),
    (ascii "memory_threshold_critical", ⟨.uint32, 85⟩)]

/-- `ConfigManager::setDefaultConfig`. -/
def setDefaultConfig (c : ConfigManager) : ConfigManager :=
  defaultConfig.foldl (fun c (key, entry) => c.set entry.1 key entry.2) c

/-- The constructor. -/
def create : ConfigManager := setDefaultConfig { values := ∅ }

/-! ### Values -/

/-- The regular expression `^-?\d+$`. -/
def matchesInteger (value : Bytes) : Bool :=
  let digits := if value.head? = some 45 then value.tail else value
  digits ≠ [] && digits.all isDigit

/-- The regular expression `^-?\d+\.\d+$`: the digits before and after the point. -/
def matchDecimal (value : Bytes) : Option (Bytes × Bytes) :=
  let unsigned := if value.head? = some 45 then value.tail else value
  let whole := unsigned.takeWhile isDigit
  match unsigned.drop whole.length with
  | 46 :: fraction =>
    if whole ≠ [] ∧ fraction ≠ [] ∧ fraction.all isDigit then some (whole, fraction) else none
  | _ => none

/-- `std::stod` on a text that `matchDecimal` matches: the nearest `double`, and the even one of
two.  `none` stands for the exception it throws where `strtod` reports `ERANGE`: the magnitude is
out of range, or it is not a `double` and is less than every normal one, also when it is rounded to
53 bits. -/
def stod (value : Bytes) : Option Double :=
  (matchDecimal value).bind fun (whole, fraction) =>
    -- the numeral is this quotient, in units of the least positive `double`
    let numerator := digitsValue (whole ++ fraction) * Double.unitsOfOne
    let denominator := 10 ^ fraction.length
    let inexact := numerator % denominator ≠ 0
    let tiny := 4 * numerator < (2 ^ 54 - 1) * denominator
    if inexact ∧ tiny then none
    else (BinaryFloat.round 52 2045 numerator denominator).map fun magnitude =>
      { negative := value.head? = some 45, magnitude := magnitude }

/-- The value of type `T` that `ConfigManager::parseYamlValue<T>` sets: there is none where the text
is no `bool`, or where the conversion throws. -/
def parsedValue (T : ConfigType) (value : Bytes) : Option T.Value :=
  match T with
  | .string =>
    let quoted := 2 ≤ value.length ∧
      ((value.head? = some 34 ∧ value.getLast? = some 34) ∨
        (value.head? = some 39 ∧ value.getLast? = some 39))
    some (if quoted then (value.drop 1).take (value.length - 2) else value)
  | .bool =>
    if value ∈ ["true", "yes", "on", "1"].map ascii then some true
    else if value ∈ ["false", "no", "off", "0"].map ascii then some false
    else none
  | .int64 => (stoll value).map Int64.ofInt
  | .uint16 => (stoll value).map UInt16.ofInt
  | .uint32 => (stoll value).map UInt32.ofInt
  | .double => stod value

/-- `ConfigManager::parseYamlValue<T>`. -/
def parseYamlValue (c : ConfigManager) (T : ConfigType) (key value : Bytes) : ConfigManager :=
  (parsedValue T value).elim c (c.set T key)

/-! ### Lines -/

/-- `s.erase(0, s.find_first_not_of(" \t"))`, then `s.erase(s.find_last_not_of(" \t") + 1)`. -/
def trim (s : Bytes) : Bytes := (s.dropWhile isBlank).rdropWhile isBlank

/-- The regular expression `^\s*([^:]+)\s*:\s*(.*)$` and its two groups.  The colon is the first one
of the line; the first group leaves out the white space before it, but for its last character when
there is nothing else; a dot does not match the end of a line. -/
def matchKeyValue (line : Bytes) : Option (Bytes × Bytes) :=
  match Search.find [58] line with
  | none => none
  | some colonPos =>
    let before := line.take colonPos
    let key := before.dropWhile isSpace
    let value := (line.drop (colonPos + 1)).dropWhile isSpace
    if before = [] ∨ value.any (fun c => c = 10 || c = 13) then none
    else some (if key = [] then before.drop (before.length - 1) else key, value)

/-- The key and the value that a line of `parseYaml` assigns to it. -/
def parseLine (line : Bytes) : Option (Bytes × Bytes) :=
  if line = [] ∨ line.head? = some 35 then none
  else (matchKeyValue line).map fun (key, value) => (trim key, trim value)

/-- The type that `parseYaml` takes a value for. -/
def guessType (value : Bytes) : ConfigType :=
  if value ∈ ["true", "false", "yes", "no", "on", "off"].map ascii then .bool
  else if matchesInteger value then .int64
  else if (matchDecimal value).isSome then .double
  else .string

/-- The body of the loop of `parseYaml`. -/
def parseYamlLine (c : ConfigManager) (line : Bytes) : ConfigManager :=
  match parseLine line with
  | none => c
  | some (key, value) => c.parseYamlValue (guessType value) key value

/-- `ConfigManager::parseYaml`. -/
def parseYaml (c : ConfigManager) (content : Bytes) : Bool × ConfigManager :=
  (true, (getlines content).foldl parseYamlLine c)

/-- `ConfigManager::loadFromFile`, given the text of the file where it can be opened. -/
def loadFromFile (c : ConfigManager) (file : Option Bytes) : Bool × ConfigManager :=
  match file with
  | none => (false, c)
  | some content => c.parseYaml content

end ConfigManager

end NetSentry
