import NetSentry.Core.ConfigYaml
import NetSentry.Lib.GuardedState

/-!
# The mutex of `ConfigManager`

The operations of `ConfigManager` with the guards of `mutex_` in each of them, one operation running
alone.  `getAllKeys` and `generateYaml` visit `values_` and the categories in some order, and the
formatting of a `double` is a parameter.
-/

namespace NetSentry.ConfigLocking

open Bytes KeyedFold GuardedState

/-- A part of an operation of `ConfigManager`. -/
abbrev ConfigPart (α : Type) := Part ConfigManager α

def get (T : ConfigType) (key : Bytes) : ConfigPart (Option T.Value) :=
  lockGuard (read fun c => c.get T key)

def getOrDefault (T : ConfigType) (key : Bytes) (default : T.Value) : ConfigPart T.Value := do
  let value ← get T key
  return match value with
    | some value => value
    | none => default

def set (T : ConfigType) (key : Bytes) (value : T.Value) : ConfigPart Unit :=
  lockGuard (write fun c => c.set T key value)

/-- `exists`. -/
def existsKey (key : Bytes) : ConfigPart Bool :=
  lockGuard (read fun c => (c.values.lookup key).isSome)

def remove (key : Bytes) : ConfigPart Unit :=
  lockGuard (write fun c => { values := c.values.erase key })

def clear : ConfigPart Unit := lockGuard (write fun _ => { values := ∅ })

def setDefaultConfig : ConfigPart Unit :=
  ConfigManager.defaultConfig.forM fun (key, entry) => set entry.1 key entry.2

/-! ### Loading -/

def parseYamlValue (T : ConfigType) (key value : Bytes) : ConfigPart Unit :=
  (ConfigManager.parsedValue T value).elim (pure ()) (set T key)

/-- The body of the loop of `parseYaml`. -/
def parseYamlLine (line : Bytes) : ConfigPart Unit :=
  match ConfigManager.parseLine line with
  | none => pure ()
  | some (key, value) => parseYamlValue (ConfigManager.guessType value) key value

def parseYaml (content : Bytes) : ConfigPart Bool := do
  (getlines content).forM parseYamlLine
  return true

/-- `loadFromFile`, given the text of the file where it can be opened. -/
def loadFromFile : Option Bytes → ConfigPart Bool
  | none => return false
  | some content => parseYaml content

/-! ### Saving -/

section Saving

variable (putDouble : Double → Bytes) (visit : ∀ c : ConfigManager, VisitOrder c.values)
  (visitCategories : ∀ m : Finmap fun _ : Bytes => List Bytes, VisitOrder m)

def getAllKeys : ConfigPart (List Bytes) := lockGuard (read fun c => c.getAllKeys (visit c))

def generateYaml : ConfigPart Bytes :=
  lockGuard do
    let allKeys ← getAllKeys visit
    let categories := ConfigManager.categories allKeys
    let sections ← read fun c => (visitCategories categories).1.flatMap fun category =>
      c.yamlSection putDouble category ((categories.lookup category).getD [])
    return ascii "# NetSentry Configuration\n\n" ++ sections

/-- `saveToFile`, given whether the file can be opened; what is written to it, and the result. -/
def saveToFile (isOpen : Bool) : ConfigPart (Option Bytes × Bool) :=
  if isOpen then do
    let text ← generateYaml putDouble visit visitCategories
    return (some text, true)
  else return (none, false)

/-! ### Operations -/

/-- The public operations. -/
inductive Operation
  | loadFromFile (file : Option Bytes)
  | saveToFile (isOpen : Bool)
  | setDefaultConfig
  | get (T : ConfigType) (key : Bytes)
  | getOrDefault (T : ConfigType) (key : Bytes) (default : T.Value)
  | set (T : ConfigType) (key : Bytes) (value : T.Value)
  | existsKey (key : Bytes)
  | remove (key : Bytes)
  | clear
  | getAllKeys

/-- A call of an operation, with what it returns left out. -/
def call : Operation → ConfigPart Unit
  | .loadFromFile file => discard (loadFromFile file)
  | .saveToFile isOpen => discard (saveToFile putDouble visit visitCategories isOpen)
  | .setDefaultConfig => setDefaultConfig
  | .get T key => discard (get T key)
  | .getOrDefault T key default => discard (getOrDefault T key default)
  | .set T key value => set T key value
  | .existsKey key => discard (existsKey key)
  | .remove key => remove key
  | .clear => clear
  | .getAllKeys => discard (getAllKeys visit)

/-- The state after a call, where it returns. -/
def step (s : GuardedState ConfigManager) (op : Operation) : Option (GuardedState ConfigManager) :=
  (call putDouble visit visitCategories op s).map Prod.snd

end Saving

/-- The constructor, on the members as they are initialized. -/
def create : Option (GuardedState ConfigManager) :=
  (setDefaultConfig (free { values := ∅ })).map Prod.snd

end NetSentry.ConfigLocking
