import NetSentry.Core.ConfigManager
import NetSentry.Lib.KeyedFold

/-!
# `ConfigManager::generateYaml`

The text that `saveToFile` writes: the settings in sections by category, one line each.  The two
unordered maps that it goes through may be visited in any order, and the formatting of a `double`
by a stream is a parameter.
-/

namespace NetSentry.ConfigManager

open Bytes KeyedFold

/-- `ConfigManager::getAllKeys`, given the order in which the loop visits `values_`. -/
def getAllKeys (c : ConfigManager) (visit : VisitOrder c.values) : List Bytes := visit.1

/-- The category of a key: what stands before its first underscore. -/
def categoryOf (key : Bytes) : Bytes :=
  match Search.find [95] key with
  | none => ascii "general"
  | some pos => key.take pos

/-- The keys by category; each is pushed to the vector of its category. -/
def categories (allKeys : List Bytes) : Finmap fun _ : Bytes => List Bytes :=
  allKeys.foldl (accumulate categoryOf fun keys key => keys.getD [] ++ [key]) ∅

/-- What is written for a value. -/
def yamlValue (putDouble : Double → Bytes) : ConfigEntry → Bytes
  | ⟨.string, value⟩ => 34 :: (value ++ [34])
  | ⟨.bool, value⟩ => ascii (if value then "true" else "false")
  | ⟨.int64, value⟩ => signedDecimal value.toInt
  | ⟨.uint32, value⟩ => decimal value.toNat
  | ⟨.uint16, value⟩ => decimal value.toNat
  | ⟨.double, value⟩ => putDouble value

/-- What is written for a key: its line, where the key is found. -/
def yamlLine (c : ConfigManager) (putDouble : Double → Bytes) (key : Bytes) : Bytes :=
  match c.values.lookup key with
  | none => []
  | some entry => key ++ ascii ": " ++ yamlValue putDouble entry ++ ascii "\n"

/-- What is written for a category. -/
def yamlSection (c : ConfigManager) (putDouble : Double → Bytes) (category : Bytes)
    (keys : List Bytes) : Bytes :=
  ascii "# " ++ category ++ ascii " settings\n" ++ keys.flatMap (c.yamlLine putDouble) ++ ascii "\n"

/-- `ConfigManager::generateYaml`, given the orders in which its loops visit `values_` and
`categories`. -/
def generateYaml (c : ConfigManager) (putDouble : Double → Bytes) (visit : VisitOrder c.values)
    (visitCategories : VisitOrder (categories (c.getAllKeys visit))) : Bytes :=
  ascii "# NetSentry Configuration\n\n" ++
    visitCategories.1.flatMap fun category =>
      c.yamlSection putDouble category
        (((categories (c.getAllKeys visit)).lookup category).getD [])

end NetSentry.ConfigManager
