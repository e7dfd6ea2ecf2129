import TxnAssembly.Config.Reader

/-!
# Writing a configuration

The written form is one JSON object without blanks that gives every setting in
a fixed order, defaults included.
-/
namespace TxnAssembly.Config

/-- A label in quotes, or null. -/
def writeLabel (label : Option String) : List Char :=
  match label with
  | none => ['n', 'u', 'l', 'l']
  | some text => Json.encode text.toList

def write (c : Config) : List Char :=
  "\x7b\"label\":".toList ++ writeLabel c.label ++
    ",\"restart_policy\":".toList ++ Json.encode c.restartPolicy.name.toList ++
    ",\"capacity_hint\":".toList ++ Nat.toDigits 10 c.capacityHint.toNat ++ ['\x7d']

/-- The written form as a text. -/
def toJson (c : Config) : String := String.ofList c.write

/-- Everything that a configuration shows of itself. -/
structure Portrait where
  config : Config
  json : String
  tree : Text.Tree
  isDefault : Bool
  /-- Reading the written form gives the configuration back. -/
  readsBack : Bool

def portrait (c : Config) : Portrait where
  config := c
  json := c.toJson
  tree := c.tree
  isDefault := c = {}
  readsBack := match parse c.toJson with
    | .ok d => d = c
    | .error _ => false

end TxnAssembly.Config
