import TxnAssembly.Config
import TxnAssembly.Decimal.Shortest
import TxnAssembly.Json.Fault

/-!
# Why a text is not a configuration

Either the text is no JSON, or a value in it is not of the kind that its place
asks for. The second sort of problem has a message of its own.
-/
namespace TxnAssembly.Config

/-- The three keys of a configuration document. -/
inductive Field where
  | label
  | restartPolicy
  | capacityHint
deriving DecidableEq, Repr

namespace Field

def name (f : Field) : String :=
  match f with
  | label => "label"
  | restartPolicy => "restart_policy"
  | capacityHint => "capacity_hint"

def ofName? (s : String) : Option Field :=
  if s = "label" then some label
  else if s = "restart_policy" then some restartPolicy
  else if s = "capacity_hint" then some capacityHint
  else none

@[simp] theorem ofName?_name (f : Field) : ofName? f.name = some f := by
  cases f <;> decide

end Field

/-- A value that stands where another kind of value was expected. -/
inductive Found where
  | null
  | boolean (b : Bool)
  | integer (n : Int)
  | real (x : Float)
  | text (s : String)
  | sequence
  | map

def Found.describe (f : Found) : String :=
  match f with
  | .null => "null"
  | .boolean b => "boolean `" ++ (if b then "true" else "false") ++ "`"
  | .integer n => "integer `" ++ toString n ++ "`"
  | .real x => "floating point `" ++ Decimal.render x ++ "`"
  | .text s => "string " ++ Text.quote s
  | .sequence => "sequence"
  | .map => "map"

/-- The kind of value that a place asks for. -/
inductive Expected where
  | document
  | label
  | unit
  | size
deriving DecidableEq, Repr

def Expected.describe (e : Expected) : String :=
  match e with
  | .document => "struct BuilderConfig"
  | .label => "a string"
  | .unit => "unit"
  | .size => "usize"

inductive Problem where
  | fault (fault : Json.Fault)
  | wrongKind (found : Found) (expected : Expected)
  /-- A capacity of `-n`. -/
  | negativeSize (n : Nat)
  | unknownPolicy (name : String)
  | repeatedKey (field : Field)

/-- A text that is no JSON gets no message. -/
def Problem.message? (p : Problem) : Option String :=
  match p with
  | .fault _ => none
  | .wrongKind found expected =>
    some ("invalid type: " ++ found.describe ++ ", expected " ++ expected.describe)
  | .negativeSize n =>
    some ((("invalid value: " ++ (Found.integer (-n)).describe) ++ ", expected ") ++
      Expected.size.describe)
  | .unknownPolicy name =>
    some ("unknown variant `" ++ name ++ "`, expected `reject` or `restart`")
  | .repeatedKey field => some ("duplicate field `" ++ field.name ++ "`")

end TxnAssembly.Config
