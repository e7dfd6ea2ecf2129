import TxnAssembly.Text.Tree

/-!
# Configuration of a builder

A configuration has three settings, each with a default. Only the restart
policy decides anything; the label marks log events and the capacity hint
pre-sizes the sequence of actions.
-/
namespace TxnAssembly

/-- What starting a build does when the builder already holds a sequence. -/
inductive RestartPolicy where
  | reject
  | restart
deriving DecidableEq, Repr

namespace RestartPolicy

def name (p : RestartPolicy) : String :=
  match p with
  | reject => "reject"
  | restart => "restart"

def ofName? (s : String) : Option RestartPolicy :=
  if s = "reject" then some reject
  else if s = "restart" then some restart
  else none

@[simp] theorem ofName?_name (p : RestartPolicy) : ofName? p.name = some p := by
  cases p <;> decide

def tree (p : RestartPolicy) : Text.Tree :=
  match p with
  | reject => .atom "Reject"
  | restart => .atom "Restart"

end RestartPolicy

/-- Settings of one builder, fixed when it is created. -/
structure Config where
  label : Option String := none
  restartPolicy : RestartPolicy := .reject
  capacityHint : UInt64 := 4
deriving DecidableEq, Repr

namespace Config

/-- One setting changed away from the defaults. -/
inductive Setting where
  | label (text : String)
  | restartPolicy (policy : RestartPolicy)
  | capacityHint (count : UInt64)
deriving DecidableEq, Repr

/-- Changes one setting and keeps the others. -/
def set (c : Config) (s : Setting) : Config :=
  match s with
  | .label text => { c with label := some text }
  | .restartPolicy policy => { c with restartPolicy := policy }
  | .capacityHint count => { c with capacityHint := count }

/-- The defaults with the settings applied in order. -/
def ofSettings (settings : List Setting) : Config :=
  settings.foldl set {}

/-- Bytes that one action takes in a sequence. -/
def actionBytes : Nat := 40

/-- No sequence may take more bytes than the largest signed 64-bit number. -/
def isAllocatable (c : Config) : Bool :=
  c.capacityHint.toNat * actionBytes < Nat.pow 2 63

def tree (c : Config) : Text.Tree :=
  .record "BuilderConfig"
    [("label", .optional (c.label.map .text)),
      ("restart_policy", c.restartPolicy.tree),
      ("capacity_hint", .nat c.capacityHint.toNat)] false

end Config

end TxnAssembly
