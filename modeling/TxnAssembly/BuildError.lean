import TxnAssembly.Text.Tree

/-!
# Phases of a builder and misuse of it

An error says that a builder was driven in the wrong order. A step that fails is
no error.
-/
namespace TxnAssembly

/-- Where a builder is in its life. -/
inductive Phase where
  /-- There is no sequence yet. -/
  | unbuilt
  /-- Steps are being collected. -/
  | building
  /-- The sequence has been installed. -/
  | finalized
deriving DecidableEq, Repr

namespace Phase

def shown (p : Phase) : String :=
  match p with
  | unbuilt => "unbuilt"
  | building => "building"
  | finalized => "finalized"

def tree (p : Phase) : Text.Tree :=
  match p with
  | unbuilt => .atom "Unbuilt"
  | building => .atom "Building"
  | finalized => .atom "Finalized"

end Phase

inductive BuildError where
  /-- The operation needs a sequence, and the build has not been started. -/
  | notStarted (operation : String)
  /-- The build was started again where restarts are rejected. -/
  | alreadyStarted (phase : Phase)
deriving DecidableEq, Repr

namespace BuildError

def message (e : BuildError) : String :=
  match e with
  | notStarted operation => "cannot " ++ operation ++ ": build has not been started"
  | alreadyStarted phase => "build already started (phase: " ++ phase.shown ++ ")"

def isNotStarted (e : BuildError) : Bool :=
  match e with
  | notStarted _ => true
  | alreadyStarted _ => false

def tree (e : BuildError) : Text.Tree :=
  match e with
  | notStarted operation => .record "NotStarted" [("operation", .text operation)] false
  | alreadyStarted phase => .record "AlreadyStarted" [("phase", phase.tree)] false

end BuildError

end TxnAssembly
