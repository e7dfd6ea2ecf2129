import TxnAssembly.Action
import TxnAssembly.BuildError

/-!
# Log events

Builders, installations and invocations report what they do as events. An event
is kept as what happened; its level, message and fields are read off it.
-/
namespace TxnAssembly

inductive Event where
  | builderCreated (label : Option String)
  | buildRestarted (label : Option String) (discarded : Nat)
  | buildStarted (label : Option String)
  | actionAppended (label : Option String) (kind : ActionKind) (position : Nat)
  | finalizing (label : Option String) (actions : Nat)
  | planInstalled (context : ContextId) (txn : TxnId) (actions : Nat)
  | retrievedUnfinalized (label : Option String) (phase : Phase)
  /-- An action was invoked whose transaction is gone. -/
  | orphaned (kind : ActionKind)
  /-- The primary step of a choice failed. -/
  | fallingBack
  /-- An invocation returned. -/
  | invoked (kind : ActionKind) (ok : Bool)
deriving DecidableEq, Repr

namespace Event

inductive Level where
  | trace
  | debug
  | warn
deriving DecidableEq, Repr

def Level.shown (l : Level) : String :=
  match l with
  | .trace => "TRACE"
  | .debug => "DEBUG"
  | .warn => "WARN"

/-- The value of a field. -/
inductive Value where
  | text (s : String)
  | count (n : Nat)
  | flag (b : Bool)
deriving DecidableEq, Repr

def level (e : Event) : Level :=
  match e with
  | builderCreated .. | buildRestarted .. | buildStarted .. | finalizing ..
  | planInstalled .. | retrievedUnfinalized .. => .debug
  | actionAppended .. | fallingBack | invoked .. => .trace
  | orphaned .. => .warn

def message (e : Event) : String :=
  match e with
  | builderCreated .. => "transaction builder created"
  | buildRestarted .. => "restarting build"
  | buildStarted .. => "build started"
  | actionAppended .. => "action appended"
  | finalizing .. => "finalizing transaction"
  | planInstalled .. => "execution plan installed"
  | retrievedUnfinalized .. => "transaction retrieved without a current finalize"
  | orphaned .. => "transaction dropped before its action ran"
  | fallingBack => "primary step failed, trying fallback"
  | invoked .. => "deferred action invoked"

/-- A builder without a label leaves the field out. -/
def labelField (label : Option String) : List (String × Value) :=
  match label with
  | none => []
  | some text => [("label", .text text)]

def fields (e : Event) : List (String × Value) :=
  match e with
  | builderCreated label => labelField label
  | buildRestarted label discarded => labelField label ++ [("discarded", .count discarded)]
  | buildStarted label => labelField label
  | actionAppended label kind position =>
    labelField label ++ [("kind", .text kind.shown), ("position", .count position)]
  | finalizing label actions => labelField label ++ [("actions", .count actions)]
  | planInstalled context txn actions =>
    [("stm", .text context.shown), ("txn", .text txn.shown), ("actions", .count actions)]
  | retrievedUnfinalized label phase => labelField label ++ [("phase", .text phase.shown)]
  | orphaned kind => [("kind", .text kind.shown)]
  | fallingBack => []
  | invoked kind ok => [("kind", .text kind.shown), ("ok", .flag ok)]

end Event

end TxnAssembly
