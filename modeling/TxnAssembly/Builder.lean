import TxnAssembly.Config
import TxnAssembly.Engine

/-!
# Builders

A builder owns a transaction from its making to the retrieval and collects the
actions of its plan. Every call takes the builder and hands it back; a refused
call drops it, and its reference to the transaction with it.
-/
namespace TxnAssembly

structure Builder (S : Type) where
  txn : TxnKey
  sequence : Option (List (Action S))
  phase : Phase
  config : Config

/-- Why a call does not hand its builder back. -/
inductive Refusal where
  | misuse (error : BuildError)
  /-- The configured capacity exceeds what can be allocated. -/
  | capacityOverflow
deriving DecidableEq, Repr

/-- A call that hands a builder back. -/
inductive Call (S : Type) where
  | startBuild
  | startBuildWith (step : S)
  | append (step : S)
  | appendChoice (primary fallback : S)
  | finalize
deriving DecidableEq, Repr

namespace Builder

variable {S : Type}

/-- What a call leads to. -/
abbrev Outcome (S : Type) := Except Refusal (Builder S) × Engine S

/-- Makes a builder around a new transaction. -/
def create (config : Config) (c : ContextKey) (e : Engine S) : Builder S × Engine S :=
  let (t, e) := e.openTxn c
  (⟨t, none, .unbuilt, config⟩, e.emit (.builderCreated config.label))

/-- The actions collected so far; none before the build is started. -/
def actions (b : Builder S) : List (Action S) := b.sequence.getD []

def length (b : Builder S) : Nat := b.actions.length

/-- Drops the builder. -/
def refuse (b : Builder S) (why : Refusal) (e : Engine S) : Outcome S :=
  (.error why, e.release b.txn)

/-- Begins an empty sequence, if there is room for the configured capacity. -/
def openSequence (b : Builder S) (e : Engine S) : Outcome S :=
  if b.config.isAllocatable then
    (.ok { b with sequence := some [], phase := .building },
      e.emit (.buildStarted b.config.label))
  else b.refuse .capacityOverflow e

/-- Starts collecting. A builder that has a sequence already starts over only
under the policy that allows it. -/
def startBuild (b : Builder S) (e : Engine S) : Outcome S :=
  match b.sequence with
  | none => b.openSequence e
  | some actions =>
    match b.config.restartPolicy with
    | .reject => b.refuse (.misuse (.alreadyStarted b.phase)) e
    | .restart =>
      b.openSequence (e.emit (.buildRestarted b.config.label actions.length))

/-- Puts an action at the end of the sequence. -/
def push (b : Builder S) (operation : String) (x : Recipe S) (e : Engine S) : Outcome S :=
  match b.sequence with
  | none => b.refuse (.misuse (.notStarted operation)) e
  | some actions =>
    let (action, e) := e.newAction x
    (.ok { b with sequence := some (actions ++ [action]), phase := .building },
      e.emit (.actionAppended b.config.label action.kind actions.length))

def append (b : Builder S) (step : S) (e : Engine S) : Outcome S :=
  b.push "append" (.sequential b.txn step) e

/-- A choice is a single action of the plan. -/
def appendChoice (b : Builder S) (primary fallback : S) (e : Engine S) : Outcome S :=
  b.push "append_choice" (.choice b.txn primary fallback) e

/-- Starts collecting with a first step. -/
def startBuildWith (b : Builder S) (step : S) (e : Engine S) : Outcome S :=
  match b.startBuild e with
  | (.ok b, e) => b.append step e
  | (.error why, e) => (.error why, e)

/-- Installs what has been collected as the plan of the transaction. -/
def finalize (b : Builder S) (e : Engine S) : Outcome S :=
  match b.sequence with
  | none => b.refuse (.misuse (.notStarted "finalize")) e
  | some actions =>
    let e := e.emit (.finalizing b.config.label actions.length)
    (.ok { b with phase := .finalized }, e.install b.txn actions)

/-- Hands the transaction out; the builder's reference goes with it. -/
def retrieve (b : Builder S) (e : Engine S) : TxnKey × Engine S :=
  (b.txn,
    if b.phase = .finalized then e
    else e.emit (.retrievedUnfinalized b.config.label b.phase))

/-- Carries out one call. -/
def call (b : Builder S) (c : Call S) (e : Engine S) : Outcome S :=
  match c with
  | .startBuild => b.startBuild e
  | .startBuildWith step => b.startBuildWith step e
  | .append step => b.append step e
  | .appendChoice primary fallback => b.appendChoice primary fallback e
  | .finalize => b.finalize e

/-- Carries out calls in order, up to the first that is refused. -/
def callAll (b : Builder S) (cs : List (Call S)) (e : Engine S) : Outcome S :=
  match cs with
  | [] => (.ok b, e)
  | c :: cs =>
    match b.call c e with
    | (.ok b, e) => b.callAll cs e
    | (.error why, e) => (.error why, e)

def tree (b : Builder S) : Text.Tree :=
  .record "ActionSequenceBuilder"
    [("phase", b.phase.tree), ("actions", .nat b.length), ("config", b.config.tree)] true

end Builder

end TxnAssembly
