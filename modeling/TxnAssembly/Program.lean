import TxnAssembly.Command

/-!
# Programs of steps

A step may look at the transaction it was given, install a plan on it, carry out
any command and use the program's memory; it ends with an outcome or a panic. A
`Program` is such a step as a tree: each node asks for one thing and goes on
with the answer. Steps run inside commands and commands inside steps, so the
meaning of programs is defined up to a depth of nesting.
-/
namespace TxnAssembly

/-- What a step does, given what it learns on the way. A step of a free action
has no transaction: looking at it gives nothing, and nothing is kept of it or
installed on it. -/
inductive Program (S σ : Type) where
  | finish (ok : Bool)
  | panic (text : String)
  | look (next : Option TxnView → Program S σ)
  /-- Stores the plan of the transaction in a slot, if it has one. -/
  | keepPlan (into : String) (next : Program S σ)
  /-- Installs the actions found in the named slots; empty ones are left out. -/
  | install (actions : List String) (next : Program S σ)
  | perform (command : Command S) (next : Except Failure Answer → Program S σ)
  /-- Changes the memory and goes on with the changed one. -/
  | remember (change : σ → σ) (next : σ → Program S σ)

namespace Program

variable {S σ : Type}

/-- Stores the plan that a transaction has now. -/
def storePlanOf (t : TxnKey) (into : String) (w : World S σ) : World S σ :=
  match w.engine.plan? t with
  | none => w
  | some plan => w.storePlan into plan

/-- Installs what the named action slots hold now. -/
def installFrom (t : TxnKey) (names : List String) (w : World S σ) : World S σ :=
  w.onEngine (·.install t (names.filterMap w.shelf.actions.get?))

/-- Runs a program against a transaction, given the meaning of nested steps. -/
def run (steps : Meaning S σ) (t : Option TxnKey) (p : Program S σ) : Run S σ Bool :=
  match p with
  | finish ok => return ok
  | panic text => Run.fail (.panic text)
  | look next => do
    let view ← Run.inspect fun w => t.map w.engine.viewTxn
    (next view).run steps t
  | keepPlan into next => do
    Run.change fun w => (t.map fun t => storePlanOf t into w).getD w
    next.run steps t
  | install actions next => do
    Run.change fun w => (t.map fun t => installFrom t actions w).getD w
    next.run steps t
  | perform command next => do
    let reply ← Run.settle (command.perform steps)
    (next reply).run steps t
  | remember update next => do
    Run.change fun w => { w with memory := update w.memory }
    let memory ← Run.inspect World.memory
    (next memory).run steps t

end Program

/-- The meaning that programs give to step codes, for runs in which steps are
nested at most `depth` deep. -/
def Meaning.ofPrograms {S σ : Type} (programs : S → Program S σ) (depth : Nat) :
    Meaning S σ :=
  match depth with
  | 0 => fun _ _ => Run.halt .tooDeep
  | depth + 1 => fun s t => (programs s).run (Meaning.ofPrograms programs depth) t

end TxnAssembly
