import TxnAssembly.Probe

/-!
# Scripted steps

A script says what a step does when it runs: which commands it carries out, what
it installs and keeps, and how it ends. It is data, and its program is read off
it. What its commands answer goes into the journal of the session.
-/
namespace TxnAssembly.Session

/-- How a step arrives at its outcome. -/
inductive Verdict where
  | fixed (ok : Bool)
  /-- The step has run at most that often, this time included. -/
  | callsAtMost (n : Nat)
  | hasPlan
  | actionCountIs (n : Nat)
  | txnIdIs (n : Nat)
  | contextIdIs (n : Nat)
deriving DecidableEq, Repr

/-- The outcome of the `nth` run against a transaction. Without a transaction
nothing about one holds. -/
def Verdict.decide (v : Verdict) (nth : Nat) (txn : Option TxnView) : Bool :=
  match v, txn with
  | .fixed ok, _ => ok
  | .callsAtMost n, _ => nth ≤ n
  | .hasPlan, some view => view.hasPlan
  | .actionCountIs n, some view => view.actionCount = n
  | .txnIdIs n, some view => view.id.raw.toNat = n
  | .contextIdIs n, some view => view.context.raw.toNat = n
  | _, none => false

/-- What is wrong with an instruction that cannot be understood. -/
inductive Malformed where
  | unknownCommand (name : String)
  | badField (name : String)
deriving DecidableEq, Repr

/-- One line of a script. -/
inductive Instruction (S : Type) where
  | command (command : Command S)
  /-- Asks for the recorded calls, and for the count of one name. -/
  | census (name : Option String)
  /-- Is answered with its fault when its turn comes. -/
  | malformed (fault : Malformed)

/-- A scripted step. -/
structure Step where
  name : String
  verdict : Verdict
  /-- Notes the view of the transaction. -/
  observe : Bool
  /-- Keeps the plan of the transaction in a slot. -/
  keepPlan : Option String
  /-- Installs the actions of these slots. -/
  install : Option (List String)
  tasks : List (Instruction Step)
  /-- The tasks are done in that many runs only. -/
  limit : Option Nat
  panic : Option String

/-- The recorded calls as they are asked for. -/
structure Census where
  untouched : Bool
  calls : List String
  count : Option Nat
deriving DecidableEq, Repr

def Census.take (p : Probe) (name : Option String) : Census where
  untouched := p.isUntouched
  calls := p.calls
  count := name.map p.count

/-- What an instruction leads to. -/
inductive Reply where
  | answer (answer : Answer)
  | failed (why : Failure)
  | census (census : Census)
  | malformed (fault : Malformed)
  /-- Steps were nested more deeply than is allowed. -/
  | abandoned

def Reply.of (result : Except Failure Answer) : Reply :=
  match result with
  | .ok a => .answer a
  | .error why => .failed why

/-- What a step has noted, under its name. -/
structure Note where
  author : String
  reply : Reply

/-- The memory of a session: every call ever made, and the notes since the last
instruction. -/
structure Journal where
  probe : Probe := {}
  notes : List Note := []

namespace Journal

def record (j : Journal) (name : String) : Journal :=
  { j with probe := j.probe.record name }

def note (j : Journal) (author : String) (reply : Reply) : Journal :=
  { j with notes := j.notes ++ [⟨author, reply⟩] }

end Journal

namespace Step

abbrev Script := Program Step Journal

def note (author : String) (reply : Reply) (next : Script) : Script :=
  .remember (·.note author reply) fun _ => next

/-- Does tasks in order and notes each reply. -/
def doTasks (author : String) (tasks : List (Instruction Step)) (next : Script) : Script :=
  match tasks with
  | [] => next
  | .command c :: rest =>
    .perform c fun result => note author (.of result) (doTasks author rest next)
  | .census name :: rest =>
    .remember (fun j => j.note author (.census (.take j.probe name)))
      fun _ => doTasks author rest next
  | .malformed fault :: rest => note author (.malformed fault) (doTasks author rest next)

/-- The end of a step: a panic if one is scripted, else the verdict on the
transaction as it is then. -/
def conclude (s : Step) (nth : Nat) : Script :=
  match s.panic with
  | some text => .panic text
  | none => .look fun view => .finish (s.verdict.decide nth view)

def mayDoTasks (s : Step) (nth : Nat) : Bool :=
  match s.limit with
  | none => true
  | some limit => nth ≤ limit

/-- The tasks, if this run still does them, and then the end. -/
def work (s : Step) (nth : Nat) : Script :=
  if s.mayDoTasks nth then doTasks s.name s.tasks (s.conclude nth) else s.conclude nth

def installing (s : Step) (next : Script) : Script :=
  match s.install with
  | none => next
  | some actions => .install actions next

def keeping (s : Step) (next : Script) : Script :=
  match s.keepPlan with
  | none => next
  | some into => .keepPlan into next

def observing (s : Step) (next : Script) : Script :=
  if s.observe then
    .look fun view =>
      match view with
      | none => next
      | some view => note s.name (.answer (.txn view)) next
  else next

/-- A step records its name first; all it does later may depend on how often it
has run. -/
def program (s : Step) : Script :=
  .remember (·.record s.name) fun j =>
    s.observing (s.keeping (s.installing (s.work (j.probe.count s.name))))

end Step

end TxnAssembly.Session
