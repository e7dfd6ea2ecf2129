import TxnAssembly.Proofs.Passage

/-!
# Chronicles of runs

Steps look at plans and install others while plans are played, and invoke actions whose steps
do the same. A chronicle of a run lists, in order, the installations and the worlds in which
a step has got to its next instruction, however deep it is nested. It is written along the
run, from what commands and programs ask for, and not from the plans that are found in the
worlds.
-/
namespace TxnAssembly

variable {S σ α β : Type}

/-- One entry of a chronicle. -/
inductive Note (S σ : Type) where
  | installed (t : TxnKey) (plan : List (Action S))
  /-- A step is at an instruction in this world: whatever it looks at, it sees now. -/
  | passed (w : World S σ)

namespace Note

/-- The plan that is installed on a transaction. -/
def planOn? (t : TxnKey) (n : Note S σ) : Option (List (Action S)) :=
  match n with
  | installed u plan => if u = t then some plan else none
  | passed _ => none

/-- The last plan that is installed on a transaction, or the given one if none is. -/
def latest (t : TxnKey) (plan : Option (List (Action S))) (notes : List (Note S σ)) :
    Option (List (Action S)) :=
  (notes.filterMap (planOn? t)).getLast?.or plan

/-- The same for a transaction that has a plan to begin with. -/
def current (t : TxnKey) (plan : List (Action S)) (notes : List (Note S σ)) : List (Action S) :=
  (notes.filterMap (planOn? t)).getLast?.getD plan

section Latest

variable (t : TxnKey) (plan : Option (List (Action S)))

@[simp] theorem latest_installed (u : TxnKey) (actions : List (Action S)) :
    latest t plan [(installed u actions : Note S σ)] = if u = t then some actions else plan := by
  by_cases h : u = t <;> simp [latest, planOn?, h]

theorem latest_append (notes more : List (Note S σ)) :
    latest t plan (notes ++ more) = latest t (latest t plan notes) more := by
  rw [latest, latest, latest, List.filterMap_append, List.getLast?_append, Option.or_assoc]

theorem latest_some (plan : List (Action S)) (notes : List (Note S σ)) :
    latest t (some plan) notes = some (current t plan notes) := by
  rw [latest, current]
  cases (notes.filterMap (planOn? t)).getLast? <;> rfl

end Latest

/-- A builder with a sequence installs it when it is finalized. -/
def ofCall (b : Builder S) (call : Call S) : List (Note S σ) :=
  match call, b.sequence with
  | .finalize, some actions => [installed b.txn actions]
  | _, _ => []

/-- What a step installs on its own transaction, if it has one. -/
def ofInstall (t : Option TxnKey) (names : List String) (w : World S σ) : List (Note S σ) :=
  match t with
  | some t => [installed t (names.filterMap w.shelf.actions.get?)]
  | none => []

end Note

/-- Programs that are nested at most `depth` deep, and what is noted when a step is
evaluated. -/
structure Chronicler (S σ : Type) where
  programs : S → Program S σ
  depth : Nat
  step : S → Option TxnKey → World S σ → List (Note S σ)

namespace Chronicler

variable (C : Chronicler S σ)

def steps : Meaning S σ := Meaning.ofPrograms C.programs C.depth

/-- What is noted while the steps of an action run. -/
def body (b : Body S) (w : World S σ) : List (Note S σ) :=
  match b with
  | .free s => C.step s none w
  | .step t s => if w.engine.isAlive t then C.step s (some t) (w.hold t) else []
  | .choice t primary fallback =>
    if w.engine.isAlive t then
      C.step primary (some t) (w.hold t) ++
        Run.after (C.steps primary (some t) (w.hold t)) fun ok u =>
          if ok then [] else C.step fallback (some t) (u.emit .fallingBack)
    else []

def invoke (a : Action S) (w : World S σ) : List (Note S σ) := C.body a.body w

def invokeAll (plan : List (Action S)) (w : World S σ) : List (Note S σ) :=
  match plan with
  | [] => []
  | a :: rest => C.invoke a w ++ Run.after (C.steps.invoke a w) fun _ u => invokeAll rest u

def invokeUntilFailure (plan : List (Action S)) (w : World S σ) : List (Note S σ) :=
  match plan with
  | [] => []
  | a :: rest => C.invoke a w ++ Run.after (C.steps.invoke a w) fun ok u =>
      if ok then invokeUntilFailure rest u else []

def play (t : TxnKey) (w : World S σ) : List (Note S σ) :=
  match w.engine.plan? t with
  | none => []
  | some plan => C.invokeAll plan (w.hold t)

/-- What is noted while a command is carried out. -/
def perform (c : Command S) (w : World S σ) : List (Note S σ) :=
  match c with
  | .install handle actions =>
    Run.after (Command.findAll actions w) fun actions u =>
      Run.after (Command.find handle Shelf.handles u) fun t _ => [.installed t actions]
  | .build builder call =>
    Run.after (Command.find builder Shelf.builders w) fun b _ => Note.ofCall b call
  | .play handle => Run.after (Command.find handle Shelf.handles w) C.play
  | .playPlan plan => Run.after (Command.find plan Shelf.plans w) C.invokeAll
  | .runPlanUntilFailure plan =>
    Run.after (Command.find plan Shelf.plans w) C.invokeUntilFailure
  | .invokeAt plan index =>
    Run.after (Command.find plan Shelf.plans w) fun plan u =>
      Run.after (Command.pick plan index u) C.invoke
  | .invoke action => Run.after (Command.find action Shelf.actions w) C.invoke
  | _ => []

/-- What is noted while a program runs. -/
def run (t : Option TxnKey) (p : Program S σ) (w : World S σ) : List (Note S σ) :=
  match p with
  | .finish _ => [.passed w]
  | .panic _ => [.passed w]
  | .look next => .passed w :: run t (next (t.map w.engine.viewTxn)) w
  | .keepPlan into next =>
    .passed w :: run t next ((t.map fun t => Program.storePlanOf t into w).getD w)
  | .install actions next =>
    .passed w :: (Note.ofInstall t actions w ++
      run t next ((t.map fun t => Program.installFrom t actions w).getD w))
  | .perform command next =>
    .passed w :: (C.perform command w ++
      Run.after (Run.settle (command.perform C.steps) w) fun reply u => run t (next reply) u)
  | .remember change next =>
    .passed w :: run t (next (change w.memory)) { w with memory := change w.memory }

/-- What is noted when a step is evaluated, from what is noted in the steps nested in it. -/
def noted (programs : S → Program S σ) (depth : Nat) :
    S → Option TxnKey → World S σ → List (Note S σ) :=
  match depth with
  | 0 => fun _ _ _ => []
  | depth + 1 => fun s t w => run ⟨programs, depth, noted programs depth⟩ t (programs s) w

def ofPrograms (programs : S → Program S σ) (depth : Nat) : Chronicler S σ :=
  ⟨programs, depth, noted programs depth⟩

end Chronicler

end TxnAssembly
