import TxnAssembly.Config.Problem
import TxnAssembly.World

/-!
# Running actions

Running an action means applying its steps to the world. What a step code does
is a parameter, so the rules below hold for every meaning of steps. A run keeps
the world it has reached when it halts.
-/
namespace TxnAssembly

/-- Why something that was asked for was not done. -/
inductive Failure where
  | emptySlot (name : String)
  | noSuchIndex (index : Nat)
  | misuse (error : BuildError)
  | badConfig (problem : Config.Problem)
  | panic (text : String)

/-- A failure is answered by whoever asked. A run that nests deeper than its
bound ends altogether. -/
inductive Halt where
  | failure (why : Failure)
  | tooDeep

/-- A computation on worlds that may halt. -/
def Run (S σ α : Type) := World S σ → Except Halt α × World S σ

namespace Run

variable {S σ α β : Type}

instance : Monad (Run S σ) where
  pure a := fun w => (.ok a, w)
  bind x f := fun w =>
    match x w with
    | (.ok a, w) => f a w
    | (.error halt, w) => (.error halt, w)

@[simp] theorem pure_apply (a : α) (w : World S σ) :
    (pure a : Run S σ α) w = (.ok a, w) := rfl

theorem bind_apply (x : Run S σ α) (f : α → Run S σ β) (w : World S σ) :
    (x >>= f) w = match x w with
      | (.ok a, w) => f a w
      | (.error halt, w) => (.error halt, w) := rfl

/-- After a run that returns the next one goes on. -/
theorem bind_of_ok {x : Run S σ α} {w : World S σ} {a : α} (h : (x w).1 = .ok a)
    (f : α → Run S σ β) : (x >>= f) w = f a (x w).2 := by
  have hx : x w = (.ok a, (x w).2) := Prod.ext h rfl
  rw [bind_apply, hx]

/-- A sequence of runs returns only if each of them does. -/
theorem bind_eq_ok {x : Run S σ α} {f : α → Run S σ β} {w : World S σ} {b : β}
    (h : ((x >>= f) w).1 = .ok b) : ∃ a, (x w).1 = .ok a ∧ (f a (x w).2).1 = .ok b := by
  cases hx : (x w).1 with
  | ok a =>
    rw [bind_of_ok hx] at h
    exact ⟨a, rfl, h⟩
  | error halt =>
    have hw : x w = (.error halt, (x w).2) := Prod.ext hx rfl
    rw [bind_apply, hw] at h
    cases h

/-- Ends the run. -/
def halt (h : Halt) : Run S σ α := fun w => (.error h, w)

def fail (why : Failure) : Run S σ α := halt (.failure why)

/-- Looks at the world. -/
def inspect (f : World S σ → α) : Run S σ α := fun w => (.ok (f w), w)

/-- Changes the world. -/
def change (f : World S σ → World S σ) : Run S σ Unit := fun w => (.ok (), f w)

/-- An operation of the engine. -/
def onEngine (f : Engine S → α × Engine S) : Run S σ α := fun w =>
  (.ok (f w.engine).1, { w with engine := (f w.engine).2 })

def emit (event : Event) : Run S σ Unit := change (·.emit event)

/-- Owns a reference to a transaction while `x` runs, however `x` ends. -/
def holding (t : TxnKey) (x : Run S σ α) : Run S σ α := fun w =>
  let result := x (w.hold t)
  (result.1, result.2.release t)

/-- Turns a failure into a value; excessive nesting still ends the run. -/
def settle (x : Run S σ α) : Run S σ (Except Failure α) := fun w =>
  match x w with
  | (.ok a, w) => (.ok (.ok a), w)
  | (.error (.failure why), w) => (.ok (.error why), w)
  | (.error .tooDeep, w) => (.error .tooDeep, w)

@[simp] theorem halt_apply (h : Halt) (w : World S σ) :
    (halt h : Run S σ α) w = (.error h, w) := rfl

@[simp] theorem fail_apply (why : Failure) (w : World S σ) :
    (fail why : Run S σ α) w = (.error (.failure why), w) := rfl

@[simp] theorem inspect_apply (f : World S σ → α) (w : World S σ) :
    inspect f w = (.ok (f w), w) := rfl

@[simp] theorem change_apply (f : World S σ → World S σ) (w : World S σ) :
    change f w = (.ok (), f w) := rfl

@[simp] theorem onEngine_apply (f : Engine S → α × Engine S) (w : World S σ) :
    onEngine f w = (.ok (f w.engine).1, { w with engine := (f w.engine).2 }) := rfl

@[simp] theorem emit_apply (event : Event) (w : World S σ) :
    emit event w = (.ok (), w.emit event) := rfl

theorem holding_apply (t : TxnKey) (x : Run S σ α) (w : World S σ) :
    holding t x w = ((x (w.hold t)).1, (x (w.hold t)).2.release t) := rfl

end Run

/-- The meaning of step codes: a step runs against a transaction, or against
none when it belongs to a free action. -/
abbrev Meaning (S σ : Type) := S → Option TxnKey → Run S σ Bool

namespace Meaning

variable {S σ : Type} (steps : Meaning S σ)

/-- Runs `x` against a transaction that is owned meanwhile. If the transaction
is gone, nothing runs and the outcome is `false`. -/
def onLive (t : TxnKey) (kind : ActionKind) (x : Run S σ Bool) : Run S σ Bool := do
  if ← Run.inspect (·.engine.isAlive t) then Run.holding t x
  else
    Run.emit (.orphaned kind)
    return false

/-- Runs the steps of an action. The fallback of a choice runs only after the
primary step has failed, and the transaction is looked for only once. -/
def runBody (b : Body S) : Run S σ Bool :=
  match b with
  | .free s => steps s none
  | .step t s => onLive t .sequential (steps s (some t))
  | .choice t primary fallback => onLive t .choice do
    if ← steps primary (some t) then return true
    Run.emit .fallingBack
    steps fallback (some t)

/-- Runs an action and reports the outcome. -/
def invoke (a : Action S) : Run S σ Bool := do
  let ok ← runBody steps a.body
  Run.emit (.invoked a.kind ok)
  return ok

/-- Invokes every action in order, whatever the outcomes. -/
def invokeAll (plan : List (Action S)) : Run S σ (List Bool) :=
  match plan with
  | [] => return []
  | a :: rest => do
    let ok ← invoke steps a
    let more ← invokeAll rest
    return ok :: more

/-- Invokes the actions in order up to the first that fails. -/
def invokeUntilFailure (plan : List (Action S)) : Run S σ Bool :=
  match plan with
  | [] => return true
  | a :: rest => do
    if ← invoke steps a then invokeUntilFailure rest else return false

/-- Plays the installed plan of a transaction as it is now. The transaction is
owned for the whole run. -/
def play (t : TxnKey) : Run S σ (Option (List Bool)) :=
  Run.holding t do
    match ← Run.inspect (·.engine.plan? t) with
    | none => return none
    | some plan => return some (← invokeAll steps plan)

/-- Runs the installed plan of a transaction up to the first failure. Without a
plan there is nothing that could succeed. -/
def runUntilFailure (t : TxnKey) : Run S σ Bool :=
  Run.holding t do
    match ← Run.inspect (·.engine.plan? t) with
    | none => return false
    | some plan => invokeUntilFailure steps plan

end Meaning

end TxnAssembly
