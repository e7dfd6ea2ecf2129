import TxnAssembly.Builder
import TxnAssembly.Slots

/-!
# The world of a program

A program keeps what it owns in named slots: contexts, builders, handles, plans
and single actions. Builders and handles own a reference to their transaction.
Beside the slots the program has a memory of its own.
-/
namespace TxnAssembly

/-- The five name spaces of slots. -/
structure Shelf (S : Type) where
  contexts : Slots ContextKey := {}
  builders : Slots (Builder S) := {}
  handles : Slots TxnKey := {}
  plans : Slots (List (Action S)) := {}
  actions : Slots (Action S) := {}

/-- Everything that a step or a command can see and change. -/
structure World (S σ : Type) where
  engine : Engine S := {}
  shelf : Shelf S := {}
  memory : σ

namespace World

variable {S σ : Type}

/-- Changes the engine alone. -/
def onEngine (w : World S σ) (f : Engine S → Engine S) : World S σ :=
  { w with engine := f w.engine }

def emit (w : World S σ) (event : Event) : World S σ := w.onEngine (·.emit event)

def hold (w : World S σ) (t : TxnKey) : World S σ := w.onEngine (·.hold t)

def release (w : World S σ) (t : TxnKey) : World S σ := w.onEngine (·.release t)

/-- Gives up a reference if there was one. -/
def release? (w : World S σ) (t : Option TxnKey) : World S σ :=
  match t with
  | none => w
  | some t => w.release t

def storeContext (w : World S σ) (name : String) (c : ContextKey) : World S σ :=
  { w with shelf := { w.shelf with contexts := w.shelf.contexts.put name c } }

/-- The reference of a replaced builder is given up after the new one is in
place. -/
def storeBuilder (w : World S σ) (name : String) (b : Builder S) : World S σ :=
  let old := (w.shelf.builders.get? name).map Builder.txn
  { w with shelf := { w.shelf with builders := w.shelf.builders.put name b } }.release? old

/-- Stores a reference that the caller owns; a replaced one is given up. -/
def storeHandle (w : World S σ) (name : String) (t : TxnKey) : World S σ :=
  let old := w.shelf.handles.get? name
  { w with shelf := { w.shelf with handles := w.shelf.handles.put name t } }.release? old

def storePlan (w : World S σ) (name : String) (plan : List (Action S)) : World S σ :=
  { w with shelf := { w.shelf with plans := w.shelf.plans.put name plan } }

def storeAction (w : World S σ) (name : String) (a : Action S) : World S σ :=
  { w with shelf := { w.shelf with actions := w.shelf.actions.put name a } }

def dropContext (w : World S σ) (name : String) : World S σ :=
  { w with shelf := { w.shelf with contexts := w.shelf.contexts.erase name } }

/-- Empties a builder slot without giving up the builder's reference: the
builder has been taken out. -/
def takeBuilder (w : World S σ) (name : String) : World S σ :=
  { w with shelf := { w.shelf with builders := w.shelf.builders.erase name } }

def dropBuilder (w : World S σ) (name : String) : World S σ :=
  (w.takeBuilder name).release? ((w.shelf.builders.get? name).map Builder.txn)

def dropHandle (w : World S σ) (name : String) : World S σ :=
  { w with shelf := { w.shelf with handles := w.shelf.handles.erase name } }.release?
    (w.shelf.handles.get? name)

def dropPlan (w : World S σ) (name : String) : World S σ :=
  { w with shelf := { w.shelf with plans := w.shelf.plans.erase name } }

def dropAction (w : World S σ) (name : String) : World S σ :=
  { w with shelf := { w.shelf with actions := w.shelf.actions.erase name } }

end World

end TxnAssembly
