import TxnAssembly.Builder

/-!
# Views

What a transaction, a builder, a plan or an action shows of itself at a moment.
Whether an action is bound can change later, so views are taken and not kept.
-/
namespace TxnAssembly

/-- Kind and boundness of each action of a plan. -/
abbrev PlanView := List (ActionKind × Bool)

structure TxnView where
  id : TxnId
  context : ContextId
  plan : Option PlanView
deriving DecidableEq, Repr

namespace TxnView

def hasPlan (v : TxnView) : Bool := v.plan.isSome

/-- A transaction without a plan has no actions. -/
def actionCount (v : TxnView) : Nat := (v.plan.map List.length).getD 0

end TxnView

structure BuilderView where
  phase : Phase
  length : Nat
  /-- Number of actions in the installed plan. -/
  installed : Option Nat
deriving DecidableEq, Repr

namespace Engine

variable {S : Type}

def viewPlan (e : Engine S) (plan : List (Action S)) : PlanView :=
  plan.map fun a => (a.kind, e.isBound a)

def viewTxn (e : Engine S) (t : TxnKey) : TxnView where
  id := e.txnId t
  context := (e.context (e.contextOf t)).id
  plan := (e.plan? t).map e.viewPlan

def viewBuilder (e : Engine S) (b : Builder S) : BuilderView where
  phase := b.phase
  length := b.length
  installed := (e.plan? b.txn).map List.length

/-- An action does not show its body. -/
def actionTree (e : Engine S) (a : Action S) : Text.Tree :=
  .record "DeferredAction" [("kind", a.kind.tree), ("bound", .bool (e.isBound a))] true

def planTree (e : Engine S) (plan : List (Action S)) : Text.Tree :=
  .list (plan.map e.actionTree)

def contextTree (e : Engine S) (c : ContextKey) : Text.Tree :=
  let x := e.context c
  .record "Stm"
    [("id", x.id.tree), ("name", .optional (x.name.map .text)),
      ("next_txn_id", .nat x.nextTxn.toNat)] false

/-- The plan stands behind a lock, which is never found locked. -/
def txnTree (e : Engine S) (t : TxnKey) : Text.Tree :=
  .record "Transaction"
    [("id", (e.txnId t).tree), ("stm", e.contextTree (e.contextOf t)),
      ("plan", .record "RwLock"
        [("data", .optional ((e.plan? t).map e.planTree)), ("poisoned", .bool false)]
        true)] false

end Engine

end TxnAssembly
