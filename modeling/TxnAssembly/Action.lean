import TxnAssembly.Ident

/-!
# Deferred actions

An action is a step, or a choice between two steps, that is to run against a
transaction later. It names its transaction twice, in its body and by its anchor, and
does not keep it alive: the transaction owns its plan and the plan its actions. Steps
are named by codes of a type `S`, so an action is plain data; what a code does is given
separately.
-/
namespace TxnAssembly

/-- The place of a context among all contexts made so far. -/
structure ContextKey where
  index : Nat
deriving DecidableEq, Repr

/-- The place of a transaction among all transactions made so far. -/
structure TxnKey where
  index : Nat
deriving DecidableEq, Repr

/-- Tells the bodies of separately made actions apart. -/
structure BodyKey where
  index : Nat
deriving DecidableEq, Repr

/-- The shape of an action. -/
inductive ActionKind where
  /-- A single step. -/
  | sequential
  /-- A primary step and a fallback that is tried once. -/
  | choice
deriving DecidableEq, Repr

namespace ActionKind

def shown (k : ActionKind) : String :=
  match k with
  | sequential => "sequential"
  | choice => "choice"

def tree (k : ActionKind) : Text.Tree :=
  match k with
  | sequential => .atom "Sequential"
  | choice => .atom "Choice"

end ActionKind

/-- What an action does when it is invoked. The steps run against the transaction that
the body has captured. -/
inductive Body (S : Type) where
  | step (txn : TxnKey) (step : S)
  | choice (txn : TxnKey) (primary fallback : S)
  /-- A step that belongs to no transaction. -/
  | free (step : S)
deriving DecidableEq, Repr

/-- The transaction that the body has captured. -/
def Body.txn? {S : Type} (b : Body S) : Option TxnKey :=
  match b with
  | step txn _ => some txn
  | choice txn _ _ => some txn
  | free _ => none

/-- The kind and the anchor stand beside the body, which does not show them. Copies of an
action share its key. -/
structure Action (S : Type) where
  key : BodyKey
  kind : ActionKind
  body : Body S
  /-- The transaction that is asked whether the action is bound. -/
  anchor : Option TxnKey
deriving DecidableEq, Repr

namespace Action

variable {S : Type}

/-- An action of any kind, without an anchor. -/
def fromFn (key : BodyKey) (kind : ActionKind) (body : Body S) : Action S :=
  ⟨key, kind, body, none⟩

def anchored (a : Action S) (t : TxnKey) : Action S := { a with anchor := some t }

/-- Whether two actions are copies of one. -/
def sameBody (a b : Action S) : Bool := a.key = b.key

end Action

/-- A call of a constructor of actions. -/
inductive Recipe (S : Type) where
  | sequential (txn : TxnKey) (step : S)
  | choice (txn : TxnKey) (primary fallback : S)
  | fromFn (kind : ActionKind) (step : S)
deriving DecidableEq, Repr

namespace Recipe

variable {S : Type}

/-- The action that a constructor makes. A bound one is made from its body first, and is
anchored afterwards. -/
def make (x : Recipe S) (key : BodyKey) : Action S :=
  match x with
  | sequential t s => (Action.fromFn key .sequential (.step t s)).anchored t
  | choice t primary fallback =>
    (Action.fromFn key .choice (.choice t primary fallback)).anchored t
  | fromFn kind s => Action.fromFn key kind (.free s)

def kind (x : Recipe S) : ActionKind :=
  match x with
  | sequential _ _ => .sequential
  | choice _ _ _ => .choice
  | fromFn kind _ => kind

def body (x : Recipe S) : Body S :=
  match x with
  | sequential t s => .step t s
  | choice t primary fallback => .choice t primary fallback
  | fromFn _ s => .free s

@[simp] theorem key_make (x : Recipe S) (key : BodyKey) : (x.make key).key = key := by
  cases x <;> rfl

@[simp] theorem kind_make (x : Recipe S) (key : BodyKey) : (x.make key).kind = x.kind := by
  cases x <;> rfl

@[simp] theorem body_make (x : Recipe S) (key : BodyKey) : (x.make key).body = x.body := by
  cases x <;> rfl

/-- A constructor anchors the action to the transaction that the body captures. -/
@[simp] theorem anchor_make (x : Recipe S) (key : BodyKey) :
    (x.make key).anchor = x.body.txn? := by
  cases x <;> rfl

end Recipe

end TxnAssembly
