import TxnAssembly.Event

/-!
# The engine

The engine knows every context and every transaction ever made. Which
transactions are alive is told by a ledger: it lists each strong reference that
somebody owns, so a transaction with two owners stands in it twice. Plans and
actions own no reference.
-/
namespace TxnAssembly

/-- A context hands out the numbers of its transactions. -/
structure Context where
  id : ContextId
  name : Option String
  nextTxn : UInt64
deriving DecidableEq, Repr, Inhabited

/-- A transaction, with its plan once one has been installed. -/
structure Txn (S : Type) where
  id : TxnId
  context : ContextKey
  plan : Option (List (Action S))

structure Engine (S : Type) where
  contexts : Array Context := #[]
  txns : Array (Txn S) := #[]
  nextContext : UInt64 := 0
  nextBody : Nat := 0
  /-- The ledger of strong references. -/
  holds : List TxnKey := []
  log : List Event := []

namespace Engine

variable {S : Type}

def emit (e : Engine S) (event : Event) : Engine S :=
  { e with log := e.log ++ [event] }

/-- Enters one more owner of a transaction. -/
def hold (e : Engine S) (t : TxnKey) : Engine S :=
  { e with holds := t :: e.holds }

/-- Strikes one owner of a transaction out. -/
def release (e : Engine S) (t : TxnKey) : Engine S :=
  { e with holds := e.holds.erase t }

/-- A transaction lives as long as somebody owns it. -/
def isAlive (e : Engine S) (t : TxnKey) : Bool :=
  t ∈ e.holds

/-- An action is bound while the transaction that it is anchored to lives; one without an
anchor always is. -/
def isBound (e : Engine S) (a : Action S) : Bool :=
  match a.anchor with
  | none => true
  | some t => e.isAlive t

def context (e : Engine S) (c : ContextKey) : Context :=
  e.contexts[c.index]?.getD default

def txn? (e : Engine S) (t : TxnKey) : Option (Txn S) :=
  e.txns[t.index]?

def txnId (e : Engine S) (t : TxnKey) : TxnId :=
  ((e.txn? t).map Txn.id).getD default

/-- The context that a transaction was made in. -/
def contextOf (e : Engine S) (t : TxnKey) : ContextKey :=
  ((e.txn? t).map Txn.context).getD ⟨0⟩

def plan? (e : Engine S) (t : TxnKey) : Option (List (Action S)) :=
  (e.txn? t).bind Txn.plan

/-- Makes a context; contexts are numbered in the order of their making. -/
def openContext (e : Engine S) (name : Option String) : ContextKey × Engine S :=
  (⟨e.contexts.size⟩,
    { e with
      contexts := e.contexts.push ⟨⟨e.nextContext⟩, name, 0⟩
      nextContext := e.nextContext + 1 })

/-- Takes the next transaction number of a context. -/
def takeTxnId (e : Engine S) (c : ContextKey) : TxnId × Engine S :=
  (⟨(e.context c).nextTxn⟩,
    { e with
      contexts := e.contexts.modify c.index fun x => { x with nextTxn := x.nextTxn + 1 } })

/-- Makes a transaction without a plan. Whoever asked for it is its owner. -/
def openTxn (e : Engine S) (c : ContextKey) : TxnKey × Engine S :=
  let (id, e) := e.takeTxnId c
  let t : TxnKey := ⟨e.txns.size⟩
  (t, { e.hold t with txns := e.txns.push ⟨id, c, none⟩ })

/-- Replaces the plan of a transaction. -/
def install (e : Engine S) (t : TxnKey) (actions : List (Action S)) : Engine S :=
  let e := e.emit
    (.planInstalled (e.context (e.contextOf t)).id (e.txnId t) actions.length)
  { e with txns := e.txns.modify t.index fun x => { x with plan := some actions } }

/-- Makes an action with a body of its own. -/
def newAction (e : Engine S) (x : Recipe S) : Action S × Engine S :=
  (x.make ⟨e.nextBody⟩, { e with nextBody := e.nextBody + 1 })

@[simp] theorem kind_newAction (e : Engine S) (x : Recipe S) :
    (e.newAction x).1.kind = x.kind := x.kind_make _

@[simp] theorem body_newAction (e : Engine S) (x : Recipe S) :
    (e.newAction x).1.body = x.body := x.body_make _

@[simp] theorem log_emit (e : Engine S) (event : Event) :
    (e.emit event).log = e.log ++ [event] := rfl

@[simp] theorem isAlive_emit (e : Engine S) (event : Event) (t : TxnKey) :
    (e.emit event).isAlive t = e.isAlive t := rfl

@[simp] theorem isAlive_hold (e : Engine S) (t u : TxnKey) :
    (e.hold t).isAlive u = (u = t || e.isAlive u) := by
  simp [isAlive, hold]

/-- Striking out the only owner ends a transaction, striking out one of several
does not. -/
theorem isAlive_release (e : Engine S) (t : TxnKey) :
    (e.release t).isAlive t = decide (1 < e.holds.count t) := by
  rw [Bool.eq_iff_iff]
  simp only [isAlive, release, decide_eq_true_eq, ← List.count_pos_iff, List.count_erase_self]
  omega

theorem isAlive_release_of_ne (e : Engine S) {t u : TxnKey} (h : u ≠ t) :
    (e.release t).isAlive u = e.isAlive u := by
  simp [isAlive, release, List.mem_erase_of_ne h]

/-- An installation is seen in the transaction it was made on and in no other. -/
theorem plan?_install (e : Engine S) (t u : TxnKey) (actions : List (Action S)) :
    (e.install t actions).plan? u =
      if u = t then (e.txn? t).map fun _ => actions else e.plan? u := by
  obtain ⟨i⟩ := t
  obtain ⟨j⟩ := u
  by_cases h : j = i
  · subst h
    cases he : e.txns[j]? <;> simp [plan?, txn?, install, emit, Array.getElem?_modify, he]
  · have h' : i ≠ j := fun hij => h hij.symm
    simp [plan?, txn?, install, emit, Array.getElem?_modify, h, h']

end Engine

end TxnAssembly
