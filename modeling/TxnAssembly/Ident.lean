import TxnAssembly.Text.Tree

/-!
# Identifiers

Contexts and transactions carry 64-bit numbers. A context's number is unique
among contexts, a transaction's number is unique within its context.
-/
namespace TxnAssembly

/-- Identifier of a context. -/
structure ContextId where
  raw : UInt64
deriving DecidableEq, Repr, Inhabited

/-- Identifier of a transaction within its context. -/
structure TxnId where
  raw : UInt64
deriving DecidableEq, Repr, Inhabited

namespace ContextId

def shown (i : ContextId) : String := "stm" ++ toString i.raw.toNat

def tree (i : ContextId) : Text.Tree := .wrapped "StmId" (.nat i.raw.toNat)

end ContextId

namespace TxnId

def shown (i : TxnId) : String := "t" ++ toString i.raw.toNat

def tree (i : TxnId) : Text.Tree := .wrapped "TxnId" (.nat i.raw.toNat)

end TxnId

/-- What a list of identifiers shows: each one's number and texts, the list in
ascending order, how many different ones there are, and how each compares with
the next. -/
structure Survey where
  raw : List UInt64
  shown : List String
  trees : List Text.Tree
  sorted : List String
  distinct : Nat
  adjacent : List Ordering

/-- Identifiers are ordered by their numbers. -/
def survey (numbers : List UInt64) (shown : UInt64 → String) (tree : UInt64 → Text.Tree) :
    Survey where
  raw := numbers
  shown := numbers.map shown
  trees := numbers.map tree
  sorted := (numbers.mergeSort (· ≤ ·)).map shown
  distinct := numbers.eraseDups.length
  adjacent := numbers.zipWith (fun a b => compare a b) numbers.tail

def surveyContexts (numbers : List UInt64) : Survey :=
  survey numbers (fun n => (ContextId.mk n).shown) (fun n => (ContextId.mk n).tree)

def surveyTxns (numbers : List UInt64) : Survey :=
  survey numbers (fun n => (TxnId.mk n).shown) (fun n => (TxnId.mk n).tree)

end TxnAssembly
