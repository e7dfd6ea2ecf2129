import TxnAssembly.Proofs.Assembly
import TxnAssembly.Proofs.History

/-!
# Orders to a builder

The owner of a builder can call it or have it hand its transaction out. A refused call
and the retrieval end the builder, and who gives it an order after that gives it to
nobody. Whatever it is asked, a builder acts on its own transaction: the contexts and all
other transactions stay as they are, and the log grows.
-/
namespace TxnAssembly

variable {S : Type}

/-- What can be asked of a builder. -/
inductive Order (S : Type) where
  | call (c : Call S)
  | retrieve
deriving DecidableEq, Repr

/-- A builder, or how it has ended. -/
inductive Stand (S : Type) where
  | active (b : Builder S)
  | refused (t : TxnKey) (why : Refusal)
  | retrieved (t : TxnKey)

namespace Stand

def txn (p : Stand S) : TxnKey :=
  match p with
  | active b => b.txn
  | refused t _ => t
  | retrieved t => t

/-- Carries out an order, if the builder is still there. -/
def obey (p : Stand S) (x : Order S) (e : Engine S) : Stand S × Engine S :=
  match p with
  | active b =>
    match x with
    | .call c =>
      match b.call c e with
      | (.ok b', e') => (active b', e')
      | (.error why, e') => (refused b.txn why, e')
    | .retrieve => (retrieved (b.retrieve e).1, (b.retrieve e).2)
  | refused t why => (refused t why, e)
  | retrieved t => (retrieved t, e)

/-- Carries out orders one after the other. -/
def obeyAll (p : Stand S) (orders : List (Order S)) (e : Engine S) : Stand S × Engine S :=
  match orders with
  | [] => (p, e)
  | x :: orders =>
    let (p, e) := p.obey x e
    p.obeyAll orders e

/-- A builder keeps its transaction to its end and beyond. -/
theorem txn_obey (p : Stand S) (x : Order S) (e : Engine S) : (p.obey x e).1.txn = p.txn := by
  cases p with
  | refused | retrieved => rfl
  | active b =>
    cases x with
    | retrieve => rfl
    | call c =>
      rw [obey]
      split
      · next b' e' hcall =>
        obtain ⟨-, rfl⟩ := Builder.call_eq_ok hcall
        rfl
      · rfl

end Stand

namespace Engine

/-- From one engine to the other nothing has changed but one transaction and its owners,
and the log has grown. -/
structure Confined (t : TxnKey) (e e' : Engine S) : Prop where
  contexts : e'.contexts = e.contexts
  nextContext : e'.nextContext = e.nextContext
  txns : ∀ u, u ≠ t → e'.txn? u = e.txn? u
  holds : ∀ u, u ≠ t → e'.holds.count u = e.holds.count u
  log : e.log <+: e'.log

namespace Confined

variable {t : TxnKey} {e e' e'' : Engine S}

theorem refl (t : TxnKey) (e : Engine S) : Confined t e e :=
  ⟨rfl, rfl, fun _ _ => rfl, fun _ _ => rfl, List.prefix_rfl⟩

theorem trans (h : Confined t e e') (h' : Confined t e' e'') : Confined t e e'' where
  contexts := h'.contexts.trans h.contexts
  nextContext := h'.nextContext.trans h.nextContext
  txns u hu := (h'.txns u hu).trans (h.txns u hu)
  holds u hu := (h'.holds u hu).trans (h.holds u hu)
  log := h.log.trans h'.log

theorem emit (t : TxnKey) (e : Engine S) (event : Event) : Confined t e (e.emit event) :=
  ⟨rfl, rfl, fun _ _ => rfl, fun _ _ => rfl, List.prefix_append _ _⟩

theorem newAction (t : TxnKey) (e : Engine S) (x : Recipe S) :
    Confined t e (e.newAction x).2 :=
  ⟨rfl, rfl, fun _ _ => rfl, fun _ _ => rfl, List.prefix_rfl⟩

theorem release (t : TxnKey) (e : Engine S) : Confined t e (e.release t) :=
  ⟨rfl, rfl, fun _ _ => rfl, fun _ hu => List.count_erase_of_ne hu, List.prefix_rfl⟩

theorem install (t : TxnKey) (e : Engine S) (actions : List (Action S)) :
    Confined t e (e.install t actions) where
  contexts := rfl
  nextContext := rfl
  txns _ hu := e.txn?_install_of_ne hu actions
  holds _ _ := rfl
  log := List.prefix_append _ _

end Confined

end Engine

namespace Builder

open Engine (Confined)

variable (b : Builder S) (e : Engine S)

theorem confined_openSequence : Confined b.txn e (b.openSequence e).2 := by
  rw [openSequence]
  split
  · exact .emit ..
  · exact .release ..

theorem confined_startBuild : Confined b.txn e (b.startBuild e).2 := by
  rw [startBuild]
  split
  · exact b.confined_openSequence e
  · split
    · exact .release ..
    · exact (Confined.emit ..).trans (b.confined_openSequence _)

theorem confined_push (operation : String) (x : Recipe S) :
    Confined b.txn e (b.push operation x e).2 := by
  rw [push]
  split
  · exact .release ..
  · exact (Confined.newAction ..).trans (.emit ..)

theorem confined_startBuildWith (step : S) : Confined b.txn e (b.startBuildWith step e).2 := by
  have hstart := b.confined_startBuild e
  rw [startBuildWith]
  split
  · next b' e' heq =>
    rw [heq] at hstart
    obtain ⟨hb', -, -⟩ := startBuild_eq_ok heq
    have htxn : b'.txn = b.txn := by rw [hb']
    exact hstart.trans (htxn ▸ b'.confined_push e' _ _)
  · next why e' heq =>
    rw [heq] at hstart
    exact hstart

theorem confined_finalize : Confined b.txn e (b.finalize e).2 := by
  rw [finalize]
  split
  · exact .release ..
  · exact (Confined.emit ..).trans (.install ..)

/-- A call acts on the transaction of its builder. -/
theorem confined_call (c : Call S) : Confined b.txn e (b.call c e).2 := by
  cases c with
  | startBuild => exact b.confined_startBuild e
  | startBuildWith step => exact b.confined_startBuildWith e step
  | append step => exact b.confined_push e _ _
  | appendChoice primary fallback => exact b.confined_push e _ _
  | finalize => exact b.confined_finalize e

theorem confined_retrieve : Confined b.txn e (b.retrieve e).2 := by
  rw [retrieve]
  split
  · exact .refl ..
  · exact .emit ..

end Builder

theorem Stand.confined_obey (p : Stand S) (x : Order S) (e : Engine S) :
    e.Confined p.txn (p.obey x e).2 := by
  cases p with
  | refused | retrieved => exact .refl ..
  | active b =>
    cases x with
    | retrieve => exact b.confined_retrieve e
    | call c =>
      have hcall := b.confined_call e c
      rw [obey]
      split <;>
      · next heq =>
        rw [heq] at hcall
        exact hcall

end TxnAssembly
