import Mathlib.Data.List.Forall2
import TxnAssembly.Proofs.Origin
import TxnAssembly.Proofs.Passage

/-!
# Assembling a transaction

The whole life of a builder: it is made, the build is started, actions are added one
by one, and the transaction is finalized and retrieved. If there is room for the
configured capacity nothing of that is refused, and the plan has one action for each
call. No step runs meanwhile, and nothing happens to any other transaction.
-/
namespace TxnAssembly

variable {S : Type}

/-- One call that adds an action. -/
inductive Composition (S : Type) where
  | append (step : S)
  | appendChoice (primary fallback : S)
deriving DecidableEq, Repr

namespace Composition

def call (x : Composition S) : Call S :=
  match x with
  | append step => .append step
  | appendChoice primary fallback => .appendChoice primary fallback

def kind (x : Composition S) : ActionKind :=
  match x with
  | append _ => .sequential
  | appendChoice _ _ => .choice

/-- What the action is made from that is added to a builder of a transaction. -/
def recipe (x : Composition S) (t : TxnKey) : Recipe S :=
  match x with
  | append step => .sequential t step
  | appendChoice primary fallback => .choice t primary fallback

def body (x : Composition S) (t : TxnKey) : Body S := (x.recipe t).body

/-- The action has been made by the call. -/
def Yields (x : Composition S) (t : TxnKey) (a : Action S) : Prop := (x.recipe t).make a.key = a

/-- The steps that the action may run. -/
def steps (x : Composition S) : List S :=
  match x with
  | append step => [step]
  | appendChoice primary fallback => [primary, fallback]

section Yields

variable {x : Composition S} {t : TxnKey} {a : Action S} (h : x.Yields t a)
include h

theorem Yields.body_eq : a.body = x.body t := by
  rw [← h, Recipe.body_make]
  rfl

theorem Yields.kind_eq : a.kind = x.kind := by
  rw [← h]
  cases x <;> rfl

end Yields

end Composition

/-- What can be read off each entry can be read off the list. -/
theorem map_eq_of_forall₂ {α β γ : Type} {R : α → β → Prop} {l : List α} {l' : List β}
    (h : List.Forall₂ R l l') {f : α → γ} {g : β → γ} (hfg : ∀ a b, R a b → f a = g b) :
    l.map f = l'.map g := by
  induction h with
  | nil => rfl
  | cons hab _ ih => rw [List.map_cons, List.map_cons, hfg _ _ hab, ih]

namespace Engine

variable (e : Engine S)

theorem txn?_install_of_ne {t u : TxnKey} (h : u ≠ t) (actions : List (Action S)) :
    (e.install t actions).txn? u = e.txn? u := by
  have hindex : t.index ≠ u.index := fun heq => h (congrArg TxnKey.mk heq.symm)
  simp [txn?, install, emit, Array.getElem?_modify, hindex]

theorem txn?_openTxn_of_ne (c : ContextKey) {u : TxnKey} (h : u ≠ (e.openTxn c).1) :
    (e.openTxn c).2.txn? u = e.txn? u := by
  have hindex : u.index ≠ e.txns.size := fun heq => h (congrArg TxnKey.mk heq)
  simp [txn?, openTxn, takeTxnId, hold, Array.getElem?_push, hindex]

theorem isSome_txn?_openTxn (c : ContextKey) :
    ((e.openTxn c).2.txn? (e.openTxn c).1).isSome = true := by
  simp [txn?, openTxn, takeTxnId, hold]

end Engine

namespace Builder

/-- Makes a transaction with one action for each call, from the making of the builder
to the retrieval. -/
def assemble (config : Config) (c : ContextKey) (calls : List (Composition S)) (e : Engine S) :
    Except Refusal TxnKey × Engine S :=
  let (b, e) := create config c e
  match b.callAll (.startBuild :: (calls.map Composition.call ++ [.finalize])) e with
  | (.ok b, e) =>
    let (t, e) := b.retrieve e
    (.ok t, e)
  | (.error why, e) => (.error why, e)

theorem callAll_append (b : Builder S) (cs ds : List (Call S)) (e : Engine S) :
    b.callAll (cs ++ ds) e = match b.callAll cs e with
      | (.ok b, e) => b.callAll ds e
      | (.error why, e) => (.error why, e) := by
  induction cs generalizing b e with
  | nil => rfl
  | cons c cs ih =>
    rw [List.cons_append, callAll, callAll]
    split
    · exact ih _ _
    · rfl

/-- The engine is the same up to the log and the number of actions made. -/
structure Apart (e e' : Engine S) : Prop where
  contexts : e'.contexts = e.contexts
  txns : e'.txns = e.txns
  nextContext : e'.nextContext = e.nextContext
  holds : e'.holds = e.holds

/-- A builder that has a sequence takes every call and collects one action for it. -/
theorem callAll_compositions {b : Builder S} {actions : List (Action S)}
    (hb : b.sequence = some actions) (calls : List (Composition S)) (e : Engine S) :
    ∃ b' e' added, b.callAll (calls.map Composition.call) e = (.ok b', e') ∧
      b'.txn = b.txn ∧ b'.sequence = some (actions ++ added) ∧
      List.Forall₂ (fun a x => x.Yields b.txn a) added calls ∧ Apart e e' := by
  induction calls generalizing b actions e with
  | nil => exact ⟨b, e, [], rfl, rfl, by rw [hb, List.append_nil], .nil, ⟨rfl, rfl, rfl, rfl⟩⟩
  | cons x calls ih =>
    have hcall : ∃ b₁ e₁ a, b.call x.call e = (.ok b₁, e₁) ∧ b₁.txn = b.txn ∧
        b₁.sequence = some (actions ++ [a]) ∧ x.Yields b.txn a ∧ Apart e e₁ := by
      cases x <;>
      · simp only [Composition.call, call, append, appendChoice, push, hb]
        exact ⟨_, _, _, rfl, rfl, rfl, rfl, ⟨rfl, rfl, rfl, rfl⟩⟩
    obtain ⟨b₁, e₁, a, hcall, htxn, hsequence, hyields, hapart⟩ := hcall
    obtain ⟨b', e', added, hcalls, htxn', hsequence', hadded, hapart'⟩ := ih hsequence e₁
    refine ⟨b', e', a :: added, ?_, htxn'.trans htxn, ?_, ?_, ?_⟩
    · rw [List.map_cons, callAll, hcall]
      exact hcalls
    · rw [hsequence', List.append_assoc, List.singleton_append]
    · exact .cons hyields (htxn ▸ hadded)
    · exact ⟨hapart'.contexts.trans hapart.contexts, hapart'.txns.trans hapart.txns,
        hapart'.nextContext.trans hapart.nextContext, hapart'.holds.trans hapart.holds⟩

/-- What assembling a transaction leads to. -/
structure Assembled (c : ContextKey) (calls : List (Composition S)) (e : Engine S) (t : TxnKey)
    (plan : List (Action S)) (e' : Engine S) : Prop where
  new : t = (e.openTxn c).1
  plan? : e'.plan? t = some plan
  actions : List.Forall₂ (fun a x => x.Yields t a) plan calls
  others : ∀ u, u ≠ t → e'.txn? u = e.txn? u
  contexts : e'.contexts = (e.takeTxnId c).2.contexts
  nextContext : e'.nextContext = e.nextContext
  holds : e'.holds = t :: e.holds

namespace Assembled

variable {c : ContextKey} {calls : List (Composition S)} {e e' : Engine S} {t : TxnKey}
  {plan : List (Action S)} (h : Assembled c calls e t plan e')
include h

theorem bodies : plan.map Action.body = calls.map (Composition.body · t) :=
  map_eq_of_forall₂ h.actions fun _ _ hyields => hyields.body_eq

theorem kinds : plan.map Action.kind = calls.map Composition.kind :=
  map_eq_of_forall₂ h.actions fun _ _ hyields => hyields.kind_eq

end Assembled

/-- Nothing is refused. -/
theorem assemble_eq_ok {config : Config} (hconfig : config.isAllocatable = true) (c : ContextKey)
    (calls : List (Composition S)) (e : Engine S) :
    ∃ t e' plan, assemble config c calls e = (.ok t, e') ∧ Assembled c calls e t plan e' := by
  obtain ⟨b, e₁, hstart, htxn, hsequence, hapart₁⟩ :
      ∃ b e₁, (create config c e).1.call .startBuild (create config c e).2 = (.ok b, e₁) ∧
        b.txn = (e.openTxn c).1 ∧ b.sequence = some [] ∧ Apart (e.openTxn c).2 e₁ := by
    simp only [call, startBuild, create, openSequence, hconfig]
    exact ⟨_, _, rfl, rfl, rfl, ⟨rfl, rfl, rfl, rfl⟩⟩
  obtain ⟨b', e₂, plan, hcalls, htxn', hsequence', hyields, hapart₂⟩ :=
    callAll_compositions hsequence calls e₁
  have htxns : e₂.txns = (e.openTxn c).2.txns := hapart₂.txns.trans hapart₁.txns
  let e₃ := e₂.emit (.finalizing b'.config.label plan.length)
  have hfinalize : b'.call .finalize e₂ =
      (.ok { b' with phase := .finalized }, e₃.install b'.txn plan) := by
    simp only [call, finalize, hsequence', List.nil_append]
    rfl
  refine ⟨b'.txn, e₃.install b'.txn plan, plan, ?_, ?_⟩
  · have hall : (create config c e).1.callAll
        (.startBuild :: (calls.map Composition.call ++ [.finalize])) (create config c e).2 =
          (.ok { b' with phase := .finalized }, e₃.install b'.txn plan) := by
      rw [callAll, hstart]
      dsimp only
      rw [callAll_append, hcalls]
      dsimp only
      rw [callAll, hfinalize]
      rfl
    simp only [assemble, hall]
    rfl
  · have ht : b'.txn = (e.openTxn c).1 := htxn'.trans htxn
    have hmade : e₃.txn? b'.txn = (e.openTxn c).2.txn? (e.openTxn c).1 := by
      show e₂.txns[b'.txn.index]? = _
      rw [htxns, ht]
      rfl
    refine ⟨ht, ?_, ?_, fun u hu => ?_, ?_, ?_, ?_⟩
    · obtain ⟨x, hx⟩ := Option.isSome_iff_exists.1 (e.isSome_txn?_openTxn c)
      rw [Engine.plan?_install, if_pos rfl, hmade, hx]
      rfl
    · exact htxn'.symm ▸ hyields
    · rw [Engine.txn?_install_of_ne _ hu]
      show e₂.txns[u.index]? = _
      rw [htxns]
      exact e.txn?_openTxn_of_ne c (ht ▸ hu)
    · exact hapart₂.contexts.trans hapart₁.contexts
    · exact hapart₂.nextContext.trans hapart₁.nextContext
    · rw [ht]
      exact hapart₂.holds.trans hapart₁.holds

theorem moves_callAll {H : List (Hand S)} {s : Shelf S} (b : Builder S) (cs : List (Call S))
    (e : Engine S) : Moves ⟨.builder b :: H, e, s⟩ (stageAfter (b.callAll cs e) H s) := by
  induction cs generalizing b e with
  | nil => exact .refl
  | cons c cs ih =>
    have hcall := moves_call (H := H) (s := s) b c e
    rw [callAll]
    split
    · next b₁ e₁ h =>
      rw [h] at hcall
      exact hcall.trans (ih b₁ e₁)
    · next why e₁ h =>
      rw [h] at hcall
      exact hcall

/-- The owner of the assembled transaction has it in hand. -/
theorem moves_assemble {H : List (Hand S)} {s : Shelf S} {config : Config} {c : ContextKey}
    {calls : List (Composition S)} {e e' : Engine S} {t : TxnKey}
    (hc : Stage.HasContext ⟨H, e, s⟩ c) (h : assemble config c calls e = (.ok t, e')) :
    Moves ⟨H, e, s⟩ ⟨.handle t :: H, e', s⟩ := by
  refine .head (.openBuilder config hc) ?_
  have hcalls := moves_callAll (H := H) (s := s) (create config c e).1
    (.startBuild :: (calls.map Composition.call ++ [.finalize])) (create config c e).2
  simp only [assemble] at h
  split at h
  · next b₁ e₁ hall =>
    cases h
    rw [hall] at hcalls
    exact hcalls.trans (b₁.moves_retrieve e₁)
  · cases h

end Builder

end TxnAssembly
