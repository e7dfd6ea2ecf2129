import TxnAssembly.Proofs.Origin
import TxnAssembly.Proofs.Passage

/-!
# Ownership

Builders own their transaction, whoever holds a handle does, and so do running plays and running
invocations. Plans and actions own nothing, so it does not matter which actions are installed
where. An action asks for its transaction in two places: by its anchor, when it is asked whether
it is bound, and in its body, when it is invoked. What a constructor has made gets the same
answer in both.
-/
namespace TxnAssembly

variable {S σ : Type}

namespace Stage

/-- Somebody owns a transaction: a builder, whoever holds a handle, a running play
or a running invocation. -/
inductive Owned (s : Stage S) (t : TxnKey) : Prop where
  | builder (name : String) (b : Builder S) (h : s.shelf.builders.get? name = some b)
      (hb : b.txn = t)
  | builderInHand (b : Builder S) (h : Hand.builder b ∈ s.hands) (hb : b.txn = t)
  | handle (name : String) (h : s.shelf.handles.get? name = some t)
  | handleInHand (h : Hand.handle t ∈ s.hands)
  | play (h : Hand.play t ∈ s.hands)
  | invocation (h : Hand.invocation t ∈ s.hands)

theorem owned_iff_mem_owners (s : Stage S) (t : TxnKey) : s.Owned t ↔ t ∈ s.owners := by
  rw [mem_owners_iff]
  constructor
  · intro h
    cases h with
    | builder name b h hb => exact .inl ⟨name, b, h, hb⟩
    | builderInHand b h hb => exact .inr (.inr ⟨_, h, hb⟩)
    | handle name h => exact .inr (.inl ⟨name, h⟩)
    | handleInHand h | play h | invocation h => exact .inr (.inr ⟨_, h, rfl⟩)
  · rintro (⟨name, b, h, hb⟩ | ⟨name, h⟩ | ⟨x, hx, hxt⟩)
    · exact .builder name b h hb
    · exact .handle name h
    · cases x with
      | builder b => exact .builderInHand b hx hxt
      | handle u => exact .handleInHand (hxt ▸ hx)
      | play u => exact .play (hxt ▸ hx)
      | invocation u => exact .invocation (hxt ▸ hx)

end Stage

namespace Engine

theorem isBound_of_anchor (e : Engine S) {a : Action S} {t : TxnKey} (h : a.anchor = some t) :
    e.isBound a = e.isAlive t := by
  rw [isBound, h]

/-- What a body looks for lives: the transaction that it has captured, if any. -/
def canRun (e : Engine S) (b : Body S) : Bool :=
  match b.txn? with
  | none => true
  | some t => e.isAlive t

theorem canRun_of_txn? (e : Engine S) {b : Body S} {t : TxnKey} (h : b.txn? = some t) :
    e.canRun b = e.isAlive t := by
  rw [canRun, h]

end Engine

/-- What an action tells of itself by its anchor is what its body finds. -/
theorem Action.IsMade.isBound_eq {a : Action S} (ha : a.IsMade) (e : Engine S) :
    e.isBound a = e.canRun a.body := by
  cases ht : a.body.txn? with
  | none => simp [Engine.isBound, Engine.canRun, ha.anchor_eq, ht]
  | some t => rw [e.isBound_of_anchor (ha.anchor_eq.trans ht), e.canRun_of_txn? ht]

/-- An action whose transaction can be gone is of the kind of its steps. -/
theorem Action.IsMade.kind_eq_of_not_canRun {a : Action S} (ha : a.IsMade) {e : Engine S}
    (h : e.canRun a.body = false) : a.kind = a.body.shape := by
  cases ht : a.body.txn? with
  | none =>
    rw [Engine.canRun, ht] at h
    cases h
  | some t => exact ha.kind_eq (ha.anchor_eq.trans ht)

namespace Meaning

/-- The world after an action has found its transaction gone. -/
def orphan (a : Action S) (w : World S σ) : World S σ :=
  (w.emit (.orphaned a.body.shape)).emit (.invoked a.kind false)

/-- An action whose transaction is gone does nothing but report that. -/
theorem invoke_of_not_canRun (steps : Meaning S σ) {a : Action S} {w : World S σ}
    (h : w.engine.canRun a.body = false) : steps.invoke a w = (.ok false, orphan a w) := by
  obtain ⟨key, kind, body, anchor⟩ := a
  cases body with
  | free s => cases h
  | step t s | choice t primary fallback =>
    have halive : w.engine.isAlive t = false := h
    simp [invoke, runBody, onLive, Run.bind_apply, halive, orphan, Body.shape]

end Meaning

namespace Command

/-- The world after commands, whatever they answer. -/
def performAll (steps : Meaning S σ) (cs : List (Command S)) (w : World S σ) : World S σ :=
  cs.foldl (fun w c => (c.perform steps w).2) w

theorem moves_performAll {steps : Meaning S σ} (hsteps : steps.Tidy) (cs : List (Command S))
    (w : World S σ) (H : List (Hand S)) :
    Moves (w.stage H) ((performAll steps cs w).stage H) := by
  induction cs generalizing w with
  | nil => exact .refl
  | cons c cs ih => exact (tidy_perform hsteps c w H).trans (ih _)

/-- Every world that commands lead to from an empty one. -/
theorem reachable_performAll (programs : S → Program S σ) (depth : Nat)
    (cs : List (Command S)) (memory : σ) :
    ((performAll (.ofPrograms programs depth) cs { memory }).stage []).Reachable :=
  moves_performAll (Meaning.tidy_ofPrograms programs depth) cs { memory } []

end Command

end TxnAssembly
