import Mathlib.Logic.Relation
import TxnAssembly.World

/-!
# Stages and moves

A world in the middle of a run has owners that stand in no slot: references that
a command has in hand, and those of running plays and running invocations. A
stage is a world together with them. It has no memory, since no owner stands
there. Moves are the smallest things that can happen to a stage, in any order and
at any time; so a stage that can be reached by moves need not be met in a run,
but every world of a run is one.
-/
namespace TxnAssembly

/-- An owner that stands in no slot. -/
inductive Hand (S : Type) where
  | builder (b : Builder S)
  | handle (t : TxnKey)
  | play (t : TxnKey)
  | invocation (t : TxnKey)

/-- The transaction that is owned. -/
def Hand.txn {S : Type} (x : Hand S) : TxnKey :=
  match x with
  | builder b => b.txn
  | handle t => t
  | play t => t
  | invocation t => t

/-- The actions that are in hand with a builder. -/
def Hand.actions {S : Type} (x : Hand S) : List (Action S) :=
  match x with
  | builder b => b.actions
  | _ => []

structure Stage (S : Type) where
  hands : List (Hand S)
  engine : Engine S
  shelf : Shelf S

/-- A world seen as a stage, given the owners outside its slots. -/
def World.stage {S σ : Type} (w : World S σ) (hands : List (Hand S)) : Stage S :=
  ⟨hands, w.engine, w.shelf⟩

namespace Stage

variable {S : Type}

/-- The transactions that are owned, one entry for each owner. Plans and actions
are not among the owners. -/
def owners (s : Stage S) : List TxnKey :=
  s.shelf.builders.values.map Builder.txn ++ s.shelf.handles.values ++ s.hands.map Hand.txn

theorem mem_owners_iff (s : Stage S) {t : TxnKey} :
    t ∈ s.owners ↔
      (∃ name b, s.shelf.builders.get? name = some b ∧ b.txn = t) ∨
        (∃ name, s.shelf.handles.get? name = some t) ∨ ∃ x ∈ s.hands, x.txn = t := by
  simp only [owners, List.mem_append, List.mem_map, Slots.mem_values_iff, or_assoc]
  constructor
  · rintro (⟨b, ⟨name, hb⟩, rfl⟩ | h)
    · exact .inl ⟨name, b, hb, rfl⟩
    · exact .inr h
  · rintro (⟨name, b, hb, rfl⟩ | h)
    · exact .inl ⟨b, ⟨name, hb⟩, rfl⟩
    · exact .inr h

/-- The actions in the sequences of builders. -/
def collected (s : Stage S) : List (Action S) :=
  s.shelf.builders.values.flatMap Builder.actions ++ s.hands.flatMap Hand.actions

/-- An action is somewhere: in a slot, in a stored plan, in the sequence of a
builder or in an installed plan. -/
def Has (s : Stage S) (a : Action S) : Prop :=
  a ∈ s.shelf.actions.values ∨ (∃ plan ∈ s.shelf.plans.values, a ∈ plan) ∨ a ∈ s.collected ∨
    ∃ t plan, s.engine.plan? t = some plan ∧ a ∈ plan

/-- A context is in a slot, or it has been made and is held elsewhere. -/
def HasContext (s : Stage S) (c : ContextKey) : Prop :=
  c ∈ s.shelf.contexts.values ∨ c.index < s.engine.contexts.size

/-- A transaction exists, dead or alive. -/
def Made (s : Stage S) (t : TxnKey) : Prop := t.index < s.engine.txns.size

/-- The stage of an empty world before anything happens. -/
def initial : Stage S := ⟨[], {}, {}⟩

end Stage

/-- What can happen to a stage at once. Only `share`, `play` and `upgrade` make
a new owner of an old transaction: the first two from an owner at hand, the last
from an action whose transaction is alive. -/
inductive Move {S : Type} : Stage S → Stage S → Prop where
  | emit {H e s} (event : Event) : Move ⟨H, e, s⟩ ⟨H, e.emit event, s⟩
  | openContext {H e s} (into : String) (name : Option String) :
    Move ⟨H, e, s⟩ ⟨H, (e.openContext name).2,
      { s with contexts := s.contexts.put into (e.openContext name).1 }⟩
  | keepContext {H e s} (into : String) {t : TxnKey} (h : t ∈ Stage.owners ⟨H, e, s⟩) :
    Move ⟨H, e, s⟩ ⟨H, e, { s with contexts := s.contexts.put into (e.contextOf t) }⟩
  | dropContext {H e s} (name : String) :
    Move ⟨H, e, s⟩ ⟨H, e, { s with contexts := s.contexts.erase name }⟩
  | takeTxnId {H e s} {c : ContextKey} (h : Stage.HasContext ⟨H, e, s⟩ c) :
    Move ⟨H, e, s⟩ ⟨H, (e.takeTxnId c).2, s⟩
  | openTxn {H e s} {c : ContextKey} (h : Stage.HasContext ⟨H, e, s⟩ c) :
    Move ⟨H, e, s⟩ ⟨.handle (e.openTxn c).1 :: H, (e.openTxn c).2, s⟩
  | openBuilder {H e s} {c : ContextKey} (config : Config)
      (h : Stage.HasContext ⟨H, e, s⟩ c) :
    Move ⟨H, e, s⟩ ⟨.builder (Builder.create config c e).1 :: H, (Builder.create config c e).2, s⟩
  /-- A builder begins an empty sequence. -/
  | start {H e s} (b : Builder S) :
    Move ⟨.builder b :: H, e, s⟩
      ⟨.builder { b with sequence := some [], phase := .building } :: H, e, s⟩
  /-- A builder makes an action and puts it at the end of its sequence. -/
  | collect {H e s} (b : Builder S) {actions : List (Action S)} (x : Recipe S)
      (h : b.sequence = some actions) (hx : x.body.txn? = some b.txn) :
    Move ⟨.builder b :: H, e, s⟩
      ⟨.builder { b with
          sequence := some (actions ++ [(e.newAction x).1]), phase := .building } :: H,
        (e.newAction x).2, s⟩
  | finalize {H e s} (b : Builder S) {actions : List (Action S)}
      (h : b.sequence = some actions) :
    Move ⟨.builder b :: H, e, s⟩
      ⟨.builder { b with phase := .finalized } :: H, e.install b.txn actions, s⟩
  | retrieve {H e s} (b : Builder S) :
    Move ⟨.builder b :: H, e, s⟩ ⟨.handle b.txn :: H, e, s⟩
  | takeBuilder {H e s} {name : String} {b : Builder S} (h : s.builders.get? name = some b) :
    Move ⟨H, e, s⟩ ⟨.builder b :: H, e, { s with builders := s.builders.erase name }⟩
  | putBuilder {H e s} {name : String} (b : Builder S) (h : s.builders.get? name = none) :
    Move ⟨.builder b :: H, e, s⟩ ⟨H, e, { s with builders := s.builders.put name b }⟩
  | takeHandle {H e s} {name : String} {t : TxnKey} (h : s.handles.get? name = some t) :
    Move ⟨H, e, s⟩ ⟨.handle t :: H, e, { s with handles := s.handles.erase name }⟩
  | putHandle {H e s} {name : String} (t : TxnKey) (h : s.handles.get? name = none) :
    Move ⟨.handle t :: H, e, s⟩ ⟨H, e, { s with handles := s.handles.put name t }⟩
  | share {H e s} {t : TxnKey} (h : t ∈ Stage.owners ⟨H, e, s⟩) :
    Move ⟨H, e, s⟩ ⟨.handle t :: H, e.hold t, s⟩
  | play {H e s} {t : TxnKey} (h : t ∈ Stage.owners ⟨H, e, s⟩) :
    Move ⟨H, e, s⟩ ⟨.play t :: H, e.hold t, s⟩
  | upgrade {H e s} {t : TxnKey} (h : e.isAlive t = true) :
    Move ⟨H, e, s⟩ ⟨.invocation t :: H, e.hold t, s⟩
  /-- An owner goes: it is dropped, or the play or the invocation ends. -/
  | letGo {H e s} (x : Hand S) : Move ⟨x :: H, e, s⟩ ⟨H, e.release x.txn, s⟩
  | install {H e s} (t : TxnKey) {actions : List (Action S)}
      (h : ∀ a ∈ actions, a ∈ s.actions.values) :
    Move ⟨H, e, s⟩ ⟨H, e.install t actions, s⟩
  | keepPlan {H e s} (into : String) {t : TxnKey} {plan : List (Action S)}
      (h : e.plan? t = some plan) :
    Move ⟨H, e, s⟩ ⟨H, e, { s with plans := s.plans.put into plan }⟩
  | dropPlan {H e s} (name : String) :
    Move ⟨H, e, s⟩ ⟨H, e, { s with plans := s.plans.erase name }⟩
  | makeAction {H e s} (into : String) {x : Recipe S}
      (h : ∀ t, x.body.txn? = some t → t ∈ Stage.owners ⟨H, e, s⟩) :
    Move ⟨H, e, s⟩ ⟨H, (e.newAction x).2,
      { s with actions := s.actions.put into (e.newAction x).1 }⟩
  | keepAction {H e s} (into : String) {a : Action S} (h : Stage.Has ⟨H, e, s⟩ a) :
    Move ⟨H, e, s⟩ ⟨H, e, { s with actions := s.actions.put into a }⟩
  | dropAction {H e s} (name : String) :
    Move ⟨H, e, s⟩ ⟨H, e, { s with actions := s.actions.erase name }⟩

/-- Any number of moves. -/
abbrev Moves {S : Type} : Stage S → Stage S → Prop := Relation.ReflTransGen Move

/-- A stage that can come about. -/
def Stage.Reachable {S : Type} (s : Stage S) : Prop := Moves Stage.initial s

/-- An action is somewhere now, or was at an earlier stage. Whoever has copied it then, such as
a running play, has it still. -/
def Stage.Knows {S : Type} (s : Stage S) (a : Action S) : Prop :=
  ∃ s₀ : Stage S, s₀.Reachable ∧ s₀.Has a ∧ Moves s₀ s

namespace Stage.Reachable

variable {S : Type} {s s' : Stage S}

theorem moves (hs : s.Reachable) (h : Moves s s') : s'.Reachable :=
  Relation.ReflTransGen.trans hs h

theorem move (hs : s.Reachable) (h : Move s s') : s'.Reachable :=
  Relation.ReflTransGen.tail hs h

end Stage.Reachable

end TxnAssembly
