import TxnAssembly.Command

/-!
# Outlines

An outline is what is left when the codes of all steps are struck out: which actions
there are, of which kinds, of which transactions and in which order. The memory of the
program is left out with them. Views and the log can be read off an outline, and a
builder does to the outline of an engine what it does to the engine.
-/
namespace TxnAssembly

variable {S σ α β : Type}

namespace Slots

/-- Changes what the slots hold and keeps their names. -/
def map (s : Slots α) (f : α → β) : Slots β where
  entries := s.entries.map fun entry => (entry.1, f entry.2)
  distinct := by
    rw [List.map_map]
    exact s.distinct

variable (s : Slots α) (f : α → β) (name : String)

@[simp] theorem get?_map : (s.map f).get? name = (s.get? name).map f := by
  obtain ⟨entries, distinct⟩ := s
  simp only [get?, map]
  clear distinct
  induction entries with
  | nil => rfl
  | cons entry rest ih =>
    rw [List.map_cons, List.lookup_cons, List.lookup_cons]
    cases name == entry.1 with
    | true => rfl
    | false => exact ih

@[simp] theorem erase_map : (s.map f).erase name = (s.erase name).map f := by
  simp only [erase, map, List.eraseP_map]
  rfl

@[simp] theorem put_map (a : α) : (s.map f).put name (f a) = (s.put name a).map f := by
  simp only [put, erase_map]
  rfl

end Slots

def Body.outline (b : Body S) : Body Unit :=
  match b with
  | step t _ => .step t ()
  | choice t _ _ => .choice t () ()
  | free _ => .free ()

def Recipe.outline (x : Recipe S) : Recipe Unit :=
  match x with
  | sequential t _ => .sequential t ()
  | choice t _ _ => .choice t () ()
  | fromFn kind _ => .fromFn kind ()

def Action.outline (a : Action S) : Action Unit := ⟨a.key, a.kind, a.body.outline, a.anchor⟩

def Txn.outline (x : Txn S) : Txn Unit where
  id := x.id
  context := x.context
  plan := x.plan.map (·.map Action.outline)

def Engine.outline (e : Engine S) : Engine Unit where
  contexts := e.contexts
  txns := e.txns.map Txn.outline
  nextContext := e.nextContext
  nextBody := e.nextBody
  holds := e.holds
  log := e.log

def Builder.outline (b : Builder S) : Builder Unit where
  txn := b.txn
  sequence := b.sequence.map (·.map Action.outline)
  phase := b.phase
  config := b.config

def Call.outline (c : Call S) : Call Unit :=
  match c with
  | startBuild => .startBuild
  | startBuildWith _ => .startBuildWith ()
  | append _ => .append ()
  | appendChoice _ _ => .appendChoice () ()
  | finalize => .finalize

def Shelf.outline (s : Shelf S) : Shelf Unit where
  contexts := s.contexts
  builders := s.builders.map Builder.outline
  handles := s.handles
  plans := s.plans.map (·.map Action.outline)
  actions := s.actions.map Action.outline

def World.outline (w : World S σ) : World Unit Unit where
  engine := w.engine.outline
  shelf := w.shelf.outline
  memory := ()

@[simp] theorem Recipe.make_outline (x : Recipe S) (key : BodyKey) :
    x.outline.make key = (x.make key).outline := by
  cases x <;> rfl

@[simp] theorem Builder.actions_outline (b : Builder S) :
    b.outline.actions = b.actions.map Action.outline := by
  obtain ⟨txn, sequence, phase, config⟩ := b
  cases sequence <;> rfl

namespace Engine

variable (e : Engine S) (t : TxnKey)

@[simp] theorem emit_outline (event : Event) :
    e.outline.emit event = (e.emit event).outline := rfl

@[simp] theorem newAction_outline (x : Recipe S) :
    e.outline.newAction x.outline =
      ((e.newAction x).1.outline, (e.newAction x).2.outline) := by
  rw [newAction, newAction, x.make_outline]
  rfl

@[simp] theorem txn?_outline : e.outline.txn? t = (e.txn? t).map Txn.outline := by
  simp [txn?, outline]

@[simp] theorem plan?_outline : e.outline.plan? t = (e.plan? t).map (·.map Action.outline) := by
  rw [plan?, plan?, txn?_outline]
  cases e.txn? t <;> rfl

@[simp] theorem txnId_outline : e.outline.txnId t = e.txnId t := by
  rw [txnId, txnId, txn?_outline]
  cases e.txn? t <;> rfl

@[simp] theorem contextOf_outline : e.outline.contextOf t = e.contextOf t := by
  rw [contextOf, contextOf, txn?_outline]
  cases e.txn? t <;> rfl

@[simp] theorem openTxn_outline (c : ContextKey) :
    e.outline.openTxn c = ((e.openTxn c).1, (e.openTxn c).2.outline) := by
  simp only [openTxn, takeTxnId, hold, outline, Array.size_map, Array.map_push]
  rfl

@[simp] theorem install_outline (actions : List (Action S)) :
    e.outline.install t (actions.map Action.outline) = (e.install t actions).outline := by
  have htxns : e.outline.txns.modify t.index
      (fun x => { x with plan := some (actions.map Action.outline) }) =
        (e.txns.modify t.index fun x => { x with plan := some actions }).map Txn.outline := by
    apply Array.ext_getElem?
    intro i
    simp only [outline, Array.getElem?_modify, Array.getElem?_map]
    split <;> cases e.txns[i]? <;> rfl
  have hevent : e.outline.emit (.planInstalled (e.outline.context (e.outline.contextOf t)).id
      (e.outline.txnId t) (actions.map Action.outline).length) =
        (e.emit (.planInstalled (e.context (e.contextOf t)).id (e.txnId t)
          actions.length)).outline := by
    rw [contextOf_outline, txnId_outline, List.length_map]
    rfl
  rw [install, install, hevent]
  simp only [outline, emit, Engine.mk.injEq, and_true, true_and]
  exact htxns

/-- A plan shows its kinds and what is bound, and no step. -/
@[simp] theorem viewPlan_outline (plan : List (Action S)) :
    e.outline.viewPlan (plan.map Action.outline) = e.viewPlan plan := by
  rw [viewPlan, viewPlan, List.map_map]
  rfl

@[simp] theorem viewTxn_outline : e.outline.viewTxn t = e.viewTxn t := by
  rw [viewTxn, viewTxn, contextOf_outline, txnId_outline, plan?_outline, Option.map_map]
  have hview : e.outline.viewPlan ∘ (·.map Action.outline) = e.viewPlan :=
    funext e.viewPlan_outline
  rw [hview]
  rfl

theorem viewBuilder_outline (b : Builder S) :
    e.outline.viewBuilder b.outline = e.viewBuilder b := by
  have hlength : b.outline.length = b.length := by
    rw [Builder.length, Builder.length, Builder.actions_outline, List.length_map]
  rw [viewBuilder, viewBuilder, hlength, plan?_outline, Option.map_map]
  simp only [Function.comp_def, List.length_map]
  rfl

end Engine

namespace Builder

/-- The outline of what a call leads to. -/
def Outcome.outline (o : Outcome S) : Outcome Unit := (o.1.map Builder.outline, o.2.outline)

variable (b : Builder S) (e : Engine S)

theorem create_outline (config : Config) (c : ContextKey) :
    create config c e.outline =
      ((create config c e).1.outline, (create config c e).2.outline) := by
  simp only [create, Engine.openTxn_outline, Engine.emit_outline]
  rfl

theorem openSequence_outline :
    b.outline.openSequence e.outline = Outcome.outline (b.openSequence e) := by
  have hconfig : b.outline.config = b.config := rfl
  rw [openSequence, openSequence, hconfig]
  split <;> rfl

theorem startBuild_outline :
    b.outline.startBuild e.outline = Outcome.outline (b.startBuild e) := by
  have hpolicy : b.outline.config.restartPolicy = b.config.restartPolicy := rfl
  have hsequence : b.outline.sequence = b.sequence.map (·.map Action.outline) := rfl
  rw [startBuild, startBuild, hsequence, hpolicy]
  cases b.sequence with
  | none => exact b.openSequence_outline e
  | some actions =>
    cases b.config.restartPolicy with
    | reject => rfl
    | restart =>
      simp only [Option.map_some, List.length_map]
      exact b.openSequence_outline (e.emit _)

theorem push_outline (operation : String) (x : Recipe S) :
    b.outline.push operation x.outline e.outline =
      Outcome.outline (b.push operation x e) := by
  have hsequence : b.outline.sequence = b.sequence.map (·.map Action.outline) := rfl
  rw [push, push, hsequence]
  cases b.sequence with
  | none => rfl
  | some actions =>
    simp only [Option.map_some, Engine.newAction_outline, List.length_map, Outcome.outline,
      Except.map, outline, List.map_append, List.map_singleton]
    rfl

theorem startBuildWith_outline (step : S) :
    b.outline.startBuildWith () e.outline = Outcome.outline (b.startBuildWith step e) := by
  rw [startBuildWith, startBuildWith, startBuild_outline]
  cases b.startBuild e with
  | mk result e₁ =>
    cases result with
    | error why => rfl
    | ok b₁ => exact b₁.push_outline e₁ "append" (.sequential b₁.txn step)

theorem finalize_outline : b.outline.finalize e.outline = Outcome.outline (b.finalize e) := by
  have hsequence : b.outline.sequence = b.sequence.map (·.map Action.outline) := rfl
  rw [finalize, finalize, hsequence]
  cases b.sequence with
  | none => rfl
  | some actions =>
    simp only [Option.map_some, List.length_map, Engine.emit_outline, Engine.install_outline,
      Outcome.outline, Except.map]
    rfl

/-- A call does to the outlines what it does to the builder and the engine. -/
theorem call_outline (c : Call S) :
    b.outline.call c.outline e.outline = Outcome.outline (b.call c e) := by
  cases c with
  | startBuild => exact b.startBuild_outline e
  | startBuildWith step => exact b.startBuildWith_outline e step
  | append step => exact b.push_outline e "append" (.sequential b.txn step)
  | appendChoice primary fallback =>
    exact b.push_outline e "append_choice" (.choice b.txn primary fallback)
  | finalize => exact b.finalize_outline e

theorem retrieve_outline :
    b.outline.retrieve e.outline = ((b.retrieve e).1, (b.retrieve e).2.outline) := by
  have hphase : b.outline.phase = b.phase := rfl
  rw [retrieve, retrieve, hphase]
  split <;> rfl

end Builder

namespace World

variable (w : World S σ) (name : String)

@[simp] theorem release?_outline (t : Option TxnKey) :
    w.outline.release? t = (w.release? t).outline := by
  cases t <;> rfl

@[simp] theorem takeBuilder_outline :
    w.outline.takeBuilder name = (w.takeBuilder name).outline := by
  simp only [takeBuilder, outline, Shelf.outline, Slots.erase_map]

theorem txn_get?_builders_outline :
    (w.outline.shelf.builders.get? name).map Builder.txn =
      (w.shelf.builders.get? name).map Builder.txn := by
  simp only [outline, Shelf.outline, Slots.get?_map, Option.map_map]
  rfl

theorem dropBuilder_outline : w.outline.dropBuilder name = (w.dropBuilder name).outline := by
  rw [dropBuilder, dropBuilder, txn_get?_builders_outline, takeBuilder_outline,
    release?_outline]

theorem storeBuilder_outline (b : Builder S) :
    w.outline.storeBuilder name b.outline = (w.storeBuilder name b).outline := by
  rw [storeBuilder, storeBuilder, txn_get?_builders_outline, ← release?_outline]
  simp only [outline, Shelf.outline, Slots.put_map]

theorem storeHandle_outline (t : TxnKey) :
    w.outline.storeHandle name t = (w.storeHandle name t).outline := by
  rw [storeHandle, storeHandle, ← release?_outline]
  rfl

end World

end TxnAssembly
