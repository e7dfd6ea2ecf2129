import TxnAssembly.Config.Reader
import TxnAssembly.Run
import TxnAssembly.View

/-!
# Commands

A command is one operation of a program on the world, with its operands named
by slots. Commands are data, and `perform` carries them out. A command looks up
its slots in a fixed order before anything else happens.
-/
namespace TxnAssembly

/-- The five name spaces of slots. -/
inductive SlotKind where
  | context
  | builder
  | handle
  | plan
  | action
deriving DecidableEq, Repr

/-- Operands are slot names; `into` names the slot that takes the result. -/
inductive Command (S : Type) where
  | openContext (into : String) (name : Option String)
  | describeContext (context : String) (layout : Text.Layout)
  | takeTxnId (context : String)
  | contextOf (handle into : String)
  | sameContext (context other : String)
  | sameTxn (handle other : String)
  /-- Without a configuration the builder has the default one. -/
  | createBuilder (context into : String) (config : Option Config.Source)
  | build (builder : String) (call : Call S)
  | retrieve (builder into : String)
  | describeBuilder (builder : String) (layout : Text.Layout)
  | borrow (builder into : String)
  | openTxn (context into : String)
  | viewTxn (handle : String)
  | describeTxn (handle : String) (layout : Text.Layout)
  | cloneHandle (handle into : String)
  | install (handle : String) (actions : List String)
  | play (handle : String)
  | keepPlan (handle into : String)
  | describePlan (plan : String) (layout : Text.Layout)
  | playPlan (plan : String)
  | runPlanUntilFailure (plan : String)
  | comparePlans (plan other : String)
  | invokeAt (plan : String) (index : Nat)
  | pickAction (plan : String) (index : Nat) (into : String)
  | bindStep (handle : String) (step : S) (into : String)
  | bindChoice (handle : String) (primary fallback : S) (into : String)
  | freeAction (kind : ActionKind) (step : S) (into : String)
  | cloneAction (action into : String)
  | describeAction (action : String) (layout : Text.Layout)
  | invoke (action : String)
  | sameBody (action other : String)
  | discard (kind : SlotKind) (name : String)

/-- What a command answers when it succeeds. -/
inductive Answer where
  | done
  | flag (b : Bool)
  | text (s : String)
  | contextId (id : ContextId)
  | txnId (id : TxnId)
  | context (id : ContextId) (name : Option String)
  | contextDetail (id : ContextId) (name : Option String) (debug : String)
  | builder (view : BuilderView)
  | builderDetail (view : BuilderView) (config : Config) (txn : TxnView) (debug : String)
  | txn (view : TxnView)
  | plan (view : Option PlanView)
  | planDetail (view : PlanView) (debug : String)
  | outcomes (results : Option (List Bool))
  | comparison (length other : Nat) (same : List Bool)
  | action (kind : ActionKind) (isBound : Bool) (debug : String)

namespace Command

variable {S σ : Type}

/-- The content of a slot; an empty one is a failure that names it. -/
def find {α : Type} (name : String) (slots : Shelf S → Slots α) : Run S σ α := do
  match ← Run.inspect fun w => (slots w.shelf).get? name with
  | some a => return a
  | none => Run.fail (.emptySlot name)

/-- The action at a place of a plan. -/
def pick (plan : List (Action S)) (index : Nat) : Run S σ (Action S) :=
  match plan[index]? with
  | some a => return a
  | none => Run.fail (.noSuchIndex index)

/-- The contents of several action slots, in order. -/
def findAll (names : List String) : Run S σ (List (Action S)) :=
  match names with
  | [] => return []
  | name :: rest => do
    let a ← find name Shelf.actions
    let more ← findAll rest
    return a :: more

def answerTxn (t : TxnKey) : Run S σ Answer :=
  Run.inspect fun w => .txn (w.engine.viewTxn t)

def answerBuilder (b : Builder S) : Run S σ Answer :=
  Run.inspect fun w => .builder (w.engine.viewBuilder b)

/-- Puts a reference that the program owns into a slot. The answer shows the
transaction as it is before the slot's old content is lost. -/
def storeTxn (t : TxnKey) (into : String) : Run S σ Answer := do
  let answer ← answerTxn t
  Run.change (·.storeHandle into t)
  return answer

/-- Puts an action with a new body into a slot. -/
def storeNew (x : Recipe S) (into : String) : Run S σ Answer := do
  let a ← Run.onEngine (·.newAction x)
  Run.change (·.storeAction into a)
  return .done

/-- A refused builder call, as the program sees it. -/
def refused (why : Refusal) : Failure :=
  match why with
  | .misuse error => .misuse error
  | .capacityOverflow => .panic "capacity overflow"

/-- Takes a builder through one call and puts it back if it comes back. -/
def callBuilder (name : String) (call : Call S) : Run S σ Answer := do
  let b ← find name Shelf.builders
  Run.change (·.takeBuilder name)
  match ← Run.onEngine (b.call call) with
  | .ok b =>
    Run.change (·.storeBuilder name b)
    answerBuilder b
  | .error why => Run.fail (refused why)

/-- Whether a slot held something before it was emptied. -/
def discardFrom {α : Type} (name : String) (slots : Shelf S → Slots α)
    (drop : World S σ → World S σ) : Run S σ Answer := do
  let used ← Run.inspect fun w => ((slots w.shelf).get? name).isSome
  Run.change drop
  return .flag used

/-- Carries out a command, given the meaning of steps. -/
def perform (steps : Meaning S σ) (c : Command S) : Run S σ Answer :=
  match c with
  | .openContext into name => do
    let c ← Run.onEngine (·.openContext name)
    Run.change (·.storeContext into c)
    Run.inspect fun w => .context (w.engine.context c).id name
  | .describeContext context layout => do
    let c ← find context Shelf.contexts
    Run.inspect fun w =>
      let x := w.engine.context c
      .contextDetail x.id x.name ((w.engine.contextTree c).render layout)
  | .takeTxnId context => do
    let c ← find context Shelf.contexts
    return .txnId (← Run.onEngine (·.takeTxnId c))
  | .contextOf handle into => do
    let t ← find handle Shelf.handles
    let c ← Run.inspect (·.engine.contextOf t)
    Run.change (·.storeContext into c)
    Run.inspect fun w => .contextId (w.engine.context c).id
  | .sameContext context other => do
    let c ← find context Shelf.contexts
    let d ← find other Shelf.contexts
    return .flag (c = d)
  | .sameTxn handle other => do
    let t ← find handle Shelf.handles
    let u ← find other Shelf.handles
    return .flag (t = u)
  | .createBuilder context into config => do
    let c ← find context Shelf.contexts
    match (config.map Config.Source.read).getD (.ok {}) with
    | .error problem => Run.fail (.badConfig problem)
    | .ok config =>
      let b ← Run.onEngine (Builder.create config c)
      Run.change (·.storeBuilder into b)
      answerBuilder b
  | .build builder call => callBuilder builder call
  | .retrieve builder into => do
    let b ← find builder Shelf.builders
    Run.change (·.takeBuilder builder)
    storeTxn (← Run.onEngine b.retrieve) into
  | .describeBuilder builder layout => do
    let b ← find builder Shelf.builders
    Run.inspect fun w =>
      .builderDetail (w.engine.viewBuilder b) b.config (w.engine.viewTxn b.txn)
        (b.tree.render layout)
  | .borrow builder into => do
    let b ← find builder Shelf.builders
    Run.change (·.hold b.txn)
    storeTxn b.txn into
  | .openTxn context into => do
    let c ← find context Shelf.contexts
    storeTxn (← Run.onEngine (·.openTxn c)) into
  | .viewTxn handle => do
    answerTxn (← find handle Shelf.handles)
  | .describeTxn handle layout => do
    let t ← find handle Shelf.handles
    Run.inspect fun w => .text ((w.engine.txnTree t).render layout)
  | .cloneHandle handle into => do
    let t ← find handle Shelf.handles
    Run.change (·.hold t)
    Run.change (·.storeHandle into t)
    return .done
  | .install handle actions => do
    let actions ← findAll actions
    let t ← find handle Shelf.handles
    Run.change (·.onEngine (·.install t actions))
    answerTxn t
  | .play handle => do
    let t ← find handle Shelf.handles
    return .outcomes (← steps.play t)
  | .keepPlan handle into => do
    let t ← find handle Shelf.handles
    match ← Run.inspect (·.engine.plan? t) with
    | none => return .plan none
    | some plan =>
      Run.change (·.storePlan into plan)
      Run.inspect fun w => .plan (some (w.engine.viewPlan plan))
  | .describePlan plan layout => do
    let plan ← find plan Shelf.plans
    Run.inspect fun w =>
      .planDetail (w.engine.viewPlan plan) ((w.engine.planTree plan).render layout)
  | .playPlan plan => do
    let plan ← find plan Shelf.plans
    return .outcomes (some (← steps.invokeAll plan))
  | .runPlanUntilFailure plan => do
    let plan ← find plan Shelf.plans
    return .flag (← steps.invokeUntilFailure plan)
  | .comparePlans plan other => do
    let p ← find plan Shelf.plans
    let q ← find other Shelf.plans
    return .comparison p.length q.length (p.zipWith Action.sameBody q)
  | .invokeAt plan index => do
    let a ← pick (← find plan Shelf.plans) index
    return .flag (← steps.invoke a)
  | .pickAction plan index into => do
    let a ← pick (← find plan Shelf.plans) index
    Run.change (·.storeAction into a)
    return .done
  | .bindStep handle step into => do
    let t ← find handle Shelf.handles
    storeNew (.sequential t step) into
  | .bindChoice handle primary fallback into => do
    let t ← find handle Shelf.handles
    storeNew (.choice t primary fallback) into
  | .freeAction kind step into => storeNew (.fromFn kind step) into
  | .cloneAction action into => do
    let a ← find action Shelf.actions
    Run.change (·.storeAction into a)
    return .done
  | .describeAction action layout => do
    let a ← find action Shelf.actions
    Run.inspect fun w =>
      .action a.kind (w.engine.isBound a) ((w.engine.actionTree a).render layout)
  | .invoke action => do
    let a ← find action Shelf.actions
    return .flag (← steps.invoke a)
  | .sameBody action other => do
    let a ← find action Shelf.actions
    let b ← find other Shelf.actions
    return .flag (a.sameBody b)
  | .discard kind name =>
    match kind with
    | .context => discardFrom name Shelf.contexts (·.dropContext name)
    | .builder => discardFrom name Shelf.builders (·.dropBuilder name)
    | .handle => discardFrom name Shelf.handles (·.dropHandle name)
    | .plan => discardFrom name Shelf.plans (·.dropPlan name)
    | .action => discardFrom name Shelf.actions (·.dropAction name)

end Command

end TxnAssembly
