import TxnAssembly.Program
import TxnAssembly.Proofs.Passage

/-!
# The log is only written

Nobody reads the log. Commands and steps append their events to it, and what they do
else, and which events these are, does not depend on what has been logged before.
-/
namespace TxnAssembly

variable {S σ α β : Type}

namespace Engine

/-- The engine with an older log in front of its own. -/
def recalling (past : List Event) (e : Engine S) : Engine S :=
  { e with log := past ++ e.log }

/-- An operation to which an older log makes no difference. -/
def Appends (f : Engine S → α × Engine S) : Prop :=
  ∀ past e, f (e.recalling past) = ((f e).1, (f e).2.recalling past)

@[simp] theorem emit_recalling (past : List Event) (e : Engine S) (event : Event) :
    (e.recalling past).emit event = (e.emit event).recalling past := by
  simp [recalling, emit]

theorem install_recalling (past : List Event) (e : Engine S) (t : TxnKey)
    (actions : List (Action S)) :
    (e.recalling past).install t actions = (e.install t actions).recalling past := by
  simp [install, recalling, emit, context, contextOf, txnId, txn?]

end Engine

namespace Builder

variable (b : Builder S)

theorem appends_openSequence : Engine.Appends b.openSequence := by
  intro past e
  rw [openSequence, openSequence]
  split
  · rw [Engine.emit_recalling]
  · rfl

theorem appends_startBuild : Engine.Appends b.startBuild := by
  intro past e
  rw [startBuild, startBuild]
  cases b.sequence with
  | none => exact b.appends_openSequence past e
  | some actions =>
    cases b.config.restartPolicy with
    | reject => rfl
    | restart =>
      simp only [Engine.emit_recalling]
      exact b.appends_openSequence past _

theorem appends_push (operation : String) (x : Recipe S) :
    Engine.Appends (b.push operation x) := by
  intro past e
  rw [push, push]
  cases b.sequence with
  | none => rfl
  | some actions => simp [Engine.newAction, Engine.emit, Engine.recalling]

theorem appends_startBuildWith (step : S) : Engine.Appends (b.startBuildWith step) := by
  intro past e
  rw [startBuildWith, startBuildWith, b.appends_startBuild past e]
  rcases b.startBuild e with ⟨why | b', e'⟩
  · rfl
  · exact b'.appends_push _ _ past e'

theorem appends_finalize : Engine.Appends b.finalize := by
  intro past e
  rw [finalize, finalize]
  cases b.sequence with
  | none => rfl
  | some actions => simp only [Engine.emit_recalling, Engine.install_recalling]

theorem appends_call (c : Call S) : Engine.Appends (b.call c) := by
  cases c with
  | startBuild => exact b.appends_startBuild
  | startBuildWith step => exact b.appends_startBuildWith step
  | append step => exact b.appends_push _ _
  | appendChoice primary fallback => exact b.appends_push _ _
  | finalize => exact b.appends_finalize

theorem appends_retrieve : Engine.Appends b.retrieve := by
  intro past e
  rw [retrieve, retrieve]
  split
  · rfl
  · rw [Engine.emit_recalling]

theorem appends_create (config : Config) (c : ContextKey) :
    Engine.Appends (create (S := S) config c) := by
  intro past e
  simp [create, Engine.openTxn, Engine.takeTxnId, Engine.hold, Engine.emit, Engine.context,
    Engine.recalling]

end Builder

namespace World

/-- The world with an older log in front of its own. -/
def recalling (past : List Event) (w : World S σ) : World S σ := w.onEngine (·.recalling past)

variable (past : List Event) (w : World S σ)

theorem release?_recalling (t : Option TxnKey) :
    (w.recalling past).release? t = (w.release? t).recalling past := by
  cases t <;> rfl

theorem storeBuilder_recalling (name : String) (b : Builder S) :
    (w.recalling past).storeBuilder name b = (w.storeBuilder name b).recalling past := by
  rw [storeBuilder, storeBuilder, ← release?_recalling]
  rfl

theorem storeHandle_recalling (name : String) (t : TxnKey) :
    (w.recalling past).storeHandle name t = (w.storeHandle name t).recalling past := by
  rw [storeHandle, storeHandle, ← release?_recalling]
  rfl

theorem dropBuilder_recalling (name : String) :
    (w.recalling past).dropBuilder name = (w.dropBuilder name).recalling past := by
  rw [dropBuilder, dropBuilder, ← release?_recalling]
  rfl

theorem dropHandle_recalling (name : String) :
    (w.recalling past).dropHandle name = (w.dropHandle name).recalling past := by
  rw [dropHandle, dropHandle, ← release?_recalling]
  rfl

/-- The world with an empty log. -/
def unlogged (w : World S σ) : World S σ := w.onEngine fun e => { e with log := [] }

theorem recalling_unlogged : w.unlogged.recalling w.engine.log = w := by
  simp [unlogged, recalling, onEngine, Engine.recalling]

end World

namespace Run

/-- A run to which an older log makes no difference. -/
def Appends (x : Run S σ α) : Prop :=
  ∀ past w, x (w.recalling past) = ((x w).1, (x w).2.recalling past)

variable {x : Run S σ α} {f : α → Run S σ β}

theorem appends_pure (a : α) : Appends (pure a : Run S σ α) := fun _ _ => rfl

theorem appends_halt (h : Halt) : Appends (halt h : Run S σ α) := fun _ _ => rfl

theorem appends_inspect {p : World S σ → α} (h : ∀ past w, p (w.recalling past) = p w) :
    Appends (inspect p) := by
  intro past w
  rw [inspect_apply, inspect_apply, h]

theorem appends_change {p : World S σ → World S σ}
    (h : ∀ past w, p (w.recalling past) = (p w).recalling past) : Appends (change p) := by
  intro past w
  rw [change_apply, change_apply, h]

theorem appends_onEngine {p : Engine S → α × Engine S} (h : Engine.Appends p) :
    Appends (onEngine p : Run S σ α) := by
  intro past w
  have hengine : p (w.recalling past).engine = _ := h past w.engine
  rw [onEngine_apply, onEngine_apply, hengine]
  rfl

theorem appends_emit (event : Event) : Appends (emit event : Run S σ Unit) :=
  appends_change fun past w =>
    congrArg (fun e => { w with engine := e }) (w.engine.emit_recalling past event)

theorem Appends.bind (hx : x.Appends) (hf : ∀ a, (f a).Appends) : (x >>= f).Appends := by
  intro past w
  rw [bind_apply, bind_apply, hx past w]
  rcases x w with ⟨halt | a, u⟩
  · rfl
  · exact hf a past u

theorem Appends.holding (hx : x.Appends) (t : TxnKey) : (holding t x).Appends := by
  intro past w
  have hheld : (w.recalling past).hold t = (w.hold t).recalling past := rfl
  rw [holding_apply, holding_apply, hheld, hx]
  rfl

theorem Appends.settle (hx : x.Appends) : x.settle.Appends := by
  intro past w
  rw [Run.settle, Run.settle, hx]
  rcases x w with ⟨(why | _) | a, u⟩ <;> rfl

/-- What a run does is told by what it does when nothing has been logged yet. -/
theorem Appends.apply_eq (hx : x.Appends) (w : World S σ) :
    x w = ((x w.unlogged).1, (x w.unlogged).2.recalling w.engine.log) := by
  have happly := hx w.engine.log w.unlogged
  rwa [w.recalling_unlogged] at happly

end Run

namespace Meaning

/-- Steps to which an older log makes no difference. -/
def Appends (steps : Meaning S σ) : Prop := ∀ s t, (steps s t).Appends

variable {steps : Meaning S σ}

theorem appends_onLive (t : TxnKey) (kind : ActionKind) {x : Run S σ Bool} (hx : x.Appends) :
    (onLive t kind x).Appends := by
  refine (Run.appends_inspect fun past w => rfl).bind fun alive => ?_
  split
  · exact hx.holding t
  · exact (Run.appends_emit _).bind fun _ => Run.appends_pure false

variable (hsteps : steps.Appends)
include hsteps

theorem appends_runBody (b : Body S) : (steps.runBody b).Appends := by
  cases b with
  | free s => exact hsteps s none
  | step t s => exact appends_onLive t _ (hsteps s (some t))
  | choice t primary fallback =>
    refine appends_onLive t _ ((hsteps primary (some t)).bind fun ok => ?_)
    split
    · exact Run.appends_pure true
    · exact (Run.appends_emit _).bind fun _ => hsteps fallback (some t)

theorem appends_invoke (a : Action S) : (steps.invoke a).Appends :=
  (appends_runBody hsteps a.body).bind fun _ =>
    (Run.appends_emit _).bind fun _ => Run.appends_pure _

theorem appends_invokeAll (plan : List (Action S)) : (steps.invokeAll plan).Appends := by
  induction plan with
  | nil => exact Run.appends_pure []
  | cons a rest ih =>
    exact (appends_invoke hsteps a).bind fun _ => ih.bind fun _ => Run.appends_pure _

theorem appends_invokeUntilFailure (plan : List (Action S)) :
    (steps.invokeUntilFailure plan).Appends := by
  induction plan with
  | nil => exact Run.appends_pure true
  | cons a rest ih =>
    refine (appends_invoke hsteps a).bind fun ok => ?_
    split
    · exact ih
    · exact Run.appends_pure false

theorem appends_play (t : TxnKey) : (steps.play t).Appends := by
  refine Run.Appends.holding ?_ t
  refine (Run.appends_inspect fun past w => rfl).bind fun plan? => ?_
  cases plan? with
  | none => exact Run.appends_pure none
  | some plan => exact (appends_invokeAll hsteps plan).bind fun _ => Run.appends_pure _

end Meaning

namespace Command

theorem appends_find (name : String) (slots : Shelf S → Slots α) :
    (find name slots : Run S σ α).Appends := by
  refine (Run.appends_inspect fun past w => rfl).bind fun found => ?_
  cases found with
  | none => exact Run.appends_halt _
  | some a => exact Run.appends_pure a

theorem appends_pick (plan : List (Action S)) (index : Nat) :
    (pick plan index : Run S σ (Action S)).Appends := by
  rw [pick]
  cases plan[index]? with
  | none => exact Run.appends_halt _
  | some a => exact Run.appends_pure a

theorem appends_findAll (names : List String) :
    (findAll names : Run S σ (List (Action S))).Appends := by
  induction names with
  | nil => exact Run.appends_pure []
  | cons name rest ih =>
    exact (appends_find name _).bind fun _ => ih.bind fun _ => Run.appends_pure _

theorem appends_storeTxn (t : TxnKey) (into : String) :
    (storeTxn t into : Run S σ Answer).Appends := by
  refine (Run.appends_inspect fun past w => rfl).bind fun _ => ?_
  refine (Run.appends_change fun past w => w.storeHandle_recalling past into t).bind fun _ => ?_
  exact Run.appends_pure _

theorem appends_storeNew (x : Recipe S) (into : String) :
    (storeNew x into : Run S σ Answer).Appends :=
  (Run.appends_onEngine fun _ _ => rfl).bind fun _ =>
    (Run.appends_change fun _ _ => rfl).bind fun _ => Run.appends_pure _

theorem appends_storeBuilder (name : String) (b : Builder S) :
    (do
      Run.change (·.storeBuilder name b)
      answerBuilder b : Run S σ Answer).Appends := by
  refine (Run.appends_change fun past w => w.storeBuilder_recalling past name b).bind fun _ => ?_
  exact Run.appends_inspect fun past w => rfl

theorem appends_callBuilder (name : String) (call : Call S) :
    (callBuilder name call : Run S σ Answer).Appends := by
  refine (appends_find name _).bind fun b => ?_
  refine (Run.appends_change fun past w => rfl).bind fun _ => ?_
  refine (Run.appends_onEngine (b.appends_call call)).bind fun result => ?_
  cases result with
  | ok b' => exact appends_storeBuilder name b'
  | error why => exact Run.appends_halt _

theorem appends_discardFrom (name : String) (slots : Shelf S → Slots α)
    {drop : World S σ → World S σ}
    (h : ∀ past w, drop (w.recalling past) = (drop w).recalling past) :
    (discardFrom name slots drop).Appends :=
  (Run.appends_inspect fun _ _ => rfl).bind fun _ =>
    (Run.appends_change h).bind fun _ => Run.appends_pure _

/-- No command reads the log, if no step does. -/
theorem appends_perform {steps : Meaning S σ} (hsteps : steps.Appends) (c : Command S) :
    (c.perform steps).Appends := by
  cases c with
  | openContext into name => exact fun _ _ => rfl
  | describeContext | contextOf | cloneAction | takeTxnId =>
    exact (appends_find _ _).bind fun _ _ _ => rfl
  | sameContext | sameTxn | comparePlans | sameBody =>
    exact (appends_find _ _).bind fun _ => (appends_find _ _).bind fun _ _ _ => rfl
  | createBuilder context into config =>
    refine (appends_find context _).bind fun c => ?_
    cases (config.map Config.Source.read).getD (.ok {}) with
    | error problem => exact Run.appends_halt _
    | ok config =>
      refine (Run.appends_onEngine (Builder.appends_create config c)).bind fun b => ?_
      exact appends_storeBuilder into b
  | build builder call => exact appends_callBuilder builder call
  | retrieve builder into =>
    refine (appends_find builder _).bind fun b => ?_
    refine (Run.appends_change fun past w => rfl).bind fun _ => ?_
    exact (Run.appends_onEngine b.appends_retrieve).bind fun t => appends_storeTxn t into
  | describeBuilder | viewTxn | describeTxn | describePlan | describeAction =>
    exact (appends_find _ _).bind fun _ => Run.appends_inspect fun _ _ => rfl
  | borrow builder into =>
    refine (appends_find builder _).bind fun b => ?_
    exact (Run.appends_change fun past w => rfl).bind fun _ => appends_storeTxn b.txn into
  | openTxn context into =>
    refine (appends_find context _).bind fun c => ?_
    exact (Run.appends_onEngine fun past e => rfl).bind fun t => appends_storeTxn t into
  | cloneHandle handle into =>
    refine (appends_find handle _).bind fun t => ?_
    refine (Run.appends_change fun past w => rfl).bind fun _ => ?_
    refine (Run.appends_change fun past w => w.storeHandle_recalling past into t).bind ?_
    exact fun _ => Run.appends_pure _
  | install handle actions =>
    refine (appends_findAll actions).bind fun actions => ?_
    refine (appends_find handle _).bind fun t => ?_
    refine (Run.appends_change fun past w => ?_).bind fun _ => ?_
    · exact congrArg (fun e => { w with engine := e })
        (w.engine.install_recalling past t actions)
    · exact Run.appends_inspect fun past w => rfl
  | play handle =>
    refine (appends_find handle _).bind fun t => ?_
    exact (Meaning.appends_play hsteps t).bind fun _ => Run.appends_pure _
  | keepPlan handle into =>
    refine (appends_find handle _).bind fun t => ?_
    refine (Run.appends_inspect fun past w => rfl).bind fun plan? => ?_
    cases plan? with
    | none => exact Run.appends_pure _
    | some plan =>
      exact (Run.appends_change fun past w => rfl).bind fun _ =>
        Run.appends_inspect fun past w => rfl
  | playPlan plan =>
    refine (appends_find plan _).bind fun plan => ?_
    exact (Meaning.appends_invokeAll hsteps plan).bind fun _ => Run.appends_pure _
  | runPlanUntilFailure plan =>
    refine (appends_find plan _).bind fun plan => ?_
    exact (Meaning.appends_invokeUntilFailure hsteps plan).bind fun _ => Run.appends_pure _
  | invokeAt plan index =>
    refine (appends_find plan _).bind fun plan => (appends_pick plan index).bind fun a => ?_
    exact (Meaning.appends_invoke hsteps a).bind fun _ => Run.appends_pure _
  | pickAction plan index into =>
    refine (appends_find plan _).bind fun plan => ?_
    exact (appends_pick plan index).bind fun _ _ _ => rfl
  | bindStep | bindChoice => exact (appends_find _ _).bind fun _ => appends_storeNew _ _
  | freeAction => exact appends_storeNew _ _
  | invoke action =>
    refine (appends_find action _).bind fun a => ?_
    exact (Meaning.appends_invoke hsteps a).bind fun _ => Run.appends_pure _
  | discard kind name =>
    cases kind with
    | context | plan | action => exact appends_discardFrom name _ fun _ _ => rfl
    | builder => exact appends_discardFrom name _ fun past w => w.dropBuilder_recalling past name
    | handle => exact appends_discardFrom name _ fun past w => w.dropHandle_recalling past name

end Command

namespace Program

variable {steps : Meaning S σ}

theorem storePlanOf_recalling (t : TxnKey) (into : String) (past : List Event) (w : World S σ) :
    storePlanOf t into (w.recalling past) = (storePlanOf t into w).recalling past := by
  have hplan : (w.recalling past).engine.plan? t = w.engine.plan? t := rfl
  rw [storePlanOf, storePlanOf, hplan]
  cases w.engine.plan? t <;> rfl

theorem installFrom_recalling (t : TxnKey) (names : List String) (past : List Event)
    (w : World S σ) :
    installFrom t names (w.recalling past) = (installFrom t names w).recalling past :=
  congrArg (fun e => { w with engine := e }) (w.engine.install_recalling past t _)

theorem appends_run (hsteps : steps.Appends) (t : Option TxnKey) (p : Program S σ) :
    (p.run steps t).Appends := by
  induction p with
  | finish ok => exact Run.appends_pure ok
  | panic text => exact Run.appends_halt _
  | look next ih => exact (Run.appends_inspect fun past w => rfl).bind ih
  | keepPlan into next ih =>
    refine (Run.appends_change fun past w => ?_).bind fun _ => ih
    cases t with
    | none => rfl
    | some t => exact storePlanOf_recalling t into past w
  | install actions next ih =>
    refine (Run.appends_change fun past w => ?_).bind fun _ => ih
    cases t with
    | none => rfl
    | some t => exact installFrom_recalling t actions past w
  | perform command next ih =>
    exact (Command.appends_perform hsteps command).settle.bind ih
  | remember update next ih =>
    refine (Run.appends_change fun past w => rfl).bind fun _ => ?_
    exact (Run.appends_inspect fun past w => rfl).bind ih

end Program

/-- No program reads the log. -/
theorem Meaning.appends_ofPrograms (programs : S → Program S σ) (depth : Nat) :
    (Meaning.ofPrograms programs depth).Appends := by
  induction depth with
  | zero => exact fun _ _ => Run.appends_halt _
  | succ depth ih => exact fun s t => (programs s).appends_run ih t

end TxnAssembly
