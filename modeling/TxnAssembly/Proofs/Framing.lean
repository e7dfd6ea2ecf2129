import TxnAssembly.Command

/-!
# What commands leave as it is

A command that invokes no action changes the engine by a few small operations, and a plan
only if it is one that installs. So what the small operations preserve is preserved by the
command: it is enough to look at them, once for each thing that is to be preserved.
-/
namespace TxnAssembly

variable {S σ α β : Type}

namespace Event

/-- Whether an event tells of an invocation. -/
def isOfInvocation (e : Event) : Bool :=
  match e with
  | orphaned _ | fallingBack | invoked _ _ => true
  | _ => false

end Event

namespace Engine

/-- A relation between an engine and a later one that holds across each small operation. To
install a plan is not among them. -/
structure Frame (R : Engine S → Engine S → Prop) : Prop where
  refl (e : Engine S) : R e e
  trans {e e' e'' : Engine S} (h : R e e') (h' : R e' e'') : R e e''
  emit (e : Engine S) {x : Event} (h : x.isOfInvocation = false) : R e (e.emit x)
  hold (e : Engine S) (t : TxnKey) : R e (e.hold t)
  release (e : Engine S) (t : TxnKey) : R e (e.release t)
  openContext (e : Engine S) (name : Option String) : R e (e.openContext name).2
  takeTxnId (e : Engine S) (c : ContextKey) : R e (e.takeTxnId c).2
  openTxn (e : Engine S) (c : ContextKey) : R e (e.openTxn c).2
  newAction (e : Engine S) (x : Recipe S) : R e (e.newAction x).2

/-- A relation that holds across installations too. -/
def Admits (R : Engine S → Engine S → Prop) : Prop :=
  ∀ (e : Engine S) (t : TxnKey) (actions : List (Action S)), R e (e.install t actions)

end Engine

variable {R : Engine S → Engine S → Prop} (hR : Engine.Frame R)

namespace Builder

variable (b : Builder S) (e : Engine S)
include hR

theorem frame_openSequence : R e (b.openSequence e).2 := by
  rw [openSequence]
  split
  · exact hR.emit e rfl
  · exact hR.release e _

theorem frame_startBuild : R e (b.startBuild e).2 := by
  rw [startBuild]
  split
  · exact b.frame_openSequence hR e
  · split
    · exact hR.release e _
    · exact hR.trans (hR.emit e rfl) (b.frame_openSequence hR _)

theorem frame_push (operation : String) (x : Recipe S) : R e (b.push operation x e).2 := by
  rw [push]
  split
  · exact hR.release e _
  · exact hR.trans (hR.newAction e x) (hR.emit _ rfl)

theorem frame_startBuildWith (step : S) : R e (b.startBuildWith step e).2 := by
  have hstart := b.frame_startBuild hR e
  rw [startBuildWith]
  cases hresult : b.startBuild e with
  | mk result e' =>
    rw [hresult] at hstart
    cases result with
    | error why => exact hstart
    | ok b' => exact hR.trans hstart (b'.frame_push hR e' _ _)

theorem frame_finalize (hinstall : Engine.Admits R) : R e (b.finalize e).2 := by
  rw [finalize]
  split
  · exact hR.release e _
  · exact hR.trans (hR.emit e rfl) (hinstall _ _ _)

theorem frame_call (c : Call S) (hinstall : c ≠ .finalize ∨ Engine.Admits R) :
    R e (b.call c e).2 := by
  cases c with
  | startBuild => exact b.frame_startBuild hR e
  | startBuildWith step => exact b.frame_startBuildWith hR e step
  | append step => exact b.frame_push hR e _ _
  | appendChoice primary fallback => exact b.frame_push hR e _ _
  | finalize => exact b.frame_finalize hR e (hinstall.resolve_left fun h => h rfl)

theorem frame_retrieve : R e (b.retrieve e).2 := by
  rw [retrieve]
  split
  · exact hR.refl e
  · exact hR.emit e rfl

theorem frame_create (config : Config) (c : ContextKey) : R e (create config c e).2 :=
  hR.trans (hR.openTxn e c) (hR.emit _ rfl)

end Builder

namespace World

variable (w : World S σ) (name : String)
include hR

theorem frame_release? {e : Engine S} (h : w.engine = e) (t : Option TxnKey) :
    R e (w.release? t).engine := by
  subst h
  cases t with
  | none => exact hR.refl _
  | some t => exact hR.release _ t

theorem frame_storeBuilder (b : Builder S) : R w.engine (w.storeBuilder name b).engine :=
  frame_release? hR _ (by rfl) _

theorem frame_storeHandle (t : TxnKey) : R w.engine (w.storeHandle name t).engine :=
  frame_release? hR _ (by rfl) _

theorem frame_dropBuilder : R w.engine (w.dropBuilder name).engine := frame_release? hR _ (by rfl) _

theorem frame_dropHandle : R w.engine (w.dropHandle name).engine := frame_release? hR _ (by rfl) _

end World

namespace Run

/-- Between the engine before a run and the one after it the relation holds. -/
def Respects (R : Engine S → Engine S → Prop) (x : Run S σ α) : Prop :=
  ∀ w : World S σ, R w.engine (x w).2.engine

section Respects

variable {x : Run S σ α} {f : α → Run S σ β}
include hR

theorem respects_pure (a : α) : Respects R (pure a : Run S σ α) := fun _ => hR.refl _

theorem respects_halt (h : Halt) : Respects R (halt h : Run S σ α) := fun _ => hR.refl _

theorem respects_inspect (p : World S σ → α) : Respects R (inspect p) := fun _ => hR.refl _

/-- A change of the world in which the engine stays the same. -/
theorem respects_change {p : World S σ → World S σ} (h : ∀ w, (p w).engine = w.engine) :
    Respects R (change p) := by
  intro w
  rw [change_apply, h w]
  exact hR.refl _

theorem Respects.bind (hx : x.Respects R) (hf : ∀ a, (f a).Respects R) :
    (x >>= f).Respects R := by
  intro w
  have hfirst := hx w
  rw [bind_apply]
  rcases hresult : x w with ⟨halt | a, u⟩
  · rw [hresult] at hfirst
    exact hfirst
  · rw [hresult] at hfirst
    exact hR.trans hfirst (hf a u)

end Respects

theorem respects_onEngine {p : Engine S → α × Engine S} (h : ∀ e : Engine S, R e (p e).2) :
    Respects R (onEngine p : Run S σ α) :=
  fun w => h w.engine

end Run

namespace Command

/-- The commands that invoke actions. -/
def invokes (c : Command S) : Bool :=
  match c with
  | .play _ | .playPlan _ | .runPlanUntilFailure _ | .invokeAt _ _ | .invoke _ => true
  | _ => false

/-- The commands that install a plan. -/
def installs (c : Command S) : Bool :=
  match c with
  | .install _ _ | .build _ .finalize => true
  | _ => false

/-- To look a slot up changes nothing. -/
theorem find_snd (name : String) (slots : Shelf S → Slots α) (w : World S σ) :
    (find name slots w).2 = w := by
  rw [find, Run.bind_of_ok (x := Run.inspect _) rfl]
  cases (slots w.shelf).get? name <;> rfl

theorem pick_snd (plan : List (Action S)) (index : Nat) (w : World S σ) :
    (pick plan index w).2 = w := by
  rw [pick]
  cases plan[index]? <;> rfl

section Respects

include hR

theorem respects_find (name : String) (slots : Shelf S → Slots α) :
    (find name slots : Run S σ α).Respects R := by
  intro w
  rw [find_snd]
  exact hR.refl _

theorem respects_pick (plan : List (Action S)) (index : Nat) :
    (pick plan index : Run S σ (Action S)).Respects R := by
  intro w
  rw [pick_snd]
  exact hR.refl _

theorem respects_findAll (names : List String) :
    (findAll names : Run S σ (List (Action S))).Respects R := by
  induction names with
  | nil => exact Run.respects_pure hR []
  | cons name rest ih =>
    exact (respects_find hR name _).bind hR fun _ => ih.bind hR fun _ => Run.respects_pure hR _

theorem respects_storeTxn (t : TxnKey) (into : String) :
    (storeTxn t into : Run S σ Answer).Respects R :=
  fun w => w.frame_storeHandle hR into t

theorem respects_storeNew (x : Recipe S) (into : String) :
    (storeNew x into : Run S σ Answer).Respects R :=
  fun w => hR.newAction w.engine x

theorem respects_storeBuilder (name : String) (b : Builder S) :
    (do
      Run.change (·.storeBuilder name b)
      answerBuilder b : Run S σ Answer).Respects R :=
  fun w => w.frame_storeBuilder hR name b

theorem respects_callBuilder (name : String) (call : Call S)
    (hinstall : call ≠ .finalize ∨ Engine.Admits R) :
    (callBuilder name call : Run S σ Answer).Respects R := by
  refine (respects_find hR name _).bind hR fun b => ?_
  refine Run.Respects.bind hR (Run.respects_change hR fun _ => rfl) fun _ => ?_
  refine (Run.respects_onEngine fun e => b.frame_call hR e call hinstall).bind hR fun result => ?_
  cases result with
  | ok b' => exact respects_storeBuilder hR name b'
  | error why => exact Run.respects_halt hR _

/-- Between the engines before and after a command that invokes no action the relation holds,
if the command installs no plan or the relation admits that. -/
theorem respects_perform (steps : Meaning S σ) {c : Command S} (h : c.invokes = false)
    (hinstall : c.installs = false ∨ Engine.Admits R) : (c.perform steps).Respects R := by
  have hfind {α : Type} (name : String) (slots : Shelf S → Slots α) :
      (find name slots : Run S σ α).Respects R := respects_find hR name slots
  cases c with
  | openContext into name => exact fun w => hR.openContext w.engine name
  | describeContext | describeBuilder | viewTxn | describeTxn | describePlan | describeAction =>
    exact (hfind _ _).bind hR fun _ => Run.respects_inspect hR _
  | takeTxnId => exact (hfind _ _).bind hR fun c w => hR.takeTxnId w.engine c
  | contextOf | cloneAction => exact (hfind _ _).bind hR fun _ _ => hR.refl _
  | sameContext | sameTxn | comparePlans | sameBody =>
    exact (hfind _ _).bind hR fun _ => (hfind _ _).bind hR fun _ => Run.respects_pure hR _
  | createBuilder context into config =>
    refine (hfind context _).bind hR fun c => ?_
    cases (config.map Config.Source.read).getD (.ok {}) with
    | error problem => exact Run.respects_halt hR _
    | ok config =>
      refine (Run.respects_onEngine fun e => Builder.frame_create hR e config c).bind hR ?_
      exact fun b => respects_storeBuilder hR into b
  | build builder call =>
    refine respects_callBuilder hR builder call (hinstall.imp_left ?_)
    rintro h rfl
    cases h
  | retrieve builder into =>
    refine (hfind builder _).bind hR fun b => ?_
    refine Run.Respects.bind hR (Run.respects_change hR fun _ => rfl) fun _ => ?_
    exact (Run.respects_onEngine (b.frame_retrieve hR)).bind hR fun t =>
      respects_storeTxn hR t into
  | borrow builder into =>
    refine (hfind builder _).bind hR fun b w => ?_
    exact hR.trans (hR.hold w.engine b.txn) (respects_storeTxn hR b.txn into (w.hold b.txn))
  | openTxn context into =>
    refine (hfind context _).bind hR fun c => ?_
    exact (Run.respects_onEngine fun e => hR.openTxn e c).bind hR fun t =>
      respects_storeTxn hR t into
  | cloneHandle handle into =>
    refine (hfind handle _).bind hR fun t w => ?_
    exact hR.trans (hR.hold w.engine t) ((w.hold t).frame_storeHandle hR into t)
  | install handle actions =>
    refine (respects_findAll hR actions).bind hR fun actions => (hfind handle _).bind hR fun t => ?_
    exact fun w => hinstall.resolve_left nofun w.engine t actions
  | keepPlan handle into =>
    refine (hfind handle _).bind hR fun t => (Run.respects_inspect hR _).bind hR fun plan? => ?_
    cases plan? with
    | none => exact Run.respects_pure hR _
    | some plan => exact fun w => hR.refl _
  | pickAction plan index into =>
    refine (hfind plan _).bind hR fun plan => (respects_pick hR plan index).bind hR fun a => ?_
    exact fun w => hR.refl _
  | bindStep | bindChoice => exact (hfind _ _).bind hR fun _ => respects_storeNew hR _ _
  | freeAction => exact respects_storeNew hR _ _
  | discard kind name =>
    cases kind with
    | context | plan | action => exact fun w => hR.refl _
    | builder => exact fun w => w.frame_dropBuilder hR name
    | handle => exact fun w => w.frame_dropHandle hR name
  | play | playPlan | runPlanUntilFailure | invokeAt | invoke => cases h

end Respects

end Command

end TxnAssembly
