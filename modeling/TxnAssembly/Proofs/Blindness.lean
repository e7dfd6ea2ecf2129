import TxnAssembly.Proofs.Likeness

/-!
# Steps and commands are blind

Every command and every program of a step goes alike in alike worlds: the same
answers, and worlds that are alike again. Of the commands only those that show a
transaction or an action, or run steps, ask whether a transaction is alive.
-/
namespace TxnAssembly

variable {S σ α β : Type}

namespace Builder

variable (b : Builder S)

theorem oblivious_openSequence : Engine.Oblivious b.openSequence := by
  refine .of_plain fun e => ?_
  rw [openSequence, openSequence]
  split <;> exact ⟨rfl, rfl⟩

theorem oblivious_startBuild : Engine.Oblivious b.startBuild := by
  intro e e' h
  rw [startBuild, startBuild]
  cases b.sequence with
  | none => exact b.oblivious_openSequence e e' h
  | some actions =>
    cases b.config.restartPolicy with
    | reject => exact ⟨rfl, h⟩
    | restart => exact b.oblivious_openSequence _ _ h

theorem oblivious_push (operation : String) (x : Recipe S) :
    Engine.Oblivious (b.push operation x) := by
  refine .of_plain fun e => ?_
  rw [push, push]
  cases b.sequence <;> exact ⟨rfl, rfl⟩

theorem oblivious_startBuildWith (step : S) : Engine.Oblivious (b.startBuildWith step) := by
  intro e e' h
  obtain ⟨hresult, hengine⟩ := b.oblivious_startBuild e e' h
  rw [startBuildWith, startBuildWith]
  cases hstart : b.startBuild e with
  | mk result u =>
    cases hstart' : b.startBuild e' with
    | mk result' u' =>
      rw [hstart, hstart'] at hresult hengine
      cases hresult
      cases result with
      | ok b => exact b.oblivious_push _ _ u u' hengine
      | error why => exact ⟨rfl, hengine⟩

theorem oblivious_finalize : Engine.Oblivious b.finalize := by
  refine .of_plain fun e => ?_
  rw [finalize, finalize]
  cases b.sequence <;> exact ⟨rfl, rfl⟩

theorem oblivious_call (c : Call S) : Engine.Oblivious (b.call c) := by
  cases c with
  | startBuild => exact b.oblivious_startBuild
  | startBuildWith step => exact b.oblivious_startBuildWith step
  | append step => exact b.oblivious_push _ _
  | appendChoice primary fallback => exact b.oblivious_push _ _
  | finalize => exact b.oblivious_finalize

theorem oblivious_retrieve : Engine.Oblivious b.retrieve := by
  refine .of_plain fun e => ⟨rfl, ?_⟩
  rw [retrieve, retrieve]
  split <;> rfl

end Builder

namespace World

theorem plain_storeBuilder (w : World S σ) (name : String) (b : Builder S) :
    (w.storeBuilder name b).plain = (w.plain.storeBuilder name b).plain := by
  rw [storeBuilder, storeBuilder, plain_release?, plain_release?]
  rfl

theorem plain_storeHandle (w : World S σ) (name : String) (t : TxnKey) :
    (w.storeHandle name t).plain = (w.plain.storeHandle name t).plain := by
  rw [storeHandle, storeHandle, plain_release?, plain_release?]
  rfl

theorem plain_dropBuilder (w : World S σ) (name : String) :
    (w.dropBuilder name).plain = (w.plain.dropBuilder name).plain := by
  rw [dropBuilder, dropBuilder, plain_release?, plain_release?]
  rfl

theorem plain_dropHandle (w : World S σ) (name : String) :
    (w.dropHandle name).plain = (w.plain.dropHandle name).plain := by
  rw [dropHandle, dropHandle, plain_release?, plain_release?]
  rfl

end World

namespace Meaning

/-- Steps that go alike in alike worlds, and by moves. -/
structure Lawful (steps : Meaning S σ) : Prop where
  tidy : steps.Tidy
  blind : ∀ s t, (steps s t).Blind

variable {steps : Meaning S σ} {H H' : List (Hand S)} {w w' : World S σ}

/-- A run against a transaction that is alive goes on with one owner more. -/
theorem blind_onLive (t : TxnKey) (kind : ActionKind) {x : Run S σ Bool} (hx : x.Blind) :
    (onLive t kind x).Blind := by
  intro H H' w w' h
  have halive : w.engine.isAlive t = w'.engine.isAlive t := h.engine.isAlive t
  rw [onLive]
  refine Run.Agree.bind ⟨congrArg Except.ok halive, h.plain⟩ fun alive hresult => ?_
  have hresult : w.engine.isAlive t = alive := Except.ok.inj hresult
  split
  · next hyes =>
    have hw := hresult.trans hyes
    have hheld : World.Alike (.invocation t :: H) (.invocation t :: H') (w.hold t) (w'.hold t) :=
      h.moves (.single (.upgrade hw)) (.single (.upgrade (halive ▸ hw))) h.plain (h.hands_cons _)
    exact Run.Agree.holding (hx _ _ _ _ hheld)
  · exact ((Run.oblivious_emit _).bind fun _ => Run.oblivious_pure _) w w' h.plain

section Lawful

variable (hsteps : steps.Lawful)
include hsteps

theorem Lawful.blind_runBody (b : Body S) : (steps.runBody b).Blind := by
  cases b with
  | free s => exact hsteps.blind s none
  | step t s => exact blind_onLive t _ (hsteps.blind s _)
  | choice t primary fallback =>
    refine blind_onLive t _ ((hsteps.blind primary _).bind (hsteps.tidy primary _) fun ok => ?_)
    split
    · exact (Run.oblivious_pure _).blind
    · exact (Run.oblivious_emit _).blind.bind (Run.tidy_emit _) fun _ => hsteps.blind fallback _

theorem Lawful.blind_invoke (a : Action S) : (steps.invoke a).Blind :=
  (hsteps.blind_runBody a.body).bind (tidy_runBody hsteps.tidy a.body) fun _ =>
    ((Run.oblivious_emit _).bind fun _ => Run.oblivious_pure _).blind

theorem Lawful.blind_invokeAll (plan : List (Action S)) : (steps.invokeAll plan).Blind := by
  induction plan with
  | nil => exact (Run.oblivious_pure _).blind
  | cons a rest ih =>
    refine (hsteps.blind_invoke a).bind (tidy_invoke hsteps.tidy a) fun _ => ?_
    exact ih.bind (tidy_invokeAll hsteps.tidy rest) fun _ => (Run.oblivious_pure _).blind

theorem Lawful.blind_invokeUntilFailure (plan : List (Action S)) :
    (steps.invokeUntilFailure plan).Blind := by
  induction plan with
  | nil => exact (Run.oblivious_pure _).blind
  | cons a rest ih =>
    refine (hsteps.blind_invoke a).bind (tidy_invoke hsteps.tidy a) fun ok => ?_
    split
    · exact ih
    · exact (Run.oblivious_pure _).blind

theorem Lawful.agree_play (h : World.Alike H H' w w') {t : TxnKey}
    (ht : t ∈ (w.stage H).owners) : (steps.play t).Agree (steps.play t) w w' := by
  have hheld : World.Alike (.play t :: H) (.play t :: H') (w.hold t) (w'.hold t) :=
    h.moves (.single (.play ht)) (.single (.play ((h.mem_owners_iff t).1 ht))) h.plain
      (h.hands_cons _)
  refine Run.Agree.holding (Run.Agree.bind ⟨?_, h.plain⟩ fun plan? _ => ?_)
  · exact congrArg Except.ok (hheld.engine.plan? t)
  · cases plan? with
    | none => exact ⟨rfl, h.plain⟩
    | some plan =>
      exact (hsteps.blind_invokeAll plan _ _ _ _ hheld).bind fun _ _ =>
        Run.oblivious_pure _ _ _ (hsteps.blind_invokeAll plan _ _ _ _ hheld).2

end Lawful

end Meaning

namespace Command

variable {H H' : List (Hand S)} {w w' : World S σ}

/-- Looking a slot up finds the same on both sides. -/
theorem agree_find (h : w.plain = w'.plain) {name : String} {slots : Shelf S → Slots α}
    {f : α → Run S σ β}
    (hf : ∀ a, (slots w.shelf).get? name = some a → (slots w'.shelf).get? name = some a →
      (f a).Agree (f a) w w') :
    (find name slots >>= f).Agree (find name slots >>= f) w w' := by
  have hshelf := World.shelf_of_plain h
  rw [hshelf] at hf
  rw [Run.Agree, Run.bind_apply, Run.bind_apply, find_apply, find_apply, hshelf]
  cases hname : (slots w'.shelf).get? name with
  | none => exact ⟨rfl, h⟩
  | some a => exact hf a hname hname

theorem oblivious_find {name : String} {slots : Shelf S → Slots α} :
    (find name slots : Run S σ α).Oblivious := by
  intro w w' h
  rw [Run.Agree, find_apply, find_apply, World.shelf_of_plain h]
  cases (slots w'.shelf).get? name <;> exact ⟨rfl, h⟩

theorem oblivious_findAll (names : List String) :
    (findAll names : Run S σ (List (Action S))).Oblivious := by
  induction names with
  | nil => exact Run.oblivious_pure _
  | cons name rest ih =>
    exact oblivious_find.bind fun _ => ih.bind fun _ => Run.oblivious_pure _

theorem blind_answerTxn (t : TxnKey) : (answerTxn t : Run S σ Answer).Blind :=
  Run.blind_inspect fun _ _ h => congrArg Answer.txn (h.viewTxn t)

theorem blind_storeTxn (t : TxnKey) (into : String) : (storeTxn t into : Run S σ Answer).Blind := by
  refine (blind_answerTxn t).bind (Run.tidy_inspect _) fun _ => Run.Oblivious.blind ?_
  exact (Run.oblivious_change fun w => w.plain_storeHandle into t).bind fun _ =>
    Run.oblivious_pure _

theorem oblivious_discardFrom {name : String} {slots : Shelf S → Slots α}
    {drop : World S σ → World S σ} (h : ∀ w, (drop w).plain = (drop w.plain).plain) :
    (discardFrom name slots drop).Oblivious :=
  (Run.oblivious_inspect fun _ => rfl).bind fun _ =>
    (Run.oblivious_change h).bind fun _ => Run.oblivious_pure _

theorem oblivious_answerBuilder (b : Builder S) : (answerBuilder b : Run S σ Answer).Oblivious :=
  Run.oblivious_inspect fun _ => rfl

theorem oblivious_callBuilder (name : String) (call : Call S) :
    (callBuilder name call : Run S σ Answer).Oblivious := by
  refine oblivious_find.bind fun b => (Run.oblivious_change fun _ => rfl).bind fun _ => ?_
  refine (Run.oblivious_onEngine (b.oblivious_call call)).bind fun result => ?_
  cases result with
  | ok b =>
    exact (Run.oblivious_change fun w => w.plain_storeBuilder name b).bind fun _ =>
      oblivious_answerBuilder b
  | error why => exact Run.oblivious_halt _

theorem oblivious_createBuilder (c : ContextKey) (into : String)
    (config : Except Config.Problem Config) :
    (match config with
      | .error problem => Run.fail (.badConfig problem)
      | .ok config => do
        let b ← Run.onEngine (Builder.create config c)
        Run.change (·.storeBuilder into b)
        answerBuilder b : Run S σ Answer).Oblivious := by
  cases config with
  | error problem => exact Run.oblivious_halt _
  | ok config =>
    refine (Run.oblivious_onEngine (.of_plain fun _ => ⟨rfl, rfl⟩)).bind fun b => ?_
    exact (Run.oblivious_change fun w => w.plain_storeBuilder into b).bind fun _ =>
      oblivious_answerBuilder b

theorem agree_retrieve (h : World.Alike H H' w w') {name : String} {b : Builder S}
    (hb : w.shelf.builders.get? name = some b) (hb' : w'.shelf.builders.get? name = some b)
    (into : String) :
    Run.Agree
      (do
        Run.change (·.takeBuilder name)
        storeTxn (← Run.onEngine b.retrieve) into : Run S σ Answer)
      (do
        Run.change (·.takeBuilder name)
        storeTxn (← Run.onEngine b.retrieve) into) w w' := by
  have htaken : World.Alike (.handle b.txn :: H) (.handle b.txn :: H')
      { w.takeBuilder name with engine := (b.retrieve w.engine).2 }
      { w'.takeBuilder name with engine := (b.retrieve w'.engine).2 } := by
    refine h.moves ((World.moves_takeBuilder hb).trans (b.moves_retrieve w.engine))
      ((World.moves_takeBuilder hb').trans (b.moves_retrieve w'.engine)) ?_ (h.hands_cons _)
    have hretrieve : ∀ w : World S σ,
        World.plain { w.takeBuilder name with engine := (b.retrieve w.engine).2 } =
          World.plain { w.plain.takeBuilder name with engine := (b.retrieve w.plain.engine).2 } :=
      fun w => congrArg (fun e => (⟨e, (w.takeBuilder name).shelf, w.memory⟩ : World S σ))
        (b.oblivious_retrieve w.engine w.engine.plain rfl).2
    exact World.plain_congr hretrieve h.plain
  exact blind_storeTxn b.txn into _ _ _ _ htaken

theorem agree_openTxn (h : World.Alike H H' w w') {name : String} {c : ContextKey}
    (hc : w.shelf.contexts.get? name = some c) (hc' : w'.shelf.contexts.get? name = some c)
    (into : String) :
    Run.Agree (do storeTxn (← Run.onEngine (·.openTxn c)) into : Run S σ Answer)
      (do storeTxn (← Run.onEngine (·.openTxn c)) into) w w' := by
  have hopen : Engine.Oblivious (Engine.openTxn (S := S) · c) := .of_plain fun _ => ⟨rfl, rfl⟩
  obtain ⟨htxn, -⟩ := hopen _ _ h.engine.plain
  have hopened : World.Alike (.handle (w.engine.openTxn c).1 :: H)
      (.handle (w.engine.openTxn c).1 :: H')
      { w with engine := (w.engine.openTxn c).2 }
      { w' with engine := (w'.engine.openTxn c).2 } := by
    refine h.moves (.single (.openTxn (hasContext_of_get? hc H))) ?_
      (World.plain_congr (f := fun w => { w with engine := (w.engine.openTxn c).2 })
        (fun _ => rfl) h.plain) (h.hands_cons _)
    rw [htxn]
    exact .single (.openTxn (hasContext_of_get? hc' H'))
  have hstore := blind_storeTxn (w.engine.openTxn c).1 into _ _ _ _ hopened
  refine (Run.oblivious_onEngine hopen w w' h.plain).bind fun t ht => ?_
  rw [← Except.ok.inj ht]
  exact hstore

theorem agree_install (h : World.Alike H H' w w') {steps : Meaning S σ} (handle : String)
    (names : List String) :
    (perform steps (.install handle names)).Agree (perform steps (.install handle names)) w w' := by
  obtain ⟨hworld, hmem⟩ := findAll_apply names w
  obtain ⟨hworld', hmem'⟩ := findAll_apply names w'
  have hfound := oblivious_findAll names w w' h.plain
  refine hfound.bind fun actions hactions => ?_
  rw [hworld, hworld']
  refine agree_find h.plain fun t _ _ => ?_
  have hinstalled : World.Alike H H' (w.onEngine (·.install t actions))
      (w'.onEngine (·.install t actions)) :=
    h.moves (.single (.install t (hmem actions hactions)))
      (.single (.install t (hmem' actions (hfound.1 ▸ hactions))))
      (World.plain_congr (f := fun w => w.onEngine (·.install t actions)) (fun _ => rfl) h.plain)
      h.hands
  exact blind_answerTxn t _ _ _ _ hinstalled

/-- Commands go alike in alike worlds, if the steps do that run meanwhile. -/
theorem blind_perform {steps : Meaning S σ} (hsteps : steps.Lawful) (c : Command S) :
    (c.perform steps).Blind := by
  intro H H' w w' h
  -- Most commands look slots up and then do something that uses no ledger at all.
  have hplainly : ∀ {x : Run S σ Answer},
      (∀ w, (x w).1 = (x w.plain).1 ∧ (x w).2.plain = (x w.plain).2.plain) → x.Agree x w w' :=
    fun hx => Run.oblivious_of_plain hx w w' h.plain
  cases c with
  | openContext into name => exact hplainly fun _ => ⟨rfl, rfl⟩
  | describeContext | takeTxnId | contextOf | bindStep | bindChoice | cloneAction =>
    exact agree_find h.plain fun _ _ _ => hplainly fun _ => ⟨rfl, rfl⟩
  | freeAction kind step into => exact hplainly fun _ => ⟨rfl, rfl⟩
  | sameContext | sameTxn | sameBody | comparePlans =>
    exact agree_find h.plain fun _ _ _ => agree_find h.plain fun _ _ _ =>
      hplainly fun _ => ⟨rfl, rfl⟩
  | createBuilder context into config =>
    exact agree_find h.plain fun c _ _ => oblivious_createBuilder c into _ w w' h.plain
  | build builder call => exact oblivious_callBuilder builder call w w' h.plain
  | retrieve builder into =>
    exact agree_find h.plain fun b hb hb' => agree_retrieve h hb hb' into
  | describeBuilder builder layout =>
    refine agree_find h.plain fun b _ _ => Run.agree_inspect h.plain ?_
    simp only [h.engine.viewBuilder, h.engine.viewTxn]
  | borrow builder into =>
    refine agree_find h.plain fun b hb hb' => ?_
    have hheld : World.Alike (.handle b.txn :: H) (.handle b.txn :: H')
        (w.hold b.txn) (w'.hold b.txn) :=
      h.moves (.single (.share (mem_owners_of_builder hb H)))
        (.single (.share (mem_owners_of_builder hb' H'))) h.plain (h.hands_cons _)
    exact blind_storeTxn b.txn into _ _ _ _ hheld
  | openTxn context into =>
    exact agree_find h.plain fun c hc hc' => agree_openTxn h hc hc' into
  | viewTxn handle => exact agree_find h.plain fun t _ _ => blind_answerTxn t H H' w w' h
  | describeTxn handle layout =>
    refine agree_find h.plain fun t _ _ => Run.agree_inspect h.plain ?_
    simp only [h.engine.txnTree]
  | cloneHandle handle into =>
    refine agree_find h.plain fun t _ _ => Run.Oblivious.bind ?_ ?_ w w' h.plain
    · exact Run.oblivious_change fun _ => rfl
    · exact fun _ => (Run.oblivious_change fun w => w.plain_storeHandle into t).bind fun _ =>
        Run.oblivious_pure _
  | install handle actions => exact agree_install h handle actions
  | play handle =>
    refine agree_find h.plain fun t ht _ => ?_
    have hplay := hsteps.agree_play h (mem_owners_of_handle ht H)
    exact hplay.bind fun _ _ => Run.oblivious_pure _ _ _ hplay.2
  | keepPlan handle into =>
    refine agree_find h.plain fun t _ _ => ?_
    have hplan := h.engine.plan? t
    refine Run.Agree.bind ⟨congrArg Except.ok hplan, h.plain⟩ fun plan? heq => ?_
    have heq : w.engine.plan? t = plan? := Except.ok.inj heq
    cases plan? with
    | none => exact Run.oblivious_pure _ w w' h.plain
    | some plan =>
      have hkept := Run.oblivious_change (p := (·.storePlan into plan)) (fun _ => rfl) w w' h.plain
      refine hkept.bind fun _ _ => ⟨?_, hkept.2⟩
      exact congrArg (fun view => Except.ok (Answer.plan (some view))) (h.engine.viewPlan plan)
  | describePlan plan layout =>
    refine agree_find h.plain fun plan _ _ => Run.agree_inspect h.plain ?_
    simp only [h.engine.viewPlan, h.engine.planTree]
  | playPlan plan =>
    refine agree_find h.plain fun plan _ _ => ?_
    have hplay := hsteps.blind_invokeAll plan H H' w w' h
    exact hplay.bind fun _ _ => Run.oblivious_pure _ _ _ hplay.2
  | runPlanUntilFailure plan =>
    refine agree_find h.plain fun plan _ _ => ?_
    have hrun := hsteps.blind_invokeUntilFailure plan H H' w w' h
    exact hrun.bind fun _ _ => Run.oblivious_pure _ _ _ hrun.2
  | invokeAt plan index =>
    refine agree_find h.plain fun plan _ _ => ?_
    rw [pick]
    cases plan[index]? with
    | none => exact Run.oblivious_halt _ w w' h.plain
    | some a =>
      have hinvoke := hsteps.blind_invoke a H H' w w' h
      exact hinvoke.bind fun _ _ => Run.oblivious_pure _ _ _ hinvoke.2
  | pickAction plan index into =>
    refine agree_find h.plain fun plan _ _ => ?_
    rw [pick]
    cases plan[index]? with
    | none => exact Run.oblivious_halt _ w w' h.plain
    | some a => exact hplainly fun _ => ⟨rfl, rfl⟩
  | describeAction action layout =>
    refine agree_find h.plain fun a _ _ => Run.agree_inspect h.plain ?_
    simp only [h.engine.isBound, h.engine.actionTree]
  | invoke action =>
    refine agree_find h.plain fun a _ _ => ?_
    have hinvoke := hsteps.blind_invoke a H H' w w' h
    exact hinvoke.bind fun _ _ => Run.oblivious_pure _ _ _ hinvoke.2
  | discard kind name =>
    cases kind with
    | context => exact oblivious_discardFrom (fun _ => rfl) w w' h.plain
    | builder => exact oblivious_discardFrom (fun w => w.plain_dropBuilder name) w w' h.plain
    | handle => exact oblivious_discardFrom (fun w => w.plain_dropHandle name) w w' h.plain
    | plan => exact oblivious_discardFrom (fun _ => rfl) w w' h.plain
    | action => exact oblivious_discardFrom (fun _ => rfl) w w' h.plain

end Command

namespace Program

variable {steps : Meaning S σ}

theorem plain_storePlanOf (t : TxnKey) (into : String) (w : World S σ) :
    (storePlanOf t into w).plain = (storePlanOf t into w.plain).plain := by
  have hplan : w.plain.engine.plan? t = w.engine.plan? t := rfl
  rw [storePlanOf, storePlanOf, hplan]
  cases w.engine.plan? t <;> rfl

theorem blind_run (hsteps : steps.Lawful) (t : Option TxnKey) (p : Program S σ) :
    (p.run steps t).Blind := by
  induction p with
  | finish ok => exact (Run.oblivious_pure ok).blind
  | panic text => exact (Run.oblivious_halt _).blind
  | look next ih =>
    refine Run.Blind.bind (fun H H' w w' h => ?_) (Run.tidy_inspect _) ih
    refine Run.agree_inspect h.plain ?_
    cases t with
    | none => rfl
    | some t => exact congrArg some (h.engine.viewTxn t)
  | keepPlan into next ih =>
    refine Run.Blind.bind (Run.oblivious_change fun w => ?_).blind (moves_storePlanOf t into)
      fun _ => ih
    cases t with
    | none => rfl
    | some t => exact plain_storePlanOf t into w
  | install actions next ih =>
    refine Run.Blind.bind (Run.oblivious_change fun w => ?_).blind (moves_installFrom t actions)
      fun _ => ih
    cases t <;> rfl
  | perform command next ih =>
    have hperform := Command.blind_perform hsteps command
    exact Run.Blind.bind (fun H H' w w' h => (hperform H H' w w' h).settle)
      (Command.tidy_perform hsteps.tidy command).settle ih
  | remember update next ih =>
    refine Run.Blind.bind (Run.oblivious_change fun _ => rfl).blind (fun _ _ => .refl) fun _ => ?_
    exact (Run.oblivious_inspect fun _ => rfl).blind.bind (Run.tidy_inspect _) ih

end Program

/-- The steps that programs stand for go alike in alike worlds. -/
theorem Meaning.lawful_ofPrograms (programs : S → Program S σ) (depth : Nat) :
    (Meaning.ofPrograms programs depth).Lawful := by
  refine ⟨tidy_ofPrograms programs depth, ?_⟩
  induction depth with
  | zero => exact fun _ _ => (Run.oblivious_halt _).blind
  | succ depth ih =>
    exact fun s t => Program.blind_run ⟨tidy_ofPrograms programs depth, ih⟩ t (programs s)

end TxnAssembly
