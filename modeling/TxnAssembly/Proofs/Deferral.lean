import TxnAssembly.Proofs.Evaluation
import TxnAssembly.Proofs.Orders
import TxnAssembly.Proofs.Outline

/-!
# Building does not look at the steps

Two programs build alike but with different steps: what is created, called, retrieved
and dropped is the same, in the same order. Then everything goes the same way, refusals
included, since a command that builds does to the outline of a world what it does to the
world. No step is evaluated meanwhile, and nothing is touched but what the building is
about. What the steps are only matters when the plan is invoked.
-/
namespace TxnAssembly

variable {S σ α β : Type}

/-- What a program does with a builder in a slot. One that is in the slot when the next
is created is dropped. -/
inductive BuilderAct (S : Type) where
  | create (config : Option Config.Source)
  | call (c : Call S)
  | retrieve
  | drop

/-- The slots that a building works with: where the context is found, where the builder
stands and where its handle is put. -/
structure Bench where
  context : String
  builder : String
  handle : String

namespace BuilderAct

/-- The act without its steps. -/
def outline (x : BuilderAct S) : BuilderAct Unit :=
  match x with
  | create config => .create config
  | call c => .call c.outline
  | retrieve => .retrieve
  | drop => .drop

def command (p : Bench) (x : BuilderAct S) : Command S :=
  match x with
  | create config => .createBuilder p.context p.builder config
  | call c => .build p.builder c
  | retrieve => .retrieve p.builder p.handle
  | drop => .discard .builder p.builder

end BuilderAct

namespace Command

/-- What commands answer that are carried out one after the other. -/
def replies (steps : Meaning S σ) (cs : List (Command S)) (w : World S σ) :
    List (Except Halt Answer) :=
  match cs with
  | [] => []
  | c :: cs => (c.perform steps w).1 :: replies steps cs (c.perform steps w).2

end Command

namespace Run

/-- `y` does to outlines what `x` does to worlds, and its result is that of `x` as `f`
shows it. -/
def Outlines (f : α → β) (y : Run Unit Unit β) (x : Run S σ α) : Prop :=
  ∀ w, y w.outline = ((x w).1.map f, (x w).2.outline)

section Outlines

variable {γ δ : Type} {f : α → β} {g : γ → δ} {x : Run S σ α} {y : Run Unit Unit β}
  {k : α → Run S σ γ} {l : β → Run Unit Unit δ}

theorem Outlines.bind (hx : Outlines f y x) (hk : ∀ a, Outlines g (l (f a)) (k a)) :
    Outlines g (y >>= l) (x >>= k) := by
  intro w
  rw [bind_apply, bind_apply, hx w]
  cases x w with
  | mk result w' =>
    cases result with
    | ok a => exact hk a w'
    | error halt => rfl

theorem outlines_pure (a : α) : Outlines f (pure (f a)) (pure a : Run S σ α) := fun _ => rfl

theorem outlines_halt (h : Halt) : Outlines f (halt h) (halt h : Run S σ α) := fun _ => rfl

theorem outlines_inspect {p : World S σ → α} {q : World Unit Unit → β}
    (h : ∀ w, q w.outline = f (p w)) : Outlines f (inspect q) (inspect p) :=
  fun w => Prod.ext (congrArg Except.ok (h w)) rfl

theorem outlines_change {p : World S σ → World S σ} {q : World Unit Unit → World Unit Unit}
    (h : ∀ w, q w.outline = (p w).outline) : Outlines id (change q) (change p) :=
  fun w => Prod.ext rfl (h w)

theorem outlines_onEngine {p : Engine S → α × Engine S} {q : Engine Unit → β × Engine Unit}
    (h : ∀ e, q e.outline = (f (p e).1, (p e).2.outline)) :
    Outlines f (onEngine q) (onEngine p : Run S σ α) := by
  intro w
  have he : q w.outline.engine = (f (p w.engine).1, (p w.engine).2.outline) := h w.engine
  rw [onEngine_apply, onEngine_apply, he]
  rfl

end Outlines

end Run

namespace Command

theorem outlines_find {f : α → β} {slots : Shelf S → Slots α} {slots' : Shelf Unit → Slots β}
    (name : String) (h : ∀ s : Shelf S, (slots' s.outline).get? name =
      ((slots s).get? name).map f) :
    Run.Outlines f (find name slots') (find name slots : Run S σ α) := by
  intro w
  have hslot : (slots' w.outline.shelf).get? name = ((slots w.shelf).get? name).map f := h w.shelf
  rw [find_apply, find_apply, hslot]
  cases (slots w.shelf).get? name <;> rfl

theorem outlines_findBuilder (name : String) :
    Run.Outlines Builder.outline (find name Shelf.builders)
      (find name Shelf.builders : Run S σ (Builder S)) :=
  outlines_find name fun s => Slots.get?_map s.builders _ name

theorem outlines_storeBuilder (name : String) (b : Builder S) :
    Run.Outlines id
      (do
        Run.change (·.storeBuilder name b.outline)
        answerBuilder b.outline)
      (do
        Run.change (·.storeBuilder name b)
        answerBuilder b : Run S σ Answer) := by
  refine (Run.outlines_change fun w => w.storeBuilder_outline name b).bind fun _ => ?_
  exact Run.outlines_inspect fun w => congrArg Answer.builder (w.engine.viewBuilder_outline b)

theorem outlines_callBuilder (name : String) (c : Call S) :
    Run.Outlines id (callBuilder name c.outline) (callBuilder name c : Run S σ Answer) := by
  refine (outlines_findBuilder name).bind fun b => ?_
  refine (Run.outlines_change fun w => w.takeBuilder_outline name).bind fun _ => ?_
  refine (Run.outlines_onEngine fun e => b.call_outline e c).bind fun result => ?_
  cases result with
  | ok b => exact outlines_storeBuilder name b
  | error why => exact Run.outlines_halt _

theorem outlines_storeTxn (t : TxnKey) (into : String) :
    Run.Outlines id (storeTxn t into) (storeTxn t into : Run S σ Answer) := by
  have hanswer : Run.Outlines id (answerTxn t) (answerTxn t : Run S σ Answer) :=
    Run.outlines_inspect fun w => congrArg Answer.txn (w.engine.viewTxn_outline t)
  refine hanswer.bind fun answer => ?_
  refine (Run.outlines_change fun w => w.storeHandle_outline into t).bind fun _ => ?_
  exact Run.outlines_pure answer

end Command

namespace BuilderAct

variable (p : Bench)

/-- To an act of building it makes no difference what the steps are or mean. -/
theorem outlines_perform (x : BuilderAct S) (steps : Meaning S σ) (steps' : Meaning Unit Unit) :
    Run.Outlines id ((x.outline.command p).perform steps') ((x.command p).perform steps) := by
  cases x with
  | create config =>
    have hcontext : Run.Outlines id (Command.find p.context Shelf.contexts)
        (Command.find p.context Shelf.contexts : Run S σ ContextKey) :=
      Command.outlines_find p.context fun s =>
        (congrFun Option.map_id (s.contexts.get? p.context)).symm
    refine hcontext.bind fun c => ?_
    cases (config.map Config.Source.read).getD (.ok {}) with
    | error problem => exact Run.outlines_halt _
    | ok config =>
      refine (Run.outlines_onEngine fun e => Builder.create_outline e config c).bind fun b => ?_
      exact Command.outlines_storeBuilder p.builder b
  | call c => exact Command.outlines_callBuilder p.builder c
  | retrieve =>
    refine (Command.outlines_findBuilder p.builder).bind fun b => ?_
    refine (Run.outlines_change fun w => w.takeBuilder_outline p.builder).bind fun _ => ?_
    refine (Run.outlines_onEngine (f := id) fun e => b.retrieve_outline e).bind fun t => ?_
    exact Command.outlines_storeTxn t p.handle
  | drop =>
    have hused : ∀ w : World S σ, (w.outline.shelf.builders.get? p.builder).isSome =
        (w.shelf.builders.get? p.builder).isSome := by
      intro w
      rw [← Option.isSome_map, w.txn_get?_builders_outline, Option.isSome_map]
    refine (Run.outlines_inspect (f := id) hused).bind fun used => ?_
    refine (Run.outlines_change fun w => w.dropBuilder_outline p.builder).bind fun _ => ?_
    exact Run.outlines_pure (Answer.flag used)

/-- The same holds of a whole building. -/
theorem replies_outline (xs : List (BuilderAct S)) (steps : Meaning S σ)
    (steps' : Meaning Unit Unit) (w : World S σ) :
    Command.replies steps' ((xs.map outline).map (command p)) w.outline =
        Command.replies steps (xs.map (command p)) w ∧
      Command.performAll steps' ((xs.map outline).map (command p)) w.outline =
        (Command.performAll steps (xs.map (command p)) w).outline := by
  induction xs generalizing w with
  | nil => exact ⟨rfl, rfl⟩
  | cons x xs ih =>
    obtain ⟨hreplies, hworld⟩ := ih ((x.command p).perform steps w).2
    have hx := x.outlines_perform p steps steps' w
    simp only [List.map_cons, Command.replies, Command.performAll, List.foldl_cons, hx]
    refine ⟨?_, hworld⟩
    rw [hreplies]
    cases ((x.command p).perform steps w).1 <;> rfl

/-- Two programs that do the same but with different steps both have the outline of one
program without steps. -/
theorem replies_eq_of_outline {xs ys : List (BuilderAct S)}
    (h : xs.map outline = ys.map outline) (steps steps' : Meaning S σ) (w : World S σ) :
    Command.replies steps (xs.map (command p)) w =
        Command.replies steps' (ys.map (command p)) w ∧
      (Command.performAll steps (xs.map (command p)) w).outline =
        (Command.performAll steps' (ys.map (command p)) w).outline := by
  let idle : Meaning Unit Unit := fun _ _ => pure true
  obtain ⟨hreplies, hworld⟩ := replies_outline p xs steps idle w
  obtain ⟨hreplies', hworld'⟩ := replies_outline p ys steps' idle w
  rw [← hreplies, ← hreplies', ← hworld, ← hworld', h]
  exact ⟨rfl, rfl⟩

end BuilderAct

/-- The transactions that a building is about: those that it has a builder for, and those
whose owners it can change. -/
structure Scope where
  built : TxnKey → Prop
  held : TxnKey → Prop
  held_of_built : ∀ u, built u → held u

namespace Bench

variable {p : Bench} {m : Scope} {w w' w'' : World S σ}

/-- From one world to the other nothing has changed but the builder and its handle, the
number that its context hands out next, the transactions in the scope, and the log, which
has grown. -/
structure Spares (p : Bench) (m : Scope) (w w' : World S σ) : Prop where
  memory : w'.memory = w.memory
  contextSlots : w'.shelf.contexts = w.shelf.contexts
  plans : w'.shelf.plans = w.shelf.plans
  actions : w'.shelf.actions = w.shelf.actions
  builders : ∀ name, name ≠ p.builder →
    w'.shelf.builders.get? name = w.shelf.builders.get? name
  handles : ∀ name, name ≠ p.handle → w'.shelf.handles.get? name = w.shelf.handles.get? name
  nextContext : w'.engine.nextContext = w.engine.nextContext
  contexts : ∀ c : ContextKey, w.shelf.contexts.get? p.context ≠ some c →
    w'.engine.contexts[c.index]? = w.engine.contexts[c.index]?
  named : w'.engine.contexts.map (fun x => (x.id, x.name)) =
    w.engine.contexts.map (fun x => (x.id, x.name))
  txns : ∀ u, ¬ m.built u → w'.engine.txn? u = w.engine.txn? u
  holds : ∀ u, ¬ m.held u → w'.engine.holds.count u = w.engine.holds.count u
  log : w.engine.log <+: w'.engine.log

/-- The transactions that a building can have a builder for: that of the builder in the slot
and those that do not exist yet. -/
inductive Builds (p : Bench) (w : World S σ) (u : TxnKey) : Prop where
  | builder (b : Builder S) (hb : w.shelf.builders.get? p.builder = some b) (hu : b.txn = u)
  | new (h : w.engine.txn? u = none)

/-- Of the transaction that is in the place of the handle a reference can be released. -/
def scope (p : Bench) (w : World S σ) : Scope where
  built := p.Builds w
  held u := p.Builds w u ∨ w.shelf.handles.get? p.handle = some u
  held_of_built _ := .inl

theorem Spares.refl (p : Bench) (m : Scope) (w : World S σ) : p.Spares m w w :=
  ⟨rfl, rfl, rfl, rfl, fun _ _ => rfl, fun _ _ => rfl, rfl, fun _ _ => rfl, rfl,
    fun _ _ => rfl, fun _ _ => rfl, List.prefix_rfl⟩

theorem Spares.trans (h : p.Spares m w w') (h' : p.Spares m w' w'') :
    p.Spares m w w'' where
  memory := h'.memory.trans h.memory
  contextSlots := h'.contextSlots.trans h.contextSlots
  plans := h'.plans.trans h.plans
  actions := h'.actions.trans h.actions
  builders name hname := (h'.builders name hname).trans (h.builders name hname)
  handles name hname := (h'.handles name hname).trans (h.handles name hname)
  nextContext := h'.nextContext.trans h.nextContext
  contexts c hc := (h'.contexts c (h.contextSlots ▸ hc)).trans (h.contexts c hc)
  named := h'.named.trans h.named
  txns u hu := (h'.txns u hu).trans (h.txns u hu)
  holds u hu := (h'.holds u hu).trans (h.holds u hu)
  log := h.log.trans h'.log

theorem spares_engine {t : TxnKey} (ht : m.built t) {e : Engine S} (h : w.engine.Confined t e) :
    p.Spares m w { w with engine := e } where
  memory := rfl
  contextSlots := rfl
  plans := rfl
  actions := rfl
  builders _ _ := rfl
  handles _ _ := rfl
  nextContext := h.nextContext
  contexts c _ := by rw [h.contexts]
  named := by rw [h.contexts]
  txns u hu := h.txns u fun heq => hu (heq ▸ ht)
  holds u hu := h.holds u fun heq => hu (m.held_of_built u (heq ▸ ht))
  log := h.log

theorem spares_release? {t : Option TxnKey} (ht : ∀ u, t = some u → m.held u) :
    p.Spares m w (w.release? t) := by
  cases t with
  | none => exact .refl p m w
  | some t =>
    have hrelease := Engine.Confined.release t w.engine
    exact { Spares.refl p m w with
      holds := fun u hu => hrelease.holds u fun heq => hu (heq ▸ ht t rfl) }

theorem spares_builders {builders : Slots (Builder S)}
    (h : ∀ name, name ≠ p.builder → builders.get? name = w.shelf.builders.get? name) :
    p.Spares m w { w with shelf := { w.shelf with builders } } :=
  { Spares.refl p m w with builders := h }

theorem spares_handles {handles : Slots TxnKey}
    (h : ∀ name, name ≠ p.handle → handles.get? name = w.shelf.handles.get? name) :
    p.Spares m w { w with shelf := { w.shelf with handles } } :=
  { Spares.refl p m w with handles := h }

/-- What is in the two slots is in the scope, and so is what does not exist yet. -/
structure Owns (p : Bench) (m : Scope) (w : World S σ) : Prop where
  builder : ∀ b, w.shelf.builders.get? p.builder = some b → m.built b.txn
  handle : ∀ t, w.shelf.handles.get? p.handle = some t → m.held t
  new : ∀ t, w.engine.txn? t = none → m.built t

theorem Spares.owns (h : p.Spares m w w') (hw : p.Owns m w)
    (hbuilder : ∀ b, w'.shelf.builders.get? p.builder = some b → m.built b.txn)
    (hhandle : ∀ t, w'.shelf.handles.get? p.handle = some t → m.held t) : p.Owns m w' where
  builder := hbuilder
  handle := hhandle
  new t ht := by
    by_cases hbuilt : m.built t
    · exact hbuilt
    · exact hw.new t ((h.txns t hbuilt).symm.trans ht)

theorem spares_takeBuilder : p.Spares m w (w.takeBuilder p.builder) :=
  spares_builders fun _ hname => w.shelf.builders.get?_erase_of_ne hname

/-- While the builder is taken out, something is done to its transaction. -/
theorem spares_taken {t : TxnKey} (ht : m.built t) {e : Engine S} (h : w.engine.Confined t e) :
    p.Spares m w { w.takeBuilder p.builder with engine := e } :=
  spares_takeBuilder.trans (spares_engine (w := w.takeBuilder p.builder) ht h)

theorem Owns.taken (hw : p.Owns m w) {t : TxnKey} (ht : m.built t) {e : Engine S}
    (h : w.engine.Confined t e) : p.Owns m { w.takeBuilder p.builder with engine := e } := by
  refine (spares_taken ht h).owns hw (fun b hb => ?_) hw.handle
  exact absurd hb (by simp [World.takeBuilder])

theorem spares_dropBuilder (hw : p.Owns m w) : p.Spares m w (w.dropBuilder p.builder) := by
  refine spares_takeBuilder.trans (spares_release? fun u hu => ?_)
  obtain ⟨b, hb, rfl⟩ := Option.map_eq_some_iff.1 hu
  exact m.held_of_built _ (hw.builder b hb)

theorem Owns.dropBuilder (hw : p.Owns m w) : p.Owns m (w.dropBuilder p.builder) := by
  refine (spares_dropBuilder hw).owns hw (fun b hb => ?_) fun t ht => hw.handle t ?_
  · exact absurd hb (by simp)
  · rw [← ht, World.shelf_dropBuilder]

theorem spares_storeBuilder (hw : p.Owns m w) (b : Builder S) :
    p.Spares m w (w.storeBuilder p.builder b) := by
  refine (spares_builders fun _ hname => ?_).trans (spares_release? fun u hu => ?_)
  · exact w.shelf.builders.get?_put_of_ne b hname
  · obtain ⟨old, hold, rfl⟩ := Option.map_eq_some_iff.1 hu
    exact m.held_of_built _ (hw.builder old hold)

theorem Owns.storeBuilder (hw : p.Owns m w) {b : Builder S} (hb : m.built b.txn) :
    p.Owns m (w.storeBuilder p.builder b) := by
  refine (spares_storeBuilder hw b).owns hw (fun b' hb' => ?_) fun t ht => hw.handle t ?_
  · rw [World.storeBuilder_eq, Slots.get?_put_self] at hb'
    rw [← Option.some.inj hb']
    exact hb
  · rw [← ht, World.storeBuilder_eq]

theorem spares_storeHandle (hw : p.Owns m w) (t : TxnKey) :
    p.Spares m w (w.storeHandle p.handle t) := by
  refine (spares_handles fun _ hname => ?_).trans (spares_release? fun u hu => hw.handle u hu)
  exact w.shelf.handles.get?_put_of_ne t hname

theorem Owns.storeHandle (hw : p.Owns m w) {t : TxnKey} (ht : m.held t) :
    p.Owns m (w.storeHandle p.handle t) := by
  refine (spares_storeHandle hw t).owns hw (fun b hb => hw.builder b ?_) fun u hu => ?_
  · rw [← hb, World.storeHandle_eq]
  · rw [World.storeHandle_eq, Slots.get?_put_self] at hu
    rw [← Option.some.inj hu]
    exact ht

theorem contexts_create (config : Config) (c : ContextKey) (e : Engine S) :
    (Builder.create config c e).2.contexts =
      e.contexts.modify c.index fun x => { x with nextTxn := x.nextTxn + 1 } := rfl

/-- A new builder takes a number from its context. -/
theorem spares_create {c : ContextKey} (hc : w.shelf.contexts.get? p.context = some c)
    (hnew : m.built (w.engine.openTxn c).1) (config : Config) :
    p.Spares m w { w with engine := (Builder.create config c w.engine).2 } where
  memory := rfl
  contextSlots := rfl
  plans := rfl
  actions := rfl
  builders _ _ := rfl
  handles _ _ := rfl
  nextContext := rfl
  contexts d hd := by
    have hindex : c.index ≠ d.index := by
      intro heq
      obtain rfl : c = d := congrArg ContextKey.mk heq
      exact hd hc
    rw [contexts_create, Array.getElem?_modify, if_neg hindex]
  named := by
    apply Array.ext_getElem?
    intro i
    rw [contexts_create, Array.getElem?_map, Array.getElem?_map, Array.getElem?_modify]
    split <;> cases w.engine.contexts[i]? <;> rfl
  txns u hu := w.engine.txn?_openTxn_of_ne c fun heq => hu (heq ▸ hnew)
  holds u hu := by
    have hne : (w.engine.openTxn c).1 ≠ u := fun heq => hu (m.held_of_built u (heq ▸ hnew))
    exact List.count_cons_of_ne hne
  log := List.prefix_append _ _

theorem spares_createBuilder (hw : p.Owns m w) (steps : Meaning S σ)
    (config : Option Config.Source) :
    let w' := (((BuilderAct.create config).command p).perform steps w).2
    p.Spares m w w' ∧ p.Owns m w' := by
  simp only [BuilderAct.command, Command.perform, Run.bind_apply, Command.find_apply]
  cases hc : w.shelf.contexts.get? p.context with
  | none => exact ⟨.refl p m w, hw⟩
  | some c =>
    cases (config.map Config.Source.read).getD (.ok {}) with
    | error problem => exact ⟨.refl p m w, hw⟩
    | ok config =>
      have hnew : m.built (w.engine.openTxn c).1 :=
        hw.new _ (Array.getElem?_eq_none (Nat.le_refl w.engine.txns.size))
      have hcreate := spares_create hc hnew config
      have hcreated := hcreate.owns hw hw.builder hw.handle
      exact ⟨hcreate.trans (spares_storeBuilder hcreated _), hcreated.storeBuilder hnew⟩

theorem spares_callBuilder (hw : p.Owns m w) (steps : Meaning S σ) (c : Call S) :
    let w' := (((BuilderAct.call c).command p).perform steps w).2
    p.Spares m w w' ∧ p.Owns m w' := by
  simp only [BuilderAct.command, Command.perform, Command.callBuilder, Run.bind_apply,
    Command.find_apply]
  cases hb : w.shelf.builders.get? p.builder with
  | none => exact ⟨.refl p m w, hw⟩
  | some b =>
    have hbuilt := hw.builder b hb
    have hconfined := b.confined_call w.engine c
    have hcall : b.call c (w.takeBuilder p.builder).engine = b.call c w.engine := rfl
    simp only [Run.change_apply, Run.onEngine_apply, hcall]
    cases hresult : b.call c w.engine with
    | mk result e =>
      rw [hresult] at hconfined
      have hspares := spares_taken (p := p) hbuilt hconfined
      have howns := hw.taken hbuilt hconfined
      cases result with
      | error why => exact ⟨hspares, howns⟩
      | ok b' =>
        obtain ⟨-, rfl⟩ := Builder.call_eq_ok hresult
        exact ⟨hspares.trans (spares_storeBuilder howns _), howns.storeBuilder hbuilt⟩

theorem spares_retrieve (hw : p.Owns m w) (steps : Meaning S σ) :
    let w' := ((BuilderAct.retrieve.command p).perform steps w).2
    p.Spares m w w' ∧ p.Owns m w' := by
  simp only [BuilderAct.command, Command.perform, Run.bind_apply, Command.find_apply]
  cases hb : w.shelf.builders.get? p.builder with
  | none => exact ⟨.refl p m w, hw⟩
  | some b =>
    have hbuilt := hw.builder b hb
    have hconfined := b.confined_retrieve w.engine
    have howns := hw.taken hbuilt hconfined
    exact ⟨(spares_taken hbuilt hconfined).trans (spares_storeHandle howns _),
      howns.storeHandle (m.held_of_built _ hbuilt)⟩

/-- What one act changes. -/
theorem spares_perform (hw : p.Owns m w) (steps : Meaning S σ) (x : BuilderAct S) :
    p.Spares m w ((x.command p).perform steps w).2 ∧
      p.Owns m ((x.command p).perform steps w).2 := by
  cases x with
  | create config => exact spares_createBuilder hw steps config
  | call c => exact spares_callBuilder hw steps c
  | retrieve => exact spares_retrieve hw steps
  | drop => exact ⟨spares_dropBuilder hw, hw.dropBuilder⟩

/-- What any number of acts changes. -/
theorem spares_performAll (hw : p.Owns m w) (steps : Meaning S σ) (xs : List (BuilderAct S)) :
    p.Spares m w (Command.performAll steps (xs.map (BuilderAct.command p)) w) := by
  induction xs generalizing w with
  | nil => exact .refl p m w
  | cons x xs ih =>
    obtain ⟨hspares, howns⟩ := spares_perform hw steps x
    exact hspares.trans (ih howns)

theorem owns_scope (p : Bench) (w : World S σ) : p.Owns (p.scope w) w where
  builder b hb := .builder b hb rfl
  handle _ ht := .inr ht
  new _ ht := .new ht

/-- Traced steps show that a building evaluates none. -/
theorem trace_performAll (p : Bench) (steps : Meaning S σ) (xs : List (BuilderAct S))
    (w : World S σ) : (Command.performAll steps.traced (xs.map (BuilderAct.command p))
      (w.traced [])).memory.trace = [] := by
  have hspares := spares_performAll (p.owns_scope (w.traced [])) steps.traced xs
  exact congrArg Traced.trace hspares.memory

end Bench

/-- What the builder in a slot shows of itself and of the actions that it has collected. -/
def World.showBuilder (w : World S σ) (name : String) : Option (BuilderView × PlanView) :=
  (w.shelf.builders.get? name).map fun b => (w.engine.viewBuilder b, w.engine.viewPlan b.actions)

theorem World.showBuilder_outline (w : World S σ) (name : String) :
    w.outline.showBuilder name = w.showBuilder name := by
  have hslot : w.outline.shelf.builders.get? name =
      (w.shelf.builders.get? name).map Builder.outline := Slots.get?_map ..
  rw [showBuilder, showBuilder, hslot, Option.map_map]
  refine Option.map_congr fun b _ => ?_
  rw [Function.comp_apply, Builder.actions_outline]
  exact Prod.ext (w.engine.viewBuilder_outline b) (w.engine.viewPlan_outline b.actions)

/-- Two programs do the same to a builder in the same world, but with different steps, which
may mean anything. They get the same answers, refusals included. After any number of the
acts they have logged the same events, and every transaction and every builder shows the
same. Neither program has changed anything but what the building is about, and traced steps
show that neither has evaluated a step. -/
theorem building_ignores_steps (p : Bench) (w : World S σ) {xs ys : List (BuilderAct S)}
    (h : xs.map BuilderAct.outline = ys.map BuilderAct.outline) (steps steps' : Meaning S σ) :
    let cs := xs.map (BuilderAct.command p)
    let ds := ys.map (BuilderAct.command p)
    Command.replies steps cs w = Command.replies steps' ds w ∧
      ∀ n,
        let u := Command.performAll steps (cs.take n) w
        let v := Command.performAll steps' (ds.take n) w
        (u.engine.log = v.engine.log ∧
          (∀ t, u.engine.viewTxn t = v.engine.viewTxn t) ∧
          ∀ name, u.showBuilder name = v.showBuilder name) ∧
        (p.Spares (p.scope w) w u ∧ p.Spares (p.scope w) w v) ∧
        (Command.performAll steps.traced (cs.take n) (w.traced [])).memory.trace = [] ∧
        (Command.performAll steps'.traced (ds.take n) (w.traced [])).memory.trace = [] := by
  intro cs ds
  refine ⟨(BuilderAct.replies_eq_of_outline p h steps steps' w).1, fun n => ?_⟩
  have hcs : cs.take n = (xs.take n).map (BuilderAct.command p) := List.map_take.symm
  have hds : ds.take n = (ys.take n).map (BuilderAct.command p) := List.map_take.symm
  have htake : (xs.take n).map BuilderAct.outline = (ys.take n).map BuilderAct.outline := by
    rw [List.map_take, List.map_take, h]
  rw [hcs, hds]
  intro u v
  have houtline : u.outline = v.outline :=
    (BuilderAct.replies_eq_of_outline p htake steps steps' w).2
  refine ⟨⟨?_, fun t => ?_, fun name => ?_⟩, ⟨?_, ?_⟩, ?_, ?_⟩
  · exact congrArg (fun w => w.engine.log) houtline
  · rw [← Engine.viewTxn_outline, ← Engine.viewTxn_outline v.engine]
    exact congrArg (fun w => w.engine.viewTxn t) houtline
  · rw [← World.showBuilder_outline, houtline, World.showBuilder_outline]
  · exact Bench.spares_performAll (p.owns_scope w) steps _
  · exact Bench.spares_performAll (p.owns_scope w) steps' _
  · exact p.trace_performAll steps _ w
  · exact p.trace_performAll steps' _ w

/-- A step that panics or one that passes. -/
def panicOrPass : Meaning Bool Unit :=
  .ofPrograms (fun panics => if panics then .panic "out of order" else .finish true) 1

/-- A builder that is called too early, and one that starts over and is finalized. -/
def twoAttempts (s : Bool) : List (BuilderAct Bool) :=
  [.create none, .call (.append s), .create (some (.settings [.restartPolicy .restart])),
    .call (.startBuildWith s), .call .startBuild, .call (.appendChoice s s), .call .finalize,
    .retrieve]

/-- The attempts as commands, in the slots of one bench. -/
def twoAttemptsCommands (s : Bool) : List (Command Bool) :=
  (twoAttempts s).map (BuilderAct.command ⟨"c", "b", "h"⟩)

/-- A world with a context and nothing else. -/
def emptyBench : World Bool Unit :=
  Command.performAll panicOrPass [.openContext "c" none] { memory := () }

def afterAttempts (s : Bool) : World Bool Unit :=
  Command.performAll panicOrPass ((twoAttemptsCommands s).take 8) emptyBench

/-- With steps that panic and with steps that pass the building goes the same way, the
refusal included. The difference is there when the transaction is played. -/
theorem twoAttempts_ignores_steps :
    (twoAttempts true).map BuilderAct.outline = (twoAttempts false).map BuilderAct.outline ∧
      Command.replies panicOrPass (twoAttemptsCommands true) emptyBench =
        Command.replies panicOrPass (twoAttemptsCommands false) emptyBench ∧
      (Command.replies panicOrPass (twoAttemptsCommands true) emptyBench)[1]? =
        some (.error (.failure (.misuse (.notStarted "append")))) ∧
      (afterAttempts true).engine.viewTxn ⟨1⟩ = (afterAttempts false).engine.viewTxn ⟨1⟩ ∧
      (afterAttempts true).engine.viewTxn ⟨1⟩ = ⟨⟨1⟩, ⟨0⟩, some [(.choice, true)]⟩ ∧
      (Command.performAll panicOrPass.traced ((twoAttemptsCommands true).take 8)
        (emptyBench.traced [])).memory.trace = [] ∧
      (Command.perform panicOrPass (.play "h") (afterAttempts true)).1 =
        .error (.failure (.panic "out of order")) ∧
      (Command.perform panicOrPass (.play "h") (afterAttempts false)).1 =
        .ok (.outcomes (some [true])) := by
  have houtline : (twoAttempts true).map BuilderAct.outline =
      (twoAttempts false).map BuilderAct.outline := rfl
  obtain ⟨hreplies, hafter⟩ :=
    building_ignores_steps ⟨"c", "b", "h"⟩ emptyBench houtline panicOrPass panicOrPass
  obtain ⟨⟨-, hview, -⟩, -, htrace, -⟩ := hafter 8
  exact ⟨houtline, hreplies, rfl, hview ⟨1⟩, rfl, htrace, rfl, rfl⟩

end TxnAssembly
