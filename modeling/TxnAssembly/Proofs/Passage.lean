import TxnAssembly.Program
import TxnAssembly.Proofs.Stage

/-!
# Runs are made of moves

Whatever a command or a step does, it gets from one world to the next by moves and
leaves behind the hands it found. So what moves preserve is preserved by every run,
and it holds at every moment of one, in the middle of plays and invocations too.
-/
namespace TxnAssembly

variable {S σ α β : Type}

namespace Slots

variable {s : Slots α} {name : String}

@[simp] theorem erase_erase : (s.erase name).erase name = s.erase name := by
  obtain ⟨entries, distinct⟩ := s
  have h := Slots.not_mem_erase ⟨entries, distinct⟩ name
  simp only [erase, Slots.mk.injEq] at h ⊢
  refine List.eraseP_of_forall_not fun entry hentry hname => h ?_
  exact List.mem_map.2 ⟨entry, hentry, by simpa [isNamed] using hname⟩

@[simp] theorem put_erase (a : α) : (s.erase name).put name a = s.put name a := by
  simp [put]

theorem erase_eq_of_get?_eq_none (h : s.get? name = none) : s.erase name = s := by
  obtain ⟨entries, distinct⟩ := s
  simp only [get?, List.lookup_eq_none_iff] at h
  simp only [erase, Slots.mk.injEq]
  refine List.eraseP_of_forall_not fun entry hentry hname => ?_
  simpa [beq_iff_eq.1 hname] using h entry hentry

end Slots

namespace World

variable {w : World S σ} {H : List (Hand S)} {name : String}

@[simp] theorem shelf_release? (t : Option TxnKey) : (w.release? t).shelf = w.shelf := by
  cases t <;> rfl

@[simp] theorem shelf_dropBuilder :
    (w.dropBuilder name).shelf = { w.shelf with builders := w.shelf.builders.erase name } := by
  simp [dropBuilder, takeBuilder]

@[simp] theorem shelf_dropHandle :
    (w.dropHandle name).shelf = { w.shelf with handles := w.shelf.handles.erase name } := by
  simp [dropHandle]

/-- What a slot held goes before the new content is put there. -/
theorem storeBuilder_eq (b : Builder S) :
    w.storeBuilder name b = { w.dropBuilder name with
      shelf := { w.shelf with builders := w.shelf.builders.put name b } } := by
  cases h : w.shelf.builders.get? name <;>
    simp [storeBuilder, dropBuilder, takeBuilder, h, release?, release, onEngine]

theorem storeHandle_eq (t : TxnKey) :
    w.storeHandle name t = { w.dropHandle name with
      shelf := { w.shelf with handles := w.shelf.handles.put name t } } := by
  cases h : w.shelf.handles.get? name <;>
    simp [storeHandle, dropHandle, h, release?, release, onEngine]

theorem moves_takeBuilder {b : Builder S} (h : w.shelf.builders.get? name = some b) :
    Moves (w.stage H) ((w.takeBuilder name).stage (.builder b :: H)) :=
  .single (.takeBuilder h)

theorem moves_dropBuilder (w : World S σ) (H : List (Hand S)) (name : String) :
    Moves (w.stage H) ((w.dropBuilder name).stage H) := by
  cases h : w.shelf.builders.get? name with
  | none =>
    simp only [dropBuilder, takeBuilder, h, Slots.erase_eq_of_get?_eq_none h]
    exact .refl
  | some b =>
    simp only [dropBuilder, h]
    exact (moves_takeBuilder h).tail (.letGo _)

theorem moves_dropHandle (w : World S σ) (H : List (Hand S)) (name : String) :
    Moves (w.stage H) ((w.dropHandle name).stage H) := by
  cases h : w.shelf.handles.get? name with
  | none =>
    simp only [dropHandle, h, Slots.erase_eq_of_get?_eq_none h]
    exact .refl
  | some t =>
    simp only [dropHandle, h]
    exact (Relation.ReflTransGen.single (.takeHandle h)).tail (.letGo _)

theorem moves_storeBuilder (w : World S σ) (H : List (Hand S)) (name : String) (b : Builder S) :
    Moves (w.stage (.builder b :: H)) ((w.storeBuilder name b).stage H) := by
  have hfree : (w.dropBuilder name).shelf.builders.get? name = none := by simp
  have hput := Move.putBuilder (H := H) (e := (w.dropBuilder name).engine) b hfree
  simp only [shelf_dropBuilder, Slots.put_erase] at hput
  rw [storeBuilder_eq]
  exact (moves_dropBuilder w _ name).tail (by simpa [stage] using hput)

theorem moves_storeHandle (w : World S σ) (H : List (Hand S)) (name : String) (t : TxnKey) :
    Moves (w.stage (.handle t :: H)) ((w.storeHandle name t).stage H) := by
  have hfree : (w.dropHandle name).shelf.handles.get? name = none := by simp
  have hput := Move.putHandle (H := H) (e := (w.dropHandle name).engine) t hfree
  simp only [shelf_dropHandle, Slots.put_erase] at hput
  rw [storeHandle_eq]
  exact (moves_dropHandle w _ name).tail (by simpa [stage] using hput)

end World

namespace Builder

variable {H : List (Hand S)} {s : Shelf S}

/-- The hands after a call: the builder comes back, or it is gone. -/
def handsAfter (result : Except Refusal (Builder S)) (H : List (Hand S)) : List (Hand S) :=
  match result with
  | .ok b => .builder b :: H
  | .error _ => H

/-- The stage that a call leads to. -/
def stageAfter (o : Outcome S) (H : List (Hand S)) (s : Shelf S) : Stage S :=
  ⟨handsAfter o.1 H, o.2, s⟩

theorem moves_refuse (b : Builder S) (why : Refusal) (e : Engine S) :
    Moves ⟨.builder b :: H, e, s⟩ (stageAfter (b.refuse why e) H s) :=
  .single (.letGo _)

theorem moves_openSequence (b : Builder S) (e : Engine S) :
    Moves ⟨.builder b :: H, e, s⟩ (stageAfter (b.openSequence e) H s) := by
  rw [openSequence]
  split
  · exact (Relation.ReflTransGen.single (.start b)).tail (.emit _)
  · exact moves_refuse b _ e

theorem moves_startBuild (b : Builder S) (e : Engine S) :
    Moves ⟨.builder b :: H, e, s⟩ (stageAfter (b.startBuild e) H s) := by
  rw [startBuild]
  split
  · exact moves_openSequence b e
  · split
    · exact moves_refuse b _ e
    · exact .head (.emit _) (moves_openSequence b _)

theorem moves_push (b : Builder S) (operation : String) {x : Recipe S}
    (hx : x.body.txn? = some b.txn) (e : Engine S) :
    Moves ⟨.builder b :: H, e, s⟩ (stageAfter (b.push operation x e) H s) := by
  rw [push]
  split
  · exact moves_refuse b _ e
  · next actions hseq =>
    exact (Relation.ReflTransGen.single (.collect b x hseq hx)).tail (.emit _)

theorem moves_startBuildWith (b : Builder S) (step : S) (e : Engine S) :
    Moves ⟨.builder b :: H, e, s⟩ (stageAfter (b.startBuildWith step e) H s) := by
  have hstart : Moves ⟨.builder b :: H, e, s⟩ (stageAfter (b.startBuild e) H s) :=
    moves_startBuild b e
  rw [startBuildWith]
  split
  · next b' e' hb =>
    rw [hb] at hstart
    exact hstart.trans (moves_push b' _ rfl e')
  · next why e' hb => exact hb ▸ hstart

theorem moves_finalize (b : Builder S) (e : Engine S) :
    Moves ⟨.builder b :: H, e, s⟩ (stageAfter (b.finalize e) H s) := by
  rw [finalize]
  split
  · exact moves_refuse b _ e
  · next actions hseq => exact .head (.emit _) (.single (.finalize b hseq))

theorem moves_call (b : Builder S) (c : Call S) (e : Engine S) :
    Moves ⟨.builder b :: H, e, s⟩ (stageAfter (b.call c e) H s) := by
  cases c with
  | startBuild => exact moves_startBuild b e
  | startBuildWith step => exact moves_startBuildWith b step e
  | append step => exact moves_push b _ rfl e
  | appendChoice primary fallback => exact moves_push b _ rfl e
  | finalize => exact moves_finalize b e

theorem moves_retrieve (b : Builder S) (e : Engine S) :
    Moves ⟨.builder b :: H, e, s⟩ ⟨.handle (b.retrieve e).1 :: H, (b.retrieve e).2, s⟩ := by
  rw [retrieve]
  split
  · exact .single (.retrieve b)
  · exact (Relation.ReflTransGen.single (.retrieve b)).tail (.emit _)

end Builder

namespace Run

/-- What is listed of a run that goes on where another one has led to. -/
def after (first : Except Halt α × World S σ) (next : α → World S σ → List β) : List β :=
  match first with
  | (.ok a, w) => next a w
  | (.error _, _) => []

theorem mem_after {first : Except Halt α × World S σ} {next : α → World S σ → List β} {b : β} :
    b ∈ after first next ↔ ∃ a u, first = (.ok a, u) ∧ b ∈ next a u := by
  rcases first with ⟨halt | a, u⟩ <;> simp [after, and_assoc]

/-- A run from a world gets to its end by moves and leaves the hands as they were. -/
def TidyAt (x : Run S σ α) (w : World S σ) : Prop :=
  ∀ H, Moves (w.stage H) ((x w).2.stage H)

def Tidy (x : Run S σ α) : Prop := ∀ w, x.TidyAt w

variable {x : Run S σ α} {f : α → Run S σ β} {w : World S σ}

theorem tidy_pure (a : α) : Tidy (pure a : Run S σ α) := fun _ _ => .refl

theorem tidy_halt (h : Halt) : Tidy (halt h : Run S σ α) := fun _ _ => .refl

theorem tidy_inspect (g : World S σ → α) : Tidy (inspect g) := fun _ _ => .refl

theorem tidy_emit (event : Event) : Tidy (emit event : Run S σ Unit) := fun _ _ =>
  .single (.emit event)

theorem TidyAt.bind (hx : x.TidyAt w) (hf : ∀ a, (x w).1 = .ok a → (f a).TidyAt (x w).2) :
    (x >>= f).TidyAt w := by
  intro H
  have hfirst := hx H
  rw [bind_apply]
  split
  · next a w' h =>
    rw [h] at hfirst hf
    exact hfirst.trans (hf a rfl H)
  · next halt w' h =>
    rw [h] at hfirst
    exact hfirst

theorem Tidy.bind (hx : x.Tidy) (hf : ∀ a, (f a).Tidy) : (x >>= f).Tidy := fun w =>
  (hx w).bind fun a _ => hf a _

theorem tidyAt_change {g : World S σ → World S σ} (hg : ∀ H, Moves (w.stage H) ((g w).stage H)) :
    (change g).TidyAt w := hg

theorem Tidy.settle (hx : x.Tidy) : x.settle.Tidy := by
  intro w H
  have h := hx w H
  rw [Run.settle]
  split <;>
  · next heq =>
    rw [heq] at h
    exact h

/-- A running play is one more owner until it ends. -/
theorem Tidy.moves_holding (hx : x.Tidy) {H : List (Hand S)} {t : TxnKey}
    (ht : t ∈ (w.stage H).owners) : Moves (w.stage H) ((holding t x w).2.stage H) := by
  have hrun : Moves ((w.hold t).stage (.play t :: H)) _ := hx (w.hold t) (.play t :: H)
  exact .head (.play ht) (hrun.tail (.letGo (.play t)))

/-- A running invocation is one more owner until it ends. -/
theorem Tidy.tidyAt_holding (hx : x.Tidy) {t : TxnKey} (ht : w.engine.isAlive t = true) :
    (holding t x).TidyAt w := by
  intro H
  have hrun : Moves ((w.hold t).stage (.invocation t :: H)) _ :=
    hx (w.hold t) (.invocation t :: H)
  exact .head (.upgrade ht) (hrun.tail (.letGo (.invocation t)))

end Run

namespace Meaning

/-- Steps that get where they get by moves. -/
def Tidy (steps : Meaning S σ) : Prop := ∀ s t, (steps s t).Tidy

variable {steps : Meaning S σ} (hsteps : steps.Tidy)

theorem tidy_onLive (t : TxnKey) (kind : ActionKind) {x : Run S σ Bool} (hx : x.Tidy) :
    (onLive t kind x).Tidy := by
  intro w
  refine (Run.tidy_inspect _ w).bind fun alive halive => ?_
  have halive : w.engine.isAlive t = alive := Except.ok.inj halive
  split
  · next h => exact hx.tidyAt_holding (halive.trans h)
  · exact (Run.tidy_emit _ w).bind fun _ _ => Run.tidy_pure _ _

include hsteps

theorem tidy_runBody (b : Body S) : (steps.runBody b).Tidy := by
  cases b with
  | free s => exact hsteps s none
  | step t s => exact tidy_onLive t _ (hsteps s _)
  | choice t primary fallback =>
    refine tidy_onLive t _ ((hsteps primary _).bind fun ok => ?_)
    split
    · exact Run.tidy_pure _
    · exact (Run.tidy_emit _).bind fun _ => hsteps fallback _

theorem tidy_invoke (a : Action S) : (steps.invoke a).Tidy :=
  (tidy_runBody hsteps a.body).bind fun _ => (Run.tidy_emit _).bind fun _ => Run.tidy_pure _

theorem tidy_invokeAll (plan : List (Action S)) : (steps.invokeAll plan).Tidy := by
  induction plan with
  | nil => exact Run.tidy_pure _
  | cons a rest ih => exact (tidy_invoke hsteps a).bind fun _ => ih.bind fun _ => Run.tidy_pure _

theorem tidy_invokeUntilFailure (plan : List (Action S)) :
    (steps.invokeUntilFailure plan).Tidy := by
  induction plan with
  | nil => exact Run.tidy_pure _
  | cons a rest ih =>
    refine (tidy_invoke hsteps a).bind fun ok => ?_
    split
    · exact ih
    · exact Run.tidy_pure _

/-- A play of a transaction that somebody owns. -/
theorem moves_play {w : World S σ} {H : List (Hand S)} {t : TxnKey}
    (ht : t ∈ (w.stage H).owners) : Moves (w.stage H) ((steps.play t w).2.stage H) := by
  refine Run.Tidy.moves_holding ((Run.tidy_inspect _).bind fun plan? => ?_) ht
  cases plan? with
  | none => exact Run.tidy_pure _
  | some plan => exact (tidy_invokeAll hsteps plan).bind fun _ => Run.tidy_pure _

theorem moves_runUntilFailure {w : World S σ} {H : List (Hand S)} {t : TxnKey}
    (ht : t ∈ (w.stage H).owners) :
    Moves (w.stage H) ((steps.runUntilFailure t w).2.stage H) := by
  refine Run.Tidy.moves_holding ((Run.tidy_inspect _).bind fun plan? => ?_) ht
  cases plan? with
  | none => exact Run.tidy_pure _
  | some plan => exact tidy_invokeUntilFailure hsteps plan

end Meaning

namespace Command

variable {w : World S σ}

theorem find_apply {α : Type} (name : String) (slots : Shelf S → Slots α) (w : World S σ) :
    (find name slots : Run S σ α) w = match (slots w.shelf).get? name with
      | some a => (.ok a, w)
      | none => (.error (.failure (.emptySlot name)), w) := by
  simp only [find, Run.bind_apply, Run.inspect_apply]
  cases (slots w.shelf).get? name <;> rfl

/-- A command that looks a slot up goes on with what the slot holds. -/
theorem tidyAt_find {α β : Type} {name : String} {slots : Shelf S → Slots α}
    {f : α → Run S σ β} (hf : ∀ a, (slots w.shelf).get? name = some a → (f a).TidyAt w) :
    (find name slots >>= f).TidyAt w := by
  intro H
  rw [Run.bind_apply, find_apply]
  cases h : (slots w.shelf).get? name with
  | none => exact .refl
  | some a => exact hf a h H

theorem tidy_pick (plan : List (Action S)) (index : Nat) :
    (pick plan index : Run S σ (Action S)).Tidy := by
  rw [pick]
  split
  · exact Run.tidy_pure _
  · exact Run.tidy_halt _

/-- Looking up several slots changes nothing and finds what they hold. -/
theorem findAll_apply (names : List String) (w : World S σ) :
    (findAll names w).2 = w ∧
      ∀ actions, (findAll names w).1 = .ok actions →
        ∀ a ∈ actions, a ∈ w.shelf.actions.values := by
  induction names with
  | nil => exact ⟨rfl, fun actions h => by simp [← Except.ok.inj h]⟩
  | cons name rest ih =>
    obtain ⟨hworld, hmem⟩ := ih
    rw [findAll, Run.bind_apply, find_apply]
    cases hname : w.shelf.actions.get? name with
    | none => exact ⟨rfl, fun _ h => nomatch h⟩
    | some a =>
      dsimp only
      rw [Run.bind_apply]
      split
      · next more w' hrest =>
        rw [hrest] at hworld hmem
        refine ⟨hworld, fun actions h b hb => ?_⟩
        rw [← Except.ok.inj h, List.mem_cons] at hb
        obtain rfl | hb := hb
        · exact w.shelf.actions.mem_values_iff.2 ⟨name, hname⟩
        · exact hmem more rfl b hb
      · next halt w' hrest =>
        rw [hrest] at hworld
        exact ⟨hworld, fun _ h => nomatch h⟩

theorem tidyAt_discardFrom {α : Type} {name : String} {slots : Shelf S → Slots α}
    {drop : World S σ → World S σ} (hdrop : ∀ H, Moves (w.stage H) ((drop w).stage H)) :
    (discardFrom name slots drop).TidyAt w :=
  (Run.tidy_inspect _ w).bind fun _ _ =>
    (Run.tidyAt_change hdrop).bind fun _ _ => Run.tidy_pure _ _

theorem moves_storeTxn (w : World S σ) (H : List (Hand S)) (t : TxnKey) (into : String) :
    Moves (w.stage (.handle t :: H)) ((storeTxn t into w).2.stage H) :=
  World.moves_storeHandle w H into t

theorem tidyAt_storeNew {x : Recipe S} (into : String)
    (h : ∀ t, x.body.txn? = some t → ∃ name, w.shelf.handles.get? name = some t) :
    (storeNew x into).TidyAt w := by
  intro H
  refine .single (.makeAction into fun t ht => ?_)
  exact (w.stage H).mem_owners_iff.2 (.inr (.inl (h t ht)))

theorem tidyAt_callBuilder (name : String) (call : Call S) :
    (callBuilder name call).TidyAt w := by
  refine tidyAt_find fun b hb H => ?_
  have htake : Moves (w.stage H) ((w.takeBuilder name).stage (.builder b :: H)) :=
    World.moves_takeBuilder hb
  refine htake.trans ?_
  have hcall := Builder.moves_call (H := H) (s := (w.takeBuilder name).shelf) b call w.engine
  simp only [Run.bind_apply, Run.change_apply, Run.onEngine_apply]
  cases hresult : b.call call w.engine with
  | mk result e =>
    have hengine : b.call call (w.takeBuilder name).engine = (result, e) := hresult
    rw [hresult] at hcall
    rw [hengine]
    cases result with
    | error why => exact hcall
    | ok b' =>
      have hstore := World.moves_storeBuilder { w.takeBuilder name with engine := e } H name b'
      exact hcall.trans hstore

theorem tidyAt_retrieve (name into : String) {steps : Meaning S σ} :
    (perform steps (.retrieve name into)).TidyAt w := by
  refine tidyAt_find fun b hb H => ?_
  have htake : Moves (w.stage H) ((w.takeBuilder name).stage (.builder b :: H)) :=
    World.moves_takeBuilder hb
  have hretrieve := Builder.moves_retrieve (H := H) (s := (w.takeBuilder name).shelf) b w.engine
  exact (htake.trans hretrieve).trans
    (moves_storeTxn { w.takeBuilder name with engine := (b.retrieve w.engine).2 } H b.txn into)

/-- A new reference to a transaction that somebody owns, put into a slot. -/
theorem moves_share {H : List (Hand S)} {t : TxnKey} (ht : t ∈ (w.stage H).owners)
    (into : String) : Moves (w.stage H) (((w.hold t).storeHandle into t).stage H) :=
  .head (.share ht) (World.moves_storeHandle (w.hold t) H into t)

theorem mem_owners_of_handle {name : String} {t : TxnKey}
    (h : w.shelf.handles.get? name = some t) (H : List (Hand S)) : t ∈ (w.stage H).owners :=
  (w.stage H).mem_owners_iff.2 (.inr (.inl ⟨name, h⟩))

theorem mem_owners_of_builder {name : String} {b : Builder S}
    (h : w.shelf.builders.get? name = some b) (H : List (Hand S)) :
    b.txn ∈ (w.stage H).owners :=
  (w.stage H).mem_owners_iff.2 (.inl ⟨name, b, h, rfl⟩)

theorem hasContext_of_get? {name : String} {c : ContextKey}
    (h : w.shelf.contexts.get? name = some c) (H : List (Hand S)) : (w.stage H).HasContext c :=
  .inl (w.shelf.contexts.mem_values_iff.2 ⟨name, h⟩)

/-- Every command gets to its end by moves, if the steps that run meanwhile do. -/
theorem tidy_perform {steps : Meaning S σ} (hsteps : steps.Tidy) (c : Command S) :
    (c.perform steps).Tidy := by
  intro w
  cases c with
  | openContext into name => exact fun H => .single (.openContext into name)
  | describeContext | describeBuilder | describeTxn | describePlan | describeAction | viewTxn =>
    exact tidyAt_find fun _ _ => Run.tidy_inspect _ w
  | takeTxnId context =>
    exact tidyAt_find fun c hc H => .single (.takeTxnId (hasContext_of_get? hc H))
  | contextOf handle into =>
    exact tidyAt_find fun t ht H => .single (.keepContext into (mem_owners_of_handle ht H))
  | sameContext | sameTxn | sameBody =>
    exact tidyAt_find fun _ _ => tidyAt_find fun _ _ => Run.tidy_pure _ w
  | createBuilder context into config =>
    refine tidyAt_find fun c hc H => ?_
    cases (config.map Config.Source.read).getD (.ok {}) with
    | error problem => exact .refl
    | ok config =>
      refine .head (.openBuilder config (hasContext_of_get? hc H)) ?_
      exact World.moves_storeBuilder { w with engine := (Builder.create config c w.engine).2 } H
        into _
  | build builder call => exact tidyAt_callBuilder builder call
  | retrieve builder into => exact tidyAt_retrieve builder into
  | borrow builder into =>
    exact tidyAt_find fun b hb H => moves_share (mem_owners_of_builder hb H) into
  | openTxn context into =>
    refine tidyAt_find fun c hc H => ?_
    exact .head (.openTxn (hasContext_of_get? hc H))
      (moves_storeTxn { w with engine := (w.engine.openTxn c).2 } H _ into)
  | cloneHandle handle into =>
    exact tidyAt_find fun t ht H => moves_share (mem_owners_of_handle ht H) into
  | install handle actions =>
    obtain ⟨hworld, hmem⟩ := findAll_apply actions w
    refine Run.TidyAt.bind (fun H => by rw [hworld]) fun found hfound => ?_
    rw [hworld]
    exact tidyAt_find fun t _ H => .single (.install t (hmem found hfound))
  | play handle =>
    refine tidyAt_find fun t ht H => ?_
    have hplay := Meaning.moves_play hsteps (mem_owners_of_handle ht H)
    rw [Run.bind_apply]
    split <;>
    · next heq =>
      rw [heq] at hplay
      exact hplay
  | keepPlan handle into =>
    refine tidyAt_find fun t ht => (Run.tidy_inspect _ w).bind fun plan? hplan => ?_
    cases plan? with
    | none => exact Run.tidy_pure _ w
    | some plan => exact fun H => .single (.keepPlan into (Except.ok.inj hplan))
  | playPlan plan =>
    exact tidyAt_find fun plan _ =>
      (Meaning.tidy_invokeAll hsteps plan w).bind fun _ _ => Run.tidy_pure _ _
  | runPlanUntilFailure plan =>
    exact tidyAt_find fun plan _ =>
      (Meaning.tidy_invokeUntilFailure hsteps plan w).bind fun _ _ => Run.tidy_pure _ _
  | comparePlans plan other =>
    exact tidyAt_find fun _ _ => tidyAt_find fun _ _ => Run.tidy_pure _ w
  | invokeAt plan index =>
    refine tidyAt_find fun plan _ => ?_
    exact (tidy_pick plan index w).bind fun a _ =>
      (Meaning.tidy_invoke hsteps a _).bind fun _ _ => Run.tidy_pure _ _
  | pickAction plan index into =>
    refine tidyAt_find fun plan hplan => ?_
    rw [pick]
    cases ha : plan[index]? with
    | none => exact Run.tidy_halt _ w
    | some a =>
      have hstored : plan ∈ w.shelf.plans.values := w.shelf.plans.mem_values_iff.2 ⟨_, hplan⟩
      exact fun H => .single (.keepAction into
        (.inr (.inl ⟨plan, hstored, List.mem_of_getElem? ha⟩)))
  | bindStep handle step into =>
    exact tidyAt_find fun t ht => tidyAt_storeNew into fun u hu =>
      ⟨handle, by rwa [← Option.some.inj hu]⟩
  | bindChoice handle primary fallback into =>
    exact tidyAt_find fun t ht => tidyAt_storeNew into fun u hu =>
      ⟨handle, by rwa [← Option.some.inj hu]⟩
  | freeAction kind step into => exact tidyAt_storeNew into fun _ h => nomatch h
  | cloneAction action into =>
    exact tidyAt_find fun a ha H =>
      .single (.keepAction into (.inl (w.shelf.actions.mem_values_iff.2 ⟨_, ha⟩)))
  | invoke action =>
    exact tidyAt_find fun a _ =>
      (Meaning.tidy_invoke hsteps a w).bind fun _ _ => Run.tidy_pure _ _
  | discard kind name =>
    cases kind with
    | context => exact tidyAt_discardFrom fun H => .single (.dropContext name)
    | builder => exact tidyAt_discardFrom fun H => World.moves_dropBuilder w H name
    | handle => exact tidyAt_discardFrom fun H => World.moves_dropHandle w H name
    | plan => exact tidyAt_discardFrom fun H => .single (.dropPlan name)
    | action => exact tidyAt_discardFrom fun H => .single (.dropAction name)

end Command

namespace Program

variable {steps : Meaning S σ}

/-- A step that stores the plan of its transaction, if it has one. -/
theorem moves_storePlanOf (t : Option TxnKey) (into : String) (w : World S σ)
    (H : List (Hand S)) :
    Moves (w.stage H) (((t.map fun t => storePlanOf t into w).getD w).stage H) := by
  cases t with
  | none => exact .refl
  | some t =>
    rw [Option.map_some, Option.getD_some, storePlanOf]
    split
    · exact .refl
    · next plan hplan => exact .single (.keepPlan into hplan)

/-- A step that installs a plan on its transaction, if it has one. -/
theorem moves_installFrom (t : Option TxnKey) (names : List String) (w : World S σ)
    (H : List (Hand S)) :
    Moves (w.stage H) (((t.map fun t => installFrom t names w).getD w).stage H) := by
  cases t with
  | none => exact .refl
  | some t =>
    refine .single (.install t fun a ha => ?_)
    obtain ⟨name, _, hname⟩ := List.mem_filterMap.1 ha
    exact w.shelf.actions.mem_values_iff.2 ⟨name, hname⟩

theorem tidy_run (hsteps : steps.Tidy) (t : Option TxnKey) (p : Program S σ) :
    (p.run steps t).Tidy := by
  induction p with
  | finish ok => exact Run.tidy_pure ok
  | panic text => exact Run.tidy_halt _
  | look next ih => exact (Run.tidy_inspect _).bind ih
  | keepPlan into next ih => exact Run.Tidy.bind (moves_storePlanOf t into) fun _ => ih
  | install actions next ih => exact Run.Tidy.bind (moves_installFrom t actions) fun _ => ih
  | perform command next ih =>
    exact (Command.tidy_perform hsteps command).settle.bind ih
  | remember change next ih =>
    -- The memory is no part of a stage.
    refine Run.Tidy.bind (fun _ _ => .refl) fun _ => ?_
    exact (Run.tidy_inspect _).bind ih

end Program

/-- The steps that programs stand for get where they get by moves. -/
theorem Meaning.tidy_ofPrograms (programs : S → Program S σ) (depth : Nat) :
    (Meaning.ofPrograms programs depth).Tidy := by
  induction depth with
  | zero => exact fun _ _ => Run.tidy_halt _
  | succ depth ih => exact fun s t => Program.tidy_run ih t (programs s)

end TxnAssembly
