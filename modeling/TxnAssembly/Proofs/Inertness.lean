import TxnAssembly.Proofs.Appending
import TxnAssembly.Proofs.Orders
import TxnAssembly.Proofs.Ownership

/-!
# What a configuration does not decide

Of a configuration only the restart policy decides anything, and it does so only when a
build is started again. The label is shown in the events of the builder; a capacity
hint, as long as there is room for it, is seen nowhere. So orders lead builders with
different labels and hints to the same, and since nobody reads the log, whatever runs
afterwards goes the same way.
-/
namespace TxnAssembly

variable {S σ α : Type}

namespace Event

/-- The event as a builder without a label reports it. -/
def unlabelled (e : Event) : Event :=
  match e with
  | builderCreated _ => builderCreated none
  | buildRestarted _ discarded => buildRestarted none discarded
  | buildStarted _ => buildStarted none
  | actionAppended _ kind position => actionAppended none kind position
  | finalizing _ actions => finalizing none actions
  | retrievedUnfinalized _ phase => retrievedUnfinalized none phase
  | e => e

theorem filter_labelField (label : Option String) :
    (labelField label).filter (·.1 ≠ "label") = [] := by
  cases label <;> rfl

/-- It shows the same in all fields but one. -/
theorem fields_unlabelled (e : Event) :
    e.unlabelled.level = e.level ∧ e.unlabelled.message = e.message ∧
      e.unlabelled.fields = e.fields.filter (·.1 ≠ "label") := by
  refine ⟨by cases e <;> rfl, by cases e <;> rfl, ?_⟩
  cases e with
  | builderCreated label | buildStarted label => exact (filter_labelField label).symm
  | buildRestarted label | actionAppended label | finalizing label
  | retrievedUnfinalized label =>
    simp only [fields, List.filter_append, filter_labelField]
    rfl
  | planInstalled | orphaned | fallingBack | invoked => rfl

end Event

namespace Engine

/-- The engine without the labels in its log. -/
def unlabelled (e : Engine S) : Engine S := { e with log := e.log.map Event.unlabelled }

theorem unlabelled_emit (e : Engine S) (event : Event) :
    (e.emit event).unlabelled = e.unlabelled.emit event.unlabelled := by
  simp [unlabelled, emit]

theorem unlabelled_install (e : Engine S) (t : TxnKey) (actions : List (Action S)) :
    (e.install t actions).unlabelled = e.unlabelled.install t actions := by
  simp [unlabelled, install, emit, Event.unlabelled, context, contextOf, txnId, txn?]

end Engine

/-- A policy and nothing else. -/
def Config.bare (policy : RestartPolicy) : Config := { restartPolicy := policy }

theorem Config.isAllocatable_bare (policy : RestartPolicy) :
    (bare policy).isAllocatable = true := by
  cases policy <;> decide

namespace Builder

def withConfig (config : Config) (b : Builder S) : Builder S := { b with config := config }

/-- What an outcome is with another configuration, apart from labels. -/
def Outcome.withConfig (config : Config) (o : Outcome S) : Outcome S :=
  (o.1.map (Builder.withConfig config), o.2.unlabelled)

variable {b : Builder S} (policy : RestartPolicy) (e : Engine S)

/-- If there is room, the bare policy leads to the same. -/
theorem openSequence_bare (hroom : b.config.isAllocatable = true) :
    (b.withConfig (.bare policy)).openSequence e.unlabelled =
      (b.openSequence e).withConfig (.bare policy) := by
  simp only [openSequence, withConfig, Config.isAllocatable_bare, hroom, Outcome.withConfig,
    if_true, Engine.unlabelled_emit]
  rfl

theorem startBuild_bare (hroom : b.config.isAllocatable = true)
    (hpolicy : b.config.restartPolicy = policy ∨ b.sequence = none) :
    (b.withConfig (.bare policy)).startBuild e.unlabelled =
      (b.startBuild e).withConfig (.bare policy) := by
  cases hsequence : b.sequence with
  | none =>
    have hopen := openSequence_bare policy e hroom
    simpa only [startBuild, withConfig, hsequence] using hopen
  | some actions =>
    have hpolicy : b.config.restartPolicy = policy := by simpa [hsequence] using hpolicy
    cases policy with
    | reject => simp only [startBuild, withConfig, hsequence, hpolicy]; rfl
    | restart =>
      have hopen := openSequence_bare .restart
        (e.emit (.buildRestarted b.config.label actions.length)) hroom
      rw [Engine.unlabelled_emit] at hopen
      simp only [startBuild, withConfig, hsequence, hpolicy] at hopen ⊢
      exact hopen

theorem push_bare (operation : String) (x : Recipe S) :
    (b.withConfig (.bare policy)).push operation x e.unlabelled =
      (b.push operation x e).withConfig (.bare policy) := by
  cases hsequence : b.sequence with
  | none => simp only [push, withConfig, hsequence]; rfl
  | some actions =>
    simp only [push, withConfig, hsequence, Outcome.withConfig, Engine.unlabelled_emit]
    rfl

theorem startBuildWith_bare (hroom : b.config.isAllocatable = true)
    (hpolicy : b.config.restartPolicy = policy ∨ b.sequence = none) (step : S) :
    (b.withConfig (.bare policy)).startBuildWith step e.unlabelled =
      (b.startBuildWith step e).withConfig (.bare policy) := by
  rw [startBuildWith, startBuildWith, startBuild_bare policy e hroom hpolicy]
  rcases b.startBuild e with ⟨why | b', e'⟩
  · rfl
  · exact push_bare policy e' _ _

theorem finalize_bare :
    (b.withConfig (.bare policy)).finalize e.unlabelled =
      (b.finalize e).withConfig (.bare policy) := by
  cases hsequence : b.sequence with
  | none => simp only [finalize, withConfig, hsequence]; rfl
  | some actions =>
    simp only [finalize, withConfig, hsequence, Outcome.withConfig, Engine.unlabelled_install,
      Engine.unlabelled_emit]
    rfl

/-- A call does not depend on the configuration, but for the restart policy if the build
is started again. -/
theorem call_bare (hroom : b.config.isAllocatable = true) (c : Call S)
    (hpolicy : b.config.restartPolicy = policy ∨ (c.isStart && b.sequence.isSome) = false) :
    (b.withConfig (.bare policy)).call c e.unlabelled =
      (b.call c e).withConfig (.bare policy) := by
  cases c with
  | startBuild => exact startBuild_bare policy e hroom (by simpa [Call.isStart] using hpolicy)
  | startBuildWith step =>
    exact startBuildWith_bare policy e hroom (by simpa [Call.isStart] using hpolicy) step
  | append step => exact push_bare policy e _ _
  | appendChoice primary fallback => exact push_bare policy e _ _
  | finalize => exact finalize_bare policy e

theorem retrieve_bare :
    (b.withConfig (.bare policy)).retrieve e.unlabelled =
      ((b.retrieve e).1, (b.retrieve e).2.unlabelled) := by
  by_cases hphase : b.phase = .finalized
  · simp [retrieve, withConfig, hphase]
  · simp only [retrieve, withConfig, hphase, if_false, Engine.unlabelled_emit]
    rfl

end Builder

namespace Stand

def withConfig (config : Config) (p : Stand S) : Stand S :=
  match p with
  | active b => active (b.withConfig config)
  | refused t why => refused t why
  | retrieved t => retrieved t

theorem withConfig_withConfig (config config' : Config) (p : Stand S) :
    (p.withConfig config).withConfig config' = p.withConfig config' := by
  cases p <;> rfl

/-- A builder that is made around a new transaction. -/
def made (config : Config) (c : ContextKey) (e : Engine S) : Stand S × Engine S :=
  (active (Builder.create config c e).1, (Builder.create config c e).2)

/-- The builder, if it is still there, has a configuration. -/
def HasConfig (config : Config) (p : Stand S) : Prop := ∀ b, p = active b → b.config = config

/-- Whether an order starts the build of a builder that has a sequence. -/
def isStartAgain (p : Stand S) (x : Order S) : Bool :=
  match p, x with
  | active b, .call c => c.isStart && b.sequence.isSome
  | _, _ => false

/-- Whether one of several orders starts the build of a builder that has a sequence. -/
def startsAgain (p : Stand S) (orders : List (Order S)) (e : Engine S) : Bool :=
  match orders with
  | [] => false
  | x :: orders => p.isStartAgain x || (p.obey x e).1.startsAgain orders (p.obey x e).2

theorem startsAgain_append (p : Stand S) (xs ys : List (Order S)) (e : Engine S) :
    p.startsAgain (xs ++ ys) e =
      (p.startsAgain xs e || (p.obeyAll xs e).1.startsAgain ys (p.obeyAll xs e).2) := by
  induction xs generalizing p e with
  | nil => rfl
  | cons x xs ih => rw [List.cons_append, startsAgain, startsAgain, ih, Bool.or_assoc]; rfl

section Bare

variable {config : Config} {p : Stand S}

theorem hasConfig_made (config : Config) (c : ContextKey) (e : Engine S) :
    (made config c e).1.HasConfig config := by
  intro b hb
  cases hb
  rfl

theorem HasConfig.obey (hp : p.HasConfig config) (x : Order S) (e : Engine S) :
    (p.obey x e).1.HasConfig config := by
  intro b' hb'
  cases p with
  | refused | retrieved => cases hb'
  | active b =>
    cases x with
    | retrieve => cases hb'
    | call c =>
      rw [Stand.obey] at hb'
      split at hb'
      · next b₁ e₁ hcall =>
        obtain ⟨-, rfl⟩ := Builder.call_eq_ok hcall
        cases hb'
        exact hp b rfl
      · cases hb'

theorem isStartAgain_withConfig (p : Stand S) (x : Order S) :
    (p.withConfig config).isStartAgain x = p.isStartAgain x := by
  cases p <;> cases x <;> rfl

variable (hroom : config.isAllocatable = true) (hp : p.HasConfig config)
include hroom hp

theorem obey_bare (policy : RestartPolicy) (x : Order S) (e : Engine S)
    (hpolicy : config.restartPolicy = policy ∨ p.isStartAgain x = false) :
    (p.withConfig (.bare policy)).obey x e.unlabelled =
      ((p.obey x e).1.withConfig (.bare policy), (p.obey x e).2.unlabelled) := by
  cases p with
  | refused | retrieved => rfl
  | active b =>
    obtain rfl : b.config = config := hp b rfl
    cases x with
    | retrieve =>
      simp only [withConfig, obey, Builder.retrieve_bare]
    | call c =>
      have hcall := Builder.call_bare policy e hroom c hpolicy
      simp only [withConfig, obey, hcall, Builder.Outcome.withConfig]
      rcases b.call c e with ⟨why | b', e'⟩ <;> rfl

/-- Orders do not depend on the configuration, but for the restart policy if the build is
started again. -/
theorem obeyAll_bare (policy : RestartPolicy) (orders : List (Order S)) (e : Engine S)
    (hpolicy : config.restartPolicy = policy ∨ p.startsAgain orders e = false) :
    (p.withConfig (.bare policy)).obeyAll orders e.unlabelled =
      ((p.obeyAll orders e).1.withConfig (.bare policy), (p.obeyAll orders e).2.unlabelled) := by
  induction orders generalizing p e with
  | nil => rfl
  | cons x orders ih =>
    rw [startsAgain, Bool.or_eq_false_iff] at hpolicy
    have hfirst : config.restartPolicy = policy ∨ p.isStartAgain x = false :=
      hpolicy.imp_right And.left
    rw [obeyAll, obey_bare hroom hp policy x e hfirst]
    exact ih (hp.obey x e) _ (hpolicy.imp_right And.right)

/-- Nor does it depend on the configuration whether the build is started again. -/
theorem startsAgain_bare_iff (policy : RestartPolicy) (orders : List (Order S))
    (e : Engine S) :
    (p.withConfig (.bare policy)).startsAgain orders e.unlabelled = false ↔
      p.startsAgain orders e = false := by
  induction orders generalizing p e with
  | nil => rfl
  | cons x orders ih =>
    rw [startsAgain, startsAgain, Bool.or_eq_false_iff, Bool.or_eq_false_iff,
      isStartAgain_withConfig]
    refine and_congr_right fun hfirst => ?_
    rw [obey_bare hroom hp policy x e (.inr hfirst)]
    exact ih (hp.obey x e) _

end Bare

/-- Two builders that have been made in the same way, apart from the configurations, are
led by the same orders to the same, apart from the configurations and the labels. -/
theorem obeyAll_made {config config' : Config} (hroom : config.isAllocatable = true)
    (hroom' : config'.isAllocatable = true) (c : ContextKey) (e : Engine S)
    (orders : List (Order S))
    (hpolicy : config.restartPolicy = config'.restartPolicy ∨
      (made config c e).1.startsAgain orders (made config c e).2 = false) :
    let (p, e₁) := (made config c e).1.obeyAll orders (made config c e).2
    let (p', e₁') := (made config' c e).1.obeyAll orders (made config' c e).2
    p.withConfig {} = p'.withConfig {} ∧ e₁.unlabelled = e₁'.unlabelled := by
  -- with the bare policy of the first both are at the same point, now and in the end
  let bare := Config.bare config.restartPolicy
  have hp := hasConfig_made config c e
  have hp' := hasConfig_made config' c e
  have hstart : (made config c e).1.withConfig bare = (made config' c e).1.withConfig bare := rfl
  have hengine : (made config c e).2.unlabelled = (made config' c e).2.unlabelled := by
    simp only [made, Builder.create, Engine.unlabelled_emit, Event.unlabelled]
  have hpolicy' : config'.restartPolicy = config.restartPolicy ∨
      (made config' c e).1.startsAgain orders (made config' c e).2 = false := by
    refine hpolicy.imp Eq.symm fun hnever => ?_
    rw [← startsAgain_bare_iff hroom hp config.restartPolicy, hstart, hengine] at hnever
    exact (startsAgain_bare_iff hroom' hp' _ _ _).1 hnever
  have hbare := obeyAll_bare hroom hp _ orders (made config c e).2 (.inl rfl)
  have hbare' := obeyAll_bare hroom' hp' _ orders (made config' c e).2 hpolicy'
  rw [hstart, hengine, hbare'] at hbare
  obtain ⟨hstand, hunlabelled⟩ := Prod.ext_iff.1 hbare.symm
  have hstand' := congrArg (withConfig {}) hstand
  simp only [withConfig_withConfig] at hstand'
  exact ⟨hstand', hunlabelled⟩

end Stand

namespace World

/-- The world without the labels in its log. -/
def unlabelled (w : World S σ) : World S σ := w.onEngine Engine.unlabelled

theorem unlabelled_recalling (past : List Event) (w : World S σ) :
    (w.recalling past).unlabelled = w.unlabelled.recalling (past.map Event.unlabelled) := by
  simp [unlabelled, recalling, onEngine, Engine.unlabelled, Engine.recalling]

end World

/-- What does not read the log goes the same way whatever the labels in it are. -/
theorem Run.Appends.unlabelled {x : Run S σ α} (hx : x.Appends) {w w' : World S σ}
    (h : w.unlabelled = w'.unlabelled) :
    (x w).1 = (x w').1 ∧ (x w).2.unlabelled = (x w').2.unlabelled := by
  have hbefore : w.unlogged = w'.unlogged := by
    show w.unlabelled.unlogged = w'.unlabelled.unlogged
    rw [h]
  have hlog : w.engine.log.map Event.unlabelled = w'.engine.log.map Event.unlabelled :=
    congrArg (fun w => w.engine.log) h
  rw [hx.apply_eq w, hx.apply_eq w', hbefore]
  refine ⟨rfl, ?_⟩
  simp only [World.unlabelled_recalling, hlog]

namespace Meaning

/-- Plays transactions one after the other, whatever becomes of each play. -/
def plays (steps : Meaning S σ) (ts : List TxnKey) :
    Run S σ (List (Except Failure (Option (List Bool)))) :=
  match ts with
  | [] => return []
  | t :: ts => do
    let first ← (steps.play t).settle
    let more ← plays steps ts
    return first :: more

theorem appends_plays {steps : Meaning S σ} (hsteps : steps.Appends) (ts : List TxnKey) :
    (steps.plays ts).Appends := by
  induction ts with
  | nil => exact Run.appends_pure []
  | cons t ts ih =>
    exact (appends_play hsteps t).settle.bind fun _ => ih.bind fun _ => Run.appends_pure _

end Meaning

/-- The configuration beyond the restart policy is inert, and the restart policy is too
as long as no build is started again. Two builders that have been made in the same way,
with room for their capacities, are given the same orders. After each of them they stand
at the same point, apart from the configuration, and the engines are the same, apart from
the labels in the logs. If transactions are played after that, the plays have the same
results and lead to the same world, again apart from the labels. -/
theorem obeyAll_of_config (programs : S → Program S σ) (depth : Nat) (w : World S σ)
    (c : ContextKey) {config config' : Config} (hroom : config.isAllocatable = true)
    (hroom' : config'.isAllocatable = true) (orders : List (Order S))
    (hpolicy : config.restartPolicy = config'.restartPolicy ∨
      (Stand.made config c w.engine).1.startsAgain orders (Stand.made config c w.engine).2 =
        false) :
    let after (config : Config) (orders : List (Order S)) :=
      (Stand.made config c w.engine).1.obeyAll orders (Stand.made config c w.engine).2
    let played (config : Config) (ts : List TxnKey) :=
      (Meaning.ofPrograms programs depth).plays ts
        { w with engine := (after config orders).2 }
    (∀ before later, orders = before ++ later →
      (after config before).1.withConfig {} = (after config' before).1.withConfig {} ∧
      (after config before).2.unlabelled = (after config' before).2.unlabelled) ∧
    ∀ ts, (played config ts).1 = (played config' ts).1 ∧
      (played config ts).2.unlabelled = (played config' ts).2.unlabelled := by
  intro after played
  constructor
  · rintro before later rfl
    rw [Stand.startsAgain_append, Bool.or_eq_false_iff] at hpolicy
    exact Stand.obeyAll_made hroom hroom' c w.engine before (hpolicy.imp_right And.left)
  · intro ts
    have hafter := Stand.obeyAll_made hroom hroom' c w.engine orders hpolicy
    have happends := Meaning.appends_plays (Meaning.appends_ofPrograms programs depth) ts
    apply happends.unlabelled
    exact congrArg (fun e => { w with engine := e }) hafter.2

/-- A world with a context and nothing else. -/
def oneContext : World Unit Unit :=
  { engine := (Engine.openContext {} none).2, memory := () }

/-- A builder with a label, another restart policy and no capacity is led to where the one
with the defaults is led, and the transaction plays alike. -/
theorem oneContext_obeyAll_of_config :
    let config : Config := ⟨some "a", .restart, 0⟩
    let orders : List (Order Unit) := [.call (.startBuildWith ()), .call .finalize, .retrieve]
    let after (config : Config) :=
      (Stand.made config ⟨0⟩ oneContext.engine).1.obeyAll orders
        (Stand.made config ⟨0⟩ oneContext.engine).2
    let steps : Meaning Unit Unit := .ofPrograms (fun _ => .finish true) 1
    config.isAllocatable = true ∧ ({} : Config).isAllocatable = true ∧
      (Stand.made config ⟨0⟩ oneContext.engine).1.startsAgain orders
        (Stand.made config ⟨0⟩ oneContext.engine).2 = false ∧
      (after config).1.withConfig {} = .retrieved ⟨0⟩ ∧
      (after config).2.log ≠ (after {}).2.log ∧
      (after config).2.unlabelled = (after {}).2.unlabelled ∧
      (steps.plays [⟨0⟩, ⟨0⟩] { oneContext with engine := (after config).2 }).1 =
        .ok [.ok (some [true]), .ok (some [true])] := by
  intro config orders after steps
  have hroom : config.isAllocatable = true := by decide
  have hroom' : ({} : Config).isAllocatable = true := by decide
  have hnever : (Stand.made config ⟨0⟩ oneContext.engine).1.startsAgain orders
      (Stand.made config ⟨0⟩ oneContext.engine).2 = false := rfl
  obtain ⟨hafter, hplayed⟩ := obeyAll_of_config (fun _ => .finish true) 1 oneContext ⟨0⟩ hroom
    hroom' orders (.inr hnever)
  obtain ⟨hstand, hunlabelled⟩ := hafter orders [] rfl
  obtain ⟨hresults, -⟩ := hplayed [⟨0⟩, ⟨0⟩]
  have hlog : (after config).2.log ≠ (after {}).2.log := by decide
  exact ⟨hroom, hroom', hnever, hstand, hlog, hunlabelled, hresults⟩

end TxnAssembly
