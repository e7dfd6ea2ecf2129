import TxnAssembly.Proofs.Evaluation
import TxnAssembly.Proofs.History
import TxnAssembly.Proofs.Roster

/-!
# Actions keep to the transaction of their builder

A builder is made around a transaction and keeps it, whatever it is asked to do and
whatever else happens. Every action that it makes is bound to that transaction, and so
is every copy of the action, in any plan of any transaction, at any later time. Whoever
invokes a copy, its steps run against that transaction; once nobody owns it they do not
run at all.
-/
namespace TxnAssembly

variable {S σ : Type}

/-- The steps that a body may run. -/
def Body.steps (b : Body S) : List S :=
  match b with
  | step _ s => [s]
  | choice _ primary fallback => [primary, fallback]
  | free s => [s]

namespace Meaning

variable (steps : Meaning S σ)

/-- An action evaluates its own steps and against its own transaction. -/
theorem of_mem_evaluations {a : Action S} {w : World S σ} {v : Evaluation S}
    (hv : v ∈ steps.evaluations a w) : v.txn = a.body.txn? ∧ v.step ∈ a.body.steps := by
  by_cases hfound : w.engine.canRun a.body = true
  · cases hbody : a.body with
    | free s =>
      rw [steps.evaluations_free hbody, List.mem_singleton] at hv
      simp [hv, Body.txn?, Body.steps]
    | step t s =>
      rw [hbody] at hfound
      rw [steps.evaluations_step hbody hfound, List.mem_singleton] at hv
      simp [hv, Body.txn?, Body.steps]
    | choice t primary fallback =>
      rw [hbody] at hfound
      rw [steps.evaluations_choice hbody hfound, List.mem_cons] at hv
      obtain rfl | hv := hv
      · simp [Body.txn?, Body.steps]
      · obtain ⟨ok, u, -, hv⟩ := Run.mem_after.1 hv
        cases ok with
        | true => cases hv
        | false =>
          obtain rfl := List.mem_singleton.1 hv
          simp [Body.txn?, Body.steps]
  · rw [steps.evaluations_of_not_canRun (Bool.eq_false_iff.2 hfound)] at hv
    cases hv

end Meaning

namespace Builder

/-- A builder of one stage has become a builder of another. It has been called and has
come back, and between its calls anything has happened that has left it as it was. -/
inductive Becomes (s₀ : Stage S) (b₀ : Builder S) : Stage S → Builder S → Prop where
  | refl : Becomes s₀ b₀ s₀ b₀
  | aside {s s' : Stage S} {b : Builder S} (h : Becomes s₀ b₀ s b) (hmoves : Moves s s')
      (hb : b ∈ s'.builders) : Becomes s₀ b₀ s' b
  | call {H : List (Hand S)} {e e' : Engine S} {s : Shelf S} {b b' : Builder S} (c : Call S)
      (h : Becomes s₀ b₀ ⟨.builder b :: H, e, s⟩ b) (hcall : b.call c e = (.ok b', e')) :
    Becomes s₀ b₀ ⟨.builder b' :: H, e', s⟩ b'

namespace Becomes

variable {s₀ s : Stage S} {b₀ b : Builder S}

theorem moves (h : b₀.Becomes s₀ s b) : Moves s₀ s := by
  induction h with
  | refl => exact .refl
  | aside h hmoves hb ih => exact ih.trans hmoves
  | @call H e e' s b b' c h hcall ih =>
    have hmoves := moves_call (H := H) (s := s) b c e
    rw [hcall] at hmoves
    exact ih.trans hmoves

theorem mem_builders (h : b₀.Becomes s₀ s b) (h₀ : b₀ ∈ s₀.builders) : b ∈ s.builders := by
  cases h with
  | refl => exact h₀
  | aside h hmoves hb => exact hb
  | call c h hcall => exact (Stage.builders_cons _).mem_iff.2 List.mem_cons_self

/-- No call gives a builder another transaction. -/
theorem txn_eq (h : b₀.Becomes s₀ s b) : b.txn = b₀.txn := by
  induction h with
  | refl => rfl
  | aside h hmoves hb ih => exact ih
  | call c h hcall ih =>
    obtain ⟨-, rfl⟩ := call_eq_ok hcall
    exact ih

end Becomes

end Builder

namespace Command

variable {w : World S σ} {name : String} {b : Builder S}

theorem shelf_storeTxn (t : TxnKey) (into : String) (w : World S σ) :
    (storeTxn t into w).2.shelf =
      { w.shelf with handles := w.shelf.handles.put into t } := by
  have hstore : (storeTxn t into w).2 = w.storeHandle into t := rfl
  rw [hstore, World.storeHandle_eq]

/-- The handle that is taken from a builder is one of its transaction. -/
theorem get?_handles_retrieve (hb : w.shelf.builders.get? name = some b) (steps : Meaning S σ)
    (into : String) :
    (perform steps (.retrieve name into) w).2.shelf.handles.get? into = some b.txn := by
  simp only [perform, Run.bind_apply, find_apply, hb, Run.change_apply, Run.onEngine_apply,
    shelf_storeTxn, Slots.get?_put_self]
  rfl

theorem get?_handles_borrow (hb : w.shelf.builders.get? name = some b) (steps : Meaning S σ)
    (into : String) :
    (perform steps (.borrow name into) w).2.shelf.handles.get? into = some b.txn := by
  simp only [perform, Run.bind_apply, find_apply, hb, Run.change_apply, shelf_storeTxn,
    Slots.get?_put_self]

end Command

/-- Of a builder that has been made in any stage that can come about, at any later time:
its transaction is still the one that it was made around, and that is what its handle
and its retrieval give and what its calls bind their actions to. Every copy of an action
that it has collected is that action, wherever and whenever it is found, and evaluates
its steps against that transaction, when it is found or later; it evaluates nothing
exactly when the transaction has no owner. -/
theorem evaluations_against_own_txn {s : Stage S} (hs : s.Reachable) {c : ContextKey}
    (hc : s.HasContext c) (config : Config) {s₁ : Stage S} {b₁ : Builder S}
    (hb : (Builder.create config c s.engine).1.Becomes
      ⟨.builder (Builder.create config c s.engine).1 :: s.hands,
        (Builder.create config c s.engine).2, s.shelf⟩ s₁ b₁) :
    let t := (Builder.create config c s.engine).1.txn
    b₁.txn = t ∧
    (∀ (w : World S σ) (H : List (Hand S)) (name into : String) (steps : Meaning S σ),
      w.stage H = s₁ → w.shelf.builders.get? name = some b₁ →
        (Command.perform steps (.borrow name into) w).2.shelf.handles.get? into = some t ∧
        (Command.perform steps (.retrieve name into) w).2.shelf.handles.get? into = some t) ∧
    (∀ call b₂ e₂ a, b₁.call call s₁.engine = (.ok b₂, e₂) →
      (Deed.call call).added? b₁ s₁.engine = some a →
        a ∈ b₂.actions ∧ (call.recipe? t).map (·.make a.key) = some a ∧
          a.body.txn? = some t ∧ a.anchor = some t) ∧
    ∀ a ∈ b₁.actions, (a.body.txn? = some t ∧ a.anchor = some t) ∧
      ∀ s₂, Moves s₁ s₂ → ∀ a', s₂.Has a' → a'.sameBody a = true → a' = a ∧
        ∀ s₃, Moves s₂ s₃ → ∀ (w : World S σ) (H : List (Hand S)), w.stage H = s₃ →
          ∀ steps : Meaning S σ,
            (∀ v ∈ steps.evaluations a' w, v.txn = some t ∧ v.step ∈ a.body.steps) ∧
            (steps.evaluations a' w = [] ↔ ¬ s₃.Owned t) ∧
            (¬ s₃.Owned t → steps.invoke a' w = (.ok false, Meaning.orphan a' w)) := by
  intro t
  have hcreated : (⟨.builder (Builder.create config c s.engine).1 :: s.hands,
      (Builder.create config c s.engine).2, s.shelf⟩ : Stage S).Reachable :=
    hs.move (.openBuilder config hc)
  have hs₁ : s₁.Reachable := hcreated.moves hb.moves
  have hmem : b₁ ∈ s₁.builders :=
    hb.mem_builders ((Stage.builders_cons _).mem_iff.2 List.mem_cons_self)
  have htxn : b₁.txn = t := hb.txn_eq
  refine ⟨htxn, ?_, ?_, ?_⟩
  · rintro w H name into steps rfl hname
    rw [← htxn]
    exact ⟨Command.get?_handles_borrow hname steps into,
      Command.get?_handles_retrieve hname steps into⟩
  · intro call b₂ e₂ a hcall hadded
    obtain ⟨-, rfl⟩ := Builder.call_eq_ok hcall
    refine ⟨by simp [Builder.actions, hadded], ?_⟩
    obtain ⟨x, hx, rfl⟩ := Option.map_eq_some_iff.1 hadded
    rw [htxn] at hx
    constructor
    · rw [hx, Option.map_some, Engine.newAction, x.key_make]
    · cases call <;> cases hx <;> exact ⟨rfl, rfl⟩
  · intro a ha
    have hown : a.body.txn? = some t := by
      rw [← htxn]
      exact (hs₁.orderly hmem).own a ha
    have hhas : s₁.Has a := .inr (.inr (.inl (Stage.mem_collected hmem ha)))
    refine ⟨⟨hown, (hs₁.isMade_of_has hhas).anchor_eq.trans hown⟩, ?_⟩
    intro s₂ hs₂ a' ha' hsame
    have hcopy : a' = a := hs₁.eq_of_key_eq_later hs₂ hhas ha' (of_decide_eq_true hsame)
    refine ⟨hcopy, ?_⟩
    rintro s₃ hs₃ w H rfl steps
    rw [hcopy]
    have howned : w.engine.canRun a.body = true ↔ (w.stage H).Owned t := by
      have hbalanced := ((hs₁.moves hs₂).moves hs₃).balanced
      rw [Engine.canRun_of_txn? _ hown, Stage.owned_iff_mem_owners]
      exact hbalanced.isAlive_iff t
    refine ⟨?_, ?_, ?_⟩
    · intro v hv
      obtain ⟨hvtxn, hvstep⟩ := steps.of_mem_evaluations hv
      exact ⟨hvtxn.trans hown, hvstep⟩
    · rw [← howned, steps.canRun_iff_evaluations, not_not]
    · intro hgone
      rw [← howned, Bool.not_eq_true] at hgone
      exact steps.invoke_of_not_canRun hgone

def soleStep : Meaning Unit Unit := .ofPrograms (fun _ => .finish true) 1

/-- A world with a context and nothing else. -/
def contextAlone : World Unit Unit :=
  Command.performAll soleStep [.openContext "c" none] { memory := () }

/-- The same with a builder in a slot that has been started with one step. -/
def startedWithOne : World Unit Unit :=
  let (fresh, e) := Builder.create {} ⟨0⟩ contextAlone.engine
  let started := { fresh with
    sequence := some [(Recipe.sequential ⟨0⟩ ()).make ⟨0⟩], phase := .building }
  { contextAlone with
    engine := (fresh.startBuildWith () e).2
    shelf := { contextAlone.shelf with
      builders := contextAlone.shelf.builders.put "b" started } }

/-- The action of one transaction is the plan of another. -/
def crosswise : World Unit Unit :=
  Command.performAll soleStep
    [.build "b" .finalize, .retrieve "b" "h", .keepPlan "h" "p", .pickAction "p" 0 "a",
      .openTxn "c" "g", .install "g" ["a"]] startedWithOne

/-- In the plan of the other transaction the action runs against the one it was made
for, and no more when that one has been dropped. -/
theorem crosswise_evaluations_against_own_txn :
    let a : Action Unit := (Recipe.sequential ⟨0⟩ ()).make ⟨0⟩
    let dropped := Command.performAll soleStep [.discard .handle "h"] crosswise
    (contextAlone.stage []).Reachable ∧ (contextAlone.stage []).HasContext ⟨0⟩ ∧
      crosswise.engine.plan? ⟨1⟩ = some [a] ∧ (crosswise.stage []).Owned ⟨1⟩ ∧
      (soleStep.evaluations a crosswise ≠ [] ∧
        ∀ v ∈ soleStep.evaluations a crosswise, v.txn = some ⟨0⟩) ∧
      dropped.engine.plan? ⟨1⟩ = some [a] ∧ (dropped.stage []).Owned ⟨1⟩ ∧
      soleStep.evaluations a dropped = [] ∧
      soleStep.invoke a dropped = (.ok false, Meaning.orphan a dropped) := by
  intro a dropped
  have hreach : (contextAlone.stage []).Reachable := Command.reachable_performAll _ _ _ _
  have hcontext : (contextAlone.stage []).HasContext ⟨0⟩ := .inr (by decide)
  let b₁ : Builder Unit := ⟨⟨0⟩, some [a], .building, {}⟩
  have hplace : b₁ ∈ (startedWithOne.stage []).builders :=
    (Stage.mem_builders_iff _).2 (.inl ⟨"b", rfl⟩)
  have hcalled : (Builder.create {} ⟨0⟩ contextAlone.engine).1.Becomes
      ⟨[.builder (Builder.create {} ⟨0⟩ contextAlone.engine).1],
        (Builder.create {} ⟨0⟩ contextAlone.engine).2, contextAlone.shelf⟩
      ⟨[.builder b₁], startedWithOne.engine, contextAlone.shelf⟩ b₁ :=
    .call (.startBuildWith ()) .refl rfl
  have hput : Moves ⟨[.builder b₁], startedWithOne.engine, contextAlone.shelf⟩
      (startedWithOne.stage []) := .single (.putBuilder b₁ rfl)
  have hbecomes := hcalled.aside hput hplace
  obtain ⟨-, -, -, hcopies⟩ :=
    evaluations_against_own_txn (σ := Unit) hreach hcontext {} hbecomes
  obtain ⟨-, hcopies⟩ := hcopies a List.mem_cons_self
  have hmoves : Moves (startedWithOne.stage []) (crosswise.stage []) :=
    Command.moves_performAll (Meaning.tidy_ofPrograms _ _) _ _ []
  have hlater : Moves (crosswise.stage []) (dropped.stage []) :=
    Command.moves_performAll (Meaning.tidy_ofPrograms _ _) _ _ []
  have hhas : (crosswise.stage []).Has a :=
    .inl (crosswise.shelf.actions.mem_values_iff.2 ⟨"a", rfl⟩)
  obtain ⟨-, hevaluations⟩ := hcopies _ hmoves a hhas rfl
  obtain ⟨hagainst, hnone, -⟩ := hevaluations _ .refl crosswise [] rfl soleStep
  obtain ⟨-, hnone', hinvoke⟩ := hevaluations _ hlater dropped [] rfl soleStep
  have howned : (crosswise.stage []).Owned ⟨0⟩ := .handle "h" rfl
  have hgone : ¬ (dropped.stage []).Owned ⟨0⟩ := by
    rw [Stage.owned_iff_mem_owners]
    decide
  refine ⟨hreach, hcontext, rfl, .handle "g" rfl, ⟨?_, fun v hv => (hagainst v hv).1⟩, rfl,
    .handle "g" rfl, hnone'.2 hgone, hinvoke hgone⟩
  intro hnil
  exact hnone.1 hnil howned

end TxnAssembly
