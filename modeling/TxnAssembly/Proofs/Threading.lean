import TxnAssembly.Proofs.Assembly
import TxnAssembly.Proofs.Blindness
import TxnAssembly.Proofs.Orphans

/-!
# What an assembled transaction means

To play a transaction that has been assembled by some calls is to evaluate the calls
one after the other, each in the world that the ones before have left. Here the calls
are evaluated directly, with no plan, no action and no reference held; the play agrees
with that in its outcomes, in the world it leaves and in the steps it evaluates.
-/
namespace TxnAssembly

variable {S σ α : Type}

namespace Run

variable {x y : Run S σ α} {w w' : World S σ}

/-- The run does not panic, whatever world it is in. -/
def Returns (x : Run S σ α) : Prop := ∀ w, ∃ a, (x w).1 = .ok a

theorem returns_pure (a : α) : Returns (pure a : Run S σ α) := fun _ => ⟨a, rfl⟩

theorem Returns.bind {β : Type} {f : α → Run S σ β} (hx : x.Returns) (hf : ∀ a, (f a).Returns) :
    (x >>= f).Returns := by
  intro w
  obtain ⟨a, ha⟩ := hx w
  obtain ⟨b, hb⟩ := hf a (x w).2
  rw [bind_of_ok ha]
  exact ⟨b, hb⟩

/-- What a run reports in the end makes no difference. -/
theorem Agree.reporting (h : x.Agree y w w') (event : α → Event) :
    Agree (do
      let a ← x
      Run.emit (event a)
      return a) y w w' := by
  obtain ⟨hresult, hworld⟩ := h
  rw [Agree, bind_apply, ← hresult, ← hworld]
  cases x w with
  | mk result u => cases result <;> exact ⟨rfl, rfl⟩

end Run

namespace Composition

/-- What a call stands for: its step, or its fallback where its primary step fails. -/
def evaluate (steps : Meaning S σ) (t : TxnKey) (x : Composition S) : Run S σ Bool :=
  match x with
  | append step => steps step (some t)
  | appendChoice primary fallback => do
    if ← steps primary (some t) then return true else steps fallback (some t)

/-- Evaluates calls one after the other. -/
def thread (steps : Meaning S σ) (t : TxnKey) (calls : List (Composition S)) :
    Run S σ (List Bool) :=
  match calls with
  | [] => return []
  | x :: rest => do
    let ok ← x.evaluate steps t
    let more ← thread steps t rest
    return ok :: more

/-- The steps that a call evaluates in a world. -/
def evaluations (steps : Meaning S σ) (t : TxnKey) (x : Composition S) (w : World S σ) :
    List (Evaluation S) :=
  match x with
  | append step => [⟨step, some t⟩]
  | appendChoice primary fallback =>
    ⟨primary, some t⟩ :: match (steps primary (some t) w).1 with
      | .ok false => [⟨fallback, some t⟩]
      | _ => []

/-- The steps that calls evaluate one after the other, up to a panic. -/
def threadEvaluations (steps : Meaning S σ) (t : TxnKey) (calls : List (Composition S))
    (w : World S σ) : List (Evaluation S) :=
  match calls with
  | [] => []
  | x :: rest =>
    x.evaluations steps t w ++ match x.evaluate steps t w with
      | (.ok _, w) => threadEvaluations steps t rest w
      | (.error _, _) => []

variable {steps : Meaning S σ} {t : TxnKey}

theorem tidy_evaluate (hsteps : steps.Tidy) (x : Composition S) : (x.evaluate steps t).Tidy := by
  cases x with
  | append step => exact hsteps step (some t)
  | appendChoice primary fallback =>
    refine (hsteps primary (some t)).bind fun ok => ?_
    split
    · exact Run.tidy_pure _
    · exact hsteps fallback (some t)

theorem tidy_thread (hsteps : steps.Tidy) (calls : List (Composition S)) :
    (thread steps t calls).Tidy := by
  induction calls with
  | nil => exact Run.tidy_pure _
  | cons x rest ih =>
    exact (tidy_evaluate hsteps x).bind fun _ => ih.bind fun _ => Run.tidy_pure _

/-- There is one outcome for each call. -/
theorem length_of_thread {calls : List (Composition S)} {w : World S σ} {results : List Bool}
    (h : (thread steps t calls w).1 = .ok results) : results.length = calls.length := by
  induction calls generalizing w results with
  | nil =>
    cases h
    rfl
  | cons x rest ih =>
    rw [thread] at h
    obtain ⟨ok, hok, h⟩ := Run.bind_eq_ok h
    obtain ⟨more, hmore, h⟩ := Run.bind_eq_ok h
    cases h
    rw [List.length_cons, List.length_cons, ih hmore]

theorem returns_evaluate {x : Composition S} (h : ∀ s ∈ x.steps, (steps s (some t)).Returns) :
    (x.evaluate steps t).Returns := by
  cases x with
  | append step => exact h step List.mem_cons_self
  | appendChoice primary fallback =>
    refine (h primary List.mem_cons_self).bind fun ok => ?_
    split
    · exact Run.returns_pure _
    · exact h fallback (List.mem_cons_of_mem _ List.mem_cons_self)

/-- If no step panics there is an outcome for each call. -/
theorem returns_thread {calls : List (Composition S)}
    (h : ∀ x ∈ calls, ∀ s ∈ x.steps, (steps s (some t)).Returns) :
    (thread steps t calls).Returns := by
  induction calls with
  | nil => exact Run.returns_pure _
  | cons x rest ih =>
    have hrest := ih fun y hy => h y (List.mem_cons_of_mem x hy)
    exact (returns_evaluate (h x List.mem_cons_self)).bind fun _ =>
      hrest.bind fun _ => Run.returns_pure _

theorem evaluate_traced (x : Composition S) (w : World S σ) (trace : List (Evaluation S)) :
    x.evaluate steps.traced t (w.traced trace) =
      ((x.evaluate steps t w).1,
        (x.evaluate steps t w).2.traced (trace ++ x.evaluations steps t w)) := by
  cases x with
  | append step => rfl
  | appendChoice primary fallback =>
    rw [evaluate, evaluate, evaluations, Run.bind_apply, Run.bind_apply, Meaning.traced_apply]
    cases hprimary : steps primary (some t) w with
    | mk result u =>
      cases result with
      | error halt => rfl
      | ok ok =>
        cases ok with
        | true => rfl
        | false =>
          show steps.traced fallback (some t) (u.traced _) = _
          rw [Meaning.traced_apply, List.append_assoc]
          rfl

/-- Traced steps evaluate in order what the calls evaluate, and nothing else. -/
theorem thread_traced (calls : List (Composition S)) (w : World S σ)
    (trace : List (Evaluation S)) :
    thread steps.traced t calls (w.traced trace) =
      ((thread steps t calls w).1,
        (thread steps t calls w).2.traced (trace ++ threadEvaluations steps t calls w)) := by
  induction calls generalizing w trace with
  | nil =>
    rw [threadEvaluations, List.append_nil]
    rfl
  | cons x rest ih =>
    rw [thread, thread, threadEvaluations, Run.bind_apply, Run.bind_apply, evaluate_traced]
    cases hx : x.evaluate steps t w with
    | mk result u =>
      cases result with
      | error halt => simp
      | ok ok =>
        dsimp only
        rw [Run.bind_apply, Run.bind_apply, ih, List.append_assoc]
        cases thread steps t rest u with
        | mk result v => cases result <;> rfl

end Composition

namespace World

variable {K K' : List (Hand S)} {w w' : World S σ}

/-- One more owner of a transaction that is owned already makes no difference. -/
theorem Alike.hold (h : Alike K K' w w') {t : TxnKey} (ht : t ∈ K.map Hand.txn) :
    Alike (.invocation t :: K) K' (w.hold t) w' := by
  have howned : t ∈ (w.stage K).owners := List.mem_append_right _ ht
  have halive := (h.balanced.isAlive_iff t).2 howned
  refine h.moves (.single (.upgrade halive)) .refl h.plain fun u => ?_
  rw [List.map_cons, List.mem_cons, ← h.hands]
  constructor
  · rintro (rfl | hu)
    · exact ht
    · exact hu
  · exact .inr

theorem Alike.isAlive (h : Alike K K' w w') {t : TxnKey} (ht : t ∈ K.map Hand.txn) :
    w.engine.isAlive t = true :=
  (h.balanced.isAlive_iff t).2 (List.mem_append_right _ ht)

/-- Two worlds that differ in nothing but the log and the order of the ledger. -/
structure SameState (w w' : World S σ) : Prop where
  plain : w.plain = w'.plain
  holds : w.engine.holds.Perm w'.engine.holds

/-- Alike worlds with the same hands have the same owners, as often. -/
theorem Alike.sameState (h : Alike K K w w') : w.SameState w' where
  plain := h.plain
  holds := by
    have howners : (w.stage K).owners = (w'.stage K).owners := by
      rw [Stage.owners, Stage.owners, stage, stage, shelf_of_plain h.plain]
    exact h.balanced.trans (howners ▸ h.balanced'.symm)

/-- So does one more event. -/
theorem Alike.emit (h : Alike K K' w w') (event : Event) : Alike K K' (w.emit event) w' :=
  h.moves (.single (.emit event)) .refl h.plain h.hands

end World

namespace Meaning

variable {steps : Meaning S σ} {K K' : List (Hand S)} {w w' : World S σ} {t : TxnKey}

theorem agree_onLive (h : World.Alike K K' w w') (ht : t ∈ K.map Hand.txn) (kind : ActionKind)
    {x y : Run S σ Bool} (hxy : x.Agree y (w.hold t) w') : (onLive t kind x).Agree y w w' := by
  rw [Run.Agree, onLive_of_isAlive (h.isAlive ht)]
  exact hxy

/-- To run the body of an action while its transaction is owned is to evaluate the call
that it has been made by. -/
theorem Lawful.agree_runBody (hsteps : steps.Lawful) (h : World.Alike K K' w w')
    (ht : t ∈ K.map Hand.txn) (x : Composition S) :
    (steps.runBody (x.body t)).Agree (x.evaluate steps t) w w' := by
  have hheld := h.hold ht
  cases x with
  | append step => exact agree_onLive h ht _ (hsteps.blind step (some t) _ _ _ _ hheld)
  | appendChoice primary fallback =>
    have hprimary := hsteps.blind primary (some t) _ _ _ _ hheld
    refine agree_onLive h ht _ (hprimary.bind fun ok _ => ?_)
    have hafter := hprimary.alike hheld (hsteps.tidy primary _ _) (hsteps.tidy primary _ _)
    cases ok with
    | true => exact Run.oblivious_pure _ _ _ hprimary.2
    | false => exact hsteps.blind fallback (some t) _ _ _ _ (hafter.emit .fallingBack)

theorem Lawful.agree_invoke (hsteps : steps.Lawful) (h : World.Alike K K' w w')
    (ht : t ∈ K.map Hand.txn) {a : Action S} {x : Composition S} (ha : a.body = x.body t) :
    (steps.invoke a).Agree (x.evaluate steps t) w w' := by
  rw [invoke, ha]
  exact (hsteps.agree_runBody h ht x).reporting _

/-- To invoke the actions of a plan is to evaluate the calls they have been made by. -/
theorem Lawful.agree_invokeAll (hsteps : steps.Lawful) (h : World.Alike K K' w w')
    (ht : t ∈ K.map Hand.txn) {plan : List (Action S)} {calls : List (Composition S)}
    (hplan : plan.map Action.body = calls.map (Composition.body · t)) :
    (steps.invokeAll plan).Agree (Composition.thread steps t calls) w w' := by
  induction plan generalizing calls w w' with
  | nil =>
    obtain rfl := List.map_eq_nil_iff.1 hplan.symm
    exact Run.oblivious_pure _ w w' h.plain
  | cons a plan ih =>
    cases calls with
    | nil => cases hplan
    | cons x calls =>
      rw [List.map_cons, List.map_cons, List.cons.injEq] at hplan
      obtain ⟨ha, hplan⟩ := hplan
      have hinvoke := hsteps.agree_invoke h ht ha
      have hafter := hinvoke.alike h (tidy_invoke hsteps.tidy a w)
        (Composition.tidy_evaluate hsteps.tidy x w')
      have hrest := ih hafter hplan
      exact hinvoke.bind fun _ _ => hrest.bind fun _ _ => Run.oblivious_pure _ _ _ hrest.2

/-- A play leads to where the calls lead, and has their outcomes. -/
theorem Lawful.play_eq (hsteps : steps.Lawful) {H : List (Hand S)} (hw : (w.stage H).Balanced)
    (ht : t ∈ H.map Hand.txn) {plan : List (Action S)} (hplan : w.engine.plan? t = some plan)
    {calls : List (Composition S)}
    (hbodies : plan.map Action.body = calls.map (Composition.body · t)) :
    (steps.play t w).1 = (Composition.thread steps t calls w).1.map some ∧
      (steps.play t w).2.SameState (Composition.thread steps t calls w).2 := by
  have hself : World.Alike H H w w := ⟨rfl, hw, hw, fun _ => Iff.rfl⟩
  have hheld := hself.hold ht
  have hagree := hsteps.agree_invokeAll hheld (List.mem_cons_of_mem _ ht) hbodies
  have hafter := hagree.alike hheld (tidy_invokeAll hsteps.tidy plan _)
    (Composition.tidy_thread hsteps.tidy calls w)
  have hended : World.Alike H H ((steps.invokeAll plan (w.hold t)).2.release t)
      (Composition.thread steps t calls w).2 :=
    hafter.moves (.single (.letGo (.invocation t))) .refl hafter.plain fun _ => Iff.rfl
  rw [steps.play_of_plan? hplan]
  exact ⟨congrArg (Except.map some) hagree.1, hended.sameState⟩

/-- No step can see the trace either. -/
theorem Lawful.traced (hsteps : steps.Lawful) : steps.traced.Lawful where
  tidy s t w H := hsteps.tidy s t w.untraced H
  blind s t H H' w w' h := by
    have huntraced : w.untraced.plain = w'.untraced.plain := congrArg World.untraced h.plain
    have htrace : w.memory.trace = w'.memory.trace :=
      congrArg (fun u => u.memory.trace) h.plain
    obtain ⟨hresult, hworld⟩ := hsteps.blind s t H H' w.untraced w'.untraced
      ⟨huntraced, h.balanced, h.balanced', h.hands⟩
    refine ⟨hresult, ?_⟩
    show (steps s t w.untraced).2.plain.traced (w.memory.trace ++ [⟨s, t⟩]) =
      (steps s t w'.untraced).2.plain.traced (w'.memory.trace ++ [⟨s, t⟩])
    rw [hworld, htrace]

end Meaning

/-- Assembling a transaction is never refused when the capacity can be allocated, and
it makes a plan with one action for each call. A play of it gives for each call the
outcome of evaluating the call in the world that those before have left. It evaluates
the same steps in the same order, and leaves the same world but for the log. -/
theorem play_assemble (programs : S → Program S σ) (depth : Nat) {w : World S σ}
    {H : List (Hand S)} (hw : (w.stage H).Reachable) {config : Config}
    (hconfig : config.isAllocatable = true) {c : ContextKey} (hc : (w.stage H).HasContext c)
    (calls : List (Composition S)) :
    let steps := Meaning.ofPrograms programs depth
    ∃ t e plan, Builder.assemble config c calls w.engine = (.ok t, e) ∧
      Builder.Assembled c calls w.engine t plan e ∧
      plan.map Action.kind = calls.map Composition.kind ∧
      let built : World S σ := { w with engine := e }
      (built.stage (.handle t :: H)).Reachable ∧
        (steps.play t built).1 = (Composition.thread steps t calls built).1.map some ∧
        (steps.play t built).2.SameState (Composition.thread steps t calls built).2 ∧
        (steps.traced.play t).evaluations built =
          Composition.threadEvaluations steps t calls built ∧
        (∀ results, (steps.play t built).1 = .ok (some results) →
          results.length = calls.length) ∧
        ((∀ x ∈ calls, ∀ s ∈ x.steps, (steps s (some t)).Returns) →
          ∃ results, (steps.play t built).1 = .ok (some results)) := by
  intro steps
  have hsteps : steps.Lawful := Meaning.lawful_ofPrograms programs depth
  obtain ⟨t, e, plan, hassemble, hassembled⟩ :=
    Builder.assemble_eq_ok hconfig c calls w.engine
  have hmoves := Builder.moves_assemble hc hassemble
  refine ⟨t, e, plan, hassemble, hassembled, hassembled.kinds, ?_⟩
  intro built
  have hbuilt : (built.stage (.handle t :: H)).Reachable := hw.moves hmoves
  have hmem : t ∈ (Hand.handle t :: H).map Hand.txn := List.mem_cons_self
  obtain ⟨hresult, hworld⟩ :=
    hsteps.play_eq hbuilt.balanced hmem hassembled.plan? hassembled.bodies
  obtain ⟨-, htraced⟩ := hsteps.traced.play_eq (w := built.traced []) hbuilt.balanced hmem
    hassembled.plan? hassembled.bodies
  have hevaluations : (steps.traced.play t).evaluations built =
      Composition.threadEvaluations steps t calls built := by
    have hthread : Composition.thread steps.traced t calls (built.traced []) = _ :=
      Composition.thread_traced calls built []
    rw [hthread] at htraced
    exact congrArg (fun u => u.memory.trace) htraced.plain
  have hlength : ∀ results, (steps.play t built).1 = .ok (some results) →
      results.length = calls.length := by
    intro results h
    rw [hresult] at h
    cases hthread : (Composition.thread steps t calls built).1 with
    | ok outcomes =>
      rw [hthread] at h
      cases h
      exact Composition.length_of_thread hthread
    | error halt =>
      rw [hthread] at h
      cases h
  have hreturned : (∀ x ∈ calls, ∀ s ∈ x.steps, (steps s (some t)).Returns) →
      ∃ results, (steps.play t built).1 = .ok (some results) := by
    intro hreturns
    obtain ⟨results, hresults⟩ := Composition.returns_thread hreturns built
    rw [hresult, hresults]
    exact ⟨results, rfl⟩
  exact ⟨hbuilt, hresult, hworld, hevaluations, hlength, hreturned⟩

/-- A step that notes its number and succeeds if an even number of them has been noted. -/
def noting (n : Nat) : Program Nat (List Nat) :=
  .remember (· ++ [n]) fun noted => .finish (noted.length % 2 == 0)

/-- A world with a context and nothing noted. -/
def blankNotes : World Nat (List Nat) :=
  Command.performAll (.ofPrograms noting 1) [.openContext "c" none] { memory := [] }

theorem ofPrograms_noting (n : Nat) (t : Option TxnKey) (w : World Nat (List Nat)) :
    Meaning.ofPrograms noting 1 n t w =
      (.ok ((w.memory.length + 1) % 2 == 0), { w with memory := w.memory ++ [n] }) := by
  simp [Meaning.ofPrograms, noting, Program.run, Run.bind_apply]

/-- The primary step of the first choice succeeds and that of the second fails. -/
theorem noting_play_assemble :
    let steps := Meaning.ofPrograms noting 1
    let calls := [.append 1, .appendChoice 2 3, .appendChoice 4 5]
    (blankNotes.stage []).Reachable ∧ (blankNotes.stage []).HasContext ⟨0⟩ ∧
      (∀ n t, (steps n t).Returns) ∧
      ∃ t e, Builder.assemble {} ⟨0⟩ calls blankNotes.engine = (.ok t, e) ∧
        let built := { blankNotes with engine := e }
        (∃ results, (steps.play t built).1 = .ok (some results)) ∧
          (steps.play t built).1 = .ok (some [false, true, true]) ∧
          (steps.play t built).2.memory = [1, 2, 4, 5] ∧
          (steps.traced.play t).evaluations built =
            [⟨1, some t⟩, ⟨2, some t⟩, ⟨4, some t⟩, ⟨5, some t⟩] := by
  intro steps calls
  have hreach : (blankNotes.stage []).Reachable := Command.reachable_performAll _ _ _ _
  have hcontext : (blankNotes.stage []).HasContext ⟨0⟩ := .inr (by decide)
  have hconfig : ({} : Config).isAllocatable = true := by decide
  have hreturns : ∀ n t, (steps n t).Returns := fun n t w => ⟨_, rfl⟩
  obtain ⟨t, e, plan, hassemble, -, -, -, hresult, hworld, hevaluations, -, hreturned⟩ :=
    play_assemble noting 1 hreach hconfig hcontext calls
  have hmemory : blankNotes.memory = [] := rfl
  have hthread : Composition.thread steps t calls { blankNotes with engine := e } =
      (.ok [false, true, true], { blankNotes with engine := e, memory := [1, 2, 4, 5] }) := by
    simp [steps, calls, Composition.thread, Composition.evaluate, Run.bind_apply,
      ofPrograms_noting, hmemory]
  have hsteps : Composition.threadEvaluations steps t calls { blankNotes with engine := e } =
      [⟨1, some t⟩, ⟨2, some t⟩, ⟨4, some t⟩, ⟨5, some t⟩] := by
    simp [steps, calls, Composition.threadEvaluations, Composition.evaluations,
      Composition.evaluate, Run.bind_apply, ofPrograms_noting, hmemory]
  rw [hthread] at hresult hworld
  refine ⟨hreach, hcontext, hreturns, t, e, hassemble, ?_, hresult, ?_, ?_⟩
  · exact hreturned fun x _ s _ => hreturns s _
  · exact congrArg World.memory hworld.plain
  · exact hevaluations.trans hsteps

end TxnAssembly
