import TxnAssembly.Proofs.Tracking

/-!
# A running plan is a snapshot

A play reads the plan of its transaction once, when it begins. Steps may replace the plan as
often as they like meanwhile: this shows whenever somebody looks at the transaction, and in
what the next play runs, but the running play goes through the plan that it has read.
-/
namespace TxnAssembly

variable {S σ : Type}

/-- All that can be read of the plan of a transaction tells of this one. -/
structure World.Shows (w : World S σ) (t : TxnKey) (plan : List (Action S)) : Prop where
  installed : w.engine.plan? t = some plan
  view : (w.engine.viewTxn t).plan = some (w.engine.viewPlan plan)
  hasPlan : (w.engine.viewTxn t).hasPlan = true
  actionCount : (w.engine.viewTxn t).actionCount = plan.length
  kept : ∀ into, Program.storePlanOf t into w = w.storePlan into plan

theorem World.Shows.of_plan? {w : World S σ} {t : TxnKey} {plan : List (Action S)}
    (h : w.engine.plan? t = some plan) : w.Shows t plan where
  installed := h
  view := by rw [Engine.viewTxn, h]; rfl
  hasPlan := by rw [Engine.viewTxn, h]; rfl
  actionCount := by simp [Engine.viewTxn, h, TxnView.actionCount, Engine.viewPlan]
  kept into := by rw [Program.storePlanOf, h]

namespace Meaning

variable {steps : Meaning S σ} {plan : List (Action S)} {w : World S σ}

/-- In a run through a plan no step has halted. -/
theorem RunsThrough.not_interrupts {results : List Bool} (h : steps.RunsThrough plan w results) :
    ∀ x ∈ steps.visits plan w, ∀ halt v, ¬ steps.Interrupts halt x.1.body x.2 v := by
  intro x hx halt v hv
  have hinvoke : steps.invoke x.1 x.2 = (.error halt, _) := invoke_eq_error_iff.2 ⟨v, hv, rfl⟩
  have hmem := List.mem_map_of_mem (f := fun x => (steps.invoke x.1 x.2).1) hx
  rw [h.2, hinvoke] at hmem
  obtain ⟨ok, -, hok⟩ := List.mem_map.1 hmem
  cases hok

/-- A play in which no step halts goes through the plan that was installed when it began. -/
theorem exists_play_eq_ok {t : TxnKey} (hplan : w.engine.plan? t = some plan)
    (hnone : ∀ x ∈ steps.visits plan (w.hold t), ∀ halt v,
      ¬ steps.Interrupts halt x.1.body x.2 v) :
    ∃ results, (steps.play t w).1 = .ok (some results) ∧ results.length = plan.length ∧
      steps.RunsThrough plan (w.hold t) results := by
  obtain ⟨results, hresults⟩ := exists_invokeAll_eq_ok hnone
  have hthrough := steps.runsThrough_of_invokeAll hresults
  refine ⟨results, ?_, hthrough.length_eq, hthrough⟩
  rw [play_of_plan? steps hplan, hresults]
  rfl

end Meaning

/-- Of a play of a transaction that somebody owns, in any world that can come about, whose
steps do not halt but may install whatever they like, on this transaction too. The play
invokes the actions of the plan that was installed when it began, once each and in order, and
returns one outcome for each. At every instruction of the steps, and of those nested in them,
all that can be read of the plan tells of the one installed last, and so it does when the play
is over: this is the plan that the next play goes through. -/
theorem play_of_snapshot (programs : S → Program S σ) (depth : Nat) {w : World S σ}
    {H : List (Hand S)} (hw : (w.stage H).Reachable) {t : TxnKey} (ht : (w.stage H).Owned t)
    {plan : List (Action S)} (hplan : w.engine.plan? t = some plan)
    (hnone : ∀ x ∈ (Meaning.ofPrograms programs depth).visits plan (w.hold t), ∀ halt v,
      ¬ (Meaning.ofPrograms programs depth).Interrupts halt x.1.body x.2 v) :
    let steps := Meaning.ofPrograms programs depth
    let notes := (Chronicler.ofPrograms programs depth).play t w
    let final := Note.current t plan notes
    let after := (steps.play t w).2
    (∃ results, (steps.play t w).1 = .ok (some results) ∧ results.length = plan.length ∧
      steps.RunsThrough plan (w.hold t) results) ∧
    (∀ (i : Nat) v, notes[i]? = some (.passed v) → v.Shows t (Note.current t plan (notes.take i))) ∧
    after.Shows t final ∧
    ((∀ x ∈ steps.visits final (after.hold t), ∀ halt v,
        ¬ steps.Interrupts halt x.1.body x.2 v) →
      ∃ results, (steps.play t after).1 = .ok (some results) ∧ results.length = final.length ∧
        steps.RunsThrough final (after.hold t) results) := by
  intro steps notes final after
  have hnotes : notes = (Chronicler.ofPrograms programs depth).invokeAll plan (w.hold t) := by
    simp only [notes, Chronicler.play, hplan]
  have htracks : Tracks (w.hold t) (steps.invokeAll plan (w.hold t)).2 notes := by
    rw [hnotes]
    exact (Chronicler.sound_noted programs depth).tracks_invokeAll plan (w.hold t)
  have hmade : ((w.hold t).stage []).Made t :=
    hw.made_of_mem_owners (((w.stage H).owned_iff_mem_owners t).1 ht)
  have hstart : (w.hold t).engine.plan? t = some plan := hplan
  have hfinal : after.engine.plan? t = some final := by
    have hend := htracks.plan t hmade
    rw [hstart, Note.latest_some] at hend
    simp only [after, Meaning.play_of_plan? steps hplan]
    exact hend
  refine ⟨Meaning.exists_play_eq_ok hplan hnone, fun i v hv => .of_plan? ?_, .of_plan? hfinal,
    Meaning.exists_play_eq_ok hfinal⟩
  rw [htracks.reads t hmade i v hv, hstart, Note.latest_some]

/-- A step that replaces the plan of its transaction, at first by an empty one and then by one
with the other step, and succeeds if it finds that plan installed. -/
def replaceAndLook (replaces : Bool) : Program Bool Nat :=
  if replaces then .remember (· + 1) fun n => .install (if n < 2 then [] else ["b"])
    (.look fun view => .finish (view.map TxnView.actionCount = some (n - 1)))
  else .finish false

/-- A transaction with both steps in its plan, the first one twice. -/
def replacing : World Bool Nat :=
  Command.performAll (.ofPrograms replaceAndLook 1)
    [.openContext "c" none, .openTxn "c" "h", .bindStep "h" true "a", .bindStep "h" false "b",
      .install "h" ["a", "a", "b"]]
    { memory := 0 }

theorem replacing_play_of_snapshot :
    let steps := Meaning.ofPrograms replaceAndLook 1
    let a : Action Bool := (Recipe.sequential ⟨0⟩ true).make ⟨0⟩
    let b : Action Bool := (Recipe.sequential ⟨0⟩ false).make ⟨1⟩
    let notes := (Chronicler.ofPrograms replaceAndLook 1).play ⟨0⟩ replacing
    let after := (steps.play ⟨0⟩ replacing).2
    (replacing.stage []).Reachable ∧ replacing.engine.plan? ⟨0⟩ = some [a, a, b] ∧
      notes.filterMap (Note.planOn? ⟨0⟩) = [[], [b]] ∧
      (∃ results, (steps.play ⟨0⟩ replacing).1 = .ok (some results) ∧
        results = [true, true, false] ∧ steps.RunsThrough [a, a, b] (replacing.hold ⟨0⟩) results) ∧
      after.Shows ⟨0⟩ [b] ∧
      ∃ results, (steps.play ⟨0⟩ after).1 = .ok (some results) ∧ results = [false] ∧
        steps.RunsThrough [b] (after.hold ⟨0⟩) results := by
  intro steps a b notes after
  have hreach : (replacing.stage []).Reachable := Command.reachable_performAll _ _ _ _
  have howned : (replacing.stage []).Owned ⟨0⟩ := .handle "h" rfl
  have hplan : replacing.engine.plan? ⟨0⟩ = some [a, a, b] := rfl
  have hinstalled : notes.filterMap (Note.planOn? ⟨0⟩) = [[], [b]] := rfl
  have hfirst : steps.RunsThrough [a, a, b] (replacing.hold ⟨0⟩) [true, true, false] :=
    steps.runsThrough_of_invokeAll rfl
  have hsecond : steps.RunsThrough [b] (after.hold ⟨0⟩) [false] :=
    steps.runsThrough_of_invokeAll rfl
  obtain ⟨⟨results, hplay, -, hthrough⟩, -, hshows, hnext⟩ :=
    play_of_snapshot replaceAndLook 1 hreach howned hplan hfirst.not_interrupts
  have hfinal : Note.current ⟨0⟩ [a, a, b] notes = [b] := by
    rw [Note.current, hinstalled]
    rfl
  rw [hfinal] at hshows hnext
  obtain ⟨more, hagain, -, hmore⟩ := hnext hsecond.not_interrupts
  refine ⟨hreach, hplan, hinstalled, ⟨results, hplay, ?_, hthrough⟩, hshows, more, hagain, ?_,
    hmore⟩
  · exact Option.some.inj (Except.ok.inj (hplay.symm.trans rfl))
  · exact Option.some.inj (Except.ok.inj (hagain.symm.trans rfl))

end TxnAssembly
