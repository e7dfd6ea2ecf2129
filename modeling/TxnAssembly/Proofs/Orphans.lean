import TxnAssembly.Proofs.Evaluation

/-!
# Losing a transaction in the middle of a run

Whether its transaction is alive is asked for each action anew, and steps of earlier
actions may have given the last reference up by then. From that point on all actions
of the transaction are skipped, and those before it are not. A play keeps a reference
of its own, so it skips none of the transaction that is played.
-/
namespace TxnAssembly

variable {S σ : Type}

namespace Meaning

variable (steps : Meaning S σ)

/-- The actions that are invoked when a plan is run through, each with the world in
which it is invoked. A panic ends the run. -/
def visits (plan : List (Action S)) (w : World S σ) : List (Action S × World S σ) :=
  match plan with
  | [] => []
  | a :: rest =>
    (a, w) :: match steps.invoke a w with
      | (.ok _, w) => visits rest w
      | (.error _, _) => []

/-- Every action of a plan is invoked, with the given outcomes. -/
def RunsThrough (plan : List (Action S)) (w : World S σ) (results : List Bool) : Prop :=
  (steps.visits plan w).map Prod.fst = plan ∧
    (steps.visits plan w).map (fun v => (steps.invoke v.1 v.2).1) = results.map .ok

/-- A run that returns has gone through the whole plan. -/
theorem runsThrough_of_invokeAll {plan : List (Action S)} {w : World S σ} {results : List Bool}
    (h : (steps.invokeAll plan w).1 = .ok results) : steps.RunsThrough plan w results := by
  induction plan generalizing w results with
  | nil =>
    rw [← Except.ok.inj h]
    exact ⟨rfl, rfl⟩
  | cons a rest ih =>
    rw [invokeAll] at h
    obtain ⟨ok, hok, h⟩ := Run.bind_eq_ok h
    obtain ⟨more, hmore, h⟩ := Run.bind_eq_ok h
    cases h
    obtain ⟨hactions, hresults⟩ := ih hmore
    have hinvoke : steps.invoke a w = (.ok ok, (steps.invoke a w).2) := Prod.ext hok rfl
    rw [RunsThrough, visits, hinvoke]
    constructor
    · rw [List.map_cons, hactions]
    · rw [List.map_cons, List.map_cons, hresults, hok]

variable {steps}

/-- Each visit comes about by moves from the start, and from every visit before. -/
theorem moves_visits (hsteps : steps.Tidy) (plan : List (Action S)) (w : World S σ)
    (H : List (Hand S)) :
    (∀ v ∈ steps.visits plan w, Moves (w.stage H) (v.2.stage H)) ∧
      (steps.visits plan w).Pairwise fun u v => Moves (u.2.stage H) (v.2.stage H) := by
  induction plan generalizing w with
  | nil => exact ⟨fun v hv => absurd hv List.not_mem_nil, List.Pairwise.nil⟩
  | cons a rest ih =>
    have hinvoke := tidy_invoke hsteps a w H
    rw [visits]
    cases hfirst : steps.invoke a w with
    | mk result w' =>
      rw [hfirst] at hinvoke
      cases result with
      | error halt => simp [Relation.ReflTransGen.refl]
      | ok ok =>
        obtain ⟨hstart, hpairs⟩ := ih w'
        have hlater : ∀ v ∈ steps.visits rest w', Moves (w.stage H) (v.2.stage H) :=
          fun v hv => hinvoke.trans (hstart v hv)
        refine ⟨fun v hv => ?_, List.pairwise_cons.2 ⟨hlater, hpairs⟩⟩
        obtain rfl | hv := List.mem_cons.1 hv
        · exact .refl
        · exact hlater v hv

/-- A play is a run through the plan that was installed when it began, with one
owner more. -/
theorem play_of_plan? (steps : Meaning S σ) {t : TxnKey} {w : World S σ}
    {plan : List (Action S)} (h : w.engine.plan? t = some plan) :
    steps.play t w =
      ((steps.invokeAll plan (w.hold t)).1.map some,
        (steps.invokeAll plan (w.hold t)).2.release t) := by
  have hplan : (w.hold t).engine.plan? t = some plan := h
  rw [play, Run.holding_apply, Run.bind_apply, Run.inspect_apply]
  dsimp only
  rw [hplan]
  dsimp only
  rw [Run.bind_apply]
  cases hrun : steps.invokeAll plan (w.hold t) with
  | mk result w' => cases result <;> rfl

end Meaning

end TxnAssembly
