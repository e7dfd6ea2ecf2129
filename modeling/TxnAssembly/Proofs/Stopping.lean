import TxnAssembly.Proofs.Snapshot

/-!
# Runs that stop at the first failure

A run can go through a whole plan whatever the outcomes are, or stop at the first action that
fails. Steps change the world for those after them, so it is not clear beforehand that the two
meet the same outcomes. They do: the run that stops is a run through the first actions of the
plan, with the failing one as the last, and the other run goes on from where it has stopped.
-/
namespace TxnAssembly

variable {S σ : Type}

/-- How many actions are invoked by a run that stops at the first failure, given the outcomes of
all: that action is still invoked, and if none fails there is no bound. -/
def upToFailure (results : List Bool) : Nat := results.findIdx (!·) + 1

@[simp] theorem upToFailure_true (results : List Bool) :
    upToFailure (true :: results) = upToFailure results + 1 := by
  simp [upToFailure, List.findIdx_cons]

@[simp] theorem upToFailure_false (results : List Bool) : upToFailure (false :: results) = 1 := by
  simp [upToFailure, List.findIdx_cons]

theorem length_lt_upToFailure {results : List Bool} (h : results.all id = true) :
    results.length < upToFailure results := by
  induction results with
  | nil => simp [upToFailure]
  | cons ok rest ih =>
    simp only [List.all_cons, Bool.and_eq_true, id_eq] at h
    obtain ⟨rfl, hrest⟩ := h
    have := ih hrest
    simp only [List.length_cons, upToFailure_true]
    omega

theorem World.release_hold (w : World S σ) (t : TxnKey) : (w.hold t).release t = w := by
  simp [hold, release, onEngine, Engine.hold, Engine.release]

namespace Meaning

/-- The actions that are invoked by a run that stops at the first failure, each with the world
in which it is invoked. A panic ends this run too. -/
def visitsUntilFailure (steps : Meaning S σ) (plan : List (Action S)) (w : World S σ) :
    List (Action S × World S σ) :=
  match plan with
  | [] => []
  | a :: rest =>
    (a, w) :: match steps.invoke a w with
      | (.ok true, w) => visitsUntilFailure steps rest w
      | _ => []

/-- Whatever comes of it, such a run invokes no more than a run through the whole plan. -/
theorem visitsUntilFailure_prefix (steps : Meaning S σ) (plan : List (Action S))
    (w : World S σ) : steps.visitsUntilFailure plan w <+: steps.visits plan w := by
  induction plan generalizing w with
  | nil => exact List.prefix_rfl
  | cons a rest ih =>
    rw [visitsUntilFailure, visits]
    refine List.cons_prefix_cons.2 ⟨rfl, ?_⟩
    rcases steps.invoke a w with ⟨halt | ok, u⟩
    · exact List.prefix_rfl
    · cases ok with
      | false => exact List.nil_prefix
      | true => exact ih u

/-- A run that stops at the first failure, against the outcomes that a run through the whole plan
has from the same world. The first ends in `last` and the second, which goes on from there, in
`final`. -/
structure StopsWithin (steps : Meaning S σ) (plan : List (Action S)) (w : World S σ)
    (results : List Bool) (last final : World S σ) : Prop where
  outcome : steps.invokeUntilFailure plan w = (.ok (results.all id), last)
  first : steps.invokeAll (plan.take (upToFailure results)) w =
    (.ok (results.take (upToFailure results)), last)
  rest : steps.invokeAll (plan.drop (upToFailure results)) last =
    (.ok (results.drop (upToFailure results)), final)
  visits : steps.visitsUntilFailure plan w = (steps.visits plan w).take (upToFailure results)

variable {steps : Meaning S σ} {plan rest : List (Action S)} {a : Action S}
  {w u v final : World S σ} {results : List Bool} {ok : Bool} {t : TxnKey}

theorem invokeAll_cons_of_ok (ha : steps.invoke a w = (.ok ok, u))
    (hrest : steps.invokeAll rest u = (.ok results, v)) :
    steps.invokeAll (a :: rest) w = (.ok (ok :: results), v) := by
  rw [invokeAll, Run.bind_apply, ha]
  dsimp only
  rw [Run.bind_apply, hrest]
  rfl

/-- An action that fails is the last one. -/
theorem StopsWithin.fail (ha : steps.invoke a w = (.ok false, u))
    (hrest : steps.invokeAll rest u = (.ok results, final)) :
    steps.StopsWithin (a :: rest) w (false :: results) u final where
  outcome := by
    rw [invokeUntilFailure, Run.bind_apply, ha]
    rfl
  first := by
    rw [upToFailure_false]
    exact invokeAll_cons_of_ok ha rfl
  rest := by
    rw [upToFailure_false]
    exact hrest
  visits := by
    rw [upToFailure_false, visitsUntilFailure, Meaning.visits, ha]
    rfl

/-- After one that succeeds the run goes on. -/
theorem StopsWithin.pass (ha : steps.invoke a w = (.ok true, u))
    (h : steps.StopsWithin rest u results v final) :
    steps.StopsWithin (a :: rest) w (true :: results) v final where
  outcome := by
    rw [invokeUntilFailure, Run.bind_apply, ha]
    exact h.outcome
  first := by
    rw [upToFailure_true, List.take_succ_cons, List.take_succ_cons]
    exact invokeAll_cons_of_ok ha h.first
  rest := by
    rw [upToFailure_true, List.drop_succ_cons, List.drop_succ_cons]
    exact h.rest
  visits := by
    rw [upToFailure_true, visitsUntilFailure, Meaning.visits, ha, List.take_succ_cons]
    exact congrArg (List.cons (a, w)) h.visits

theorem exists_stopsWithin (h : steps.invokeAll plan w = (.ok results, final)) :
    ∃ last, steps.StopsWithin plan w results last final := by
  induction plan generalizing w results with
  | nil =>
    cases h
    exact ⟨final, rfl, rfl, rfl, rfl⟩
  | cons a rest ih =>
    obtain ⟨ok, u, more, ha, hrest, rfl⟩ := invokeAll_cons_eq_ok h
    cases ok with
    | false => exact ⟨u, .fail ha hrest⟩
    | true =>
      obtain ⟨last, hlast⟩ := ih hrest
      exact ⟨last, .pass ha hlast⟩

/-- If no action fails the two runs are one. -/
theorem StopsWithin.eq_final {last : World S σ} (h : steps.StopsWithin plan w results last final)
    (hlength : results.length = plan.length) (hall : results.all id = true) : last = final := by
  have hrest := h.rest
  have hbound := length_lt_upToFailure hall
  rw [List.drop_eq_nil_of_le (by omega : plan.length ≤ upToFailure results)] at hrest
  exact congrArg Prod.snd hrest

/-- The transaction is owned while its plan is run, as it is when it is played. -/
theorem runUntilFailure_of_plan? (steps : Meaning S σ) (h : w.engine.plan? t = some plan) :
    steps.runUntilFailure t w = ((steps.invokeUntilFailure plan (w.hold t)).1,
      (steps.invokeUntilFailure plan (w.hold t)).2.release t) := by
  have hplan : (w.hold t).engine.plan? t = some plan := h
  rw [runUntilFailure, Run.holding_apply, Run.bind_apply, Run.inspect_apply]
  dsimp only
  rw [hplan]

section NoPlan

variable (steps : Meaning S σ) (h : w.engine.plan? t = none)
include h

theorem play_of_no_plan : steps.play t w = (.ok none, w) := by
  have hheld : (w.hold t).engine.plan? t = none := h
  rw [play, Run.holding_apply, Run.bind_apply, Run.inspect_apply]
  simp only [hheld, Run.pure_apply, World.release_hold]

theorem runUntilFailure_of_no_plan : steps.runUntilFailure t w = (.ok false, w) := by
  have hheld : (w.hold t).engine.plan? t = none := h
  rw [runUntilFailure, Run.holding_apply, Run.bind_apply, Run.inspect_apply]
  simp only [hheld, Run.pure_apply, World.release_hold]

end NoPlan

section Recording

variable {ε : Type} (steps : Meaning S σ) (entry : S → Option TxnKey → World S σ → ε)

theorem traces_invokeUntilFailure (plan : List (Action S)) :
    ((steps.recording entry).invokeUntilFailure plan).Traces (steps.invokeUntilFailure plan) := by
  induction plan with
  | nil => exact Run.traces_pure true
  | cons a rest ih =>
    refine (steps.traces_invoke entry a).bind fun ok => ?_
    cases ok with
    | true => exact ih
    | false => exact Run.traces_pure false

/-- A run that stops records what the invocations on the way record. -/
theorem recorded_invokeUntilFailure (plan : List (Action S)) (w : World S σ) :
    ((steps.recording entry).invokeUntilFailure plan).recorded w =
      (steps.visitsUntilFailure plan w).flatMap fun x =>
        ((steps.recording entry).invoke x.1).recorded x.2 := by
  induction plan generalizing w with
  | nil => rfl
  | cons a rest ih =>
    have hafter (ok : Bool) :
        (if ok then (steps.recording entry).invokeUntilFailure rest
          else pure false : Run _ _ _).Traces
          (if ok then steps.invokeUntilFailure rest else pure false) := by
      cases ok with
      | true => exact steps.traces_invokeUntilFailure entry rest
      | false => exact Run.traces_pure false
    have hcons := (steps.traces_invoke entry a).recorded_bind hafter w
    rw [visitsUntilFailure, List.flatMap_cons]
    refine hcons.trans (congrArg (((steps.recording entry).invoke a).recorded w ++ ·) ?_)
    cases steps.invoke a w with
    | mk result u =>
      cases result with
      | error halt => rfl
      | ok ok =>
        cases ok with
        | false => rfl
        | true => exact ih u

theorem recorded_runUntilFailure (h : w.engine.plan? t = some plan) :
    ((steps.recording entry).runUntilFailure t).recorded w =
      (steps.visitsUntilFailure plan (w.hold t)).flatMap fun x =>
        ((steps.recording entry).invoke x.1).recorded x.2 := by
  have hplan : (w.traced ([] : List ε)).engine.plan? t = some plan := h
  rw [← recorded_invokeUntilFailure, Run.recorded, runUntilFailure_of_plan? _ hplan]
  rfl

end Recording

end Meaning

/-- Of a transaction that is owned meanwhile, its plan is run up to the first failure and is
played, from the same world. Without a plan the one fails and the other gives no outcomes; with
an empty one both succeed and do nothing. If no step halts, whatever else the steps do, the run
succeeds exactly if each outcome of the play does. It invokes the actions up to the first that
fails in the play, in the worlds in which the play invokes them, with the same outcomes and
evaluating the same steps, and ends where the play goes on with the rest of the plan. So after
a success both have led to the same world, events included. -/
theorem runUntilFailure_of_play (steps : Meaning S σ) (t : TxnKey) (w : World S σ) :
    (w.engine.plan? t = none →
      steps.play t w = (.ok none, w) ∧ steps.runUntilFailure t w = (.ok false, w)) ∧
    (w.engine.plan? t = some [] →
      steps.play t w = (.ok (some []), w) ∧ steps.runUntilFailure t w = (.ok true, w)) ∧
    ∀ plan, w.engine.plan? t = some plan →
      (∀ x ∈ steps.visits plan (w.hold t), ∀ halt v, ¬ steps.Interrupts halt x.1.body x.2 v) →
      ∃ results last final,
        (steps.play t w = (.ok (some results), final.release t) ∧
          steps.RunsThrough plan (w.hold t) results) ∧
        (steps.runUntilFailure t w = (.ok (results.all id), last.release t) ∧
          steps.StopsWithin plan (w.hold t) results last final) ∧
        ((steps.visitsUntilFailure plan (w.hold t)).map Prod.fst =
            plan.take (upToFailure results) ∧
          (steps.visitsUntilFailure plan (w.hold t)).map (fun x => (steps.invoke x.1 x.2).1) =
            (results.take (upToFailure results)).map .ok ∧
          (steps.traced.runUntilFailure t).evaluations w =
            (steps.visitsUntilFailure plan (w.hold t)).flatMap
              fun x => steps.evaluations x.1 x.2) ∧
        (results.all id = true →
          steps.visitsUntilFailure plan (w.hold t) = steps.visits plan (w.hold t) ∧
            (steps.runUntilFailure t w).2 = (steps.play t w).2) := by
  refine ⟨fun hplan => ?_, fun hplan => ?_, fun plan hplan hnone => ?_⟩
  · exact ⟨steps.play_of_no_plan hplan, steps.runUntilFailure_of_no_plan hplan⟩
  · rw [steps.play_of_plan? hplan, steps.runUntilFailure_of_plan? hplan]
    constructor
    · exact Prod.ext rfl (w.release_hold t)
    · exact Prod.ext rfl (w.release_hold t)
  · obtain ⟨results, hresults⟩ := Meaning.exists_invokeAll_eq_ok hnone
    have hrun : steps.invokeAll plan (w.hold t) =
        (.ok results, (steps.invokeAll plan (w.hold t)).2) := Prod.ext hresults rfl
    obtain ⟨last, hstops⟩ := Meaning.exists_stopsWithin hrun
    have hthrough := steps.runsThrough_of_invokeAll hresults
    have hplay := steps.play_of_plan? hplan
    have hstopped := steps.runUntilFailure_of_plan? hplan
    rw [hresults] at hplay
    rw [hstops.outcome] at hstopped
    refine ⟨results, last, _, ⟨hplay, hthrough⟩, ⟨hstopped, hstops⟩, ⟨?_, ?_, ?_⟩, ?_⟩
    · rw [hstops.visits, List.map_take, hthrough.1]
    · rw [hstops.visits, List.map_take, hthrough.2, List.map_take]
    · exact steps.recorded_runUntilFailure _ hplan
    · intro hall
      have hbound := length_lt_upToFailure hall
      have hlength : (steps.visits plan (w.hold t)).length = results.length := by
        rw [hthrough.length_eq, ← List.length_map Prod.fst, hthrough.1]
      constructor
      · rw [hstops.visits]
        exact List.take_of_length_le (by omega)
      · rw [hstopped, hplay, hstops.eq_final hthrough.length_eq hall]

/-- A step that succeeds if no more than so many have been evaluated, itself included. -/
def whileFresh (limit : Nat) : Program Nat Nat := .remember (· + 1) fun n => .finish (n ≤ limit)

/-- A transaction with some of four actions in its plan. The second is a choice whose primary
step always fails. -/
def tiring (plan : List String) : World Nat Nat :=
  Command.performAll (.ofPrograms whileFresh 1)
    [.openContext "c" none, .openTxn "c" "h", .bindStep "h" 1 "a", .bindChoice "h" 0 3 "b",
      .bindStep "h" 3 "d", .bindStep "h" 9 "e", .install "h" plan]
    { memory := 0 }

/-- The fallback saves the second action. With all four in the plan the third comes too late,
and the run stops there while the play goes on; without the third nothing fails. -/
theorem tiring_runUntilFailure :
    let steps := Meaning.ofPrograms whileFresh 1
    let a : Action Nat := (Recipe.sequential ⟨0⟩ 1).make ⟨0⟩
    let b : Action Nat := (Recipe.choice ⟨0⟩ 0 3).make ⟨1⟩
    let d : Action Nat := (Recipe.sequential ⟨0⟩ 3).make ⟨2⟩
    let e : Action Nat := (Recipe.sequential ⟨0⟩ 9).make ⟨3⟩
    let four := tiring ["a", "b", "d", "e"]
    let three := tiring ["a", "b", "e"]
    (four.engine.plan? ⟨0⟩ = some [a, b, d, e] ∧ three.engine.plan? ⟨0⟩ = some [a, b, e]) ∧
      (∃ results last final, results = [true, true, false, true] ∧
        steps.RunsThrough [a, b, d, e] (four.hold ⟨0⟩) results ∧
        steps.StopsWithin [a, b, d, e] (four.hold ⟨0⟩) results last final ∧
        (steps.visitsUntilFailure [a, b, d, e] (four.hold ⟨0⟩)).map Prod.fst = [a, b, d] ∧
        (steps.runUntilFailure ⟨0⟩ four).1 = .ok false ∧
        last.memory = 4 ∧ final.memory = 5) ∧
      (steps.runUntilFailure ⟨0⟩ three).1 = .ok true ∧
      (steps.runUntilFailure ⟨0⟩ three).2 = (steps.play ⟨0⟩ three).2 := by
  intro steps a b d e four three
  have hfour : steps.RunsThrough [a, b, d, e] (four.hold ⟨0⟩) [true, true, false, true] :=
    steps.runsThrough_of_invokeAll rfl
  have hthree : steps.RunsThrough [a, b, e] (three.hold ⟨0⟩) [true, true, true] :=
    steps.runsThrough_of_invokeAll rfl
  obtain ⟨results, last, final, ⟨hplay, hthrough⟩, ⟨hstopped, hstops⟩, ⟨hactions, -, -⟩, -⟩ :=
    (runUntilFailure_of_play steps ⟨0⟩ four).2.2 _ rfl hfour.not_interrupts
  obtain ⟨more, last', final', ⟨hplay', -⟩, ⟨hstopped', -⟩, -, hsame⟩ :=
    (runUntilFailure_of_play steps ⟨0⟩ three).2.2 _ rfl hthree.not_interrupts
  obtain rfl : results = [true, true, false, true] :=
    Option.some.inj (Except.ok.inj ((congrArg Prod.fst hplay).symm.trans rfl))
  obtain rfl : more = [true, true, true] :=
    Option.some.inj (Except.ok.inj ((congrArg Prod.fst hplay').symm.trans rfl))
  have hlast : last.memory = (steps.runUntilFailure ⟨0⟩ four).2.memory := by
    rw [hstopped]
    rfl
  have hfinal : final.memory = (steps.play ⟨0⟩ four).2.memory := by
    rw [hplay]
    rfl
  exact ⟨⟨rfl, rfl⟩, ⟨_, last, final, rfl, hthrough, hstops, hactions,
    congrArg Prod.fst hstopped, hlast, hfinal⟩, congrArg Prod.fst hstopped', (hsame rfl).2⟩

end TxnAssembly
