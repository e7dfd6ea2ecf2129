import TxnAssembly.Proofs.Orphans

/-!
# Plays that are interrupted

A step can panic in the middle of a play: as the step of an action, as the primary step
of a choice or as its fallback. The panic ends the invocation and the play, and on its way
out each of them gives its reference back. Nothing else happens after the panic, so the
play has been cut off at that point, and the transaction can be played again.
-/
namespace TxnAssembly

variable {S σ ε α β : Type}

/-- A sequence of runs halts where one of them does. -/
theorem Run.bind_eq_error_iff {x : Run S σ α} {f : α → Run S σ β} {w w' : World S σ}
    {halt : Halt} : (x >>= f) w = (.error halt, w') ↔
      x w = (.error halt, w') ∨ ∃ a u, x w = (.ok a, u) ∧ f a u = (.error halt, w') := by
  rw [bind_apply]
  cases x w with
  | mk result u =>
    cases result with
    | error why => simp
    | ok a =>
      constructor
      · intro h
        exact .inr ⟨a, u, rfl, h⟩
      · rintro (h | ⟨a', u', h, hf⟩)
        · cases h
        · cases h
          exact hf

theorem Run.eq_ok_of_bind {x : Run S σ α} {f : α → Run S σ β} {w w' : World S σ} {b : β}
    (h : (x >>= f) w = (.ok b, w')) : ∃ a u, x w = (.ok a, u) ∧ f a u = (.ok b, w') := by
  obtain ⟨a, hx, -⟩ := bind_eq_ok (congrArg Prod.fst h)
  exact ⟨a, (x w).2, Prod.ext hx rfl, (bind_of_ok hx f).symm.trans h⟩

/-- To give references back changes nothing but who owns. -/
theorem World.release?_eq (w : World S σ) (t? : Option TxnKey) :
    w.release? t? =
      { w with engine := { w.engine with holds := (w.release? t?).engine.holds } } := by
  cases t? <;> rfl

theorem World.plan?_release? (w : World S σ) (t? : Option TxnKey) (t : TxnKey) :
    (w.release? t?).engine.plan? t = w.engine.plan? t := by
  cases t? <;> rfl

theorem Run.Tidy.moves_of_eq {x : Run S σ α} (hx : x.Tidy) {w w' : World S σ}
    {result : Except Halt α} (h : x w = (result, w')) (H : List (Hand S)) :
    Moves (w.stage H) (w'.stage H) := by
  have hmoves := hx w H
  rw [h] at hmoves
  exact hmoves

namespace Meaning

variable (steps : Meaning S σ)

/-- A step of a body halts. The body is run in the first world, and the step stops in the
second, where the reference that the invocation has taken is still held. -/
inductive Interrupts (halt : Halt) : Body S → World S σ → World S σ → Prop where
  | free {s : S} {u v : World S σ} (h : steps s none u = (.error halt, v)) :
    Interrupts halt (.free s) u v
  | step {t : TxnKey} {s : S} {u v : World S σ} (halive : u.engine.isAlive t = true)
      (h : steps s (some t) (u.hold t) = (.error halt, v)) : Interrupts halt (.step t s) u v
  | primary {t : TxnKey} {primary fallback : S} {u v : World S σ}
      (halive : u.engine.isAlive t = true)
      (h : steps primary (some t) (u.hold t) = (.error halt, v)) :
    Interrupts halt (.choice t primary fallback) u v
  | fallback {t : TxnKey} {primary fallback : S} {u u' v : World S σ}
      (halive : u.engine.isAlive t = true)
      (hprimary : steps primary (some t) (u.hold t) = (.ok false, u'))
      (h : steps fallback (some t) (u'.emit .fallingBack) = (.error halt, v)) :
    Interrupts halt (.choice t primary fallback) u v

variable {steps} {halt : Halt} {u u' v w w' : World S σ}

theorem onLive_eq_error_iff {t : TxnKey} {kind : ActionKind} {x : Run S σ Bool} :
    onLive t kind x u = (.error halt, u') ↔ u.engine.isAlive t = true ∧
      ∃ v, x (u.hold t) = (.error halt, v) ∧ u' = v.release t := by
  by_cases halive : u.engine.isAlive t = true
  · rw [onLive_of_isAlive halive, Run.holding_apply, and_iff_right halive]
    constructor
    · intro h
      obtain ⟨hresult, hworld⟩ := Prod.ext_iff.1 h
      exact ⟨(x (u.hold t)).2, Prod.ext hresult rfl, hworld.symm⟩
    · rintro ⟨v, hx, rfl⟩
      rw [hx]
  · simp [onLive, Run.bind_apply, halive]

/-- What runs the steps of a choice halts in its primary step or, if that fails, in its
fallback. -/
theorem choice_eq_error_iff {t : TxnKey} {primary fallback : S} :
    (do
      if ← steps primary (some t) then return true
      Run.emit .fallingBack
      steps fallback (some t) : Run S σ Bool) u = (.error halt, v) ↔
      steps primary (some t) u = (.error halt, v) ∨
        ∃ u', steps primary (some t) u = (.ok false, u') ∧
          steps fallback (some t) (u'.emit .fallingBack) = (.error halt, v) := by
  rw [Run.bind_eq_error_iff]
  refine or_congr_right ⟨?_, ?_⟩
  · rintro ⟨ok, u', hprimary, h⟩
    cases ok with
    | true => cases h
    | false => exact ⟨u', hprimary, h⟩
  · rintro ⟨u', hprimary, h⟩
    exact ⟨false, u', hprimary, h⟩

/-- Running a body halts exactly when a step of it does, and gives its reference back. -/
theorem runBody_eq_error_iff {b : Body S} : steps.runBody b u = (.error halt, u') ↔
    ∃ v, steps.Interrupts halt b u v ∧ u' = v.release? b.txn? := by
  constructor
  · intro h
    cases b with
    | free s => exact ⟨u', .free h, rfl⟩
    | step t s =>
      obtain ⟨halive, v, hstep, hworld⟩ := onLive_eq_error_iff.1 h
      exact ⟨v, .step halive hstep, hworld⟩
    | choice t primary fallback =>
      obtain ⟨halive, v, hchoice, hworld⟩ := onLive_eq_error_iff.1 h
      obtain hprimary | ⟨u₁, hprimary, hfallback⟩ := choice_eq_error_iff.1 hchoice
      · exact ⟨v, .primary halive hprimary, hworld⟩
      · exact ⟨v, .fallback halive hprimary hfallback, hworld⟩
  · rintro ⟨v, hv, rfl⟩
    cases hv with
    | free h => exact h
    | step halive h => exact onLive_eq_error_iff.2 ⟨halive, v, h, rfl⟩
    | primary halive h =>
      exact onLive_eq_error_iff.2 ⟨halive, v, choice_eq_error_iff.2 (.inl h), rfl⟩
    | fallback halive hprimary h =>
      exact onLive_eq_error_iff.2 ⟨halive, v, choice_eq_error_iff.2 (.inr ⟨_, hprimary, h⟩), rfl⟩

/-- An invocation that is interrupted reports nothing. -/
theorem invoke_eq_error_iff {a : Action S} : steps.invoke a u = (.error halt, u') ↔
    ∃ v, steps.Interrupts halt a.body u v ∧ u' = v.release? a.body.txn? := by
  rw [invoke, Run.bind_eq_error_iff, runBody_eq_error_iff, or_iff_left]
  rintro ⟨ok, u₁, -, h⟩
  cases h

theorem invokeAll_cons_eq_ok {x : Action S} {xs : List (Action S)} {results : List Bool}
    (h : steps.invokeAll (x :: xs) w = (.ok results, u)) :
    ∃ ok w₁ more, steps.invoke x w = (.ok ok, w₁) ∧
      steps.invokeAll xs w₁ = (.ok more, u) ∧ results = ok :: more := by
  obtain ⟨ok, w₁, hx, h⟩ := Run.eq_ok_of_bind h
  obtain ⟨more, w₂, hxs, h⟩ := Run.eq_ok_of_bind h
  cases h
  exact ⟨ok, w₁, more, hx, hxs, rfl⟩

section Append

variable {xs : List (Action S)} {results : List Bool}
  (h : steps.invokeAll xs w = (.ok results, u))
include h

/-- A run through a plan goes on where the first part of the plan has led to. -/
theorem invokeAll_append (ys : List (Action S)) : steps.invokeAll (xs ++ ys) w =
    ((steps.invokeAll ys u).1.map (results ++ ·), (steps.invokeAll ys u).2) := by
  induction xs generalizing w results with
  | nil =>
    cases h
    rw [List.nil_append]
    cases hys : steps.invokeAll ys u with
    | mk result w' => cases result <;> rfl
  | cons x xs ih =>
    obtain ⟨ok, w₁, more, hx, hxs, rfl⟩ := invokeAll_cons_eq_ok h
    rw [List.cons_append, invokeAll, Run.bind_apply, hx]
    dsimp only
    rw [Run.bind_apply, ih hxs]
    cases steps.invokeAll ys u with
    | mk result w' => cases result <;> rfl

theorem visits_append (ys : List (Action S)) :
    steps.visits (xs ++ ys) w = steps.visits xs w ++ steps.visits ys u := by
  induction xs generalizing w results with
  | nil =>
    cases h
    rfl
  | cons x xs ih =>
    obtain ⟨ok, w₁, more, hx, hxs, -⟩ := invokeAll_cons_eq_ok h
    rw [List.cons_append, visits, visits, hx]
    dsimp only
    rw [ih hxs, List.cons_append]

end Append

/-- A run through a plan halts with the first action whose step does. -/
theorem invokeAll_of_interrupts {plan : List (Action S)} {i : Nat} {a : Action S}
    (ha : plan[i]? = some a) {results : List Bool}
    (hbefore : steps.invokeAll (plan.take i) w = (.ok results, u))
    (hhalt : steps.Interrupts halt a.body u v) :
    steps.invokeAll plan w = (.error halt, v.release? a.body.txn?) ∧
      steps.visits plan w = steps.visits (plan.take i) w ++ [(a, u)] := by
  have hinvoke : steps.invoke a u = (.error halt, v.release? a.body.txn?) :=
    invoke_eq_error_iff.2 ⟨v, hhalt, rfl⟩
  obtain ⟨hi, rfl⟩ := List.getElem?_eq_some_iff.1 ha
  have hplan : plan = plan.take i ++ plan[i] :: plan.drop (i + 1) := by
    rw [← List.drop_eq_getElem_cons hi, List.take_append_drop]
  have hrun := invokeAll_append hbefore (plan[i] :: plan.drop (i + 1))
  have hvisits := visits_append hbefore (plan[i] :: plan.drop (i + 1))
  rw [← hplan, invokeAll, Run.bind_apply, hinvoke] at hrun
  rw [← hplan, visits, hinvoke] at hvisits
  exact ⟨hrun, hvisits⟩

/-- A run in which no step halts returns. -/
theorem exists_invokeAll_eq_ok {plan : List (Action S)}
    (h : ∀ x ∈ steps.visits plan w, ∀ halt v, ¬ steps.Interrupts halt x.1.body x.2 v) :
    ∃ results, (steps.invokeAll plan w).1 = .ok results := by
  induction plan generalizing w with
  | nil => exact ⟨[], rfl⟩
  | cons a rest ih =>
    cases hfirst : steps.invoke a w with
    | mk result w₁ =>
      cases result with
      | error halt =>
        obtain ⟨v, hv, -⟩ := invoke_eq_error_iff.1 hfirst
        exact absurd hv (h (a, w) List.mem_cons_self halt v)
      | ok ok =>
        rw [visits, hfirst] at h
        obtain ⟨more, hmore⟩ := ih fun x hx => h x (List.mem_cons_of_mem _ hx)
        refine ⟨ok :: more, ?_⟩
        rw [invokeAll, Run.bind_apply, hfirst]
        dsimp only
        rw [Run.bind_of_ok hmore]
        rfl

section Recording

variable (steps : Meaning S σ) (entry : S → Option TxnKey → World S σ → ε)

theorem traces_invokeAll (plan : List (Action S)) :
    ((steps.recording entry).invokeAll plan).Traces (steps.invokeAll plan) := by
  induction plan with
  | nil => exact Run.traces_pure []
  | cons a rest ih =>
    exact (steps.traces_invoke entry a).bind fun _ => ih.bind fun _ => Run.traces_pure _

/-- A run through a plan records what the invocations on the way record. -/
theorem recorded_invokeAll (plan : List (Action S)) (w : World S σ) :
    ((steps.recording entry).invokeAll plan).recorded w =
      (steps.visits plan w).flatMap fun x =>
        ((steps.recording entry).invoke x.1).recorded x.2 := by
  induction plan generalizing w with
  | nil => rfl
  | cons a rest ih =>
    have hrest := steps.traces_invokeAll entry rest
    have hcons := (steps.traces_invoke entry a).recorded_bind
      (fun ok => hrest.bind fun more => Run.traces_pure (ok :: more)) w
    rw [visits, List.flatMap_cons]
    refine hcons.trans (congrArg (((steps.recording entry).invoke a).recorded w ++ ·) ?_)
    cases steps.invoke a w with
    | mk result w₁ =>
      cases result with
      | error halt => rfl
      | ok ok =>
        refine (hrest.recorded_bind (fun more => Run.traces_pure (ok :: more)) w₁).trans ?_
        rw [ih]
        cases steps.invokeAll rest w₁ with
        | mk result w₂ => cases result <;> exact List.append_nil _

theorem recorded_play {t : TxnKey} {plan : List (Action S)} (h : w.engine.plan? t = some plan) :
    ((steps.recording entry).play t).recorded w =
      (steps.visits plan (w.hold t)).flatMap fun x =>
        ((steps.recording entry).invoke x.1).recorded x.2 := by
  have hplan : (w.traced ([] : List ε)).engine.plan? t = some plan := h
  rw [← recorded_invokeAll, Run.recorded, play_of_plan? _ hplan]
  rfl

end Recording

/-- A step that halts has got to that point by moves, and its invocation is still an
owner there. -/
theorem Interrupts.moves (hsteps : steps.Tidy) {b : Body S} (h : steps.Interrupts halt b u v)
    (H : List (Hand S)) :
    Moves (u.stage H) (v.stage (b.txn?.toList.map .invocation ++ H)) := by
  cases h with
  | free h => exact (hsteps _ none).moves_of_eq h H
  | @step t s u v halive h =>
    exact .head (.upgrade halive) ((hsteps s _).moves_of_eq h (.invocation t :: H))
  | @primary t primary fallback u v halive h =>
    exact .head (.upgrade halive) ((hsteps primary _).moves_of_eq h (.invocation t :: H))
  | @fallback t primary fallback u u' v halive hprimary h =>
    have hfirst := (hsteps primary _).moves_of_eq hprimary (.invocation t :: H)
    have hsecond := (hsteps fallback _).moves_of_eq h (.invocation t :: H)
    exact .head (.upgrade halive) ((hfirst.tail (.emit .fallingBack)).trans hsecond)

/-- So has a play in which a step halts: the play and the invocation are owners there. -/
theorem Interrupts.reachable (hsteps : steps.Tidy) {H : List (Hand S)}
    (hw : (w.stage H).Reachable) {t : TxnKey} (ht : t ∈ (w.stage H).owners)
    {before : List (Action S)} {results : List Bool}
    (hbefore : steps.invokeAll before (w.hold t) = (.ok results, u)) {b : Body S}
    (h : steps.Interrupts halt b u v) :
    (v.stage (b.txn?.toList.map .invocation ++ .play t :: H)).Reachable := by
  have hstart : ((w.hold t).stage (.play t :: H)).Reachable := hw.move (.play ht)
  have hfirst := (tidy_invokeAll hsteps before).moves_of_eq hbefore (.play t :: H)
  exact (hstart.moves hfirst).moves (h.moves hsteps (.play t :: H))

theorem RunsThrough.length_eq {plan : List (Action S)} {results : List Bool}
    (h : steps.RunsThrough plan w results) : results.length = plan.length := by
  obtain ⟨hactions, hresults⟩ := h
  have hvisits := congrArg List.length hactions
  have hcounts := congrArg List.length hresults
  rw [List.length_map] at hvisits hcounts
  rw [← hvisits, hcounts, List.length_map]

/-- Where a step of a play panics, the play and the invocation are owners beside those that
are left when both have ended. -/
theorem owners_of_interrupted (t? : Option TxnKey) (t : TxnKey) (H : List (Hand S))
    (v : World S σ) :
    (v.stage (t?.toList.map .invocation ++ .play t :: H)).owners.Perm
      (t?.toList ++ t :: (((v.release? t?).release t).stage H).owners) := by
  have hplay := Stage.owners_cons (H := H) (e := v.engine) (s := v.shelf) (.play t)
  cases t? with
  | none => exact hplay
  | some t' => exact (Stage.owners_cons (.invocation t')).trans (hplay.cons t')

/-- Of a play of any transaction that somebody owns, in any world that can come about, in
which a step of the action at some place of the plan panics after the actions before it have
returned. The panic ends the play, which has invoked those actions once each and in order,
and then this one. What is left is what was there when the step panicked, less the two
references that the play and the invocation had taken; nothing has been logged since. So a
transaction is alive exactly if somebody else owns it. The plan can be read as before and it
can be replaced. If it is still installed at any later time and is played then, and no step
halts, all its actions are invoked, with one outcome for each. -/
theorem play_of_interrupts (programs : S → Program S σ) (depth : Nat) {w : World S σ}
    {H : List (Hand S)} (hw : (w.stage H).Reachable) {t : TxnKey} (ht : (w.stage H).Owned t)
    {plan : List (Action S)} (hplan : w.engine.plan? t = some plan) {i : Nat} {a : Action S}
    (ha : plan[i]? = some a) {results : List Bool} {u v : World S σ}
    (hbefore : (ofPrograms programs depth).invokeAll (plan.take i) (w.hold t) = (.ok results, u))
    {text : String}
    (hpanic : (ofPrograms programs depth).Interrupts (.failure (.panic text)) a.body u v) :
    let steps := ofPrograms programs depth
    let after := (v.release? a.body.txn?).release t
    (steps.play t w = (.error (.failure (.panic text)), after) ∧
      (steps.visits plan (w.hold t)).map Prod.fst = plan.take (i + 1) ∧
      steps.RunsThrough (plan.take i) (w.hold t) results ∧
      (steps.traced.play t).evaluations w =
        ((steps.visits (plan.take i) (w.hold t)).flatMap fun x => steps.evaluations x.1 x.2) ++
          steps.evaluations a u) ∧
    (after = { v with engine := { v.engine with holds := after.engine.holds } } ∧
      v.engine.holds.Perm (a.body.txn?.toList ++ t :: after.engine.holds) ∧
      ∀ x, after.engine.isAlive x = true ↔ (after.stage H).Owned x) ∧
    ((∀ x, after.engine.plan? x = v.engine.plan? x) ∧
      ∀ actions, (after.engine.install t actions).plan? t = some actions) ∧
    ∀ w' : World S σ, w'.engine.plan? t = some plan →
      (∀ x ∈ steps.visits plan (w'.hold t), ∀ halt v', ¬ steps.Interrupts halt x.1.body x.2 v') →
      ∃ outcomes, (steps.play t w').1 = .ok (some outcomes) ∧
        steps.RunsThrough plan (w'.hold t) outcomes ∧ outcomes.length = plan.length := by
  intro steps after
  have hsteps : steps.Tidy := tidy_ofPrograms programs depth
  obtain ⟨hrun, hvisits⟩ := invokeAll_of_interrupts ha hbefore hpanic
  have hthrough : steps.RunsThrough (plan.take i) (w.hold t) results :=
    steps.runsThrough_of_invokeAll (congrArg Prod.fst hbefore)
  -- What is owned at the moment of the panic, and what is owned after the play.
  have hmem : t ∈ (w.stage H).owners := ((w.stage H).owned_iff_mem_owners t).1 ht
  have hmiddle := (hpanic.reachable hsteps hw hmem hbefore).balanced
  have hplay : steps.play t w = (.error (.failure (.panic text)), after) := by
    rw [play_of_plan? steps hplan, hrun]
    rfl
  have hmoves : Moves (w.stage H) (after.stage H) := by
    have h := moves_play hsteps hmem
    rw [hplay] at h
    exact h
  have hbalanced : (after.stage H).Balanced := (hw.moves hmoves).balanced
  refine ⟨⟨hplay, ?_, hthrough, ?_⟩, ⟨?_, ?_, fun x => ?_⟩, ⟨fun x => ?_, fun actions => ?_⟩, ?_⟩
  · rw [hvisits, List.map_append, hthrough.1, List.take_add_one, ha]
    rfl
  · rw [Run.evaluations, recorded_play steps _ hplan, hvisits, List.flatMap_append,
      List.flatMap_singleton]
    rfl
  · simp only [after]
    rw [v.release?_eq]
    rfl
  · exact (hmiddle.trans (owners_of_interrupted a.body.txn? t H v)).trans
      (List.Perm.append_left _ (hbalanced.symm.cons t))
  · rw [Stage.owned_iff_mem_owners]
    exact hbalanced.isAlive_iff x
  · exact v.plan?_release? a.body.txn? x
  · have hmade : (after.stage H).Made t := (hw.made_of_mem_owners hmem).moves hmoves
    obtain ⟨x, hx⟩ : ∃ x, after.engine.txn? t = some x :=
      ⟨_, Array.getElem?_eq_getElem hmade⟩
    rw [Engine.plan?_install, if_pos rfl, hx]
    rfl
  · intro w' hplan' hnone
    obtain ⟨outcomes, houtcomes⟩ := exists_invokeAll_eq_ok hnone
    have hthrough' := steps.runsThrough_of_invokeAll houtcomes
    refine ⟨outcomes, ?_, hthrough', hthrough'.length_eq⟩
    rw [play_of_plan? steps hplan', houtcomes]
    rfl

end Meaning

/-- A step that fails, and one that panics the first time it is evaluated; the memory counts
its evaluations. -/
def failOrPanic (counts : Bool) : Program Bool Nat :=
  if counts then .remember (· + 1) fun n => if n < 2 then .panic "first" else .finish true
  else .finish false

def flaky : Meaning Bool Nat := .ofPrograms failOrPanic 1

/-- A transaction with a choice between the two steps, and the failing one on both sides. -/
def flakyChoice : World Bool Nat :=
  Command.performAll flaky
    [.openContext "c" none, .openTxn "c" "h", .bindStep "h" false "a",
      .bindChoice "h" false true "b", .install "h" ["a", "b", "a"]]
    { memory := 0 }

/-- The world in which the choice is invoked. -/
def beforeFlakyChoice : World Bool Nat :=
  (flaky.invoke ((Recipe.sequential ⟨0⟩ false).make ⟨0⟩) (flakyChoice.hold ⟨0⟩)).2

/-- The world in which the fallback panics. -/
def atFirstPanic : World Bool Nat :=
  (flaky true (some ⟨0⟩) ((beforeFlakyChoice.hold ⟨0⟩).emit .fallingBack)).2

def flakyPlan : List (Action Bool) :=
  [(Recipe.sequential ⟨0⟩ false).make ⟨0⟩, (Recipe.choice ⟨0⟩ false true).make ⟨1⟩,
    (Recipe.sequential ⟨0⟩ false).make ⟨0⟩]

/-- The first play ends with the panic of the fallback, and has invoked two of three actions.
The transaction goes on living, as its handle does, and the second play returns. -/
theorem flakyChoice_play_of_interrupts :
    let after := (flaky.play ⟨0⟩ flakyChoice).2
    (flakyChoice.stage []).Reachable ∧ (flakyChoice.stage []).Owned ⟨0⟩ ∧
      flakyChoice.engine.plan? ⟨0⟩ = some flakyPlan ∧
      (flaky.play ⟨0⟩ flakyChoice).1 = .error (.failure (.panic "first")) ∧
      (flaky.visits flakyPlan (flakyChoice.hold ⟨0⟩)).map Prod.fst = flakyPlan.take 2 ∧
      (flaky.traced.play ⟨0⟩).evaluations flakyChoice =
        [⟨false, some ⟨0⟩⟩, ⟨false, some ⟨0⟩⟩, ⟨true, some ⟨0⟩⟩] ∧
      after.engine.isAlive ⟨0⟩ = true ∧ (after.stage []).Owned ⟨0⟩ ∧
      after.engine.plan? ⟨0⟩ = some flakyPlan ∧
      (flaky.play ⟨0⟩ after).1 = .ok (some [false, true, false]) ∧
      flaky.RunsThrough flakyPlan (after.hold ⟨0⟩) [false, true, false] := by
  intro after
  have hreach : (flakyChoice.stage []).Reachable := Command.reachable_performAll _ _ _ _
  have howned : (flakyChoice.stage []).Owned ⟨0⟩ := .handle "h" rfl
  have hplan : flakyChoice.engine.plan? ⟨0⟩ = some flakyPlan := rfl
  have hchoice : flakyPlan[1]? = some ((Recipe.choice ⟨0⟩ false true).make ⟨1⟩) := rfl
  have hbefore : flaky.invokeAll (flakyPlan.take 1) (flakyChoice.hold ⟨0⟩) =
      (.ok [false], beforeFlakyChoice) := rfl
  have hpanic : flaky.Interrupts (.failure (.panic "first")) (.choice ⟨0⟩ false true)
      beforeFlakyChoice atFirstPanic := .fallback rfl rfl rfl
  obtain ⟨⟨hplay, hvisits, -, htrace⟩, ⟨-, -, halive⟩, ⟨hkept, -⟩, hlater⟩ :=
    Meaning.play_of_interrupts failOrPanic 1 hreach howned hplan hchoice hbefore hpanic
  have hafter : after = (atFirstPanic.release ⟨0⟩).release ⟨0⟩ := congrArg Prod.snd hplay
  have hagain : (flaky.play ⟨0⟩ after).1 = .ok (some [false, true, false]) := rfl
  have hreturns : (flaky.visits flakyPlan (after.hold ⟨0⟩)).map
      (fun x => (flaky.invoke x.1 x.2).1) = [.ok false, .ok true, .ok false] := rfl
  have hnone : ∀ x ∈ flaky.visits flakyPlan (after.hold ⟨0⟩), ∀ halt v,
      ¬ flaky.Interrupts halt x.1.body x.2 v := by
    intro x hx halt v hv
    have hinvoke := Meaning.invoke_eq_error_iff.2 ⟨v, hv, rfl⟩
    have hmem := List.mem_map_of_mem (f := fun x => (flaky.invoke x.1 x.2).1) hx
    rw [hreturns, hinvoke] at hmem
    simp at hmem
  obtain ⟨outcomes, houtcomes, hthrough, -⟩ := hlater after rfl hnone
  obtain rfl : outcomes = [false, true, false] :=
    Option.some.inj (Except.ok.inj (houtcomes.symm.trans hagain))
  refine ⟨hreach, howned, hplan, congrArg Prod.fst hplay, hvisits, htrace, ?_, ?_, ?_, hagain,
    hthrough⟩
  · rfl
  · rw [hafter]
    exact (halive ⟨0⟩).1 rfl
  · rw [hafter]
    exact hkept ⟨0⟩

end TxnAssembly
