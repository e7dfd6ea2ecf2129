import TxnAssembly.Proofs.Faithfulness
import TxnAssembly.Proofs.Nesting

/-!
# Nested invocations in the log

Whatever programs do, the log tells the same as the tale of it: one lemma for an invocation,
one for each way to run a plan, one for a command and one for a program, and from these by
induction on the depth of the nesting.
-/
namespace TxnAssembly

variable {S σ : Type}

namespace Meaning

variable {steps : Meaning S σ} {t : TxnKey} {primary fallback : S} {w u : World S σ}

/-- A choice is over with its primary step, unless that returns `false`. -/
theorem log_choice_of_primary (halive : w.engine.isAlive t = true)
    (hprimary : (steps primary (some t) (w.hold t)).1 ≠ .ok false) :
    (steps.runBody (.choice t primary fallback) w).2.engine.log =
      (steps primary (some t) (w.hold t)).2.engine.log := by
  rw [runBody, onLive_of_isAlive halive, Run.holding_apply, Run.bind_apply]
  rcases hrun : steps primary (some t) (w.hold t) with ⟨halt | ok, u⟩
  · rfl
  · rw [hrun] at hprimary
    cases ok with
    | false => exact absurd rfl hprimary
    | true => rfl

theorem log_choice_of_fallback (halive : w.engine.isAlive t = true)
    (hprimary : steps primary (some t) (w.hold t) = (.ok false, u)) :
    (steps.runBody (.choice t primary fallback) w).2.engine.log =
      (steps fallback (some t) (u.emit .fallingBack)).2.engine.log := by
  rw [runBody, onLive_of_isAlive halive, Run.holding_apply, Run.bind_apply, hprimary]
  rfl

end Meaning

namespace Moment

variable {programs : S → Program S σ} {m : Moment S σ} {t : TxnKey} {primary fallback : S}

theorem fallback?_eq_some (hbody : m.action.body = .choice t primary fallback)
    (halive : m.world.engine.isAlive t = true) {u : World S σ}
    (hprimary : m.steps programs primary (some t) (m.world.hold t) = (.ok false, u)) :
    m.fallback? programs = some (t, fallback, u) := by
  simp [fallback?, hbody, halive, hprimary]

theorem fallback?_eq_none (hbody : m.action.body = .choice t primary fallback)
    (hprimary : (m.steps programs primary (some t) (m.world.hold t)).1 ≠ .ok false) :
    m.fallback? programs = none := by
  rcases hrun : m.steps programs primary (some t) (m.world.hold t) with ⟨halt | ok, u⟩
  · simp [fallback?, hbody, hrun]
  · rw [hrun] at hprimary
    cases ok with
    | false => exact absurd rfl hprimary
    | true => simp [fallback?, hbody, hrun]

end Moment

namespace Program

theorem log_storePlanOf (t : TxnKey) (into : String) (w : World S σ) :
    (storePlanOf t into w).engine.log = w.engine.log := by
  rw [storePlanOf]
  cases w.engine.plan? t <;> rfl

end Program

namespace Teller

variable (T : Teller S σ) {a : Action S} {w : World S σ} {t : TxnKey} {primary fallback : S}

theorem body_choice_of_primary (halive : w.engine.isAlive t = true)
    (hprimary : (T.steps primary (some t) (w.hold t)).1 ≠ .ok false) :
    T.body (.choice t primary fallback) w = T.tell primary (some t) (w.hold t) := by
  rw [body, if_pos halive]
  rcases hrun : T.steps primary (some t) (w.hold t) with ⟨halt | ok, u⟩
  · exact Tale.append_nil _
  · rw [hrun] at hprimary
    cases ok with
    | false => exact absurd rfl hprimary
    | true => exact Tale.append_nil _

theorem body_choice_of_fallback (halive : w.engine.isAlive t = true) {u : World S σ}
    (hprimary : T.steps primary (some t) (w.hold t) = (.ok false, u)) :
    T.body (.choice t primary fallback) w = T.tell primary (some t) (w.hold t) ++
      .event .fallingBack (T.tell fallback (some t) (u.emit .fallingBack)) := by
  rw [body, if_pos halive, hprimary]
  rfl

end Teller

/-- What is told of the evaluation of a step is what happens in it. -/
def Teller.Sound (T : Teller S σ) : Prop :=
  ∀ s t w, Tells T.programs w (T.steps s t w) (T.tell s t w)

namespace Teller.Sound

variable {T : Teller S σ} (hT : T.Sound)
include hT

/-- What happens before an invocation returns: a warning, one step or two. -/
theorem meanwhile_body (a : Action S) (w : World S σ) :
    Meanwhile T.programs ⟨T.depth, a, w⟩ (T.body a.body w) := by
  cases hfound : w.engine.canRun a.body with
  | false =>
    rw [T.body_of_not_canRun hfound]
    exact .of_isOrphaned (congrArg not hfound)
  | true =>
    have hlive : (⟨T.depth, a, w⟩ : Moment S σ).isOrphaned = false := congrArg not hfound
    cases hbody : a.body with
    | free s =>
      refine .of_tells ?_ hlive (by simp [Moment.fallback?, hbody])
      rw [hbody]
      exact hT s none w
    | step t s =>
      rw [hbody] at hfound
      have halive : w.engine.isAlive t = true := hfound
      have htold : T.body (.step t s) w = T.tell s (some t) (w.hold t) := if_pos halive
      rw [htold]
      refine .of_tells ((hT s (some t) (w.hold t)).of_log rfl ?_) hlive
        (by simp [Moment.fallback?, hbody])
      rw [hbody]
      exact congrArg (·.2.engine.log) (Meaning.onLive_of_isAlive halive _ _)
    | choice t primary fallback =>
      rw [hbody] at hfound
      have halive : w.engine.isAlive t = true := hfound
      have hfirst := hT primary (some t) (w.hold t)
      by_cases hprimary : (T.steps primary (some t) (w.hold t)).1 = .ok false
      · have hrun : T.steps primary (some t) (w.hold t) =
            (.ok false, (T.steps primary (some t) (w.hold t)).2) := Prod.ext hprimary rfl
        rw [T.body_choice_of_fallback halive hrun]
        refine .of_fallback? (Moment.fallback?_eq_some hbody halive hrun) (hfirst.of_log rfl rfl)
          (hT fallback (some t) _) ?_
        rw [hbody]
        exact Meaning.log_choice_of_fallback halive hrun
      · rw [T.body_choice_of_primary halive hprimary]
        refine .of_tells (hfirst.of_log rfl ?_) hlive (Moment.fallback?_eq_none hbody hprimary)
        rw [hbody]
        exact Meaning.log_choice_of_primary halive hprimary

theorem tells_invoke (a : Action S) (w : World S σ) :
    Tells T.programs w (T.steps.invoke a w) (T.invoke a w) := by
  have hbefore := hT.meanwhile_body a w
  have hinside : T.inside a w = T.body a.body w ++ Tale.completion a.kind
      ((⟨T.depth, a, w⟩ : Moment S σ).result T.programs) := by
    rw [inside, ← Meaning.toOption_invoke]
    rfl
  rw [Teller.invoke, hinside]
  refine ⟨?_, hbefore.faithful⟩
  rw [Tale.events, Tale.events, List.append_nil]
  exact hbefore.isLogged.log

theorem tells_invokeAll (plan : List (Action S)) (w : World S σ) :
    Tells T.programs w (T.steps.invokeAll plan w) (T.invokeAll plan w) := by
  induction plan generalizing w with
  | nil => exact .still rfl
  | cons a rest ih => exact (hT.tells_invoke a w).bind fun ok u => (ih u).bind_pure (ok :: ·)

theorem tells_invokeUntilFailure (plan : List (Action S)) (w : World S σ) :
    Tells T.programs w (T.steps.invokeUntilFailure plan w) (T.invokeUntilFailure plan w) := by
  induction plan generalizing w with
  | nil => exact .still rfl
  | cons a rest ih =>
    refine (hT.tells_invoke a w).bind fun ok u => ?_
    cases ok with
    | false => exact .still rfl
    | true => exact ih u

theorem tells_play (t : TxnKey) (w : World S σ) :
    Tells T.programs w (T.steps.play t w) (T.play t w) := by
  refine Tells.holding ?_
  have hplan : (w.hold t).engine.plan? t = w.engine.plan? t := rfl
  rw [Run.bind_of_ok (x := Run.inspect _) rfl, Teller.play, hplan]
  cases w.engine.plan? t with
  | none => exact .still rfl
  | some plan => exact (hT.tells_invokeAll plan _).bind_pure some

theorem tells_perform (c : Command S) (w : World S σ) :
    Tells T.programs w (c.perform T.steps w) (T.perform c w) := by
  cases c with
  | play handle =>
    exact .bind_still (Command.log_find handle _ w) fun t u =>
      (hT.tells_play t u).bind_pure Answer.outcomes
  | playPlan plan =>
    exact .bind_still (Command.log_find plan _ w) fun plan u =>
      (hT.tells_invokeAll plan u).bind_pure fun results => Answer.outcomes (some results)
  | runPlanUntilFailure plan =>
    exact .bind_still (Command.log_find plan _ w) fun plan u =>
      (hT.tells_invokeUntilFailure plan u).bind_pure Answer.flag
  | invokeAt plan index =>
    exact .bind_still (Command.log_find plan _ w) fun plan u =>
      .bind_still (Command.log_pick plan index u) fun a u =>
        (hT.tells_invoke a u).bind_pure Answer.flag
  | invoke action =>
    exact .bind_still (Command.log_find action _ w) fun a u =>
      (hT.tells_invoke a u).bind_pure Answer.flag
  | _ => exact .since (Command.aside_perform _ rfl w)

theorem tells_run (t : Option TxnKey) (p : Program S σ) (w : World S σ) :
    Tells T.programs w (p.run T.steps t w) (T.run t p w) := by
  induction p generalizing w with
  | finish ok => exact .still rfl
  | panic text => exact .still rfl
  | look next ih => exact ih _ w
  | keepPlan into next ih =>
    refine (ih _).of_log ?_ rfl
    cases t with
    | none => rfl
    | some t => exact Program.log_storePlanOf t into w
  | install actions next ih =>
    -- without a transaction nothing is installed, and nothing is logged
    have hinstall : Tells T.programs w
        ((.ok (), (t.map fun t => Program.installFrom t actions w).getD w) :
          Except Halt Unit × World S σ)
        (.since w ((t.map fun t => Program.installFrom t actions w).getD w)) := by
      refine .since ?_
      cases t with
      | none => exact .of_log rfl
      | some t => exact w.engine.aside_install t _
    exact hinstall.append (ih _)
  | perform command next ih =>
    exact (hT.tells_perform command w).settle.bind fun reply u => ih reply u
  | remember change next ih =>
    have hnext := ih (change w.memory) { w with memory := change w.memory }
    exact hnext.of_log rfl rfl

end Teller.Sound

/-- Steps are told of soundly if those nested in them are. -/
theorem Teller.sound_told (programs : S → Program S σ) (depth : Nat) :
    (Teller.ofPrograms programs depth).Sound := by
  induction depth with
  | zero => exact fun _ _ _ => .still rfl
  | succ depth ih => exact fun s t w => ih.tells_run t (programs s) w

/-- The events from the start of an invocation to its end match the invocations in this span,
the nested ones and the invocation itself: those that return are reported in the order in which
they end, so the invocation is reported last. Each that finds its transaction gone warns of it
and then reports a failure at once. The event of falling back is logged once for each choice
whose primary step has returned `false`, between what the two steps lead to. In a world that
can come about a warning tells of the same kind as the report behind it. -/
theorem log_of_invocation (programs : S → Program S σ) (depth : Nat) (a : Action S)
    (w : World S σ) {ok : Bool}
    (h : ((Meaning.ofPrograms programs depth).invoke a w).1 = .ok ok) :
    let x := (Teller.ofPrograms programs depth).invoke a w
    ((Meaning.ofPrograms programs depth).invoke a w).2.engine.log = w.engine.log ++ x.events ∧
      x.events.filterMap Event.report? = x.invocations.filterMap (·.report? programs) ∧
      x.events.getLast? = some (.invoked a.kind ok) ∧
      x.events.countP Event.isOrphaned = x.invocations.countP (·.isOrphaned) ∧
      Event.Answered x.invocations x.events ∧
      x.events.count .fallingBack = x.invocations.countP (·.fallsBack programs) ∧
      (∀ c ∈ x.invocations, c.IsLogged programs ∧ c.IsPlaced w x.events) ∧
      ∀ H, (w.stage H).Reachable → a.IsMade →
        ∀ c ∈ x.invocations, c.isOrphaned = true → c.action.body.shape = c.action.kind := by
  intro x
  have htells : Tells programs w ((Meaning.ofPrograms programs depth).invoke a w) x :=
    (Teller.sound_told programs depth).tells_invoke a w
  have hlast : x.events.getLast? = some (.invoked a.kind ok) := by
    have hmem : ⟨⟨depth, a, w⟩, (Teller.ofPrograms programs depth).inside a w⟩ ∈ x.invocations :=
      List.mem_append_right _ (List.mem_singleton_self _)
    have hresult : (⟨depth, a, w⟩ : Moment S σ).result programs = some ok :=
      congrArg Except.toOption h
    have hinside := (htells.faithful.invocations _ hmem).1.last ok hresult
    have hevents : x.events = ((Teller.ofPrograms programs depth).inside a w).events :=
      List.append_nil _
    rw [hevents]
    exact hinside
  refine ⟨htells.log, htells.faithful.reports, hlast, htells.faithful.orphans,
    htells.faithful.answered, htells.faithful.fallbacks, htells.faithful.invocations, ?_⟩
  intro H hw ha c hc horphaned
  have hmade : c.action.IsMade := by
    obtain hc | hc := List.mem_append.1 hc
    · obtain ⟨K, hknows⟩ := (Teller.founded_told programs depth).founded_inside hw c hc
      exact hknows.isMade
    · obtain rfl := List.mem_singleton.1 hc
      exact ha
  exact (hmade.kind_eq_of_not_canRun (by simpa [Moment.isOrphaned] using horphaned)).symm

/-- A step that does nothing, one that drops a transaction before it invokes an action of it
and then fails, and one that plays the plan of another transaction. -/
def dropOrPlay (play? : Option Bool) : Program (Option Bool) Unit :=
  match play? with
  | none => .finish true
  | some false =>
    .perform (.discard .handle "k") fun _ => .perform (.invoke "b") fun _ => .finish false
  | some true => .perform (.play "h") fun _ => .finish true

/-- Two transactions, one with a plan, and actions of both. -/
def twoTxns : World (Option Bool) Unit :=
  Command.performAll (.ofPrograms dropOrPlay 2)
    [.openContext "c" none, .openTxn "c" "h", .openTxn "c" "k", .bindStep "k" none "b",
      .freeAction .sequential none "d", .install "h" ["d"],
      .bindChoice "h" (some false) (some true) "a"]
    { memory := () }

theorem log_of_nested_choice :
    let a := (Recipe.choice ⟨0⟩ (some false) (some true)).make ⟨2⟩
    let x := (Teller.ofPrograms dropOrPlay 2).invoke a twoTxns
    twoTxns.shelf.actions.get? "a" = some a ∧
      ((Meaning.ofPrograms dropOrPlay 2).invoke a twoTxns).1 = .ok true ∧
      ((Meaning.ofPrograms dropOrPlay 2).invoke a twoTxns).2.engine.log =
        twoTxns.engine.log ++ x.events ∧
      x.events = [.orphaned .sequential, .invoked .sequential false, .fallingBack,
        .invoked .sequential true, .invoked .choice true] ∧
      x.events.filterMap Event.report? = x.invocations.filterMap (·.report? dropOrPlay) ∧
      x.invocations.map (fun c => (c.action.key, c.isOrphaned, c.fallsBack dropOrPlay)) =
        [(⟨0⟩, true, false), (⟨1⟩, false, false), (⟨2⟩, false, true)] ∧
      (∀ c ∈ x.invocations, c.IsLogged dropOrPlay ∧ c.IsPlaced twoTxns x.events) ∧
      ∀ c ∈ x.invocations, c.isOrphaned = true → c.action.body.shape = c.action.kind := by
  intro a x
  have hinvoke : ((Meaning.ofPrograms dropOrPlay 2).invoke a twoTxns).1 = .ok true := rfl
  have hreach : (twoTxns.stage []).Reachable := Command.reachable_performAll _ _ _ _
  obtain ⟨hlog, hreports, -, -, -, -, hinvocations, hkinds⟩ :=
    log_of_invocation dropOrPlay 2 a twoTxns hinvoke
  exact ⟨rfl, hinvoke, hlog, rfl, hreports, rfl, hinvocations,
    hkinds [] hreach (Recipe.isMade_make _ _)⟩

end TxnAssembly
