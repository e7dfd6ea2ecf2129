import TxnAssembly.Proofs.Tracking

/-!
# Choices

A choice looks for its transaction once, and then owns it until its last step has returned.
So it does not matter to the fallback what the primary step has done: it may have given up
all other references, or replaced the plan, or invoked the same action again.
-/
namespace TxnAssembly

variable {S σ : Type}

/-- A transaction that is alive has not ended before. -/
theorem Stage.Balanced.isAlive_of_moves {s s' : Stage S} {t : TxnKey} (hs : s.Balanced)
    (ht : s.Made t) (h : Moves s s') (halive : s'.engine.isAlive t = true) :
    s.engine.isAlive t = true := by
  cases hdead : s.engine.isAlive t with
  | true => rfl
  | false => exact absurd halive (Bool.eq_false_iff.1 (isAlive_moves hs ht hdead h))

/-- If it is in hand for a whole run, it is alive at every instruction. -/
theorem Tracks.isAlive_of_passed {w u v : World S σ} {notes : List (Note S σ)}
    (h : Tracks w u notes) {x : Hand S} {H : List (Hand S)} (hw : (w.stage H).Reachable)
    (hx : x ∈ H) (hv : .passed v ∈ notes) : v.engine.isAlive x.txn = true := by
  obtain ⟨K, hK⟩ := h.reach v hv
  exact (hw.moves (hK H)).isAlive_of_mem_hands (List.mem_append_right K hx)

namespace Meaning

/-- The steps of a choice return: with which outcome, in which world, and which of them have
been evaluated. The fallback runs in the world that the primary step has left. -/
inductive Chooses (steps : Meaning S σ) (t : TxnKey) (primary fallback : S) (w : World S σ) :
    Bool → World S σ → List (Evaluation S) → Prop where
  | primary {last : World S σ} (h : steps primary (some t) (w.hold t) = (.ok true, last)) :
    Chooses steps t primary fallback w true last [⟨primary, some t⟩]
  | fallback {u last : World S σ} {ok : Bool}
      (hprimary : steps primary (some t) (w.hold t) = (.ok false, u))
      (h : steps fallback (some t) (u.emit .fallingBack) = (.ok ok, last)) :
    Chooses steps t primary fallback w ok last [⟨primary, some t⟩, ⟨fallback, some t⟩]

variable {steps : Meaning S σ} {a : Action S} {t : TxnKey} {primary fallback : S}
  {w last : World S σ} {ok : Bool} {evaluated : List (Evaluation S)}

/-- The steps of a choice return, unless one of them halts. -/
theorem exists_chooses (halive : w.engine.isAlive t = true)
    (hnone : ∀ halt v, ¬ steps.Interrupts halt (.choice t primary fallback) w v) :
    ∃ ok last evaluated, steps.Chooses t primary fallback w ok last evaluated := by
  rcases hprimary : steps primary (some t) (w.hold t) with ⟨halt | ok, u⟩
  · exact absurd (.primary halive hprimary) (hnone halt u)
  · cases ok with
    | true => exact ⟨true, u, _, .primary hprimary⟩
    | false =>
      rcases hfallback : steps fallback (some t) (u.emit .fallingBack) with ⟨halt | ok, last⟩
      · exact absurd (.fallback halive hprimary hfallback) (hnone halt last)
      · exact ⟨ok, last, _, .fallback hprimary hfallback⟩

namespace Chooses

variable (h : steps.Chooses t primary fallback w ok last evaluated)
include h

theorem invoke_eq (hbody : a.body = .choice t primary fallback)
    (halive : w.engine.isAlive t = true) :
    steps.invoke a w = (.ok ok, (last.release t).emit (.invoked a.kind ok)) := by
  rw [invoke, hbody, runBody, Run.bind_apply, onLive_of_isAlive halive, Run.holding_apply]
  cases h with
  | primary h =>
    rw [Run.bind_apply, h]
    rfl
  | fallback hprimary h =>
    rw [Run.bind_apply, hprimary]
    simp only [Run.bind_apply, Run.emit_apply, Bool.false_eq_true, if_false, h]
    rfl

theorem evaluations_eq (hbody : a.body = .choice t primary fallback)
    (halive : w.engine.isAlive t = true) : steps.evaluations a w = evaluated := by
  rw [steps.evaluations_choice hbody halive]
  cases h with
  | primary h =>
    rw [h]
    rfl
  | fallback hprimary h =>
    rw [hprimary]
    rfl

/-- The invocation owns the transaction until its last step has returned. -/
theorem reachable (hsteps : steps.Tidy) (halive : w.engine.isAlive t = true)
    {H : List (Hand S)} (hw : (w.stage H).Reachable) :
    (last.stage (.invocation t :: H)).Reachable := by
  have hstart : ((w.hold t).stage (.invocation t :: H)).Reachable := hw.move (.upgrade halive)
  cases h with
  | primary h => exact hstart.moves ((hsteps primary _).moves_of_eq h _)
  | @fallback u last ok hprimary h =>
    have hmiddle := hstart.moves ((hsteps primary _).moves_of_eq hprimary _)
    have hnext : ((u.emit .fallingBack).stage (.invocation t :: H)).Reachable :=
      hmiddle.move (.emit .fallingBack)
    exact hnext.moves ((hsteps fallback _).moves_of_eq h _)

end Chooses

end Meaning

/-- While the steps of a choice run, its transaction is alive. -/
theorem Chronicler.Sound.isAlive_of_passed_choice {C : Chronicler S σ} (hC : C.Sound)
    {w v : World S σ} {H : List (Hand S)} (hw : (w.stage H).Reachable) {t : TxnKey}
    {primary fallback : S} (hv : .passed v ∈ C.body (.choice t primary fallback) w) :
    v.engine.isAlive t = true := by
  rw [body] at hv
  split at hv
  · next halive =>
    have hstart : ((w.hold t).stage (.invocation t :: H)).Reachable := hw.move (.upgrade halive)
    exact (hC.tracks_choice t primary fallback (w.hold t)).isAlive_of_passed hstart
      List.mem_cons_self hv
  · cases hv

/-- Of an invocation of a choice in any world that can come about, whose steps do not halt but
may do whatever they like. Its transaction is looked for when it begins. If it is gone, the
outcome is `false` and no step is evaluated. Otherwise the primary step is evaluated, and the
fallback if that has returned `false`, each against the transaction and not more than once;
the outcome is that of the step evaluated last. The transaction is alive at every instruction
of the steps, and of those nested in them, and at every stage between the first step and the
return of the last. After that it is alive exactly if somebody else owns it, whatever the
steps have done with the references that there were. -/
theorem invoke_choice (programs : S → Program S σ) (depth : Nat) {w : World S σ}
    {H : List (Hand S)} (hw : (w.stage H).Reachable) (key : BodyKey) (t : TxnKey)
    (primary fallback : S)
    (hnone : ∀ halt v, ¬ (Meaning.ofPrograms programs depth).Interrupts halt
      (.choice t primary fallback) w v) :
    let steps := Meaning.ofPrograms programs depth
    let a : Action S := (Recipe.choice t primary fallback).make key
    (w.engine.isAlive t = false →
      steps.invoke a w = (.ok false, Meaning.orphan a w) ∧ steps.evaluations a w = []) ∧
    (w.engine.isAlive t = true → ∃ ok last,
      steps.Chooses t primary fallback w ok last (steps.evaluations a w) ∧
      steps.invoke a w = (.ok ok, (last.release t).emit (.invoked .choice ok)) ∧
      (∀ v, .passed v ∈ (Chronicler.ofPrograms programs depth).body a.body w →
        v.engine.isAlive t = true) ∧
      (∀ s, Moves ((w.hold t).stage (.invocation t :: H)) s →
        Moves s (last.stage (.invocation t :: H)) → s.engine.isAlive t = true) ∧
      ((steps.invoke a w).2.engine.isAlive t = true ↔ (last.stage H).Owned t)) := by
  intro steps a
  have hsteps : steps.Tidy := Meaning.tidy_ofPrograms programs depth
  have hbody : a.body = .choice t primary fallback := rfl
  refine ⟨fun hdead => ⟨steps.invoke_of_not_canRun hdead, steps.evaluations_of_not_canRun hdead⟩,
    ?_⟩
  intro halive
  obtain ⟨ok, last, evaluated, h⟩ := Meaning.exists_chooses halive hnone
  have hinvoke : steps.invoke a w = (.ok ok, (last.release t).emit (.invoked .choice ok)) :=
    h.invoke_eq hbody halive
  have hlast : (last.stage (.invocation t :: H)).Reachable := h.reachable hsteps halive hw
  have hstart : ((w.hold t).stage (.invocation t :: H)).Reachable := hw.move (.upgrade halive)
  refine ⟨ok, last, ?_, hinvoke, fun v hv => ?_, fun s hbefore hafter => ?_, ?_⟩
  · rwa [h.evaluations_eq hbody halive]
  · exact (Chronicler.sound_noted programs depth).isAlive_of_passed_choice hw hv
  · have hmade := (hw.made_of_mem_owners ((hw.balanced.isAlive_iff t).1 halive)).moves
      (Relation.ReflTransGen.head (.upgrade halive) hbefore)
    exact (hstart.moves hbefore).balanced.isAlive_of_moves hmade hafter
      (hlast.isAlive_of_mem_hands List.mem_cons_self)
  · have hreleased : ((last.release t).stage H).Reachable := hlast.move (.letGo (.invocation t))
    rw [hinvoke, Stage.owned_iff_mem_owners]
    exact hreleased.balanced.isAlive_iff t

/-- The primary step gives up the only handle of the transaction, replaces its plan, invokes
the choice once more and fails; in the nested invocation it returns at once. -/
def turncoat (isPrimary : Bool) : Program Bool Nat :=
  if isPrimary then .remember (· + 1) fun n =>
    if n < 2 then
      .perform (.discard .handle "h") fun _ => .install [] (.perform (.invoke "a") fun _ =>
        .finish false)
    else .finish true
  else .finish true

/-- A transaction with one handle and a choice. -/
def turncoats : World Bool Nat :=
  Command.performAll (.ofPrograms turncoat 3)
    [.openContext "c" none, .openTxn "c" "h", .bindChoice "h" true false "a",
      .install "h" ["a", "a"]]
    { memory := 0 }

theorem turncoats_invoke_choice :
    let steps := Meaning.ofPrograms turncoat 3
    let a : Action Bool := (Recipe.choice ⟨0⟩ true false).make ⟨0⟩
    (turncoats.stage []).Reachable ∧ turncoats.shelf.actions.get? "a" = some a ∧
      turncoats.engine.isAlive ⟨0⟩ = true ∧
      ∃ ok last, steps.Chooses ⟨0⟩ true false turncoats ok last (steps.evaluations a turncoats) ∧
        ok = true ∧ steps.evaluations a turncoats = [⟨true, some ⟨0⟩⟩, ⟨false, some ⟨0⟩⟩] ∧
        last.memory = 2 ∧ last.engine.plan? ⟨0⟩ = some [] ∧ last.engine.isAlive ⟨0⟩ = true ∧
        (steps.invoke a turncoats).2.engine.isAlive ⟨0⟩ = false ∧
        ¬ (last.stage []).Owned ⟨0⟩ := by
  intro steps a
  have hreach : (turncoats.stage []).Reachable := Command.reachable_performAll _ _ _ _
  have halive : turncoats.engine.isAlive ⟨0⟩ = true := rfl
  have hreturns : (steps.invoke a turncoats).1 = .ok true := rfl
  have hnone : ∀ halt v, ¬ steps.Interrupts halt (.choice ⟨0⟩ true false) turncoats v := by
    intro halt v hv
    have herror : steps.invoke a turncoats = (.error halt, _) :=
      Meaning.invoke_eq_error_iff.2 ⟨v, hv, rfl⟩
    rw [herror] at hreturns
    cases hreturns
  obtain ⟨ok, last, hchooses, hinvoke, -, -, howned⟩ :=
    (invoke_choice turncoat 3 hreach ⟨0⟩ ⟨0⟩ true false hnone).2 halive
  have hworld : (steps.invoke a turncoats).2 = (last.release ⟨0⟩).emit (.invoked .choice ok) :=
    congrArg Prod.snd hinvoke
  have hmemory : last.memory = (steps.invoke a turncoats).2.memory := by rw [hworld]; rfl
  have hplan : last.engine.plan? ⟨0⟩ = (steps.invoke a turncoats).2.engine.plan? ⟨0⟩ := by
    rw [hworld]
    rfl
  have hlast := hchooses.reachable (Meaning.tidy_ofPrograms turncoat 3) halive hreach
  have hafter : (steps.invoke a turncoats).2.engine.isAlive ⟨0⟩ = false := rfl
  refine ⟨hreach, rfl, halive, ok, last, hchooses, ?_, rfl, hmemory, hplan,
    hlast.isAlive_of_mem_hands List.mem_cons_self, hafter, ?_⟩
  · exact Except.ok.inj ((congrArg Prod.fst hinvoke).symm.trans hreturns)
  · rw [← howned]
    exact Bool.eq_false_iff.1 hafter

end TxnAssembly
