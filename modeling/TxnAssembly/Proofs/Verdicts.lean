import TxnAssembly.Proofs.Choice

/-!
# What a failed invocation means

An invocation fails because its steps have failed, or because its transaction is gone and no
step has been evaluated. Whether the action is bound beforehand tells which of the two it will
be: the anchor is asked and the body looks for its own transaction, but every action that has
come about names the same one in both. Whether it is bound afterwards tells only half: a bound
action has been bound before, but an unbound one may have lost its transaction in the meantime,
through its own steps. An invocation gives its reference back before anybody can ask.
-/
namespace TxnAssembly

variable {S σ : Type}

namespace Meaning

/-- The steps of an action fail: in which world the last of them has returned, and which of
them have been evaluated. -/
inductive Fails (steps : Meaning S σ) : Body S → World S σ → World S σ → List (Evaluation S) → Prop
    where
  | free {s : S} {w last : World S σ} (h : steps s none w = (.ok false, last)) :
    Fails steps (.free s) w last [⟨s, none⟩]
  | step {t : TxnKey} {s : S} {w last : World S σ}
      (h : steps s (some t) (w.hold t) = (.ok false, last)) :
    Fails steps (.step t s) w last [⟨s, some t⟩]
  | choice {t : TxnKey} {primary fallback : S} {w u last : World S σ}
      (hprimary : steps primary (some t) (w.hold t) = (.ok false, u))
      (hfallback : steps fallback (some t) (u.emit .fallingBack) = (.ok false, last)) :
    Fails steps (.choice t primary fallback) w last [⟨primary, some t⟩, ⟨fallback, some t⟩]

variable {steps : Meaning S σ} {a : Action S} {t : TxnKey} {w u after last : World S σ}
  {primary fallback : S} {ok : Bool} {evaluated : List (Evaluation S)}

theorem onLive_eq_ok {kind : ActionKind} {x : Run S σ Bool} (halive : w.engine.isAlive t = true)
    (h : onLive t kind x w = (.ok ok, u)) :
    ∃ last, x (w.hold t) = (.ok ok, last) ∧ u = last.release t := by
  rw [onLive_of_isAlive halive, Run.holding_apply] at h
  obtain ⟨hresult, hworld⟩ := Prod.ext_iff.1 h
  exact ⟨(x (w.hold t)).2, Prod.ext hresult rfl, hworld.symm⟩

/-- An outcome is that of the body, and it is reported. -/
theorem invoke_eq_ok (h : steps.invoke a w = (.ok ok, after)) :
    ∃ u, steps.runBody a.body w = (.ok ok, u) ∧ after = u.emit (.invoked a.kind ok) := by
  obtain ⟨ok', u, hbody, hreport⟩ := Run.eq_ok_of_bind h
  cases hreport
  exact ⟨u, hbody, rfl⟩

/-- If a choice fails, its two steps have failed one after the other. -/
theorem choice_eq_false
    (h : (do
      if ← steps primary (some t) then return true
      Run.emit .fallingBack
      steps fallback (some t) : Run S σ Bool) w = (.ok false, last)) :
    ∃ u, steps primary (some t) w = (.ok false, u) ∧
      steps fallback (some t) (u.emit .fallingBack) = (.ok false, last) := by
  obtain ⟨ok, u, hprimary, hrest⟩ := Run.eq_ok_of_bind h
  cases ok with
  | true => cases hrest
  | false => exact ⟨u, hprimary, hrest⟩

/-- An action whose transaction lives fails only through its steps. -/
theorem exists_fails (hfound : w.engine.canRun a.body = true)
    (h : steps.invoke a w = (.ok false, after)) :
    ∃ last, steps.Fails a.body w last (steps.evaluations a w) ∧
      after = (last.release? a.body.txn?).emit (.invoked a.kind false) := by
  obtain ⟨u, hrun, hafter⟩ := invoke_eq_ok h
  cases hbody : a.body with
  | free s =>
    rw [hbody] at hrun
    rw [steps.evaluations_free hbody]
    exact ⟨u, .free hrun, hafter⟩
  | step t s =>
    rw [hbody] at hfound hrun
    obtain ⟨last, hstep, rfl⟩ := onLive_eq_ok hfound hrun
    rw [steps.evaluations_step hbody hfound]
    exact ⟨last, .step hstep, hafter⟩
  | choice t primary fallback =>
    rw [hbody] at hfound hrun
    obtain ⟨last, hchoice, rfl⟩ := onLive_eq_ok hfound hrun
    obtain ⟨u, hprimary, hfallback⟩ := choice_eq_false hchoice
    rw [steps.evaluations_choice hbody hfound, hprimary]
    exact ⟨last, .choice hprimary hfallback, hafter⟩

/-- When the last step returns, the invocation still owns the transaction. -/
theorem Fails.reachable (h : steps.Fails a.body w last evaluated) (hsteps : steps.Tidy)
    (ht : a.body.txn? = some t) (halive : w.engine.isAlive t = true) {H : List (Hand S)}
    (hw : (w.stage H).Reachable) : (last.stage (.invocation t :: H)).Reachable := by
  generalize a.body = b at h ht
  cases h with
  | free h => cases ht
  | step h =>
    cases ht
    exact (hw.move (.upgrade halive)).moves ((hsteps _ _).moves_of_eq h _)
  | choice hprimary hfallback =>
    cases ht
    exact (Chooses.fallback hprimary hfallback).reachable hsteps halive hw

/-- An invocation in which no step halts has an outcome. -/
theorem exists_invoke_eq_ok (hnone : ∀ halt v, ¬ steps.Interrupts halt a.body w v) :
    ∃ ok, (steps.invoke a w).1 = .ok ok := by
  rcases h : steps.invoke a w with ⟨halt | ok, after⟩
  · obtain ⟨v, hv, -⟩ := invoke_eq_error_iff.1 h
    exact absurd hv (hnone halt v)
  · exact ⟨ok, rfl⟩

/-- Whoever has a transaction in hand while one of its actions is invoked finds the action
bound afterwards. -/
theorem isBound_invoke_of_mem_hands (hsteps : steps.Tidy) {H : List (Hand S)}
    (hw : (w.stage H).Reachable) (ht : a.anchor = some t) {x : Hand S} (hx : x ∈ H)
    (hxt : x.txn = t) : (steps.invoke a w).2.engine.isBound a = true := by
  have hafter : ((steps.invoke a w).2.stage H).Reachable := hw.moves (tidy_invoke hsteps a w H)
  rw [Engine.isBound_of_anchor _ ht, ← hxt]
  exact hafter.isAlive_of_mem_hands hx

end Meaning

theorem Stage.Reachable.isBound_iff {s : Stage S} (hs : s.Reachable) (a : Action S) :
    s.engine.isBound a = true ↔ ∀ t, a.anchor = some t → s.Owned t := by
  cases ht : a.anchor with
  | none => simp [Engine.isBound, ht]
  | some t =>
    rw [Engine.isBound_of_anchor _ ht, hs.balanced.isAlive_iff, ← s.owned_iff_mem_owners]
    simp

/-- An action that has come about and is unbound stays so. -/
theorem Stage.Reachable.isBound_of_moves {s s' : Stage S} (hs : s.Reachable) {a : Action S}
    (ha : s.Knows a) (h : Moves s s') (hbound : s'.engine.isBound a = true) :
    s.engine.isBound a = true := by
  cases ht : a.anchor with
  | none => rw [Engine.isBound, ht]
  | some t =>
    rw [Engine.isBound_of_anchor _ ht] at hbound ⊢
    exact hs.balanced.isAlive_of_moves (ha.made (ha.isMade.anchor_eq.symm.trans ht)) h hbound

/-- Of an invocation, in any world that can come about and with steps that may do whatever they
like, of any action that has come about: one that can be found somewhere, or that could be found
before and that somebody has a copy of. Its anchor names the transaction that its body has
captured. So whether it is bound beforehand decides whether its first step is evaluated, and is
a question of who owns that transaction. If it is not bound the outcome is `false`, and all that
happens is that this is reported. There is an outcome unless a step halts. If it is `false`, and
the action is bound right after it or at any later time, then the action was bound beforehand
and its steps have failed: its only step, or primary step and fallback in turn, evaluated once
each. -/
theorem isBound_decides_invoke (programs : S → Program S σ) (depth : Nat) {w : World S σ}
    {H : List (Hand S)} (hw : (w.stage H).Reachable) {a : Action S} (ha : (w.stage H).Knows a) :
    let steps := Meaning.ofPrograms programs depth
    a.anchor = a.body.txn? ∧
      ((w.engine.isBound a = true ↔
          ⟨Meaning.firstStep a.body, a.body.txn?⟩ ∈ steps.evaluations a w) ∧
        (w.engine.isBound a = true ↔ ∀ t, a.anchor = some t → (w.stage H).Owned t)) ∧
      (w.engine.isBound a = false →
        steps.invoke a w = (.ok false, Meaning.orphan a w) ∧ steps.evaluations a w = []) ∧
      ((∀ halt v, ¬ steps.Interrupts halt a.body w v) → ∃ ok, (steps.invoke a w).1 = .ok ok) ∧
      ∀ after, steps.invoke a w = (.ok false, after) →
        (after.engine.isBound a = true ∨
          ∃ s, Moves (after.stage H) s ∧ s.engine.isBound a = true) →
        w.engine.isBound a = true ∧ ∃ last,
          steps.Fails a.body w last (steps.evaluations a w) ∧
          after = (last.release? a.body.txn?).emit (.invoked a.kind false) := by
  intro steps
  have hsteps : steps.Tidy := Meaning.tidy_ofPrograms programs depth
  have hagree (e : Engine S) : e.isBound a = e.canRun a.body := ha.isMade.isBound_eq e
  refine ⟨ha.isMade.anchor_eq, ⟨⟨fun hbound => ?_, fun hmem => ?_⟩, hw.isBound_iff a⟩,
    fun hunbound => ?_, Meaning.exists_invoke_eq_ok, fun after hafter hbound => ?_⟩
  · rw [hagree] at hbound
    exact (steps.evaluations_of_canRun hbound).mem List.mem_cons_self
  · rw [hagree]
    exact (steps.canRun_iff_evaluations a w).2 (List.ne_nil_of_mem hmem)
  · rw [hagree] at hunbound
    exact ⟨steps.invoke_of_not_canRun hunbound, steps.evaluations_of_not_canRun hunbound⟩
  · have hinvoke : Moves (w.stage H) (after.stage H) := by
      have hmoves := Meaning.tidy_invoke hsteps a w H
      rw [hafter] at hmoves
      exact hmoves
    have hbefore : w.engine.isBound a = true := by
      obtain hbound | ⟨s, hlater, hbound⟩ := hbound
      · exact hw.isBound_of_moves ha hinvoke hbound
      · exact hw.isBound_of_moves ha (hinvoke.trans hlater) hbound
    exact ⟨hbefore, Meaning.exists_fails ((hagree _).symm.trans hbefore) hafter⟩

/-- A step that fails, and one that gives a handle up before it fails. -/
def sulk (drops : Bool) : Program Bool Unit :=
  if drops then .perform (.discard .handle "h") fun _ => .finish false else .finish false

/-- A transaction with a choice and a single step, after some more commands. -/
def sulking (more : List (Command Bool)) : World Bool Unit :=
  Command.performAll (.ofPrograms sulk 1)
    ([.openContext "c" none, .openTxn "c" "h", .bindChoice "h" true false "a",
      .bindStep "h" true "b"] ++ more)
    { memory := () }

theorem reachable_sulking (more : List (Command Bool)) : ((sulking more).stage []).Reachable :=
  Command.reachable_performAll _ _ _ _

/-- With a second handle the choice is still bound after its primary step has dropped the
first. Without any it is not bound to begin with. -/
theorem sulking_isBound_decides_invoke :
    let steps := Meaning.ofPrograms sulk 1
    let a : Action Bool := (Recipe.choice ⟨0⟩ true false).make ⟨0⟩
    let shared := sulking [.cloneHandle "h" "g"]
    let gone := sulking [.discard .handle "h"]
    (((shared.stage []).Reachable ∧ (shared.stage []).Knows a) ∧
        (gone.stage []).Reachable ∧ (gone.stage []).Knows a) ∧
      (shared.engine.isBound a = true ∧ (shared.stage []).Owned ⟨0⟩ ∧
        (steps.invoke a shared).1 = .ok false ∧
        (steps.invoke a shared).2.engine.isBound a = true ∧
        ∃ last, steps.Fails a.body shared last [⟨true, some ⟨0⟩⟩, ⟨false, some ⟨0⟩⟩]) ∧
      gone.engine.isBound a = false ∧
        steps.invoke a gone = (.ok false, Meaning.orphan a gone) ∧
        steps.evaluations a gone = [] := by
  intro steps a shared gone
  have hbefore : shared.engine.isBound a = true := rfl
  have hafter : (steps.invoke a shared).2.engine.isBound a = true := rfl
  have hgone : gone.engine.isBound a = false := rfl
  have hinvoke : steps.invoke a shared = (.ok false, (steps.invoke a shared).2) :=
    Prod.ext rfl rfl
  have hshared : (shared.stage []).Reachable := reachable_sulking [.cloneHandle "h" "g"]
  have hdropped : (gone.stage []).Reachable := reachable_sulking [.discard .handle "h"]
  have hknown : (shared.stage []).Knows a :=
    hshared.knows_of_has (.inl (shared.shelf.actions.mem_values_iff.2 ⟨"a", rfl⟩))
  have hknown' : (gone.stage []).Knows a :=
    hdropped.knows_of_has (.inl (gone.shelf.actions.mem_values_iff.2 ⟨"a", rfl⟩))
  obtain ⟨-, ⟨-, howned⟩, -, -, hfails⟩ := isBound_decides_invoke sulk 1 hshared hknown
  obtain ⟨-, last, hlast, -⟩ := hfails _ hinvoke (.inl hafter)
  obtain ⟨-, -, horphan, -⟩ := isBound_decides_invoke sulk 1 hdropped hknown'
  exact ⟨⟨⟨hshared, hknown⟩, hdropped, hknown'⟩,
    ⟨hbefore, howned.1 hbefore ⟨0⟩ rfl, rfl, hafter, last, hlast⟩, hgone, horphan hgone⟩

/-- Of an invocation of an action that was made with a transaction, in any world that can come
about, which has failed and after which the action is unbound. No step has been evaluated
exactly if nobody owned the transaction when it began, and then the invocation has done no more
than report that. If somebody did, the steps have failed. When the last of them returned the
invocation itself was the last owner; so nobody had the transaction in hand meanwhile. -/
theorem failed_and_unbound (programs : S → Program S σ) (depth : Nat) {w : World S σ}
    {H : List (Hand S)} (hw : (w.stage H).Reachable) {a : Action S} (ha : a.IsMade) {t : TxnKey}
    (ht : a.anchor = some t) {after : World S σ}
    (hfails : (Meaning.ofPrograms programs depth).invoke a w = (.ok false, after))
    (hunbound : after.engine.isBound a = false) :
    let steps := Meaning.ofPrograms programs depth
    (steps.evaluations a w = [] ↔ ¬ (w.stage H).Owned t) ∧
      (¬ (w.stage H).Owned t → after = Meaning.orphan a w) ∧
      ((w.stage H).Owned t → (∀ x ∈ H, x.txn ≠ t) ∧ ∃ last,
        (steps.Fails a.body w last (steps.evaluations a w) ∧
          after = (last.release t).emit (.invoked a.kind false)) ∧
        (last.stage (.invocation t :: H)).Owned t ∧ ¬ (last.stage H).Owned t) := by
  intro steps
  have hsteps : steps.Tidy := Meaning.tidy_ofPrograms programs depth
  have hbody : a.body.txn? = some t := ha.anchor_eq.symm.trans ht
  have hfound : w.engine.canRun a.body = true ↔ (w.stage H).Owned t := by
    rw [Engine.canRun_of_txn? _ hbody, Stage.owned_iff_mem_owners]
    exact hw.balanced.isAlive_iff t
  refine ⟨?_, fun hnobody => ?_, fun howned => ⟨fun x hx hxt => ?_, ?_⟩⟩
  · rw [← hfound, steps.canRun_iff_evaluations, Classical.not_not]
  · rw [← hfound, Bool.not_eq_true] at hnobody
    exact congrArg Prod.snd (hfails.symm.trans (steps.invoke_of_not_canRun hnobody))
  · have hheld := Meaning.isBound_invoke_of_mem_hands hsteps hw ht hx hxt
    rw [hfails] at hheld
    exact Bool.false_ne_true (hunbound.symm.trans hheld)
  · obtain ⟨last, hlast, hafter⟩ := Meaning.exists_fails (hfound.2 howned) hfails
    have halive : w.engine.isAlive t = true := by
      rw [← Engine.canRun_of_txn? _ hbody]
      exact hfound.2 howned
    have hreach := hlast.reachable hsteps hbody halive hw
    have hreleased : ((last.release t).stage H).Reachable := hreach.move (.letGo (.invocation t))
    rw [hbody] at hafter
    refine ⟨last, ⟨hlast, hafter⟩, .invocation List.mem_cons_self, ?_⟩
    -- Any other owner would have kept the transaction alive beyond the invocation.
    rw [hafter, Engine.isBound_of_anchor _ ht] at hunbound
    rw [Stage.owned_iff_mem_owners]
    exact fun hmem => Bool.false_ne_true
      (hunbound.symm.trans ((hreleased.balanced.isAlive_iff t).2 hmem))

/-- An invocation that fails because of its step, and leaves the action unbound, as if no step
had been evaluated. -/
theorem sulking_step_unbound :
    let steps := Meaning.ofPrograms sulk 1
    let a : Action Bool := (Recipe.sequential ⟨0⟩ true).make ⟨1⟩
    let w := sulking []
    (w.stage []).Reachable ∧ w.shelf.actions.get? "b" = some a ∧
      (steps.invoke a w).1 = .ok false ∧ (steps.invoke a w).2.engine.isBound a = false ∧
      steps.evaluations a w = [⟨true, some ⟨0⟩⟩] := by
  intro steps a w
  exact ⟨reachable_sulking [], rfl, rfl, rfl, rfl⟩

/-- The choice fails with its two steps if there is one handle, and without them if there is
none. Both times it is unbound afterwards. -/
theorem sulking_failed_and_unbound :
    let steps := Meaning.ofPrograms sulk 1
    let a : Action Bool := (Recipe.choice ⟨0⟩ true false).make ⟨0⟩
    let alone := sulking []
    let gone := sulking [.discard .handle "h"]
    ((alone.stage []).Reachable ∧ (steps.invoke a alone).1 = .ok false ∧
        (steps.invoke a alone).2.engine.isBound a = false ∧ (alone.stage []).Owned ⟨0⟩ ∧
        ∃ last, steps.Fails a.body alone last [⟨true, some ⟨0⟩⟩, ⟨false, some ⟨0⟩⟩] ∧
          ¬ (last.stage []).Owned ⟨0⟩) ∧
      (gone.stage []).Reachable ∧ (steps.invoke a gone).1 = .ok false ∧
        (steps.invoke a gone).2.engine.isBound a = false ∧ ¬ (gone.stage []).Owned ⟨0⟩ ∧
        (steps.invoke a gone).2 = Meaning.orphan a gone := by
  intro steps a alone gone
  have halone : (alone.stage []).Reachable := reachable_sulking []
  have hgone : (gone.stage []).Reachable := reachable_sulking [.discard .handle "h"]
  have hfails : steps.invoke a alone = (.ok false, (steps.invoke a alone).2) := Prod.ext rfl rfl
  have hfails' : steps.invoke a gone = (.ok false, (steps.invoke a gone).2) := Prod.ext rfl rfl
  have hevaluated : steps.evaluations a gone = [] := rfl
  have howned : (alone.stage []).Owned ⟨0⟩ := .handle "h" rfl
  have hmade : a.IsMade := Recipe.isMade_make _ _
  obtain ⟨-, -, hsome⟩ := failed_and_unbound sulk 1 halone hmade (t := ⟨0⟩) rfl hfails rfl
  obtain ⟨hnone, horphan, -⟩ := failed_and_unbound sulk 1 hgone hmade (t := ⟨0⟩) rfl hfails' rfl
  obtain ⟨-, last, ⟨hlast, -⟩, -, hlost⟩ := hsome howned
  exact ⟨⟨halone, rfl, rfl, howned, last, hlast, hlost⟩, hgone, rfl, rfl, hnone.1 hevaluated,
    horphan (hnone.1 hevaluated)⟩

end TxnAssembly
