import TxnAssembly.Proofs.Tales

/-!
# Where nested invocations begin

Steps run in the middle of plays and invocations, and what they invoke begins there. The
invocations of a tale are founded: each begins at a stage that can come about, with the plays
and invocations around it among the hands, and with an action that has been put somewhere
before. One lemma tells this of an invocation, one of each way to run a plan, of a command and
of a program, and the rest is induction on the depth of the nesting.
-/
namespace TxnAssembly

variable {S σ α : Type}

/-- The world in which the invocation begins can come about, with some hands more, and the action
is known there. -/
def Moment.Founded (H : List (Hand S)) (m : Moment S σ) : Prop :=
  ∃ K, (m.world.stage (K ++ H)).Knows m.action

/-- All invocations of a tale are founded. -/
def Tale.Founded (H : List (Hand S)) (x : Tale S σ) : Prop :=
  ∀ c ∈ x.invocations, c.toMoment.Founded H

namespace Tale.Founded

variable {H : List (Hand S)} {w : World S σ} {x y : Tale S σ}

theorem of_invocations (h : x.invocations = []) : x.Founded H := by
  intro c hc
  rw [h] at hc
  cases hc

theorem nil : (nil : Tale S σ).Founded H := of_invocations rfl

theorem since (w u : World S σ) : (Tale.since w u).Founded H :=
  of_invocations (invocations_ofEvents _)

theorem event (e : Event) (h : x.Founded H) : (Tale.event e x).Founded H := h

theorem append (hx : x.Founded H) (hy : y.Founded H) : (x ++ y).Founded H := by
  intro c hc
  rw [invocations_append] at hc
  exact (List.mem_append.1 hc).elim (hx c) (hy c)

/-- A tale behind a run. -/
theorem after {run : Run S σ α} {g : α → World S σ → Tale S σ} (hrun : run.TidyAt w)
    (next : ∀ a u, Moves (w.stage H) (u.stage H) → (g a u).Founded H) :
    (Tale.after (run w) g).Founded H := by
  have hmoves := hrun H
  rcases hresult : run w with ⟨halt | a, u⟩
  · exact nil
  · rw [hresult] at hmoves
    exact next a u hmoves

/-- A tale behind a search for a slot. -/
theorem found {name : String} {slots : Shelf S → Slots α} {g : α → World S σ → Tale S σ}
    (next : ∀ a, (slots w.shelf).get? name = some a → (g a w).Founded H) :
    (Tale.after (Command.find name slots w) g).Founded H := by
  rw [Command.find_apply]
  cases hget : (slots w.shelf).get? name with
  | none => exact nil
  | some a => exact next a hget

/-- What happens while one hand more is there. -/
theorem behind {h : Hand S} (hx : x.Founded (h :: H)) : x.Founded H := by
  intro c hc
  obtain ⟨K, hknows⟩ := hx c hc
  refine ⟨K ++ [h], ?_⟩
  rw [List.append_assoc]
  exact hknows

end Tale.Founded

namespace Teller

variable (T : Teller S σ) {a : Action S} {w : World S σ} {H : List (Hand S)} {t : TxnKey}

theorem tidy : T.steps.Tidy := Meaning.tidy_ofPrograms T.programs T.depth

theorem body_of_not_canRun {b : Body S} (h : w.engine.canRun b = false) :
    T.body b w = .event (.orphaned b.shape) .nil := by
  cases b with
  | free s => cases h
  | step t s | choice t primary fallback =>
    have halive : w.engine.isAlive t = false := h
    simp [body, halive, Body.shape]

/-- What is told of steps in any world that can come about is founded. -/
def Founded (T : Teller S σ) : Prop :=
  ∀ s t (w : World S σ) H, (w.stage H).Reachable → (T.tell s t w).Founded H

theorem invocations_inside : (T.inside a w).invocations = (T.body a.body w).invocations := by
  rw [inside, Tale.invocations_append, Tale.invocations_completion, List.append_nil]

end Teller

namespace Teller.Founded

variable {T : Teller S σ} (hT : T.Founded) {a : Action S} {w : World S σ} {H : List (Hand S)}
  {t : TxnKey}
include hT

/-- The steps of a body run in the middle of an invocation that owns the transaction. -/
theorem founded_steps {b : Body S} (hb : b.txn? = some t) (hw : (w.stage H).Reachable) :
    (T.body b w).Founded (.invocation t :: H) := by
  cases halive : w.engine.isAlive t with
  | false =>
    rw [T.body_of_not_canRun (by rw [Engine.canRun_of_txn? _ hb, halive])]
    exact .nil
  | true =>
    have hheld : ((w.hold t).stage (.invocation t :: H)).Reachable := hw.move (.upgrade halive)
    cases b with
    | free s => cases hb
    | step u s =>
      obtain rfl : u = t := Option.some.inj hb
      rw [body, if_pos halive]
      exact hT s (some u) _ _ hheld
    | choice u primary fallback =>
      obtain rfl : u = t := Option.some.inj hb
      rw [body, if_pos halive]
      refine (hT primary (some u) _ _ hheld).append ?_
      refine .after (T.tidy primary (some u) _) fun ok v hmoves => ?_
      cases ok with
      | true => exact .nil
      | false =>
        -- the fallback begins where the primary step has ended, in the same invocation
        have hemit : Move (v.stage (.invocation u :: H)) ((v.emit .fallingBack).stage _) :=
          .emit .fallingBack
        exact (hT fallback (some u) _ _ ((hheld.moves hmoves).move hemit)).event _

theorem founded_inside (hw : (w.stage H).Reachable) : (T.inside a w).Founded H := by
  have hbody : (T.body a.body w).Founded H := by
    cases a.body with
    | free s => exact hT s none w H hw
    | step t s | choice t primary fallback => exact (hT.founded_steps rfl hw).behind
  intro c hc
  rw [T.invocations_inside] at hc
  exact hbody c hc

theorem founded_invoke (ha : (w.stage H).Knows a) : (T.invoke a w).Founded H := by
  intro c hc
  rw [invoke, Tale.invocations, Tale.invocations] at hc
  obtain hc | hc := List.mem_append.1 hc
  · exact hT.founded_inside ha.reachable c hc
  · obtain rfl := List.mem_singleton.1 hc
    exact ⟨[], ha⟩

theorem founded_invokeAll {plan : List (Action S)} (hplan : ∀ a ∈ plan, (w.stage H).Knows a) :
    (T.invokeAll plan w).Founded H := by
  induction plan generalizing w with
  | nil => exact .nil
  | cons a rest ih =>
    obtain ⟨ha, hrest⟩ := List.forall_mem_cons.1 hplan
    refine (hT.founded_invoke ha).append ?_
    exact .after (Meaning.tidy_invoke T.tidy a w) fun _ u hmoves =>
      ih fun b hb => (hrest b hb).moves hmoves

theorem founded_invokeUntilFailure {plan : List (Action S)}
    (hplan : ∀ a ∈ plan, (w.stage H).Knows a) : (T.invokeUntilFailure plan w).Founded H := by
  induction plan generalizing w with
  | nil => exact .nil
  | cons a rest ih =>
    obtain ⟨ha, hrest⟩ := List.forall_mem_cons.1 hplan
    refine (hT.founded_invoke ha).append ?_
    refine .after (Meaning.tidy_invoke T.tidy a w) fun ok u hmoves => ?_
    cases ok with
    | false => exact .nil
    | true => exact ih fun b hb => (hrest b hb).moves hmoves

/-- The actions of a plan are invoked in the middle of a play that owns the transaction. -/
theorem founded_actions (hw : (w.stage H).Reachable) (ht : t ∈ (w.stage H).owners) :
    (T.play t w).Founded (.play t :: H) := by
  rw [play]
  cases hplan : w.engine.plan? t with
  | none => exact .nil
  | some plan =>
    have hstart : Move (w.stage H) ((w.hold t).stage (.play t :: H)) := .play ht
    refine hT.founded_invokeAll fun a ha => ?_
    exact (hw.knows_of_has (.inr (.inr (.inr ⟨t, plan, hplan, ha⟩)))).moves (.single hstart)

theorem founded_perform (hw : (w.stage H).Reachable) (c : Command S) :
    (T.perform c w).Founded H := by
  have hknows {name : String} {plan : List (Action S)}
      (hplan : w.shelf.plans.get? name = some plan) : ∀ a ∈ plan, (w.stage H).Knows a := by
    intro a ha
    have hstored : plan ∈ w.shelf.plans.values := w.shelf.plans.mem_values_iff.2 ⟨name, hplan⟩
    exact hw.knows_of_has (.inr (.inl ⟨plan, hstored, ha⟩))
  cases c with
  | play handle =>
    exact .found fun t ht =>
      (hT.founded_actions hw (Command.mem_owners_of_handle ht H)).behind
  | playPlan plan => exact .found fun plan hplan => hT.founded_invokeAll (hknows hplan)
  | runPlanUntilFailure plan =>
    exact .found fun plan hplan => hT.founded_invokeUntilFailure (hknows hplan)
  | invokeAt plan index =>
    refine .found fun plan hplan => ?_
    rw [Command.pick]
    cases ha : plan[index]? with
    | none => exact .nil
    | some a => exact hT.founded_invoke (hknows hplan a (List.mem_of_getElem? ha))
  | invoke action =>
    refine .found fun a ha => hT.founded_invoke (hw.knows_of_has (.inl ?_))
    exact w.shelf.actions.mem_values_iff.2 ⟨action, ha⟩
  | _ => exact .since _ _

theorem founded_run (t : Option TxnKey) (p : Program S σ) (hw : (w.stage H).Reachable) :
    (T.run t p w).Founded H := by
  induction p generalizing w with
  | finish ok => exact .nil
  | panic text => exact .nil
  | look next ih => exact ih _ hw
  | keepPlan into next ih => exact ih (hw.moves (Program.moves_storePlanOf t into w H))
  | install actions next ih =>
    exact (Tale.Founded.since _ _).append (ih (hw.moves (Program.moves_installFrom t actions w H)))
  | perform command next ih =>
    refine (hT.founded_perform hw command).append ?_
    exact .after ((Command.tidy_perform T.tidy command).settle w) fun reply u hmoves =>
      ih reply (hw.moves hmoves)
  | remember change next ih =>
    -- the memory is no part of a stage
    exact ih (change w.memory) (w := { w with memory := change w.memory }) hw

end Teller.Founded

/-- What is told of steps is founded if what is told of those nested in them is. -/
theorem Teller.founded_told (programs : S → Program S σ) (depth : Nat) :
    (Teller.ofPrograms programs depth).Founded := by
  induction depth with
  | zero => exact fun _ _ _ _ _ => .nil
  | succ depth ih => exact fun s t _ _ hw => ih.founded_run t (programs s) hw

end TxnAssembly
