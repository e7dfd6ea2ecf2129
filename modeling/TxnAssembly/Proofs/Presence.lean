import TxnAssembly.Proofs.Nesting
import TxnAssembly.Proofs.Stopping

/-!
# Who is there while a step runs

A step runs in the middle of things: of the invocation that evaluates it, of the play that this
is part of, and of whatever has led there. The world that it sees is one of the stages that can
come about, with all of these among the hands. So what holds of the stages holds there as well,
and an action is bound exactly while its transaction has an owner, there as anywhere.
-/
namespace TxnAssembly

variable {S σ : Type}

/-- A step begins: which one, against which transaction, and in which world. -/
structure Scene (S σ : Type) where
  step : S
  txn : Option TxnKey
  world : World S σ

namespace Scene

/-- The stage of a scene, given the hands around the invocation that it is part of. -/
def stage (x : Scene S σ) (H : List (Hand S)) : Stage S :=
  x.world.stage ((x.txn.map Hand.invocation).toList ++ H)

/-- The scene can come about with these hands around it, and so can every world in which the
step is at an instruction from there on, or a step that is nested in it. -/
structure Stands (programs : S → Program S σ) (depth : Nat) (x : Scene S σ)
    (H : List (Hand S)) : Prop where
  reachable : (x.stage H).Reachable
  onward : ∀ v, .passed v ∈ (Chronicler.ofPrograms programs depth).step x.step x.txn x.world →
    ∃ K, (v.stage (K ++ (x.stage H).hands)).Reachable

/-- In all of these worlds the action is bound. -/
structure Keeps (programs : S → Program S σ) (depth : Nat) (x : Scene S σ)
    (H : List (Hand S)) (a : Action S) : Prop extends x.Stands programs depth H where
  isBound : x.world.engine.isBound a = true
  isBound_onward : ∀ v,
    .passed v ∈ (Chronicler.ofPrograms programs depth).step x.step x.txn x.world →
    v.engine.isBound a = true

end Scene

/-- The scenes that a run goes through, as steps tell them that record the world in which they
begin. Those of the steps nested in them are not among them. -/
def Meaning.scenes (steps : Meaning S σ) {α : Type}
    (run : Meaning S (Traced (Scene S σ) σ) → Run S (Traced (Scene S σ) σ) α) (w : World S σ) :
    List (Scene S σ) :=
  (run (steps.recording Scene.mk)).recorded w

/-- The scenes of an invocation. -/
def Moment.scenes (programs : S → Program S σ) (m : Moment S σ) : List (Scene S σ) :=
  (m.steps programs).scenes (·.invoke m.action) m.world

/-- Whoever is in hand keeps the actions of its transaction bound. -/
theorem Stage.Reachable.isBound_of_mem_hands {s : Stage S} (hs : s.Reachable) {x : Hand S}
    (hx : x ∈ s.hands) {a : Action S} (ha : a.anchor = some x.txn) :
    s.engine.isBound a = true := by
  rw [Engine.isBound_of_anchor _ ha]
  exact hs.isAlive_of_mem_hands hx

namespace Scene

variable (programs : S → Program S σ) (depth : Nat) {x : Scene S σ} {H : List (Hand S)}

/-- A scene is left by moves only. -/
theorem stands_of_reachable (hx : (x.stage H).Reachable) : x.Stands programs depth H where
  reachable := hx
  onward v hv := by
    have htracks := Chronicler.sound_noted programs depth x.step x.txn x.world
    obtain ⟨K, hK⟩ := htracks.reach v hv
    exact ⟨K, hx.moves (hK (x.stage H).hands)⟩

theorem keeps_of_mem_hands {h : Hand S} (hh : h ∈ (x.stage H).hands) {a : Action S}
    (ha : a.anchor = some h.txn) (hx : (x.stage H).Reachable) : x.Keeps programs depth H a where
  toStands := stands_of_reachable programs depth hx
  isBound := hx.isBound_of_mem_hands hh ha
  isBound_onward v hv := by
    obtain ⟨K, hreach⟩ := (stands_of_reachable programs depth hx).onward v hv
    exact hreach.isBound_of_mem_hands (List.mem_append_right K hh) ha

end Scene

namespace Meaning

variable {steps : Meaning S σ} (hsteps : steps.Tidy) {a : Action S} {w : World S σ}
  {x : Scene S σ}

include hsteps

/-- A step of an invocation runs against the transaction of the action, and the invocation has
got there by moves and owns the transaction. -/
theorem scene_of_invoke (hx : x ∈ steps.scenes (·.invoke a) w) :
    x.txn = a.body.txn? ∧ ∀ H, Moves (w.stage H) (x.stage H) := by
  rw [scenes] at hx
  cases hfound : w.engine.canRun a.body with
  | false =>
    rw [steps.recorded_of_not_canRun _ hfound] at hx
    cases hx
  | true =>
    cases hb : a.body with
    | free s =>
      rw [steps.recorded_free hb] at hx
      obtain rfl := List.mem_singleton.1 hx
      exact ⟨rfl, fun H => .refl⟩
    | step t s =>
      rw [hb] at hfound
      rw [steps.recorded_step hb hfound] at hx
      obtain rfl := List.mem_singleton.1 hx
      exact ⟨rfl, fun H => .single (.upgrade hfound)⟩
    | choice t primary fallback =>
      rw [hb] at hfound
      rw [steps.recorded_choice hb hfound] at hx
      obtain rfl | hx := List.mem_cons.1 hx
      · exact ⟨rfl, fun H => .single (.upgrade hfound)⟩
      · obtain ⟨ok, u, hprimary, hx⟩ := Run.mem_after.1 hx
        cases ok with
        | true => cases hx
        | false =>
          -- the invocation has not given its reference back between the two steps
          obtain rfl := List.mem_singleton.1 hx
          refine ⟨rfl, fun H => .head (.upgrade hfound) ?_⟩
          exact ((hsteps primary _).moves_of_eq hprimary _).tail (.emit .fallingBack)

/-- A run through a plan has got by moves to the scenes of the invocations on the way. -/
theorem moves_scene_of_visit {plan : List (Action S)} {v : Action S × World S σ}
    (hv : v ∈ steps.visits plan w) (hx : x ∈ steps.scenes (·.invoke v.1) v.2)
    (H : List (Hand S)) : Moves (w.stage H) (x.stage H) :=
  ((moves_visits hsteps plan w H).1 v hv).trans ((scene_of_invoke hsteps hx).2 H)

omit hsteps in
/-- A play goes through the scenes of the invocations on the way, whether it stops at the first
failure or not. -/
theorem exists_visit_of_play {t : TxnKey}
    (hx : x ∈ steps.scenes (·.play t) w ∨ x ∈ steps.scenes (·.runUntilFailure t) w) :
    ∃ plan, ∃ v ∈ steps.visits plan (w.hold t), x ∈ steps.scenes (·.invoke v.1) v.2 := by
  cases hplan : w.engine.plan? t with
  | none =>
    have hnone : (w.traced ([] : List (Scene S σ))).engine.plan? t = none := hplan
    rw [scenes, scenes, Run.recorded, Run.recorded, play_of_no_plan _ hnone,
      runUntilFailure_of_no_plan _ hnone] at hx
    obtain hx | hx := hx <;> cases hx
  | some plan =>
    rw [scenes, scenes, steps.recorded_play _ hplan, steps.recorded_runUntilFailure _ hplan,
      List.mem_flatMap, List.mem_flatMap] at hx
    obtain ⟨v, hv, hx⟩ | ⟨v, hv, hx⟩ := hx
    · exact ⟨plan, v, hv, hx⟩
    · exact ⟨plan, v, (steps.visitsUntilFailure_prefix plan _).subset hv, hx⟩

/-- A play of a transaction that somebody owns has got to its scenes by moves and owns the
transaction, beside the invocation. -/
theorem moves_scene_of_play {t : TxnKey} {H : List (Hand S)} (ht : t ∈ (w.stage H).owners)
    (hx : x ∈ steps.scenes (·.play t) w ∨ x ∈ steps.scenes (·.runUntilFailure t) w) :
    Moves (w.stage H) (x.stage (.play t :: H)) := by
  obtain ⟨plan, v, hv, hx⟩ := exists_visit_of_play hx
  exact .head (.play ht) (moves_scene_of_visit hsteps hv hx (.play t :: H))

end Meaning

section Attended

variable (programs : S → Program S σ) (depth : Nat) {a : Action S} {t : TxnKey} {w : World S σ}
  {H : List (Hand S)} {m : Moment S σ}

/-- All steps of an invocation that is founded run at stages that can come about. -/
theorem Moment.Founded.reachable (hm : m.Founded H) :
    ∃ K, ∀ x ∈ m.scenes programs, (x.stage (K ++ H)).Reachable := by
  obtain ⟨K, hknows⟩ := hm
  have hsteps : (m.steps programs).Tidy := Meaning.tidy_ofPrograms programs m.depth
  refine ⟨K, fun x hx => ?_⟩
  exact hknows.reachable.moves ((Meaning.scene_of_invoke hsteps hx).2 (K ++ H))

/-- Behind a hand of the transaction they find its actions bound. -/
theorem Moment.Founded.keeps {h : Hand S} (hm : m.Founded (h :: H))
    (ht : a.anchor = some h.txn) :
    ∃ K, ∀ x ∈ m.scenes programs, x.Keeps programs m.depth (K ++ h :: H) a := by
  obtain ⟨K, hreach⟩ := hm.reachable programs
  have hmem : h ∈ K ++ h :: H := List.mem_append_right K List.mem_cons_self
  exact ⟨K, fun x hx =>
    Scene.keeps_of_mem_hands programs m.depth (List.mem_append_right _ hmem) ht (hreach x hx)⟩

/-- Who is there while steps run, from a world on, and who is gone at the end. An invocation of
an action and a play of its transaction are owners for all steps that run meanwhile, however
deep they are nested. Those that the invocation or the play evaluates itself are the ones that
it records; for the nested ones the tale tells which invocations there are. -/
structure Attended (a : Action S) (t : TxnKey) (w : World S σ) (H : List (Hand S)) : Prop where
  invocation : ∀ x ∈ (Meaning.ofPrograms programs depth).scenes (·.invoke a) w,
    x.txn = some t ∧ x.Keeps programs depth H a
  invoked : ∀ c ∈ ((Teller.ofPrograms programs depth).inside a w).invocations,
    ∃ K, ∀ x ∈ c.scenes programs, x.Keeps programs c.depth (K ++ .invocation t :: H) a
  invocation_end : (((Meaning.ofPrograms programs depth).invoke a w).2.stage H).Reachable
  play : (w.stage H).Owned t → ∀ x,
    x ∈ (Meaning.ofPrograms programs depth).scenes (·.play t) w ∨
      x ∈ (Meaning.ofPrograms programs depth).scenes (·.runUntilFailure t) w →
    x.Keeps programs depth (.play t :: H) a
  played : (w.stage H).Owned t →
    ∀ c ∈ ((Teller.ofPrograms programs depth).play t w).invocations,
      ∃ K, ∀ x ∈ c.scenes programs, x.Keeps programs c.depth (K ++ .play t :: H) a
  play_end : (w.stage H).Owned t →
    (((Meaning.ofPrograms programs depth).play t w).2.stage H).Reachable ∧
      (((Meaning.ofPrograms programs depth).runUntilFailure t w).2.stage H).Reachable
  command : ∀ command : Command S,
    ∀ c ∈ ((Teller.ofPrograms programs depth).perform command w).invocations,
      ∃ K, ∀ x ∈ c.scenes programs, x.Stands programs c.depth (K ++ H)
  command_end : ∀ command : Command S,
    ((command.perform (Meaning.ofPrograms programs depth) w).2.stage H).Reachable

/-- Whatever the programs do, from any world that can come about. -/
theorem attended_of_reachable (ha : a.IsMade) (ht : a.anchor = some t)
    (hw : (w.stage H).Reachable) : Attended programs depth a t w H where
  invocation x hx := by
    obtain ⟨htxn, hmoves⟩ := Meaning.scene_of_invoke (Meaning.tidy_ofPrograms programs depth) hx
    rw [← ha.anchor_eq, ht] at htxn
    have hhand : .invocation t ∈ (x.stage H).hands := by simp [Scene.stage, World.stage, htxn]
    exact ⟨htxn, Scene.keeps_of_mem_hands programs depth hhand ht (hw.moves (hmoves H))⟩
  invoked c hc := by
    rw [Teller.invocations_inside] at hc
    have hbody : a.body.txn? = some t := ha.anchor_eq.symm.trans ht
    have hfounded := (Teller.founded_told programs depth).founded_steps hbody hw c hc
    exact hfounded.keeps programs ht
  invocation_end := hw.moves (Meaning.tidy_invoke (Meaning.tidy_ofPrograms programs depth) a w H)
  play howned x hx := by
    have howner := ((w.stage H).owned_iff_mem_owners t).1 howned
    have hsteps := Meaning.tidy_ofPrograms programs depth
    have hhand : .play t ∈ (x.stage (.play t :: H)).hands :=
      List.mem_append_right _ List.mem_cons_self
    exact Scene.keeps_of_mem_hands programs depth hhand ht
      (hw.moves (Meaning.moves_scene_of_play hsteps howner hx))
  played howned c hc := by
    have howner := ((w.stage H).owned_iff_mem_owners t).1 howned
    have hfounded := (Teller.founded_told programs depth).founded_actions hw howner c hc
    exact hfounded.keeps programs ht
  play_end howned := by
    have howner := ((w.stage H).owned_iff_mem_owners t).1 howned
    have hsteps := Meaning.tidy_ofPrograms programs depth
    exact ⟨hw.moves (Meaning.moves_play hsteps howner),
      hw.moves (Meaning.moves_runUntilFailure hsteps howner)⟩
  command command c hc := by
    have hfounded := (Teller.founded_told programs depth).founded_perform hw command c hc
    obtain ⟨K, hreach⟩ := hfounded.reachable programs
    exact ⟨K, fun x hx => Scene.stands_of_reachable programs c.depth (hreach x hx)⟩
  command_end command :=
    hw.moves (Command.tidy_perform (Meaning.tidy_ofPrograms programs depth) command w H)

end Attended

/-- In every stage that can come about an action with a transaction is bound if and only if the
transaction has an owner. Once it is unbound it stays so and does nothing when it is invoked,
whatever happens: any moves, and any commands with any steps in them. The worlds that steps see
in the middle of plays and invocations are such stages too, and whoever plays or invokes there
is among the owners, for as long as it takes. -/
theorem isBound_iff_owned {s : Stage S} (hs : s.Reachable) {a : Action S} (ha : a.IsMade)
    {t : TxnKey} (ht : a.anchor = some t) :
    (s.engine.isBound a = true ↔ s.Owned t) ∧
      (s.Has a → s.Made t) ∧
      (s.Made t → s.engine.isBound a = false → ∀ s', Moves s s' →
        s'.engine.isBound a = false ∧
          ∀ (w : World S σ) (H : List (Hand S)), w.stage H = s' →
            (∀ steps : Meaning S σ, steps.invoke a w = (.ok false, Meaning.orphan a w)) ∧
              ∀ (programs : S → Program S σ) (depth : Nat) (cs : List (Command S)),
                Moves s' ((Command.performAll (.ofPrograms programs depth) cs w).stage H)) ∧
      ∀ (programs : S → Program S σ) (depth : Nat) (w : World S σ) (H : List (Hand S)),
        w.stage H = s → Attended programs depth a t w H := by
  refine ⟨?_, fun hhas => ?_, fun hmade hunbound s' hmoves => ?_, ?_⟩
  · rw [s.engine.isBound_of_anchor ht, hs.balanced.isAlive_iff, s.owned_iff_mem_owners]
  · exact hs.made_of_has hhas (ha.anchor_eq.symm.trans ht)
  · have hdead : s'.engine.isBound a = false := by
      rw [Engine.isBound_of_anchor _ ht] at hunbound ⊢
      exact Stage.isAlive_moves hs.balanced hmade hunbound hmoves
    refine ⟨hdead, ?_⟩
    rintro w H rfl
    constructor
    · intro steps
      exact steps.invoke_of_not_canRun ((ha.isBound_eq _).symm.trans hdead)
    · intro programs depth cs
      exact Command.moves_performAll (Meaning.tidy_ofPrograms programs depth) cs w H
  · rintro programs depth w H rfl
    exact attended_of_reachable programs depth ha ht hs

/-- A step that drops the only handle of its transaction and invokes another of its actions,
and one that does nothing. -/
def dropAndInvoke (drop : Bool) : Program Bool Unit :=
  if drop then .perform (.discard .handle "h") fun _ => .perform (.invoke "b") fun _ => .finish true
  else .finish true

/-- A transaction whose plan holds its own action twice. The other one is in a slot. -/
def selfDropped : World Bool Unit :=
  Command.performAll (.ofPrograms dropAndInvoke 2)
    [.openContext "c" none, .openTxn "c" "h", .bindStep "h" true "a", .bindStep "h" false "b",
      .install "h" ["a", "a"]]
    { memory := () }

/-- Its steps drop the only handle and find the transaction alive nevertheless, for as long as
it is played. Afterwards nobody owns it, and its plan does not keep it alive. -/
theorem selfDropped_isBound_iff_owned :
    let steps := Meaning.ofPrograms dropAndInvoke 2
    let a := (Recipe.sequential ⟨0⟩ true).make ⟨0⟩
    let tale := (Teller.ofPrograms dropAndInvoke 2).play ⟨0⟩ selfDropped
    let after := (steps.play ⟨0⟩ selfDropped).2
    ((selfDropped.stage []).Reachable ∧ a.IsMade ∧ (selfDropped.stage []).Owned ⟨0⟩ ∧
        selfDropped.engine.isBound a = true) ∧
      ((steps.scenes (·.play ⟨0⟩) selfDropped).map Scene.step = [true, true] ∧
        ∀ x ∈ steps.scenes (·.play ⟨0⟩) selfDropped, x.Keeps dropAndInvoke 2 [.play ⟨0⟩] a) ∧
      (tale.invocations.map (fun c => (c.scenes dropAndInvoke).map fun x =>
          (x.step, x.world.shelf.handles.get? "h")) =
        [[(false, none)], [(true, some ⟨0⟩)], [(false, none)], [(true, none)]] ∧
        ∀ c ∈ tale.invocations, ∃ K, ∀ x ∈ c.scenes dropAndInvoke,
          x.Keeps dropAndInvoke c.depth (K ++ [.play ⟨0⟩]) a) ∧
      (after.stage []).Reachable ∧ after.engine.plan? ⟨0⟩ = some [a, a] ∧
        ¬ (after.stage []).Owned ⟨0⟩ ∧
        ∀ s', Moves (after.stage []) s' → s'.engine.isBound a = false := by
  intro steps a tale after
  have hstart : (selfDropped.stage []).Reachable := Command.reachable_performAll _ _ _ _
  have hmade : a.IsMade := Recipe.isMade_make _ _
  have hbound : selfDropped.engine.isBound a = true := rfl
  obtain ⟨howned, -, -, hattended⟩ :=
    isBound_iff_owned (σ := Unit) hstart hmade (t := ⟨0⟩) rfl
  have hthere := hattended dropAndInvoke 2 selfDropped [] rfl
  have howner : (selfDropped.stage []).Owned ⟨0⟩ := howned.1 hbound
  have hend : (after.stage []).Reachable := (hthere.play_end howner).1
  have hunbound : after.engine.isBound a = false := rfl
  have hplan : after.engine.plan? ⟨0⟩ = some [a, a] := rfl
  obtain ⟨howned', hmade', hstays, -⟩ :=
    isBound_iff_owned (σ := Unit) hend hmade (t := ⟨0⟩) rfl
  have hhas : (after.stage []).Has a :=
    .inr (.inr (.inr ⟨⟨0⟩, [a, a], hplan, List.mem_cons_self⟩))
  refine ⟨⟨hstart, hmade, howner, hbound⟩, ⟨rfl, fun x hx => hthere.play howner x (.inl hx)⟩,
    ⟨rfl, hthere.played howner⟩, hend, hplan, fun h => ?_,
    fun s' h => (hstays (hmade' hhas) hunbound s' h).1⟩
  exact Bool.false_ne_true (hunbound.symm.trans (howned'.2 h))

end TxnAssembly
