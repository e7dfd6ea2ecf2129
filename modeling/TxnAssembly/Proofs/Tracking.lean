import TxnAssembly.Proofs.Chronicle
import TxnAssembly.Proofs.Framing
import TxnAssembly.Proofs.Interruption

/-!
# Chronicles keep track of plans

Whatever programs do, the chronicle of it tells which plan each transaction has, at the end
and at every instruction on the way: one lemma for each way to put runs together, one for an
invocation, for each way to run a plan, for a command and for a program, and from these by
induction on the depth of the nesting.
-/
namespace TxnAssembly

variable {S σ α β : Type}

namespace Engine

/-- No plan has been replaced. -/
def SamePlans (e e' : Engine S) : Prop := ∀ t, e'.plan? t = e.plan? t

theorem frame_samePlans : Frame (SamePlans (S := S)) where
  refl _ _ := rfl
  trans h h' t := (h' t).trans (h t)
  emit _ _ _ _ := rfl
  hold _ _ _ := rfl
  release _ _ _ := rfl
  openContext _ _ _ := rfl
  takeTxnId _ _ _ := rfl
  openTxn := plan?_openTxn
  newAction _ _ _ := rfl

theorem plan?_install_of_made (e : Engine S) {u : TxnKey} (hu : u.index < e.txns.size)
    (t : TxnKey) (actions : List (Action S)) :
    (e.install t actions).plan? u = if t = u then some actions else e.plan? u := by
  rw [plan?_install]
  by_cases h : t = u
  · subst h
    rw [if_pos rfl, if_pos rfl, txn?, Array.getElem?_eq_getElem hu]
    rfl
  · rw [if_neg (Ne.symm h), if_neg h]

end Engine

/-- A call changes the plan of a transaction if it is to finalize what has been collected. -/
theorem Builder.plan?_call (b : Builder S) (call : Call S) (e : Engine S) {u : TxnKey}
    (hu : u.index < e.txns.size) :
    (b.call call e).2.plan? u = Note.latest u (e.plan? u) (Note.ofCall (σ := σ) b call) := by
  cases call with
  | finalize =>
    cases hseq : b.sequence with
    | none =>
      simp only [Builder.call, finalize, Note.ofCall, hseq]
      rfl
    | some actions =>
      simp only [Builder.call, finalize, Note.ofCall, hseq, Note.latest_installed]
      exact Engine.plan?_install_of_made _ hu b.txn actions
  | startBuild | startBuildWith | append | appendChoice =>
    exact b.frame_call Engine.frame_samePlans e _ (.inl (by simp)) u

/-- A chronicle of a run from one world to another keeps track of what happens. The run is
made of moves, as is the way to each world that is passed. What a transaction has for a plan,
at the end and whenever a step is at an instruction, is what has been installed on it last. -/
structure Tracks (w u : World S σ) (notes : List (Note S σ)) : Prop where
  moves : ∀ H, Moves (w.stage H) (u.stage H)
  reach : ∀ v, .passed v ∈ notes → ∃ K, ∀ H, Moves (w.stage H) (v.stage (K ++ H))
  plan : ∀ t, (w.stage []).Made t → u.engine.plan? t = Note.latest t (w.engine.plan? t) notes
  reads : ∀ t, (w.stage []).Made t → ∀ (i : Nat) v, notes[i]? = some (.passed v) →
    v.engine.plan? t = Note.latest t (w.engine.plan? t) (notes.take i)

namespace Tracks

variable {w u v : World S σ} {notes more : List (Note S σ)}

/-- A run in which no step is evaluated. -/
theorem of_installations (hmoves : ∀ H, Moves (w.stage H) (u.stage H))
    (hnone : ∀ v, .passed v ∉ notes)
    (hplan : ∀ t, (w.stage []).Made t →
      u.engine.plan? t = Note.latest t (w.engine.plan? t) notes) : Tracks w u notes where
  moves := hmoves
  reach v hv := absurd hv (hnone v)
  plan := hplan
  reads _ _ _ v hv := absurd (List.mem_of_getElem? hv) (hnone v)

theorem quiet (hmoves : ∀ H, Moves (w.stage H) (u.stage H))
    (hplan : w.engine.SamePlans u.engine) : Tracks w u [] :=
  .of_installations hmoves (fun _ => List.not_mem_nil) fun t _ => hplan t

theorem refl : Tracks w w [] := .quiet (fun _ => .refl) fun _ => rfl

theorem emit (w : World S σ) (event : Event) : Tracks w (w.emit event) [] :=
  .quiet (fun _ => .single (.emit event)) fun _ => rfl

theorem append (h : Tracks w u notes) (h' : Tracks u v more) : Tracks w v (notes ++ more) where
  moves H := (h.moves H).trans (h'.moves H)
  reach x hx := by
    obtain hx | hx := List.mem_append.1 hx
    · exact h.reach x hx
    · obtain ⟨K, hK⟩ := h'.reach x hx
      exact ⟨K, fun H => (h.moves H).trans (hK H)⟩
  plan t ht := by
    rw [Note.latest_append, ← h.plan t ht]
    exact h'.plan t (ht.moves (h.moves []))
  reads t ht i x hx := by
    by_cases hi : i < notes.length
    · rw [List.getElem?_append_left hi] at hx
      rw [List.take_append_of_le_length (Nat.le_of_lt hi)]
      exact h.reads t ht i x hx
    · have hle := Nat.le_of_not_lt hi
      rw [List.getElem?_append_right hle] at hx
      rw [List.take_append, List.take_of_length_le hle, Note.latest_append, ← h.plan t ht]
      exact h'.reads t (ht.moves (h.moves [])) _ x hx

/-- A step that gets to an instruction, and what it does from there. -/
theorem passed (h : Tracks w u notes) : Tracks w u (.passed w :: notes) := by
  have hstart : Tracks w w [.passed w] := by
    refine ⟨fun _ => .refl, fun v hv => ?_, fun t _ => rfl, fun t _ i v hv => ?_⟩
    · cases List.mem_singleton.1 hv
      exact ⟨[], fun _ => .refl⟩
    · rw [List.getElem?_singleton] at hv
      obtain ⟨rfl, hv⟩ := Option.ite_none_right_eq_some.1 hv
      cases hv
      rfl
  exact hstart.append h

theorem bind {x : Run S σ α} {f : α → Run S σ β} {g : α → World S σ → List (Note S σ)}
    (h : Tracks w (x w).2 notes)
    (next : ∀ a u, x w = (.ok a, u) → Tracks u (f a u).2 (g a u)) :
    Tracks w ((x >>= f) w).2 (notes ++ Run.after (x w) g) := by
  rw [Run.bind_apply]
  rcases hrun : x w with ⟨halt | a, u⟩
  · rw [hrun] at h
    rw [Run.after, List.append_nil]
    exact h
  · rw [hrun] at h
    exact h.append (next a u hrun)

/-- A run behind one that changes nothing. -/
theorem bind_found {x : Run S σ α} {f : α → Run S σ β} {g : α → World S σ → List (Note S σ)}
    (h : (x w).2 = w) (next : ∀ a, x w = (.ok a, w) → Tracks w (f a w).2 (g a w)) :
    Tracks w ((x >>= f) w).2 (Run.after (x w) g) := by
  have hstart : Tracks w (x w).2 [] := by
    rw [h]
    exact .refl
  refine hstart.bind fun a u hrun => ?_
  obtain rfl : u = w := by rw [← h, hrun]
  exact next a hrun

/-- A run behind which nothing is noted. -/
theorem bind_quiet {x : Run S σ α} {f : α → Run S σ β} (h : Tracks w (x w).2 notes)
    (next : ∀ a u, Tracks u (f a u).2 []) : Tracks w ((x >>= f) w).2 notes := by
  rw [Run.bind_apply]
  rcases hrun : x w with ⟨halt | a, u⟩
  · rw [hrun] at h
    exact h
  · rw [hrun] at h
    rw [← List.append_nil notes]
    exact h.append (next a u)

theorem bind_pure {x : Run S σ α} (h : Tracks w (x w).2 notes) (f : α → β) :
    Tracks w ((x >>= fun a => pure (f a)) w).2 notes :=
  h.bind_quiet fun _ _ => .refl

theorem settle {x : Run S σ α} (h : Tracks w (x w).2 notes) : Tracks w (x.settle w).2 notes := by
  rw [Run.settle]
  rcases hrun : x w with ⟨(why | _) | a, u⟩ <;>
  · rw [hrun] at h
    exact h

/-- A run with one owner more, which goes when the run ends. -/
theorem held {x : Hand S} (hstart : ∀ H, Move (w.stage H) ((w.hold x.txn).stage (x :: H)))
    (h : Tracks (w.hold x.txn) u notes) : Tracks w (u.release x.txn) notes where
  moves H := .head (hstart H) ((h.moves (x :: H)).tail (.letGo x))
  reach v hv := by
    obtain ⟨K, hK⟩ := h.reach v hv
    refine ⟨K ++ [x], fun H => .head (hstart H) ?_⟩
    rw [List.append_assoc]
    exact hK (x :: H)
  plan := h.plan
  reads := h.reads

end Tracks

namespace Command

theorem findAll_snd (names : List String) (w : World S σ) : (findAll names w).2 = w :=
  (findAll_apply names w).1

theorem get?_of_find {name : String} {slots : Shelf S → Slots α} {w u : World S σ} {a : α}
    (h : (find name slots : Run S σ α) w = (.ok a, u)) : (slots w.shelf).get? name = some a := by
  rw [find_apply] at h
  split at h
  · next b hb =>
    cases h
    exact hb
  · cases h

theorem plan?_callBuilder {name : String} {w : World S σ} {b : Builder S}
    (h : w.shelf.builders.get? name = some b) (call : Call S) (t : TxnKey) :
    (callBuilder name call w).2.engine.plan? t = (b.call call w.engine).2.plan? t := by
  rw [callBuilder, Run.bind_apply, find_apply, h]
  simp only [Run.bind_apply, Run.change_apply, Run.onEngine_apply]
  have hengine : (w.takeBuilder name).engine = w.engine := rfl
  rw [hengine]
  rcases b.call call w.engine with ⟨why | b', e⟩
  · rfl
  · exact World.plan?_release? _ _ t

end Command

/-- What is noted of the evaluation of a step keeps track of it. -/
def Chronicler.Sound (C : Chronicler S σ) : Prop :=
  ∀ s t w, Tracks w (C.steps s t w).2 (C.step s t w)

theorem Builder.passed_not_mem_ofCall (b : Builder S) (call : Call S) (v : World S σ) :
    .passed v ∉ Note.ofCall b call := by
  cases call <;> cases h : b.sequence <;> simp [Note.ofCall, h]

theorem Chronicler.tidy (C : Chronicler S σ) : C.steps.Tidy :=
  Meaning.tidy_ofPrograms C.programs C.depth

namespace Tracks

variable {w : World S σ}

theorem onLive {t : TxnKey} {kind : ActionKind} {x : Run S σ Bool} {notes : List (Note S σ)}
    (h : Tracks (w.hold t) (x (w.hold t)).2 notes) :
    Tracks w (Meaning.onLive t kind x w).2 (if w.engine.isAlive t then notes else []) := by
  cases halive : w.engine.isAlive t with
  | true =>
    rw [Meaning.onLive_of_isAlive halive]
    exact .held (x := .invocation t) (fun H => .upgrade halive) h
  | false =>
    simp only [Meaning.onLive, Run.bind_apply, Run.inspect_apply, halive]
    exact .emit w _

/-- A plan that is installed on a transaction from slots. -/
theorem installed (t : TxnKey) {actions : List (Action S)}
    (h : ∀ a ∈ actions, a ∈ w.shelf.actions.values) :
    Tracks w (w.onEngine (·.install t actions)) [.installed t actions] := by
  refine .of_installations (fun H => .single (.install t h)) (fun v hv => ?_) fun u hu => ?_
  · cases List.mem_singleton.1 hv
  · rw [Note.latest_installed]
    exact w.engine.plan?_install_of_made hu t actions

theorem ofInstall (t : Option TxnKey) (names : List String) :
    Tracks w ((t.map fun t => Program.installFrom t names w).getD w)
      (Note.ofInstall t names w) := by
  cases t with
  | none => exact .refl
  | some t =>
    refine .installed t fun a ha => ?_
    obtain ⟨name, -, hname⟩ := List.mem_filterMap.1 ha
    exact w.shelf.actions.mem_values_iff.2 ⟨name, hname⟩

theorem storePlanOf (t : Option TxnKey) (into : String) :
    Tracks w ((t.map fun t => Program.storePlanOf t into w).getD w) [] := by
  cases t with
  | none => exact .refl
  | some t =>
    refine .quiet (Program.moves_storePlanOf (some t) into w) fun u => ?_
    rw [Option.map_some, Option.getD_some, Program.storePlanOf]
    cases w.engine.plan? t <;> rfl

theorem callBuilder (name : String) (call : Call S) :
    Tracks w (Command.callBuilder name call w).2
      (Run.after (Command.find name Shelf.builders w) fun b _ => Note.ofCall b call) := by
  have hmoves : (Command.callBuilder name call).TidyAt w := Command.tidyAt_callBuilder name call
  cases hb : w.shelf.builders.get? name with
  | none =>
    rw [Command.callBuilder, Run.bind_apply, Command.find_apply, hb]
    exact .refl
  | some b =>
    rw [Command.find_apply, hb]
    refine .of_installations hmoves (fun v => b.passed_not_mem_ofCall call v) fun u hu => ?_
    rw [Command.plan?_callBuilder hb]
    exact b.plan?_call call w.engine hu

end Tracks

namespace Chronicler.Sound

variable {C : Chronicler S σ} (hC : C.Sound)
include hC

/-- The steps of a choice, run against a transaction that is owned. -/
theorem tracks_choice (t : TxnKey) (primary fallback : S) (w : World S σ) :
    Tracks w
      ((do
        if ← C.steps primary (some t) then return true
        Run.emit .fallingBack
        C.steps fallback (some t) : Run S σ Bool) w).2
      (C.step primary (some t) w ++
        Run.after (C.steps primary (some t) w) fun ok u =>
          if ok then [] else C.step fallback (some t) (u.emit .fallingBack)) := by
  refine (hC primary (some t) w).bind fun ok u _ => ?_
  cases ok with
  | true => exact .refl
  | false => exact (Tracks.emit u .fallingBack).append (hC fallback (some t) _)

theorem tracks_body (b : Body S) (w : World S σ) :
    Tracks w (C.steps.runBody b w).2 (C.body b w) := by
  cases b with
  | free s => exact hC s none w
  | step t s => exact .onLive (hC s (some t) (w.hold t))
  | choice t primary fallback => exact .onLive (hC.tracks_choice t primary fallback (w.hold t))

theorem tracks_invoke (a : Action S) (w : World S σ) :
    Tracks w (C.steps.invoke a w).2 (C.invoke a w) :=
  (hC.tracks_body a.body w).bind_quiet fun _ u => .emit u _

theorem tracks_invokeAll (plan : List (Action S)) (w : World S σ) :
    Tracks w (C.steps.invokeAll plan w).2 (C.invokeAll plan w) := by
  induction plan generalizing w with
  | nil => exact .refl
  | cons a rest ih => exact (hC.tracks_invoke a w).bind fun ok u _ => (ih u).bind_pure (ok :: ·)

theorem tracks_invokeUntilFailure (plan : List (Action S)) (w : World S σ) :
    Tracks w (C.steps.invokeUntilFailure plan w).2 (C.invokeUntilFailure plan w) := by
  induction plan generalizing w with
  | nil => exact .refl
  | cons a rest ih =>
    refine (hC.tracks_invoke a w).bind fun ok u _ => ?_
    cases ok with
    | false => exact .refl
    | true => exact ih u

theorem tracks_play {t : TxnKey} {w : World S σ} (ht : ∀ H, t ∈ (w.stage H).owners) :
    Tracks w (C.steps.play t w).2 (C.play t w) := by
  refine .held (x := .play t) (fun H => .play (ht H)) ?_
  have hplan : (w.hold t).engine.plan? t = w.engine.plan? t := rfl
  rw [Run.bind_of_ok (x := Run.inspect _) rfl, Chronicler.play, hplan]
  cases w.engine.plan? t with
  | none => exact .refl
  | some plan => exact (hC.tracks_invokeAll plan _).bind_pure some

theorem tracks_perform (c : Command S) (w : World S σ) :
    Tracks w (c.perform C.steps w).2 (C.perform c w) := by
  have hfind {α : Type} (name : String) (slots : Shelf S → Slots α) :
      (Command.find name slots w).2 = w := Command.find_snd name slots w
  have hmoves := Command.tidy_perform C.tidy c w
  cases c with
  | install handle actions =>
    refine .bind_found (Command.findAll_snd actions w) fun found hfound => ?_
    refine .bind_found (hfind handle _) fun t _ => ?_
    have hmem := (Command.findAll_apply actions w).2 found (congrArg Prod.fst hfound)
    exact .installed t hmem
  | build builder call => exact .callBuilder builder call
  | play handle =>
    refine .bind_found (hfind handle _) fun t ht => ?_
    have howners (H : List (Hand S)) : t ∈ (w.stage H).owners :=
      Command.mem_owners_of_handle (Command.get?_of_find ht) H
    exact (hC.tracks_play howners).bind_pure Answer.outcomes
  | playPlan plan =>
    exact .bind_found (hfind plan _) fun plan _ =>
      (hC.tracks_invokeAll plan w).bind_pure fun results => Answer.outcomes (some results)
  | runPlanUntilFailure plan =>
    exact .bind_found (hfind plan _) fun plan _ =>
      (hC.tracks_invokeUntilFailure plan w).bind_pure Answer.flag
  | invokeAt plan index =>
    exact .bind_found (hfind plan _) fun plan _ =>
      .bind_found (Command.pick_snd plan index w) fun a _ =>
        (hC.tracks_invoke a w).bind_pure Answer.flag
  | invoke action =>
    exact .bind_found (hfind action _) fun a _ => (hC.tracks_invoke a w).bind_pure Answer.flag
  | _ =>
    exact .quiet hmoves (Command.respects_perform Engine.frame_samePlans C.steps rfl (.inl rfl) w)

theorem tracks_run (t : Option TxnKey) (p : Program S σ) (w : World S σ) :
    Tracks w (p.run C.steps t w).2 (C.run t p w) := by
  induction p generalizing w with
  | finish ok => exact Tracks.refl.passed
  | panic text => exact Tracks.refl.passed
  | look next ih => exact (ih _ w).passed
  | keepPlan into next ih => exact ((Tracks.storePlanOf t into).append (ih _)).passed
  | install actions next ih => exact ((Tracks.ofInstall t actions).append (ih _)).passed
  | perform command next ih =>
    exact ((hC.tracks_perform command w).settle.bind fun reply u _ => ih reply u).passed
  | remember change next ih =>
    -- the memory is no part of a stage
    have hchange : Tracks w { w with memory := change w.memory } [] :=
      .quiet (fun _ => .refl) fun _ => rfl
    exact (hchange.append (ih _ _)).passed

end Chronicler.Sound

/-- Chronicles of steps are sound if those of the steps nested in them are. -/
theorem Chronicler.sound_noted (programs : S → Program S σ) (depth : Nat) :
    (Chronicler.ofPrograms programs depth).Sound := by
  induction depth with
  | zero => exact fun _ _ _ => .refl
  | succ depth ih => exact fun s t w => ih.tracks_run t (programs s) w

end TxnAssembly
