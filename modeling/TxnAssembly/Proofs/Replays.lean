import TxnAssembly.Proofs.Stopping
import TxnAssembly.Proofs.Threading
import TxnAssembly.Session.Transcript

/-!
# Playing a transaction again

Playing a plan uses nothing of it up, so a transaction can be played as often as one likes. If
its steps only record themselves with a probe, each play has the same outcomes and adds the same
names to the record: those of the steps that are evaluated, in the order of the calls. Between
the plays anything may happen that has to do neither with the plan nor with the probe.
-/
namespace TxnAssembly

variable {S S' σ τ : Type}

theorem count_flatten_replicate {α : Type} [BEq α] (k : Nat) (l : List α) (a : α) :
    (List.replicate k l).flatten.count a = k * l.count a := by
  rw [List.count_flatten, List.map_replicate, List.sum_replicate_nat]

theorem flatten_replicate_eq_nil_iff {α : Type} {k : Nat} {l : List α} :
    (List.replicate k l).flatten = [] ↔ k = 0 ∨ l = [] := by
  cases k <;> simp

namespace Probe

/-- Records names one after the other. -/
def recordAll (p : Probe) (names : List String) : Probe := names.foldl record p

theorem recordAll_append (p : Probe) (names more : List String) :
    p.recordAll (names ++ more) = (p.recordAll names).recordAll more := List.foldl_append

theorem calls_recordAll (p : Probe) (names : List String) :
    (p.recordAll names).calls = p.calls ++ names := by
  induction names generalizing p with
  | nil => exact (List.append_nil _).symm
  | cons name names ih =>
    rw [recordAll, List.foldl_cons]
    exact (ih (p.record name)).trans (by simp)

theorem count_recordAll (p : Probe) (names : List String) (name : String) :
    (p.recordAll names).count name = p.count name + names.count name := by
  rw [count, calls_recordAll, List.count_append]
  rfl

theorem isUntouched_recordAll (p : Probe) (names : List String) :
    (p.recordAll names).isUntouched = true ↔ p.isUntouched = true ∧ names = [] := by
  rw [isUntouched, isUntouched, calls_recordAll]
  simp

end Probe

/-- A place in a memory where a probe is kept. -/
structure ProbeSite (σ : Type) where
  probe? : σ → Option Probe
  record : String → σ → σ
  probe?_record : ∀ name m, probe? (record name m) = (probe? m).map (·.record name)

/-- The probe with a key. -/
def Probes.site (p : ProbeKey) : ProbeSite (Probes τ) where
  probe? m := m.probe? p
  record name m := m.record p name
  probe?_record name m := by rw [m.probe?_record, if_pos rfl]

/-- The one probe of a session. -/
def Session.Journal.site : ProbeSite Session.Journal where
  probe? j := some j.probe
  record name j := j.record name
  probe?_record _ _ := rfl

namespace ProbeSite

variable (site : ProbeSite σ)

def recordAll (names : List String) (m : σ) : σ := names.foldl (fun m name => site.record name m) m

theorem recordAll_append (names more : List String) (m : σ) :
    site.recordAll (names ++ more) m = site.recordAll more (site.recordAll names m) :=
  List.foldl_append

theorem probe?_recordAll (names : List String) (m : σ) :
    site.probe? (site.recordAll names m) = (site.probe? m).map (·.recordAll names) := by
  induction names generalizing m with
  | nil => exact Option.map_id'.symm
  | cons name names ih =>
    have hrest := ih (site.record name m)
    rw [site.probe?_record, Option.map_map] at hrest
    exact hrest

end ProbeSite

namespace Composition

/-- The same call with other codes for its steps. -/
def map (code : S → S') (x : Composition S) : Composition S' :=
  match x with
  | append step => .append (code step)
  | appendChoice primary fallback => .appendChoice (code primary) (code fallback)

theorem kind_map (code : S → S') (x : Composition S) : (x.map code).kind = x.kind := by
  cases x <;> rfl

/-- What a call of recording steps comes to. -/
def outcome (x : Composition ProbeStep) : Bool :=
  match x with
  | append step => step.outcome
  | appendChoice primary fallback => if primary.outcome then true else fallback.outcome

/-- The names that a call of recording steps leaves: a fallback leaves one only where its
primary step fails. -/
def names (x : Composition ProbeStep) : List String :=
  match x with
  | append step => [step.name]
  | appendChoice primary fallback =>
    primary.name :: if primary.outcome then [] else [fallback.name]

/-- What is reported between the steps of such a call. -/
def fallingBack (x : Composition ProbeStep) : List Event :=
  match x with
  | append _ => []
  | appendChoice primary _ => if primary.outcome then [] else [.fallingBack]

/-- The events of the invocation of such a call. -/
def events (x : Composition ProbeStep) : List Event := x.fallingBack ++ [.invoked x.kind x.outcome]

theorem names_ne_nil (x : Composition ProbeStep) : x.names ≠ [] := by
  cases x <;> exact List.cons_ne_nil _ _

/-- Calls leave no name only where there are none. -/
theorem flatMap_names_eq_nil_iff {calls : List (Composition ProbeStep)} :
    calls.flatMap names = [] ↔ calls = [] := by
  cases calls <;> simp [names_ne_nil]

end Composition

/-- The world with some events more and another memory. -/
def World.advance (w : World S σ) (events : List Event) (memory : σ) : World S σ where
  engine := { w.engine with log := w.engine.log ++ events }
  shelf := w.shelf
  memory := memory

namespace World

theorem advance_advance (w : World S σ) (events more : List Event) (m m' : σ) :
    (w.advance events m).advance more m' = w.advance (events ++ more) m' := by
  simp [advance]

theorem emit_advance (w : World S σ) (event : Event) (events : List Event) (m : σ) :
    (w.emit event).advance events m = w.advance (event :: events) m := by
  simp [advance, emit, onEngine, Engine.emit]

theorem advance_nil (w : World S σ) (m : σ) : w.advance [] m = { w with memory := m } := by
  simp [advance]

/-- What is owned meanwhile can be given up as before. -/
theorem release_advance_hold (w : World S σ) (t : TxnKey) (events : List Event) (m : σ) :
    ((w.hold t).advance events m).release t = w.advance events m :=
  (w.advance events m).release_hold t

/-- Something else happens, and neither the plan of the transaction nor the probe is changed. -/
structure Spares (t : TxnKey) (site : ProbeSite σ) (w w' : World S σ) : Prop where
  plan? : w'.engine.plan? t = w.engine.plan? t
  probe? : site.probe? w'.memory = site.probe? w.memory

theorem Spares.refl (t : TxnKey) (site : ProbeSite σ) (w : World S σ) : w.Spares t site w :=
  ⟨rfl, rfl⟩

end World

namespace Meaning

/-- In every world the step records its name, has its outcome, and does nothing else. -/
def Records (steps : Meaning S σ) (site : ProbeSite σ) (code : S) (s : ProbeStep) : Prop :=
  ∀ t w, steps code t w = (.ok s.outcome, { w with memory := site.record s.name w.memory })

/-- Plays of a transaction one after the other, each with what it has come to. Other things may
happen before, between and after them. -/
inductive Replays (steps : Meaning S σ) (t : TxnKey) (site : ProbeSite σ) :
    World S σ → List (Except Halt (Option (List Bool))) → World S σ → Prop where
  | rest {w w'} : w.Spares t site w' → Replays steps t site w [] w'
  | play {w u v w' result results} : w.Spares t site u → steps.play t u = (result, v) →
    Replays steps t site v results w' → Replays steps t site w (result :: results) w'

theorem exists_replays (steps : Meaning S σ) (t : TxnKey) (site : ProbeSite σ) (w : World S σ)
    (k : Nat) : ∃ results w', steps.Replays t site w results w' ∧ results.length = k := by
  induction k generalizing w with
  | zero => exact ⟨[], w, .rest (.refl t site w), rfl⟩
  | succ k ih =>
    obtain ⟨results, w', hrest, hlength⟩ := ih (steps.play t w).2
    exact ⟨_, w', .play (.refl t site w) rfl hrest, congrArg Nat.succ hlength⟩

variable {steps : Meaning S σ} {site : ProbeSite σ} {code : ProbeStep → S} {t : TxnKey}
  {w : World S σ}

theorem Records.eq_advance {c : S} {s : ProbeStep} (h : steps.Records site c s)
    (t : Option TxnKey) (w : World S σ) :
    steps c t w = (.ok s.outcome, w.advance [] (site.record s.name w.memory)) := by
  rw [h t w, World.advance_nil]

theorem runBody_of_records {x : Composition ProbeStep}
    (hx : ∀ s ∈ x.steps, steps.Records site (code s) s) (halive : w.engine.isAlive t = true) :
    steps.runBody ((x.map code).body t) w =
      (.ok x.outcome, w.advance x.fallingBack (site.recordAll x.names w.memory)) := by
  cases x with
  | append step =>
    have hstep := (hx step List.mem_cons_self).eq_advance (some t) (w.hold t)
    rw [Composition.map, Composition.body, Composition.recipe, Recipe.body, runBody,
      onLive_of_isAlive halive, Run.holding_apply, hstep]
    exact Prod.ext rfl (w.release_advance_hold t _ _)
  | appendChoice primary fallback =>
    have hprimary := (hx primary List.mem_cons_self).eq_advance (some t) (w.hold t)
    have hfallback := (hx fallback (List.mem_cons_of_mem _ List.mem_cons_self)).eq_advance (some t)
    rw [Composition.map, Composition.body, Composition.recipe, Recipe.body, runBody,
      onLive_of_isAlive halive, Run.holding_apply, Run.bind_apply, hprimary,
      Composition.outcome, Composition.fallingBack, Composition.names]
    cases primary.outcome with
    | true => exact Prod.ext rfl (w.release_advance_hold t _ _)
    | false =>
      -- The fallback finds the name of the primary step recorded and the failure reported.
      dsimp only
      rw [if_neg Bool.false_ne_true, Run.bind_apply, Run.emit_apply]
      dsimp only
      rw [hfallback, World.emit_advance, World.advance_advance]
      exact Prod.ext rfl (w.release_advance_hold t _ _)

/-- An invocation while the transaction is alive records the steps that it evaluates. -/
theorem invoke_of_records {x : Composition ProbeStep} {a : Action S}
    (ha : (x.map code).Yields t a) (hx : ∀ s ∈ x.steps, steps.Records site (code s) s)
    (halive : w.engine.isAlive t = true) :
    steps.invoke a w = (.ok x.outcome, w.advance x.events (site.recordAll x.names w.memory)) := by
  rw [invoke, Run.bind_apply, ha.body_eq, runBody_of_records hx halive, ha.kind_eq, x.kind_map]
  exact Prod.ext rfl (World.advance_advance _ _ _ _ _)

/-- A run through a plan keeps the transaction alive, so each action records its steps. -/
theorem invokeAll_of_records {plan : List (Action S)} {calls : List (Composition ProbeStep)}
    (hplan : List.Forall₂ (fun a x => (x.map code).Yields t a) plan calls)
    (hcalls : ∀ x ∈ calls, ∀ s ∈ x.steps, steps.Records site (code s) s)
    (halive : w.engine.isAlive t = true) :
    steps.invokeAll plan w = (.ok (calls.map Composition.outcome),
      w.advance (calls.flatMap Composition.events)
        (site.recordAll (calls.flatMap Composition.names) w.memory)) := by
  induction hplan generalizing w with
  | nil => exact Prod.ext rfl (w.advance_nil w.memory).symm
  | @cons a x plan calls ha _ ih =>
    obtain ⟨hx, hrest⟩ := List.forall_mem_cons.1 hcalls
    have hinvoke := invoke_of_records ha hx halive
    have hmore := ih hrest (w := w.advance x.events (site.recordAll x.names w.memory)) halive
    rw [invokeAll_cons_of_ok hinvoke hmore, World.advance_advance, List.flatMap_cons,
      List.flatMap_cons, site.recordAll_append]
    rfl

/-- A play evaluates the calls of its plan and leaves all but the log and the memory as it was. -/
theorem play_of_records {plan : List (Action S)} {calls : List (Composition ProbeStep)}
    (hinstalled : w.engine.plan? t = some plan)
    (hplan : List.Forall₂ (fun a x => (x.map code).Yields t a) plan calls)
    (hcalls : ∀ x ∈ calls, ∀ s ∈ x.steps, steps.Records site (code s) s) :
    steps.play t w = (.ok (some (calls.map Composition.outcome)),
      w.advance (calls.flatMap Composition.events)
        (site.recordAll (calls.flatMap Composition.names) w.memory)) := by
  have halive : (w.hold t).engine.isAlive t = true := by simp [World.hold, World.onEngine]
  rw [steps.play_of_plan? hinstalled, invokeAll_of_records hplan hcalls halive]
  exact Prod.ext rfl (w.release_advance_hold t _ _)

/-- All plays come to the same, and the probe records the same names in each. -/
theorem Replays.of_records {plan : List (Action S)} {calls : List (Composition ProbeStep)}
    {results : List (Except Halt (Option (List Bool)))} {w' : World S σ}
    (h : steps.Replays t site w results w') (hinstalled : w.engine.plan? t = some plan)
    (hplan : List.Forall₂ (fun a x => (x.map code).Yields t a) plan calls)
    (hcalls : ∀ x ∈ calls, ∀ s ∈ x.steps, steps.Records site (code s) s) :
    (∀ r ∈ results, r = .ok (some (calls.map Composition.outcome))) ∧
      site.probe? w'.memory = (site.probe? w.memory).map
        (·.recordAll (List.replicate results.length (calls.flatMap Composition.names)).flatten) := by
  induction h with
  | rest hspares =>
    refine ⟨fun r hr => absurd hr List.not_mem_nil, hspares.probe?.trans ?_⟩
    exact Option.map_id'.symm
  | @play w u v w' result results hspares hresult hmore ih =>
    -- The plan is still the same, so this is a play of the same calls once more.
    have hstill := hspares.plan?.trans hinstalled
    obtain ⟨rfl, rfl⟩ := Prod.mk.inj (hresult.symm.trans (play_of_records hstill hplan hcalls))
    obtain ⟨hresults, hprobe⟩ := ih hstill
    constructor
    · exact List.forall_mem_cons.2 ⟨rfl, hresults⟩
    · rw [hprobe, ← hspares.probe?, List.length_cons, List.replicate_succ, List.flatten_cons]
      show (site.probe? (site.recordAll _ u.memory)).map _ = _
      rw [site.probe?_recordAll, Option.map_map]
      exact congrArg (Option.map · _) (funext fun p => (p.recordAll_append _ _).symm)

end Meaning

/-- Steps of a program with probes record themselves, whatever the other steps are. -/
theorem Probed.records (others : S → Program (Probed S) (Probes τ)) (depth : Nat) (s : ProbeStep) :
    (Meaning.ofPrograms (Probed.program others) (depth + 1)).Records (Probes.site s.probe)
      (.probe s) s := fun _ _ => rfl

/-- The script of a step that records itself and does nothing else. A session has one probe. -/
def ProbeStep.script (s : ProbeStep) : Session.Step where
  name := s.name
  verdict := .fixed s.outcome
  observe := false
  keepPlan := none
  install := none
  tasks := []
  limit := none
  panic := none

theorem ProbeStep.records_script (s : ProbeStep) :
    Session.steps.Records Session.Journal.site s.script s := fun _ _ => rfl

/-- In a session too, all plays of a plan of such scripts come to the same, and each adds the same
names to the recorded calls. -/
theorem Session.calls_of_replays {w w' : World Session.Step Session.Journal} {t : TxnKey}
    {plan : List (Action Session.Step)} {calls : List (Composition ProbeStep)}
    {results : List (Except Halt (Option (List Bool)))}
    (h : Session.steps.Replays t Session.Journal.site w results w')
    (hinstalled : w.engine.plan? t = some plan)
    (hplan : List.Forall₂ (fun a x => (x.map ProbeStep.script).Yields t a) plan calls) :
    (∀ r ∈ results, r = .ok (some (calls.map Composition.outcome))) ∧
      w'.memory.probe.calls = w.memory.probe.calls ++
        (List.replicate results.length (calls.flatMap Composition.names)).flatten := by
  obtain ⟨hresults, hprobe⟩ :=
    h.of_records hinstalled hplan fun x _ s _ => s.records_script
  refine ⟨hresults, ?_⟩
  have hprobe : w'.memory.probe = _ := Option.some.inj hprobe
  rw [hprobe, Probe.calls_recordAll]

/-- A transaction is assembled from calls whose steps all record themselves with clones of one
probe, which has recorded nothing before. It can be played any number of times, and whatever else
happens meanwhile, short of another plan for it or another use of the probe, each play has the same
outcomes: for each call that of its step, or of its fallback where the primary step fails. The
probe has recorded the same block once for each play: the names of the steps in the order of the
calls, and that of a fallback right behind a primary step that fails. So each name has been
recorded as often as it stands in the block, times the number of plays, and the probe is untouched
exactly if there has been no play or there is no call. -/
theorem probe_of_replays (others : S → Program (Probed S) (Probes τ)) (depth : Nat)
    (w : World (Probed S) (Probes τ)) {config : Config} (hconfig : config.isAllocatable = true)
    (c : ContextKey) {p : ProbeKey} (hfresh : w.memory.probe? p = some {})
    {calls : List (Composition ProbeStep)} (hcalls : ∀ x ∈ calls, ∀ s ∈ x.steps, s.probe = p) :
    let steps := Meaning.ofPrograms (Probed.program others) (depth + 1)
    let block := calls.flatMap Composition.names
    ∃ t e, Builder.assemble config c (calls.map (·.map .probe)) w.engine = (.ok t, e) ∧
      let built : World (Probed S) (Probes τ) := { w with engine := e }
      (∀ k, ∃ results after, steps.Replays t (Probes.site p) built results after ∧
        results.length = k) ∧
      ∀ results after, steps.Replays t (Probes.site p) built results after →
        (∀ r ∈ results, r = .ok (some (calls.map Composition.outcome))) ∧
        ∃ probe, after.memory.probe? p = some probe ∧
          probe.calls = (List.replicate results.length block).flatten ∧
          (∀ name, probe.count name = results.length * block.count name) ∧
          (probe.isUntouched = true ↔ results.length = 0 ∨ calls = []) := by
  intro steps block
  obtain ⟨t, e, plan, hassemble, hassembled⟩ :=
    Builder.assemble_eq_ok hconfig c (calls.map (·.map Probed.probe)) w.engine
  refine ⟨t, e, hassemble, ?_⟩
  intro built
  refine ⟨steps.exists_replays t (Probes.site p) built, fun results after hreplays => ?_⟩
  have hactions : List.Forall₂ (fun a x => (x.map Probed.probe).Yields t a) plan calls :=
    List.forall₂_map_right_iff.1 hassembled.actions
  have hrecords : ∀ x ∈ calls, ∀ s ∈ x.steps, steps.Records (Probes.site p) (.probe s) s := by
    intro x hx s hs
    obtain rfl := hcalls x hx s hs
    exact Probed.records others depth s
  obtain ⟨hresults, hprobe⟩ := hreplays.of_records hassembled.plan? hactions hrecords
  have hprobe : after.memory.probe? p = (w.memory.probe? p).map _ := hprobe
  rw [hfresh] at hprobe
  refine ⟨hresults, _, hprobe, ?_, fun name => ?_, ?_⟩
  · exact Probe.calls_recordAll _ _
  · rw [Probe.count_recordAll, count_flatten_replicate]
    exact Nat.zero_add _
  · rw [Probe.isUntouched_recordAll, flatten_replicate_eq_nil_iff,
      Composition.flatMap_names_eq_nil_iff]
    exact and_iff_right rfl

/-- A context and two probes. The other steps are never played. -/
def twoProbes : World (Probed Unit) (Probes Unit) :=
  Command.performAll (.ofPrograms (Probed.program fun _ => .panic "played") 1)
    [.openContext "c" none]
    { memory := (Probes.openProbe { rest := () }).2.openProbe.2 }

/-- Names come twice, the second choice does not need its fallback, and between two plays
somebody records with the other probe. -/
theorem twoProbes_probe_of_replays :
    let steps := Meaning.ofPrograms (Probed.program fun _ : Unit => .panic "played") 1
    let p : ProbeKey := ⟨1⟩
    let calls : List (Composition ProbeStep) :=
      [.append ⟨p, "a", true⟩, .appendChoice ⟨p, "b", false⟩ ⟨p, "a", true⟩,
        .appendChoice ⟨p, "b", true⟩ ⟨p, "c", false⟩, .append ⟨p, "a", false⟩]
    ({} : Config).isAllocatable = true ∧ twoProbes.memory.probe? p = some {} ∧
      (∀ x ∈ calls, ∀ s ∈ x.steps, s.probe = p) ∧
      ∃ t e, Builder.assemble {} ⟨0⟩ (calls.map (·.map .probe)) twoProbes.engine = (.ok t, e) ∧
        let built : World (Probed Unit) (Probes Unit) := { twoProbes with engine := e }
        let first := steps.play t built
        let between := { first.2 with memory := first.2.memory.record ⟨0⟩ "noise" }
        let second := steps.play t between
        steps.Replays t (Probes.site p) built [first.1, second.1] second.2 ∧
          (first.1 = .ok (some [true, true, true, false]) ∧ second.1 = first.1) ∧
          ∃ probe, second.2.memory.probe? p = some probe ∧
            probe.calls = ["a", "b", "a", "b", "a", "a", "b", "a", "b", "a"] ∧
            probe.count "a" = 6 ∧ probe.count "c" = 0 ∧ ¬ probe.isUntouched = true := by
  intro steps p calls
  have hconfig : ({} : Config).isAllocatable = true := by decide
  have hfresh : twoProbes.memory.probe? p = some {} := rfl
  have hcalls : ∀ x ∈ calls, ∀ s ∈ x.steps, s.probe = p := by decide
  obtain ⟨t, e, hassemble, -, hreplays⟩ :=
    probe_of_replays (fun _ : Unit => .panic "played") 0 twoProbes hconfig ⟨0⟩ hfresh hcalls
  refine ⟨hconfig, hfresh, hcalls, t, e, hassemble, ?_⟩
  intro built first between second
  have hpause : first.2.Spares t (Probes.site p) between :=
    ⟨rfl, (first.2.memory.probe?_record ⟨0⟩ p "noise").trans (if_neg (by decide))⟩
  have hrun : steps.Replays t (Probes.site p) built [first.1, second.1] second.2 :=
    .play (.refl _ _ _) (Prod.eta first).symm
      (.play hpause (Prod.eta second).symm (.rest (.refl _ _ _)))
  obtain ⟨hresults, probe, hprobe, hnames, hcount, huntouched⟩ := hreplays _ _ hrun
  have hfirst : first.1 = .ok (some [true, true, true, false]) := hresults _ List.mem_cons_self
  have hsecond : second.1 = first.1 := (hresults _ (by simp)).trans hfirst.symm
  exact ⟨hrun, ⟨hfirst, hsecond⟩, probe, hprobe, hnames, hcount "a", hcount "c",
    by simp [huntouched, calls]⟩

end TxnAssembly
