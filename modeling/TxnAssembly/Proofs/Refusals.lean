import TxnAssembly.Proofs.Assembly
import TxnAssembly.Proofs.Evaluation
import TxnAssembly.Proofs.History
import TxnAssembly.Proofs.Roster

/-!
# Refused calls

A builder refuses a start exactly when it has a sequence and may not start over, and
any other call exactly when it has no sequence. The error names what was asked for, or
the phase that the builder is in. A refusal takes the builder's reference away and does
nothing else: nothing is installed, logged, numbered or evaluated. So a chain of calls
ends with the first refusal, in the engine that the calls before it have led to.
-/
namespace TxnAssembly

variable {S σ : Type}

/-- The name under which a call is refused. -/
def Call.operation (c : Call S) : String :=
  match c with
  | startBuild => "start_build"
  | startBuildWith _ => "start_build_with"
  | append _ => "append"
  | appendChoice _ _ => "append_choice"
  | finalize => "finalize"

namespace Builder

/-- A builder has reason to refuse a call, which is reported, and the engine has lost
the builder's reference and is otherwise as before. -/
structure Refused (b : Builder S) (c : Call S) (e : Engine S) (why : Refusal)
    (e' : Engine S) : Prop where
  start : c.isStart = true → b.sequence ≠ none ∧ b.config.restartPolicy = .reject ∧
    b.phase ≠ .unbuilt ∧ why = .misuse (.alreadyStarted b.phase)
  other : c.isStart = false → b.sequence = none ∧ why = .misuse (.notStarted c.operation)
  engine : e' = { e with holds := e.holds.erase b.txn }

variable {b b' : Builder S} {e e' : Engine S} {why : Refusal}

theorem refuse_eq_error_iff {reason : Refusal} :
    b.refuse reason e = (.error why, e') ↔
      why = reason ∧ e' = { e with holds := e.holds.erase b.txn } := by
  simp [refuse, Engine.release, eq_comm]

theorem openSequence_of_isAllocatable (hconfig : b.config.isAllocatable = true) :
    b.openSequence e = (.ok { b with sequence := some [], phase := .building },
      e.emit (.buildStarted b.config.label)) := by
  simp [openSequence, hconfig]

theorem startBuild_eq_error_iff (hconfig : b.config.isAllocatable = true) :
    b.startBuild e = (.error why, e') ↔
      (b.sequence ≠ none ∧ b.config.restartPolicy = .reject) ∧
        why = .misuse (.alreadyStarted b.phase) ∧
        e' = { e with holds := e.holds.erase b.txn } := by
  rw [startBuild]
  cases hsequence : b.sequence with
  | none => simp [openSequence_of_isAllocatable hconfig]
  | some actions =>
    cases hpolicy : b.config.restartPolicy with
    | reject => simp [refuse_eq_error_iff]
    | restart => simp [openSequence_of_isAllocatable hconfig]

theorem push_eq_error_iff {operation : String} {x : Recipe S} :
    b.push operation x e = (.error why, e') ↔
      b.sequence = none ∧ why = .misuse (.notStarted operation) ∧
        e' = { e with holds := e.holds.erase b.txn } := by
  rw [push]
  cases hsequence : b.sequence with
  | none => simp [refuse_eq_error_iff]
  | some actions => simp

/-- A build that has been started takes its first step. -/
theorem startBuildWith_eq_error_iff {step : S} :
    b.startBuildWith step e = (.error why, e') ↔ b.startBuild e = (.error why, e') := by
  rw [startBuildWith]
  split
  · next b₁ e₁ hstart =>
    obtain ⟨rfl, -, -⟩ := startBuild_eq_ok hstart
    rw [append, push_eq_error_iff, hstart]
    simp
  · next why₁ e₁ hstart => rw [hstart]

theorem finalize_eq_error_iff :
    b.finalize e = (.error why, e') ↔
      b.sequence = none ∧ why = .misuse (.notStarted "finalize") ∧
        e' = { e with holds := e.holds.erase b.txn } := by
  rw [finalize]
  cases hsequence : b.sequence with
  | none => simp [refuse_eq_error_iff]
  | some actions => simp

/-- A start is refused for a sequence, another call for the lack of one. -/
theorem refused_iff (hphase : b.phase = .unbuilt ↔ b.sequence = none)
    (hconfig : b.config.isAllocatable = true) (c : Call S) :
    b.call c e = (.error why, e') ↔ b.Refused c e why e' := by
  have hstart : b.startBuild e = (.error why, e') ↔
      (b.sequence ≠ none ∧ b.config.restartPolicy = .reject ∧ b.phase ≠ .unbuilt ∧
        why = .misuse (.alreadyStarted b.phase)) ∧
        e' = { e with holds := e.holds.erase b.txn } := by
    rw [startBuild_eq_error_iff hconfig, Ne, Ne, ← hphase]
    tauto
  constructor
  · intro h
    cases c with
    | startBuild =>
      obtain ⟨hreason, hengine⟩ := hstart.1 h
      exact ⟨fun _ => hreason, nofun, hengine⟩
    | startBuildWith step =>
      obtain ⟨hreason, hengine⟩ := hstart.1 (startBuildWith_eq_error_iff.1 h)
      exact ⟨fun _ => hreason, nofun, hengine⟩
    | append step | appendChoice primary fallback =>
      obtain ⟨hsequence, hwhy, hengine⟩ := push_eq_error_iff.1 h
      exact ⟨nofun, fun _ => ⟨hsequence, hwhy⟩, hengine⟩
    | finalize =>
      obtain ⟨hsequence, hwhy, hengine⟩ := finalize_eq_error_iff.1 h
      exact ⟨nofun, fun _ => ⟨hsequence, hwhy⟩, hengine⟩
  · intro h
    cases c with
    | startBuild => exact hstart.2 ⟨h.start rfl, h.engine⟩
    | startBuildWith step =>
      exact startBuildWith_eq_error_iff.2 (hstart.2 ⟨h.start rfl, h.engine⟩)
    | append step | appendChoice primary fallback =>
      obtain ⟨hsequence, hwhy⟩ := h.other rfl
      exact push_eq_error_iff.2 ⟨hsequence, hwhy, h.engine⟩
    | finalize =>
      obtain ⟨hsequence, hwhy⟩ := h.other rfl
      exact finalize_eq_error_iff.2 ⟨hsequence, hwhy, h.engine⟩

/-- Calls that are not refused leave a builder with its transaction, its configuration
and a phase that fits its sequence. -/
theorem callAll_eq_ok {cs : List (Call S)} (h : b.callAll cs e = (.ok b', e'))
    (hphase : b.phase = .unbuilt ↔ b.sequence = none) :
    b'.txn = b.txn ∧ b'.config = b.config ∧ (b'.phase = .unbuilt ↔ b'.sequence = none) := by
  induction cs generalizing b e with
  | nil =>
    cases h
    exact ⟨rfl, rfl, hphase⟩
  | cons c cs ih =>
    rw [callAll] at h
    split at h
    · next b₁ e₁ hcall =>
      obtain ⟨-, rfl⟩ := call_eq_ok hcall
      have hafter : c.phaseAfter ≠ .unbuilt := by cases c <;> simp [Call.phaseAfter]
      have hnext := ih h (by simp [hafter])
      exact hnext
    · cases h

/-- Some first call of the chain does not hand the builder back, and with that the chain
ends. -/
theorem callAll_eq_error_iff {cs : List (Call S)} :
    b.callAll cs e = (.error why, e') ↔ ∃ before c after b₁ e₁, cs = before ++ c :: after ∧
      b.callAll before e = (.ok b₁, e₁) ∧ b₁.call c e₁ = (.error why, e') := by
  constructor
  · intro h
    induction cs generalizing b e with
    | nil => cases h
    | cons c cs ih =>
      rw [callAll] at h
      split at h
      · next b₁ e₁ hcall =>
        obtain ⟨before, d, after, b₂, e₂, rfl, hbefore, herror⟩ := ih h
        refine ⟨c :: before, d, after, b₂, e₂, rfl, ?_, herror⟩
        rw [callAll, hcall]
        exact hbefore
      · next why₁ e₁ hcall =>
        cases h
        exact ⟨[], c, cs, b, e, rfl, rfl, hcall⟩
  · rintro ⟨before, c, after, b₁, e₁, rfl, hbefore, herror⟩
    rw [callAll_append, hbefore]
    dsimp only
    rw [callAll, herror]

end Builder

namespace Command

/-- A builder that is in a slot and refuses a call is gone from there. The memory, the
other slots and the meaning of steps are not touched. -/
theorem perform_build_of_refused {w : World S σ} {name : String} {b : Builder S}
    (hb : w.shelf.builders.get? name = some b) {c : Call S} {why : Refusal} {e' : Engine S}
    (hcall : b.call c w.engine = (.error why, e')) (steps : Meaning S σ) :
    perform steps (.build name c) w = (.error (.failure (refused why)),
      { w with engine := e', shelf := { w.shelf with builders := w.shelf.builders.erase name } }) := by
  have hengine : b.call c (w.takeBuilder name).engine = (.error why, e') := hcall
  simp only [perform, callBuilder, Run.bind_apply, find_apply, hb, Run.change_apply,
    Run.onEngine_apply, hengine, Run.fail_apply]
  rfl

end Command

/-- What is refused, with which error, and what is left: of the engine all but one
reference, so that every transaction goes on living that anybody else owns; of the world
all but the builder. -/
theorem call_eq_error_iff {s : Stage S} (hs : s.Reachable) {b : Builder S}
    (hb : b ∈ s.builders) (hconfig : b.config.isAllocatable = true) :
    (∀ c why e', b.call c s.engine = (.error why, e') ↔ b.Refused c s.engine why e') ∧
    (∀ c why e', b.Refused c s.engine why e' →
      (∀ t, e'.isAlive t = true ↔ t ∈ s.owners.erase b.txn) ∧
        ∀ (w : World S σ) (H : List (Hand S)) (name : String) (steps : Meaning S σ),
          w.stage H = s → w.shelf.builders.get? name = some b →
            Command.perform steps (.build name c) w = (.error (.failure (Command.refused why)),
              { w with
                engine := e'
                shelf := { w.shelf with builders := w.shelf.builders.erase name } }) ∧
            (Command.perform steps.traced (.build name c)).evaluations w = []) ∧
    ∀ cs why e', b.callAll cs s.engine = (.error why, e') ↔
      ∃ before c after b₁ e₁, cs = before ++ c :: after ∧
        b.callAll before s.engine = (.ok b₁, e₁) ∧ b₁.txn = b.txn ∧
        b₁.Refused c e₁ why e' := by
  have hphase := (hs.orderly hb).phase_iff
  refine ⟨fun c why e' => Builder.refused_iff hphase hconfig c, ?_, ?_⟩
  · intro c why e' hrefused
    constructor
    · intro t
      have hperm : e'.holds.Perm (s.owners.erase b.txn) := by
        rw [hrefused.engine]
        exact hs.balanced.erase b.txn
      rw [Engine.isAlive_iff_mem, hperm.mem_iff]
    · rintro w H name steps rfl hname
      have hcall : b.call c w.engine = (.error why, e') :=
        (Builder.refused_iff hphase hconfig c).2 hrefused
      have htraced := Command.perform_build_of_refused (w := w.traced []) hname hcall steps.traced
      refine ⟨Command.perform_build_of_refused hname hcall steps, ?_⟩
      rw [Run.evaluations, Run.recorded, htraced]
      rfl
  · intro cs why e'
    rw [Builder.callAll_eq_error_iff]
    constructor
    · rintro ⟨before, c, after, b₁, e₁, hcs, hbefore, herror⟩
      obtain ⟨htxn, hconfig₁, hphase₁⟩ := Builder.callAll_eq_ok hbefore hphase
      rw [Builder.refused_iff hphase₁ (hconfig₁ ▸ hconfig)] at herror
      exact ⟨before, c, after, b₁, e₁, hcs, hbefore, htxn, herror⟩
    · rintro ⟨before, c, after, b₁, e₁, hcs, hbefore, -, hrefused⟩
      obtain ⟨-, hconfig₁, hphase₁⟩ := Builder.callAll_eq_ok hbefore hphase
      rw [← Builder.refused_iff hphase₁ (hconfig₁ ▸ hconfig)] at hrefused
      exact ⟨before, c, after, b₁, e₁, hcs, hbefore, hrefused⟩

/-- A builder that has been finalized and one that has not been started. -/
def finalizedAndFresh : World Unit Unit :=
  Command.performAll (.ofPrograms (fun _ => .finish true) 1)
    [.openContext "c" none, .createBuilder "c" "b" none, .build "b" (.startBuildWith ()),
      .build "b" .finalize, .createBuilder "c" "d" none]
    { memory := () }

/-- The first may not start over, neither at once nor after one action more, and the
second takes no action yet. -/
theorem finalizedAndFresh_call_eq_error :
    let e := finalizedAndFresh.engine
    let steps : Meaning Unit Unit := .ofPrograms (fun _ => .finish true) 1
    (finalizedAndFresh.stage []).Reachable ∧
      ∃ b d, finalizedAndFresh.shelf.builders.get? "b" = some b ∧
        finalizedAndFresh.shelf.builders.get? "d" = some d ∧
        b.config.isAllocatable = true ∧ d.config.isAllocatable = true ∧
        b.call (.startBuildWith ()) e =
          (.error (.misuse (.alreadyStarted .finalized)), { e with holds := [⟨1⟩] }) ∧
        d.call (.appendChoice () ()) e =
          (.error (.misuse (.notStarted "append_choice")), { e with holds := [⟨0⟩] }) ∧
        (Command.perform steps.traced (.build "d" (.appendChoice () ()))).evaluations
          finalizedAndFresh = [] ∧
        ∃ e', b.callAll [.append (), .startBuild, .finalize] e =
            (.error (.misuse (.alreadyStarted .building)), e') ∧
          e'.plan? ⟨0⟩ = some [(Recipe.sequential ⟨0⟩ ()).make ⟨0⟩] := by
  intro e steps
  have hreach : (finalizedAndFresh.stage []).Reachable := Command.reachable_performAll _ _ _ _
  have hconfig : ({} : Config).isAllocatable = true := by decide
  let b : Builder Unit := ⟨⟨0⟩, some [(Recipe.sequential ⟨0⟩ ()).make ⟨0⟩], .finalized, {}⟩
  let d : Builder Unit := ⟨⟨1⟩, none, .unbuilt, {}⟩
  have hb : finalizedAndFresh.shelf.builders.get? "b" = some b := rfl
  have hd : finalizedAndFresh.shelf.builders.get? "d" = some d := rfl
  obtain ⟨hcall, -, hchain⟩ := call_eq_error_iff (σ := Unit) hreach
    ((Stage.mem_builders_iff _).2 (.inl ⟨"b", hb⟩)) hconfig
  obtain ⟨hcall', hrefused, -⟩ := call_eq_error_iff (σ := Unit) hreach
    ((Stage.mem_builders_iff _).2 (.inl ⟨"d", hd⟩)) hconfig
  have hfresh : d.Refused (.appendChoice () ()) e (.misuse (.notStarted "append_choice"))
      { e with holds := [⟨0⟩] } := ⟨nofun, fun _ => ⟨rfl, rfl⟩, rfl⟩
  refine ⟨hreach, b, d, hb, hd, hconfig, hconfig, ?_, (hcall' _ _ _).2 hfresh, ?_, ?_⟩
  · exact (hcall _ _ _).2 ⟨fun _ => ⟨nofun, rfl, nofun, rfl⟩, nofun, rfl⟩
  · exact ((hrefused _ _ _ hfresh).2 finalizedAndFresh [] "d" steps rfl hd).2
  · let b₁ : Builder Unit :=
      { b with
        sequence := some [(Recipe.sequential ⟨0⟩ ()).make ⟨0⟩, (Recipe.sequential ⟨0⟩ ()).make ⟨1⟩]
        phase := .building }
    let e₁ : Engine Unit := (b.append () e).2
    have hagain : b₁.Refused .startBuild e₁ (.misuse (.alreadyStarted .building))
        { e₁ with holds := [⟨1⟩] } := ⟨fun _ => ⟨nofun, rfl, nofun, rfl⟩, nofun, rfl⟩
    exact ⟨_, (hchain _ _ _).2
      ⟨[.append ()], .startBuild, [.finalize], b₁, e₁, rfl, rfl, rfl, hagain⟩, rfl⟩

end TxnAssembly
