import TxnAssembly.Proofs.Ownership

/-!
# Which steps are evaluated

A recording step does what the step does and makes an entry beforehand, in a place that no
step can see. Running an action with recording steps gives the same result and the same world,
and with them one entry for each step that this invocation evaluates; what those steps trigger
themselves is not recorded. An entry is chosen freely: which step it is and against which
transaction, or the world in which it begins.
-/
namespace TxnAssembly

variable {S σ ε α β : Type}

/-- One evaluation of a step: which one, and against which transaction. -/
structure Evaluation (S : Type) where
  step : S
  txn : Option TxnKey
deriving DecidableEq, Repr

/-- A memory, and the entries so far. -/
structure Traced (ε σ : Type) where
  memory : σ
  trace : List ε

namespace World

def traced (w : World S σ) (trace : List ε) : World S (Traced ε σ) where
  engine := w.engine
  shelf := w.shelf
  memory := ⟨w.memory, trace⟩

def untraced (w : World S (Traced ε σ)) : World S σ where
  engine := w.engine
  shelf := w.shelf
  memory := w.memory.memory

@[simp] theorem untraced_traced (w : World S σ) (trace : List ε) :
    (w.traced trace).untraced = w := rfl

@[simp] theorem trace_traced (w : World S σ) (trace : List ε) :
    (w.traced trace).memory.trace = trace := rfl

end World

namespace Run

/-- Runs `x` beside a trace. -/
def beside (x : Run S σ α) : Run S (Traced ε σ) α := fun w =>
  ((x w.untraced).1, (x w.untraced).2.traced w.memory.trace)

/-- Adds an entry to the trace. -/
def record (entry : World S σ → ε) : Run S (Traced ε σ) Unit := change fun w =>
  { w with memory := { w.memory with trace := w.memory.trace ++ [entry w.untraced] } }

/-- The entries that a recording run makes. -/
def recorded (y : Run S (Traced ε σ) α) (w : World S σ) : List ε :=
  (y (w.traced [])).2.memory.trace

/-- The evaluations that a traced run records. -/
abbrev evaluations (y : Run S (Traced (Evaluation S) σ) α) (w : World S σ) :
    List (Evaluation S) :=
  y.recorded w

/-- `y` is `x` with a trace: it gives the same result and the same world, and adds
to the trace what depends on the world alone. -/
def Traces (y : Run S (Traced ε σ) α) (x : Run S σ α) : Prop :=
  ∀ w trace, y (w.traced trace) = ((x w).1, (x w).2.traced (trace ++ y.recorded w))

section Traces

variable {x : Run S σ α} {y : Run S (Traced ε σ) α} {f : α → Run S σ β}
  {g : α → Run S (Traced ε σ) β}

/-- Something that adds to the trace traces, whatever it adds. -/
theorem Traces.of_added (added : World S σ → List ε)
    (h : ∀ w trace, y (w.traced trace) = ((x w).1, (x w).2.traced (trace ++ added w))) :
    y.Traces x := by
  intro w trace
  have hadded : y.recorded w = added w := by
    rw [recorded, h w []]
    rfl
  rw [hadded, h]

theorem traces_pure (a : α) : (pure a : Run S (Traced ε σ) α).Traces (pure a) :=
  .of_added (fun _ => []) fun w trace => by simp

theorem traces_inspect (p : Engine S → α) :
    (inspect (fun w => p w.engine) : Run S (Traced ε σ) α).Traces (inspect fun w => p w.engine) :=
  .of_added (fun _ => []) fun w trace => by simp [World.traced]

theorem traces_emit (event : Event) :
    (emit event : Run S (Traced ε σ) Unit).Traces (emit event) :=
  .of_added (fun _ => []) fun w trace => by simp [World.traced, World.emit, World.onEngine]

theorem Traces.bind (hx : y.Traces x) (hf : ∀ a, (g a).Traces (f a)) :
    (y >>= g).Traces (x >>= f) := by
  refine .of_added (fun w => y.recorded w ++ after (x w) fun a => (g a).recorded) fun w trace => ?_
  rw [bind_apply, bind_apply, hx w trace]
  cases hresult : x w with
  | mk result w' =>
    cases result with
    | ok a => simp [hf a w', after, List.append_assoc]
    | error halt => simp [after]

/-- Two runs record what the first does and then what the second does. -/
theorem Traces.recorded_bind (hx : y.Traces x) (hf : ∀ a, (g a).Traces (f a))
    (w : World S σ) :
    (y >>= g).recorded w = y.recorded w ++ after (x w) fun a => (g a).recorded := by
  rw [recorded, bind_apply, hx w []]
  cases hresult : x w with
  | mk result w' =>
    cases result with
    | ok a => simp [hf a w', after]
    | error halt => simp [after]

theorem Traces.holding (hx : y.Traces x) (t : TxnKey) : (holding t y).Traces (holding t x) :=
  .of_added (fun w => y.recorded (w.hold t)) fun w trace => by
    have h := hx (w.hold t) trace
    simp only [holding_apply]
    rw [show (w.traced trace).hold t = (w.hold t).traced trace from rfl, h]
    rfl

end Traces

end Run

namespace Meaning

variable (steps : Meaning S σ)

/-- Steps that make an entry when they begin. -/
def recording (entry : S → Option TxnKey → World S σ → ε) : Meaning S (Traced ε σ) := fun s t => do
  Run.record (entry s t)
  (steps s t).beside

/-- Steps that record when they are evaluated. -/
abbrev traced : Meaning S (Traced (Evaluation S) σ) := steps.recording fun s t _ => ⟨s, t⟩

/-- The evaluations that invoking an action makes in a world. -/
def evaluations (a : Action S) (w : World S σ) : List (Evaluation S) :=
  (steps.traced.invoke a).evaluations w

theorem traced_apply (s : S) (t : Option TxnKey) (w : World S σ) (trace : List (Evaluation S)) :
    steps.traced s t (w.traced trace) =
      ((steps s t w).1, (steps s t w).2.traced (trace ++ [⟨s, t⟩])) := rfl

section Recording

variable (entry : S → Option TxnKey → World S σ → ε)

theorem recording_apply (s : S) (t : Option TxnKey) (w : World S σ) (trace : List ε) :
    steps.recording entry s t (w.traced trace) =
      ((steps s t w).1, (steps s t w).2.traced (trace ++ [entry s t w])) := rfl

theorem traces_step (s : S) (t : Option TxnKey) :
    (steps.recording entry s t).Traces (steps s t) :=
  .of_added (fun w => [entry s t w]) (steps.recording_apply entry s t)

omit steps in
theorem traces_onLive (t : TxnKey) (kind : ActionKind) {x : Run S σ Bool}
    {y : Run S (Traced ε σ) Bool} (h : y.Traces x) :
    (onLive t kind y).Traces (onLive t kind x) := by
  refine (Run.traces_inspect (·.isAlive t)).bind fun alive => ?_
  split
  · exact h.holding t
  · exact (Run.traces_emit _).bind fun _ => Run.traces_pure _

/-- What a choice goes on with, given the outcome of its primary step. -/
theorem traces_afterPrimary (t : TxnKey) (fallback : S) (ok : Bool) :
    Run.Traces
      (if ok then return true else do
        Run.emit .fallingBack
        steps.recording entry fallback (some t))
      (if ok then return true else do
        Run.emit .fallingBack
        steps fallback (some t)) := by
  split
  · exact Run.traces_pure _
  · exact (Run.traces_emit _).bind fun _ => steps.traces_step entry fallback _

theorem traces_runBody (b : Body S) :
    ((steps.recording entry).runBody b).Traces (steps.runBody b) := by
  cases b with
  | free s => exact steps.traces_step entry s none
  | step t s => exact traces_onLive t _ (steps.traces_step entry s _)
  | choice t primary fallback =>
    exact traces_onLive t _
      ((steps.traces_step entry primary _).bind (steps.traces_afterPrimary entry t fallback))

/-- Recording an invocation changes neither what comes of it nor the world. -/
theorem traces_invoke (a : Action S) :
    ((steps.recording entry).invoke a).Traces (steps.invoke a) :=
  (steps.traces_runBody entry a.body).bind fun _ =>
    (Run.traces_emit _).bind fun _ => Run.traces_pure _

/-- An action whose transaction is gone evaluates nothing. -/
theorem recorded_of_not_canRun {a : Action S} {w : World S σ}
    (h : w.engine.canRun a.body = false) :
    ((steps.recording entry).invoke a).recorded w = [] := by
  have hgone : (w.traced ([] : List ε)).engine.canRun a.body = false := h
  rw [Run.recorded, invoke_of_not_canRun _ hgone]
  rfl

/-- To report an outcome evaluates nothing. -/
theorem recorded_invoke (a : Action S) (w : World S σ) :
    ((steps.recording entry).invoke a).recorded w =
      ((steps.recording entry).runBody a.body).recorded w := by
  refine ((steps.traces_runBody entry a.body).recorded_bind
    (fun _ => (Run.traces_emit _).bind fun _ => Run.traces_pure _) w).trans ?_
  cases steps.runBody a.body w with
  | mk result w' => cases result <;> exact List.append_nil _

end Recording

theorem onLive_of_isAlive {t : TxnKey} {w : World S σ} (h : w.engine.isAlive t = true)
    (kind : ActionKind) (x : Run S σ Bool) : onLive t kind x w = Run.holding t x w := by
  simp [onLive, Run.bind_apply, h]

theorem recorded_onLive {t : TxnKey} {w : World S σ} (h : w.engine.isAlive t = true)
    (kind : ActionKind) (y : Run S (Traced ε σ) Bool) :
    (onLive t kind y).recorded w = y.recorded (w.hold t) := by
  rw [Run.recorded, onLive_of_isAlive (w := w.traced []) h]
  rfl

section Entries

variable {entry : S → Option TxnKey → World S σ → ε} {a : Action S} {w : World S σ} {t : TxnKey}

theorem recorded_free {s : S} (hbody : a.body = .free s) :
    ((steps.recording entry).invoke a).recorded w = [entry s none w] := by
  rw [recorded_invoke, hbody]
  rfl

/-- A step begins in a world in which the invocation owns the transaction. -/
theorem recorded_step {s : S} (hbody : a.body = .step t s) (h : w.engine.isAlive t = true) :
    ((steps.recording entry).invoke a).recorded w = [entry s (some t) (w.hold t)] := by
  rw [recorded_invoke, hbody, runBody, recorded_onLive h]
  rfl

/-- A choice evaluates its primary step, and its fallback if that has failed. -/
theorem recorded_choice {primary fallback : S} (hbody : a.body = .choice t primary fallback)
    (h : w.engine.isAlive t = true) :
    ((steps.recording entry).invoke a).recorded w = entry primary (some t) (w.hold t) ::
      Run.after (steps primary (some t) (w.hold t)) fun ok u =>
        if ok then [] else [entry fallback (some t) (u.emit .fallingBack)] := by
  rw [recorded_invoke, hbody, runBody, recorded_onLive h,
    (steps.traces_step entry primary (some t)).recorded_bind
      (steps.traces_afterPrimary entry t fallback)]
  refine congrArg (List.cons (entry primary (some t) (w.hold t))) ?_
  rcases steps primary (some t) (w.hold t) with ⟨halt | ok, u⟩
  · rfl
  · cases ok <;> rfl

end Entries

section Evaluations

variable {a : Action S} {w : World S σ} {t : TxnKey}

theorem evaluations_free {s : S} (hbody : a.body = .free s) :
    steps.evaluations a w = [⟨s, none⟩] :=
  steps.recorded_free hbody

theorem evaluations_step {s : S} (hbody : a.body = .step t s) (h : w.engine.isAlive t = true) :
    steps.evaluations a w = [⟨s, some t⟩] :=
  steps.recorded_step hbody h

theorem evaluations_choice {primary fallback : S} (hbody : a.body = .choice t primary fallback)
    (h : w.engine.isAlive t = true) :
    steps.evaluations a w = ⟨primary, some t⟩ ::
      Run.after (steps primary (some t) (w.hold t)) fun ok _ =>
        if ok then [] else [⟨fallback, some t⟩] :=
  steps.recorded_choice hbody h

theorem evaluations_of_not_canRun (h : w.engine.canRun a.body = false) :
    steps.evaluations a w = [] :=
  steps.recorded_of_not_canRun _ h

/-- The step of an action that is evaluated first. -/
def firstStep (b : Body S) : S :=
  match b with
  | .step _ s => s
  | .choice _ primary _ => primary
  | .free s => s

/-- An action whose transaction lives evaluates its first step, before anything else. -/
theorem evaluations_of_canRun (h : w.engine.canRun a.body = true) :
    [⟨firstStep a.body, a.body.txn?⟩] <+: steps.evaluations a w := by
  cases hbody : a.body with
  | free s =>
    rw [steps.evaluations_free hbody]
    exact List.prefix_rfl
  | step t s =>
    rw [hbody] at h
    rw [steps.evaluations_step hbody h]
    exact List.prefix_rfl
  | choice t primary fallback =>
    rw [hbody] at h
    rw [steps.evaluations_choice hbody h]
    exact List.prefix_append [_] _

/-- So the transaction is found if and only if invoking the action evaluates a step. -/
theorem canRun_iff_evaluations (a : Action S) (w : World S σ) :
    w.engine.canRun a.body = true ↔ steps.evaluations a w ≠ [] := by
  constructor
  · intro h hnil
    have hfirst := steps.evaluations_of_canRun h
    rw [hnil] at hfirst
    exact List.cons_ne_nil _ _ (List.prefix_nil.1 hfirst)
  · intro h
    by_cases hfound : w.engine.canRun a.body = true
    · exact hfound
    · exact absurd (steps.evaluations_of_not_canRun (Bool.eq_false_iff.2 hfound)) h

end Evaluations

end Meaning

end TxnAssembly
