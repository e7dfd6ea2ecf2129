import TxnAssembly.Program
import TxnAssembly.Proofs.Ownership
import TxnAssembly.Proofs.Reticence

/-!
# What happens while an action is invoked

Steps invoke actions and play transactions in their turn, so invocations are nested. A tale is
the tree of what happens during a run: the events that are logged and the invocations, each
with what happens meanwhile. It is told along the run, from the worlds that this goes through,
and does not look for invocations in the log.
-/
namespace TxnAssembly

variable {S σ α β : Type}

/-- The moment at which an action is invoked, and how deep steps may be nested from there. -/
structure Moment (S σ : Type) where
  depth : Nat
  action : Action S
  world : World S σ

/-- What happens, one thing after the other. What happens during an invocation stands inside. -/
inductive Tale (S σ : Type) where
  | nil
  | event (e : Event) (rest : Tale S σ)
  | invocation (m : Moment S σ) (inner rest : Tale S σ)

/-- An invocation with what happens during it. -/
structure Invocation (S σ : Type) extends Moment S σ where
  inner : Tale S σ

namespace Tale

def append (x y : Tale S σ) : Tale S σ :=
  match x with
  | nil => y
  | event e rest => event e (rest.append y)
  | invocation m inner rest => invocation m inner (rest.append y)

instance : Append (Tale S σ) := ⟨append⟩

/-- The events that are logged, in order. -/
def events (x : Tale S σ) : List Event :=
  match x with
  | nil => []
  | event e rest => e :: rest.events
  | invocation _ inner rest => inner.events ++ rest.events

/-- The invocations in the order in which they end: each comes behind those inside it. -/
def invocations (x : Tale S σ) : List (Invocation S σ) :=
  match x with
  | nil => []
  | event _ rest => rest.invocations
  | invocation m inner rest => inner.invocations ++ ⟨m, inner⟩ :: rest.invocations

def ofEvents (es : List Event) : Tale S σ :=
  match es with
  | [] => nil
  | e :: es => event e (ofEvents es)

/-- What has been logged between two worlds. -/
def since (w u : World S σ) : Tale S σ := ofEvents (u.engine.log.drop w.engine.log.length)

/-- What happens in a run that goes on where another one has led to. -/
def after (first : Except Halt α × World S σ) (next : α → World S σ → Tale S σ) : Tale S σ :=
  match first with
  | (.ok a, u) => next a u
  | (.error _, _) => nil

/-- An invocation that returns ends with an event. -/
def completion (kind : ActionKind) (outcome : Option Bool) : Tale S σ :=
  match outcome with
  | some ok => event (.invoked kind ok) nil
  | none => nil

end Tale

/-- Programs that are nested at most `depth` deep, and what happens when a step is evaluated. -/
structure Teller (S σ : Type) where
  programs : S → Program S σ
  depth : Nat
  tell : S → Option TxnKey → World S σ → Tale S σ

namespace Teller

variable (T : Teller S σ)

def steps : Meaning S σ := Meaning.ofPrograms T.programs T.depth

/-- What happens while the steps of an action run. -/
def body (b : Body S) (w : World S σ) : Tale S σ :=
  match b with
  | .free s => T.tell s none w
  | .step t s =>
    if w.engine.isAlive t then T.tell s (some t) (w.hold t) else .event (.orphaned .sequential) .nil
  | .choice t primary fallback =>
    if w.engine.isAlive t then
      T.tell primary (some t) (w.hold t) ++
        Tale.after (T.steps primary (some t) (w.hold t)) fun ok u =>
          if ok then .nil else .event .fallingBack (T.tell fallback (some t) (u.emit .fallingBack))
    else .event (.orphaned .choice) .nil

/-- What happens during an invocation. -/
def inside (a : Action S) (w : World S σ) : Tale S σ :=
  T.body a.body w ++ Tale.completion a.kind (T.steps.runBody a.body w).1.toOption

def invoke (a : Action S) (w : World S σ) : Tale S σ :=
  .invocation ⟨T.depth, a, w⟩ (T.inside a w) .nil

def invokeAll (plan : List (Action S)) (w : World S σ) : Tale S σ :=
  match plan with
  | [] => .nil
  | a :: rest => T.invoke a w ++ Tale.after (T.steps.invoke a w) fun _ u => invokeAll rest u

def invokeUntilFailure (plan : List (Action S)) (w : World S σ) : Tale S σ :=
  match plan with
  | [] => .nil
  | a :: rest => T.invoke a w ++ Tale.after (T.steps.invoke a w) fun ok u =>
      if ok then invokeUntilFailure rest u else .nil

def play (t : TxnKey) (w : World S σ) : Tale S σ :=
  match w.engine.plan? t with
  | none => .nil
  | some plan => T.invokeAll plan (w.hold t)

/-- What happens while a command is carried out. -/
def perform (c : Command S) (w : World S σ) : Tale S σ :=
  match c with
  | .play handle => Tale.after (Command.find handle Shelf.handles w) T.play
  | .playPlan plan => Tale.after (Command.find plan Shelf.plans w) T.invokeAll
  | .runPlanUntilFailure plan => Tale.after (Command.find plan Shelf.plans w) T.invokeUntilFailure
  | .invokeAt plan index =>
    Tale.after (Command.find plan Shelf.plans w) fun plan u =>
      Tale.after (Command.pick plan index u) T.invoke
  | .invoke action => Tale.after (Command.find action Shelf.actions w) T.invoke
  | c => Tale.since w (c.perform T.steps w).2

/-- What happens while a program runs. -/
def run (t : Option TxnKey) (p : Program S σ) (w : World S σ) : Tale S σ :=
  match p with
  | .finish _ => .nil
  | .panic _ => .nil
  | .look next => run t (next (t.map w.engine.viewTxn)) w
  | .keepPlan into next =>
    run t next ((t.map fun t => Program.storePlanOf t into w).getD w)
  | .install actions next =>
    let u := (t.map fun t => Program.installFrom t actions w).getD w
    Tale.since w u ++ run t next u
  | .perform command next =>
    T.perform command w ++
      Tale.after (Run.settle (command.perform T.steps) w) fun reply u => run t (next reply) u
  | .remember change next =>
    run t (next (change w.memory)) { w with memory := change w.memory }

/-- What happens when a step is evaluated, from what happens in the steps nested in it. -/
def told (programs : S → Program S σ) (depth : Nat) :
    S → Option TxnKey → World S σ → Tale S σ :=
  match depth with
  | 0 => fun _ _ _ => .nil
  | depth + 1 => fun s t w => run ⟨programs, depth, told programs depth⟩ t (programs s) w

def ofPrograms (programs : S → Program S σ) (depth : Nat) : Teller S σ :=
  ⟨programs, depth, told programs depth⟩

end Teller

namespace Event

/-- What is reported of an invocation that returned. -/
def report? (e : Event) : Option (ActionKind × Bool) :=
  match e with
  | invoked kind ok => some (kind, ok)
  | _ => none

def isOrphaned (e : Event) : Bool :=
  match e with
  | orphaned _ => true
  | _ => false

variable {e : Event}

theorem report?_of_aside (h : e.isOfInvocation = false) : e.report? = none := by
  cases e <;> first | rfl | cases h

theorem isOrphaned_of_aside (h : e.isOfInvocation = false) : e.isOrphaned = false := by
  cases e <;> first | rfl | cases h

theorem ne_fallingBack_of_aside (h : e.isOfInvocation = false) : e ≠ fallingBack := by
  rintro rfl
  cases h

end Event

namespace Moment

variable (programs : S → Program S σ) (m : Moment S σ)

def steps : Meaning S σ := Meaning.ofPrograms programs m.depth

def run : Except Halt Bool × World S σ := (m.steps programs).invoke m.action m.world

/-- The outcome of the invocation, if it returns. -/
def result : Option Bool := (m.run programs).1.toOption

/-- What has to be reported of the invocation. -/
def report? : Option (ActionKind × Bool) := (m.result programs).map (m.action.kind, ·)

/-- The transaction is gone. -/
def isOrphaned : Bool := !m.world.engine.canRun m.action.body

/-- The fallback that is tried because the primary step has returned `false`, with the
transaction and the world that it has left. -/
def fallback? : Option (TxnKey × S × World S σ) :=
  match m.action.body with
  | .choice t primary fallback =>
    if m.world.engine.isAlive t then
      match m.steps programs primary (some t) (m.world.hold t) with
      | (.ok false, u) => some (t, fallback, u)
      | _ => none
    else none
  | _ => none

def fallsBack : Bool := (m.fallback? programs).isSome

end Moment

namespace Tale

variable (x y : Tale S σ)

@[simp] theorem event_append (e : Event) : event e x ++ y = event e (x ++ y) := rfl

@[simp] theorem invocation_append (m : Moment S σ) (inner : Tale S σ) :
    invocation m inner x ++ y = invocation m inner (x ++ y) := rfl

@[simp] theorem append_nil : x ++ nil = x := by
  induction x with
  | nil => rfl
  | event e rest ih => rw [event_append, ih]
  | invocation m inner rest _ ih => rw [invocation_append, ih]

@[simp] theorem events_append : (x ++ y).events = x.events ++ y.events := by
  induction x with
  | nil => rfl
  | event e rest ih => rw [event_append, events, ih, events, List.cons_append]
  | invocation m inner rest _ ih =>
    rw [invocation_append, events, ih, events, List.append_assoc]

@[simp] theorem invocations_append : (x ++ y).invocations = x.invocations ++ y.invocations := by
  induction x with
  | nil => rfl
  | event e rest ih => rw [event_append, invocations, ih, invocations]
  | invocation m inner rest _ ih =>
    rw [invocation_append, invocations, ih, invocations, List.append_assoc, List.cons_append]

@[simp] theorem events_ofEvents (es : List Event) : (ofEvents es : Tale S σ).events = es := by
  induction es with
  | nil => rfl
  | cons e es ih => rw [ofEvents, events, ih]

@[simp] theorem invocations_ofEvents (es : List Event) :
    (ofEvents es : Tale S σ).invocations = [] := by
  induction es with
  | nil => rfl
  | cons e es ih => rw [ofEvents, invocations, ih]

@[simp] theorem events_completion (kind : ActionKind) (outcome : Option Bool) :
    (completion kind outcome : Tale S σ).events = outcome.toList.map (.invoked kind) := by
  cases outcome <;> rfl

@[simp] theorem invocations_completion (kind : ActionKind) (outcome : Option Bool) :
    (completion kind outcome : Tale S σ).invocations = [] := by
  cases outcome <;> rfl

end Tale

end TxnAssembly
