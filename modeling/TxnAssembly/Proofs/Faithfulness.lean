import TxnAssembly.Proofs.Evaluation
import TxnAssembly.Proofs.Tales

/-!
# What the log says of invocations

The log tells the same as the tale, in its own way: by one event at the end of each invocation
that returns, and by the events of those that find no transaction or fall back. This is kept
where one thing happens behind another, and where things happen inside an invocation, which
adds what it has to log itself.
-/
namespace TxnAssembly

variable {S σ α β : Type}

namespace Event

/-- Each warning comes from one of the invocations, which reports a failure at once. -/
def Answered (calls : List (Invocation S σ)) (log : List Event) : Prop :=
  ∀ before shape after, log = before ++ orphaned shape :: after →
    ∃ c ∈ calls, c.isOrphaned = true ∧ c.action.body.shape = shape ∧
      ∃ rest, after = invoked c.action.kind false :: rest

variable {calls more : List (Invocation S σ)} {log log' : List Event}

theorem Answered.append (h : Answered calls log) (h' : Answered more log') :
    Answered (calls ++ more) (log ++ log') := by
  intro before shape after hlog
  obtain ⟨d, rfl, hd⟩ | ⟨d, rfl, hd⟩ := List.append_eq_append_iff.1 hlog
  · obtain ⟨c, hc, hanswer⟩ := h' d shape after hd
    exact ⟨c, List.mem_append_right _ hc, hanswer⟩
  · cases d with
    | nil =>
      obtain ⟨c, hc, hanswer⟩ := h' [] shape after hd.symm
      exact ⟨c, List.mem_append_right _ hc, hanswer⟩
    | cons e d =>
      obtain ⟨rfl, rfl⟩ := List.cons.inj hd
      obtain ⟨c, hc, horphaned, hshape, rest, rfl⟩ := h before shape d rfl
      exact ⟨c, List.mem_append_left _ hc, horphaned, hshape, rest ++ log', rfl⟩

theorem answered_of_not_isOrphaned (h : ∀ e ∈ log, e.isOrphaned = false) :
    Answered calls log := by
  rintro before shape after rfl
  have horphaned := h (orphaned shape) (List.mem_append_right _ List.mem_cons_self)
  cases horphaned

theorem answered_pair {c : Invocation S σ} (hc : c ∈ calls) (horphaned : c.isOrphaned = true) :
    Answered calls [orphaned c.action.body.shape, invoked c.action.kind false] := by
  intro before shape after h
  match before with
  | [] =>
    obtain ⟨hshape, rfl⟩ := List.cons.inj h
    exact ⟨c, hc, horphaned, orphaned.inj hshape, [], rfl⟩
  | [_] => cases h
  | _ :: _ :: before => simp at h

end Event

namespace Invocation

variable (programs : S → Program S σ) (c : Invocation S σ)

/-- The events of an invocation are what is logged from its start to its end. -/
structure IsLogged : Prop where
  log : (c.run programs).2.engine.log = c.world.engine.log ++ c.inner.events
  /-- The report is the last of them. -/
  last : ∀ ok, c.result programs = some ok →
    c.inner.events.getLast? = some (.invoked c.action.kind ok)
  orphaned : c.isOrphaned = true →
    c.inner.events = [.orphaned c.action.body.shape, .invoked c.action.kind false]
  /-- What the primary step leads to comes before the event of falling back, and what the
  fallback leads to behind it. -/
  fallback : ∀ t s u, c.fallback? programs = some (t, s, u) →
    ∃ es es', u.engine.log = c.world.engine.log ++ es ∧
      (c.steps programs s (some t) (u.emit .fallingBack)).2.engine.log =
        u.engine.log ++ .fallingBack :: es' ∧
      c.inner.events = es ++ .fallingBack :: es' ++
        (c.result programs).toList.map (.invoked c.action.kind)

/-- The events stand together, at the place that the log has got to when the invocation
starts. -/
def IsPlaced (w : World S σ) (events : List Event) : Prop :=
  ∃ before after, c.world.engine.log = w.engine.log ++ before ∧
    events = before ++ c.inner.events ++ after

variable {c} {w u : World S σ} {es es' : List Event}

theorem IsPlaced.append (h : c.IsPlaced w es) : c.IsPlaced w (es ++ es') := by
  obtain ⟨before, after, hlog, rfl⟩ := h
  exact ⟨before, after ++ es', hlog, List.append_assoc _ _ _⟩

theorem IsPlaced.behind (h : c.IsPlaced u es') (hlog : u.engine.log = w.engine.log ++ es) :
    c.IsPlaced w (es ++ es') := by
  obtain ⟨before, after, hbefore, rfl⟩ := h
  refine ⟨es ++ before, after, ?_, ?_⟩
  · rw [hbefore, hlog, List.append_assoc]
  · rw [List.append_assoc, List.append_assoc, List.append_assoc]

end Invocation

/-- The log tells the same as the tale of what happens from a world on. -/
structure Faithful (programs : S → Program S σ) (w : World S σ) (x : Tale S σ) : Prop where
  reports : x.events.filterMap Event.report? = x.invocations.filterMap (·.report? programs)
  orphans : x.events.countP Event.isOrphaned = x.invocations.countP (·.isOrphaned)
  answered : Event.Answered x.invocations x.events
  fallbacks : x.events.count .fallingBack = x.invocations.countP (·.fallsBack programs)
  invocations : ∀ c ∈ x.invocations, c.IsLogged programs ∧ c.IsPlaced w x.events

namespace Faithful

variable {programs : S → Program S σ} {w u : World S σ} {x y : Tale S σ}

/-- Events that tell of no invocation. -/
theorem ofEvents {es : List Event} (h : ∀ e ∈ es, e.isOfInvocation = false) :
    Faithful programs w (.ofEvents es) where
  reports := by
    rw [Tale.events_ofEvents, Tale.invocations_ofEvents]
    exact List.filterMap_eq_nil_iff.2 fun e he => Event.report?_of_aside (h e he)
  orphans := by
    rw [Tale.events_ofEvents, Tale.invocations_ofEvents]
    exact List.countP_eq_zero.2 fun e he =>
      Bool.eq_false_iff.1 (Event.isOrphaned_of_aside (h e he))
  answered := by
    rw [Tale.events_ofEvents]
    exact Event.answered_of_not_isOrphaned fun e he => Event.isOrphaned_of_aside (h e he)
  fallbacks := by
    rw [Tale.events_ofEvents, Tale.invocations_ofEvents]
    exact List.count_eq_zero.2 fun he => Event.ne_fallingBack_of_aside (h _ he) rfl
  invocations := by
    rw [Tale.invocations_ofEvents]
    exact nofun

theorem nil : Faithful programs w .nil := ofEvents (List.forall_mem_nil _)

theorem append (hx : Faithful programs w x) (hy : Faithful programs u y)
    (hlog : u.engine.log = w.engine.log ++ x.events) : Faithful programs w (x ++ y) where
  reports := by simp [hx.reports, hy.reports]
  orphans := by simp [hx.orphans, hy.orphans]
  answered := by
    rw [Tale.events_append, Tale.invocations_append]
    exact hx.answered.append hy.answered
  fallbacks := by simp [hx.fallbacks, hy.fallbacks]
  invocations := by
    intro c hc
    rw [Tale.invocations_append, List.mem_append] at hc
    rw [Tale.events_append]
    obtain hc | hc := hc
    · obtain ⟨hlogged, hplaced⟩ := hx.invocations c hc
      exact ⟨hlogged, hplaced.append⟩
    · obtain ⟨hlogged, hplaced⟩ := hy.invocations c hc
      exact ⟨hlogged, hplaced.behind hlog⟩

/-- What matters of the world is how far the log has got. -/
theorem of_log (hx : Faithful programs u x) (hlog : u.engine.log = w.engine.log) :
    Faithful programs w x where
  reports := hx.reports
  orphans := hx.orphans
  answered := hx.answered
  fallbacks := hx.fallbacks
  invocations := by
    intro c hc
    obtain ⟨hlogged, before, after, hbefore, hevents⟩ := hx.invocations c hc
    exact ⟨hlogged, before, after, hlog ▸ hbefore, hevents⟩

end Faithful

/-- The tale is what the log says of a run that starts in a world, and it is faithful. -/
structure Tells (programs : S → Program S σ) (w : World S σ) (r : Except Halt α × World S σ)
    (x : Tale S σ) : Prop where
  log : r.2.engine.log = w.engine.log ++ x.events
  faithful : Faithful programs w x

namespace Tells

variable {programs : S → Program S σ} {w : World S σ}

/-- A run that logs nothing. -/
theorem still {r : Except Halt α × World S σ} (h : r.2.engine.log = w.engine.log) :
    Tells programs w r .nil :=
  ⟨h.trans (List.append_nil _).symm, .nil⟩

theorem since {r : Except Halt α × World S σ} (h : w.engine.Aside r.2.engine) :
    Tells programs w r (.since w r.2) := by
  obtain ⟨es, hlog, hes⟩ := h
  have hsince : Tale.since w r.2 = .ofEvents es := by
    rw [Tale.since, hlog, List.drop_left]
  rw [hsince]
  exact ⟨by rw [hlog, Tale.events_ofEvents], .ofEvents hes⟩

/-- Only the log matters of the worlds that a run starts from and leads to. -/
theorem of_log {r : Except Halt α × World S σ} {r' : Except Halt β × World S σ}
    {u : World S σ} {x : Tale S σ} (h : Tells programs u r x)
    (hstart : u.engine.log = w.engine.log) (hend : r'.2.engine.log = r.2.engine.log) :
    Tells programs w r' x :=
  ⟨by rw [hend, h.log, hstart], h.faithful.of_log hstart⟩

theorem append {r : Except Halt α × World S σ} {r' : Except Halt β × World S σ} {x y : Tale S σ}
    (h : Tells programs w r x) (h' : Tells programs r.2 r' y) : Tells programs w r' (x ++ y) := by
  refine ⟨?_, h.faithful.append h'.faithful h.log⟩
  rw [h'.log, h.log, Tale.events_append, List.append_assoc]

theorem bind {run : Run S σ α} {f : α → Run S σ β} {x : Tale S σ}
    {g : α → World S σ → Tale S σ} (h : Tells programs w (run w) x)
    (next : ∀ a u, Tells programs u (f a u) (g a u)) :
    Tells programs w ((run >>= f) w) (x ++ Tale.after (run w) g) := by
  rw [Run.bind_apply]
  rcases hrun : run w with ⟨halt | a, u⟩
  · rw [hrun] at h
    rw [Tale.after, Tale.append_nil]
    exact h.of_log rfl rfl
  · rw [hrun] at h
    exact h.append (next a u)

theorem log_emit {r : Except Halt α × World S σ} {x : Tale S σ} (h : Tells programs w r x)
    (e : Event) : (r.2.emit e).engine.log = w.engine.log ++ (x.events ++ [e]) := by
  rw [← List.append_assoc, ← h.log]
  rfl

/-- A run behind one that logs nothing. -/
theorem bind_still {run : Run S σ α} {f : α → Run S σ β} {g : α → World S σ → Tale S σ}
    (h : (run w).2.engine.log = w.engine.log)
    (next : ∀ a u, Tells programs u (f a u) (g a u)) :
    Tells programs w ((run >>= f) w) (Tale.after (run w) g) :=
  (still h).bind next

/-- What is made of the result logs nothing. -/
theorem bind_pure {run : Run S σ α} {x : Tale S σ} (h : Tells programs w (run w) x)
    (f : α → β) : Tells programs w ((run >>= fun a => pure (f a)) w) x := by
  refine h.of_log rfl ?_
  rw [Run.bind_apply]
  rcases run w with ⟨halt | a, u⟩ <;> rfl

theorem holding {run : Run S σ α} {x : Tale S σ} {t : TxnKey}
    (h : Tells programs (w.hold t) (run (w.hold t)) x) :
    Tells programs w (Run.holding t run w) x :=
  h.of_log rfl rfl

theorem settle {run : Run S σ α} {x : Tale S σ} (h : Tells programs w (run w) x) :
    Tells programs w (run.settle w) x := by
  refine h.of_log rfl ?_
  rw [Run.settle]
  rcases run w with ⟨(why | _) | a, u⟩ <;> rfl

end Tells

namespace Meaning

variable (steps : Meaning S σ) (a : Action S) (w : World S σ)

theorem toOption_invoke :
    (steps.invoke a w).1.toOption = (steps.runBody a.body w).1.toOption := by
  rw [invoke, Run.bind_apply]
  rcases steps.runBody a.body w with ⟨halt | ok, u⟩ <;> rfl

/-- An invocation that returns reports at its end. -/
theorem log_invoke : (steps.invoke a w).2.engine.log = (steps.runBody a.body w).2.engine.log ++
    (steps.invoke a w).1.toOption.toList.map (.invoked a.kind) := by
  rw [invoke, Run.bind_apply]
  rcases steps.runBody a.body w with ⟨halt | ok, u⟩
  · exact (List.append_nil _).symm
  · rfl

theorem runBody_of_not_canRun {b : Body S} {w : World S σ} (h : w.engine.canRun b = false) :
    steps.runBody b w = (.ok false, w.emit (.orphaned b.shape)) := by
  cases b with
  | free s => cases h
  | step t s | choice t primary fallback =>
    have halive : w.engine.isAlive t = false := h
    simp [runBody, onLive, Run.bind_apply, halive, Body.shape]

end Meaning

namespace Moment

variable {programs : S → Program S σ} {m : Moment S σ}

theorem result_of_isOrphaned (h : m.isOrphaned = true) : m.result programs = some false := by
  rw [isOrphaned, Bool.not_eq_true'] at h
  rw [result, run, Meaning.toOption_invoke, Meaning.runBody_of_not_canRun _ h]
  rfl

theorem isOrphaned_of_fallback? {p : TxnKey × S × World S σ}
    (h : m.fallback? programs = some p) : m.isOrphaned = false := by
  rw [isOrphaned, Bool.not_eq_false']
  rw [fallback?] at h
  split at h
  · next t primary fallback hbody =>
    split at h
    · next halive =>
      rw [hbody]
      exact halive
    · cases h
  · cases h

end Moment

/-- What the log says of the time before an invocation returns, up to what the invocation
itself has to report. -/
structure Meanwhile (programs : S → Program S σ) (m : Moment S σ) (x : Tale S σ) : Prop where
  log : ((m.steps programs).runBody m.action.body m.world).2.engine.log =
    m.world.engine.log ++ x.events
  reports : x.events.filterMap Event.report? = x.invocations.filterMap (·.report? programs)
  orphans : x.events.countP Event.isOrphaned =
    x.invocations.countP (·.isOrphaned) + m.isOrphaned.toNat
  orphaned : m.isOrphaned = true → x.events = [.orphaned m.action.body.shape]
  answered : m.isOrphaned = false → Event.Answered x.invocations x.events
  fallbacks : x.events.count .fallingBack =
    x.invocations.countP (·.fallsBack programs) + (m.fallsBack programs).toNat
  fallback : ∀ t s u, m.fallback? programs = some (t, s, u) →
    ∃ es es', u.engine.log = m.world.engine.log ++ es ∧
      (m.steps programs s (some t) (u.emit .fallingBack)).2.engine.log =
        u.engine.log ++ .fallingBack :: es' ∧
      x.events = es ++ .fallingBack :: es'
  invocations : ∀ c ∈ x.invocations, c.IsLogged programs ∧ c.IsPlaced m.world x.events

namespace Meanwhile

variable {programs : S → Program S σ} {m : Moment S σ} {x y : Tale S σ}

/-- Without a transaction nothing happens but that this is logged. -/
theorem of_isOrphaned (h : m.isOrphaned = true) :
    Meanwhile programs m (.event (.orphaned m.action.body.shape) .nil) where
  log := by
    have hgone : m.world.engine.canRun m.action.body = false := by
      simpa [Moment.isOrphaned] using h
    rw [Meaning.runBody_of_not_canRun _ hgone]
    rfl
  reports := rfl
  orphans := by
    rw [h]
    rfl
  orphaned _ := rfl
  answered hbound := absurd h (Bool.eq_false_iff.1 hbound)
  fallbacks := by
    have hback : m.fallback? programs = none :=
      Option.eq_none_iff_forall_ne_some.2 fun _ hback =>
        absurd h (Bool.eq_false_iff.1 (Moment.isOrphaned_of_fallback? hback))
    rw [Moment.fallsBack, hback]
    rfl
  fallback t s u hback := absurd h (Bool.eq_false_iff.1 (Moment.isOrphaned_of_fallback? hback))
  invocations := nofun

/-- One step is evaluated. -/
theorem of_tells
    (h : Tells programs m.world ((m.steps programs).runBody m.action.body m.world) x)
    (hbound : m.isOrphaned = false) (hback : m.fallback? programs = none) :
    Meanwhile programs m x where
  log := h.log
  reports := h.faithful.reports
  orphans := by
    rw [h.faithful.orphans, hbound]
    rfl
  orphaned horphaned := absurd horphaned (Bool.eq_false_iff.1 hbound)
  answered _ := h.faithful.answered
  fallbacks := by
    rw [h.faithful.fallbacks, Moment.fallsBack, hback]
    rfl
  fallback t s u hsome := by
    rw [hback] at hsome
    cases hsome
  invocations := h.faithful.invocations

/-- The fallback is evaluated behind the primary step. -/
theorem of_fallback? {t : TxnKey} {s : S} {u : World S σ}
    (hback : m.fallback? programs = some (t, s, u))
    (hx : Tells programs m.world ((.ok false, u) : Except Halt Bool × World S σ) x)
    (hy : Tells programs (u.emit .fallingBack)
      (m.steps programs s (some t) (u.emit .fallingBack)) y)
    (hbody : ((m.steps programs).runBody m.action.body m.world).2.engine.log =
      (m.steps programs s (some t) (u.emit .fallingBack)).2.engine.log) :
    Meanwhile programs m (x ++ .event .fallingBack y) where
  log := by
    have hlog := hx.log_emit .fallingBack
    simp [hbody, hy.log, hlog, Tale.events]
  reports := by
    have hskip : (Event.fallingBack :: y.events).filterMap Event.report? =
        y.events.filterMap Event.report? := rfl
    simp [Tale.events, Tale.invocations, hx.faithful.reports, hy.faithful.reports, hskip]
  orphans := by
    have hbound := Moment.isOrphaned_of_fallback? hback
    simp [Tale.events, Tale.invocations, hx.faithful.orphans, hy.faithful.orphans, hbound,
      Event.isOrphaned]
  orphaned horphaned := by
    rw [Moment.isOrphaned_of_fallback? hback] at horphaned
    cases horphaned
  answered _ := by
    have hfalling : Event.Answered ([] : List (Invocation S σ)) [.fallingBack] :=
      Event.answered_of_not_isOrphaned fun e he => by
        rw [List.mem_singleton.1 he]
        rfl
    rw [Tale.events_append, Tale.invocations_append, Tale.events, Tale.invocations]
    exact hx.faithful.answered.append (hfalling.append hy.faithful.answered)
  fallbacks := by
    simp [Tale.events, Tale.invocations, hx.faithful.fallbacks, hy.faithful.fallbacks,
      Moment.fallsBack, hback]
    omega
  fallback t' s' u' hsome := by
    rw [hback] at hsome
    cases hsome
    refine ⟨x.events, y.events, hx.log, ?_, Tale.events_append _ _⟩
    rw [hy.log]
    exact List.append_assoc _ _ _
  invocations := by
    intro c hc
    rw [Tale.invocations_append, Tale.invocations, List.mem_append] at hc
    rw [Tale.events_append, Tale.events]
    obtain hc | hc := hc
    · obtain ⟨hlogged, hplaced⟩ := hx.faithful.invocations c hc
      exact ⟨hlogged, hplaced.append⟩
    · obtain ⟨hlogged, hplaced⟩ := hy.faithful.invocations c hc
      rw [List.append_cons]
      exact ⟨hlogged, hplaced.behind (hx.log_emit .fallingBack)⟩

/-- The invocation reports that it returns. -/
theorem isLogged (h : Meanwhile programs m x) : Invocation.IsLogged programs
    ⟨m, x ++ Tale.completion m.action.kind (m.result programs)⟩ where
  log := by
    rw [Moment.run, Meaning.log_invoke, h.log, Tale.events_append, Tale.events_completion,
      List.append_assoc]
    rfl
  last ok hok := by
    rw [hok, Tale.events_append]
    exact List.getLast?_concat
  orphaned horphaned := by
    rw [Moment.result_of_isOrphaned horphaned, Tale.events_append, h.orphaned horphaned]
    rfl
  fallback t s u hback := by
    obtain ⟨es, es', hprimary, hfallback, hevents⟩ := h.fallback t s u hback
    refine ⟨es, es', hprimary, hfallback, ?_⟩
    rw [Tale.events_append, hevents, Tale.events_completion]

theorem answered_events (h : Meanwhile programs m x) :
    let inner := x ++ Tale.completion m.action.kind (m.result programs)
    Event.Answered (inner.invocations ++ [⟨m, inner⟩]) inner.events := by
  intro inner
  cases horphaned : m.isOrphaned with
  | true =>
    have hevents : inner.events = [.orphaned m.action.body.shape, .invoked m.action.kind false] :=
      h.isLogged.orphaned horphaned
    rw [hevents]
    exact Event.answered_pair (List.mem_append_right _ (List.mem_singleton_self _)) horphaned
  | false =>
    have hcalls : inner.invocations = x.invocations := by simp [inner]
    rw [Tale.events_append, Tale.events_completion, hcalls]
    refine (h.answered horphaned).append (Event.answered_of_not_isOrphaned fun e he => ?_)
    obtain ⟨ok, -, rfl⟩ := List.mem_map.1 he
    rfl

/-- An invocation adds what it has to log itself. -/
theorem faithful (h : Meanwhile programs m x) : Faithful programs m.world
    (.invocation m (x ++ Tale.completion m.action.kind (m.result programs)) .nil) where
  reports := by
    have hreport : m.report? programs = (m.result programs).map (m.action.kind, ·) := rfl
    cases hresult : m.result programs <;>
      simp [Tale.events, Tale.invocations, h.reports, hreport, hresult, Event.report?]
  orphans := by
    cases hresult : m.result programs <;> cases horphaned : m.isOrphaned <;>
      simp [Tale.events, Tale.invocations, h.orphans, horphaned, Event.isOrphaned]
  answered := by
    rw [Tale.events, Tale.events, List.append_nil]
    exact h.answered_events
  fallbacks := by
    cases hresult : m.result programs <;> cases hback : m.fallsBack programs <;>
      simp [Tale.events, Tale.invocations, h.fallbacks, hback]
  invocations := by
    intro c hc
    simp only [Tale.invocations, Tale.invocations_append, Tale.invocations_completion,
      List.append_nil, List.mem_append, List.mem_singleton] at hc
    rw [Tale.events, Tale.events, List.append_nil]
    obtain hc | rfl := hc
    · obtain ⟨hlogged, hplaced⟩ := h.invocations c hc
      rw [Tale.events_append]
      exact ⟨hlogged, hplaced.append⟩
    · exact ⟨h.isLogged, [], [], (List.append_nil _).symm, (List.append_nil _).symm⟩

end Meanwhile

end TxnAssembly
