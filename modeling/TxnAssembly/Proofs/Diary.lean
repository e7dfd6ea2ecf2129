import Mathlib.Data.List.DropRight
import TxnAssembly.Proofs.History
import TxnAssembly.Proofs.Numbering
import TxnAssembly.Proofs.Roster
import TxnAssembly.View

/-!
# The log as a diary of a builder

What a builder logs in a call can be foretold from what it has logged in the calls before:
how many actions it has reported since it last started is how many it has. So whoever reads
only the builder's own events knows the kinds of its sequence, what a restart throws away
and what is installed, and is told when a transaction is handed out without it.
-/
namespace TxnAssembly

variable {S : Type}

namespace Event

def isStart (e : Event) : Bool :=
  match e with
  | buildStarted _ => true
  | _ => false

/-- Position and kind, where an action is reported. -/
def appended? (e : Event) : Option (Nat × ActionKind) :=
  match e with
  | actionAppended _ kind position => some (position, kind)
  | _ => none

/-- The actions reported since the last start. -/
def appended (log : List Event) : List (Nat × ActionKind) :=
  (log.rtakeWhile fun e => !e.isStart).filterMap appended?

theorem appended_concat (log : List Event) (e : Event) :
    appended (log ++ [e]) = if e.isStart then [] else appended log ++ e.appended?.toList := by
  rw [appended, List.rtakeWhile_concat]
  cases h : e.isStart with
  | true => rfl
  | false =>
    have hlast : [e].filterMap appended? = e.appended?.toList := by
      rw [List.filterMap_cons]
      cases e.appended? <;> rfl
    simp [appended, hlast]

end Event

/-- What a builder logs in a call that is not refused, if the build has been started before
or not and has that many actions. -/
def Call.events (c : Call S) (label : Option String) (started : Bool) (length : Nat)
    (context : ContextId) (txn : TxnId) : List Event :=
  let start := (if started then [.buildRestarted label length] else []) ++ [.buildStarted label]
  match c with
  | startBuild => start
  | startBuildWith _ => start ++ [.actionAppended label .sequential 0]
  | append _ => [.actionAppended label .sequential length]
  | appendChoice _ _ => [.actionAppended label .choice length]
  | finalize => [.finalizing label length, .planInstalled context txn length]

namespace Builder

variable {b b' : Builder S} {e e' : Engine S} {c : Call S}

theorem log_of_startBuild (h : b.startBuild e = (.ok b', e')) : e'.log = e.log ++
    ((if b.sequence.isSome then [.buildRestarted b.config.label b.length] else []) ++
      [.buildStarted b.config.label]) := by
  rw [startBuild] at h
  split at h
  · next hsequence =>
    obtain ⟨-, rfl⟩ := openSequence_eq_ok h
    rw [hsequence]
    rfl
  · next actions hsequence =>
    split at h
    · cases h
    · obtain ⟨-, rfl⟩ := openSequence_eq_ok h
      have hlength : b.length = actions.length := by simp [length, Builder.actions, hsequence]
      simp [hsequence, hlength]

theorem log_of_push {operation : String} {x : Recipe S}
    (h : b.push operation x e = (.ok b', e')) :
    e'.log = e.log ++ [.actionAppended b.config.label x.kind b.length] := by
  rw [push] at h
  split at h
  · cases h
  · next actions hsequence =>
    cases h
    have hlength : b.length = actions.length := by simp [length, Builder.actions, hsequence]
    rw [hlength, ← e.kind_newAction x]
    rfl

/-- The events of a call. -/
theorem log_of_call (h : b.call c e = (.ok b', e')) :
    e'.log = e.log ++ c.events b.config.label b.sequence.isSome b.length
      (e.viewTxn b.txn).context (e.viewTxn b.txn).id := by
  cases c with
  | startBuild => exact log_of_startBuild h
  | startBuildWith step =>
    rw [call, startBuildWith] at h
    split at h
    · next b₁ e₁ hstart =>
      obtain ⟨rfl, -, -⟩ := startBuild_eq_ok hstart
      rw [log_of_push h, log_of_startBuild hstart, List.append_assoc]
      rfl
    · cases h
  | append step => exact log_of_push h
  | appendChoice primary fallback => exact log_of_push h
  | finalize =>
    obtain ⟨actions, hsequence, -, rfl⟩ := finalize_eq_ok h
    have hlength : b.length = actions.length := by simp [length, Builder.actions, hsequence]
    rw [hlength]
    exact List.append_assoc _ _ _

end Builder

/-- One entry of a diary: a call of the builder with the events that have been logged
meanwhile, or what others have done, who may have installed a plan. -/
inductive Page (S : Type) where
  | call (c : Call S) (events : List Event)
  | others (installed : Bool)

namespace Page

def events (x : Page S) : List Event :=
  match x with
  | call _ events => events
  | others _ => []

def call? (x : Page S) : Option (Call S) :=
  match x with
  | call c _ => some c
  | others _ => none

/-- What the builder has logged in its calls. -/
def allEvents (pages : List (Page S)) : List Event := pages.flatMap events

def lastCall? (pages : List (Page S)) : Option (Call S) := (pages.filterMap call?).getLast?

theorem lastCall?_of_others (before : List (Page S)) (c : Call S) (log : List Event)
    {after : List (Page S)} (h : ∀ y ∈ after, y = others false) :
    lastCall? (before ++ call c log :: after) = some c := by
  have hnone : after.filterMap call? = [] := by
    refine List.filterMap_eq_nil_iff.2 fun y hy => ?_
    rw [h y hy]
    rfl
  rw [lastCall?, List.filterMap_append, List.filterMap_cons, hnone]
  exact List.getLast?_concat

end Page

/-- Where calls of one builder, and anything else in between, have led to since it was made.
Others may do whatever leaves the builder as it is. -/
inductive Diary (config : Config) (c : ContextKey) (s₀ : Stage S) :
    List (Page S) → Stage S → Builder S → Prop where
  | create : Diary config c s₀ []
      ⟨.builder (Builder.create config c s₀.engine).1 :: s₀.hands,
        (Builder.create config c s₀.engine).2, s₀.shelf⟩ (Builder.create config c s₀.engine).1
  | call {pages : List (Page S)} {H : List (Hand S)} {e e' : Engine S} {s : Shelf S}
      {b b' : Builder S} (x : Call S) (h : Diary config c s₀ pages ⟨.builder b :: H, e, s⟩ b)
      (hcall : b.call x e = (.ok b', e')) :
    Diary config c s₀ (pages ++ [.call x (e'.log.drop e.log.length)])
      ⟨.builder b' :: H, e', s⟩ b'
  | others {pages : List (Page S)} {s s' : Stage S} {b : Builder S} (installed : Bool)
      (h : Diary config c s₀ pages s b) (hmoves : Moves s s') (hb : b ∈ s'.builders)
      (hplan : installed = false → s'.engine.plan? b.txn = s.engine.plan? b.txn) :
    Diary config c s₀ (pages ++ [.others installed]) s' b

/-- What can be told of a builder as it stands from its diary. -/
structure Told (config : Config) (pages : List (Page S)) (s : Stage S) (b : Builder S) :
    Prop where
  made : s.Made b.txn
  config : b.config = config
  started : b.sequence.isSome = (Page.allEvents pages).any Event.isStart
  appended : Event.appended (Page.allEvents pages) = b.actions.mapIdx fun i a => (i, a.kind)
  phase : b.phase = ((Page.lastCall? pages).map Call.phaseAfter).getD .unbuilt
  plan : ∀ before events after, pages = before ++ .call .finalize events :: after →
    (∀ y ∈ after, y = .others false) → s.engine.plan? b.txn = some b.actions

namespace Told

variable {config : Config} {pages : List (Page S)} {s s' : Stage S} {b b' : Builder S}

theorem length_appended (h : Told config pages s b) :
    (Event.appended (Page.allEvents pages)).length = b.length := by
  rw [h.appended, List.length_mapIdx]
  rfl

theorem others (h : Told config pages s b) {installed : Bool} (hmoves : Moves s s')
    (hplan : installed = false → s'.engine.plan? b.txn = s.engine.plan? b.txn) :
    Told config (pages ++ [.others installed]) s' b where
  made := h.made.moves hmoves
  config := h.config
  started := by simpa [Page.allEvents, Page.events] using h.started
  appended := by simpa [Page.allEvents, Page.events] using h.appended
  phase := by simpa [Page.lastCall?, Page.call?] using h.phase
  plan before events after hpages hquiet := by
    obtain ⟨-, hpage, -⟩ | ⟨rest, rfl, hrest⟩ := concat_eq_append_cons hpages
    · cases hpage
    · have hlast : Page.others installed = .others false :=
        hquiet _ (List.mem_append_right _ List.mem_cons_self)
      cases hlast
      rw [hplan rfl]
      exact h.plan before events rest hrest fun y hy => hquiet y (List.mem_append_left _ hy)

section Call

variable {H : List (Hand S)} {e e' : Engine S} {sh : Shelf S} {x : Call S}
  (h : Told config pages ⟨.builder b :: H, e, sh⟩ b) (hcall : b.call x e = (.ok b', e'))
include h hcall

/-- The events of the next call can be told from those before. -/
theorem drop_log : e'.log.drop e.log.length =
    x.events config.label ((Page.allEvents pages).any Event.isStart)
      (Event.appended (Page.allEvents pages)).length (e.viewTxn b.txn).context
      (e.viewTxn b.txn).id := by
  rw [Builder.log_of_call hcall, List.drop_left, h.config, h.started, h.length_appended]

theorem appended_call :
    Event.appended (Page.allEvents pages ++ e'.log.drop e.log.length) =
      b'.actions.mapIdx fun i a => (i, a.kind) := by
  have hown := h.appended
  have hlength := h.length_appended
  obtain ⟨-, rfl⟩ := Builder.call_eq_ok hcall
  rw [h.drop_log hcall, hlength]
  have hconcat : ∀ a : Action S, (b.actions ++ [a]).mapIdx (fun i a => (i, a.kind)) =
      b.actions.mapIdx (fun i a => (i, a.kind)) ++ [(b.length, a.kind)] :=
    fun a => List.mapIdx_concat
  cases x with
  | startBuild =>
    rw [Call.events, ← List.append_assoc, Event.appended_concat]
    rfl
  | startBuildWith step =>
    rw [Call.events, ← List.append_assoc, ← List.append_assoc, Event.appended_concat,
      Event.appended_concat]
    rfl
  | append step =>
    rw [Call.events, Event.appended_concat, hown]
    exact (hconcat (e.newAction (.sequential b.txn step)).1).symm
  | appendChoice primary fallback =>
    rw [Call.events, Event.appended_concat, hown]
    exact (hconcat (e.newAction (.choice b.txn primary fallback)).1).symm
  | finalize =>
    rw [Call.events, List.append_cons, Event.appended_concat, Event.appended_concat, hown]
    simp [Event.isStart, Event.appended?, Call.isStart, Deed.added?, Call.recipe?, Builder.actions]

theorem call : Told config (pages ++ [.call x (e'.log.drop e.log.length)])
    ⟨.builder b' :: H, e', sh⟩ b' where
  made := by
    obtain ⟨hsize, -⟩ := Builder.plan?_of_call_eq_ok hcall h.made
    obtain ⟨-, rfl⟩ := Builder.call_eq_ok hcall
    show b.txn.index < e'.txns.size
    rw [hsize]
    exact h.made
  config := by
    obtain ⟨-, rfl⟩ := Builder.call_eq_ok hcall
    exact h.config
  started := by
    have hevents : Page.allEvents (pages ++ [.call x (e'.log.drop e.log.length)]) =
        Page.allEvents pages ++ e'.log.drop e.log.length := by
      simp [Page.allEvents, Page.events]
    rw [hevents, List.any_append, h.drop_log hcall, ← h.started]
    obtain ⟨hsequence, rfl⟩ := Builder.call_eq_ok hcall
    cases x with
    | startBuild | startBuildWith step => simp [Call.events, Event.isStart]
    | append step | appendChoice primary fallback | finalize =>
      have hsome := Option.isSome_iff_ne_none.2 (hsequence rfl)
      simp [hsome]
  appended := by
    rw [← h.appended_call hcall]
    simp [Page.allEvents, Page.events]
  phase := by
    obtain ⟨-, rfl⟩ := Builder.call_eq_ok hcall
    simp [Page.lastCall?, Page.call?]
  plan before events after hpages hquiet := by
    obtain ⟨-, hpage, -⟩ | ⟨rest, rfl, -⟩ := concat_eq_append_cons hpages
    · obtain ⟨rfl, -⟩ := Page.call.inj hpage
      obtain ⟨-, hplan⟩ := Builder.plan?_of_call_eq_ok hcall h.made
      obtain ⟨hsequence, rfl⟩ := Builder.call_eq_ok hcall
      obtain ⟨actions, hactions⟩ := Option.ne_none_iff_exists'.1 (hsequence rfl)
      refine hplan.trans ?_
      simp [Deed.installed?, Deed.added?, Call.recipe?, Call.isStart, Builder.actions, hactions]
    · have hlast := hquiet _ (List.mem_append_right _ List.mem_cons_self)
      cases hlast

end Call

end Told

theorem Diary.told {config : Config} {c : ContextKey} {s₀ s : Stage S} {pages : List (Page S)}
    {b : Builder S} (h : Diary config c s₀ pages s b) : Told config pages s b := by
  induction h with
  | create =>
    refine ⟨?_, rfl, rfl, rfl, rfl, fun before events after hpages => ?_⟩
    · show s₀.engine.txns.size < (s₀.engine.openTxn c).2.txns.size
      rw [Engine.size_openTxn]
      exact Nat.lt_succ_self _
    · exact absurd hpages (by simp)
  | call x h hcall ih => exact ih.call hcall
  | others installed h hmoves hb hplan ih => exact ih.others hmoves hplan

section Next

variable {config : Config} {pages : List (Page S)} {s : Stage S} {b b' : Builder S}
  {e' : Engine S} (h : Told config pages s b)
include h

/-- To finalize reports the number that the transaction has in the end, and its names. -/
theorem Told.finalize (hcall : b.call .finalize s.engine = (.ok b', e')) :
    (Event.appended (Page.allEvents pages)).length = b'.length ∧
      (e'.viewTxn b.txn).actionCount = b'.length ∧
      (e'.viewTxn b.txn).context = (s.engine.viewTxn b.txn).context ∧
      (e'.viewTxn b.txn).id = (s.engine.viewTxn b.txn).id := by
  obtain ⟨-, hplan⟩ := Builder.plan?_of_call_eq_ok hcall h.made
  obtain ⟨actions, hactions, rfl, rfl⟩ := Builder.finalize_eq_ok hcall
  have hlength : b.length = actions.length := by simp [Builder.length, Builder.actions, hactions]
  refine ⟨h.length_appended, ?_, ?_, Engine.txnId_install ..⟩
  · rw [TxnView.actionCount, Engine.viewTxn, hplan]
    simp [Deed.installed?, hactions, Engine.viewPlan, Builder.length, Builder.actions]
  · rw [Engine.viewTxn, Engine.contextOf_install]
    rfl

/-- Only after finalizing the retrieval is silent. -/
theorem Told.log_retrieve : (b.retrieve s.engine).2.log = s.engine.log ++
    if b.phase = .finalized then [] else [.retrievedUnfinalized config.label b.phase] := by
  rw [Builder.retrieve, ← h.config]
  split <;> simp

theorem Told.phase_eq_finalized_iff :
    b.phase = .finalized ↔ Page.lastCall? pages = some .finalize := by
  rw [h.phase]
  cases Page.lastCall? pages with
  | none => simp
  | some x => cases x <;> simp [Call.phaseAfter]

end Next

/-- The log tells the history of a builder, at every point of it: after any calls that were
not refused, with anything else in between. The actions that the builder has reported since it
last started have the positions from zero on and are of the kinds of its sequence. What the
next call logs is told by that: a restart reports the number of them as discarded and then the
start, and to finalize reports their number and then the installation, with the number that the
builder and its transaction have in the end and with the names of the transaction. The
retrieval reports something if and only if the last call was not to finalize. When it is silent
and nobody else has installed a plan since the last call, the plan that is handed out is the
sequence. -/
theorem log_of_diary {config : Config} {c : ContextKey} {s₀ s : Stage S} {pages : List (Page S)}
    {b : Builder S} (h : Diary config c s₀ pages s b) :
    let own := Page.allEvents pages
    let added := Event.appended own
    let retrieved := b.retrieve s.engine
    (added = b.actions.mapIdx (fun i a => (i, a.kind)) ∧
      (b.sequence = none ↔ ∀ event ∈ own, event.isStart = false)) ∧
    (∀ x b' e', b.call x s.engine = (.ok b', e') →
      e'.log = s.engine.log ++ x.events config.label (own.any Event.isStart) added.length
        (e'.viewTxn b.txn).context (e'.viewTxn b.txn).id ∧
      (x = .finalize → added.length = b'.length ∧
        (e'.viewTxn b.txn).actionCount = b'.length)) ∧
    (retrieved.2.log = s.engine.log ↔ Page.lastCall? pages = some .finalize) ∧
    (Page.lastCall? pages ≠ some .finalize →
      retrieved.2.log = s.engine.log ++ [.retrievedUnfinalized config.label b.phase]) ∧
    ∀ before x events after, pages = before ++ .call x events :: after →
      (∀ y ∈ after, y = .others false) → retrieved.2.log = s.engine.log →
      retrieved.2.plan? retrieved.1 = some b.actions := by
  intro own added retrieved
  have htold := h.told
  have hretrieve := htold.log_retrieve
  have hsilent : retrieved.2.log = s.engine.log ↔ Page.lastCall? pages = some .finalize := by
    rw [← htold.phase_eq_finalized_iff, hretrieve]
    by_cases hphase : b.phase = .finalized <;> simp [hphase]
  refine ⟨⟨htold.appended, ?_⟩, ?_, hsilent, ?_, ?_⟩
  · rw [← Option.isNone_iff_eq_none, ← Option.not_isSome, htold.started]
    simp [own]
  · intro x b' e' hcall
    have hlog := Builder.log_of_call hcall
    rw [htold.config, htold.started, ← htold.length_appended] at hlog
    cases x with
    | finalize =>
      obtain ⟨hlength, hcount, hcontext, hid⟩ := htold.finalize hcall
      rw [hcontext, hid]
      exact ⟨hlog, fun _ => ⟨hlength, hcount⟩⟩
    | startBuild | startBuildWith | append | appendChoice => exact ⟨hlog, nofun⟩
  · intro hlast
    rw [hretrieve, if_neg (mt htold.phase_eq_finalized_iff.1 hlast)]
  · intro before x events after hpages hquiet hlog
    have hlast : Page.lastCall? pages = some x :=
      hpages ▸ Page.lastCall?_of_others before x events hquiet
    obtain rfl : x = .finalize := Option.some.inj (hlast.symm.trans (hsilent.1 hlog))
    have hkept : retrieved.2.plan? retrieved.1 = s.engine.plan? b.txn := by
      simp only [retrieved, Builder.retrieve]
      split <;> rfl
    exact hkept.trans (htold.plan before events after hpages hquiet)

/-- A stage with a context and nothing else. -/
def oneContextMade : Stage Unit := ⟨[], (Engine.openContext {} none).2, {}⟩

def labelled : Config := ⟨some "a", .restart, 0⟩

/-- A builder that is finalized, starts over and is finalized again. Somebody else installs a
plan before, and logs something after it. -/
theorem restarted_log_of_diary :
    ∃ (pages : List (Page Unit)) (s : Stage Unit) (b : Builder Unit),
      Diary labelled ⟨0⟩ oneContextMade pages s b ∧
        Event.appended (Page.allEvents pages) = [(0, .sequential), (1, .choice)] ∧
        (b.retrieve s.engine).2.log = s.engine.log ∧
        (b.retrieve s.engine).2.plan? (b.retrieve s.engine).1 = some b.actions := by
  have h₀ : Diary labelled ⟨0⟩ oneContextMade [] _ _ := .create
  have h₁ := h₀.call (.startBuildWith ()) rfl
  have h₂ := h₁.others true (.single (.install ⟨0⟩ (List.forall_mem_nil _)))
    ((Stage.builders_cons _).mem_iff.2 List.mem_cons_self) nofun
  have h₃ := h₂.call .finalize rfl
  have h₄ := h₃.call (.startBuildWith ()) rfl
  have h₅ := h₄.call (.appendChoice () ()) rfl
  have h₆ := h₅.call .finalize rfl
  have h₇ := h₆.others false (.single (.emit .fallingBack))
    ((Stage.builders_cons _).mem_iff.2 List.mem_cons_self) fun _ => rfl
  obtain ⟨⟨hadded, -⟩, -, hsilent, -, hplan⟩ := log_of_diary h₇
  have hlog := hsilent.2 rfl
  exact ⟨_, _, _, h₇, hadded.trans rfl, hlog,
    hplan [_, _, _, _, _] .finalize _ [.others false] rfl (by simp) hlog⟩

end TxnAssembly
