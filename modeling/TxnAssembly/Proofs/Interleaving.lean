import Mathlib.Logic.Function.Basic
import TxnAssembly.Proofs.Orders
import TxnAssembly.Proofs.Ownership
import TxnAssembly.Proofs.Roster

/-!
# Builders do not interfere

Orders to several builders, interleaved in any way, lead each of them to where its own
orders lead it alone. What an order leads to depends on the builder and on what concerns
its transaction; the identity of bodies apart, which are numbered in the order of their
making, nothing of that is changed by an order to another builder. What is left of the
interleaving is the order of the events of different builders.
-/
namespace TxnAssembly

variable {S ι : Type}

/-- The action without its identity. -/
def Action.anonymous (a : Action S) : Action S := { a with key := ⟨0⟩ }

theorem Recipe.anonymous_make (x : Recipe S) (key : BodyKey) :
    (x.make key).anonymous = x.make ⟨0⟩ := by
  cases x <;> rfl

def Txn.anonymous (x : Txn S) : Txn S := { x with plan := x.plan.map (·.map Action.anonymous) }

def Builder.anonymous (b : Builder S) : Builder S :=
  { b with sequence := b.sequence.map (·.map Action.anonymous) }

def Stand.anonymous (p : Stand S) : Stand S :=
  match p with
  | active b => active b.anonymous
  | refused t why => refused t why
  | retrieved t => retrieved t

/-- What concerns one transaction: the contexts, the transaction itself, without the
identities of its actions, and how often it is owned. -/
structure Face (S : Type) where
  contexts : Array Context
  txn : Option (Txn S)
  owners : Nat

namespace Engine

def face (e : Engine S) (t : TxnKey) : Face S :=
  ⟨e.contexts, (e.txn? t).map Txn.anonymous, e.holds.count t⟩

variable {e e' : Engine S} {t u : TxnKey}

theorem Confined.face (h : Confined t e e') (hu : u ≠ t) : e'.face u = e.face u := by
  simp only [Engine.face, h.contexts, h.txns u hu, h.holds u hu]

theorem face_release (e : Engine S) (t : TxnKey) :
    (e.release t).face t = { e.face t with owners := (e.face t).owners - 1 } := by
  simp [face, release, txn?]

theorem face_emit (e : Engine S) (event : Event) (t : TxnKey) :
    (e.emit event).face t = e.face t := rfl

theorem face_install (e : Engine S) (t : TxnKey) (actions : List (Action S)) :
    (e.install t actions).face t = { e.face t with
      txn := (e.face t).txn.map fun x =>
        { x with plan := some (actions.map Action.anonymous) } } := by
  cases h : e.txns[t.index]? <;>
    simp [face, txn?, install, emit, Array.getElem?_modify, h, Txn.anonymous]

/-- Two engines have each become another one, and the same events have been logged. -/
def LogAlike (e e₁ e' e₁' : Engine S) : Prop :=
  ∃ events, e₁.log = e.log ++ events ∧ e₁'.log = e'.log ++ events

theorem LogAlike.refl (e e' : Engine S) : LogAlike e e e' e' := ⟨[], by simp⟩

theorem LogAlike.emit (e e' : Engine S) (event : Event) :
    LogAlike e (e.emit event) e' (e'.emit event) := ⟨[event], rfl, rfl⟩

theorem LogAlike.trans {e e₁ e₂ e' e₁' e₂' : Engine S} (h : LogAlike e e₁ e' e₁')
    (h' : LogAlike e₁ e₂ e₁' e₂') : LogAlike e e₂ e' e₂' := by
  obtain ⟨first, hfirst, hfirst'⟩ := h
  obtain ⟨later, hlater, hlater'⟩ := h'
  use first ++ later
  rw [hlater, hlater', hfirst, hfirst', List.append_assoc, List.append_assoc]
  exact ⟨rfl, rfl⟩

theorem log_install (e : Engine S) (t : TxnKey) (actions : List (Action S)) :
    (e.install t actions).log = e.log ++
      [.planInstalled (e.context (e.contextOf t)).id (e.txnId t) actions.length] := rfl

/-- The event of an installation shows nothing but what concerns the transaction. -/
theorem shown_of_face (h : e.face t = e'.face t) :
    (e.context (e.contextOf t)).id = (e'.context (e'.contextOf t)).id ∧
      e.txnId t = e'.txnId t := by
  simp only [face, Face.mk.injEq] at h
  obtain ⟨hcontexts, htxn, -⟩ := h
  have hcontext : (e.txn? t).map Txn.context = (e'.txn? t).map Txn.context := by
    simpa [Function.comp_def, Txn.anonymous] using congrArg (Option.map Txn.context) htxn
  have hid : (e.txn? t).map Txn.id = (e'.txn? t).map Txn.id := by
    simpa [Function.comp_def, Txn.anonymous] using congrArg (Option.map Txn.id) htxn
  rw [contextOf, contextOf, hcontext, context, context, hcontexts, txnId, txnId, hid]
  exact ⟨rfl, rfl⟩

theorem logAlike_install (h : e.face t = e'.face t) {actions actions' : List (Action S)}
    (hlength : actions.length = actions'.length) :
    LogAlike e (e.install t actions) e' (e'.install t actions') := by
  obtain ⟨hcontext, hid⟩ := shown_of_face h
  refine ⟨_, log_install e t actions, ?_⟩
  rw [log_install, hcontext, hid, hlength]

end Engine

namespace Builder

/-- Two outcomes that are the same for a transaction: equal but for the identities of
actions, with the same events. -/
structure Agree (t : TxnKey) (e e' : Engine S) (o o' : Outcome S) : Prop where
  result : o.1.map anonymous = o'.1.map anonymous
  face : o.2.face t = o'.2.face t
  events : Engine.LogAlike e o.2 e' o'.2

/-- Whatever has been logged before in the same way on both sides. -/
theorem Agree.after {t : TxnKey} {e e' e₁ e₁' : Engine S} {o o' : Outcome S}
    (h : Agree t e₁ e₁' o o') (hlog : Engine.LogAlike e e₁ e' e₁') : Agree t e e' o o' where
  result := h.result
  face := h.face
  events := hlog.trans h.events

theorem Agree.result_cases {t : TxnKey} {e e' : Engine S} {o o' : Outcome S}
    (h : Agree t e e' o o') :
    (∃ why e₁ e₁', o = (.error why, e₁) ∧ o' = (.error why, e₁')) ∨
      ∃ b b' e₁ e₁', o = (.ok b, e₁) ∧ o' = (.ok b', e₁') ∧ b.anonymous = b'.anonymous := by
  have hresult := h.result
  rcases o with ⟨why | b, e₁⟩ <;> rcases o' with ⟨why' | b', e₁'⟩
  · obtain rfl : why = why' := Except.error.inj hresult
    exact .inl ⟨why, e₁, e₁', rfl, rfl⟩
  · cases hresult
  · cases hresult
  · exact .inr ⟨b, b', e₁, e₁', rfl, rfl, Except.ok.inj hresult⟩

variable {b b' : Builder S} {e e' : Engine S}

/-- A builder that is equal to another but for the identities of actions. -/
theorem anonymous_eq_iff : b.anonymous = b'.anonymous ↔
    b.txn = b'.txn ∧ b.sequence.map (·.map Action.anonymous) =
        b'.sequence.map (·.map Action.anonymous) ∧
      b.phase = b'.phase ∧ b.config = b'.config := by
  simp [anonymous]

/-- The sequences are both missing, or their actions are the same. -/
theorem sequences_of_anonymous (hb : b.anonymous = b'.anonymous) :
    (b.sequence = none ∧ b'.sequence = none) ∨
      ∃ actions actions', b.sequence = some actions ∧ b'.sequence = some actions' ∧
        actions.map Action.anonymous = actions'.map Action.anonymous ∧
        actions.length = actions'.length := by
  obtain ⟨-, hsequence, -⟩ := anonymous_eq_iff.1 hb
  cases h : b.sequence <;> cases h' : b'.sequence <;> simp_all
  simpa using congrArg List.length hsequence

section Calls

variable (hb : b.anonymous = b'.anonymous) (he : e.face b.txn = e'.face b.txn)
include hb he

theorem agree_refuse (why : Refusal) : Agree b.txn e e' (b.refuse why e) (b'.refuse why e') where
  result := rfl
  face := by
    obtain ⟨htxn, -⟩ := anonymous_eq_iff.1 hb
    simp only [refuse, ← htxn, Engine.face_release, he]
  events := .refl e e'

theorem agree_openSequence : Agree b.txn e e' (b.openSequence e) (b'.openSequence e') := by
  obtain ⟨htxn, -, -, hconfig⟩ := anonymous_eq_iff.1 hb
  rw [openSequence, openSequence, ← hconfig]
  split
  · refine ⟨?_, he, .emit _ _ _⟩
    simp [Except.map, anonymous, hconfig, htxn]
  · exact agree_refuse hb he _

theorem agree_startBuild : Agree b.txn e e' (b.startBuild e) (b'.startBuild e') := by
  obtain ⟨-, -, hphase, hconfig⟩ := anonymous_eq_iff.1 hb
  obtain ⟨hnone, hnone'⟩ | ⟨actions, actions', hsome, hsome', hactions, hlength⟩ :=
    sequences_of_anonymous hb
  · simp only [startBuild, hnone, hnone']
    exact agree_openSequence hb he
  · simp only [startBuild, hsome, hsome', ← hphase, ← hconfig, ← hlength]
    cases b.config.restartPolicy with
    | reject => exact agree_refuse hb he _
    | restart =>
      apply Agree.after (agree_openSequence hb ?_) (.emit _ _ _)
      exact he

theorem agree_push (operation : String) (x : Recipe S) :
    Agree b.txn e e' (b.push operation x e) (b'.push operation x e') := by
  obtain ⟨htxn, -, -, hconfig⟩ := anonymous_eq_iff.1 hb
  obtain ⟨hnone, hnone'⟩ | ⟨actions, actions', hsome, hsome', hactions, hlength⟩ :=
    sequences_of_anonymous hb
  · simp only [push, hnone, hnone']
    exact agree_refuse hb he _
  · simp only [push, hsome, hsome', ← hconfig, ← hlength, Engine.kind_newAction]
    refine ⟨?_, he, .emit (e.newAction x).2 (e'.newAction x).2 _⟩
    simp [Except.map, anonymous, htxn, hconfig, hactions, Engine.newAction,
      Recipe.anonymous_make]

theorem agree_startBuildWith (step : S) :
    Agree b.txn e e' (b.startBuildWith step e) (b'.startBuildWith step e') := by
  have hstart := agree_startBuild hb he
  rw [startBuildWith, startBuildWith]
  obtain ⟨why, e₁, e₁', h, h'⟩ | ⟨b₁, b₁', e₁, e₁', h, h', hb₁⟩ := hstart.result_cases <;>
    rw [h, h'] at hstart ⊢
  · exact hstart
  · have htxn₁ : b₁.txn = b.txn := by
      obtain ⟨rfl, -⟩ := startBuild_eq_ok h
      rfl
    obtain ⟨htxn₁', -⟩ := anonymous_eq_iff.1 hb₁
    have hpush := agree_push hb₁ (htxn₁ ▸ hstart.face) "append" (.sequential b₁.txn step)
    rw [htxn₁] at hpush
    simp only [append, ← htxn₁', htxn₁]
    exact hpush.after hstart.events

theorem agree_finalize : Agree b.txn e e' (b.finalize e) (b'.finalize e') := by
  obtain ⟨htxn, hsequence, -, hconfig⟩ := anonymous_eq_iff.1 hb
  obtain ⟨hnone, hnone'⟩ | ⟨actions, actions', hsome, hsome', hactions, hlength⟩ :=
    sequences_of_anonymous hb
  · simp only [finalize, hnone, hnone']
    exact agree_refuse hb he _
  · simp only [finalize, hsome, hsome', ← hconfig, ← hlength, ← htxn]
    refine ⟨?_, ?_, ?_⟩
    · simp [Except.map, anonymous, htxn, hconfig, hactions]
    · simp only [Engine.face_install, Engine.face_emit, he, hactions]
    · have hemitted : (e.emit (.finalizing b.config.label actions.length)).face b.txn =
          (e'.emit (.finalizing b.config.label actions.length)).face b.txn := he
      exact (Engine.LogAlike.emit e e' _).trans (Engine.logAlike_install hemitted hlength)

/-- What a call leads to depends on the builder and on what concerns its transaction. -/
theorem agree_call (c : Call S) : Agree b.txn e e' (b.call c e) (b'.call c e') := by
  obtain ⟨htxn, -⟩ := anonymous_eq_iff.1 hb
  cases c with
  | startBuild => exact agree_startBuild hb he
  | startBuildWith step => exact agree_startBuildWith hb he step
  | append step =>
    simp only [call, append, ← htxn]
    exact agree_push hb he _ _
  | appendChoice primary fallback =>
    simp only [call, appendChoice, ← htxn]
    exact agree_push hb he _ _
  | finalize => exact agree_finalize hb he

theorem agree_retrieve : (b.retrieve e).2.face b.txn = (b'.retrieve e').2.face b.txn ∧
    Engine.LogAlike e (b.retrieve e).2 e' (b'.retrieve e').2 := by
  obtain ⟨-, -, hphase, hconfig⟩ := anonymous_eq_iff.1 hb
  simp only [retrieve, ← hphase, ← hconfig]
  split
  · exact ⟨he, .refl e e'⟩
  · exact ⟨he, .emit e e' _⟩

end Calls

end Builder

/-- What is seen of an order: where the builder stands then, what concerns its
transaction, and the events of the order. -/
structure Report (S : Type) where
  stand : Stand S
  face : Face S
  events : List Event

namespace Stand

def report (p : Stand S) (x : Order S) (e : Engine S) : Report S :=
  let (p', e') := p.obey x e
  ⟨p'.anonymous, e'.face p.txn, e'.log.drop e.log.length⟩

/-- The reports of orders given one after the other. -/
def reports (p : Stand S) (orders : List (Order S)) (e : Engine S) : List (Report S) :=
  match orders with
  | [] => []
  | x :: orders => p.report x e :: (p.obey x e).1.reports orders (p.obey x e).2

variable {p p' : Stand S} {e e' : Engine S}

/-- Two stands that are equal but for the identities of actions: both builders are still
there, or an order changes nothing any more. -/
theorem cases_of_anonymous (hp : p.anonymous = p'.anonymous) :
    (∃ b b', p = active b ∧ p' = active b' ∧ b.anonymous = b'.anonymous) ∨
      p = p' ∧ ∀ (x : Order S) (e : Engine S), p.obey x e = (p, e) := by
  cases p with
  | active b =>
    cases p' with
    | active b' => exact .inl ⟨b, b', rfl, rfl, Stand.active.inj hp⟩
    | refused | retrieved => cases hp
  | refused t why =>
    cases p' <;> cases hp
    exact .inr ⟨rfl, fun x e => rfl⟩
  | retrieved t =>
    cases p' <;> cases hp
    exact .inr ⟨rfl, fun x e => rfl⟩

theorem engine_obey_call (b : Builder S) (c : Call S) (e : Engine S) :
    ((active b).obey (.call c) e).2 = (b.call c e).2 := by
  rw [obey]
  split <;> simp [*]

theorem txn_of_anonymous (hp : p.anonymous = p'.anonymous) : p.txn = p'.txn := by
  obtain ⟨b, b', rfl, rfl, hb⟩ | ⟨rfl, -⟩ := cases_of_anonymous hp
  · exact (Builder.anonymous_eq_iff.1 hb).1
  · rfl

theorem report_eq {x : Order S} (htxn : p.txn = p'.txn)
    (hstand : (p.obey x e).1.anonymous = (p'.obey x e').1.anonymous)
    (hface : (p.obey x e).2.face p.txn = (p'.obey x e').2.face p.txn)
    (hlog : Engine.LogAlike e (p.obey x e).2 e' (p'.obey x e').2) :
    p.report x e = p'.report x e' := by
  obtain ⟨events, hlog, hlog'⟩ := hlog
  simp only [report, ← htxn, hstand, hface, hlog, hlog', List.drop_left]

/-- The report of an order depends on where the builder stands and on what concerns its
transaction. -/
theorem report_congr (hp : p.anonymous = p'.anonymous) (he : e.face p.txn = e'.face p.txn)
    (x : Order S) : p.report x e = p'.report x e' := by
  have htxn := txn_of_anonymous hp
  obtain ⟨b, b', rfl, rfl, hb⟩ | ⟨rfl, hidle⟩ := cases_of_anonymous hp
  · cases x with
    | retrieve =>
      obtain ⟨hface, hlog⟩ := Builder.agree_retrieve hb he
      have hstand : (retrieved b.txn : Stand S) = retrieved b'.txn := congrArg retrieved htxn
      exact report_eq htxn hstand hface hlog
    | call c =>
      have hcall := Builder.agree_call hb he c
      apply report_eq htxn
      · obtain ⟨why, e₁, e₁', h, h'⟩ | ⟨b₁, b₁', e₁, e₁', h, h', hb₁⟩ := hcall.result_cases
        · simp only [obey, h, h', anonymous]
          exact congrArg (refused · why) htxn
        · simp only [obey, h, h', anonymous, hb₁]
      · rw [engine_obey_call, engine_obey_call]
        exact hcall.face
      · rw [engine_obey_call, engine_obey_call]
        exact hcall.events
  · simp only [report, hidle, he, List.drop_length]

/-- Equal stands, seen alike, are led to equal stands by the same order. -/
theorem anonymous_obey_congr (hp : p.anonymous = p'.anonymous)
    (he : e.face p.txn = e'.face p.txn) (x : Order S) :
    (p.obey x e).1.anonymous = (p'.obey x e').1.anonymous :=
  congrArg Report.stand (report_congr hp he x)

theorem face_obey_congr (hp : p.anonymous = p'.anonymous)
    (he : e.face p.txn = e'.face p.txn) (x : Order S) :
    (p.obey x e).2.face p.txn = (p'.obey x e').2.face p.txn := by
  have hface := congrArg Report.face (report_congr hp he x)
  rwa [report, report, ← txn_of_anonymous hp] at hface

end Stand

/-- Several builders after a number of orders, with the report of each order. -/
structure Course (ι S : Type) where
  reports : List (ι × Report S)
  stands : ι → Stand S
  engine : Engine S

/-- Orders to several builders, given one after the other. -/
def course [DecidableEq ι] (stands : ι → Stand S) (xs : List (ι × Order S)) (e : Engine S) :
    Course ι S :=
  match xs with
  | [] => ⟨[], stands, e⟩
  | (i, x) :: xs =>
    let (p, e') := (stands i).obey x e
    let later := course (Function.update stands i p) xs e'
    { later with reports := (i, (stands i).report x e) :: later.reports }

/-- The orders to one of the builders, or the reports of it. -/
def ofOne [DecidableEq ι] {α : Type} (i : ι) (xs : List (ι × α)) : List α :=
  (xs.filter (·.1 = i)).map Prod.snd

section Course

variable [DecidableEq ι] {stands : ι → Stand S}

@[simp] theorem ofOne_cons_self {α : Type} (i : ι) (x : α) (xs : List (ι × α)) :
    ofOne i ((i, x) :: xs) = x :: ofOne i xs := by
  simp [ofOne]

theorem ofOne_cons_of_ne {α : Type} {i j : ι} (h : j ≠ i) (x : α) (xs : List (ι × α)) :
    ofOne i ((j, x) :: xs) = ofOne i xs := by
  simp [ofOne, h]

theorem txn_update_obey (i : ι) (x : Order S) (e : Engine S) (j : ι) :
    (Function.update stands i ((stands i).obey x e).1 j).txn = (stands j).txn := by
  by_cases h : j = i
  · rw [h, Function.update_self, Stand.txn_obey]
  · rw [Function.update_of_ne h]

/-- One of several builders, none of which has its transaction: it is led to where its
own orders lead it. -/
theorem course_of_one {i : ι} (hi : ∀ j, j ≠ i → (stands i).txn ≠ (stands j).txn)
    (xs : List (ι × Order S)) {p : Stand S} {e e' : Engine S}
    (hp : (stands i).anonymous = p.anonymous)
    (he : e.face (stands i).txn = e'.face (stands i).txn) :
    ofOne i (course stands xs e).reports = p.reports (ofOne i xs) e' ∧
      ((course stands xs e).stands i).anonymous = (p.obeyAll (ofOne i xs) e').1.anonymous ∧
      (course stands xs e).engine.face (stands i).txn =
        (p.obeyAll (ofOne i xs) e').2.face (stands i).txn := by
  induction xs generalizing stands p e e' with
  | nil => exact ⟨rfl, hp, he⟩
  | cons y xs ih =>
    obtain ⟨j, x⟩ := y
    let next := Function.update stands j ((stands j).obey x e).1
    have htxn (k : ι) : (next k).txn = (stands k).txn := txn_update_obey j x e k
    have hnext : ∀ k, k ≠ i → (next i).txn ≠ (next k).txn := by simpa only [htxn] using hi
    by_cases hj : j = i
    · -- an order to the builder itself
      subst hj
      have hp' : (next j).anonymous = (p.obey x e').1.anonymous := by
        rw [show next j = ((stands j).obey x e).1 from Function.update_self ..]
        exact Stand.anonymous_obey_congr hp he x
      have he' : ((stands j).obey x e).2.face (next j).txn =
          (p.obey x e').2.face (next j).txn := by
        rw [htxn]
        exact Stand.face_obey_congr hp he x
      obtain ⟨hreports, hstand, hface⟩ := ih hnext hp' he'
      rw [ofOne_cons_self, Stand.reports, Stand.obeyAll, ← htxn j]
      refine ⟨?_, hstand, hface⟩
      rw [course, ofOne_cons_self, Stand.report_congr hp he]
      exact congrArg _ hreports
    · -- an order to another builder, which has another transaction
      have hp' : (next i).anonymous = p.anonymous := by
        rw [show next i = stands i from Function.update_of_ne (Ne.symm hj) ..]
        exact hp
      have he' : ((stands j).obey x e).2.face (next i).txn = e'.face (next i).txn := by
        rw [htxn]
        exact (((stands j).confined_obey x e).face (hi j hj)).trans he
      obtain ⟨hreports, hstand, hface⟩ := ih hnext hp' he'
      rw [ofOne_cons_of_ne hj, ← htxn i]
      refine ⟨?_, hstand, hface⟩
      rw [course, ofOne_cons_of_ne hj]
      exact hreports

/-- The log gets the events of each order in turn. -/
theorem log_course (xs : List (ι × Order S)) (e : Engine S) :
    (course stands xs e).engine.log =
      e.log ++ (course stands xs e).reports.flatMap (·.2.events) := by
  induction xs generalizing stands e with
  | nil => simp [course]
  | cons y xs ih =>
    obtain ⟨j, x⟩ := y
    have hfirst : ((stands j).obey x e).2.log = e.log ++ ((stands j).report x e).events :=
      List.prefix_iff_eq_append.1 ((stands j).confined_obey x e).log |>.symm
    simp only [course, List.flatMap_cons]
    rw [ih, hfirst, List.append_assoc]

theorem fst_reports_course (xs : List (ι × Order S)) (e : Engine S) :
    (course stands xs e).reports.map Prod.fst = xs.map Prod.fst := by
  induction xs generalizing stands e with
  | nil => rfl
  | cons y xs ih => simp [course, ih]

theorem nextContext_course (xs : List (ι × Order S)) (e : Engine S) :
    (course stands xs e).engine.nextContext = e.nextContext := by
  induction xs generalizing stands e with
  | nil => rfl
  | cons y xs ih =>
    obtain ⟨j, x⟩ := y
    rw [course]
    exact (ih _).trans ((stands j).confined_obey x e).nextContext

/-- A transaction of none of the builders. -/
theorem face_course_of_other {t : TxnKey} (ht : ∀ i, t ≠ (stands i).txn)
    (xs : List (ι × Order S)) (e : Engine S) :
    (course stands xs e).engine.face t = e.face t := by
  induction xs generalizing stands e with
  | nil => rfl
  | cons y xs ih =>
    obtain ⟨j, x⟩ := y
    have hnext (i : ι) : t ≠ (Function.update stands j ((stands j).obey x e).1 i).txn := by
      rw [txn_update_obey]
      exact ht i
    rw [course]
    exact (ih hnext _).trans (((stands j).confined_obey x e).face (ht j))

end Course

/-- Builders do not interfere. Orders are given, in any order, to builders that there are
together in a stage that can come about. Every builder gives the reports that it gives
for its own orders alone, stands in the end where it stands then, and its transaction
looks as it looks then. The log has the events of the reports in the order in which they
were given; all that concerns other transactions is as it was. -/
theorem reports_of_interleaving [DecidableEq ι] {s : Stage S} (hs : s.Reachable)
    {builders : ι → Builder S} (hdistinct : Function.Injective builders)
    (hmem : ∀ i, builders i ∈ s.builders) (xs : List (ι × Order S)) :
    let c := course (fun i => .active (builders i)) xs s.engine
    (∀ i,
      let own := ofOne i xs
      let alone := (Stand.active (builders i)).obeyAll own s.engine
      ofOne i c.reports = (Stand.active (builders i)).reports own s.engine ∧
        (c.stands i).anonymous = alone.1.anonymous ∧
        c.engine.face (builders i).txn = alone.2.face (builders i).txn) ∧
    c.reports.map Prod.fst = xs.map Prod.fst ∧
    c.engine.log = s.engine.log ++ c.reports.flatMap (·.2.events) ∧
    c.engine.nextContext = s.engine.nextContext ∧
    ∀ t, (∀ i, t ≠ (builders i).txn) → c.engine.face t = s.engine.face t := by
  intro c
  refine ⟨?_, ?_, ?_, ?_, ?_⟩
  · intro i own alone
    have hother : ∀ j, j ≠ i → (builders i).txn ≠ (builders j).txn := by
      intro j hj htxn
      have hsame : builders i = builders j := hs.eq_of_txn_eq (hmem i) (hmem j) htxn
      exact hj (hdistinct hsame).symm
    exact course_of_one hother xs rfl rfl
  · exact fst_reports_course xs s.engine
  · exact log_course xs s.engine
  · exact nextContext_course xs s.engine
  · intro t ht
    exact face_course_of_other ht xs s.engine

/-- Two builders that have just been made, in one context. -/
def twoFresh : World Unit Unit :=
  Command.performAll (.ofPrograms (fun _ => .finish true) 1)
    [.openContext "c" none, .createBuilder "c" "b" none, .createBuilder "c" "d" none]
    { memory := () }

/-- One of them is finalized and retrieved while the other is refused a call and is asked
for more. -/
theorem twoFresh_reports_of_interleaving :
    let builders (second : Bool) : Builder Unit := ⟨⟨second.toNat⟩, none, .unbuilt, {}⟩
    let own : List (Order Unit) := [.call (.startBuildWith ()), .call .finalize, .retrieve]
    let others : List (Order Unit) := [.call (.append ()), .retrieve]
    let c := course (fun i => .active (builders i))
      [(false, .call (.startBuildWith ())), (true, .call (.append ())),
        (false, .call .finalize), (true, .retrieve), (false, .retrieve)] twoFresh.engine
    (twoFresh.stage []).Reachable ∧ Function.Injective builders ∧
      (∀ i, builders i ∈ (twoFresh.stage []).builders) ∧
      ofOne false c.reports = (Stand.active (builders false)).reports own twoFresh.engine ∧
      ofOne true c.reports = (Stand.active (builders true)).reports others twoFresh.engine ∧
      (c.stands false).anonymous = .retrieved ⟨0⟩ ∧
      (c.stands true).anonymous = .refused ⟨1⟩ (.misuse (.notStarted "append")) ∧
      (c.engine.face ⟨0⟩).owners = 1 ∧ (c.engine.face ⟨1⟩).owners = 0 := by
  intro builders own others c
  have hreach : (twoFresh.stage []).Reachable := Command.reachable_performAll _ _ _ _
  have hdistinct : Function.Injective builders := by
    intro i j hij
    cases i <;> cases j <;> cases hij <;> rfl
  have hmem : ∀ i, builders i ∈ (twoFresh.stage []).builders := by
    intro i
    cases i with
    | false => exact (Stage.mem_builders_iff _).2 (.inl ⟨"b", rfl⟩)
    | true => exact (Stage.mem_builders_iff _).2 (.inl ⟨"d", rfl⟩)
  obtain ⟨hown, -⟩ := reports_of_interleaving hreach hdistinct hmem
    [(false, .call (.startBuildWith ())), (true, .call (.append ())),
      (false, .call .finalize), (true, .retrieve), (false, .retrieve)]
  obtain ⟨hreports, hstand, hface⟩ := hown false
  obtain ⟨hreports', hstand', hface'⟩ := hown true
  exact ⟨hreach, hdistinct, hmem, hreports, hreports', hstand, hstand',
    congrArg Face.owners hface, congrArg Face.owners hface'⟩

end TxnAssembly
