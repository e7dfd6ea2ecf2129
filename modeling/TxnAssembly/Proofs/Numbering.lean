import Mathlib.Data.List.Nodup
import TxnAssembly.Proofs.Origin

/-!
# Numbers of contexts and transactions

Contexts are numbered by one counter, transactions by a counter of their context. Three
things take a number from a context: asking for one, making a transaction and making a
builder. A register lists the numbers that have been taken, in order, whatever else has
happened in between. For each context they are the numbers from zero on; so the context's
number and the transaction's together tell which transaction it is, dead or alive.
-/
namespace TxnAssembly

variable {S : Type}

/-- A number taken from a context, and the transaction that it was taken for, if any. -/
structure Issue where
  context : ContextKey
  id : TxnId
  txn? : Option TxnKey
deriving DecidableEq, Repr

/-- From one stage to the other a number is taken from a context. A transaction's number is
read off the transaction. -/
inductive Issues : Stage S → Stage S → Issue → Prop where
  | takeTxnId {H e s} {c : ContextKey} (h : Stage.HasContext ⟨H, e, s⟩ c) :
    Issues ⟨H, e, s⟩ ⟨H, (e.takeTxnId c).2, s⟩ ⟨c, (e.takeTxnId c).1, none⟩
  | openTxn {H e s} {c : ContextKey} (h : Stage.HasContext ⟨H, e, s⟩ c) :
    Issues ⟨H, e, s⟩ ⟨.handle (e.openTxn c).1 :: H, (e.openTxn c).2, s⟩
      ⟨c, (e.openTxn c).2.txnId (e.openTxn c).1, some (e.openTxn c).1⟩
  | openBuilder {H e s} {c : ContextKey} (config : Config)
      (h : Stage.HasContext ⟨H, e, s⟩ c) :
    Issues ⟨H, e, s⟩ ⟨.builder (Builder.create config c e).1 :: H, (Builder.create config c e).2, s⟩
      ⟨c, (Builder.create config c e).2.txnId (Builder.create config c e).1.txn,
        some (Builder.create config c e).1.txn⟩

/-- The numbers taken on the way to a stage. What else has happened has advanced the counter
of no context. -/
inductive Register : List Issue → Stage S → Prop where
  | initial : Register [] .initial
  | issue {issues : List Issue} {s s' : Stage S} {i : Issue} (h : Register issues s)
      (hi : Issues s s' i) : Register (issues ++ [i]) s'
  | aside {issues : List Issue} {s s' : Stage S} (h : Register issues s) (hmove : Move s s')
      (hkept : ∀ c : ContextKey, c.index < s.engine.contexts.size →
        (s'.engine.context c).nextTxn = (s.engine.context c).nextTxn) :
    Register issues s'

theorem Issues.move {s s' : Stage S} {i : Issue} (h : Issues s s' i) : Move s s' := by
  cases h with
  | takeTxnId h => exact .takeTxnId h
  | openTxn h => exact .openTxn h
  | openBuilder config h => exact .openBuilder config h

theorem Register.reachable {issues : List Issue} {s : Stage S} (h : Register issues s) :
    s.Reachable := by
  induction h with
  | initial => exact .refl
  | issue h hi ih => exact ih.move hi.move
  | aside h hmove hkept ih => exact ih.move hmove

namespace Engine

variable (e : Engine S)

/-- Number and context of each transaction. -/
def names : List (TxnId × ContextKey) := e.txns.toList.map fun x => (x.id, x.context)

theorem length_names : e.names.length = e.txns.size := by simp [names]

theorem txnId_eq (t : TxnKey) : e.txnId t = (e.names[t.index]?.map Prod.fst).getD default := by
  simp [txnId, txn?, names, Function.comp_def]

theorem contextOf_eq (t : TxnKey) :
    e.contextOf t = (e.names[t.index]?.map Prod.snd).getD ⟨0⟩ := by
  simp [contextOf, txn?, names, Function.comp_def]

theorem names_install (t : TxnKey) (actions : List (Action S)) :
    (e.install t actions).names = e.names := by
  apply List.ext_getElem?
  intro i
  simp only [names, install, emit, Array.toList_modify, List.getElem?_map, List.getElem?_modify]
  split <;> cases e.txns.toList[i]? <;> rfl

theorem txnId_install (t u : TxnKey) (actions : List (Action S)) :
    (e.install t actions).txnId u = e.txnId u := by
  rw [txnId_eq, txnId_eq, names_install]

theorem contextOf_install (t u : TxnKey) (actions : List (Action S)) :
    (e.install t actions).contextOf u = e.contextOf u := by
  rw [contextOf_eq, contextOf_eq, names_install]

theorem names_openTxn (c : ContextKey) :
    (e.openTxn c).2.names = e.names ++ [((e.takeTxnId c).1, c)] := by
  simp [names, openTxn, takeTxnId, hold]

theorem txnId_openTxn (c : ContextKey) :
    (e.openTxn c).2.txnId (e.openTxn c).1 = (e.takeTxnId c).1 := by
  rw [txnId_eq, names_openTxn, index_openTxn, ← length_names]
  simp

theorem context_takeTxnId (c d : ContextKey) :
    (e.takeTxnId c).2.context d =
      if d = c ∧ d.index < e.contexts.size then
        { e.context d with nextTxn := (e.context d).nextTxn + 1 }
      else e.context d := by
  obtain ⟨i⟩ := c
  obtain ⟨j⟩ := d
  rw [context, context, takeTxnId, Array.getElem?_modify]
  by_cases h : i = j
  · subst h
    by_cases hi : i < e.contexts.size <;> simp [hi]
  · have h' : j ≠ i := fun heq => h heq.symm
    simp [h, h']

theorem context_openContext {c : ContextKey} (hc : c.index < e.contexts.size)
    (name : Option String) : (e.openContext name).2.context c = e.context c := by
  simp [context, openContext, Array.getElem?_push_lt, hc]

theorem context_openContext_self (name : Option String) :
    (e.openContext name).2.context (e.openContext name).1 = ⟨⟨e.nextContext⟩, name, 0⟩ := by
  simp [context, openContext]

end Engine

/-- What changes when a number is taken. -/
structure Issued (s s' : Stage S) (i : Issue) : Prop where
  context : s.HasContext i.context
  id : i.id = (s.engine.takeTxnId i.context).1
  contexts : s'.engine.contexts = (s.engine.takeTxnId i.context).2.contexts
  nextContext : s'.engine.nextContext = s.engine.nextContext
  slots : s'.shelf.contexts = s.shelf.contexts
  txn : i.txn? = none ∨ i.txn? = some ⟨s.engine.names.length⟩
  names : s'.engine.names = s.engine.names ++ (i.txn?.map fun _ => (i.id, i.context)).toList

theorem Issues.issued {s s' : Stage S} {i : Issue} (h : Issues s s' i) : Issued s s' i := by
  cases h with
  | takeTxnId h => exact ⟨h, rfl, rfl, rfl, rfl, .inl rfl, (List.append_nil _).symm⟩
  | @openTxn H e s c h =>
    have hid := e.txnId_openTxn c
    refine ⟨h, hid, rfl, rfl, rfl, .inr ?_, ?_⟩
    · rw [Engine.length_names]
      rfl
    · rw [Engine.names_openTxn, hid]
      rfl
  | @openBuilder H e s c config h =>
    have hid : (Builder.create config c e).2.txnId (Builder.create config c e).1.txn =
        (e.takeTxnId c).1 := e.txnId_openTxn c
    refine ⟨h, hid, rfl, rfl, rfl, .inr ?_, ?_⟩
    · rw [Engine.length_names]
      rfl
    · rw [hid]
      exact e.names_openTxn c

/-- What a move can do to contexts and to the names of transactions when it takes no number. -/
inductive Unissued (s s' : Stage S) : Prop where
  | keep (contexts : s'.engine.contexts = s.engine.contexts)
      (nextContext : s'.engine.nextContext = s.engine.nextContext)
      (names : s'.engine.names = s.engine.names)
      (slots : ∀ c ∈ s'.shelf.contexts.values, c ∈ s.shelf.contexts.values ∨
        ∃ t ∈ s.owners, c = s.engine.contextOf t)
  | openContext (name : Option String) (engine : s'.engine = (s.engine.openContext name).2)
      (slots : ∀ c ∈ s'.shelf.contexts.values, c ∈ s.shelf.contexts.values ∨
        c = (s.engine.openContext name).1)

theorem Unissued.of_move {s s' : Stage S} (h : Move s s') :
    Unissued s s' ∨ ∃ i, Issues s s' i := by
  cases h with
  | emit | start | collect | retrieve | takeBuilder | putBuilder | takeHandle | putHandle
  | share | play | upgrade | letGo | keepPlan | dropPlan | makeAction | keepAction
  | dropAction => exact .inl (.keep rfl rfl rfl fun c hc => .inl hc)
  | install t h =>
    exact .inl (.keep rfl rfl (Engine.names_install ..) fun c hc => .inl hc)
  | finalize b h =>
    exact .inl (.keep rfl rfl (Engine.names_install ..) fun c hc => .inl hc)
  | @openContext H e s into name =>
    refine .inl (.openContext name rfl fun c hc => ?_)
    exact (Slots.mem_values_put hc).symm
  | @keepContext H e s into t ht =>
    refine .inl (.keep rfl rfl rfl fun c hc => ?_)
    exact (Slots.mem_values_put hc).symm.imp_right fun heq => ⟨t, ht, heq⟩
  | dropContext name =>
    exact .inl (.keep rfl rfl rfl fun c hc => .inl (Slots.mem_values_of_mem_erase hc))
  | takeTxnId h => exact .inr ⟨_, .takeTxnId h⟩
  | openTxn h => exact .inr ⟨_, .openTxn h⟩
  | openBuilder config h => exact .inr ⟨_, .openBuilder config h⟩

/-- The numbers that a context has handed out, in order. -/
def issuedTo (c : ContextKey) (issues : List Issue) : List TxnId :=
  (issues.filter (·.context = c)).map Issue.id

theorem issuedTo_concat (c : ContextKey) (issues : List Issue) (i : Issue) :
    issuedTo c (issues ++ [i]) = issuedTo c issues ++ if i.context = c then [i.id] else [] := by
  by_cases h : i.context = c <;> simp [issuedTo, h]

/-- A register that fits the stage: contexts are numbered in order, and so are the issues of
each context, which its counter counts; each transaction has an issue with its number and its
context. -/
structure Numbered (issues : List Issue) (s : Stage S) : Prop where
  contextIds : ∀ c : ContextKey, c.index < s.engine.contexts.size →
    (s.engine.context c).id = ⟨.ofNat c.index⟩
  nextContext : s.engine.nextContext = .ofNat s.engine.contexts.size
  slots : ∀ c ∈ s.shelf.contexts.values, c.index < s.engine.contexts.size
  ofTxns : ∀ x ∈ s.engine.names, x.2.index < s.engine.contexts.size
  ofIssues : ∀ i ∈ issues, i.context.index < s.engine.contexts.size
  counters : ∀ c : ContextKey, c.index < s.engine.contexts.size →
    (s.engine.context c).nextTxn = .ofNat (issuedTo c issues).length
  ids : ∀ c, issuedTo c issues =
    (List.range (issuedTo c issues).length).map fun n => ⟨.ofNat n⟩
  txns : issues.filterMap Issue.txn? = (List.range s.engine.names.length).map TxnKey.mk
  named : ∀ i ∈ issues, ∀ t, i.txn? = some t →
    s.engine.names[t.index]? = some (i.id, i.context)

namespace Numbered

variable {issues : List Issue} {s s' : Stage S}

theorem initial : Numbered [] (.initial : Stage S) where
  contextIds := by simp [Stage.initial]
  nextContext := rfl
  slots := by simp [Stage.initial]
  ofTxns := by simp [Stage.initial, Engine.names]
  ofIssues := by simp
  counters := by simp [Stage.initial]
  ids c := rfl
  txns := rfl
  named := by simp

theorem lt_of_hasContext (h : Numbered issues s) {c : ContextKey} (hc : s.HasContext c) :
    c.index < s.engine.contexts.size := by
  obtain hslot | hmade := hc
  · exact h.slots c hslot
  · exact hmade

/-- Taking a number is the next step of a counter. -/
theorem issue (h : Numbered issues s) {i : Issue} (hi : Issued s s' i) :
    Numbered (issues ++ [i]) s' := by
  have hrange : i.context.index < s.engine.contexts.size := h.lt_of_hasContext hi.context
  have hcontext : ∀ c, s'.engine.context c = (s.engine.takeTxnId i.context).2.context c := by
    intro c
    rw [Engine.context, Engine.context, hi.contexts]
  have hsize : s'.engine.contexts.size = s.engine.contexts.size := by
    rw [hi.contexts]
    exact Array.size_modify ..
  have hid : i.id = ⟨.ofNat (issuedTo i.context issues).length⟩ := by
    rw [hi.id, ← h.counters i.context hrange]
    rfl
  constructor
  case contextIds =>
    intro c hc
    rw [hsize] at hc
    rw [hcontext, Engine.context_takeTxnId]
    split <;> exact h.contextIds c hc
  case nextContext => rw [hi.nextContext, hsize, h.nextContext]
  case slots => rw [hi.slots, hsize]; exact h.slots
  case ofTxns =>
    rw [hi.names, hsize]
    intro x hx
    obtain hx | hx := List.mem_append.1 hx
    · exact h.ofTxns x hx
    · obtain ⟨t, -, rfl⟩ := Option.map_eq_some_iff.1 (Option.mem_toList.1 hx)
      exact hrange
  case ofIssues =>
    rw [hsize]
    intro j hj
    obtain hj | hj := List.mem_append.1 hj
    · exact h.ofIssues j hj
    · rw [List.mem_singleton.1 hj]
      exact hrange
  case counters =>
    intro c hc
    rw [hsize] at hc
    rw [hcontext, Engine.context_takeTxnId, issuedTo_concat]
    by_cases heq : c = i.context
    · subst heq
      rw [if_pos ⟨rfl, hc⟩, if_pos rfl, List.length_append, UInt64.ofNat_add, h.counters _ hc]
      rfl
    · rw [if_neg fun hand => heq hand.1, if_neg (Ne.symm heq), List.append_nil]
      exact h.counters c hc
  case ids =>
    intro c
    rw [issuedTo_concat]
    split
    · next heq =>
      rw [List.length_append, List.length_singleton, List.range_succ, List.map_append,
        ← h.ids c, ← heq, hid]
      rfl
    · rw [List.append_nil]
      exact h.ids c
  case txns =>
    rw [List.filterMap_append, hi.names, List.length_append]
    obtain hnone | hsome := hi.txn
    · simp [hnone, h.txns]
    · simp [hsome, h.txns, List.range_succ]
  case named =>
    intro j hj t ht
    rw [hi.names]
    obtain hj | hj := List.mem_append.1 hj
    · have hname := h.named j hj t ht
      rw [List.getElem?_append_left (List.getElem?_eq_some_iff.1 hname).1]
      exact hname
    · obtain rfl := List.mem_singleton.1 hj
      obtain hnone | hsome := hi.txn
      · rw [hnone] at ht
        cases ht
      · rw [hsome] at ht
        cases ht
        simp [hsome]

/-- A transaction is of one of the contexts. -/
theorem contextOf_lt (h : Numbered issues s) {t : TxnKey} (ht : s.Made t) :
    (s.engine.contextOf t).index < s.engine.contexts.size := by
  rw [Stage.Made, ← Engine.length_names] at ht
  rw [Engine.contextOf_eq, List.getElem?_eq_getElem ht]
  exact h.ofTxns _ (List.getElem_mem ht)

/-- What takes no number and makes no context leaves the numbers as they are. -/
theorem keep (h : Numbered issues s) (hs : s.Reachable)
    (contexts : s'.engine.contexts = s.engine.contexts)
    (nextContext : s'.engine.nextContext = s.engine.nextContext)
    (names : s'.engine.names = s.engine.names)
    (slots : ∀ c ∈ s'.shelf.contexts.values, c ∈ s.shelf.contexts.values ∨
      ∃ t ∈ s.owners, c = s.engine.contextOf t) :
    Numbered issues s' := by
  have hcontext : ∀ c, s'.engine.context c = s.engine.context c := by
    intro c
    rw [Engine.context, Engine.context, contexts]
  constructor
  case contextIds => simpa only [contexts, hcontext] using h.contextIds
  case nextContext => rw [nextContext, contexts, h.nextContext]
  case slots =>
    intro c hc
    rw [contexts]
    obtain hold | ⟨t, ht, rfl⟩ := slots c hc
    · exact h.slots c hold
    · exact h.contextOf_lt (hs.made_of_mem_owners ht)
  case ofTxns => simpa only [contexts, names] using h.ofTxns
  case ofIssues => simpa only [contexts] using h.ofIssues
  case counters => simpa only [contexts, hcontext] using h.counters
  case ids => exact h.ids
  case txns => rw [names, h.txns]
  case named => simpa only [names] using h.named

/-- A context that does not exist yet has handed out nothing. -/
theorem issuedTo_new (h : Numbered issues s) :
    issuedTo ⟨s.engine.contexts.size⟩ issues = [] := by
  rw [issuedTo, List.map_eq_nil_iff, List.filter_eq_nil_iff]
  intro i hi
  rw [decide_eq_true_eq]
  intro heq
  have hlt := h.ofIssues i hi
  rw [heq] at hlt
  exact Nat.lt_irrefl _ hlt

/-- A new context has the next number. -/
theorem openContext (h : Numbered issues s) (name : Option String)
    (engine : s'.engine = (s.engine.openContext name).2)
    (slots : ∀ c ∈ s'.shelf.contexts.values, c ∈ s.shelf.contexts.values ∨
      c = (s.engine.openContext name).1) :
    Numbered issues s' := by
  have hsize : s'.engine.contexts.size = s.engine.contexts.size + 1 := by
    rw [engine]
    exact Array.size_push ..
  have hnames : s'.engine.names = s.engine.names := by rw [engine]; rfl
  have hnew : s'.engine.context ⟨s.engine.contexts.size⟩ = ⟨⟨s.engine.nextContext⟩, name, 0⟩ := by
    rw [engine]
    exact s.engine.context_openContext_self name
  have hcases : ∀ c : ContextKey, c.index < s'.engine.contexts.size →
      (c.index < s.engine.contexts.size ∧ s'.engine.context c = s.engine.context c) ∨
        c = ⟨s.engine.contexts.size⟩ := by
    intro c hc
    rw [hsize] at hc
    obtain hlt | heq := Nat.lt_succ_iff_lt_or_eq.1 hc
    · exact .inl ⟨hlt, by rw [engine, Engine.context_openContext _ hlt]⟩
    · exact .inr (congrArg ContextKey.mk heq)
  constructor
  case contextIds =>
    intro c hc
    obtain ⟨hlt, heq⟩ | rfl := hcases c hc
    · rw [heq, h.contextIds c hlt]
    · rw [hnew, h.nextContext]
  case nextContext =>
    rw [hsize, UInt64.ofNat_add, ← h.nextContext, engine]
    rfl
  case slots =>
    intro c hc
    rw [hsize]
    obtain hold | rfl := slots c hc
    · exact Nat.lt_succ_of_lt (h.slots c hold)
    · exact Nat.lt_succ_self _
  case ofTxns =>
    intro x hx
    rw [hnames] at hx
    rw [hsize]
    exact Nat.lt_succ_of_lt (h.ofTxns x hx)
  case ofIssues =>
    intro i hi
    rw [hsize]
    exact Nat.lt_succ_of_lt (h.ofIssues i hi)
  case counters =>
    intro c hc
    obtain ⟨hlt, heq⟩ | rfl := hcases c hc
    · rw [heq, h.counters c hlt]
    · rw [hnew, h.issuedTo_new]
      rfl
  case ids => exact h.ids
  case txns => rw [hnames, h.txns]
  case named => rw [hnames]; exact h.named

theorem unissued (h : Numbered issues s) (hs : s.Reachable) (hu : Unissued s s') :
    Numbered issues s' := by
  cases hu with
  | keep contexts nextContext names slots => exact h.keep hs contexts nextContext names slots
  | openContext name engine slots => exact h.openContext name engine slots

end Numbered

/-- Whatever happens, a register can be continued. -/
theorem Register.exists_append {issues : List Issue} {s s' : Stage S} (h : Register issues s)
    (hmoves : Moves s s') : ∃ later, Register (issues ++ later) s' := by
  induction hmoves with
  | refl => exact ⟨[], by rwa [List.append_nil]⟩
  | tail before step ih =>
    obtain ⟨later, hlater⟩ := ih
    obtain hu | ⟨i, hi⟩ := Unissued.of_move step
    · refine ⟨later, .aside hlater step fun c hc => ?_⟩
      cases hu with
      | keep contexts => rw [Engine.context, Engine.context, contexts]
      | openContext name engine => rw [engine, Engine.context_openContext _ hc]
    · refine ⟨later ++ [i], ?_⟩
      rw [← List.append_assoc]
      exact .issue hlater hi

theorem Register.numbered {issues : List Issue} {s : Stage S} (h : Register issues s) :
    Numbered issues s := by
  induction h with
  | initial => exact .initial
  | issue h hi ih => exact ih.issue hi.issued
  | @aside issues s s' h hmove hkept ih =>
    obtain hu | ⟨i, hi⟩ := Unissued.of_move hmove
    · exact ih.unissued h.reachable hu
    · -- A number that is taken advances a counter, and none has been advanced.
      have hrange := ih.lt_of_hasContext hi.issued.context
      have hsame := hkept i.context hrange
      have hmoved : s'.engine.context i.context =
          (s.engine.takeTxnId i.context).2.context i.context := by
        rw [Engine.context, Engine.context, hi.issued.contexts]
      rw [hmoved, Engine.context_takeTxnId, if_pos ⟨rfl, hrange⟩] at hsame
      simp at hsame

/-- Names of transactions and numbers of contexts that stay what they are. -/
structure Lasting (s s' : Stage S) : Prop where
  names : s.engine.names <+: s'.engine.names
  contexts : ∀ c : ContextKey, c.index < s.engine.contexts.size →
    c.index < s'.engine.contexts.size ∧ (s'.engine.context c).id = (s.engine.context c).id

theorem Lasting.of_move {s s' : Stage S} (h : Move s s') : Lasting s s' := by
  obtain hu | ⟨i, hi⟩ := Unissued.of_move h
  · cases hu with
    | keep contexts nextContext names slots =>
      refine ⟨names ▸ List.prefix_rfl, fun c hc => ?_⟩
      rw [Engine.context, Engine.context, contexts]
      exact ⟨hc, rfl⟩
    | openContext name engine slots =>
      have hnames : s'.engine.names = s.engine.names := by rw [engine]; rfl
      refine ⟨hnames ▸ List.prefix_rfl, fun c hc => ?_⟩
      rw [engine, Engine.context_openContext _ hc]
      exact ⟨Nat.lt_of_lt_of_eq (Nat.lt_succ_of_lt hc) (Array.size_push ..).symm, rfl⟩
  · have hissued := hi.issued
    refine ⟨hissued.names ▸ List.prefix_append _ _, fun c hc => ⟨?_, ?_⟩⟩
    · rw [hissued.contexts]
      exact Nat.lt_of_lt_of_eq hc (Array.size_modify ..).symm
    · have hcontext : s'.engine.context c = (s.engine.takeTxnId i.context).2.context c := by
        rw [Engine.context, Engine.context, hissued.contexts]
      rw [hcontext, Engine.context_takeTxnId]
      split <;> rfl

theorem Lasting.of_moves {s s' : Stage S} (h : Moves s s') : Lasting s s' := by
  induction h with
  | refl => exact ⟨List.prefix_rfl, fun c hc => ⟨hc, rfl⟩⟩
  | tail before step ih =>
    have hstep := Lasting.of_move step
    refine ⟨ih.names.trans hstep.names, fun c hc => ?_⟩
    obtain ⟨hc', heq⟩ := ih.contexts c hc
    obtain ⟨hc'', heq'⟩ := hstep.contexts c hc'
    exact ⟨hc'', heq'.trans heq⟩

/-- A transaction keeps its number and its context. -/
theorem Lasting.name {s s' : Stage S} (h : Lasting s s') {t : TxnKey} (ht : s.Made t) :
    s'.engine.txnId t = s.engine.txnId t ∧ s'.engine.contextOf t = s.engine.contextOf t := by
  rw [Stage.Made, ← Engine.length_names] at ht
  obtain ⟨later, hlater⟩ := h.names
  rw [Engine.txnId_eq, Engine.txnId_eq, Engine.contextOf_eq, Engine.contextOf_eq, ← hlater,
    List.getElem?_append_left ht]
  exact ⟨rfl, rfl⟩

namespace Numbered

variable {issues : List Issue} {s : Stage S} (h : Numbered issues s)
include h

theorem toNat_context (hcontexts : s.engine.contexts.size ≤ UInt64.size) {c : ContextKey}
    (hc : c.index < s.engine.contexts.size) :
    (s.engine.context c).id.raw.toNat = c.index := by
  rw [h.contextIds c hc]
  exact UInt64.toNat_ofNat_of_lt' (Nat.lt_of_lt_of_le hc hcontexts)

theorem toNat_issuedTo {c : ContextKey} (hissues : (issuedTo c issues).length ≤ UInt64.size) :
    (issuedTo c issues).map (·.raw.toNat) = List.range (issuedTo c issues).length := by
  have hids := congrArg (List.map fun i : TxnId => i.raw.toNat) (h.ids c)
  rw [List.map_map] at hids
  refine hids.trans ((List.map_congr_left fun n hn => ?_).trans (List.map_id _))
  exact UInt64.toNat_ofNat_of_lt' (Nat.lt_of_lt_of_le (List.mem_range.1 hn) hissues)

/-- The issue of a transaction. -/
theorem exists_issue {t : TxnKey} (ht : s.Made t) :
    ∃ i ∈ issues, i.txn? = some t ∧ i.id = s.engine.txnId t ∧ i.context = s.engine.contextOf t := by
  rw [Stage.Made, ← Engine.length_names] at ht
  have hmem : t ∈ issues.filterMap Issue.txn? := by
    rw [h.txns]
    exact List.mem_map.2 ⟨t.index, List.mem_range.2 ht, rfl⟩
  obtain ⟨i, hi, hit⟩ := List.mem_filterMap.1 hmem
  refine ⟨i, hi, hit, ?_⟩
  rw [Engine.txnId_eq, Engine.contextOf_eq, h.named i hi t hit]
  exact ⟨rfl, rfl⟩

/-- No two contexts have one number. -/
theorem context_inj (hcontexts : s.engine.contexts.size ≤ UInt64.size) {c d : ContextKey}
    (hc : c.index < s.engine.contexts.size) (hd : d.index < s.engine.contexts.size)
    (heq : (s.engine.context c).id = (s.engine.context d).id) : c = d := by
  have hc' := h.toNat_context hcontexts hc
  have hd' := h.toNat_context hcontexts hd
  rw [heq, hd'] at hc'
  exact congrArg ContextKey.mk hc'.symm

/-- No two transactions of one context have one number. -/
theorem txn_inj {c : ContextKey} (hissues : (issuedTo c issues).length ≤ UInt64.size) {t u : TxnKey}
    (ht : s.Made t) (hu : s.Made u) (htc : s.engine.contextOf t = c)
    (huc : s.engine.contextOf u = c) (hid : s.engine.txnId t = s.engine.txnId u) : t = u := by
  obtain ⟨i, hi, hit, hiid, hic⟩ := h.exists_issue ht
  obtain ⟨j, hj, hju, hjid, hjc⟩ := h.exists_issue hu
  -- Both issues are of one context and have one number, so they are one.
  have hnodup : ((issues.filter (·.context = c)).map fun i => i.id.raw.toNat).Nodup := by
    have hnumbers := h.toNat_issuedTo hissues
    rw [issuedTo, List.map_map] at hnumbers
    exact hnumbers ▸ List.nodup_range
  have hi' : i ∈ issues.filter (·.context = c) :=
    List.mem_filter.2 ⟨hi, decide_eq_true (hic.trans htc)⟩
  have hj' : j ∈ issues.filter (·.context = c) :=
    List.mem_filter.2 ⟨hj, decide_eq_true (hjc.trans huc)⟩
  have hij : i = j := by
    refine List.inj_on_of_nodup_map hnodup hi' hj' ?_
    rw [hiid, hjid, hid]
  rw [hij, hju] at hit
  exact (Option.some.inj hit).symm

end Numbered

/-- Of any stage with a register of the numbers taken on the way, as every stage that can come
about has one, and with counters that have not run over. Contexts are numbered in the order
of their making, so no two have one number. What each context has handed out are the numbers
from zero on, in order, whatever has become of the transactions that they were for and
whatever other contexts have handed out. Every transaction ever made has its issue; two with
the same number in contexts with the same number are one. Whatever happens later, the register
is continued and the transaction keeps its number and its context. -/
theorem numbers_of_register {issues : List Issue} {s : Stage S} (h : Register issues s)
    (hcontexts : s.engine.contexts.size ≤ UInt64.size)
    (hissues : ∀ c, (issuedTo c issues).length ≤ UInt64.size) :
    let shown (s : Stage S) (t : TxnKey) : ContextId × TxnId :=
      ((s.engine.context (s.engine.contextOf t)).id, s.engine.txnId t)
    ((∀ c : ContextKey, c.index < s.engine.contexts.size →
        (s.engine.context c).id.raw.toNat = c.index) ∧
      ∀ c d : ContextKey, c.index < s.engine.contexts.size → d.index < s.engine.contexts.size →
        (s.engine.context c).id = (s.engine.context d).id → c = d) ∧
    (∀ c, (issuedTo c issues).map (·.raw.toNat) = List.range (issuedTo c issues).length) ∧
    issues.filterMap Issue.txn? = (List.range s.engine.txns.size).map TxnKey.mk ∧
    (∀ t, s.Made t → ∃ i ∈ issues, i.txn? = some t ∧ i.id = s.engine.txnId t ∧
      i.context = s.engine.contextOf t) ∧
    (∀ t u, s.Made t → s.Made u → shown s t = shown s u → t = u) ∧
    ∀ s', Moves s s' → (∃ later, Register (issues ++ later) s') ∧
      ∀ t, s.Made t → shown s' t = shown s t ∧ s'.engine.contextOf t = s.engine.contextOf t := by
  intro shown
  have hnumbered := h.numbered
  refine ⟨⟨fun c hc => hnumbered.toNat_context hcontexts hc,
      fun c d hc hd => hnumbered.context_inj hcontexts hc hd⟩,
    fun c => hnumbered.toNat_issuedTo (hissues c), ?_, fun t ht => hnumbered.exists_issue ht,
    ?_, ?_⟩
  · rw [hnumbered.txns, Engine.length_names]
  · intro t u ht hu heq
    have hcontext : (s.engine.context (s.engine.contextOf t)).id =
        (s.engine.context (s.engine.contextOf u)).id := congrArg Prod.fst heq
    have hid : s.engine.txnId t = s.engine.txnId u := congrArg Prod.snd heq
    have hsame := hnumbered.context_inj hcontexts (hnumbered.contextOf_lt ht)
      (hnumbered.contextOf_lt hu) hcontext
    exact hnumbered.txn_inj (hissues _) ht hu rfl hsame.symm hid
  · intro s' hmoves
    have hlasting := Lasting.of_moves hmoves
    refine ⟨h.exists_append hmoves, fun t ht => ?_⟩
    obtain ⟨hid, hcontext⟩ := hlasting.name ht
    refine ⟨?_, hcontext⟩
    simp only [shown, hid, hcontext, (hlasting.contexts _ (hnumbered.contextOf_lt ht)).2]

/-- Two contexts, three transactions and a number that nobody uses; the builder of the second
context is dropped before the last transaction is made. -/
theorem twoContexts_numbers_of_register :
    ∃ (issues : List Issue) (s : Stage Unit), Register issues s ∧
      (issuedTo ⟨0⟩ issues).map (·.raw.toNat) = List.range 3 ∧
      (issuedTo ⟨1⟩ issues).map (·.raw.toNat) = List.range 1 ∧
      issues.filterMap Issue.txn? = (List.range 3).map TxnKey.mk ∧
      s.engine.txnId ⟨0⟩ = s.engine.txnId ⟨1⟩ ∧
      (s.engine.context (s.engine.contextOf ⟨0⟩)).id ≠
        (s.engine.context (s.engine.contextOf ⟨1⟩)).id ∧
      s.engine.isAlive ⟨1⟩ = false := by
  have h₁ : Register [] (_ : Stage Unit) :=
    .aside .initial (.openContext "c" none) fun c hc => absurd hc (Nat.not_lt_zero _)
  have h₂ := h₁.aside (.openContext "d" (some "second")) fun c hc => by
    rw [Engine.context_openContext _ hc]
  have h₃ := h₂.issue (.openTxn (c := ⟨0⟩) (.inr (by decide)))
  have h₄ := h₃.issue (.takeTxnId (c := ⟨0⟩) (.inr (by decide)))
  have h₅ := h₄.issue (.openBuilder (c := ⟨1⟩) {} (.inr (by decide)))
  have h₆ := h₅.aside (.letGo _) fun c hc => rfl
  have h₇ := h₆.issue (.openTxn (c := ⟨0⟩) (.inr (by decide)))
  obtain ⟨⟨-, hdistinct⟩, hissued, htxns, -, -, -⟩ :=
    numbers_of_register h₇ (by decide) fun c => by
      rw [issuedTo, List.length_map]
      exact Nat.le_trans (List.length_filter_le _ _) (by decide)
  refine ⟨_, _, h₇, hissued ⟨0⟩, hissued ⟨1⟩, htxns, rfl, fun heq => ?_, rfl⟩
  have hsame := hdistinct ⟨0⟩ ⟨1⟩ (by decide) (by decide) heq
  cases hsame

end TxnAssembly
