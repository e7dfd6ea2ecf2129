import TxnAssembly.Proofs.Ledger
import TxnAssembly.Proofs.Passage

/-!
# What steps cannot see

Neither the log nor how often a transaction is owned can be seen by a step or a
command: the one question that the ledger answers is whether a transaction is alive.
So in two worlds that differ in their logs and in the numbers of owners alone, as long
as the same transactions are owned, everything runs alike.
-/
namespace TxnAssembly

variable {S σ α β : Type}

namespace Engine

/-- The engine without its ledger and its log. -/
def plain (e : Engine S) : Engine S := { e with holds := [], log := [] }

variable {e e' : Engine S}

/-- Two engines that answer all questions alike. -/
structure Alike (e e' : Engine S) : Prop where
  plain : e.plain = e'.plain
  isAlive : ∀ t, e.isAlive t = e'.isAlive t

theorem Alike.isBound (h : e.Alike e') (a : Action S) : e.isBound a = e'.isBound a := by
  rw [Engine.isBound, Engine.isBound]
  cases a.anchor with
  | none => rfl
  | some t => exact h.isAlive t

theorem Alike.plan? (h : e.Alike e') (t : TxnKey) : e.plan? t = e'.plan? t := by
  show e.plain.plan? t = e'.plain.plan? t
  rw [h.plain]

theorem Alike.viewPlan (h : e.Alike e') (plan : List (Action S)) :
    e.viewPlan plan = e'.viewPlan plan := by
  have hbound : e.isBound = e'.isBound := funext h.isBound
  rw [Engine.viewPlan, Engine.viewPlan, hbound]

theorem Alike.viewTxn (h : e.Alike e') (t : TxnKey) : e.viewTxn t = e'.viewTxn t := by
  have hid : e.txnId t = e'.txnId t := by
    show e.plain.txnId t = e'.plain.txnId t
    rw [h.plain]
  have hcontext : e.context (e.contextOf t) = e'.context (e'.contextOf t) := by
    show e.plain.context (e.plain.contextOf t) = e'.plain.context (e'.plain.contextOf t)
    rw [h.plain]
  have hview : e.viewPlan = e'.viewPlan := funext h.viewPlan
  rw [Engine.viewTxn, Engine.viewTxn, hid, hcontext, hview, h.plan?]

theorem Alike.viewBuilder (h : e.Alike e') (b : Builder S) :
    e.viewBuilder b = e'.viewBuilder b := by
  rw [Engine.viewBuilder, Engine.viewBuilder, h.plan?]

theorem Alike.actionTree (h : e.Alike e') (a : Action S) : e.actionTree a = e'.actionTree a := by
  rw [Engine.actionTree, Engine.actionTree, h.isBound]

theorem Alike.planTree (h : e.Alike e') (plan : List (Action S)) :
    e.planTree plan = e'.planTree plan := by
  have htree : e.actionTree = e'.actionTree := funext h.actionTree
  rw [Engine.planTree, Engine.planTree, htree]

theorem Alike.txnTree (h : e.Alike e') (t : TxnKey) : e.txnTree t = e'.txnTree t := by
  have hid : e.txnId t = e'.txnId t := by
    show e.plain.txnId t = e'.plain.txnId t
    rw [h.plain]
  have hcontext : e.contextTree (e.contextOf t) = e'.contextTree (e'.contextOf t) := by
    show e.plain.contextTree (e.plain.contextOf t) = e'.plain.contextTree (e'.plain.contextOf t)
    rw [h.plain]
  have hplan : e.planTree = e'.planTree := funext h.planTree
  rw [Engine.txnTree, Engine.txnTree, hid, hcontext, hplan, h.plan?]

/-- An operation that uses neither the ledger nor the log. -/
def Oblivious (f : Engine S → α × Engine S) : Prop :=
  ∀ e e', e.plain = e'.plain → (f e).1 = (f e').1 ∧ (f e).2.plain = (f e').2.plain

theorem Oblivious.of_plain {f : Engine S → α × Engine S}
    (h : ∀ e, (f e).1 = (f e.plain).1 ∧ (f e).2.plain = (f e.plain).2.plain) : Oblivious f := by
  intro e e' heq
  obtain ⟨hresult, hengine⟩ := h e
  obtain ⟨hresult', hengine'⟩ := h e'
  rw [hresult, hengine, hresult', hengine', heq]
  exact ⟨rfl, rfl⟩

end Engine

namespace World

/-- The world without its ledger and its log. -/
def plain (w : World S σ) : World S σ := w.onEngine Engine.plain

theorem plain_release? (w : World S σ) (t : Option TxnKey) :
    (w.release? t).plain = w.plain := by
  cases t <;> rfl

/-- Two worlds, with the hands on the stage of each, that differ in their logs and in
how often, but not in whether, a transaction is owned. -/
structure Alike (H H' : List (Hand S)) (w w' : World S σ) : Prop where
  plain : w.plain = w'.plain
  balanced : (w.stage H).Balanced
  balanced' : (w'.stage H').Balanced
  hands : ∀ t, t ∈ H.map Hand.txn ↔ t ∈ H'.map Hand.txn

variable {H H' : List (Hand S)} {w w' : World S σ}

theorem shelf_of_plain (h : w.plain = w'.plain) : w.shelf = w'.shelf := by
  show w.plain.shelf = w'.plain.shelf
  rw [h]

theorem plain_congr {f : World S σ → World S σ} (hf : ∀ w, (f w).plain = (f w.plain).plain)
    (h : w.plain = w'.plain) : (f w).plain = (f w').plain := by
  rw [hf w, hf w', h]

theorem Alike.mem_owners_iff (h : Alike H H' w w') (t : TxnKey) :
    t ∈ (w.stage H).owners ↔ t ∈ (w'.stage H').owners := by
  simp only [Stage.owners, stage, shelf_of_plain h.plain, List.mem_append, h.hands]

/-- Alike worlds have the same transactions alive. -/
theorem Alike.engine (h : Alike H H' w w') : w.engine.Alike w'.engine where
  plain := by
    show w.plain.engine = w'.plain.engine
    rw [h.plain]
  isAlive t := by
    rw [Bool.eq_iff_iff]
    calc w.engine.isAlive t = true
        ↔ t ∈ (w.stage H).owners := h.balanced.isAlive_iff t
      _ ↔ t ∈ (w'.stage H').owners := h.mem_owners_iff t
      _ ↔ w'.engine.isAlive t = true := (h.balanced'.isAlive_iff t).symm

theorem Alike.hands_cons (h : Alike H H' w w') (x : Hand S) (t : TxnKey) :
    t ∈ (x :: H).map Hand.txn ↔ t ∈ (x :: H').map Hand.txn := by
  rw [List.map_cons, List.map_cons, List.mem_cons, List.mem_cons, h.hands]

/-- Moves on both sides lead to alike worlds if what they lead to is equal apart from
ledger and log. -/
theorem Alike.moves (h : Alike H H' w w') {K K' : List (Hand S)} {u u' : World S σ}
    (hu : Moves (w.stage H) (u.stage K)) (hu' : Moves (w'.stage H') (u'.stage K'))
    (hplain : u.plain = u'.plain)
    (hhands : ∀ t, t ∈ K.map Hand.txn ↔ t ∈ K'.map Hand.txn) : Alike K K' u u' where
  plain := hplain
  balanced := h.balanced.moves hu
  balanced' := h.balanced'.moves hu'
  hands := hhands

end World

namespace Run

/-- Two runs, each from a world of its own, have equal results and lead to worlds that
are equal apart from ledger and log. -/
def Agree (x y : Run S σ α) (w w' : World S σ) : Prop :=
  (x w).1 = (y w').1 ∧ (x w).2.plain = (y w').2.plain

/-- The run does not even ask whether a transaction is alive. -/
def Oblivious (x : Run S σ α) : Prop := ∀ w w', w.plain = w'.plain → x.Agree x w w'

/-- The run goes alike in alike worlds. -/
def Blind (x : Run S σ α) : Prop := ∀ H H' w w', World.Alike H H' w w' → x.Agree x w w'

variable {x y : Run S σ α} {f g : α → Run S σ β} {w w' : World S σ}

theorem Agree.bind (h : x.Agree y w w')
    (hf : ∀ a, (x w).1 = .ok a → (f a).Agree (g a) (x w).2 (y w').2) :
    (x >>= f).Agree (y >>= g) w w' := by
  obtain ⟨hresult, hworld⟩ := h
  cases hx : (x w).1 with
  | ok a =>
    rw [Agree, bind_of_ok hx, bind_of_ok (hresult.symm.trans hx)]
    exact hf a hx
  | error halt =>
    have hxw : x w = (.error halt, (x w).2) := Prod.ext hx rfl
    have hyw : y w' = (.error halt, (y w').2) := Prod.ext (hresult.symm.trans hx) rfl
    rw [Agree, bind_apply, bind_apply, hxw, hyw]
    exact ⟨rfl, hworld⟩

theorem Oblivious.blind (h : x.Oblivious) : x.Blind := fun _ _ w w' hw => h w w' hw.plain

theorem oblivious_of_plain
    (h : ∀ w, (x w).1 = (x w.plain).1 ∧ (x w).2.plain = (x w.plain).2.plain) : x.Oblivious := by
  intro w w' heq
  obtain ⟨hresult, hworld⟩ := h w
  obtain ⟨hresult', hworld'⟩ := h w'
  rw [Agree, hresult, hworld, hresult', hworld', heq]
  exact ⟨rfl, rfl⟩

theorem oblivious_pure (a : α) : Oblivious (pure a : Run S σ α) := fun _ _ h => ⟨rfl, h⟩

theorem oblivious_halt (h : Halt) : Oblivious (halt h : Run S σ α) := fun _ _ h => ⟨rfl, h⟩

theorem oblivious_emit (event : Event) : Oblivious (emit event : Run S σ Unit) :=
  fun _ _ h => ⟨rfl, h⟩

theorem agree_inspect {p : World S σ → α} (h : w.plain = w'.plain) (hp : p w = p w') :
    (inspect p).Agree (inspect p) w w' := ⟨congrArg Except.ok hp, h⟩

theorem oblivious_inspect {p : World S σ → α} (h : ∀ w, p w = p w.plain) :
    Oblivious (inspect p) :=
  oblivious_of_plain fun w => ⟨congrArg Except.ok (h w), rfl⟩

theorem oblivious_change {p : World S σ → World S σ} (h : ∀ w, (p w).plain = (p w.plain).plain) :
    Oblivious (change p) :=
  oblivious_of_plain fun w => ⟨rfl, h w⟩

theorem oblivious_onEngine {p : Engine S → α × Engine S} (h : Engine.Oblivious p) :
    Oblivious (onEngine p : Run S σ α) := by
  refine oblivious_of_plain fun w => ?_
  obtain ⟨hresult, hengine⟩ := h w.engine w.engine.plain rfl
  exact ⟨congrArg Except.ok hresult,
    congrArg (fun e => (⟨e, w.shelf, w.memory⟩ : World S σ)) hengine⟩

theorem Oblivious.bind (hx : x.Oblivious) (hf : ∀ a, (f a).Oblivious) : (x >>= f).Oblivious :=
  fun w w' h => (hx w w' h).bind fun a _ => hf a _ _ (hx w w' h).2

/-- After runs that agree the worlds are alike again. -/
theorem Agree.alike (hagree : x.Agree y w w') {H H' : List (Hand S)}
    (h : World.Alike H H' w w') (hx : x.TidyAt w) (hy : y.TidyAt w') :
    World.Alike H H' (x w).2 (y w').2 :=
  h.moves (hx H) (hy H') hagree.2 h.hands

theorem Blind.bind (hx : x.Blind) (htidy : x.Tidy) (hf : ∀ a, (f a).Blind) :
    (x >>= f).Blind := by
  intro H H' w w' h
  have hfirst := hx H H' w w' h
  exact hfirst.bind fun a _ => hf a H H' _ _ (hfirst.alike h (htidy w) (htidy w'))

theorem Agree.settle (h : x.Agree y w w') : x.settle.Agree y.settle w w' := by
  obtain ⟨hresult, hworld⟩ := h
  rw [Agree, Run.settle, Run.settle]
  cases hx : x w with
  | mk result u =>
    cases hy : y w' with
    | mk result' u' =>
      rw [hx, hy] at hresult hworld
      cases hresult
      cases result with
      | ok a => exact ⟨rfl, hworld⟩
      | error halt => cases halt <;> exact ⟨rfl, hworld⟩

/-- One owner more on each side makes no difference. -/
theorem Agree.holding {t : TxnKey} (h : x.Agree y (w.hold t) (w'.hold t)) :
    (holding t x).Agree (holding t y) w w' := h

theorem blind_inspect {p : Engine S → α} (h : ∀ e e', Engine.Alike e e' → p e = p e') :
    Blind (inspect (fun w => p w.engine) : Run S σ α) := fun _ _ _ _ hw =>
  ⟨congrArg Except.ok (h _ _ hw.engine), hw.plain⟩

end Run

end TxnAssembly
