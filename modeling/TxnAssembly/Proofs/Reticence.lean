import TxnAssembly.Proofs.Framing

/-!
# Commands that invoke nothing

Three events tell of an invocation: that its transaction is gone, that it falls back, and how
it ended. A command that invokes no action may log others, but none of these.
-/
namespace TxnAssembly

variable {S σ α : Type}

namespace Engine

/-- The log has grown, but by nothing that tells of an invocation. -/
def Aside (e e' : Engine S) : Prop :=
  ∃ es : List Event, e'.log = e.log ++ es ∧ ∀ x ∈ es, x.isOfInvocation = false

variable {e e' e'' : Engine S}

theorem Aside.of_log (h : e'.log = e.log) : e.Aside e' :=
  ⟨[], by rw [h, List.append_nil], nofun⟩

theorem Aside.trans (h : e.Aside e') (h' : e'.Aside e'') : e.Aside e'' := by
  obtain ⟨es, hlog, hes⟩ := h
  obtain ⟨es', hlog', hes'⟩ := h'
  refine ⟨es ++ es', by rw [hlog', hlog, List.append_assoc], fun x hx => ?_⟩
  exact (List.mem_append.1 hx).elim (hes x) (hes' x)

theorem aside_emit (e : Engine S) {x : Event} (h : x.isOfInvocation = false) :
    e.Aside (e.emit x) :=
  ⟨[x], rfl, fun _ hy => List.mem_singleton.1 hy ▸ h⟩

theorem aside_install (e : Engine S) (t : TxnKey) (actions : List (Action S)) :
    e.Aside (e.install t actions) :=
  aside_emit e rfl

theorem frame_aside : Frame (Aside (S := S)) where
  refl _ := .of_log rfl
  trans := .trans
  emit := aside_emit
  hold _ _ := .of_log rfl
  release _ _ := .of_log rfl
  openContext _ _ := .of_log rfl
  takeTxnId _ _ := .of_log rfl
  openTxn _ _ := .of_log rfl
  newAction _ _ := .of_log rfl

end Engine

namespace Command

theorem log_find (name : String) (slots : Shelf S → Slots α) (w : World S σ) :
    (find name slots w).2.engine.log = w.engine.log := by
  rw [find_snd]

theorem log_pick (plan : List (Action S)) (index : Nat) (w : World S σ) :
    (pick plan index w).2.engine.log = w.engine.log := by
  rw [pick_snd]

/-- Commands that invoke no action log nothing of an invocation. -/
theorem aside_perform (steps : Meaning S σ) {c : Command S} (h : c.invokes = false) :
    (c.perform steps).Respects Engine.Aside :=
  respects_perform Engine.frame_aside steps h (.inr Engine.aside_install)

end Command

end TxnAssembly
