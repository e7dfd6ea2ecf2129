import Mathlib.Data.List.Nodup
import TxnAssembly.Proofs.Origin

/-!
# The builders that there are

A builder stands in a slot or in somebody's hand. Moves make builders, drop them, and
take them one step on; whatever they do, a builder keeps its transaction and its
configuration, and no two builders have one transaction. A builder has no sequence
exactly in its first phase, and all that it has collected is bound to its own
transaction.
-/
namespace TxnAssembly

variable {S : Type}

def Hand.builder? (x : Hand S) : Option (Builder S) :=
  match x with
  | builder b => some b
  | _ => none

namespace Stage

/-- Every builder, wherever it stands. -/
def builders (s : Stage S) : List (Builder S) :=
  s.shelf.builders.values ++ s.hands.filterMap Hand.builder?

section Places

variable {H : List (Hand S)} {e : Engine S} {s : Shelf S}

theorem builders_cons (b : Builder S) :
    (builders ⟨.builder b :: H, e, s⟩).Perm (b :: builders ⟨H, e, s⟩) :=
  List.perm_middle

theorem builders_takeBuilder {name : String} {b : Builder S}
    (h : s.builders.get? name = some b) :
    (builders ⟨.builder b :: H, e, { s with builders := s.builders.erase name }⟩).Perm
      (builders ⟨H, e, s⟩) := by
  have hvalues := Slots.values_perm_of_get? h
  exact (builders_cons b).trans (hvalues.append_right (H.filterMap Hand.builder?)).symm

theorem builders_putBuilder {name : String} {b : Builder S} (h : s.builders.get? name = none) :
    (builders ⟨H, e, { s with builders := s.builders.put name b }⟩).Perm
      (builders ⟨.builder b :: H, e, s⟩) := by
  have hvalues := (Slots.values_erase_perm_of_get? h).cons b
  exact (hvalues.append_right (H.filterMap Hand.builder?)).trans (builders_cons b).symm

end Places

theorem mem_builders_iff (s : Stage S) {b : Builder S} :
    b ∈ s.builders ↔ (∃ name, s.shelf.builders.get? name = some b) ∨ .builder b ∈ s.hands := by
  simp only [builders, List.mem_append, Slots.mem_values_iff, List.mem_filterMap]
  refine or_congr_right ⟨?_, fun h => ⟨_, h, rfl⟩⟩
  rintro ⟨x, hx, hxb⟩
  cases x with
  | builder b' =>
    cases hxb
    exact hx
  | handle | play | invocation => cases hxb

/-- A builder is an owner. -/
theorem txn_mem_owners {s : Stage S} {b : Builder S} (hb : b ∈ s.builders) :
    b.txn ∈ s.owners := by
  rw [mem_owners_iff]
  obtain ⟨name, hname⟩ | hhand := s.mem_builders_iff.1 hb
  · exact .inl ⟨name, b, hname, rfl⟩
  · exact .inr (.inr ⟨_, hhand, rfl⟩)

/-- What a builder has collected can be found. -/
theorem mem_collected {s : Stage S} {b : Builder S} (hb : b ∈ s.builders) {a : Action S}
    (ha : a ∈ b.actions) : a ∈ s.collected := by
  simp only [collected, List.mem_append, List.mem_flatMap, Slots.mem_values_iff]
  obtain hslot | hhand := s.mem_builders_iff.1 hb
  · exact .inl ⟨b, hslot, ha⟩
  · exact .inr ⟨_, hhand, ha⟩

end Stage

namespace Builder

/-- What a builder never does otherwise: it has a sequence when it has left its first
phase, and it has collected nothing but actions of its own transaction. -/
structure Orderly (b : Builder S) : Prop where
  phase_iff : b.phase = .unbuilt ↔ b.sequence = none
  own : ∀ a ∈ b.actions, a.body.txn? = some b.txn

/-- One step of a builder: it starts over, collects an action or is finalized. -/
structure Step (b b' : Builder S) : Prop where
  txn : b'.txn = b.txn
  config : b'.config = b.config
  phase : b'.phase ≠ .unbuilt
  sequence : b'.sequence ≠ none
  own : ∀ a ∈ b'.actions, a ∈ b.actions ∨ a.body.txn? = some b.txn

variable {b b' : Builder S}

theorem Orderly.step (hb : b.Orderly) (h : b.Step b') : b'.Orderly where
  phase_iff := ⟨fun hphase => absurd hphase h.phase, fun hnone => absurd hnone h.sequence⟩
  own a ha := by
    rw [h.txn]
    exact (h.own a ha).elim (hb.own a) id

theorem step_start (b : Builder S) :
    b.Step { b with sequence := some [], phase := .building } where
  txn := rfl
  config := rfl
  phase := by simp
  sequence := by simp
  own := by simp [actions]

theorem step_collect {actions : List (Action S)} (hsequence : b.sequence = some actions)
    {a : Action S} (ha : a.body.txn? = some b.txn) :
    b.Step { b with sequence := some (actions ++ [a]), phase := .building } where
  txn := rfl
  config := rfl
  phase := by simp
  sequence := by simp
  own := by simp +contextual [Builder.actions, hsequence, ha, or_imp]

theorem step_finalize {actions : List (Action S)} (hsequence : b.sequence = some actions) :
    b.Step { b with phase := .finalized } where
  txn := rfl
  config := rfl
  phase := by simp
  sequence := by simp [hsequence]
  own a ha := .inl ha

end Builder

namespace Stage

/-- What a move can do to the builders. -/
inductive Turnover (s s' : Stage S) : Prop where
  | keep (h : s'.builders.Perm s.builders)
  | join (b : Builder S) (txn : b.txn.index = s.engine.txns.size)
      (sequence : b.sequence = none) (phase : b.phase = .unbuilt)
      (h : s'.builders.Perm (b :: s.builders))
  | step (b b' : Builder S) (others : List (Builder S)) (h : s.builders.Perm (b :: others))
      (step : b.Step b') (h' : s'.builders.Perm (b' :: others))
  | leave (b : Builder S) (h : s.builders.Perm (b :: s'.builders))

theorem Turnover.of_move {s s' : Stage S} (h : Move s s') : Turnover s s' := by
  cases h with
  | emit | openContext | keepContext | dropContext | takeTxnId | openTxn | takeHandle
  | putHandle | share | play | upgrade | install | keepPlan | dropPlan | makeAction
  | keepAction | dropAction => exact .keep (.refl _)
  | openBuilder config hc =>
    exact .join _ (Engine.index_openTxn ..) rfl rfl (builders_cons _)
  | start b => exact .step b _ _ (builders_cons b) b.step_start (builders_cons _)
  | @collect H e s b actions x hsequence hx =>
    have hown : (e.newAction x).1.body.txn? = some b.txn := by rw [e.body_newAction, hx]
    exact .step b _ _ (builders_cons b) (Builder.step_collect hsequence hown) (builders_cons _)
  | finalize b hsequence =>
    exact .step b _ _ (builders_cons b) (Builder.step_finalize hsequence) (builders_cons _)
  | retrieve b => exact .leave b (builders_cons b)
  | takeBuilder hname => exact .keep (builders_takeBuilder hname)
  | putBuilder b hname => exact .keep (builders_putBuilder hname)
  | letGo x =>
    cases x with
    | builder b => exact .leave b (builders_cons b)
    | handle | play | invocation => exact .keep (.refl _)

/-- Every builder of a stage that can come about is orderly. -/
theorem Reachable.orderly {s : Stage S} (hs : s.Reachable) {b : Builder S}
    (hb : b ∈ s.builders) : b.Orderly := by
  induction hs generalizing b with
  | refl => simp [builders, initial] at hb
  | tail before step ih =>
    cases Turnover.of_move step with
    | keep h => exact ih (h.mem_iff.1 hb)
    | join b₁ txn sequence phase h =>
      obtain rfl | hold := List.mem_cons.1 (h.mem_iff.1 hb)
      · exact ⟨by simp [sequence, phase], by simp [Builder.actions, sequence]⟩
      · exact ih hold
    | step b₁ b₂ others h hstep h' =>
      obtain rfl | hold := List.mem_cons.1 (h'.mem_iff.1 hb)
      · have hfirst : b₁.Orderly := ih (h.mem_iff.2 List.mem_cons_self)
        exact hfirst.step hstep
      · exact ih (h.mem_iff.2 (List.mem_cons_of_mem b₁ hold))
    | leave b₁ h => exact ih (h.mem_iff.2 (List.mem_cons_of_mem b₁ hb))

/-- No two builders have one transaction. -/
theorem Reachable.nodup_txns {s : Stage S} (hs : s.Reachable) :
    (s.builders.map Builder.txn).Nodup := by
  induction hs with
  | refl => exact List.nodup_nil
  | @tail r s before step ih =>
    cases Turnover.of_move step with
    | keep h => exact (h.map Builder.txn).nodup_iff.2 ih
    | join b txn sequence phase h =>
      rw [(h.map Builder.txn).nodup_iff, List.map_cons, List.nodup_cons]
      refine ⟨fun hold => ?_, ih⟩
      obtain ⟨b', hb', heq⟩ := List.mem_map.1 hold
      have hmade : r.Made b.txn := by
        rw [← heq]
        exact Reachable.made_of_mem_owners before (txn_mem_owners hb')
      rw [Made, txn] at hmade
      exact Nat.lt_irrefl _ hmade
    | step b b' others h hstep h' =>
      rw [(h.map Builder.txn).nodup_iff, List.map_cons] at ih
      rw [(h'.map Builder.txn).nodup_iff, List.map_cons, hstep.txn]
      exact ih
    | leave b h =>
      rw [(h.map Builder.txn).nodup_iff, List.map_cons, List.nodup_cons] at ih
      exact ih.2

theorem Reachable.eq_of_txn_eq {s : Stage S} (hs : s.Reachable) {b b' : Builder S}
    (hb : b ∈ s.builders) (hb' : b' ∈ s.builders) (h : b.txn = b'.txn) : b = b' :=
  List.inj_on_of_nodup_map hs.nodup_txns hb hb' h

end Stage

end TxnAssembly
