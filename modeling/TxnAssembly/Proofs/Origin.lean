import TxnAssembly.Proofs.Ledger

/-!
# Where actions come from

Moves copy actions from one place to another and make new ones, each with a key of
its own and against a transaction that somebody owns. So the transaction of every
action that can be found exists, although it may have ended, and actions with one key
are copies of one. A constructor anchors an action to the transaction that its body has
captured, and nothing moves one of the two alone; so the two agree wherever the action is.
-/
namespace TxnAssembly

variable {S : Type}

namespace Slots

variable {α : Type} {s : Slots α} {name : String} {a b : α}

theorem mem_values_of_mem_erase (h : a ∈ (s.erase name).values) : a ∈ s.values :=
  (s.values_perm_erase name).mem_iff.2 (List.mem_append_right _ h)

/-- Filling a slot adds one value and may lose another. -/
theorem mem_values_put (h : b ∈ (s.put name a).values) : b = a ∨ b ∈ s.values := by
  rw [values_put, List.mem_cons] at h
  exact h.imp_right mem_values_of_mem_erase

end Slots

/-- The kind that the steps of a body call for. A free step may stand in an action of the
other kind. -/
def Body.shape (b : Body S) : ActionKind :=
  match b with
  | step _ _ => .sequential
  | choice _ _ _ => .choice
  | free _ => .sequential

namespace Action

/-- An action is as a constructor has made it. -/
def IsMade (a : Action S) : Prop := ∃ x : Recipe S, x.make a.key = a

variable {a : Action S}

/-- The anchor names the transaction that the body has captured. -/
theorem IsMade.anchor_eq (h : a.IsMade) : a.anchor = a.body.txn? := by
  obtain ⟨x, hx⟩ := h
  rw [← hx, x.anchor_make, x.body_make]

/-- The kind is that of the steps, unless the action belongs to no transaction. -/
theorem IsMade.kind_eq (h : a.IsMade) {t : TxnKey} (ht : a.anchor = some t) :
    a.kind = a.body.shape := by
  obtain ⟨x, hx⟩ := h
  rw [← hx] at ht ⊢
  cases x with
  | sequential | choice => rfl
  | fromFn => cases ht

end Action

theorem Recipe.isMade_make (x : Recipe S) (key : BodyKey) : (x.make key).IsMade :=
  ⟨x, by rw [x.key_make]⟩

namespace Engine

variable (e : Engine S)

theorem isMade_newAction (x : Recipe S) : (e.newAction x).1.IsMade := x.isMade_make _

/-- A new transaction has no plan. -/
theorem plan?_openTxn (c : ContextKey) (t : TxnKey) : (e.openTxn c).2.plan? t = e.plan? t := by
  by_cases heq : t.index = e.txns.size
  · simp [plan?, txn?, openTxn, takeTxnId, hold, heq]
  · simp [plan?, txn?, openTxn, takeTxnId, hold, Array.getElem?_push, heq]

theorem plan?_install_eq_some {t u : TxnKey} {actions plan : List (Action S)}
    (h : (e.install t actions).plan? u = some plan) : plan = actions ∨ e.plan? u = some plan := by
  rw [plan?_install] at h
  split at h
  · obtain ⟨_, _, rfl⟩ := Option.map_eq_some_iff.1 h
    exact .inl rfl
  · exact .inr h

end Engine

namespace Stage

/-- The moves that make an action, each with the action that it makes. -/
inductive Makes : Stage S → Stage S → Action S → Prop where
  | collect {H e s} (b : Builder S) {actions : List (Action S)} (x : Recipe S)
      (h : b.sequence = some actions) (hx : x.body.txn? = some b.txn) :
    Makes ⟨.builder b :: H, e, s⟩
      ⟨.builder { b with
          sequence := some (actions ++ [(e.newAction x).1]), phase := .building } :: H,
        (e.newAction x).2, s⟩ (e.newAction x).1
  | store {H e s} (into : String) {x : Recipe S}
      (h : ∀ t, x.body.txn? = some t → t ∈ Stage.owners ⟨H, e, s⟩) :
    Makes ⟨H, e, s⟩ ⟨H, (e.newAction x).2,
      { s with actions := s.actions.put into (e.newAction x).1 }⟩ (e.newAction x).1

section Makes

variable {s s' : Stage S} {a a' : Action S}

/-- A new action takes the next key. -/
theorem Makes.key_eq (h : Makes s s' a) : a.key.index = s.engine.nextBody := by
  cases h <;> simp [Engine.newAction]

theorem Makes.nextBody_eq (h : Makes s s' a) :
    s'.engine.nextBody = s.engine.nextBody + 1 := by
  cases h <;> rfl

theorem Makes.isMade (h : Makes s s' a) : a.IsMade := by
  cases h <;> exact Engine.isMade_newAction _ _

/-- The transaction of a new action is owned. -/
theorem Makes.mem_owners (h : Makes s s' a) {t : TxnKey} (ht : a.body.txn? = some t) :
    t ∈ s.owners := by
  cases h with
  | collect b x hseq hx =>
    rw [Engine.body_newAction] at ht
    have hbt : t = b.txn := Option.some.inj (ht.symm.trans hx)
    rw [hbt]
    exact (owners_cons _).mem_iff.2 List.mem_cons_self
  | store into h =>
    rw [Engine.body_newAction] at ht
    exact h t ht

/-- The key of a new action was not handed out before. -/
theorem Makes.key_ne (h : Makes s s' a') (ha : a.key.index < s.engine.nextBody) :
    a'.key ≠ a.key := by
  intro hkey
  rw [← hkey, h.key_eq] at ha
  exact Nat.lt_irrefl _ ha

/-- A builder does not have the sequence that it has after one action more. -/
theorem ne_of_collected {b b' : Builder S} {actions : List (Action S)}
    (h : b.sequence = some actions) (h' : b'.sequence = some (actions ++ [a])) : b ≠ b' := by
  rintro rfl
  have hself : actions = actions ++ [a] := Option.some.inj (h.symm.trans h')
  have hlength := congrArg List.length hself
  simp at hlength

/-- A move makes one action at most. -/
theorem Makes.unique (h : Makes s s' a) (h' : Makes s s' a') : a' = a := by
  generalize hr : s = r at h'
  generalize hr' : s' = r' at h'
  cases h with
  | collect b x hseq hx =>
    cases h' with
    | collect b₁ x₁ hseq₁ hx₁ =>
      simp only [mk.injEq, List.cons.injEq, Hand.builder.injEq, Builder.mk.injEq,
        Option.some.injEq] at hr'
      obtain ⟨⟨⟨-, hactions, -⟩, -⟩, -⟩ := hr'
      exact (List.append_singleton_inj.1 hactions).2.symm
    | store into h₁ =>
      simp only [mk.injEq] at hr hr'
      have hhands := List.cons.inj (hr.1.trans hr'.1.symm)
      exact absurd (Hand.builder.inj hhands.1) (ne_of_collected hseq rfl)
  | store into h =>
    cases h' with
    | collect b₁ x₁ hseq₁ hx₁ =>
      simp only [mk.injEq] at hr hr'
      have hhands := List.cons.inj (hr.1.symm.trans hr'.1)
      exact absurd (Hand.builder.inj hhands.1) (ne_of_collected hseq₁ rfl)
    | store into₁ h₁ =>
      simp only [mk.injEq, Shelf.mk.injEq] at hr'
      obtain ⟨-, -, -, -, -, -, hactions⟩ := hr'
      have hvalues := congrArg Slots.values hactions
      simp only [Slots.values_put, List.cons.injEq] at hvalues
      exact hvalues.1.symm

end Makes

/-- A builder's sequence is left as it is, emptied, or given one new action. -/
theorem collected_of_move {s s' : Stage S} (h : Move s s') {a : Action S}
    (ha : a ∈ s'.collected) : a ∈ s.collected ∨ Makes s s' a := by
  cases h with
  | emit | openContext | keepContext | dropContext | takeTxnId | openTxn | openBuilder | share
  | play | upgrade | finalize | takeHandle | putHandle | install | keepPlan | dropPlan
  | makeAction | keepAction | dropAction => exact .inl ha
  | retrieve b | start b | letGo x =>
    refine .inl (List.mem_append.2 ((List.mem_append.1 ha).imp_right fun ha => ?_))
    exact List.mem_append_right _ ha
  | collect b x hseq hx =>
    simp only [collected, List.flatMap_cons, Hand.actions, Builder.actions, hseq,
      Option.getD_some, List.mem_append, List.mem_singleton] at ha ⊢
    obtain ha | (ha | rfl) | ha := ha
    · exact .inl (.inl ha)
    · exact .inl (.inr (.inl ha))
    · exact .inr (.collect b x hseq hx)
    · exact .inl (.inr (.inr ha))
  | takeBuilder hslot =>
    have hv := Slots.values_perm_of_get? hslot
    simp only [collected, List.flatMap_cons, Hand.actions, List.mem_append] at ha ⊢
    rw [(hv.flatMap_right Builder.actions).mem_iff, List.flatMap_cons, List.mem_append]
    grind
  | putBuilder b hslot =>
    have hv := Slots.values_erase_perm_of_get? hslot
    simp only [collected, Slots.values_put, List.flatMap_cons, Hand.actions,
      List.mem_append] at ha ⊢
    rw [(hv.flatMap_right Builder.actions).mem_iff] at ha
    grind

/-- Moves copy actions and make them, one at a time. -/
theorem has_of_move {s s' : Stage S} (h : Move s s') {a : Action S} (ha : s'.Has a) :
    s.Has a ∨ Makes s s' a := by
  obtain ha | ⟨plan, hplan, ha⟩ | ha | ⟨t, plan, hplan, ha⟩ := ha
  · cases h with
    | makeAction into h =>
      obtain rfl | ha := Slots.mem_values_put ha
      · exact .inr (.store into h)
      · exact .inl (.inl ha)
    | keepAction into h =>
      obtain rfl | ha := Slots.mem_values_put ha
      · exact .inl h
      · exact .inl (.inl ha)
    | dropAction => exact .inl (.inl (Slots.mem_values_of_mem_erase ha))
    | _ => exact .inl (.inl ha)
  · cases h with
    | keepPlan into h =>
      obtain rfl | hplan := Slots.mem_values_put hplan
      · exact .inl (.inr (.inr (.inr ⟨_, _, h, ha⟩)))
      · exact .inl (.inr (.inl ⟨plan, hplan, ha⟩))
    | dropPlan => exact .inl (.inr (.inl ⟨plan, Slots.mem_values_of_mem_erase hplan, ha⟩))
    | _ => exact .inl (.inr (.inl ⟨plan, hplan, ha⟩))
  · exact (collected_of_move h ha).imp_left fun ha => .inr (.inr (.inl ha))
  · refine .inl ?_
    cases h with
    | openTxn | openBuilder =>
      exact .inr (.inr (.inr ⟨t, plan, (Engine.plan?_openTxn ..).symm.trans hplan, ha⟩))
    | install u h =>
      obtain rfl | hplan := Engine.plan?_install_eq_some _ hplan
      · exact .inl (h a ha)
      · exact .inr (.inr (.inr ⟨t, plan, hplan, ha⟩))
    | finalize b hseq =>
      obtain rfl | hplan := Engine.plan?_install_eq_some _ hplan
      · refine .inr (.inr (.inl (List.mem_append_right _ (List.mem_append_left _ ?_))))
        simpa [Hand.actions, Builder.actions, hseq] using ha
      · exact .inr (.inr (.inr ⟨t, plan, hplan, ha⟩))
    | _ => exact .inr (.inr (.inr ⟨t, plan, hplan, ha⟩))

/-- Whoever owns a transaction owns one that exists. -/
theorem Reachable.made_of_mem_owners {s : Stage S} (hs : s.Reachable) {t : TxnKey}
    (ht : t ∈ s.owners) : s.Made t := by
  induction hs with
  | refl => simp [owners, initial] at ht
  | @tail r s before step ih =>
    have hr : r.Balanced := Reachable.balanced before
    rw [Made] at ih ⊢
    cases Reckoning.of_move step with
    | keep owners _ size => exact size ▸ ih (owners.mem_iff.1 ht)
    | join u old owners _ size =>
      rw [size]
      obtain rfl | ht := List.mem_cons.1 (owners.mem_iff.1 ht)
      · exact ih (old.elim id (hr.isAlive_iff t).1)
      · exact ih ht
    | fresh u new owners _ size =>
      rw [size]
      obtain rfl | ht := List.mem_cons.1 (owners.mem_iff.1 ht)
      · omega
      · exact Nat.lt_succ_of_lt (ih ht)
    | leave u owners _ size => exact size ▸ ih (owners.mem_iff.2 (List.mem_cons_of_mem u ht))

/-- Every action that can be found is as a constructor has made it. -/
theorem Reachable.isMade_of_has {s : Stage S} (hs : s.Reachable) {a : Action S} (ha : s.Has a) :
    a.IsMade := by
  induction hs with
  | refl => simp [Has, initial, collected, Engine.plan?, Engine.txn?] at ha
  | tail _ step ih =>
    obtain ha | hnew := has_of_move step ha
    · exact ih ha
    · exact hnew.isMade

/-- The transaction of an action exists, wherever the action is found. -/
theorem Reachable.made_of_has {s : Stage S} (hs : s.Reachable) {a : Action S} (ha : s.Has a)
    {t : TxnKey} (ht : a.body.txn? = some t) : s.Made t := by
  induction hs with
  | refl => simp [Has, initial, collected, Engine.plan?, Engine.txn?] at ha
  | @tail r s before step ih =>
    have hr : r.Made t := by
      obtain ha | hnew := has_of_move step ha
      · exact ih ha
      · exact Reachable.made_of_mem_owners before (hnew.mem_owners ht)
    exact hr.moves (.single step)

/-- Keys are handed out in order and never taken back. -/
theorem nextBody_le_of_move {s s' : Stage S} (h : Move s s') :
    s.engine.nextBody ≤ s'.engine.nextBody := by
  cases h with
  | collect | makeAction => exact Nat.le_succ _
  | _ => exact Nat.le_refl _

theorem nextBody_le_of_moves {s s' : Stage S} (h : Moves s s') :
    s.engine.nextBody ≤ s'.engine.nextBody := by
  induction h with
  | refl => exact Nat.le_refl _
  | tail _ step ih => exact Nat.le_trans ih (nextBody_le_of_move step)

/-- Every action that can be found has a key that has been handed out. -/
theorem Reachable.key_lt_of_has {s : Stage S} (hs : s.Reachable) {a : Action S} (ha : s.Has a) :
    a.key.index < s.engine.nextBody := by
  induction hs with
  | refl => simp [Has, initial, collected, Engine.plan?, Engine.txn?] at ha
  | tail before step ih =>
    obtain ha | hnew := has_of_move step ha
    · exact Nat.lt_of_lt_of_le (ih ha) (nextBody_le_of_move step)
    · rw [hnew.key_eq, hnew.nextBody_eq]
      exact Nat.lt_succ_self _

/-- Actions with one key that are found at the same time are copies of one. -/
theorem Reachable.eq_of_key_eq {s : Stage S} (hs : s.Reachable) {a a' : Action S}
    (ha : s.Has a) (ha' : s.Has a') (hkey : a'.key = a.key) : a' = a := by
  induction hs generalizing a a' with
  | refl => simp [Has, initial, collected, Engine.plan?, Engine.txn?] at ha
  | @tail r s before step ih =>
    have hr : r.Reachable := before
    obtain hold | hnew := has_of_move step ha
    · obtain hold' | hnew' := has_of_move step ha'
      · exact ih hold hold' hkey
      · exact absurd hkey (hnew'.key_ne (hr.key_lt_of_has hold))
    · obtain hold' | hnew' := has_of_move step ha'
      · exact absurd hkey.symm (hnew.key_ne (hr.key_lt_of_has hold'))
      · exact hnew.unique hnew'

/-- Copies of an action are found later on, and nothing else has its key. -/
theorem Reachable.eq_of_key_eq_later {s s' : Stage S} (hs : s.Reachable) (h : Moves s s')
    {a a' : Action S} (ha : s.Has a) (ha' : s'.Has a') (hkey : a'.key = a.key) : a' = a := by
  induction h generalizing a' with
  | refl => exact hs.eq_of_key_eq ha ha' hkey
  | tail before step ih =>
    obtain hold | hnew := has_of_move step ha'
    · exact ih hold hkey
    · have hlt := Nat.lt_of_lt_of_le (hs.key_lt_of_has ha) (nextBody_le_of_moves before)
      exact absurd hkey (hnew.key_ne hlt)

section Knows

variable {s s' : Stage S} {a : Action S}

theorem Reachable.knows_of_has (hs : s.Reachable) (ha : s.Has a) : s.Knows a := ⟨s, hs, ha, .refl⟩

theorem Knows.moves (ha : s.Knows a) (h : Moves s s') : s'.Knows a := by
  obtain ⟨s₀, hs₀, ha, hmoves⟩ := ha
  exact ⟨s₀, hs₀, ha, hmoves.trans h⟩

theorem Knows.reachable (ha : s.Knows a) : s.Reachable := by
  obtain ⟨s₀, hs₀, -, hmoves⟩ := ha
  exact hs₀.moves hmoves

theorem Knows.isMade (ha : s.Knows a) : a.IsMade := by
  obtain ⟨s₀, hs₀, ha, -⟩ := ha
  exact hs₀.isMade_of_has ha

/-- The transaction of an action exists for as long as anybody may have the action. -/
theorem Knows.made (ha : s.Knows a) {t : TxnKey} (ht : a.body.txn? = some t) : s.Made t := by
  obtain ⟨s₀, hs₀, ha, hmoves⟩ := ha
  exact (hs₀.made_of_has ha ht).moves hmoves

end Knows

end Stage

end TxnAssembly
