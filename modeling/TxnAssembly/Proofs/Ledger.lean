import TxnAssembly.Proofs.Stage

/-!
# The ledger and the owners

The ledger lists every owner once and nobody else, whatever moves have been made.
So a transaction is alive exactly while somebody owns it, and one that has ended
never comes back: a new owner needs an old one.
-/
namespace TxnAssembly

variable {S : Type}

namespace Slots

variable {α β : Type}

/-- What a used slot held, taken out. -/
theorem values_perm_of_get? {s : Slots α} {name : String} {a : α} (h : s.get? name = some a) :
    s.values.Perm (a :: (s.erase name).values) := by
  simpa [h] using s.values_perm_erase name

theorem values_erase_perm_of_get? {s : Slots α} {name : String} (h : s.get? name = none) :
    (s.erase name).values.Perm s.values := by
  simpa [h] using (s.values_perm_erase name).symm

end Slots

namespace Engine

variable (e : Engine S)

theorem index_openTxn (c : ContextKey) : (e.openTxn c).1.index = e.txns.size := rfl

theorem size_openTxn (c : ContextKey) : (e.openTxn c).2.txns.size = e.txns.size + 1 := by
  simp [openTxn, takeTxnId, hold]

theorem size_install (t : TxnKey) (actions : List (Action S)) :
    (e.install t actions).txns.size = e.txns.size := by
  simp [install, emit]

theorem isAlive_iff_mem (t : TxnKey) : e.isAlive t = true ↔ t ∈ e.holds := by
  simp [isAlive]

end Engine

namespace Stage

variable {H : List (Hand S)} {e : Engine S} {s : Shelf S}

theorem owners_cons (x : Hand S) :
    (owners ⟨x :: H, e, s⟩).Perm (x.txn :: owners ⟨H, e, s⟩) :=
  List.perm_middle

theorem owners_takeBuilder {name : String} {b : Builder S}
    (h : s.builders.get? name = some b) :
    (owners ⟨.builder b :: H, e, { s with builders := s.builders.erase name }⟩).Perm
      (owners ⟨H, e, s⟩) := by
  refine (owners_cons _).trans ?_
  have hv := (Slots.values_perm_of_get? h).map Builder.txn
  exact ((hv.append_right s.handles.values).append_right (H.map Hand.txn)).symm

theorem owners_takeHandle {name : String} {t : TxnKey} (h : s.handles.get? name = some t) :
    (owners ⟨.handle t :: H, e, { s with handles := s.handles.erase name }⟩).Perm
      (owners ⟨H, e, s⟩) := by
  refine (owners_cons _).trans ?_
  have hv := Slots.values_perm_of_get? h
  have hb := (hv.append_left (s.builders.values.map Builder.txn)).trans List.perm_middle
  exact (hb.append_right (H.map Hand.txn)).symm

theorem owners_putBuilder {name : String} {b : Builder S} (h : s.builders.get? name = none) :
    (owners ⟨H, e, { s with builders := s.builders.put name b }⟩).Perm
      (owners ⟨.builder b :: H, e, s⟩) := by
  refine List.Perm.trans ?_ (owners_cons _).symm
  have hv := ((Slots.values_erase_perm_of_get? h).cons b).map Builder.txn
  exact (hv.append_right s.handles.values).append_right (H.map Hand.txn)

theorem owners_putHandle {name : String} {t : TxnKey} (h : s.handles.get? name = none) :
    (owners ⟨H, e, { s with handles := s.handles.put name t }⟩).Perm
      (owners ⟨.handle t :: H, e, s⟩) := by
  refine List.Perm.trans ?_ (owners_cons _).symm
  have hv := (Slots.values_erase_perm_of_get? h).cons t
  have hb := (hv.append_left (s.builders.values.map Builder.txn)).trans List.perm_middle
  exact hb.append_right (H.map Hand.txn)

/-- What a move can do to the owners, the ledger and the number of transactions. -/
inductive Reckoning (s s' : Stage S) : Prop where
  | keep (owners : s'.owners.Perm s.owners) (holds : s'.engine.holds = s.engine.holds)
      (size : s'.engine.txns.size = s.engine.txns.size)
  | join (t : TxnKey) (old : t ∈ s.owners ∨ s.engine.isAlive t = true)
      (owners : s'.owners.Perm (t :: s.owners))
      (holds : s'.engine.holds = t :: s.engine.holds)
      (size : s'.engine.txns.size = s.engine.txns.size)
  | fresh (t : TxnKey) (new : t.index = s.engine.txns.size)
      (owners : s'.owners.Perm (t :: s.owners))
      (holds : s'.engine.holds = t :: s.engine.holds)
      (size : s'.engine.txns.size = s.engine.txns.size + 1)
  | leave (t : TxnKey) (owners : s.owners.Perm (t :: s'.owners))
      (holds : s'.engine.holds = s.engine.holds.erase t)
      (size : s'.engine.txns.size = s.engine.txns.size)

/-- A move that changes no slot of builders and handles and no hand. -/
theorem Reckoning.aside {H : List (Hand S)} {e e' : Engine S} {s s' : Shelf S}
    (hb : s'.builders = s.builders) (hh : s'.handles = s.handles)
    (holds : e'.holds = e.holds) (size : e'.txns.size = e.txns.size) :
    Reckoning ⟨H, e, s⟩ ⟨H, e', s'⟩ := by
  refine .keep ?_ holds size
  simp only [owners, hb, hh]
  exact .refl _

theorem Reckoning.of_move {s s' : Stage S} (h : Move s s') : Reckoning s s' := by
  cases h with
  | emit | openContext | keepContext | dropContext | takeTxnId | keepPlan | dropPlan
  | makeAction | keepAction | dropAction => exact .aside rfl rfl rfl rfl
  | install t => exact .aside rfl rfl rfl (Engine.size_install ..)
  | openTxn => exact .fresh _ (Engine.index_openTxn ..) (owners_cons _) rfl (Engine.size_openTxn ..)
  | openBuilder =>
    exact .fresh _ (Engine.index_openTxn ..) (owners_cons _) rfl (Engine.size_openTxn ..)
  | start b => exact .keep (.refl _) rfl rfl
  | collect b => exact .keep (.refl _) rfl rfl
  | finalize b => exact .keep (.refl _) rfl (Engine.size_install ..)
  | retrieve b => exact .keep (.refl _) rfl rfl
  | takeBuilder h => exact .keep (owners_takeBuilder h) rfl rfl
  | putBuilder b h => exact .keep (owners_putBuilder h) rfl rfl
  | takeHandle h => exact .keep (owners_takeHandle h) rfl rfl
  | putHandle t h => exact .keep (owners_putHandle h) rfl rfl
  | share h => exact .join _ (.inl h) (owners_cons _) rfl rfl
  | play h => exact .join _ (.inl h) (owners_cons _) rfl rfl
  | upgrade h => exact .join _ (.inr h) (owners_cons _) rfl rfl
  | letGo x => exact .leave _ (owners_cons _) rfl rfl

/-- The ledger lists each owner once. -/
def Balanced (s : Stage S) : Prop := s.engine.holds.Perm s.owners

theorem balanced_initial : (initial : Stage S).Balanced := .refl _

theorem Balanced.isAlive_iff {s : Stage S} (hs : s.Balanced) (t : TxnKey) :
    s.engine.isAlive t = true ↔ t ∈ s.owners := by
  rw [Engine.isAlive_iff_mem, hs.mem_iff]

theorem Balanced.move {s s' : Stage S} (hs : s.Balanced) (h : Move s s') : s'.Balanced := by
  rw [Balanced] at hs ⊢
  cases Reckoning.of_move h with
  | keep owners holds => exact holds ▸ hs.trans owners.symm
  | join t _ owners holds => exact holds ▸ (hs.cons t).trans owners.symm
  | fresh t _ owners holds => exact holds ▸ (hs.cons t).trans owners.symm
  | leave t owners holds =>
    have herase := (hs.trans owners).erase t
    rw [List.erase_cons_head] at herase
    exact holds ▸ herase

theorem Balanced.moves {s s' : Stage S} (hs : s.Balanced) (h : Moves s s') : s'.Balanced := by
  induction h with
  | refl => exact hs
  | tail _ step ih => exact ih.move step

theorem Reachable.balanced {s : Stage S} (hs : s.Reachable) : s.Balanced :=
  balanced_initial.moves hs

/-- A transaction that is in somebody's hand is alive. -/
theorem Reachable.isAlive_of_mem_hands {s : Stage S} (hs : s.Reachable) {x : Hand S}
    (hx : x ∈ s.hands) : s.engine.isAlive x.txn = true :=
  (hs.balanced.isAlive_iff x.txn).2 (s.mem_owners_iff.2 (.inr (.inr ⟨x, hx, rfl⟩)))

/-- Transactions are never unmade. -/
theorem Made.moves {s s' : Stage S} {t : TxnKey} (ht : s.Made t) (h : Moves s s') :
    s'.Made t := by
  induction h with
  | refl => exact ht
  | tail _ step ih =>
    rw [Made] at ih ⊢
    cases Reckoning.of_move step <;> omega

/-- A transaction that nobody owns gets no owner by a move. -/
theorem not_mem_owners_move {s s' : Stage S} {t : TxnKey} (hs : s.Balanced) (ht : s.Made t)
    (hdead : t ∉ s.owners) (h : Move s s') : t ∉ s'.owners := by
  cases Reckoning.of_move h with
  | keep owners => rwa [owners.mem_iff]
  | join u old owners =>
    rw [owners.mem_iff, List.mem_cons, not_or]
    have hu : u ∈ s.owners := old.elim id (hs.isAlive_iff u).1
    exact ⟨fun htu => hdead (htu ▸ hu), hdead⟩
  | fresh u new owners =>
    rw [owners.mem_iff, List.mem_cons, not_or]
    refine ⟨fun htu => ?_, hdead⟩
    rw [Made, htu, new] at ht
    exact Nat.lt_irrefl _ ht
  | leave u owners => exact fun hmem => hdead (owners.mem_iff.2 (List.mem_cons_of_mem u hmem))

/-- A transaction that has ended stays ended. -/
theorem isAlive_moves {s s' : Stage S} {t : TxnKey} (hs : s.Balanced) (ht : s.Made t)
    (hdead : s.engine.isAlive t = false) (h : Moves s s') : s'.engine.isAlive t = false := by
  rw [← Bool.not_eq_true, hs.isAlive_iff] at hdead
  rw [← Bool.not_eq_true, (hs.moves h).isAlive_iff]
  induction h with
  | refl => exact hdead
  | tail before step ih =>
    exact not_mem_owners_move (hs.moves before) (ht.moves before) ih step

end Stage

end TxnAssembly
