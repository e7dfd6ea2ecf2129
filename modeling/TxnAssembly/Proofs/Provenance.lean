import Mathlib.Logic.ExistsUnique
import TxnAssembly.Proofs.Binding

/-!
# Which call an action stems from

An action is made by one call, and from then on it is copied: into slots, with a builder
from hand to slot and back, from a sequence or from slots into an installed plan, and from
there into a stored one. An account of a run lists the actions that calls have made and
says, of each place where an action can stand, which call its content stems from. Copies
are followed from place to place, whatever the keys are; so it is a theorem, and not part
of the definition, that two actions have one body exactly if they stem from one call.
-/
namespace TxnAssembly

variable {S σ : Type}

/-- A place where an action can stand. -/
inductive Place where
  | slot (name : String)
  | stored (plan : String) (index : Nat)
  | sequence (builder : String) (index : Nat)
  /-- In the sequence of a builder in hand. Hands are counted from the one that has been
  there longest, so that new ones do not change the number. -/
  | inHand (hand index : Nat)
  | installed (t : TxnKey) (index : Nat)

/-- An entry of a list with one more at the end is an old one or the last. -/
theorem getElem?_concat_cases {α : Type} {l : List α} {x a : α} {i : Nat}
    (h : (l ++ [x])[i]? = some a) : l[i]? = some a ∨ i = l.length ∧ a = x := by
  obtain hlt | rfl | hgt := Nat.lt_trichotomy i l.length
  · exact .inl (by rwa [List.getElem?_append_left hlt] at h)
  · exact .inr ⟨rfl, Option.some.inj (h.symm.trans List.getElem?_concat_length)⟩
  · rw [List.getElem?_eq_none (by simp; omega)] at h
    cases h

/-- What stands in the sequence of a builder in hand. -/
def Hand.actionAt? (H : List (Hand S)) (hand index : Nat) : Option (Action S) :=
  H.reverse[hand]?.bind (·.actions[index]?)

theorem Hand.actionAt?_cons (x : Hand S) (H : List (Hand S)) (hand index : Nat) :
    actionAt? (x :: H) hand index =
      if hand = H.length then x.actions[index]? else actionAt? H hand index := by
  rw [actionAt?, actionAt?, List.reverse_cons, List.getElem?_append, List.length_reverse]
  obtain hlt | rfl | hgt := Nat.lt_trichotomy hand H.length
  · rw [if_pos hlt, if_neg (Nat.ne_of_lt hlt)]
  · simp
  · have hnone : H.reverse[hand]? = none := by simp; omega
    have hnone' : ([x] : List (Hand S))[hand - H.length]? = none := by simp; omega
    rw [if_neg (Nat.lt_asymm hgt), if_neg (Nat.ne_of_gt hgt), hnone, hnone']

theorem Hand.ne_of_actionAt? {H : List (Hand S)} {hand index : Nat} {a : Action S}
    (ha : actionAt? H hand index = some a) : hand ≠ H.length := by
  rintro rfl
  simp [actionAt?] at ha

/-- What stands in hand stands with a hand that has collected something. -/
theorem Hand.ne_of_actionAt?_cons {x : Hand S} {H : List (Hand S)} {hand index : Nat}
    {a : Action S} (hx : x.actions = []) (ha : actionAt? (x :: H) hand index = some a) :
    hand ≠ H.length := by
  rintro rfl
  simp [actionAt?_cons, hx] at ha

theorem Engine.eq_of_plan?_install (e : Engine S) {t : TxnKey} {actions plan : List (Action S)}
    (h : (e.install t actions).plan? t = some plan) : plan = actions := by
  rw [plan?_install, if_pos rfl] at h
  obtain ⟨_, _, rfl⟩ := Option.map_eq_some_iff.1 h
  rfl

namespace Stage

/-- The action at a place, if there is one. -/
def at? (s : Stage S) (p : Place) : Option (Action S) :=
  match p with
  | .slot name => s.shelf.actions.get? name
  | .stored plan index => (s.shelf.plans.get? plan).bind (·[index]?)
  | .sequence builder index => (s.shelf.builders.get? builder).bind (·.actions[index]?)
  | .inHand hand index => Hand.actionAt? s.hands hand index
  | .installed t index => (s.engine.plan? t).bind (·[index]?)

/-- An action can be found if it stands at a place. -/
theorem has_iff_at? (s : Stage S) (a : Action S) : s.Has a ↔ ∃ p, s.at? p = some a := by
  simp only [Has, collected, List.mem_append, List.mem_flatMap, Slots.mem_values_iff]
  constructor
  · rintro (⟨name, h⟩ | ⟨plan, ⟨name, hplan⟩, h⟩ | (⟨b, ⟨name, hb⟩, h⟩ | ⟨x, hx, h⟩) |
      ⟨t, plan, hplan, h⟩)
    · exact ⟨.slot name, h⟩
    · obtain ⟨i, hi⟩ := List.mem_iff_getElem?.1 h
      exact ⟨.stored name i, by simp [at?, hplan, hi]⟩
    · obtain ⟨i, hi⟩ := List.mem_iff_getElem?.1 h
      exact ⟨.sequence name i, by simp [at?, hb, hi]⟩
    · obtain ⟨n, hn⟩ := List.mem_iff_getElem?.1 (List.mem_reverse.2 hx)
      obtain ⟨i, hi⟩ := List.mem_iff_getElem?.1 h
      exact ⟨.inHand n i, by simp [at?, Hand.actionAt?, hn, hi]⟩
    · obtain ⟨i, hi⟩ := List.mem_iff_getElem?.1 h
      exact ⟨.installed t i, by simp [at?, hplan, hi]⟩
  · rintro ⟨p, h⟩
    cases p with
    | slot name => exact .inl ⟨name, h⟩
    | stored name i =>
      obtain ⟨plan, hplan, hi⟩ := Option.bind_eq_some_iff.1 h
      exact .inr (.inl ⟨plan, ⟨name, hplan⟩, List.mem_of_getElem? hi⟩)
    | sequence name i =>
      obtain ⟨b, hb, hi⟩ := Option.bind_eq_some_iff.1 h
      exact .inr (.inr (.inl (.inl ⟨b, ⟨name, hb⟩, List.mem_of_getElem? hi⟩)))
    | inHand n i =>
      obtain ⟨x, hx, hi⟩ := Option.bind_eq_some_iff.1 h
      have hmem := List.mem_reverse.1 (List.mem_of_getElem? hx)
      exact .inr (.inr (.inl (.inr ⟨x, hmem, List.mem_of_getElem? hi⟩)))
    | installed t i =>
      obtain ⟨plan, hplan, hi⟩ := Option.bind_eq_some_iff.1 h
      exact .inr (.inr (.inr ⟨t, plan, hplan, List.mem_of_getElem? hi⟩))

/-- From one stage to the next the content of the first place is handed on to the second. -/
inductive Copies : Stage S → Stage S → Place → Place → Prop where
  /-- A place holds what it held. -/
  | stay {s s' p} (h : s'.at? p = s.at? p) : Copies s s' p p
  | takeBuilder {H e s name} {b : Builder S} (i : Nat) (h : s.builders.get? name = some b) :
    Copies ⟨H, e, s⟩ ⟨.builder b :: H, e, { s with builders := s.builders.erase name }⟩
      (.sequence name i) (.inHand H.length i)
  | putBuilder {H e s name} {b : Builder S} (i : Nat) (h : s.builders.get? name = none) :
    Copies ⟨.builder b :: H, e, s⟩ ⟨H, e, { s with builders := s.builders.put name b }⟩
      (.inHand H.length i) (.sequence name i)
  | finalize {H e s} {b : Builder S} {actions} (i : Nat) (h : b.sequence = some actions) :
    Copies ⟨.builder b :: H, e, s⟩
      ⟨.builder { b with phase := .finalized } :: H, e.install b.txn actions, s⟩
      (.inHand H.length i) (.installed b.txn i)
  | install {H e s t actions name i} {a : Action S} (h : actions[i]? = some a)
      (hslot : s.actions.get? name = some a) :
    Copies ⟨H, e, s⟩ ⟨H, e.install t actions, s⟩ (.slot name) (.installed t i)
  | keepPlan {H e s t} {plan : List (Action S)} (into : String) (i : Nat)
      (h : e.plan? t = some plan) :
    Copies ⟨H, e, s⟩ ⟨H, e, { s with plans := s.plans.put into plan }⟩
      (.installed t i) (.stored into i)
  | keepAction {H e s p} {a : Action S} (into : String) (h : at? ⟨H, e, s⟩ p = some a) :
    Copies ⟨H, e, s⟩ ⟨H, e, { s with actions := s.actions.put into a }⟩ p (.slot into)

/-- The calls that make an action, each with the action and the place where it is put. -/
inductive MakesAt : Stage S → Stage S → Action S → Place → Prop where
  | collect {H e s} (b : Builder S) {actions} (x : Recipe S) (h : b.sequence = some actions)
      (hx : x.body.txn? = some b.txn) :
    MakesAt ⟨.builder b :: H, e, s⟩
      ⟨.builder { b with
          sequence := some (actions ++ [(e.newAction x).1]), phase := .building } :: H,
        (e.newAction x).2, s⟩
      (e.newAction x).1 (.inHand H.length actions.length)
  | store {H e s} (into : String) {x : Recipe S}
      (h : ∀ t, x.body.txn? = some t → t ∈ Stage.owners ⟨H, e, s⟩) :
    MakesAt ⟨H, e, s⟩
      ⟨H, (e.newAction x).2, { s with actions := s.actions.put into (e.newAction x).1 }⟩
      (e.newAction x).1 (.slot into)

section Copies

variable {s s' : Stage S} {p q : Place} {a : Action S}

theorem MakesAt.makes (h : MakesAt s s' a p) : Makes s s' a := by
  cases h with
  | collect b x h hx => exact .collect b x h hx
  | store into h => exact .store into h

theorem MakesAt.move (h : MakesAt s s' a p) : Move s s' := by
  cases h with
  | collect b x h hx => exact .collect b x h hx
  | store into h => exact .makeAction into h

theorem MakesAt.at?_eq (h : MakesAt s s' a p) : s'.at? p = some a := by
  cases h with
  | collect b x h hx =>
    simp [at?, Hand.actionAt?_cons, Hand.actions, Builder.actions]
  | store into h => exact Slots.get?_put_self _ _ _

/-- What is handed on is what was there. -/
theorem Copies.at?_eq (h : Copies s s' p q) (ha : s'.at? q = some a) : s.at? p = some a := by
  cases h with
  | stay h => rwa [h] at ha
  | takeBuilder i h =>
    simpa [at?, Hand.actionAt?_cons, h, Hand.actions] using ha
  | putBuilder i h =>
    simpa [at?, Hand.actionAt?_cons, Hand.actions] using ha
  | @finalize H e s b actions i h =>
    obtain ⟨plan, hplan, hi⟩ := Option.bind_eq_some_iff.1 ha
    cases Engine.eq_of_plan?_install _ hplan
    simpa [at?, Hand.actionAt?_cons, Hand.actions, Builder.actions, h] using hi
  | install h hslot =>
    obtain ⟨plan, hplan, hi⟩ := Option.bind_eq_some_iff.1 ha
    cases Engine.eq_of_plan?_install _ hplan
    exact hslot.trans (h.symm.trans hi)
  | keepPlan into i h => simpa [at?, h] using ha
  | keepAction into h => exact h.trans ((Slots.get?_put_self _ _ _).symm.trans ha)

/-- Whatever stands at a place after a move has been handed on or made by it. -/
theorem copies_of_move (h : Move s s') (ha : s'.at? q = some a) :
    (∃ p, Copies s s' p q) ∨ MakesAt s s' a q := by
  cases q with
  | slot name =>
    cases h with
    | makeAction into h =>
      by_cases hname : name = into
      · subst hname
        cases (Slots.get?_put_self _ _ _).symm.trans ha
        exact .inr (.store name h)
      · exact .inl ⟨_, .stay (Slots.get?_put_of_ne _ _ hname)⟩
    | keepAction into h =>
      by_cases hname : name = into
      · subst hname
        obtain ⟨p, hp⟩ := (has_iff_at? _ _).1 h
        exact .inl ⟨p, .keepAction name hp⟩
      · exact .inl ⟨_, .stay (Slots.get?_put_of_ne _ _ hname)⟩
    | dropAction into =>
      by_cases hname : name = into
      · subst hname
        cases (Slots.get?_erase_self _ _).symm.trans ha
      · exact .inl ⟨_, .stay (Slots.get?_erase_of_ne _ hname)⟩
    | _ => exact .inl ⟨_, .stay rfl⟩
  | stored name i =>
    cases h with
    | keepPlan into h =>
      by_cases hname : name = into
      · subst hname
        exact .inl ⟨_, .keepPlan name i h⟩
      · exact .inl ⟨_, .stay (by simp only [at?, Slots.get?_put_of_ne _ _ hname])⟩
    | dropPlan into =>
      by_cases hname : name = into
      · subst hname
        simp [at?] at ha
      · exact .inl ⟨_, .stay (by simp only [at?, Slots.get?_erase_of_ne _ hname])⟩
    | _ => exact .inl ⟨_, .stay rfl⟩
  | sequence name i =>
    cases h with
    | @takeBuilder H e f taken b h =>
      by_cases hname : name = taken
      · subst hname
        simp [at?] at ha
      · exact .inl ⟨_, .stay (by simp only [at?, Slots.get?_erase_of_ne _ hname])⟩
    | @putBuilder H e f into b h =>
      by_cases hname : name = into
      · subst hname
        exact .inl ⟨_, .putBuilder i h⟩
      · exact .inl ⟨_, .stay (by simp only [at?, Slots.get?_put_of_ne _ _ hname])⟩
    | _ => exact .inl ⟨_, .stay rfl⟩
  | inHand n i =>
    cases h with
    | openTxn | openBuilder | takeHandle | share | play | upgrade | start | retrieve =>
      have hn := Hand.ne_of_actionAt?_cons rfl ha
      exact .inl ⟨_, .stay (by simp [at?, Hand.actionAt?_cons, hn])⟩
    | putHandle | letGo =>
      have hn := Hand.ne_of_actionAt? ha
      exact .inl ⟨_, .stay (by simp [at?, Hand.actionAt?_cons, hn])⟩
    | putBuilder =>
      have hn := Hand.ne_of_actionAt? ha
      exact .inl ⟨_, .stay (by simp [at?, Hand.actionAt?_cons, hn])⟩
    | @takeBuilder H e f taken b h =>
      by_cases hn : n = H.length
      · subst hn
        exact .inl ⟨_, .takeBuilder i h⟩
      · exact .inl ⟨_, .stay (by simp [at?, Hand.actionAt?_cons, hn])⟩
    | @collect H e f b actions x hseq hx =>
      by_cases hn : n = H.length
      · subst hn
        simp only [at?, Hand.actionAt?_cons, if_true, Hand.actions, Builder.actions,
          Option.getD_some] at ha
        obtain hi | ⟨rfl, rfl⟩ := getElem?_concat_cases ha
        · refine .inl ⟨_, .stay ?_⟩
          simp [at?, Hand.actionAt?_cons, Hand.actions, Builder.actions, hseq, hi, ha]
        · exact .inr (.collect b x hseq hx)
      · exact .inl ⟨_, .stay (by simp [at?, Hand.actionAt?_cons, hn])⟩
    | finalize b h =>
      exact .inl ⟨_, .stay (by simp [at?, Hand.actionAt?_cons, Hand.actions, Builder.actions])⟩
    | _ => exact .inl ⟨_, .stay rfl⟩
  | installed t i =>
    cases h with
    | openTxn | openBuilder =>
      exact .inl ⟨_, .stay (congrArg (Option.bind · (·[i]?)) (Engine.plan?_openTxn ..))⟩
    | finalize b h =>
      by_cases ht : t = b.txn
      · subst ht
        exact .inl ⟨_, .finalize i h⟩
      · exact .inl ⟨_, .stay (by simp [at?, Engine.plan?_install, ht])⟩
    | @install H e f u actions h =>
      by_cases ht : t = u
      · subst ht
        obtain ⟨plan, hplan, hi⟩ := Option.bind_eq_some_iff.1 ha
        cases Engine.eq_of_plan?_install _ hplan
        obtain ⟨name, hslot⟩ := (Slots.mem_values_iff _).1 (h a (List.mem_of_getElem? hi))
        exact .inl ⟨_, .install hi hslot⟩
      · exact .inl ⟨_, .stay (by simp [at?, Engine.plan?_install, ht])⟩
    | _ => exact .inl ⟨_, .stay rfl⟩

/-- A move that makes no action hands out no key. -/
theorem nextBody_of_move (h : Move s s') (hnone : ∀ a p, ¬ MakesAt s s' a p) :
    s'.engine.nextBody = s.engine.nextBody := by
  cases h with
  | collect b x hseq hx => exact absurd (.collect b x hseq hx) (hnone _ _)
  | makeAction into h => exact absurd (.store into h) (hnone _ _)
  | _ => rfl

end Copies

/-- The places to which a move hands on what stems from a call. -/
def handedOn (s s' : Stage S) (stems : Place → Nat → Prop) : Place → Nat → Prop := fun q i =>
  ∃ p, Copies s s' p q ∧ stems p i

end Stage

/-- An account of a run up to a stage: the actions that calls have made, in order, and the
call that the content of a place stems from. -/
inductive Account : List (Action S) → (Place → Nat → Prop) → Stage S → Prop where
  | initial : Account [] (fun _ _ => False) .initial
  | make {made stems s s'} {a : Action S} {p : Place} (h : Account made stems s)
      (hmakes : s.MakesAt s' a p) :
    Account (made ++ [a])
      (fun q i => s.handedOn s' stems q i ∨ s.MakesAt s' a q ∧ i = made.length) s'
  | move {made stems s s'} (h : Account made stems s) (hmove : Move s s')
      (hnone : ∀ a p, ¬ s.MakesAt s' a p) :
    Account made (s.handedOn s' stems) s'

/-- What an account says agrees with the keys. -/
structure Account.Sound (made : List (Action S)) (stems : Place → Nat → Prop) (s : Stage S) :
    Prop where
  nextBody : s.engine.nextBody = made.length
  key : ∀ i (a : Action S), made[i]? = some a → a.key.index = i
  origin : ∀ p a, s.at? p = some a → ∃ i, stems p i
  copy : ∀ p i a, stems p i → s.at? p = some a → made[i]? = some a

namespace Account

open Stage

variable {made : List (Action S)} {stems : Place → Nat → Prop} {s s' : Stage S}

theorem reachable (h : Account made stems s) : s.Reachable := by
  induction h with
  | initial => exact .refl
  | make h hmakes ih => exact ih.move hmakes.move
  | move h hmove hnone ih => exact ih.move hmove

/-- Of every run there is an account. -/
theorem exists_of_reachable (hs : s.Reachable) : ∃ made stems, Account made stems s := by
  induction hs with
  | refl => exact ⟨[], _, .initial⟩
  | @tail r s before step ih =>
    obtain ⟨made, stems, h⟩ := ih
    by_cases hmakes : ∃ a p, MakesAt r s a p
    · obtain ⟨a, p, hmakes⟩ := hmakes
      exact ⟨_, _, h.make hmakes⟩
    · exact ⟨_, _, h.move step fun a p ha => hmakes ⟨a, p, ha⟩⟩

theorem Sound.initial : Sound [] (fun _ _ => False) (.initial : Stage S) where
  nextBody := rfl
  key := by simp
  origin p a h := by
    have hhas : (Stage.initial : Stage S).Has a := (has_iff_at? _ _).2 ⟨p, h⟩
    simp [Has, Stage.initial, collected, Engine.plan?, Engine.txn?] at hhas
  copy := nofun

/-- What is handed on stems from the call that it stemmed from before. -/
theorem Sound.handedOn (h : Sound made stems s) {p : Place} {i : Nat} {a : Action S}
    (hp : s.handedOn s' stems p i) (ha : s'.at? p = some a) : made[i]? = some a := by
  obtain ⟨q, hcopies, hq⟩ := hp
  exact h.copy q i a hq (hcopies.at?_eq ha)

theorem Sound.make (h : Sound made stems s) {a : Action S} {p : Place}
    (hmakes : s.MakesAt s' a p) :
    Sound (made ++ [a])
      (fun q i => s.handedOn s' stems q i ∨ s.MakesAt s' a q ∧ i = made.length) s' where
  nextBody := by rw [hmakes.makes.nextBody_eq, h.nextBody, List.length_append]; rfl
  key i b hb := by
    obtain hb | ⟨rfl, rfl⟩ := getElem?_concat_cases hb
    · exact h.key i b hb
    · exact hmakes.makes.key_eq.trans h.nextBody
  origin q b hb := by
    obtain ⟨r, hcopies⟩ | hnew := copies_of_move hmakes.move hb
    · obtain ⟨i, hi⟩ := h.origin r b (hcopies.at?_eq hb)
      exact ⟨i, .inl ⟨r, hcopies, hi⟩⟩
    · cases hmakes.makes.unique hnew.makes
      exact ⟨made.length, .inr ⟨hnew, rfl⟩⟩
  copy q i b hq hb := by
    obtain hq | ⟨hnew, rfl⟩ := hq
    · have hold := h.handedOn hq hb
      rwa [List.getElem?_append_left (List.getElem?_eq_some_iff.1 hold).1]
    · cases hnew.at?_eq.symm.trans hb
      exact List.getElem?_concat_length

theorem Sound.move (h : Sound made stems s) (hmove : Move s s')
    (hnone : ∀ a p, ¬ s.MakesAt s' a p) : Sound made (s.handedOn s' stems) s' where
  nextBody := (nextBody_of_move hmove hnone).trans h.nextBody
  key := h.key
  origin q a ha := by
    obtain ⟨p, hcopies⟩ | hmakes := copies_of_move hmove ha
    · obtain ⟨i, hi⟩ := h.origin p a (hcopies.at?_eq ha)
      exact ⟨i, p, hcopies, hi⟩
    · exact absurd hmakes (hnone a q)
  copy _ _ _ := h.handedOn

theorem sound (h : Account made stems s) : Sound made stems s := by
  induction h with
  | initial => exact .initial
  | make h hmakes ih => exact ih.make hmakes
  | move h hmove hnone ih => exact ih.move hmove hnone

/-- Two calls make actions with bodies of their own, whatever is in them. -/
theorem Sound.sameBody_iff (h : Sound made stems s) {i j : Nat} {a b : Action S}
    (hi : made[i]? = some a) (hj : made[j]? = some b) : a.sameBody b = true ↔ i = j := by
  rw [Action.sameBody, decide_eq_true_iff]
  constructor
  · intro hkey
    rw [← h.key i a hi, ← h.key j b hj, hkey]
  · rintro rfl
    rw [Option.some.inj (hi.symm.trans hj)]

/-- The content of a place stems from one call only. -/
theorem Sound.existsUnique (h : Sound made stems s) {p : Place} {a : Action S}
    (hp : s.at? p = some a) : ∃! i, stems p i := by
  obtain ⟨i, hi⟩ := h.origin p a hp
  refine ⟨i, hi, fun j hj => ?_⟩
  rw [← h.key i a (h.copy p i a hi hp), ← h.key j a (h.copy p j a hj hp)]

theorem Sound.sameBody_iff_exists (h : Sound made stems s) {p q : Place} {a b : Action S}
    (hp : s.at? p = some a) (hq : s.at? q = some b) :
    a.sameBody b = true ↔ ∃ i, stems p i ∧ stems q i := by
  obtain ⟨i, hi⟩ := h.origin p a hp
  obtain ⟨j, hj⟩ := h.origin q b hq
  rw [h.sameBody_iff (h.copy p i a hi hp) (h.copy q j b hj hq)]
  constructor
  · rintro rfl
    exact ⟨i, hi, hj⟩
  · rintro ⟨k, hki, hkj⟩
    rw [(h.existsUnique hp).unique hi hki, (h.existsUnique hq).unique hj hkj]

end Account

theorem Action.equivalence_sameBody :
    Equivalence fun a b : Action S => a.sameBody b = true where
  refl a := by simp [sameBody]
  symm h := by simpa [sameBody, eq_comm] using h
  trans h h' := by
    simp only [sameBody, decide_eq_true_iff] at h h' ⊢
    exact h.trans h'

/-- Two actions that nobody can tell apart by what they do, from a stage on. -/
structure Interchangeable (σ : Type) (s : Stage S) (a b : Action S) : Prop where
  kind : a.kind = b.kind
  isBound : ∀ s', Moves s s' → s'.engine.isBound a = s'.engine.isBound b
  evaluations : ∀ (steps : Meaning S σ) (w : World S σ),
    steps.evaluations a w = steps.evaluations b w ∧
      (∀ v ∈ steps.evaluations a w, v.txn = a.body.txn? ∧ v.step ∈ a.body.steps) ∧
      a.body.txn? = b.body.txn?
  invoke : ∀ steps : Meaning S σ, steps.invoke a = steps.invoke b

/-- Wherever two actions stand, they have one body if and only if they stem from one call;
then they are interchangeable. Each action stems from just one call, and actions from
different calls never have one body, even if the calls are made with the same steps on the
same transaction. -/
theorem sameBody_iff_stems {s : Stage S} (hs : s.Reachable) :
    (∃ made stems, Account made stems s) ∧
      (Equivalence fun a b : Action S => a.sameBody b = true) ∧
      ∀ made stems, Account made stems s →
        (∀ (i j : Nat) (a b : Action S), made[i]? = some a → made[j]? = some b →
          (a.sameBody b = true ↔ i = j)) ∧
        ∀ p a, s.at? p = some a →
          ((∃! i, stems p i) ∧ ∀ i, stems p i → made[i]? = some a) ∧
          ∀ q b, s.at? q = some b →
            (a.sameBody b = true ↔ ∃ i, stems p i ∧ stems q i) ∧
            (a.sameBody b = true → Interchangeable σ s a b) := by
  refine ⟨Account.exists_of_reachable hs, Action.equivalence_sameBody, ?_⟩
  intro made stems haccount
  have hsound := haccount.sound
  refine ⟨fun i j a b hi hj => hsound.sameBody_iff hi hj, fun p a hp => ?_⟩
  refine ⟨⟨hsound.existsUnique hp, fun i hi => hsound.copy p i a hi hp⟩, fun q b hq => ?_⟩
  refine ⟨hsound.sameBody_iff_exists hp hq, fun hsame => ?_⟩
  have hkey : a.key = b.key := of_decide_eq_true hsame
  have hhas := (s.has_iff_at? a).2 ⟨p, hp⟩
  have hhas' := (s.has_iff_at? b).2 ⟨q, hq⟩
  cases hs.eq_of_key_eq hhas hhas' hkey.symm
  exact ⟨rfl, fun _ _ => rfl, fun steps w => ⟨rfl, fun _ => steps.of_mem_evaluations, rfl⟩,
    fun _ => rfl⟩

/-- Two calls with the same step on the same handle. Copies of the first are cloned,
installed, read back and picked from the plan. -/
def twins : World Unit Unit :=
  Command.performAll (.ofPrograms (fun _ => .finish true) 1)
    [.openContext "c" none, .openTxn "c" "h", .bindStep "h" () "a", .bindStep "h" () "b",
      .cloneAction "a" "d", .install "h" ["b", "d"], .keepPlan "h" "p", .pickAction "p" 1 "e"]
    { memory := () }

theorem twins_sameBody_iff_stems :
    (twins.stage []).at? (.slot "a") = some ((Recipe.sequential ⟨0⟩ ()).make ⟨0⟩) ∧
      (twins.stage []).at? (.slot "b") = some ((Recipe.sequential ⟨0⟩ ()).make ⟨1⟩) ∧
      ∃ made stems, Account made stems (twins.stage []) ∧
        (∃ i, stems (.slot "a") i ∧ stems (.slot "e") i) ∧
        ¬ ∃ i, stems (.slot "a") i ∧ stems (.slot "b") i := by
  have hreach : (twins.stage []).Reachable := Command.reachable_performAll _ _ _ _
  obtain ⟨⟨made, stems, haccount⟩, -, hall⟩ := sameBody_iff_stems (σ := Unit) hreach
  obtain ⟨-, hplaces⟩ := hall made stems haccount
  obtain ⟨-, hfirst⟩ := hplaces (.slot "a") ((Recipe.sequential ⟨0⟩ ()).make ⟨0⟩) rfl
  refine ⟨rfl, rfl, made, stems, haccount, ?_, ?_⟩
  · exact (hfirst (.slot "e") ((Recipe.sequential ⟨0⟩ ()).make ⟨0⟩) rfl).1.1 rfl
  · rw [← (hfirst (.slot "b") ((Recipe.sequential ⟨0⟩ ()).make ⟨1⟩) rfl).1]
    decide

end TxnAssembly
