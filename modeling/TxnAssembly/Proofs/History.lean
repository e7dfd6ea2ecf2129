import TxnAssembly.Builder

/-!
# Histories of a builder

A history is what was done around one builder, from its making on: its own calls and,
by whoever has a handle of its transaction, installations and the making of actions.
Phase, sequence and plan are read off the history: the sequence from the most recent
start, the plan from the most recent installation.
-/
namespace TxnAssembly

variable {S : Type}

/-- The call begins an empty sequence. -/
def Call.isStart (c : Call S) : Bool :=
  match c with
  | startBuild => true
  | startBuildWith _ => true
  | append _ => false
  | appendChoice _ _ => false
  | finalize => false

/-- What the action of a call is made from, if the call makes one. -/
def Call.recipe? (c : Call S) (t : TxnKey) : Option (Recipe S) :=
  match c with
  | startBuild => none
  | startBuildWith step => some (.sequential t step)
  | append step => some (.sequential t step)
  | appendChoice primary fallback => some (.choice t primary fallback)
  | finalize => none

/-- The phase that a call ends in. -/
def Call.phaseAfter (c : Call S) : Phase :=
  match c with
  | finalize => .finalized
  | _ => .building

/-- One thing done around a builder. -/
inductive Deed (S : Type) where
  | call (c : Call S)
  /-- Somebody installs a list of actions of whatever origin. -/
  | install (actions : List (Action S))
  /-- Somebody else makes an action. -/
  | make (x : Recipe S)

namespace Deed

def isStart (d : Deed S) : Bool :=
  match d with
  | call c => c.isStart
  | install _ => false
  | make _ => false

/-- The deed adds an action to the sequence. -/
def isAddition (d : Deed S) : Bool :=
  match d with
  | call (.startBuildWith _) => true
  | call (.append _) => true
  | call (.appendChoice _ _) => true
  | _ => false

/-- The deed replaces the plan of the transaction. -/
def isInstallation (d : Deed S) : Bool :=
  match d with
  | call .finalize => true
  | install _ => true
  | _ => false

/-- What the deed leads to, unless it is a call that is refused. -/
def perform? (d : Deed S) (b : Builder S) (e : Engine S) : Option (Builder S × Engine S) :=
  match d with
  | call c =>
    match b.call c e with
    | (.ok b, e) => some (b, e)
    | (.error _, _) => none
  | install actions => some (b, e.install b.txn actions)
  | make x => some (b, (e.newAction x).2)

/-- The action that the deed makes and adds to the sequence. -/
def added? (d : Deed S) (b : Builder S) (e : Engine S) : Option (Action S) :=
  match d with
  | call c => (c.recipe? b.txn).map fun x => (e.newAction x).1
  | install _ => none
  | make _ => none

/-- The list that the deed installs. -/
def installed? (d : Deed S) (b : Builder S) : Option (List (Action S)) :=
  match d with
  | call .finalize => b.sequence
  | call _ => none
  | install actions => some actions
  | make _ => none

end Deed

/-- A deed together with the action it added and the list it installed. -/
structure Entry (S : Type) where
  deed : Deed S
  added? : Option (Action S)
  installed? : Option (List (Action S))

/-- The entry of a deed that is done where a builder and the engine stand. -/
def Deed.entry (d : Deed S) (b : Builder S) (e : Engine S) : Entry S :=
  ⟨d, d.added? b e, d.installed? b⟩

/-- Where the deeds of a list of entries have led to since the builder was made. -/
inductive History (config : Config) (c : ContextKey) (e₀ : Engine S) :
    List (Entry S) → Builder S → Engine S → Prop where
  | create : History config c e₀ []
      (Builder.create config c e₀).1 (Builder.create config c e₀).2
  | record {entries : List (Entry S)} {b b' : Builder S} {e e' : Engine S} {d : Deed S}
      (h : History config c e₀ entries b e) (hd : d.perform? b e = some (b', e')) :
      History config c e₀ (entries ++ [d.entry b e]) b' e'

namespace Builder

variable {b b' : Builder S} {e e' : Engine S} {c : Call S}

theorem openSequence_eq_ok (h : b.openSequence e = (.ok b', e')) :
    b' = { b with sequence := some [], phase := .building } ∧
      e' = e.emit (.buildStarted b.config.label) := by
  unfold openSequence at h
  split at h
  · cases h
    exact ⟨rfl, rfl⟩
  · cases h

theorem startBuild_eq_ok (h : b.startBuild e = (.ok b', e')) :
    b' = { b with sequence := some [], phase := .building } ∧
      e'.txns = e.txns ∧ e'.nextBody = e.nextBody := by
  unfold startBuild at h
  split at h
  · obtain ⟨hb, rfl⟩ := openSequence_eq_ok h
    exact ⟨hb, rfl, rfl⟩
  · split at h
    · cases h
    · obtain ⟨hb, rfl⟩ := openSequence_eq_ok h
      exact ⟨hb, rfl, rfl⟩

theorem push_eq_ok {operation : String} {x : Recipe S}
    (h : b.push operation x e = (.ok b', e')) :
    ∃ actions, b.sequence = some actions ∧
      b' = { b with sequence := some (actions ++ [(e.newAction x).1]), phase := .building } ∧
      e'.txns = e.txns ∧ e'.nextBody = e.nextBody + 1 := by
  unfold push at h
  split at h
  · cases h
  · next actions hactions =>
    cases h
    exact ⟨actions, hactions, rfl, rfl, rfl⟩

theorem finalize_eq_ok (h : b.finalize e = (.ok b', e')) :
    ∃ actions, b.sequence = some actions ∧ b' = { b with phase := .finalized } ∧
      e' = (e.emit (.finalizing b.config.label actions.length)).install b.txn actions := by
  unfold finalize at h
  split at h
  · cases h
  · next actions hactions =>
    cases h
    exact ⟨actions, hactions, rfl, rfl⟩

/-- What a call that is not refused does to its builder: a start clears the sequence,
and whatever action the call makes is put at its end. -/
theorem call_eq_ok (h : b.call c e = (.ok b', e')) :
    (c.isStart = false → b.sequence ≠ none) ∧
      b' = { b with
        sequence := some ((if c.isStart then [] else b.actions) ++
          ((Deed.call c).added? b e).toList)
        phase := c.phaseAfter } := by
  cases c with
  | startBuild =>
    obtain ⟨rfl, _, _⟩ := startBuild_eq_ok h
    exact ⟨nofun, rfl⟩
  | startBuildWith step =>
    simp only [call, startBuildWith] at h
    split at h
    · next b₁ e₁ hstart =>
      obtain ⟨rfl, _, hnext⟩ := startBuild_eq_ok hstart
      obtain ⟨actions, hactions, rfl, _⟩ := push_eq_ok h
      cases hactions
      exact ⟨nofun, by simp [Call.isStart, Call.phaseAfter, Deed.added?, Call.recipe?,
        Engine.newAction, hnext]⟩
    · cases h
  | append step | appendChoice primary fallback =>
    obtain ⟨actions, hactions, rfl, _⟩ := push_eq_ok h
    simp [Call.isStart, Call.phaseAfter, Deed.added?, Call.recipe?, Builder.actions, hactions]
  | finalize =>
    obtain ⟨actions, hactions, rfl, _⟩ := finalize_eq_ok h
    simp [Call.isStart, Call.phaseAfter, Deed.added?, Call.recipe?, Builder.actions, hactions]

/-- Only finalizing changes a plan. -/
theorem plan?_of_call_eq_ok (h : b.call c e = (.ok b', e'))
    (ht : b.txn.index < e.txns.size) :
    e'.txns.size = e.txns.size ∧
      e'.plan? b.txn = ((Deed.call c).installed? b).or (e.plan? b.txn) := by
  have hkeep : c.phaseAfter ≠ .finalized → e'.txns = e.txns := by
    intro hc
    cases c with
    | startBuild => exact (startBuild_eq_ok h).2.1
    | startBuildWith step =>
      simp only [call, startBuildWith] at h
      split at h
      · next b₁ e₁ hstart =>
        obtain ⟨_, _, _, htxns, _⟩ := push_eq_ok h
        exact htxns.trans (startBuild_eq_ok hstart).2.1
      · cases h
    | append step | appendChoice primary fallback =>
      obtain ⟨_, _, _, htxns, _⟩ := push_eq_ok h
      exact htxns
    | finalize => exact absurd rfl hc
  cases c with
  | startBuild | startBuildWith | append | appendChoice =>
    have htxns := hkeep (by simp [Call.phaseAfter])
    simp [Engine.plan?, Engine.txn?, Deed.installed?, htxns]
  | finalize =>
    obtain ⟨actions, hactions, _, rfl⟩ := finalize_eq_ok h
    constructor
    · simp [Engine.install, Engine.emit]
    · simp [Engine.plan?_install, Deed.installed?, hactions, Engine.txn?, Engine.emit, ht]

/-- Every action that a call makes takes the next key. -/
theorem nextBody_of_call_eq_ok (h : b.call c e = (.ok b', e')) :
    e'.nextBody = e.nextBody + ((Deed.call c).added? b e).toList.length := by
  cases c with
  | startBuild => exact (startBuild_eq_ok h).2.2
  | startBuildWith step =>
    simp only [call, startBuildWith] at h
    split at h
    · next b₁ e₁ hstart =>
      obtain ⟨_, _, _, _, hnext⟩ := push_eq_ok h
      rw [hnext, (startBuild_eq_ok hstart).2.2]
      rfl
    · cases h
  | append step | appendChoice primary fallback =>
    obtain ⟨_, _, _, _, hnext⟩ := push_eq_ok h
    exact hnext
  | finalize =>
    obtain ⟨_, _, _, rfl⟩ := finalize_eq_ok h
    rfl

end Builder

namespace Deed

variable {b b' : Builder S} {e e' : Engine S} {d : Deed S}

theorem call_of_perform? {c : Call S} (h : (call c).perform? b e = some (b', e')) :
    b.call c e = (.ok b', e') := by
  simp only [perform?] at h
  split at h
  · next hcall =>
    cases h
    exact hcall
  · cases h

/-- A deed leaves the builder with its transaction and its configuration. -/
theorem txn_of_perform? (h : d.perform? b e = some (b', e')) :
    b'.txn = b.txn ∧ b'.config = b.config := by
  cases d with
  | call c =>
    obtain ⟨_, rfl⟩ := Builder.call_eq_ok (call_of_perform? h)
    exact ⟨rfl, rfl⟩
  | install actions | make x =>
    cases h
    exact ⟨rfl, rfl⟩

/-- No call leads back to the first phase, and after every call there is a sequence. -/
theorem phase_of_perform? (h : d.perform? b e = some (b', e'))
    (hb : b.phase = .unbuilt ↔ b.sequence = none) :
    b'.phase = .unbuilt ↔ b'.sequence = none := by
  cases d with
  | call c =>
    obtain ⟨_, rfl⟩ := Builder.call_eq_ok (call_of_perform? h)
    cases c <;> simp [Call.phaseAfter]
  | install actions | make x =>
    cases h
    exact hb

/-- A start begins a sequence anew. -/
theorem sequence_of_start (h : d.perform? b e = some (b', e')) (hd : d.isStart = true) :
    b'.sequence = some (d.added? b e).toList := by
  cases d with
  | call c =>
    have hstart : c.isStart = true := hd
    obtain ⟨_, rfl⟩ := Builder.call_eq_ok (call_of_perform? h)
    simp [hstart]
  | install actions | make x => cases hd

/-- Any other deed adds at most one action to the sequence there is. -/
theorem sequence_of_not_start (h : d.perform? b e = some (b', e')) (hd : d.isStart = false) :
    b'.sequence = b.sequence.map (· ++ (d.added? b e).toList) := by
  cases d with
  | call c =>
    have hstart : c.isStart = false := hd
    obtain ⟨hsequence, rfl⟩ := Builder.call_eq_ok (call_of_perform? h)
    obtain ⟨actions, hactions⟩ := Option.ne_none_iff_exists'.1 (hsequence hstart)
    simp [hstart, hactions, Builder.actions]
  | install actions | make x =>
    cases h
    simp [added?]

/-- The plan becomes what the deed installs, if it installs anything. -/
theorem plan_of_perform? (h : d.perform? b e = some (b', e'))
    (ht : b.txn.index < e.txns.size) :
    e'.txns.size = e.txns.size ∧
      e'.plan? b.txn = (d.installed? b).or (e.plan? b.txn) := by
  cases d with
  | call c => exact Builder.plan?_of_call_eq_ok (call_of_perform? h) ht
  | install actions =>
    cases h
    constructor
    · simp [Engine.install, Engine.emit]
    · simp [Engine.plan?_install, installed?, Engine.txn?, ht]
  | make x =>
    cases h
    exact ⟨rfl, rfl⟩

theorem nextBody_of_perform? (h : d.perform? b e = some (b', e')) :
    e.nextBody + (d.added? b e).toList.length ≤ e'.nextBody := by
  cases d with
  | call c => exact Nat.le_of_eq (Builder.nextBody_of_call_eq_ok (call_of_perform? h)).symm
  | install actions =>
    cases h
    exact Nat.le_refl _
  | make x =>
    cases h
    exact Nat.le_succ _

theorem key_of_added? {a : Action S} (h : d.added? b e = some a) :
    a.key = ⟨e.nextBody⟩ := by
  cases d with
  | call c =>
    obtain ⟨x, _, rfl⟩ := Option.map_eq_some_iff.1 h
    exact x.key_make _
  | install actions | make x => cases h

theorem isSome_added? : (d.added? b e).isSome = d.isAddition := by
  cases d with
  | call c => cases c <;> rfl
  | install actions | make x => rfl

theorem isSome_installed? (h : d.perform? b e = some (b', e')) :
    (d.installed? b).isSome = d.isInstallation := by
  cases d with
  | call c =>
    cases c with
    | finalize =>
      obtain ⟨actions, hactions, _⟩ := Builder.finalize_eq_ok (call_of_perform? h)
      simp [installed?, isInstallation, hactions]
    | startBuild | startBuildWith step | append step | appendChoice primary fallback => rfl
  | install actions | make x => rfl

theorem installed?_eq_none_iff (h : d.perform? b e = some (b', e')) :
    d.installed? b = none ↔ d.isInstallation = false := by
  rw [← isSome_installed? h, ← Option.not_isSome_iff_eq_none, Bool.not_eq_true]

@[simp] theorem filterMap_entry (d : Deed S) (b : Builder S) (e : Engine S) :
    [d.entry b e].filterMap Entry.added? = (d.added? b e).toList := by
  cases h : d.added? b e <;> simp [entry, h]

end Deed

/-- The last of some entries is the one put at their end, or it is not and what is
before and after it stays. -/
theorem concat_eq_append_cons {α : Type} {l before after : List α} {x y : α}
    (h : l ++ [y] = before ++ x :: after) :
    (l = before ∧ y = x ∧ after = []) ∨ ∃ rest, after = rest ++ [y] ∧ l = before ++ x :: rest := by
  obtain rfl | ⟨rest, z, rfl⟩ := List.eq_nil_or_concat after
  · obtain ⟨rfl, hxy⟩ := List.append_inj' h rfl
    cases hxy
    exact .inl ⟨rfl, rfl, rfl⟩
  · have h' : l ++ [y] = (before ++ x :: rest) ++ [z] := by simpa using h
    obtain ⟨rfl, hyz⟩ := List.append_inj' h' rfl
    cases hyz
    exact .inr ⟨rest, by simp, rfl⟩

namespace History

variable {config : Config} {c : ContextKey} {e₀ e : Engine S} {entries : List (Entry S)}
  {b : Builder S}

/-- Each entry tells what its deed did where the entries before it had led to. -/
theorem exists_before (h : History config c e₀ entries b e) {before after : List (Entry S)}
    {x : Entry S} (hx : entries = before ++ x :: after) :
    ∃ b₁ e₁, History config c e₀ before b₁ e₁ ∧ x = x.deed.entry b₁ e₁ := by
  induction h generalizing after with
  | create => simp at hx
  | record h hd ih =>
    obtain ⟨rfl, rfl, rfl⟩ | ⟨rest, rfl, hrest⟩ := concat_eq_append_cons hx
    · exact ⟨_, _, h, rfl⟩
    · exact ih hrest

theorem txn_eq (h : History config c e₀ entries b e) :
    b.txn = ⟨e₀.txns.size⟩ ∧ b.config = config ∧ b.txn.index < e.txns.size := by
  induction h with
  | create => exact ⟨rfl, rfl, by simp [Builder.create, Engine.openTxn, Engine.takeTxnId,
      Engine.emit, Engine.hold]⟩
  | record h hd ih =>
    obtain ⟨htxn, hconfig⟩ := Deed.txn_of_perform? hd
    obtain ⟨hsize, _⟩ := Deed.plan_of_perform? hd ih.2.2
    rw [htxn, hconfig, hsize]
    exact ih

/-- A builder is in its first phase exactly as long as it has no sequence. -/
theorem phase_eq_unbuilt_iff (h : History config c e₀ entries b e) :
    b.phase = .unbuilt ↔ b.sequence = none := by
  induction h with
  | create => exact ⟨fun _ => rfl, fun _ => rfl⟩
  | record h hd ih => exact Deed.phase_of_perform? hd ih

theorem sequence_eq_none_iff (h : History config c e₀ entries b e) :
    b.sequence = none ↔ ∀ x ∈ entries, x.deed.isStart = false := by
  induction h with
  | create => exact ⟨nofun, fun _ => rfl⟩
  | @record entries b b' e e' d h hd ih =>
    cases hstart : d.isStart with
    | true => simp [Deed.sequence_of_start hd hstart, Deed.entry, hstart]
    | false =>
      rw [Deed.sequence_of_not_start hd hstart, Option.map_eq_none_iff, ih]
      simp [Deed.entry, hstart, or_imp, forall_and]

/-- Since the most recent start the sequence has got what the deeds added, that of the
start included, and it has nothing from before. -/
theorem sequence_eq_some (h : History config c e₀ entries b e) {before after : List (Entry S)}
    {x : Entry S} (hx : entries = before ++ x :: after) (hstart : x.deed.isStart = true)
    (hafter : ∀ y ∈ after, y.deed.isStart = false) :
    b.sequence = some ((x :: after).filterMap Entry.added?) := by
  induction h generalizing after with
  | create => simp at hx
  | record h hd ih =>
    obtain ⟨rfl, rfl, rfl⟩ | ⟨rest, rfl, hrest⟩ := concat_eq_append_cons hx
    · rw [Deed.sequence_of_start hd hstart, Deed.filterMap_entry]
    · have hlast := hafter _ (List.mem_append_right _ (List.mem_singleton_self _))
      have hsequence := ih hrest fun y hy => hafter y (List.mem_append_left _ hy)
      rw [Deed.sequence_of_not_start hd hlast, hsequence, ← List.cons_append,
        List.filterMap_append, Deed.filterMap_entry]
      rfl

theorem plan?_eq_none_iff (h : History config c e₀ entries b e) :
    e.plan? b.txn = none ↔ ∀ x ∈ entries, x.deed.isInstallation = false := by
  induction h with
  | create => simp [Builder.create, Engine.openTxn, Engine.takeTxnId, Engine.emit, Engine.hold,
      Engine.plan?, Engine.txn?]
  | @record entries b b' e e' d h hd ih =>
    rw [(Deed.txn_of_perform? hd).1, (Deed.plan_of_perform? hd h.txn_eq.2.2).2,
      Option.or_eq_none_iff, ih, Deed.installed?_eq_none_iff hd]
    simp [Deed.entry, or_imp, forall_and, and_comm]

/-- The plan is what the most recent installation installed. -/
theorem plan?_eq (h : History config c e₀ entries b e) {before after : List (Entry S)}
    {x : Entry S} (hx : entries = before ++ x :: after) (hinstall : x.deed.isInstallation = true)
    (hafter : ∀ y ∈ after, y.deed.isInstallation = false) :
    x.installed?.isSome ∧ e.plan? b.txn = x.installed? := by
  induction h generalizing after with
  | create => simp at hx
  | record h hd ih =>
    rw [(Deed.txn_of_perform? hd).1, (Deed.plan_of_perform? hd h.txn_eq.2.2).2]
    obtain ⟨rfl, rfl, rfl⟩ | ⟨rest, rfl, hrest⟩ := concat_eq_append_cons hx
    · have hsome := (Deed.isSome_installed? hd).trans hinstall
      exact ⟨hsome, Option.or_of_isSome hsome⟩
    · have hlast := hafter _ (List.mem_append_right _ (List.mem_singleton_self _))
      have hplan := ih hrest fun y hy => hafter y (List.mem_append_left _ hy)
      rw [(Deed.installed?_eq_none_iff hd).2 hlast]
      exact hplan

theorem length_filterMap_added? (h : History config c e₀ entries b e)
    {before after : List (Entry S)} {x : Entry S} (hx : entries = before ++ x :: after) :
    ((x :: after).filterMap Entry.added?).length = (x :: after).countP (·.deed.isAddition) := by
  rw [List.length_filterMap_eq_countP]
  refine List.countP_congr fun y hy => ?_
  have hmem : y ∈ entries := hx ▸ List.mem_append_right _ hy
  obtain ⟨before', after', hy⟩ := List.append_of_mem hmem
  obtain ⟨b₁, e₁, _, heq⟩ := h.exists_before hy
  rw [heq]
  exact iff_of_eq (congrArg (· = true) Deed.isSome_added?)

/-- The actions that were added have keys that grow, so no two of them are copies of
one. -/
theorem pairwise_key_lt (h : History config c e₀ entries b e) :
    (entries.filterMap Entry.added?).Pairwise (fun a₁ a₂ => a₁.key.index < a₂.key.index) ∧
      ∀ a ∈ entries.filterMap Entry.added?, a.key.index < e.nextBody := by
  induction h with
  | create => exact ⟨.nil, nofun⟩
  | @record entries b b' e e' d h hd ih =>
    obtain ⟨hpairwise, hlt⟩ := ih
    have hnext := Deed.nextBody_of_perform? hd
    rw [List.filterMap_append, Deed.filterMap_entry]
    cases hadded : d.added? b e with
    | none =>
      simp only [Option.toList_none, List.append_nil]
      exact ⟨hpairwise, fun a ha => Nat.lt_of_lt_of_le (hlt a ha) (Nat.le_of_add_right_le hnext)⟩
    | some a =>
      have hkey := Deed.key_of_added? hadded
      rw [hadded] at hnext
      simp only [Option.toList_some, List.length_singleton] at hnext ⊢
      constructor
      · rw [List.pairwise_append]
        refine ⟨hpairwise, List.pairwise_singleton _ _, fun a₁ ha₁ a₂ ha₂ => ?_⟩
        rw [List.mem_singleton.1 ha₂, hkey]
        exact hlt a₁ ha₁
      · intro a₁ ha₁
        obtain ha₁ | ha₁ := List.mem_append.1 ha₁
        · exact Nat.lt_of_lt_of_le (hlt a₁ ha₁) (Nat.le_of_succ_le hnext)
        · rw [List.mem_singleton.1 ha₁, hkey]
          exact hnext

/-- Phase, sequence and plan agree with the history, whatever the builder was asked
to do and whatever was installed on its transaction meanwhile. -/
theorem phase_sequence_plan (h : History config c e₀ entries b e) :
    (b.txn = ⟨e₀.txns.size⟩ ∧ b.config = config) ∧
    (∀ before x after, entries = before ++ x :: after →
      ∃ b₁ e₁, History config c e₀ before b₁ e₁ ∧ x = x.deed.entry b₁ e₁) ∧
    (b.phase = .unbuilt ↔ b.sequence = none) ∧
    (b.sequence = none ↔ ∀ x ∈ entries, x.deed.isStart = false) ∧
    (∀ before x after, entries = before ++ x :: after → x.deed.isStart = true →
      (∀ y ∈ after, y.deed.isStart = false) →
        b.sequence = some ((x :: after).filterMap Entry.added?) ∧
          b.length = (x :: after).countP (·.deed.isAddition) ∧
          b.actions.Pairwise (fun a₁ a₂ => a₁.sameBody a₂ = false)) ∧
    (e.plan? b.txn = none ↔ ∀ x ∈ entries, x.deed.isInstallation = false) ∧
    (∀ before x after, entries = before ++ x :: after → x.deed.isInstallation = true →
      (∀ y ∈ after, y.deed.isInstallation = false) →
        ∃ actions, x.installed? = some actions ∧ e.plan? b.txn = some actions) := by
  obtain ⟨htxn, hconfig, _⟩ := h.txn_eq
  refine ⟨⟨htxn, hconfig⟩, fun _ _ _ => h.exists_before, h.phase_eq_unbuilt_iff,
    h.sequence_eq_none_iff, ?_, h.plan?_eq_none_iff, ?_⟩
  · intro before x after hx hstart hafter
    have hsequence := h.sequence_eq_some hx hstart hafter
    have hactions : b.actions = (x :: after).filterMap Entry.added? := by
      rw [Builder.actions, hsequence, Option.getD_some]
    refine ⟨hsequence, ?_, ?_⟩
    · rw [Builder.length, hactions, h.length_filterMap_added? hx]
    · obtain ⟨hpairwise, _⟩ := h.pairwise_key_lt
      rw [hx, List.filterMap_append, List.pairwise_append] at hpairwise
      rw [hactions]
      refine hpairwise.2.1.imp fun {a₁ a₂} hlt => ?_
      simp only [Action.sameBody, decide_eq_false_iff_not]
      intro heq
      exact absurd (congrArg BodyKey.index heq) (Nat.ne_of_lt hlt)
  · intro before x after hx hinstall hafter
    obtain ⟨hsome, hplan⟩ := h.plan?_eq hx hinstall hafter
    obtain ⟨actions, hactions⟩ := Option.isSome_iff_exists.1 hsome
    exact ⟨actions, hactions, hplan.trans hactions⟩

/-- A builder that is finalized and then starts over, with an outside installation
before and an action made elsewhere after that. -/
theorem restarted_phase_sequence_plan :
    ∃ (entries : List (Entry Nat)) (b : Builder Nat) (e : Engine Nat),
      History { restartPolicy := .restart } ⟨0⟩ {} entries b e ∧
        b.phase ≠ .unbuilt ∧
        b.sequence =
          some [(Recipe.sequential ⟨0⟩ 7).make ⟨3⟩, (Recipe.choice ⟨0⟩ 8 9).make ⟨4⟩] ∧
        b.length = 2 ∧
        e.plan? b.txn =
          some [(Recipe.sequential ⟨0⟩ 5).make ⟨0⟩, (Recipe.sequential ⟨0⟩ 6).make ⟨1⟩] := by
  have h₁ : History (S := Nat) { restartPolicy := .restart } ⟨0⟩ {} [] _ _ := create
  have h₂ := h₁.record (d := .install []) rfl
  have h₃ := h₂.record (d := .call (.startBuildWith 5)) rfl
  have h₄ := h₃.record (d := .call (.append 6)) rfl
  have h₅ := h₄.record (d := .call .finalize) rfl
  have h₆ := h₅.record (d := .make (.sequential ⟨0⟩ 4)) rfl
  have h₇ := h₆.record (d := .call (.startBuildWith 7)) rfl
  have h₈ := h₇.record (d := .call (.appendChoice 8 9)) rfl
  obtain ⟨_, _, hphase, _, hsequence, _, hplan⟩ := phase_sequence_plan h₈
  obtain ⟨hcollected, hlength, _⟩ := hsequence [_, _, _, _, _] _ [_] rfl rfl
    (by simp [Deed.entry, Deed.isStart, Call.isStart])
  obtain ⟨actions, hactions, hinstalled⟩ := hplan [_, _, _] _ [_, _, _] rfl rfl
    (by simp [Deed.entry, Deed.isInstallation])
  refine ⟨_, _, _, h₈, ?_, hcollected, hlength, ?_⟩
  · rw [Ne, hphase, hcollected]
    nofun
  · rw [hinstalled, ← hactions]
    rfl

end History

end TxnAssembly
