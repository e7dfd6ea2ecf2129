import TxnAssembly.Proofs.Binding
import TxnAssembly.Proofs.Documents
import TxnAssembly.Proofs.Refusals

/-!
# Room for the sequence of a builder

The capacity hint of a configuration is taken as it is, and a start allocates that much. So a
start does not only succeed or find the build started already: with a hint that nothing could
be allocated for it panics. This can only be the first start of a builder, since after one that
has succeeded there has been room.
-/
namespace TxnAssembly

variable {S σ : Type}

namespace Config

theorem isAllocatable_iff (c : Config) :
    c.isAllocatable = true ↔ c.capacityHint.toNat * actionBytes < Nat.pow 2 63 := by
  simp [isAllocatable]

theorem isAllocatable_eq_false_iff (c : Config) :
    c.isAllocatable = false ↔ Nat.pow 2 63 ≤ c.capacityHint.toNat * actionBytes := by
  rw [← Bool.not_eq_true, isAllocatable_iff, Nat.not_lt]

end Config

namespace Builder

variable {b b' : Builder S} {e e' : Engine S} {c : Call S} {why : Refusal}

/-- The builder at the beginning of a build, with its first action if there is one already. -/
def afresh (b : Builder S) (first : Option (Action S)) : Builder S :=
  { b with sequence := some first.toList, phase := .building }

theorem phaseAfter_of_isStart (hc : c.isStart = true) : c.phaseAfter = .building := by
  cases c with
  | startBuild | startBuildWith step => rfl
  | append step | appendChoice primary fallback | finalize => cases hc

/-- A start is refused as a start without a step is. -/
theorem start_eq_error_iff (hc : c.isStart = true) :
    b.call c e = (.error why, e') ↔ b.startBuild e = (.error why, e') := by
  cases c with
  | startBuild => exact Iff.rfl
  | startBuildWith step => exact startBuildWith_eq_error_iff
  | append step | appendChoice primary fallback | finalize => cases hc

theorem openSequence_of_not_isAllocatable (hconfig : b.config.isAllocatable = false)
    (e : Engine S) : b.openSequence e = (.error .capacityOverflow, e.release b.txn) := by
  rw [openSequence, hconfig]
  rfl

theorem exists_startBuild_eq_error (hconfig : b.config.isAllocatable = false) (e : Engine S) :
    ∃ why e', b.startBuild e = (.error why, e') := by
  rw [startBuild]
  cases b.sequence with
  | none => exact ⟨_, _, openSequence_of_not_isAllocatable hconfig e⟩
  | some actions =>
    cases b.config.restartPolicy with
    | reject => exact ⟨_, _, rfl⟩
    | restart => exact ⟨_, _, openSequence_of_not_isAllocatable hconfig _⟩

/-- Only where there is room a build is started. -/
theorem isAllocatable_of_start (hc : c.isStart = true) (h : b.call c e = (.ok b', e')) :
    b.config.isAllocatable = true := by
  cases hconfig : b.config.isAllocatable with
  | true => rfl
  | false =>
    obtain ⟨why, e₁, herror⟩ := exists_startBuild_eq_error hconfig e
    rw [(start_eq_error_iff hc).2 herror] at h
    cases h

/-- The first start finds out whether there is room. -/
theorem start_of_sequence_eq_none (hc : c.isStart = true) (hsequence : b.sequence = none)
    (hconfig : b.config.isAllocatable = false) :
    b.call c e = (.error .capacityOverflow, e.release b.txn) := by
  rw [start_eq_error_iff hc, startBuild, hsequence]
  exact openSequence_of_not_isAllocatable hconfig e

theorem start_of_reject (hc : c.isStart = true) (hsequence : b.sequence ≠ none)
    (hpolicy : b.config.restartPolicy = .reject) :
    b.call c e = (.error (.misuse (.alreadyStarted b.phase)), e.release b.txn) := by
  obtain ⟨actions, hactions⟩ := Option.ne_none_iff_exists'.1 hsequence
  rw [start_eq_error_iff hc, startBuild, hactions]
  dsimp only
  rw [hpolicy]
  rfl

/-- There is no third reason to refuse a start. -/
theorem exists_start_eq_ok (hc : c.isStart = true) (hconfig : b.config.isAllocatable = true)
    (hallowed : ¬ (b.sequence ≠ none ∧ b.config.restartPolicy = .reject)) (e : Engine S) :
    ∃ e', b.call c e = (.ok (b.afresh ((Deed.call c).added? b e)), e') := by
  rcases h : b.call c e with ⟨why | b', e'⟩
  · obtain ⟨hreject, -, -⟩ := (startBuild_eq_error_iff hconfig).1 ((start_eq_error_iff hc).1 h)
    exact absurd hreject hallowed
  · obtain ⟨-, rfl⟩ := call_eq_ok h
    rw [hc, phaseAfter_of_isStart hc]
    exact ⟨e', rfl⟩

namespace Becomes

variable {s₀ s : Stage S} {b₀ b : Builder S}

theorem config_eq (h : b₀.Becomes s₀ s b) : b.config = b₀.config := by
  induction h with
  | refl => rfl
  | aside h hmoves hb ih => exact ih
  | call c h hcall ih =>
    obtain ⟨-, rfl⟩ := call_eq_ok hcall
    exact ih

/-- A builder that has got a sequence has found room for it. -/
theorem isAllocatable (h : b₀.Becomes s₀ s b) (h₀ : b₀.sequence = none)
    (hb : b.sequence ≠ none) : b.config.isAllocatable = true := by
  induction h with
  | refl => exact absurd h₀ hb
  | aside h hmoves hmem ih => exact ih hb
  | @call H e e' s b b' c h hcall ih =>
    -- A start has found room itself; any other call needs a sequence, for which there was room.
    have hroom : b.config.isAllocatable = true := by
      cases hc : c.isStart with
      | true => exact isAllocatable_of_start hc hcall
      | false => exact ih ((call_eq_ok hcall).1 hc)
    obtain ⟨-, rfl⟩ := call_eq_ok hcall
    exact hroom

end Becomes

end Builder

namespace Command

/-- A call that hands its builder back is answered. -/
theorem exists_perform_build_eq_ok {w : World S σ} {name : String} {b b' : Builder S}
    (hb : w.shelf.builders.get? name = some b) {c : Call S} {e' : Engine S}
    (hcall : b.call c w.engine = (.ok b', e')) (steps : Meaning S σ) :
    ∃ answer, (perform steps (.build name c) w).1 = .ok answer := by
  have hengine : b.call c (w.takeBuilder name).engine = (.ok b', e') := hcall
  simp only [perform, callBuilder, Run.bind_apply, find_apply, hb, Run.change_apply,
    Run.onEngine_apply, hengine]
  exact ⟨_, rfl⟩

/-- A call panics as a command if there is no room for the sequence, and for no other reason. -/
theorem perform_build_panics_iff {w : World S σ} {name : String} {b : Builder S}
    (hb : w.shelf.builders.get? name = some b) (c : Call S) (steps : Meaning S σ) :
    (∃ text, (perform steps (.build name c) w).1 = .error (.failure (.panic text))) ↔
      ∃ e', b.call c w.engine = (.error .capacityOverflow, e') := by
  rcases hcall : b.call c w.engine with ⟨why | b', e'⟩
  · rw [perform_build_of_refused hb hcall steps]
    cases why <;> simp [refused]
  · obtain ⟨answer, hanswer⟩ := exists_perform_build_eq_ok hb hcall steps
    simp [hanswer]

end Command

/-- Of a start of a builder that has been made with any configuration, at any later time. If
the configured capacity takes more bytes than can be allocated, the builder has no sequence yet
and the start panics; it takes the builder away, and its reference, and does nothing else. If
not, the start is refused exactly if there is a sequence already and the policy does not allow
to start over; otherwise the builder comes back with a new sequence. As a command the start
panics exactly if the capacity is too large. -/
theorem start_of_capacity {s : Stage S} {c : ContextKey} (config : Config) {s₁ : Stage S}
    {b₁ : Builder S}
    (hb : (Builder.create config c s.engine).1.Becomes
      ⟨.builder (Builder.create config c s.engine).1 :: s.hands,
        (Builder.create config c s.engine).2, s.shelf⟩ s₁ b₁)
    {call : Call S} (hstart : call.isStart = true) :
    let bytes := config.capacityHint.toNat * Config.actionBytes
    let barred := b₁.sequence ≠ none ∧ config.restartPolicy = .reject
    (Nat.pow 2 63 ≤ bytes → b₁.sequence = none ∧
      b₁.call call s₁.engine = (.error .capacityOverflow, s₁.engine.release b₁.txn)) ∧
    (bytes < Nat.pow 2 63 →
      (barred → b₁.call call s₁.engine =
        (.error (.misuse (.alreadyStarted b₁.phase)), s₁.engine.release b₁.txn)) ∧
      (¬ barred → ∃ e₂, b₁.call call s₁.engine =
        (.ok (b₁.afresh ((Deed.call call).added? b₁ s₁.engine)), e₂))) ∧
    ∀ (w : World S σ) (H : List (Hand S)) (name : String) (steps : Meaning S σ),
      w.stage H = s₁ → w.shelf.builders.get? name = some b₁ →
        ((∃ text, (Command.perform steps (.build name call) w).1 =
          .error (.failure (.panic text))) ↔ Nat.pow 2 63 ≤ bytes) ∧
        (Nat.pow 2 63 ≤ bytes → Command.perform steps (.build name call) w =
          (.error (.failure (.panic "capacity overflow")),
            { w with
              engine := w.engine.release b₁.txn
              shelf := { w.shelf with builders := w.shelf.builders.erase name } })) := by
  intro bytes barred
  have hconfig : b₁.config = config := hb.config_eq
  have hover (hbytes : Nat.pow 2 63 ≤ bytes) : b₁.sequence = none ∧
      b₁.call call s₁.engine = (.error .capacityOverflow, s₁.engine.release b₁.txn) := by
    have hroom : b₁.config.isAllocatable = false := by
      rw [hconfig]
      exact config.isAllocatable_eq_false_iff.2 hbytes
    have hsequence : b₁.sequence = none := by
      by_contra hsome
      exact Bool.false_ne_true (hroom.symm.trans (hb.isAllocatable rfl hsome))
    exact ⟨hsequence, Builder.start_of_sequence_eq_none hstart hsequence hroom⟩
  have hreject (h : barred) : b₁.call call s₁.engine =
      (.error (.misuse (.alreadyStarted b₁.phase)), s₁.engine.release b₁.txn) :=
    Builder.start_of_reject hstart h.1 (hconfig ▸ h.2)
  have hok (hbytes : bytes < Nat.pow 2 63) (h : ¬ barred) : ∃ e₂, b₁.call call s₁.engine =
      (.ok (b₁.afresh ((Deed.call call).added? b₁ s₁.engine)), e₂) :=
    Builder.exists_start_eq_ok hstart (hconfig ▸ config.isAllocatable_iff.2 hbytes)
      (hconfig ▸ h) s₁.engine
  refine ⟨hover, fun hbytes => ⟨hreject, hok hbytes⟩, ?_⟩
  rintro w H name steps rfl hname
  refine ⟨?_, fun hbytes => Command.perform_build_of_refused hname (hover hbytes).2 steps⟩
  rw [Command.perform_build_panics_iff hname]
  refine ⟨fun ⟨e', hpanic⟩ => ?_, fun hbytes => ⟨_, (hover hbytes).2⟩⟩
  by_contra hbytes
  by_cases h : barred
  · cases hpanic.symm.trans (hreject h)
  · obtain ⟨e₂, hcall⟩ := hok (Nat.not_le.1 hbytes) h
    cases hpanic.symm.trans hcall

/-- A context, and a builder with a capacity in a slot. -/
def withCapacity (n : UInt64) : World Unit Unit :=
  Command.performAll soleStep
    [.openContext "c" none, .createBuilder "c" "b" (some (.settings [.capacityHint n]))]
    { memory := () }

/-- With the greatest capacity for which there is room the first start succeeds and the second
is refused. With one more the first panics. -/
theorem withCapacity_start_of_capacity :
    let fresh (n : UInt64) : Builder Unit := ⟨⟨0⟩, none, .unbuilt, { capacityHint := n }⟩
    let started (n : UInt64) : Builder Unit :=
      ⟨⟨0⟩, some [], .building, { capacityHint := n }⟩
    let fits := withCapacity 230584300921369395
    let exceeds := withCapacity 230584300921369396
    (fits.shelf.builders.get? "b" = some (fresh 230584300921369395) ∧
      ∃ e, (fresh 230584300921369395).call .startBuild fits.engine =
          (.ok (started 230584300921369395), e) ∧
        (started 230584300921369395).call (.startBuildWith ()) e =
          (.error (.misuse (.alreadyStarted .building)), e.release ⟨0⟩)) ∧
      exceeds.shelf.builders.get? "b" = some (fresh 230584300921369396) ∧
      Command.perform soleStep (.build "b" (.startBuildWith ())) exceeds =
        (.error (.failure (.panic "capacity overflow")),
          { exceeds with
            engine := exceeds.engine.release ⟨0⟩
            shelf := { exceeds.shelf with builders := exceeds.shelf.builders.erase "b" } }) := by
  intro fresh started fits exceeds
  have hroom : (230584300921369395 : UInt64).toNat * Config.actionBytes < Nat.pow 2 63 := by decide
  have hnone : Nat.pow 2 63 ≤ (230584300921369396 : UInt64).toNat * Config.actionBytes := by decide
  have hfirst : (Call.startBuild : Call Unit).isStart = true := rfl
  have hwith : (Call.startBuildWith ()).isStart = true := rfl
  let created (n : UInt64) : Stage Unit :=
    ⟨[.builder (fresh n)], (Builder.create { capacityHint := n } ⟨0⟩ contextAlone.engine).2,
      contextAlone.shelf⟩
  have hput (n : UInt64) : Move (created n) ((withCapacity n).stage []) :=
    .putBuilder (fresh n) rfl
  have hbecomes (n : UInt64) :
      (fresh n).Becomes (created n) ((withCapacity n).stage []) (fresh n) :=
    .aside .refl (.single (hput n)) ((Stage.mem_builders_iff _).2 (.inl ⟨"b", rfl⟩))
  obtain ⟨-, hfits, -⟩ := start_of_capacity (s := contextAlone.stage []) (σ := Unit) _
    (hbecomes 230584300921369395) hfirst
  obtain ⟨e, hstart⟩ := (hfits hroom).2 fun h => h.1 rfl
  have hcalled : (fresh 230584300921369395).Becomes (created 230584300921369395)
      ⟨[.builder (started 230584300921369395)], e, contextAlone.shelf⟩
      (started 230584300921369395) := .call .startBuild .refl hstart
  obtain ⟨-, hagain, -⟩ := start_of_capacity (s := contextAlone.stage []) (σ := Unit) _
    hcalled hwith
  obtain ⟨-, -, hpanic⟩ := start_of_capacity (s := contextAlone.stage []) _
    (hbecomes 230584300921369396) hwith
  exact ⟨⟨rfl, e, hstart, (hagain hroom).1 ⟨nofun, rfl⟩⟩, rfl,
    (hpanic exceeds [] "b" soleStep rfl rfl).2 hnone⟩

/-- A configuration file that asks for the greatest capacity that there is. -/
def boundless : Config.Source := .document "\x7b\"capacity_hint\": 18446744073709551615\x7d"

/-- The file is read without an error, and then the build cannot be started. -/
theorem boundless_start_panics :
    let w := Command.performAll soleStep
      [.openContext "c" none, .createBuilder "c" "b" (some boundless)] { memory := () }
    boundless.read = .ok { capacityHint := 18446744073709551615 } ∧ (w.stage []).Reachable ∧
      w.shelf.builders.get? "b" =
        some ⟨⟨0⟩, none, .unbuilt, { capacityHint := 18446744073709551615 }⟩ ∧
      (Command.perform soleStep (.build "b" .startBuild) w).1 =
        .error (.failure (.panic "capacity overflow")) := by
  intro w
  have hread : boundless.read = .ok { capacityHint := 18446744073709551615 } := by
    rw [← Config.toOption_eq_some]
    decide +kernel
  have hw : w = withCapacity 18446744073709551615 := by
    simp only [w, withCapacity, Command.performAll, List.foldl_cons, Command.perform,
      Option.map_some, hread]
    rfl
  have hreach : (w.stage []).Reachable := Command.reachable_performAll _ _ _ _
  refine ⟨hread, hreach, ?_, ?_⟩
  · rw [hw]
    rfl
  · rw [hw]
    rfl

end TxnAssembly
