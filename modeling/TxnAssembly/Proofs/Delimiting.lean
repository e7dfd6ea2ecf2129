import Mathlib.Data.List.TakeWhile
import TxnAssembly.Proofs.Documents
import TxnAssembly.Proofs.Extension

/-!
# Where a document ends

A document is read up to the bracket that closes it, and it is read the same whatever follows.
So a text that is accepted stays accepted only if blanks are put behind it, and no text that
ends before the closing bracket is accepted.
-/
namespace TxnAssembly.Config

open Json (Keeps Steady Bracket IsBlanks skipBlank)

section Settings

theorem steady_readLabel : Steady false readLabel := by
  intro cs ext
  refine .token fun c rest _ => ?_
  have hsuffix := List.suffix_cons c rest
  refine .ite (fun _ => ?_) fun _ => .ite (fun _ => ?_) fun _ => .error _
  · refine Keeps.trans ?_ hsuffix
    exact ((Json.steady_readWord _ rest ext).mapError _).map (fun _ => rfl) fun _ => rfl
  · refine Keeps.trans ?_ hsuffix
    exact ((Json.steady_readBody rest ext).mapError _).map (fun _ => rfl) fun _ => rfl

theorem steady_readPolicyName : Steady false readPolicyName := by
  intro cs ext
  rw [readPolicyName_eq, readPolicyName_eq]
  refine ((Json.steady_readBody cs ext).mapError _).bind ?_
  rintro ⟨name, rest⟩ -
  simp only [Json.extend_mk]
  cases RestartPolicy.ofName? (String.ofList name) with
  | none => exact .error _
  | some policy => exact .value List.suffix_rfl

theorem steady_readUnit : Steady false readUnit := by
  intro cs ext
  refine .token fun c rest _ => .ite (fun _ => ?_) fun _ => .error _
  exact ((Json.steady_readWord _ rest ext).mapError _).trans (List.suffix_cons c rest)

theorem steady_readObjectEnd : Steady false readObjectEnd := by
  intro cs ext
  refine .token fun c rest _ => .ite (fun _ => ?_) fun _ => .error _
  exact .passed (List.suffix_cons c rest)

theorem steady_readPolicyEntry : Steady false readPolicyEntry := by
  intro cs ext
  refine .token fun c rest _ => .ite (fun _ => ?_) fun _ => .error _
  refine Keeps.trans ?_ (List.suffix_cons c rest)
  refine (steady_readPolicyName rest ext).bind ?_
  rintro ⟨policy, rest⟩ -
  refine ((Json.steady_readColon rest ext).mapError _).bind fun rest _ => ?_
  refine (steady_readUnit rest ext).bind fun rest _ => ?_
  refine (steady_readObjectEnd rest ext).bind fun rest _ => ?_
  exact .value List.suffix_rfl

theorem steady_readPolicy : Steady false readPolicy := by
  intro cs ext
  refine .token fun c rest _ => ?_
  have hsuffix := List.suffix_cons c rest
  refine .ite (fun _ => (steady_readPolicyName rest ext).trans hsuffix) fun _ => ?_
  exact .ite (fun _ => (steady_readPolicyEntry rest ext).trans hsuffix) fun _ => .error _

theorem readSizeAfter_eq (negative : Bool) (cs : List Char) : readSizeAfter negative cs =
    (checked (Json.readNumber negative cs)).bind fun p =>
      (sizeOf p.1).map fun size => (size, p.2) := by
  rw [readSizeAfter]
  cases checked (Json.readNumber negative cs) <;> rfl

theorem steady_readSizeAfter (negative : Bool) : Steady false (readSizeAfter negative) := by
  intro cs ext
  rw [readSizeAfter_eq, readSizeAfter_eq]
  refine ((Json.steady_readNumber negative cs ext).mapError _).bind ?_
  rintro ⟨n, rest⟩ -
  simp only [Json.extend_mk]
  cases sizeOf n with
  | error problem => exact .error _
  | ok size => exact .value List.suffix_rfl

theorem steady_readSize : Steady false readSize := by
  intro cs ext
  refine .token fun c rest _ => ?_
  refine .ite (fun _ => ?_) fun _ => .ite (fun _ => ?_) fun _ => .error _
  · exact (steady_readSizeAfter true rest ext).trans (List.suffix_cons c rest)
  · exact steady_readSizeAfter false (c :: rest) ext

theorem steady_readField (f : Field) (g : Gathered) : Steady false (readField f g) := by
  intro cs ext
  cases f with
  | label => exact (steady_readLabel cs ext).map (fun _ => rfl) fun _ => rfl
  | restartPolicy => exact (steady_readPolicy cs ext).map (fun _ => rfl) fun _ => rfl
  | capacityHint => exact (steady_readSize cs ext).map (fun _ => rfl) fun _ => rfl

theorem steady_readEntry (key : String) (g : Gathered) : Steady false (readEntry key g) := by
  intro cs ext
  unfold readEntry
  have hcolon := (Json.steady_readColon cs ext).mapError Problem.fault
  cases Field.ofName? key with
  | none =>
    refine hcolon.bind fun rest _ => ?_
    refine ((Json.steady_skipAny rest ext).mapError _).bind fun rest _ => ?_
    exact .value List.suffix_rfl
  | some f =>
    refine .ite (fun _ => .error _) fun _ => ?_
    exact hcolon.bind fun rest _ => steady_readField f g rest ext

theorem steady_readMember (g : Gathered) : Steady false (readMember g) := by
  intro cs ext
  refine .token fun c rest _ => .ite (fun _ => ?_) fun _ => .error _
  refine Keeps.trans ?_ (List.suffix_cons c rest)
  refine ((Json.steady_readBody rest ext).mapError _).bind ?_
  rintro ⟨key, rest⟩ -
  exact steady_readEntry (String.ofList key) g rest ext

end Settings

section Document

/-- The members up to the brace: induction on the length of the text. -/
theorem steady_readMembers (g : Gathered) : Steady true (readMembers g) := by
  intro cs ext
  induction hn : cs.length using Nat.strongRecOn generalizing g cs with
  | ind n ih =>
    cases hb : skipBlank cs with
    | nil =>
      rw [Gathered.readMembers_of_nil g hb]
      exact .error _
    | cons c rest =>
      have hsuffix := Json.suffix_of_skipBlank hb
      have hlength := hsuffix.length_le
      rw [List.length_cons] at hlength
      rw [Gathered.readMembers_cons g hb,
        Gathered.readMembers_cons g (Json.skipBlank_extend hb ext)]
      refine Keeps.trans ?_ hsuffix
      refine .ite (fun hc => ?_) fun _ => .ite (fun _ => ?_) fun _ => .error _
      · subst hc
        exact .close .object List.suffix_rfl
      · refine Keeps.trans ?_ (List.suffix_cons c rest)
        refine (steady_readMember g rest ext).bind fun p hp => ?_
        have hlt := readMember_yields g rest p hp
        exact ih p.2.length (by omega) p.1 p.2 rfl

theorem steady_readObject : Steady true readObject := by
  intro cs ext
  refine .token fun c rest _ => .ite (fun hc => ?_) fun _ => ?_
  · subst hc
    exact .close .object List.suffix_rfl
  · refine (steady_readMember {} (c :: rest) ext).bind ?_
    rintro ⟨g, rest⟩ -
    exact steady_readMembers g rest ext

theorem steady_readArrayEnd (g : Gathered) : Steady true (readArrayEnd g) := by
  intro cs ext
  refine .token fun c rest _ => .ite (fun hc => ?_) fun _ => .error _
  subst hc
  exact .close .array List.suffix_rfl

theorem steady_readElements (fields : List Field) (g : Gathered) :
    Steady true (readElements fields g) := by
  intro cs ext
  induction fields generalizing g cs with
  | nil => exact steady_readArrayEnd g cs ext
  | cons f fields ih =>
    refine .token fun c rest _ => .ite (fun hc => ?_) fun _ => .ite (fun _ => ?_) fun _ => .error _
    · subst hc
      exact .close .array List.suffix_rfl
    · refine Keeps.trans ?_ (List.suffix_cons c rest)
      refine .token fun c rest _ => .ite (fun _ => .error _) fun _ => ?_
      refine (steady_readField f g (c :: rest) ext).bind ?_
      rintro ⟨g, rest⟩ -
      exact ih g rest

theorem steady_readArray : Steady true readArray := by
  intro cs ext
  refine .token fun c rest _ => .ite (fun hc => ?_) fun _ => ?_
  · subst hc
    exact .close .array List.suffix_rfl
  · refine (steady_readField .label {} (c :: rest) ext).bind ?_
    rintro ⟨g, rest⟩ -
    exact steady_readElements [.restartPolicy, .capacityHint] g rest ext

theorem steady_readDocument : Steady true readDocument := by
  intro cs ext
  refine .token fun c rest _ => ?_
  have hsuffix := List.suffix_cons c rest
  refine .ite (fun _ => (steady_readArray rest ext).trans hsuffix) fun _ => ?_
  exact .ite (fun _ => (steady_readObject rest ext).trans hsuffix) fun _ => .error _

end Document

theorem isBlanks_of_skipBlank {cs : List Char} (h : (skipBlank cs).isEmpty = true) :
    IsBlanks cs :=
  List.dropWhile_eq_nil_iff.1 (List.isEmpty_iff.1 h)

/-- What is accepted: a document, and blanks behind it. -/
theorem of_parse {t : String} {c : Config} (h : parse t = .ok c) :
    ∃ g rest, readDocument t.toList = .ok (g, rest) ∧ IsBlanks rest ∧ g.config = c := by
  rw [parse] at h
  cases hread : readDocument t.toList with
  | error problem =>
    rw [hread] at h
    cases h
  | ok p =>
    obtain ⟨g, rest⟩ := p
    rw [hread] at h
    cases hblank : (skipBlank rest).isEmpty with
    | false =>
      simp [hblank, Except.bind, bind] at h
    | true =>
      simp only [bind, Except.bind, hblank] at h
      exact ⟨g, rest, rfl, isBlanks_of_skipBlank hblank, Except.ok.inj h⟩

/-- If an accepted text goes on to an accepted text, it goes on with blanks. -/
theorem isBlanks_of_parse {t u : String} {c d : Config} {rest : List Char} (ht : parse t = .ok c)
    (hu : parse u = .ok d) (h : u.toList = t.toList ++ rest) : IsBlanks rest ∧ c = d := by
  obtain ⟨g, left, hread, -, rfl⟩ := of_parse ht
  obtain ⟨g', left', hread', hblank, rfl⟩ := of_parse hu
  have hext := (steady_readDocument t.toList rest (g, left) hread).2 (.inl rfl)
  rw [← h, hread'] at hext
  obtain ⟨rfl, rfl⟩ := Prod.mk.inj (Except.ok.inj hext)
  exact ⟨fun c hc => hblank c (List.mem_append_right left hc), rfl⟩

theorem isBlank_close (bracket : Bracket) : Json.isBlank bracket.close = false := by
  cases bracket <;> rfl

/-- A document ends with its bracket. If one of two accepted texts is the front of the other,
blanks make up the rest, and both give the same configuration. No text that ends before the
bracket of an accepted one is accepted, and none in which something else than blanks follows. -/
theorem parse_delimited {u : String} {d : Config} (hu : parse u = .ok d) :
    (∀ t c rest, parse t = .ok c → u.toList = t.toList ++ rest → IsBlanks rest ∧ c = d) ∧
    (∃ body trail, ∃ bracket : Bracket, u.toList = body ++ bracket.close :: trail ∧
      IsBlanks trail ∧ ∀ t : String, t.toList <+: body → ∀ c, parse t ≠ .ok c) ∧
    ∀ s : String, ¬IsBlanks s.toList → ∀ c, parse (u ++ s) ≠ .ok c := by
  refine ⟨fun t c rest ht h => isBlanks_of_parse ht hu h, ?_, ?_⟩
  · obtain ⟨g, trail, hread, hblank, -⟩ := of_parse hu
    obtain ⟨bracket, body, hbody⟩ := (steady_readDocument u.toList [] (g, trail) hread).1
    refine ⟨body, trail, bracket, hbody.symm, hblank, fun t ⟨more, hmore⟩ c ht => ?_⟩
    -- The bracket would have to be a blank.
    have hrest : u.toList = t.toList ++ (more ++ bracket.close :: trail) := by
      rw [← List.append_assoc, hmore]
      exact hbody.symm
    have hclose := (isBlanks_of_parse ht hu hrest).1 bracket.close (by simp)
    exact Bool.false_ne_true ((isBlank_close bracket).symm.trans hclose)
  · intro s hs c hc
    exact hs (isBlanks_of_parse hu hc String.toList_append).1

/-- A short document, cut off before its bracket and with more behind it. -/
theorem parse_delimited_null : parse "[null] " = .ok {} ∧ (∀ c, parse "[null" ≠ .ok c) ∧
    ∀ c, parse ("[null] " ++ "]") ≠ .ok c := by
  have hread : parse "[null] " = .ok {} := by rfl
  obtain ⟨hfront, -, hmore⟩ := parse_delimited hread
  refine ⟨hread, fun c hc => ?_, hmore "]" (by simp [IsBlanks, Json.isBlank])⟩
  have hblank := (hfront "[null" c [']', ' '] hc rfl).1 ']' (by simp)
  exact absurd hblank (by decide)

end TxnAssembly.Config
