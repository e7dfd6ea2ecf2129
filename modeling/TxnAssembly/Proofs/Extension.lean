import Mathlib.Tactic.SplitIfs
import TxnAssembly.Json.Yields
import TxnAssembly.Proofs.Scanning

/-!
# Reading a text that goes on

What is read off the front of a text stays the same if more text is put behind it, as long as
something of the first text is left: only a number can go on at the end of a text. A reader
that ends with a bracket reads the same in any case.
-/
namespace TxnAssembly.Json

/-- What a reader returns says what is left of the text. -/
class Leaves (β : Type) where
  left : β → List Char
  extend : β → List Char → β

instance : Leaves (List Char) where
  left rest := rest
  extend rest ext := rest ++ ext

instance {α : Type} : Leaves (α × List Char) where
  left p := p.2
  extend p ext := (p.1, p.2 ++ ext)

open Leaves (left extend)

theorem extend_mk {α : Type} (a : α) (rest ext : List Char) :
    extend (a, rest) ext = (a, rest ++ ext) := rfl

/-- What is left is an end of the text, and a reader that closes has just passed a bracket. -/
def IsLeft (closing : Bool) (cs rest : List Char) : Prop :=
  if closing then ∃ bracket : Bracket, bracket.close :: rest <:+ cs else rest <:+ cs

theorem IsLeft.trans {closing : Bool} {cs cs' rest : List Char} (h : IsLeft closing cs rest)
    (hcs : cs <:+ cs') : IsLeft closing cs' rest := by
  cases closing with
  | false => exact List.IsSuffix.trans h hcs
  | true =>
    obtain ⟨bracket, h⟩ := h
    exact ⟨bracket, h.trans hcs⟩

theorem IsLeft.ne_nil {closing : Bool} {cs rest : List Char} (h : IsLeft closing cs rest)
    (hrest : closing = true ∨ rest ≠ []) : cs ≠ [] := by
  rintro rfl
  cases closing with
  | false => exact hrest.elim nofun fun hne => hne (List.suffix_nil.1 h)
  | true =>
    obtain ⟨bracket, h⟩ := h
    exact List.cons_ne_nil _ _ (List.suffix_nil.1 h)

/-- Blanks in front of a token are the same if the text goes on. -/
theorem skipBlank_extend {cs rest : List Char} {c : Char} (h : skipBlank cs = c :: rest)
    (ext : List Char) : skipBlank (cs ++ ext) = c :: (rest ++ ext) := by
  rw [skipBlank, List.dropWhile_append, ← skipBlank, h]
  rfl

theorem suffix_of_skipBlank {cs rest : List Char} {c : Char} (h : skipBlank cs = c :: rest) :
    c :: rest <:+ cs :=
  h ▸ List.dropWhile_suffix isBlank

/-- `r` is read from `cs`, and `r'` if `ext` stands behind `cs`. -/
def Keeps {ε β : Type} [Leaves β] (closing : Bool) (cs ext : List Char)
    (r r' : Except ε β) : Prop :=
  ∀ b, r = .ok b →
    IsLeft closing cs (left b) ∧ (closing = true ∨ left b ≠ [] → r' = .ok (extend b ext))

/-- Reading is the same on every text that goes on. -/
def Steady {ε β : Type} [Leaves β] (closing : Bool) (f : List Char → Except ε β) : Prop :=
  ∀ cs ext, Keeps closing cs ext (f cs) (f (cs ++ ext))

section Rules

variable {ε ε' β γ : Type} [Leaves β] [Leaves γ] {closing : Bool} {cs cs' ext : List Char}
  {r r' s s' : Except ε β}

namespace Keeps

theorem error (e : ε) : Keeps closing cs ext (.error e) r' := nofun

theorem ok {b : β} (h : left b <:+ cs) :
    Keeps false cs ext (.ok b) (.ok (extend b ext) : Except ε β) := by
  intro b' hb
  cases hb
  exact ⟨h, fun _ => rfl⟩

/-- Reading ends with a value and what is behind it. -/
theorem value {α : Type} {a : α} {rest : List Char} (h : rest <:+ cs) :
    Keeps false cs ext (.ok (a, rest)) (.ok (a, rest ++ ext) : Except ε (α × List Char)) :=
  ok (b := (a, rest)) h

/-- Passing over something ends with what is behind it. -/
theorem passed {rest : List Char} (h : rest <:+ cs) :
    Keeps false cs ext (.ok rest) (.ok (rest ++ ext) : Except ε (List Char)) :=
  ok (b := rest) h

theorem close {b : β} (bracket : Bracket) (h : bracket.close :: left b <:+ cs) :
    Keeps true cs ext (.ok b) (.ok (extend b ext) : Except ε β) := by
  intro b' hb
  cases hb
  exact ⟨⟨bracket, h⟩, fun _ => rfl⟩

theorem trans (h : Keeps closing cs ext r r') (hcs : cs <:+ cs') : Keeps closing cs' ext r r' :=
  fun b hb => ⟨(h b hb).1.trans hcs, (h b hb).2⟩

/-- A text that is read to its end may be read in another way if it goes on. -/
theorem nil (h : ∀ b, r = .ok b → left b = []) : Keeps false cs ext r r' := by
  intro b hb
  refine ⟨?_, fun hne => (hne.elim nofun fun hne => absurd (h b hb) hne)⟩
  rw [h b hb]
  exact List.nil_suffix

theorem map {f : β → γ} (h : Keeps closing cs ext r r') (hleft : ∀ b, left (f b) = left b)
    (hextend : ∀ b, f (extend b ext) = extend (f b) ext) :
    Keeps closing cs ext (r.map f) (r'.map f) := by
  cases r with
  | error e => exact error e
  | ok b =>
    intro b' hb
    cases hb
    obtain ⟨hisLeft, hext⟩ := h b rfl
    rw [hleft]
    refine ⟨hisLeft, fun hne => ?_⟩
    rw [hext hne, Except.map, hextend]

theorem mapError (f : ε → ε') (h : Keeps closing cs ext r r') :
    Keeps closing cs ext (r.mapError f) (r'.mapError f) := by
  cases r with
  | error e => exact error (f e)
  | ok b =>
    intro b' hb
    cases hb
    obtain ⟨hisLeft, hext⟩ := h b rfl
    refine ⟨hisLeft, fun hne => ?_⟩
    rw [hext hne]
    rfl

/-- The second reader needs something to read, so the first one has left something. -/
theorem bind {k : β → Except ε γ} (h : Keeps false cs ext r r')
    (next : ∀ b, r = .ok b → Keeps closing (left b) ext (k b) (k (extend b ext))) :
    Keeps closing cs ext (r.bind k) (r'.bind k) := by
  cases r with
  | error e => exact error e
  | ok b =>
    intro b' hb'
    obtain ⟨hisLeft, hext⟩ := h b rfl
    obtain ⟨hisLeft', hext'⟩ := next b rfl b' hb'
    refine ⟨hisLeft'.trans hisLeft, fun hne => ?_⟩
    rw [hext (.inr (hisLeft'.ne_nil hne))]
    exact hext' hne

theorem ite {p : Prop} [Decidable p] (h : p → Keeps closing cs ext r r')
    (h' : ¬p → Keeps closing cs ext s s') :
    Keeps closing cs ext (if p then r else s) (if p then r' else s') := by
  by_cases hp : p
  · rw [if_pos hp, if_pos hp]
    exact h hp
  · rw [if_neg hp, if_neg hp]
    exact h' hp

/-- A reader that starts with a token. -/
theorem token {e : ε} {g : Char → List Char → Except ε β}
    (h : ∀ c rest, skipBlank cs = c :: rest →
      Keeps closing (c :: rest) ext (g c rest) (g c (rest ++ ext))) :
    Keeps closing cs ext
      (match skipBlank cs with
        | [] => .error e
        | c :: rest => g c rest)
      (match skipBlank (cs ++ ext) with
        | [] => .error e
        | c :: rest => g c rest) := by
  cases hb : skipBlank cs with
  | nil => exact error e
  | cons c rest =>
    rw [skipBlank_extend hb]
    exact (h c rest hb).trans (suffix_of_skipBlank hb)

end Keeps

end Rules

section Quoted

theorem steady_readWord (expected : List Char) : Steady false (readWord expected) := by
  intro cs ext rest h
  obtain rfl := readWord_eq_ok.1 h
  refine ⟨List.suffix_append expected rest, fun _ => readWord_eq_ok.2 ?_⟩
  exact List.append_assoc expected rest ext

theorem steady_readHexQuad : Steady false readHexQuad := by
  intro cs ext p h
  rcases cs with _ | ⟨a, _ | ⟨b, _ | ⟨c, _ | ⟨d, rest⟩⟩⟩⟩
  case cons.cons.cons.cons =>
    rw [readHexQuad_cons] at h
    cases hquad : hexQuad a b c d with
    | none =>
      rw [hquad] at h
      cases h
    | some n =>
      rw [hquad] at h
      cases h
      refine ⟨List.suffix_append [a, b, c, d] rest, fun _ => ?_⟩
      rw [List.cons_append, List.cons_append, List.cons_append, List.cons_append,
        readHexQuad_cons, hquad]
      rfl
  all_goals
    unfold readHexQuad at h
    split at h <;> cases h

/-- The half that has to follow, from behind its mark. -/
theorem readTrailing_mark (leading : Nat) (cs : List Char) :
    readTrailing leading ('\\' :: 'u' :: cs) =
      (readHexQuad cs).bind fun p =>
        if isTrailing p.1 then .ok (ofSurrogates leading p.1, p.2) else .error .malformed := by
  rw [readTrailing]
  cases readHexQuad cs <;> rfl

theorem exists_mark_of_readTrailing {leading : Nat} {cs : List Char} {b : Char × List Char}
    (h : readTrailing leading cs = .ok b) : ∃ rest, cs = '\\' :: 'u' :: rest := by
  unfold readTrailing at h
  split at h
  · cases h
  · cases h
  · exact ⟨_, rfl⟩
  · cases h

theorem steady_readTrailing (leading : Nat) : Steady false (readTrailing leading) := by
  intro cs ext
  cases hread : readTrailing leading cs with
  | error fault => exact .error fault
  | ok b =>
    obtain ⟨rest, rfl⟩ := exists_mark_of_readTrailing hread
    rw [← hread, List.cons_append, List.cons_append, readTrailing_mark, readTrailing_mark]
    have hsuffix : rest <:+ '\\' :: 'u' :: rest :=
      (List.suffix_cons 'u' rest).trans (List.suffix_cons '\\' ('u' :: rest))
    refine Keeps.trans ?_ hsuffix
    refine (steady_readHexQuad rest ext).bind ?_
    rintro ⟨n, behind⟩ -
    simp only [extend_mk]
    refine .ite (fun _ => ?_) (fun _ => .error _)
    exact .value List.suffix_rfl

theorem readEscape_cons (c : Char) (cs : List Char) : readEscape (c :: cs) =
    if c = 'u' then
      (readHexQuad cs).bind fun p =>
        if isTrailing p.1 then .error .malformed
        else if isLeading p.1 then readTrailing p.1 p.2
        else .ok (Char.ofNat p.1, p.2)
    else match shortEscape c with
      | some d => .ok (d, cs)
      | none => .error .malformed := by
  rw [readEscape]
  cases readHexQuad cs <;> rfl

theorem steady_readEscape : Steady false readEscape := by
  intro cs ext
  cases cs with
  | nil => exact .error _
  | cons c cs =>
    rw [List.cons_append, readEscape_cons, readEscape_cons]
    refine Keeps.trans ?_ (List.suffix_cons c cs)
    refine .ite (fun _ => ?_) (fun _ => ?_)
    · refine (steady_readHexQuad cs ext).bind fun p _ => ?_
      refine .ite (fun _ => .error _) fun _ => .ite (fun _ => ?_) (fun _ => ?_)
      · exact steady_readTrailing p.1 p.2 ext
      · exact .value List.suffix_rfl
    · cases shortEscape c with
      | none => exact .error _
      | some d => exact .value List.suffix_rfl

theorem readBody_cons (c : Char) (cs : List Char) : readBody (c :: cs) =
    if c = '"' then .ok ([], cs)
    else if c = '\\' then
      (readEscape cs).bind fun p => (readBody p.2).map fun q => (p.1 :: q.1, q.2)
    else if isControl c then .error .malformed
    else (readBody cs).map fun p => (c :: p.1, p.2) := by
  rw [readBody]
  cases readEscape cs <;> rfl

theorem steady_readBody : Steady false readBody := by
  intro cs ext
  induction hn : cs.length using Nat.strongRecOn generalizing cs with
  | ind n ih =>
    cases cs with
    | nil =>
      rw [readBody]
      exact .error _
    | cons c cs =>
      rw [List.length_cons] at hn
      rw [List.cons_append, readBody_cons, readBody_cons]
      refine Keeps.trans ?_ (List.suffix_cons c cs)
      refine .ite (fun _ => .value List.suffix_rfl) fun _ => ?_
      refine .ite (fun _ => ?_) fun _ => .ite (fun _ => .error _) (fun _ => ?_)
      · refine (steady_readEscape cs ext).bind fun p hp => ?_
        have := readEscape_length hp
        exact (ih _ (by omega) p.2 rfl).map (fun _ => rfl) (fun _ => rfl)
      · exact (ih _ (by omega) cs rfl).map (fun _ => rfl) (fun _ => rfl)

theorem steady_skipEscape : Steady false skipEscape := by
  intro cs ext
  cases cs with
  | nil => exact .error _
  | cons c cs =>
    refine Keeps.trans ?_ (List.suffix_cons c cs)
    refine .ite (fun _ => ?_) fun _ => .ite (fun _ => ?_) (fun _ => .error _)
    · exact (steady_readHexQuad cs ext).map (fun _ => rfl) (fun _ => rfl)
    · exact .passed List.suffix_rfl

theorem skipBody_cons (c : Char) (cs : List Char) : skipBody (c :: cs) =
    if c = '"' then .ok cs
    else if c = '\\' then (skipEscape cs).bind skipBody
    else if isControl c then .error .malformed
    else skipBody cs := by
  rw [skipBody]
  cases skipEscape cs <;> rfl

theorem steady_skipBody : Steady false skipBody := by
  intro cs ext
  induction hn : cs.length using Nat.strongRecOn generalizing cs with
  | ind n ih =>
    cases cs with
    | nil =>
      rw [skipBody]
      exact .error _
    | cons c cs =>
      rw [List.length_cons] at hn
      rw [List.cons_append, skipBody_cons, skipBody_cons]
      refine Keeps.trans ?_ (List.suffix_cons c cs)
      refine .ite (fun _ => .passed List.suffix_rfl) fun _ => ?_
      refine .ite (fun _ => ?_) fun _ => .ite (fun _ => .error _) (fun _ => ?_)
      · refine (steady_skipEscape cs ext).bind fun rest hrest => ?_
        have := skipEscape_length hrest
        exact ih _ (by omega) rest rfl
      · exact ih _ (by omega) cs rfl

end Quoted

section Numbers

variable {cs : List Char}

/-- Digits are taken off a text that goes on as before, unless there is nothing behind them. -/
theorem spanDigits_extend (cs ext : List Char) : (spanDigits cs).2 = [] ∨
    spanDigits (cs ++ ext) = ((spanDigits cs).1, (spanDigits cs).2 ++ ext) := by
  by_cases hnil : (spanDigits cs).2 = []
  · exact .inl hnil
  · have hlength : ¬((cs.takeWhile Char.isDigit).length = cs.length) := by
      intro hlength
      have hsum := congrArg List.length (spanDigits_append cs)
      rw [List.length_append] at hsum
      have hpos := List.length_pos_iff.2 hnil
      have htake : (spanDigits cs).1.length = cs.length := hlength
      omega
    have hdrop : ¬((cs.dropWhile Char.isDigit).isEmpty = true) := mt List.isEmpty_iff.1 hnil
    refine .inr (Prod.ext ?_ ?_)
    · exact List.takeWhile_append.trans (if_neg hlength)
    · exact List.dropWhile_append.trans (if_neg hdrop)

theorem suffix_spanDigits (cs : List Char) : (spanDigits cs).2 <:+ cs :=
  List.dropWhile_suffix Char.isDigit

theorem readSign_cons (c : Char) (cs : List Char) :
    readSign (c :: cs) = if c = '-' then (true, cs) else if c = '+' then (false, cs)
      else (false, c :: cs) := by
  unfold readSign
  split
  · next h => cases h; rfl
  · next h => cases h; rfl
  · next hminus hplus =>
    have hc : c ≠ '-' := by
      rintro rfl
      exact hminus cs rfl
    have hc' : c ≠ '+' := by
      rintro rfl
      exact hplus cs rfl
    rw [if_neg hc, if_neg hc']

theorem readSign_extend (hne : cs ≠ []) (ext : List Char) :
    readSign (cs ++ ext) = ((readSign cs).1, (readSign cs).2 ++ ext) := by
  cases cs with
  | nil => exact absurd rfl hne
  | cons c cs =>
    rw [List.cons_append, readSign_cons, readSign_cons]
    split_ifs <;> rfl

theorem suffix_readSign (cs : List Char) : (readSign cs).2 <:+ cs := by
  cases cs with
  | nil => exact List.suffix_rfl
  | cons c cs =>
    rw [readSign_cons]
    split_ifs
    · exact List.suffix_cons c cs
    · exact List.suffix_cons c cs
    · exact List.suffix_rfl

theorem keeps_realBefore (rest ext : List Char) (x : Except Fault Float) :
    Keeps false rest ext (realBefore rest x) (realBefore (rest ++ ext) x) := by
  cases x with
  | error fault => exact .error fault
  | ok x => exact .value List.suffix_rfl

theorem steady_skipDigits : Steady false skipDigits := by
  intro cs ext
  unfold skipDigits
  obtain hnil | hext := spanDigits_extend cs ext
  · refine .nil fun b h => ?_
    split at h
    · cases h
    · cases h
      exact hnil
  · rw [hext]
    exact .ite (fun _ => .error _) fun _ => .passed (suffix_spanDigits cs)

/-- An exponent needs a digit, so there is something behind its mark. -/
theorem steady_skipExponent : Steady false skipExponent := by
  intro cs ext
  cases cs with
  | nil => exact .nil fun b h => by cases h; rfl
  | cons c cs =>
    rw [List.cons_append]
    refine .ite (fun _ => ?_) fun _ => .passed List.suffix_rfl
    by_cases hne : cs = []
    · subst hne
      exact .error _
    · rw [readSign_extend hne]
      exact (steady_skipDigits (readSign cs).2 ext).trans
        ((suffix_readSign cs).trans (List.suffix_cons c cs))

theorem steady_skipFraction : Steady false skipFraction := by
  intro cs ext
  cases cs with
  | nil => exact .nil fun b h => by cases h; rfl
  | cons c cs =>
    refine .ite (fun _ => ?_) fun _ => steady_skipExponent (c :: cs) ext
    refine Keeps.trans ?_ (List.suffix_cons c cs)
    exact (steady_skipDigits cs ext).bind fun rest _ => steady_skipExponent rest ext

theorem steady_skipNumber : Steady false skipNumber := by
  intro cs ext
  unfold skipNumber
  dsimp only
  obtain hnil | hext := spanDigits_extend cs ext
  · refine .nil fun b h => ?_
    rw [hnil] at h
    split_ifs at h
    cases h
    rfl
  · rw [hext]
    refine .ite (fun _ => .error _) fun _ => .ite (fun _ => .error _) fun _ => ?_
    exact (steady_skipFraction (spanDigits cs).2 ext).trans (suffix_spanDigits cs)

theorem steady_readExponent (negative : Bool) (significand : Nat) (exponent : Int) :
    Steady false (readExponent negative significand exponent) := by
  intro cs ext
  cases cs with
  | nil => exact .nil fun b h => realBefore_eq_ok h
  | cons c cs =>
    rw [List.cons_append]
    refine .ite (fun _ => ?_) fun _ => keeps_realBefore (c :: cs) ext _
    by_cases hne : cs = []
    · subst hne
      exact .error _
    · rw [readSign_extend hne]
      dsimp only
      obtain hnil | hext := spanDigits_extend (readSign cs).2 ext
      · refine .nil fun b h => ?_
        split at h
        · cases h
        · exact (realBefore_eq_ok h).trans hnil
      · rw [hext]
        refine .ite (fun _ => .error _) fun _ => ?_
        have hsuffix := (suffix_spanDigits (readSign cs).2).trans (suffix_readSign cs)
        exact (keeps_realBefore _ ext _).trans (hsuffix.trans (List.suffix_cons c cs))

/-- The part of a number behind its point. -/
theorem keeps_fraction (negative : Bool) (significand spare : Nat) (cs ext : List Char)
    (e e' : Fault) :
    Keeps false cs ext
      (if (spanDigits cs).1.isEmpty then .error e
        else match absorb significand (spanDigits cs).1 with
          | (significand, dropped) => readExponent negative significand
              (spare - ((spanDigits cs).1.length - dropped : Nat)) (spanDigits cs).2)
      (if (spanDigits (cs ++ ext)).1.isEmpty then .error e'
        else match absorb significand (spanDigits (cs ++ ext)).1 with
          | (significand, dropped) => readExponent negative significand
              (spare - ((spanDigits (cs ++ ext)).1.length - dropped : Nat))
              (spanDigits (cs ++ ext)).2) := by
  obtain hnil | hext := spanDigits_extend cs ext
  · refine .nil fun b h => ?_
    rw [hnil] at h
    split at h
    · cases h
    · exact realBefore_eq_ok h
  · rw [hext]
    refine .ite (fun _ => .error _) fun _ => ?_
    exact (steady_readExponent negative _ _ (spanDigits cs).2 ext).trans (suffix_spanDigits cs)

theorem steady_readNumber (negative : Bool) : Steady false (readNumber negative) := by
  intro cs ext
  have hsuffix := suffix_spanDigits cs
  unfold readNumber
  dsimp only
  cases hrest : (spanDigits cs).2 with
  | nil =>
    refine .nil fun b h => ?_
    split_ifs at h
    · cases h
      rfl
    · exact realBefore_eq_ok h
  | cons c rest =>
    have hne : (spanDigits cs).2 ≠ [] := hrest ▸ List.cons_ne_nil c rest
    rw [(spanDigits_extend cs ext).resolve_left hne, hrest]
    rw [hrest] at hsuffix
    refine .ite (fun _ => .error _) fun _ => .ite (fun _ => .error _) fun _ => ?_
    refine Keeps.trans ?_ hsuffix
    refine .ite (fun _ => ?_) fun _ => .ite (fun _ => .value List.suffix_rfl) fun _ => ?_
    · exact (keeps_fraction negative _ _ rest ext _ _).trans (List.suffix_cons c rest)
    · exact steady_readExponent negative _ _ (c :: rest) ext

end Numbers

section Values

theorem steady_skipLeaf : Steady false skipLeaf := by
  intro cs ext
  cases cs with
  | nil => exact .error _
  | cons c cs =>
    have hsuffix := List.suffix_cons c cs
    rw [List.cons_append]
    refine .ite (fun _ => (steady_readWord _ cs ext).trans hsuffix) fun _ => ?_
    refine .ite (fun _ => (steady_readWord _ cs ext).trans hsuffix) fun _ => ?_
    refine .ite (fun _ => (steady_readWord _ cs ext).trans hsuffix) fun _ => ?_
    refine .ite (fun _ => (steady_skipBody cs ext).trans hsuffix) fun _ => ?_
    refine .ite (fun _ => (steady_skipNumber cs ext).trans hsuffix) fun _ => ?_
    exact .ite (fun _ => steady_skipNumber (c :: cs) ext) fun _ => .error _

theorem steady_readColon : Steady false readColon := by
  intro cs ext
  refine .token fun c rest _ => ?_
  exact .ite (fun _ => .passed (List.suffix_cons c rest)) fun _ => .error _

theorem steady_skipKey : Steady false skipKey := by
  intro cs ext
  refine .token fun c rest _ => .ite (fun _ => ?_) fun _ => .error _
  refine Keeps.trans ?_ (List.suffix_cons c rest)
  exact (steady_skipBody rest ext).bind fun rest _ => steady_readColon rest ext

theorem steady_enter (bracket : Bracket) : Steady false (enter bracket) := by
  intro cs ext
  cases bracket with
  | array => exact .passed List.suffix_rfl
  | object => exact steady_skipKey cs ext

/-- Passing over shorter texts is the same if they go on. -/
structure SkipsBelow (ext : List Char) (n : Nat) : Prop where
  value : ∀ around cs, cs.length < n →
    Keeps false cs ext (skipValue around cs) (skipValue around (cs ++ ext))
  out : ∀ around cs, cs.length < n →
    Keeps false cs ext (skipOut around cs) (skipOut around (cs ++ ext))
  first : ∀ bracket around cs, cs.length < n →
    Keeps false cs ext (skipFirst bracket around cs) (skipFirst bracket around (cs ++ ext))

namespace SkipsBelow

variable {cs ext : List Char} {n : Nat}

theorem mono {m : Nat} (h : SkipsBelow ext n) (hle : m ≤ n) : SkipsBelow ext m where
  value around cs hcs := h.value around cs (by omega)
  out around cs hcs := h.out around cs (by omega)
  first bracket around cs hcs := h.first bracket around cs (by omega)

theorem keeps_skipValue (h : SkipsBelow ext cs.length) (around : List Bracket) :
    Keeps false cs ext (skipValue around cs) (skipValue around (cs ++ ext)) := by
  cases hb : skipBlank cs with
  | nil =>
    rw [skipValue_of_nil hb]
    exact .error _
  | cons c rest =>
    have hsuffix := suffix_of_skipBlank hb
    have hlength := hsuffix.length_le
    rw [List.length_cons] at hlength
    rw [skipValue_cons hb, skipValue_cons (skipBlank_extend hb ext)]
    refine Keeps.trans ?_ hsuffix
    have hfirst bracket := (h.first bracket around rest (by omega)).trans (List.suffix_cons c rest)
    refine .ite (fun _ => hfirst .array) fun _ => .ite (fun _ => hfirst .object) fun _ => ?_
    refine (steady_skipLeaf (c :: rest) ext).bind fun behind hbehind => ?_
    have hlt := skipLeaf_length hbehind
    rw [List.length_cons] at hlt
    exact h.out around behind (by omega)

theorem keeps_skipOut (h : SkipsBelow ext cs.length) (around : List Bracket) :
    Keeps false cs ext (skipOut around cs) (skipOut around (cs ++ ext)) := by
  cases around with
  | nil =>
    rw [skipOut, skipOut]
    exact .passed List.suffix_rfl
  | cons bracket around =>
    cases hb : skipBlank cs with
    | nil =>
      rw [skipOut_of_nil hb]
      exact .error _
    | cons c rest =>
      have hsuffix := suffix_of_skipBlank hb
      have hlength := hsuffix.length_le
      rw [List.length_cons] at hlength
      rw [skipOut_cons hb, skipOut_cons (skipBlank_extend hb ext)]
      refine Keeps.trans ?_ ((List.suffix_cons c rest).trans hsuffix)
      refine .ite (fun _ => ?_) fun _ => .ite (fun _ => ?_) fun _ => .error _
      · refine (steady_enter bracket rest ext).bind fun behind hbehind => ?_
        have hle := enter_length_le hbehind
        exact h.value (bracket :: around) behind (by omega)
      · exact h.out around rest (by omega)

theorem keeps_skipFirst (h : SkipsBelow ext cs.length) (bracket : Bracket)
    (around : List Bracket) :
    Keeps false cs ext (skipFirst bracket around cs) (skipFirst bracket around (cs ++ ext)) := by
  cases hb : skipBlank cs with
  | nil =>
    rw [skipFirst_of_nil hb]
    exact .error _
  | cons c rest =>
    have hsuffix := suffix_of_skipBlank hb
    have hlength := hsuffix.length_le
    rw [skipFirst_cons hb, skipFirst_cons (skipBlank_extend hb ext)]
    refine Keeps.trans ?_ hsuffix
    refine .ite (fun _ => ?_) fun _ => ?_
    · have hshort : rest.length < cs.length := hlength
      exact (h.out around rest hshort).trans (List.suffix_cons c rest)
    · -- An array is entered without a character being read: the value is not shorter.
      refine (steady_enter bracket (c :: rest) ext).bind fun behind hbehind => ?_
      have hle : behind.length ≤ cs.length := Nat.le_trans (enter_length_le hbehind) hlength
      exact (h.mono hle).keeps_skipValue (bracket :: around)

end SkipsBelow

theorem skipsBelow (ext : List Char) (n : Nat) : SkipsBelow ext n := by
  induction n with
  | zero => exact ⟨nofun, nofun, nofun⟩
  | succ n ih =>
    have hbelow {cs : List Char} (hcs : cs.length < n + 1) : SkipsBelow ext cs.length :=
      ih.mono (Nat.le_of_lt_succ hcs)
    exact ⟨fun around _ hcs => (hbelow hcs).keeps_skipValue around,
      fun around _ hcs => (hbelow hcs).keeps_skipOut around,
      fun bracket around _ hcs => (hbelow hcs).keeps_skipFirst bracket around⟩

theorem steady_skipAny : Steady false skipAny :=
  fun cs ext => (skipsBelow ext cs.length).keeps_skipValue []

end Values

end TxnAssembly.Json
