import TxnAssembly.Json.Value
import TxnAssembly.Proofs.Grammar

/-!
# Reading what the grammar writes

Every reader takes a text of the grammar off the front of what is still to come, whatever
follows. Only a number has to be followed by something that cannot belong to it. So passing
over a value leads to what stands behind it, at any depth of nesting.
-/
namespace TxnAssembly.Json

variable {before cs rest ds body t : List Char} {c : Char}

theorem skipBlank_append (h : IsBlanks before) (cs : List Char) :
    skipBlank (before ++ cs) = skipBlank cs :=
  List.dropWhile_append_of_pos h

theorem skipBlank_cons (h : isBlank c = false) (cs : List Char) :
    skipBlank (c :: cs) = c :: cs :=
  List.dropWhile_cons_of_neg (by simp [h])

/-- Blanks in front of a token are passed over. -/
theorem skipBlank_token (hbefore : IsBlanks before) (hc : isBlank c = false) (cs : List Char) :
    skipBlank (before ++ c :: cs) = c :: cs := by
  rw [skipBlank_append hbefore, skipBlank_cons hc]

@[simp] theorem skipBlank_skipBlank (cs : List Char) : skipBlank (skipBlank cs) = skipBlank cs := by
  induction cs with
  | nil => rfl
  | cons c cs ih =>
    cases hc : isBlank c with
    | true => rwa [skipBlank, skipBlank, List.dropWhile_cons_of_pos hc]
    | false => rw [skipBlank_cons hc, skipBlank_cons hc]

/-- The text does not go on with a digit. -/
def EndsDigits (rest : List Char) : Prop := ∀ c, rest.head? = some c → c.isDigit = false

/-- The text does not go on with anything that belongs to a number. -/
def EndsNumber (rest : List Char) : Prop :=
  ∀ c, rest.head? = some c → c.isDigit = false ∧ c ≠ '.' ∧ isExponentMark c = false

theorem EndsNumber.endsDigits (h : EndsNumber rest) : EndsDigits rest := fun c hc => (h c hc).1

theorem endsNumber_cons (hdigit : c.isDigit = false) (hpoint : c ≠ '.')
    (hmark : isExponentMark c = false) : EndsNumber (c :: cs) := by
  intro d hd
  obtain rfl := Option.some.inj hd
  exact ⟨hdigit, hpoint, hmark⟩

/-- Blanks end a number, and so does the end of an item or of a bracket. -/
theorem endsNumber_append (hbefore : IsBlanks before) (h : EndsNumber rest) :
    EndsNumber (before ++ rest) := by
  cases before with
  | nil => exact h
  | cons c before =>
    have hc : c = ' ' ∨ c = '\t' ∨ c = '\n' ∨ c = '\r' := by
      simpa [isBlank, or_assoc] using hbefore c List.mem_cons_self
    rw [List.cons_append]
    obtain rfl | rfl | rfl | rfl := hc <;> exact endsNumber_cons rfl (by decide) rfl

theorem endsNumber_comma : EndsNumber (',' :: cs) := endsNumber_cons rfl (by decide) rfl

theorem endsNumber_close (bracket : Bracket) : EndsNumber (bracket.close :: cs) := by
  cases bracket <;> exact endsNumber_cons rfl (by decide) rfl

section Quoted

theorem hexValue_of_isHex {n : Nat} (h : IsHex c n) : hexValue c = some n := by
  have hall : ∀ k < 16, hexValue (Nat.digitChar k) = some k ∧
      hexValue (Nat.digitChar k).toUpper = some k := by decide
  obtain ⟨hn, rfl | rfl⟩ := h
  · exact (hall n hn).1
  · exact (hall n hn).2

/-- Four characters have four bytes at least. -/
theorem readHexQuad_cons (a b c d : Char) (rest : List Char) :
    readHexQuad (a :: b :: c :: d :: rest) =
      match hexQuad a b c d with
      | some n => .ok (n, rest)
      | none => .error .malformed := by
  have hbytes : ¬ ([a, b, c, d].foldl (fun n c => n + c.utf8Size) 0 < 4) := by
    have := a.utf8Size_pos
    have := b.utf8Size_pos
    have := c.utf8Size_pos
    have := d.utf8Size_pos
    simp only [List.foldl_cons, List.foldl_nil]
    omega
  exact if_neg hbytes

theorem readHexQuad_of_isQuad {q : List Char} {n : Nat} (h : IsQuad q n) (rest : List Char) :
    readHexQuad (q ++ rest) = .ok (n, rest) := by
  obtain ⟨ha, hb, hc, hd⟩ := h
  rename_i a b c d i j k l
  have hquad : hexQuad a b c d = some (((i * 16 + j) * 16 + k) * 16 + l) := by
    simp [hexQuad, hexValue_of_isHex ha, hexValue_of_isHex hb, hexValue_of_isHex hc,
      hexValue_of_isHex hd]
  rw [List.cons_append, List.cons_append, List.cons_append, List.cons_append, readHexQuad_cons,
    hquad]
  rfl

theorem shortEscape_of_mem {l : Char} (h : (l, c) ∈ escapes) :
    l ≠ 'u' ∧ shortEscape l = some c := by
  simp only [escapes, List.mem_cons, Prod.mk.injEq, List.not_mem_nil, or_false] at h
  obtain ⟨rfl, rfl⟩ | ⟨rfl, rfl⟩ | ⟨rfl, rfl⟩ | ⟨rfl, rfl⟩ | ⟨rfl, rfl⟩ | ⟨rfl, rfl⟩ | ⟨rfl, rfl⟩ |
    ⟨rfl, rfl⟩ := h <;> exact ⟨by decide, rfl⟩

/-- The numbers of characters leave out the halves of pairs. -/
theorem toNat_cases (c : Char) :
    c.toNat < 0xD800 ∨ 0xDFFF < c.toNat ∧ c.toNat < 0x110000 := by
  have hvalid := c.valid
  simp only [UInt32.isValidChar, Nat.isValidChar] at hvalid
  exact hvalid

theorem readEscape_letter {l : Char} (h : (l, c) ∈ escapes) (rest : List Char) :
    readEscape (l :: rest) = .ok (c, rest) := by
  obtain ⟨hu, hl⟩ := shortEscape_of_mem h
  simp only [readEscape, if_neg hu, hl]

theorem readEscape_unit {q : List Char} (hc : c.toNat < 0x10000) (hq : IsQuad q c.toNat)
    (rest : List Char) : readEscape ('u' :: (q ++ rest)) = .ok (c, rest) := by
  have hleading : isLeading c.toNat = false := by
    have := toNat_cases c
    simp only [isLeading, Bool.and_eq_false_iff, decide_eq_false_iff_not]
    omega
  have htrailing : isTrailing c.toNat = false := by
    have := toNat_cases c
    simp only [isTrailing, Bool.and_eq_false_iff, decide_eq_false_iff_not]
    omega
  simp only [readEscape, readHexQuad_of_isQuad hq, htrailing, hleading, Char.ofNat_toNat]
  rfl

/-- The two numbers of a pair give its character back. -/
theorem readEscape_pair {q r : List Char} (hc : 0x10000 ≤ c.toNat)
    (hq : IsQuad q (0xD800 + (c.toNat - 0x10000) / 0x400))
    (hr : IsQuad r (0xDC00 + (c.toNat - 0x10000) % 0x400)) (rest : List Char) :
    readEscape ('u' :: (q ++ '\\' :: 'u' :: (r ++ rest))) = .ok (c, rest) := by
  have hrange := toNat_cases c
  have htrailing : isTrailing (0xD800 + (c.toNat - 0x10000) / 0x400) = false := by
    simp only [isTrailing, Bool.and_eq_false_iff, decide_eq_false_iff_not]
    omega
  have hleading : isLeading (0xD800 + (c.toNat - 0x10000) / 0x400) = true := by
    simp only [isLeading, Bool.and_eq_true, decide_eq_true_eq]
    omega
  have hsecond : isTrailing (0xDC00 + (c.toNat - 0x10000) % 0x400) = true := by
    simp only [isTrailing, Bool.and_eq_true, decide_eq_true_eq]
    omega
  have hsum : 0x10000 + (0xD800 + (c.toNat - 0x10000) / 0x400 - 0xD800) * 0x400 +
      (0xDC00 + (c.toNat - 0x10000) % 0x400 - 0xDC00) = c.toNat := by omega
  simp only [readEscape, readHexQuad_of_isQuad hq, htrailing, hleading, readTrailing,
    readHexQuad_of_isQuad hr, hsecond, ofSurrogates, hsum, Char.ofNat_toNat]
  rfl

theorem readBody_plain (hquote : c ≠ '"') (hbackslash : c ≠ '\\') (hcontrol : isControl c = false)
    (cs : List Char) : readBody (c :: cs) = (readBody cs).map fun p => (c :: p.1, p.2) := by
  rw [readBody, if_neg hquote, if_neg hbackslash, hcontrol]
  rfl

theorem readBody_escape (h : readEscape cs = .ok (c, rest)) :
    readBody ('\\' :: cs) = (readBody rest).map fun p => (c :: p.1, p.2) := by
  rw [readBody]
  simp only [Char.reduceEq, if_false, if_true]
  split
  · next heq => rw [h] at heq; cases heq
  · next heq => rw [h] at heq; cases heq; rfl

/-- A quoted text is read as what it spells. -/
theorem readBody_of_spells (h : Spells body t) (rest : List Char) :
    readBody (body ++ '"' :: rest) = .ok (t, rest) := by
  induction h with
  | nil =>
    rw [List.nil_append, readBody]
    rfl
  | plain hquote hbackslash hcontrol h ih =>
    rw [List.cons_append, readBody_plain hquote hbackslash (by simp [isControl, hcontrol]), ih]
    rfl
  | letter hl h ih =>
    rw [List.cons_append, List.cons_append, readBody_escape (readEscape_letter hl _), ih]
    rfl
  | unit hc hq h ih =>
    rw [List.cons_append, List.cons_append, List.append_assoc,
      readBody_escape (readEscape_unit hc hq _), ih]
    rfl
  | pair hc hq hr h ih =>
    simp only [List.cons_append, List.append_assoc]
    rw [readBody_escape (readEscape_pair hc hq hr _), ih]
    rfl

theorem skipBody_escape (h : skipEscape cs = .ok rest) : skipBody ('\\' :: cs) = skipBody rest := by
  rw [skipBody]
  simp only [Char.reduceEq, if_false, if_true]
  split
  · next heq => rw [h] at heq; cases heq
  · next heq => rw [h] at heq; cases heq; rfl

theorem skipEscape_quad {q : List Char} {n : Nat} (h : IsQuad q n) (rest : List Char) :
    skipEscape ('u' :: (q ++ rest)) = .ok rest := by
  simp only [skipEscape, readHexQuad_of_isQuad h]
  rfl

theorem skipBody_of_spells (h : Spells body t) (rest : List Char) :
    skipBody (body ++ '"' :: rest) = .ok rest := by
  induction h with
  | nil =>
    rw [List.nil_append, skipBody]
    rfl
  | plain hquote hbackslash hcontrol h ih =>
    rw [List.cons_append, skipBody, if_neg hquote, if_neg hbackslash,
      if_neg (by simp [isControl, hcontrol]), ih]
  | letter hl h ih =>
    obtain ⟨hu, hletter⟩ := shortEscape_of_mem hl
    have hskip : ∀ cs, skipEscape (_ :: cs) = .ok cs := fun cs => by
      rw [skipEscape, if_neg hu, hletter]
      rfl
    rw [List.cons_append, List.cons_append, skipBody_escape (hskip _), ih]
  | unit hc hq h ih =>
    rw [List.cons_append, List.cons_append, List.append_assoc,
      skipBody_escape (skipEscape_quad hq _), ih]
  | pair hc hq hr h ih =>
    simp only [List.cons_append, List.append_assoc]
    rw [skipBody_escape (skipEscape_quad hq _), skipBody_escape (skipEscape_quad hr _), ih]

end Quoted

section Numbers

theorem spanDigits_of_isDigits (hds : IsDigits ds) (hrest : EndsDigits rest) :
    spanDigits (ds ++ rest) = (ds, rest) := by
  have hnone : rest.takeWhile Char.isDigit = [] ∧ rest.dropWhile Char.isDigit = rest := by
    cases rest with
    | nil => exact ⟨rfl, rfl⟩
    | cons c rest => simp [hrest c rfl]
  rw [spanDigits, List.takeWhile_append_of_pos hds.2, List.dropWhile_append_of_pos hds.2, hnone.1,
    hnone.2, List.append_nil]

namespace Exponent

variable (e : Exponent)

theorem isExponentMark_mark : isExponentMark e.mark = true := by
  obtain h | h := e.mark_eq <;> simp [isExponentMark, h]

/-- The sign is passed over, and digits follow it. -/
theorem readSign_written (rest : List Char) :
    ∃ negative, readSign (e.sign ++ (e.digits ++ rest)) = (negative, e.digits ++ rest) := by
  obtain ⟨hne, hdigits⟩ := e.isDigits
  obtain h | h | h := e.sign_eq
  · cases hds : e.digits with
    | nil => exact absurd hds hne
    | cons d ds =>
      have hd : d.isDigit = true := hdigits d (hds ▸ List.mem_cons_self)
      refine ⟨false, ?_⟩
      rw [h, List.nil_append, List.cons_append, readSign]
      · rintro r ⟨rfl, -⟩
        exact absurd hd (by decide)
      · rintro r ⟨rfl, -⟩
        exact absurd hd (by decide)
  · exact ⟨false, by rw [h]; rfl⟩
  · exact ⟨true, by rw [h]; rfl⟩

theorem skipExponent_written (h : EndsDigits rest) :
    skipExponent (e.written ++ rest) = .ok rest := by
  obtain ⟨negative, hsign⟩ := e.readSign_written rest
  have hspan := spanDigits_of_isDigits e.isDigits h
  rw [written, List.cons_append, List.cons_append, List.append_assoc, skipExponent,
    if_pos e.isExponentMark_mark, hsign, skipDigits, hspan]
  simp [e.isDigits.1]

end Exponent

theorem exists_real_of_realBefore {x : Except Fault Float} {r : List Char} {k : Number}
    (h : realBefore rest x = .ok (k, r)) : ∃ y, k = .real y := by
  cases x with
  | error fault => cases h
  | ok y =>
    cases h
    exact ⟨y, rfl⟩

/-- What is scaled by an exponent is no whole number any more. -/
theorem exists_real_of_readExponent {negative : Bool} {significand : Nat} {exponent : Int}
    {r : List Char} {k : Number}
    (h : readExponent negative significand exponent cs = .ok (k, r)) : ∃ y, k = .real y := by
  unfold readExponent at h
  split at h
  · exact exists_real_of_realBefore h
  · split at h
    · dsimp only at h
      split at h
      · cases h
      · exact exists_real_of_realBefore h
    · exact exists_real_of_realBefore h

/-- A significand that takes all digits has stayed below the bound. -/
theorem lt_of_absorb {significand : Nat} (hlt : significand < Nat.pow 2 64)
    (h : (absorb significand ds).2 = 0) :
    ds.foldl (fun n d => n * 10 + digitValue d) significand < Nat.pow 2 64 := by
  induction ds generalizing significand with
  | nil => exact hlt
  | cons d ds ih =>
    rw [absorb] at h
    split at h
    · next hnext => exact ih hnext h
    · simp at h

namespace Numeral

variable (n : Numeral)

/-- What stands behind the digits before the point. -/
def tail (rest : List Char) : List Char := n.fractionWritten ++ (n.exponentWritten ++ rest)

theorem unsigned_append (rest : List Char) : n.unsigned ++ rest = n.whole ++ n.tail rest := by
  simp only [unsigned, tail, List.append_assoc]

theorem endsDigits_exponentWritten (h : EndsNumber rest) :
    EndsDigits (n.exponentWritten ++ rest) := by
  rw [exponentWritten]
  split
  · exact h.endsDigits
  · next e _ =>
    intro c hc
    obtain rfl := Option.some.inj hc
    obtain h | h := e.mark_eq <;> rw [h] <;> rfl

theorem endsDigits_tail (h : EndsNumber rest) : EndsDigits (n.tail rest) := by
  rw [tail, fractionWritten]
  split
  · exact n.endsDigits_exponentWritten h
  · intro c hc
    obtain rfl := Option.some.inj hc
    rfl

theorem spanDigits_unsigned (h : EndsNumber rest) :
    spanDigits (n.unsigned ++ rest) = (n.whole, n.tail rest) := by
  rw [unsigned_append]
  exact spanDigits_of_isDigits n.isDigits (n.endsDigits_tail h)

theorem isEmpty_whole : n.whole.isEmpty = false :=
  List.isEmpty_eq_false_iff.2 n.isDigits.1

theorem not_leading_zero : ¬ (n.whole.head? = some '0' ∧ n.whole.length ≠ 1) := by
  rintro ⟨hhead, hlength⟩
  rw [n.eq_zero hhead] at hlength
  exact hlength rfl

theorem skipExponent_exponentWritten (h : EndsNumber rest) :
    skipExponent (n.exponentWritten ++ rest) = .ok rest := by
  rw [exponentWritten]
  split
  · cases rest with
    | nil => rfl
    | cons c rest =>
      rw [List.nil_append, skipExponent, (h c rfl).2.2]
      rfl
  · next e _ => exact e.skipExponent_written h.endsDigits

theorem skipFraction_tail (h : EndsNumber rest) : skipFraction (n.tail rest) = .ok rest := by
  have hexponent := n.skipExponent_exponentWritten h
  rw [tail, fractionWritten]
  split
  · cases htext : n.exponentWritten ++ rest with
    | nil =>
      rw [htext] at hexponent
      exact hexponent
    | cons c cs =>
      have hc : c ≠ '.' := by
        rw [exponentWritten] at htext
        split at htext
        · exact (h c (congrArg List.head? htext)).2.1
        · next e _ =>
          obtain rfl : e.mark = c := (List.cons.inj htext).1
          obtain hmark | hmark := e.mark_eq <;> rw [hmark] <;> decide
      rw [List.nil_append, skipFraction, if_neg hc, ← htext, hexponent]
  · next ds hds =>
    have hdigits := n.isDigits_fraction ds hds
    have hspan := spanDigits_of_isDigits hdigits (n.endsDigits_exponentWritten h)
    rw [List.cons_append, skipFraction, if_pos rfl, skipDigits, hspan]
    simpa [hdigits.1, Except.bind] using hexponent

theorem skipNumber_unsigned (h : EndsNumber rest) : skipNumber (n.unsigned ++ rest) = .ok rest := by
  simp only [skipNumber, n.spanDigits_unsigned h, n.isEmpty_whole, n.not_leading_zero]
  exact n.skipFraction_tail h

/-- Digits alone are read as a whole number as long as it fits. -/
theorem readNumber_of_isPlain (hplain : n.IsPlain) (hlt : ofDigits n.whole < Nat.pow 2 64)
    (h : EndsNumber rest) :
    readNumber false (n.unsigned ++ rest) = .ok (.natural (ofDigits n.whole), rest) := by
  obtain ⟨-, hfraction, hexponent⟩ := hplain
  have htail : n.tail rest = rest := by
    rw [tail, fractionWritten, exponentWritten, hfraction, hexponent]
    rfl
  have habsorb : absorb 0 n.whole = (ofDigits n.whole, 0) := absorb_of_lt 0 n.whole hlt
  simp only [readNumber, n.spanDigits_unsigned h, n.isEmpty_whole, n.not_leading_zero, htail,
    habsorb, Bool.false_eq_true, if_false, if_true]
  cases rest with
  | nil => rfl
  | cons c rest =>
    obtain ⟨-, hpoint, hmark⟩ := h c rfl
    simp only [if_neg hpoint, hmark]
    rfl

/-- A whole number with a sign is no natural one. -/
theorem not_negative_of_ofSignificand {negative : Bool} {m k : Nat}
    (h : Number.ofSignificand negative m = .natural k) : negative = false := by
  cases negative with
  | false => rfl
  | true =>
    simp only [Number.ofSignificand, Bool.not_true, Bool.false_eq_true, if_false] at h
    split at h
    · cases h
    · split at h <;> cases h

/-- Nothing else is read as a natural number. -/
theorem of_readNumber_natural {negative : Bool} {k : Nat} {r : List Char} (h : EndsNumber rest)
    (hread : readNumber negative (n.unsigned ++ rest) = .ok (.natural k, r)) :
    negative = false ∧ n.fraction = none ∧ n.exponent = none ∧ ofDigits n.whole < Nat.pow 2 64 := by
  have hreal : ¬ ∃ y, Number.natural k = .real y := by rintro ⟨y, hy⟩; cases hy
  simp only [readNumber, n.spanDigits_unsigned h, n.isEmpty_whole, n.not_leading_zero,
    Bool.false_eq_true, if_false] at hread
  cases hfraction : n.fraction with
  | some ds =>
    simp only [tail, fractionWritten, hfraction, List.cons_append, if_true] at hread
    split at hread
    · cases hread
    · exact absurd (exists_real_of_readExponent hread) hreal
  | none =>
    cases hexponent : n.exponent with
    | some e =>
      have hpoint : e.mark ≠ '.' := by obtain h | h := e.mark_eq <;> rw [h] <;> decide
      simp only [tail, fractionWritten, exponentWritten, hfraction, hexponent, Exponent.written,
        List.nil_append, List.cons_append, if_neg hpoint, e.isExponentMark_mark, Bool.not_true,
        Bool.false_eq_true, and_false, if_false] at hread
      exact absurd (exists_real_of_readExponent hread) hreal
    | none =>
      have htail : n.tail rest = rest := by
        rw [tail, fractionWritten, exponentWritten, hfraction, hexponent]
        rfl
      -- Only digits that all fit give a whole number.
      have hfits : (absorb 0 n.whole).2 = 0 ∧
          Number.ofSignificand negative (absorb 0 n.whole).1 = .natural k := by
        rw [htail] at hread
        split at hread
        · split at hread
          · next hspare => exact ⟨hspare, (Prod.ext_iff.1 (Except.ok.inj hread)).1⟩
          · exact absurd (exists_real_of_realBefore hread) hreal
        · next c cs =>
          rw [if_neg (h c rfl).2.1] at hread
          split at hread
          · next hspare => exact ⟨hspare.1, (Prod.ext_iff.1 (Except.ok.inj hread)).1⟩
          · exact absurd (exists_real_of_readExponent hread) hreal
      exact ⟨not_negative_of_ofSignificand hfits.2, rfl, rfl, lt_of_absorb (by decide) hfits.1⟩

end Numeral

end Numbers

/-- The character that opens a bracket. -/
def Bracket.opening : Bracket → Char
  | .array => '['
  | .object => '\x7b'

section Steps

variable {around : List Bracket} {bracket : Bracket}

theorem skipValue_of_nil (hb : skipBlank cs = []) : skipValue around cs = .error .unfinished := by
  rw [skipValue]
  split
  · rfl
  · next h => rw [hb] at h; cases h

theorem skipValue_cons (hb : skipBlank cs = c :: rest) : skipValue around cs =
    if c = '[' then skipFirst .array around rest
    else if c = '\x7b' then skipFirst .object around rest
    else (skipLeaf (c :: rest)).bind (skipOut around) := by
  rw [skipValue]
  split
  · next h => rw [hb] at h; cases h
  · next h =>
    rw [hb] at h
    cases h
    cases skipLeaf (c :: rest) <;> rfl

theorem skipFirst_of_nil (hb : skipBlank cs = []) :
    skipFirst bracket around cs = .error .unfinished := by
  rw [skipFirst]
  split
  · rfl
  · next h => rw [hb] at h; cases h

theorem skipFirst_cons (hb : skipBlank cs = c :: rest) : skipFirst bracket around cs =
    if c = bracket.close then skipOut around rest
    else (enter bracket (c :: rest)).bind (skipValue (bracket :: around)) := by
  rw [skipFirst]
  split
  · next h => rw [hb] at h; cases h
  · next h =>
    rw [hb] at h
    cases h
    cases enter bracket (c :: rest) <;> rfl

theorem skipOut_of_nil (hb : skipBlank cs = []) :
    skipOut (bracket :: around) cs = .error .unfinished := by
  rw [skipOut]
  split
  · rfl
  · next h => rw [hb] at h; cases h

theorem skipOut_cons (hb : skipBlank cs = c :: rest) : skipOut (bracket :: around) cs =
    if c = ',' then (enter bracket rest).bind (skipValue (bracket :: around))
    else if c = bracket.close then skipOut around rest
    else .error .malformed := by
  rw [skipOut]
  split
  · next h => rw [hb] at h; cases h
  · next h =>
    rw [hb] at h
    cases h
    cases enter bracket rest <;> rfl

theorem skipValue_of_leaf (hb : skipBlank cs = c :: rest) (harray : c ≠ '[')
    (hobject : c ≠ '\x7b') :
    skipValue around cs = (skipLeaf (c :: rest)).bind (skipOut around) := by
  rw [skipValue_cons hb, if_neg harray, if_neg hobject]

theorem skipValue_of_opening (hb : skipBlank cs = bracket.opening :: rest) :
    skipValue around cs = skipFirst bracket around rest := by
  rw [skipValue_cons hb]
  cases bracket <;> rfl

/-- Blanks in front of a value make no difference. -/
theorem skipValue_skipBlank (cs : List Char) :
    skipValue around (skipBlank cs) = skipValue around cs := by
  have htwice := skipBlank_skipBlank cs
  cases hb : skipBlank cs with
  | nil => rw [skipValue_of_nil hb, skipValue_of_nil rfl]
  | cons c rest =>
    rw [hb] at htwice
    rw [skipValue_cons hb, skipValue_cons htwice]

theorem skipFirst_of_close (hb : skipBlank cs = bracket.close :: rest) :
    skipFirst bracket around cs = skipOut around rest := by
  rw [skipFirst_cons hb, if_pos rfl]

theorem skipOut_of_comma (hb : skipBlank cs = ',' :: rest) :
    skipOut (bracket :: around) cs =
      (enter bracket rest).bind (skipValue (bracket :: around)) := by
  rw [skipOut_cons hb, if_pos rfl]

theorem skipOut_of_close (hb : skipBlank cs = bracket.close :: rest) :
    skipOut (bracket :: around) cs = skipOut around rest := by
  rw [skipOut_cons hb, if_neg (by cases bracket <;> decide), if_pos rfl]

end Steps

section Values

/-- Whether the texts of a value can start with a character. -/
def Value.starts (v : Value) (c : Char) : Bool :=
  match v with
  | .null => c = 'n'
  | .boolean b => c = if b then 't' else 'f'
  | .number _ => c = '-' || c.isDigit
  | .text _ => c = '"'
  | .array _ => c = Bracket.array.opening
  | .object _ => c = Bracket.object.opening

theorem Numeral.exists_unsigned (n : Numeral) :
    ∃ d cs, n.unsigned = d :: cs ∧ d.isDigit = true := by
  obtain ⟨hne, hdigits⟩ := n.isDigits
  cases hwhole : n.whole with
  | nil => exact absurd hwhole hne
  | cons d ds =>
    refine ⟨d, ds ++ (n.fractionWritten ++ n.exponentWritten), ?_, ?_⟩
    · rw [unsigned, hwhole, List.cons_append]
    · exact hdigits d (hwhole ▸ List.mem_cons_self)

theorem Writes.exists_cons {v : Value} (h : Writes v cs) :
    ∃ c tail, cs = c :: tail ∧ v.starts c = true := by
  cases h with
  | number n =>
    rw [Numeral.written]
    split
    · exact ⟨'-', n.unsigned, rfl, rfl⟩
    · obtain ⟨d, cs, hunsigned, hd⟩ := n.exists_unsigned
      exact ⟨d, cs, hunsigned, by rw [Value.starts, hd, Bool.or_true]⟩
  | _ => exact ⟨_, _, rfl, rfl⟩

theorem ne_of_isDigit {d : Char} (hc : c.isDigit = true) (hd : d.isDigit = false) : c ≠ d := by
  rintro rfl
  exact Bool.false_ne_true (hd.symm.trans hc)

theorem not_isDigit_of_isBlank (h : isBlank c = true) : c.isDigit = false := by
  have hc : c = ' ' ∨ c = '\t' ∨ c = '\n' ∨ c = '\r' := by
    simpa [isBlank, or_assoc] using h
  obtain rfl | rfl | rfl | rfl := hc <;> rfl

/-- The first character of a value is no blank and closes nothing. -/
theorem Value.first_of_starts {v : Value} (h : v.starts c = true) :
    isBlank c = false ∧ ∀ bracket : Bracket, c ≠ bracket.close := by
  cases v with
  | boolean b =>
    obtain rfl := of_decide_eq_true h
    cases b <;> exact ⟨rfl, fun bracket => by cases bracket <;> decide⟩
  | number n =>
    obtain h | h := Bool.or_eq_true_iff.1 h
    · obtain rfl := of_decide_eq_true h
      exact ⟨rfl, fun bracket => by cases bracket <;> decide⟩
    · refine ⟨Bool.eq_false_iff.2 fun hblank => ?_, fun bracket => ?_⟩
      · exact Bool.false_ne_true ((not_isDigit_of_isBlank hblank).symm.trans h)
      · exact ne_of_isDigit h (by cases bracket <;> rfl)
  | _ =>
    obtain rfl := of_decide_eq_true h
    exact ⟨rfl, fun bracket => by cases bracket <;> decide⟩

/-- A text does not start with what its value does not start with. -/
theorem ne_of_starts {v : Value} {d : Char} (hc : v.starts c = true) (hd : v.starts d = false) :
    c ≠ d := by
  rintro rfl
  exact Bool.false_ne_true (hd.symm.trans hc)

theorem skipBlank_of_writes {v : Value} (h : Writes v cs) (rest : List Char) :
    skipBlank (cs ++ rest) = cs ++ rest := by
  obtain ⟨c, tail, rfl, hc⟩ := h.exists_cons
  exact skipBlank_cons (Value.first_of_starts hc).1 _

/-- A number is passed over to its end. -/
theorem skipLeaf_written (n : Numeral) (h : EndsNumber rest) :
    skipLeaf (n.written ++ rest) = .ok rest := by
  have hunsigned := n.skipNumber_unsigned h
  rw [Numeral.written]
  split
  · exact hunsigned
  · obtain ⟨d, cs, hcs, hd⟩ := n.exists_unsigned
    rw [hcs, List.cons_append] at hunsigned ⊢
    rw [skipLeaf, if_neg (ne_of_isDigit hd rfl), if_neg (ne_of_isDigit hd rfl),
      if_neg (ne_of_isDigit hd rfl), if_neg (ne_of_isDigit hd rfl),
      if_neg (ne_of_isDigit hd rfl), if_pos hd, hunsigned]

theorem skipLeaf_text (h : Spells body t) (rest : List Char) :
    skipLeaf ('"' :: (body ++ '"' :: rest)) = .ok rest :=
  skipBody_of_spells h rest

/-- A leaf is passed over, and then what is around it. -/
theorem skipValue_leaf {v : Value} {around : List Bracket} (h : Writes v cs)
    (harray : v.starts '[' = false) (hobject : v.starts '\x7b' = false)
    (hleaf : skipLeaf (cs ++ rest) = .ok rest) :
    skipValue around (cs ++ rest) = skipOut around rest := by
  have hblank := skipBlank_of_writes h rest
  obtain ⟨c, tail, rfl, hc⟩ := h.exists_cons
  rw [List.cons_append] at hblank hleaf ⊢
  rw [skipValue_of_leaf hblank (ne_of_starts hc harray) (ne_of_starts hc hobject)]
  exact congrArg (fun r => r.bind (skipOut around)) hleaf

/-- A key and its colon are passed over. -/
theorem skipKey_of_writesKey {key : String} {front : List Char} (h : WritesKey key front)
    (rest : List Char) : skipKey (front ++ rest) = .ok rest := by
  obtain ⟨hbefore, hspells, hafter⟩ := h
  simp only [List.append_assoc, List.cons_append, List.nil_append]
  rw [skipKey, skipBlank_token hbefore rfl]
  simp only [if_true, skipBody_of_spells hspells, Except.bind, readColon,
    skipBlank_token (c := ':') hafter rfl]

theorem skipKey_skipBlank (cs : List Char) : skipKey (skipBlank cs) = skipKey cs := by
  rw [skipKey, skipKey, skipBlank_skipBlank]

/-- The first character of a key is its quote, behind blanks. -/
theorem WritesKey.skipBlank_append {key : String} {front : List Char} (h : WritesKey key front)
    (rest : List Char) : ∃ cs, skipBlank (front ++ rest) = '"' :: cs := by
  obtain ⟨hbefore, hspells, hafter⟩ := h
  simp only [List.append_assoc, List.cons_append]
  exact ⟨_, skipBlank_token hbefore rfl _⟩

/-- Inside of a bracket that has more than blanks in it. -/
theorem skipFirst_eq {bracket : Bracket} {around : List Bracket} (hb : skipBlank cs = c :: rest)
    (hc : c ≠ bracket.close) :
    skipFirst bracket around cs = (enter bracket cs).bind (skipValue (bracket :: around)) := by
  rw [skipFirst_cons hb, if_neg hc, ← hb]
  cases bracket with
  | array => exact skipValue_skipBlank cs
  | object => rw [enter, enter, skipKey_skipBlank]

end Values

section Nesting

theorem skipValue_append {around : List Bracket} (hbefore : IsBlanks before) (cs : List Char) :
    skipValue around (before ++ cs) = skipValue around cs := by
  rw [← skipValue_skipBlank, skipBlank_append hbefore, skipValue_skipBlank]

theorem skipValue_bracket (bracket : Bracket) (around : List Bracket) (inner rest : List Char) :
    skipValue around (bracket.opening :: (inner ++ [bracket.close]) ++ rest) =
      skipFirst bracket around (inner ++ bracket.close :: rest) := by
  have hopening : isBlank bracket.opening = false := by cases bracket <;> rfl
  rw [List.cons_append, List.append_assoc, skipValue_of_opening (skipBlank_cons hopening _)]
  rfl

/-- What stands first in an array does not close it. -/
theorem WritesItems.skipBlank_append {vs : List Value} (h : WritesItems vs cs) (rest : List Char) :
    ∃ c tail, skipBlank (cs ++ rest) = c :: tail ∧ c ≠ Bracket.array.close := by
  cases h with
  | last hbefore h hafter | more hbefore h hafter hmore =>
    obtain ⟨c, tail, rfl, hc⟩ := h.exists_cons
    obtain ⟨hblank, hclose⟩ := Value.first_of_starts hc
    simp only [List.append_assoc, List.cons_append]
    exact ⟨c, _, skipBlank_token hbefore hblank _, hclose _⟩

theorem WritesMembers.skipBlank_append {ms : List (String × Value)} (h : WritesMembers ms cs)
    (rest : List Char) : ∃ tail, skipBlank (cs ++ rest) = '"' :: tail := by
  cases h with
  | last hkey hbefore h hafter | more hkey hbefore h hafter hmore =>
    rw [List.append_assoc]
    exact hkey.skipBlank_append _

mutual

/-- A value is passed over, whatever is around it. -/
theorem skipValue_of_writes {v : Value} {cs : List Char} (h : Writes v cs) (around : List Bracket)
    {rest : List Char} (hrest : EndsNumber rest) :
    skipValue around (cs ++ rest) = skipOut around rest := by
  cases h with
  | null => exact skipValue_leaf .null rfl rfl rfl
  | yes => exact skipValue_leaf .yes rfl rfl rfl
  | no => exact skipValue_leaf .no rfl rfl rfl
  | number n => exact skipValue_leaf (.number n) rfl rfl (skipLeaf_written n hrest)
  | @text body t h =>
    refine skipValue_leaf (.text h) rfl rfl ?_
    rw [List.cons_append, List.append_assoc]
    exact skipLeaf_text h rest
  | @emptyArray blanks h =>
    exact (skipValue_bracket .array around blanks rest).trans
      (skipFirst_of_close (skipBlank_token h rfl rest))
  | @emptyObject blanks h =>
    exact (skipValue_bracket .object around blanks rest).trans
      (skipFirst_of_close (skipBlank_token h rfl rest))
  | @array v vs cs h =>
    obtain ⟨c, tail, hfirst, hc⟩ := h.skipBlank_append (']' :: rest)
    exact (skipValue_bracket .array around cs rest).trans
      ((skipFirst_eq hfirst hc).trans (skipValue_of_writesItems h around rest))
  | @object m ms cs h =>
    obtain ⟨tail, hfirst⟩ := h.skipBlank_append ('\x7d' :: rest)
    exact (skipValue_bracket .object around cs rest).trans
      ((skipFirst_eq hfirst (by decide)).trans (skipValue_of_writesMembers h around rest))

theorem skipValue_of_writesItems {vs : List Value} {cs : List Char} (h : WritesItems vs cs)
    (around : List Bracket) (rest : List Char) :
    skipValue (.array :: around) (cs ++ ']' :: rest) = skipOut around rest := by
  cases h with
  | @last v before cs after hbefore h hafter =>
    have hend : EndsNumber (after ++ ']' :: rest) :=
      endsNumber_append hafter (endsNumber_close .array)
    rw [List.append_assoc, List.append_assoc, skipValue_append hbefore,
      skipValue_of_writes h _ hend]
    exact skipOut_of_close (skipBlank_token hafter rfl rest)
  | @more v vs before cs after more hbefore h hafter hmore =>
    have hend : EndsNumber (after ++ ',' :: (more ++ ']' :: rest)) :=
      endsNumber_append hafter endsNumber_comma
    simp only [List.append_assoc, List.cons_append]
    rw [skipValue_append hbefore, skipValue_of_writes h _ hend,
      skipOut_of_comma (skipBlank_token hafter rfl _)]
    exact skipValue_of_writesItems hmore around rest

theorem skipValue_of_writesMembers {ms : List (String × Value)} {cs : List Char}
    (h : WritesMembers ms cs) (around : List Bracket) (rest : List Char) :
    (skipKey (cs ++ '\x7d' :: rest)).bind (skipValue (.object :: around)) =
      skipOut around rest := by
  cases h with
  | @last key v front before cs after hkey hbefore h hafter =>
    have hend : EndsNumber (after ++ '\x7d' :: rest) :=
      endsNumber_append hafter (endsNumber_close .object)
    simp only [List.append_assoc]
    rw [skipKey_of_writesKey hkey, Except.bind, skipValue_append hbefore,
      skipValue_of_writes h _ hend]
    exact skipOut_of_close (skipBlank_token hafter rfl rest)
  | @more key v ms front before cs after more hkey hbefore h hafter hmore =>
    have hend : EndsNumber (after ++ ',' :: (more ++ '\x7d' :: rest)) :=
      endsNumber_append hafter endsNumber_comma
    simp only [List.append_assoc, List.cons_append]
    rw [skipKey_of_writesKey hkey, Except.bind, skipValue_append hbefore,
      skipValue_of_writes h _ hend, skipOut_of_comma (skipBlank_token hafter rfl _)]
    exact skipValue_of_writesMembers hmore around rest

end

/-- Any value is passed over, if it is not a number that goes on. -/
theorem skipAny_of_writes {v : Value} (hbefore : IsBlanks before) (h : Writes v cs)
    (hrest : EndsNumber rest) : skipAny (before ++ (cs ++ rest)) = .ok rest := by
  rw [skipAny, skipValue_append hbefore, skipValue_of_writes h [] hrest, skipOut]

end Nesting

end TxnAssembly.Json
