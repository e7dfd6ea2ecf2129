import TxnAssembly.Json.Number
import TxnAssembly.Json.Quoted

/-!
# Passing over a value

A value whose content does not matter is checked for its form only. The open
brackets around the current place are kept in a list, innermost first, so the
depth of nesting is not bounded.
-/
namespace TxnAssembly.Json

/-- The two kinds of brackets that enclose other values. -/
inductive Bracket where
  | array
  | object
deriving DecidableEq, Repr

/-- The character that closes a bracket. -/
def Bracket.close : Bracket → Char
  | .array => ']'
  | .object => '\x7d'

/-- Passes over a value that is no bracket. -/
def skipLeaf (cs : List Char) : Except Fault (List Char) :=
  match cs with
  | [] => .error .unfinished
  | c :: rest =>
    if c = 'n' then readWord ['u', 'l', 'l'] rest
    else if c = 't' then readWord ['r', 'u', 'e'] rest
    else if c = 'f' then readWord ['a', 'l', 's', 'e'] rest
    else if c = '"' then skipBody rest
    else if c = '-' then skipNumber rest
    else if c.isDigit then skipNumber (c :: rest)
    else .error .malformed

theorem readWord_length_le {expected cs rest : List Char}
    (h : readWord expected cs = .ok rest) : rest.length ≤ cs.length := by
  simp [readWord_eq_ok.1 h]

theorem skipLeaf_length {cs rest : List Char} (h : skipLeaf cs = .ok rest) :
    rest.length < cs.length := by
  unfold skipLeaf at h
  split at h
  · simp at h
  · repeat' split at h
    · have := readWord_length_le h; simp; omega
    · have := readWord_length_le h; simp; omega
    · have := readWord_length_le h; simp; omega
    · have := skipBody_length h; simp; omega
    · have := skipNumber_length h; simp; omega
    · have := skipNumber_length h; simpa using this
    · simp at h

/-- Reads the colon between a key and its value. -/
def readColon (cs : List Char) : Except Fault (List Char) :=
  match skipBlank cs with
  | [] => .error .unfinished
  | c :: rest => if c = ':' then .ok rest else .error .malformed

theorem readColon_length {cs rest : List Char} (h : readColon cs = .ok rest) :
    rest.length < cs.length := by
  unfold readColon at h
  have := skipBlank_length_le cs
  split at h
  · simp at h
  · next c r hb =>
    rw [hb] at this
    split at h
    · simp only [Except.ok.injEq] at h
      simp [← h] at *; omega
    · simp at h

/-- Passes over a key and its colon. -/
def skipKey (cs : List Char) : Except Fault (List Char) :=
  match skipBlank cs with
  | [] => .error .unfinished
  | c :: rest => if c = '"' then (skipBody rest).bind readColon else .error .malformed

theorem skipKey_length {cs rest : List Char} (h : skipKey cs = .ok rest) :
    rest.length < cs.length := by
  unfold skipKey at h
  have hb := skipBlank_length_le cs
  split at h
  · simp at h
  · next c r hr =>
    rw [hr, List.length_cons] at hb
    split at h
    · cases hs : skipBody r with
      | error fault => simp [hs, Except.bind] at h
      | ok r' =>
        have := skipBody_length hs
        have := readColon_length (by simpa [hs, Except.bind] using h)
        omega
    · simp at h

/-- Prepares for the next value inside `bracket`: an object has a key first. -/
def enter (bracket : Bracket) (cs : List Char) : Except Fault (List Char) :=
  match bracket with
  | .array => .ok cs
  | .object => skipKey cs

theorem enter_length_le {bracket : Bracket} {cs rest : List Char}
    (h : enter bracket cs = .ok rest) : rest.length ≤ cs.length := by
  cases bracket with
  | array => simp only [enter, Except.ok.injEq] at h; simp [h]
  | object => exact Nat.le_of_lt (skipKey_length h)

mutual

/-- Passes over a value inside the brackets `around`, and on to the end of the
outermost of them. -/
def skipValue (around : List Bracket) (cs : List Char) : Except Fault (List Char) :=
  match _hb : skipBlank cs with
  | [] => .error .unfinished
  | c :: rest =>
    if c = '[' then skipFirst .array around rest
    else if c = '\x7b' then skipFirst .object around rest
    else match _hl : skipLeaf (c :: rest) with
      | .error fault => .error fault
      | .ok rest => skipOut around rest
termination_by (cs.length, 0)
decreasing_by
  all_goals
    have hlt := skipBlank_length_le cs
    rw [_hb, List.length_cons] at hlt
    apply Prod.Lex.left
  · omega
  · omega
  · have := skipLeaf_length _hl
    simp only [List.length_cons] at this
    omega

/-- Passes over the inside of a bracket that was just opened. -/
def skipFirst (bracket : Bracket) (around : List Bracket) (cs : List Char) :
    Except Fault (List Char) :=
  match _hb : skipBlank cs with
  | [] => .error .unfinished
  | c :: rest =>
    if c = bracket.close then skipOut around rest
    else match _he : enter bracket (c :: rest) with
      | .error fault => .error fault
      | .ok rest => skipValue (bracket :: around) rest
termination_by (cs.length, 1)
decreasing_by
  all_goals
    have hlt := skipBlank_length_le cs
    rw [_hb, List.length_cons] at hlt
  · apply Prod.Lex.left
    omega
  · have := enter_length_le _he
    simp only [List.length_cons] at this
    rw [Prod.lex_def]
    omega

/-- Goes on behind a value: to the next one inside the same bracket, or out of
it. -/
def skipOut (around : List Bracket) (cs : List Char) : Except Fault (List Char) :=
  match around with
  | [] => .ok cs
  | bracket :: around =>
    match _hb : skipBlank cs with
    | [] => .error .unfinished
    | c :: rest =>
      if c = ',' then
        match _he : enter bracket rest with
        | .error fault => .error fault
        | .ok rest => skipValue (bracket :: around) rest
      else if c = bracket.close then skipOut around rest
      else .error .malformed
termination_by (cs.length, 0)
decreasing_by
  all_goals
    have hlt := skipBlank_length_le cs
    rw [_hb, List.length_cons] at hlt
    apply Prod.Lex.left
  · have := enter_length_le _he
    omega
  · omega

end

/-- Passing over something never lengthens the text; a value and the inside of
a bracket take at least one character. -/
theorem skip_length (n : Nat) :
    (∀ around cs rest, cs.length ≤ n → skipValue around cs = .ok rest →
      rest.length < cs.length) ∧
    (∀ around cs rest, cs.length ≤ n → skipOut around cs = .ok rest →
      rest.length ≤ cs.length) ∧
    (∀ bracket around cs rest, cs.length ≤ n → skipFirst bracket around cs = .ok rest →
      rest.length < cs.length) := by
  induction n using Nat.strongRecOn with
  | ind n ih =>
    have value : ∀ around cs rest, cs.length ≤ n → skipValue around cs = .ok rest →
        rest.length < cs.length := by
      intro around cs rest hn h
      unfold skipValue at h
      have hb := skipBlank_length_le cs
      split at h
      · simp at h
      · next c r hc =>
        rw [hc, List.length_cons] at hb
        split at h
        · have := (ih r.length (by omega)).2.2 _ _ _ _ (Nat.le_refl _) h
          omega
        · split at h
          · have := (ih r.length (by omega)).2.2 _ _ _ _ (Nat.le_refl _) h
            omega
          · split at h
            · simp at h
            · next r' hl =>
              have hl := skipLeaf_length hl
              rw [List.length_cons] at hl
              have := (ih r'.length (by omega)).2.1 _ _ _ (Nat.le_refl _) h
              omega
    refine ⟨value, ?_, ?_⟩
    · intro around cs rest hn h
      unfold skipOut at h
      have hb := skipBlank_length_le cs
      split at h
      · simp only [Except.ok.injEq] at h
        simp [h]
      · split at h
        · simp at h
        · next c r hc =>
          rw [hc, List.length_cons] at hb
          split at h
          · split at h
            · simp at h
            · next r' he =>
              have he := enter_length_le he
              have := (ih r'.length (by omega)).1 _ _ _ (Nat.le_refl _) h
              omega
          · split at h
            · have := (ih r.length (by omega)).2.1 _ _ _ (Nat.le_refl _) h
              omega
            · simp at h
    · intro bracket around cs rest hn h
      unfold skipFirst at h
      have hb := skipBlank_length_le cs
      split at h
      · simp at h
      · next c r hc =>
        rw [hc, List.length_cons] at hb
        split at h
        · have := (ih r.length (by omega)).2.1 _ _ _ (Nat.le_refl _) h
          omega
        · split at h
          · simp at h
          · next r' he =>
            have he := enter_length_le he
            rw [List.length_cons] at he
            have := value _ _ _ (by omega) h
            omega

/-- Any value at all, passed over. -/
def skipAny (cs : List Char) : Except Fault (List Char) := skipValue [] cs

theorem skipAny_length {cs rest : List Char} (h : skipAny cs = .ok rest) :
    rest.length < cs.length :=
  (skip_length cs.length).1 _ _ _ (Nat.le_refl _) h

end TxnAssembly.Json
