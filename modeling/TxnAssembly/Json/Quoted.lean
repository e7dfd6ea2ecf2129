import TxnAssembly.Json.Fault

/-!
# Quoted texts of JSON

`encode` writes a text between quotes with the fewest escapes; `readBody` reads
any quoted text after its opening quote and returns the characters it stands
for; `skipBody` passes over one without asking which characters it stands for,
so it also takes halves of surrogate pairs.
-/
namespace TxnAssembly.Json

/-- Value of a hexadecimal digit of either case. -/
def hexValue (c : Char) : Option Nat :=
  if '0' ≤ c ∧ c ≤ '9' then some (c.toNat - 48)
  else if 'a' ≤ c ∧ c ≤ 'f' then some (c.toNat - 87)
  else if 'A' ≤ c ∧ c ≤ 'F' then some (c.toNat - 55)
  else none

/-- Value of four hexadecimal digits. -/
def hexQuad (a b c d : Char) : Option Nat := do
  let a ← hexValue a
  let b ← hexValue b
  let c ← hexValue c
  let d ← hexValue d
  return ((a * 16 + b) * 16 + c) * 16 + d

/-- Reads the four digits of a `\u` escape. The text counts as unfinished when
fewer than four bytes of it are left, whatever they are. -/
def readHexQuad (cs : List Char) : Reading Nat :=
  if (cs.take 4).foldl (fun n c => n + c.utf8Size) 0 < 4 then .error .unfinished
  else match cs with
    | a :: b :: c :: d :: rest =>
      match hexQuad a b c d with
      | some n => .ok (n, rest)
      | none => .error .malformed
    | _ => .error .malformed

theorem readHexQuad_length {cs rest : List Char} {n : Nat}
    (h : readHexQuad cs = .ok (n, rest)) : rest.length < cs.length := by
  unfold readHexQuad at h
  split at h
  · simp at h
  · split at h
    · split at h
      · simp only [Except.ok.injEq, Prod.mk.injEq] at h
        simp [← h.2]; omega
      · simp at h
    · simp at h

/-- The characters that a backslash and one letter stand for. -/
def shortEscape (c : Char) : Option Char :=
  match c with
  | '"' => some '"'
  | '\\' => some '\\'
  | '/' => some '/'
  | 'b' => some (Char.ofNat 8)
  | 'f' => some (Char.ofNat 12)
  | 'n' => some '\n'
  | 'r' => some '\r'
  | 't' => some '\t'
  | _ => none

/-- First half of a surrogate pair. -/
def isLeading (n : Nat) : Bool := 0xD800 ≤ n && n ≤ 0xDBFF

/-- Second half of a surrogate pair. -/
def isTrailing (n : Nat) : Bool := 0xDC00 ≤ n && n ≤ 0xDFFF

/-- The character beyond the sixteen-bit range that a surrogate pair denotes. -/
def ofSurrogates (leading trailing : Nat) : Char :=
  Char.ofNat (0x10000 + (leading - 0xD800) * 0x400 + (trailing - 0xDC00))

/-- Reads the second half that has to follow a leading surrogate. -/
def readTrailing (leading : Nat) (cs : List Char) : Reading Char :=
  match cs with
  | [] => .error .unfinished
  | ['\\'] => .error .unfinished
  | '\\' :: 'u' :: rest =>
    match readHexQuad rest with
    | .error fault => .error fault
    | .ok (n, rest) =>
      if isTrailing n then .ok (ofSurrogates leading n, rest) else .error .malformed
  | _ => .error .malformed

theorem readTrailing_length {leading : Nat} {cs rest : List Char} {c : Char}
    (h : readTrailing leading cs = .ok (c, rest)) : rest.length < cs.length := by
  unfold readTrailing at h
  split at h
  · simp at h
  · simp at h
  · split at h
    · simp at h
    · next hq =>
      have := readHexQuad_length hq
      split at h
      · simp only [Except.ok.injEq, Prod.mk.injEq] at h
        obtain ⟨-, rfl⟩ := h
        simp; omega
      · simp at h
  · simp at h

/-- Reads what follows a backslash. -/
def readEscape (cs : List Char) : Reading Char :=
  match cs with
  | [] => .error .unfinished
  | c :: rest =>
    if c = 'u' then
      match readHexQuad rest with
      | .error fault => .error fault
      | .ok (n, rest) =>
        if isTrailing n then .error .malformed
        else if isLeading n then readTrailing n rest
        else .ok (Char.ofNat n, rest)
    else match shortEscape c with
      | some d => .ok (d, rest)
      | none => .error .malformed

theorem readEscape_length {cs rest : List Char} {c : Char}
    (h : readEscape cs = .ok (c, rest)) : rest.length < cs.length := by
  unfold readEscape at h
  split at h
  · simp at h
  · split at h
    · split at h
      · simp at h
      · next hq =>
        have := readHexQuad_length hq
        split at h
        · simp at h
        · split at h
          · have := readTrailing_length h
            simp; omega
          · simp only [Except.ok.injEq, Prod.mk.injEq] at h
            obtain ⟨-, rfl⟩ := h
            simp; omega
    · split at h
      · simp only [Except.ok.injEq, Prod.mk.injEq] at h
        obtain ⟨-, rfl⟩ := h
        simp
      · simp at h

/-- Control characters may not stand unescaped in a quoted text. -/
def isControl (c : Char) : Bool := c.toNat < 0x20

/-- Reads a quoted text from behind its opening quote to behind its closing one. -/
def readBody (cs : List Char) : Reading (List Char) :=
  match cs with
  | [] => .error .unfinished
  | c :: rest =>
    if c = '"' then .ok ([], rest)
    else if c = '\\' then
      match _h : readEscape rest with
      | .error fault => .error fault
      | .ok (d, rest) => (readBody rest).map fun p => (d :: p.1, p.2)
    else if isControl c then .error .malformed
    else (readBody rest).map fun p => (c :: p.1, p.2)
termination_by cs.length
decreasing_by
  all_goals simp_wf
  · have := readEscape_length _h; omega

/-- A quoted text takes at least its closing quote. -/
theorem readBody_length {cs rest t : List Char} (h : readBody cs = .ok (t, rest)) :
    rest.length < cs.length := by
  fun_induction readBody cs generalizing t with
  | case1 => simp at h
  | case2 r =>
    simp only [Except.ok.injEq, Prod.mk.injEq] at h
    simp [h.2]
  | case3 => simp at h
  | case4 r d r' hd _ ih =>
    have := readEscape_length hd
    cases hb : readBody r' with
    | error fault => simp [hb, Except.map] at h
    | ok p =>
      simp only [hb, Except.map, Except.ok.injEq, Prod.mk.injEq] at h
      have := ih (t := p.1) (by rw [hb, ← h.2])
      simp; omega
  | case5 => simp at h
  | case6 c r _ _ _ ih =>
    cases hb : readBody r with
    | error fault => simp [hb, Except.map] at h
    | ok p =>
      simp only [hb, Except.map, Except.ok.injEq, Prod.mk.injEq] at h
      have := ih (t := p.1) (by rw [hb, ← h.2])
      simp; omega

/-- Passes over what follows a backslash. -/
def skipEscape (cs : List Char) : Except Fault (List Char) :=
  match cs with
  | [] => .error .unfinished
  | c :: rest =>
    if c = 'u' then (readHexQuad rest).map Prod.snd
    else if (shortEscape c).isSome then .ok rest
    else .error .malformed

theorem skipEscape_length {cs rest : List Char} (h : skipEscape cs = .ok rest) :
    rest.length < cs.length := by
  unfold skipEscape at h
  split at h
  · simp at h
  · next c r =>
    split at h
    · cases hq : readHexQuad r with
      | error fault => simp [hq, Except.map] at h
      | ok p =>
        simp only [hq, Except.map, Except.ok.injEq] at h
        have : p.2.length < r.length := readHexQuad_length hq
        simp [← h]; omega
    · split at h
      · simp only [Except.ok.injEq] at h
        simp [h]
      · simp at h

/-- Passes over a quoted text from behind its opening quote. -/
def skipBody (cs : List Char) : Except Fault (List Char) :=
  match cs with
  | [] => .error .unfinished
  | c :: rest =>
    if c = '"' then .ok rest
    else if c = '\\' then
      match _h : skipEscape rest with
      | .error fault => .error fault
      | .ok rest => skipBody rest
    else if isControl c then .error .malformed
    else skipBody rest
termination_by cs.length
decreasing_by
  all_goals simp_wf
  · have := skipEscape_length _h; omega

theorem skipBody_length {cs rest : List Char} (h : skipBody cs = .ok rest) :
    rest.length < cs.length := by
  fun_induction skipBody cs with
  | case1 => simp at h
  | case2 r => simp only [Except.ok.injEq] at h; simp [h]
  | case3 => simp at h
  | case4 r r' hr _ ih => have := skipEscape_length hr; have := ih h; simp; omega
  | case5 => simp at h
  | case6 c r _ _ _ ih => have := ih h; simp; omega

/-- Lower-case hexadecimal digit. -/
def hexDigit (n : Nat) : Char :=
  if n < 10 then Char.ofNat (48 + n) else Char.ofNat (87 + n)

/-- One character inside quotes: only the quote, the backslash and the control
characters are escaped. -/
def encodeChar (c : Char) : List Char :=
  if c = '"' then ['\\', '"']
  else if c = '\\' then ['\\', '\\']
  else if c = Char.ofNat 8 then ['\\', 'b']
  else if c = Char.ofNat 12 then ['\\', 'f']
  else if c = '\n' then ['\\', 'n']
  else if c = '\r' then ['\\', 'r']
  else if c = '\t' then ['\\', 't']
  else if isControl c then
    ['\\', 'u', '0', '0', hexDigit (c.toNat / 16), hexDigit (c.toNat % 16)]
  else [c]

/-- A text in quotes. -/
def encode (t : List Char) : List Char :=
  '"' :: t.flatMap encodeChar ++ ['"']

end TxnAssembly.Json
