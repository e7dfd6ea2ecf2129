import TxnAssembly.Json.Fault

/-!
# Numbers of JSON

A whole number that fits 64 bits stays exact. Every other number becomes a
double: a 64-bit significand takes as many digits as fit, further digits before
the point only move the exponent, further digits behind it are dropped, and the
significand is then scaled by a power of ten.
-/
namespace TxnAssembly.Json

/-- `natural n` has `n < 2 ^ 64`; `negative n` stands for `-n` with
`1 ≤ n ≤ 2 ^ 63`; everything else is `real`. -/
inductive Number where
  | natural (n : Nat)
  | negative (n : Nat)
  | real (x : Float)

/-- The digits at the head of a text, and the text behind them. -/
def spanDigits (cs : List Char) : List Char × List Char :=
  (cs.takeWhile Char.isDigit, cs.dropWhile Char.isDigit)

theorem spanDigits_append (cs : List Char) : (spanDigits cs).1 ++ (spanDigits cs).2 = cs :=
  List.takeWhile_append_dropWhile

theorem spanDigits_length_le (cs : List Char) : (spanDigits cs).2.length ≤ cs.length :=
  (List.dropWhile_suffix Char.isDigit).length_le

def digitValue (c : Char) : Nat := c.toNat - 48

/-- The number that a row of digits spells. -/
def ofDigits (ds : List Char) : Nat :=
  ds.foldl (fun n d => n * 10 + digitValue d) 0

/-- Appends digits to a significand while it stays below `2 ^ 64`; returns it
with the number of digits that no longer fit. -/
def absorb (significand : Nat) (ds : List Char) : Nat × Nat :=
  match ds with
  | [] => (significand, 0)
  | d :: ds =>
    let next := significand * 10 + digitValue d
    if next < Nat.pow 2 64 then absorb next ds else (significand, ds.length + 1)

/-- While the significand fits, absorbing spells out the digits. -/
theorem absorb_of_lt (s : Nat) (ds : List Char)
    (h : ds.foldl (fun n d => n * 10 + digitValue d) s < Nat.pow 2 64) :
    absorb s ds = (ds.foldl (fun n d => n * 10 + digitValue d) s, 0) := by
  induction ds generalizing s with
  | nil => rfl
  | cons d ds ih =>
    have grows : ∀ (l : List Char) (n : Nat),
        n ≤ l.foldl (fun n d => n * 10 + digitValue d) n := by
      intro l
      induction l with
      | nil => simp
      | cons c l ih =>
        intro n
        have := ih (n * 10 + digitValue c)
        simp only [List.foldl_cons]
        omega
    have := grows ds (s * 10 + digitValue d)
    simp only [List.foldl_cons] at h ⊢
    rw [absorb, if_pos (by omega), ih _ h]

/-- The largest power of ten that is a finite double is the 308th. -/
def largestPower : Nat := 308

/-- The double nearest to a power of ten. -/
def powerOfTen (exponent : Nat) : Float := Float.ofScientific 1 false exponent

/-- Divides by a power of ten, in steps that a double can hold. -/
def scaleDown (x : Float) (exponent : Nat) : Float :=
  if _h : exponent ≤ largestPower then x / powerOfTen exponent
  else if x == 0 then x
  else scaleDown (x / powerOfTen largestPower) (exponent - largestPower)
termination_by exponent
decreasing_by simp only [largestPower] at *; omega

/-- `significand * 10 ^ exponent` as a double, unless it is too large for one. -/
def toReal (negative : Bool) (significand : Nat) (exponent : Int) : Except Fault Float :=
  let x := significand.toUInt64.toFloat
  let scaled :=
    if exponent < 0 then scaleDown x exponent.natAbs
    else if exponent ≤ largestPower then x * powerOfTen exponent.natAbs
    else if x == 0 then x
    else 1 / 0
  if scaled.isInf then .error .malformed
  else .ok (if negative then -scaled else scaled)

/-- Whether a text goes on with the mark of an exponent. -/
def isExponentMark (c : Char) : Bool := c = 'e' || c = 'E'

/-- Passes over the sign of an exponent; `true` means it is negative. -/
def readSign (cs : List Char) : Bool × List Char :=
  match cs with
  | '-' :: rest => (true, rest)
  | '+' :: rest => (false, rest)
  | _ => (false, cs)

theorem readSign_length_le (cs : List Char) : (readSign cs).2.length ≤ cs.length := by
  unfold readSign
  split <;> simp

/-- A double read from a text, before the characters behind it. -/
def realBefore (rest : List Char) (x : Except Fault Float) : Reading Number :=
  x.map fun x => (.real x, rest)

theorem realBefore_eq_ok {rest rest' : List Char} {x : Except Fault Float} {n : Number}
    (h : realBefore rest x = .ok (n, rest')) : rest' = rest := by
  cases x with
  | error fault => simp [realBefore, Except.map] at h
  | ok x =>
    simp only [realBefore, Except.map, Except.ok.injEq, Prod.mk.injEq] at h
    exact h.2.symm

/-- Finishes a double whose digits are read: an exponent may still follow. -/
def readExponent (negative : Bool) (significand : Nat) (exponent : Int)
    (cs : List Char) : Reading Number :=
  match cs with
  | [] => realBefore [] (toReal negative significand exponent)
  | c :: rest =>
    if isExponentMark c then
      let sign := readSign rest
      let span := spanDigits sign.2
      if span.1.isEmpty then .error (if span.2.isEmpty then .unfinished else .malformed)
      else
        let shift : Int := ofDigits span.1
        realBefore span.2
          (toReal negative significand (if sign.1 then exponent - shift else exponent + shift))
    else realBefore (c :: rest) (toReal negative significand exponent)

/-- A whole number that fits 64 bits. Below zero the range is smaller, and a
negative zero is a double. -/
def Number.ofSignificand (negative : Bool) (significand : Nat) : Number :=
  if !negative then .natural significand
  else if significand = 0 then .real (-0.0)
  else if significand ≤ Nat.pow 2 63 then .negative significand
  else .real (-significand.toUInt64.toFloat)

/-- Reads a number from behind its sign. -/
def readNumber (negative : Bool) (cs : List Char) : Reading Number :=
  let whole := spanDigits cs
  if whole.1.isEmpty then .error (if cs.isEmpty then .unfinished else .malformed)
  else if whole.1.head? = some '0' ∧ whole.1.length ≠ 1 then .error .malformed
  else
    let (significand, spare) := absorb 0 whole.1
    match whole.2 with
    | [] =>
      if spare = 0 then .ok (.ofSignificand negative significand, [])
      else realBefore [] (toReal negative significand spare)
    | c :: rest =>
      if c = '.' then
        let fraction := spanDigits rest
        if fraction.1.isEmpty then
          .error (if fraction.2.isEmpty then .unfinished else .malformed)
        else
          let (significand, dropped) := absorb significand fraction.1
          readExponent negative significand
            (spare - (fraction.1.length - dropped : Nat)) fraction.2
      else if spare = 0 ∧ !isExponentMark c then
        .ok (.ofSignificand negative significand, c :: rest)
      else readExponent negative significand spare (c :: rest)

/-- Passes over at least one digit. -/
def skipDigits (cs : List Char) : Except Fault (List Char) :=
  if (spanDigits cs).1.isEmpty then .error .malformed else .ok (spanDigits cs).2

/-- Passes over an exponent, if there is one. -/
def skipExponent (cs : List Char) : Except Fault (List Char) :=
  match cs with
  | [] => .ok []
  | c :: rest =>
    if isExponentMark c then skipDigits (readSign rest).2 else .ok (c :: rest)

/-- Passes over a fraction and an exponent, if there are any. -/
def skipFraction (cs : List Char) : Except Fault (List Char) :=
  match cs with
  | [] => .ok []
  | c :: rest =>
    if c = '.' then (skipDigits rest).bind skipExponent else skipExponent (c :: rest)

/-- Passes over a number from behind its sign, whatever its size. -/
def skipNumber (cs : List Char) : Except Fault (List Char) :=
  let whole := spanDigits cs
  if whole.1.isEmpty then .error .malformed
  else if whole.1.head? = some '0' ∧ whole.1.length ≠ 1 then .error .malformed
  else skipFraction whole.2

/-- Passing over digits that are there makes a text shorter. -/
theorem spanDigits_length_lt {cs : List Char} (h : ¬(spanDigits cs).1.isEmpty = true) :
    (spanDigits cs).2.length < cs.length := by
  have hs := congrArg List.length (spanDigits_append cs)
  have := List.length_pos_iff.2 (mt List.isEmpty_iff.2 h)
  simp only [List.length_append] at hs
  omega

theorem skipDigits_length {cs rest : List Char} (h : skipDigits cs = .ok rest) :
    rest.length < cs.length := by
  unfold skipDigits at h
  split at h
  · simp at h
  · next he =>
    simp only [Except.ok.injEq] at h
    exact h ▸ spanDigits_length_lt he

theorem skipExponent_length_le {cs rest : List Char} (h : skipExponent cs = .ok rest) :
    rest.length ≤ cs.length := by
  unfold skipExponent at h
  split at h
  · simp only [Except.ok.injEq] at h; simp [← h]
  · next c r =>
    split at h
    · have := skipDigits_length h
      have := readSign_length_le r
      simp; omega
    · simp only [Except.ok.injEq] at h; simp [← h]

theorem skipFraction_length_le {cs rest : List Char} (h : skipFraction cs = .ok rest) :
    rest.length ≤ cs.length := by
  unfold skipFraction at h
  split at h
  · simp only [Except.ok.injEq] at h; simp [← h]
  · next c r =>
    split at h
    · cases hd : skipDigits r with
      | error fault => simp [hd, Except.bind] at h
      | ok r' =>
        have := skipDigits_length hd
        have := skipExponent_length_le (by simpa [hd, Except.bind] using h)
        simp; omega
    · exact skipExponent_length_le h

theorem skipNumber_length {cs rest : List Char} (h : skipNumber cs = .ok rest) :
    rest.length < cs.length := by
  unfold skipNumber at h
  simp only at h
  split at h
  · simp at h
  · next he =>
    have := spanDigits_length_lt he
    split at h
    · simp at h
    · have := skipFraction_length_le h
      omega

theorem readExponent_length_le {negative : Bool} {s : Nat} {e : Int} {cs rest : List Char}
    {n : Number} (h : readExponent negative s e cs = .ok (n, rest)) :
    rest.length ≤ cs.length := by
  unfold readExponent at h
  split at h
  · simp [realBefore_eq_ok h]
  · next c r =>
    split at h
    · have := readSign_length_le r
      simp only at h
      split at h
      · simp at h
      · next he =>
        have := spanDigits_length_lt he
        simp [realBefore_eq_ok h]; omega
    · simp [realBefore_eq_ok h]

theorem readNumber_length {negative : Bool} {cs rest : List Char} {n : Number}
    (h : readNumber negative cs = .ok (n, rest)) : rest.length < cs.length := by
  unfold readNumber at h
  simp only at h
  split at h
  · simp at h
  · next he =>
    have hlt := spanDigits_length_lt he
    split at h
    · simp at h
    · split at h
      · next hw =>
        rw [hw] at hlt
        split at h
        · simp only [Except.ok.injEq, Prod.mk.injEq] at h
          simpa [← h.2] using hlt
        · simpa [realBefore_eq_ok h] using hlt
      · next c r hw =>
        rw [hw, List.length_cons] at hlt
        split at h
        · have := spanDigits_length_le r
          split at h
          · simp at h
          · have := readExponent_length_le h
            omega
        · split at h
          · simp only [Except.ok.injEq, Prod.mk.injEq] at h
            simpa [← h.2] using hlt
          · have := readExponent_length_le h
            simp only [List.length_cons] at this
            omega

end TxnAssembly.Json
